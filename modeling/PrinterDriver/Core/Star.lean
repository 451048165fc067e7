import PrinterDriver.Core.Types
import PrinterDriver.Lib.Scanning

/-! # The Star backchannel

The Star fences and the incremental parser of the Star stream: `ESC GS ETX` answers of eight bytes,
ASB blocks of the length the profile declares, and unclassified bytes. Like the ESC/POS parser it is a
lawful scanner. -/

namespace PrinterDriver.Core.Star

open PrinterDriver.Core.Types PrinterDriver.Lib.Scanning

/-- `ESC GS ETX`: the four bytes that open an answer (and the fence). -/
def kEtxPrefix : Bytes := [0x1B, 0x1D, 0x03, 0x01]

def kEscGsEtxResponseBytes : ℕ := 8

def etbFence : Bytes := [0x17]

def asbEnable : Bytes := [0x1B, 0x1E, 0x61, 0x01]

def clearEtbCounter : Bytes := [0x1B, 0x1E, 0x45, 0x00]

/-- ASB bit 6 is counter bit 4, bit 5 is 3, bit 3 is 2, bit 2 is 1, bit 1 is 0. -/
def etbCounter (statusByte : UInt8) : UInt8 :=
  ((statusByte &&& 0x60) >>> 2) ||| ((statusByte &&& 0x0E) >>> 1)

def nextEtbCounter (counter : UInt8) : UInt8 := (counter + 1) &&& 0x1F

/-- The counter of a block; one of fewer than eight bytes carries none. -/
def blockCounter (frame : Bytes) : UInt8 := if 7 < frame.length then etbCounter (frame.getD 7 0) else 0

def escGsEtxFence (n1 n2 : UInt8) : Bytes := kEtxPrefix ++ [n1, n2]

inductive Event where
  | etxAck (n1 n2 counter : UInt8)
  | asbStatus (frame : Bytes) (counter : UInt8)
  | unknownByte (byte : UInt8)
  deriving DecidableEq, Repr

structure StarParser where
  buffer : Bytes := []
  asbBlockBytes : UInt8 := 0
  deriving DecidableEq, Repr

inductive Step where
  | emitted (event : Event) (next : StarParser)
  | needMore
  | empty
  deriving DecidableEq, Repr

namespace StarParser

/-- The held bytes are dropped; the block length stays. -/
def reset (p : StarParser) : StarParser := { p with buffer := [] }

def setAsbBlockBytes (p : StarParser) (n : UInt8) : StarParser := { p with asbBlockBytes := n }

/-- The bytes in hand begin like an answer, as far as there are any. -/
def etxPossible (buffer : Bytes) : Bool := buffer.take 4 = kEtxPrefix.take buffer.length

def step (p : StarParser) (force : Bool) : Step :=
  match p.buffer with
  | [] => .empty
  | first :: rest =>
    if first = 0x1B then
      if !etxPossible p.buffer then .emitted (.unknownByte first) { p with buffer := rest }
      else if p.buffer.length < kEscGsEtxResponseBytes then
        if force then .emitted (.unknownByte first) { p with buffer := rest } else .needMore
      else
        .emitted (.etxAck (p.buffer.getD 4 0) (p.buffer.getD 5 0) (p.buffer.getD 6 0))
          { p with buffer := p.buffer.drop kEscGsEtxResponseBytes }
    else if 0 < p.asbBlockBytes then
      if p.buffer.length < p.asbBlockBytes.toNat then
        if force then .emitted (.unknownByte first) { p with buffer := rest } else .needMore
      else
        .emitted (.asbStatus (p.buffer.take p.asbBlockBytes.toNat)
            (blockCounter (p.buffer.take p.asbBlockBytes.toNat)))
          { p with buffer := p.buffer.drop p.asbBlockBytes.toNat }
    else .emitted (.unknownByte first) { p with buffer := rest }

/-- Steps while they emit, at most as many as the fuel. -/
def drain (force : Bool) : ℕ → StarParser → List Event × StarParser
  | 0, p => ([], p)
  | n + 1, p =>
    match p.step force with
    | .emitted e q => (e :: (drain force n q).1, (drain force n q).2)
    | .needMore | .empty => ([], p)

/-- Every step that emits takes a byte, so the held bytes are fuel enough. -/
def feed (p : StarParser) (data : Bytes) : List Event × StarParser :=
  drain false (p.buffer ++ data).length { p with buffer := p.buffer ++ data }

def flush (p : StarParser) : List Event × StarParser := drain true p.buffer.length p

/-! ### What a step does -/

/-- The steps of `feed`, each with the case it is taken in. -/
inductive Emits (p : StarParser) : Event → StarParser → Prop
  | etx (hlen : kEscGsEtxResponseBytes ≤ p.buffer.length) (hpre : p.buffer.take 4 = kEtxPrefix) :
      Emits p (.etxAck (p.buffer.getD 4 0) (p.buffer.getD 5 0) (p.buffer.getD 6 0))
        { p with buffer := p.buffer.drop kEscGsEtxResponseBytes }
  | asb (hpos : 0 < p.asbBlockBytes.toNat) (hlen : p.asbBlockBytes.toNat ≤ p.buffer.length)
      (hfirst : p.buffer[0]? ≠ some 0x1B) :
      Emits p (.asbStatus (p.buffer.take p.asbBlockBytes.toNat)
          (blockCounter (p.buffer.take p.asbBlockBytes.toNat)))
        { p with buffer := p.buffer.drop p.asbBlockBytes.toNat }
  | unknown (first : UInt8) (rest : Bytes) (hb : p.buffer = first :: rest)
      (hcase : (first = 0x1B ∧ etxPossible p.buffer = false) ∨
        (first ≠ 0x1B ∧ p.asbBlockBytes = 0)) :
      Emits p (.unknownByte first) { p with buffer := rest }

theorem step_emits {p q : StarParser} {e : Event} (h : p.step false = .emitted e q) :
    Emits p e q := by
  unfold step at h
  cases hb : p.buffer with
  | nil => simp [hb] at h
  | cons first rest =>
    simp only [hb, Bool.false_eq_true, if_false] at h
    rw [← hb] at h
    split_ifs at h with h1 h2 h3 h4 h5
    · cases h
      exact .unknown first rest hb (.inl ⟨h1, by simpa using h2⟩)
    · cases h
      have hlen : kEscGsEtxResponseBytes ≤ p.buffer.length := not_lt.mp h3
      refine .etx hlen ?_
      have h8 : kEtxPrefix.length ≤ p.buffer.length := le_trans (by decide) hlen
      have hpre : p.buffer.take 4 = kEtxPrefix.take p.buffer.length := by
        simpa [etxPossible] using h2
      rwa [List.take_of_length_le h8] at hpre
    · cases h
      exact .asb h4 (not_lt.mp h5) (by simpa [hb] using h1)
    · cases h
      refine .unknown first rest hb (.inr ⟨h1, ?_⟩)
      simpa using h4

/-! ### The parser as a scanner -/

def push (p : StarParser) (x : Bytes) : StarParser := { p with buffer := p.buffer ++ x }

/-- The steps that `feed` takes. -/
def scanner : Scanner UInt8 Event StarParser where
  step p :=
    match p.step false with
    | .emitted e q => some (e, q)
    | .needMore | .empty => none
  push := push
  size p := p.buffer.length

theorem scanner_step {p q : StarParser} {e : Event} :
    scanner.step p = some (e, q) ↔ p.step false = .emitted e q := by
  show (match p.step false with | .emitted e q => some (e, q) | .needMore | .empty => none) = _ ↔ _
  cases p.step false <;> simp

theorem drain_eq (n : ℕ) (p : StarParser) : p.drain false n = scanner.drain n p := by
  induction n generalizing p with
  | zero => rfl
  | succ n ih =>
    simp only [drain, Scanner.drain]
    cases h : p.step false with
    | emitted e q => simp [scanner_step.mpr h, ih]
    | needMore | empty => simp [scanner, h]

theorem feed_eq (p : StarParser) (x : Bytes) : p.feed x = scanner.feed p x := drain_eq _ _

/-- Bytes that rule an answer out do so whatever follows. -/
theorem etxPossible_append {b : Bytes} (x : Bytes) (h : etxPossible (b ++ x) = true) :
    etxPossible b = true := by
  simp only [etxPossible, decide_eq_true_eq] at h ⊢
  have h4 : kEtxPrefix.length = 4 := rfl
  have hb := congrArg (List.take b.length) h
  rw [List.take_take, List.take_take, List.length_append,
    show min b.length (b.length + x.length) = b.length by omega] at hb
  rw [← hb]
  by_cases hl : 4 ≤ b.length
  · rw [min_eq_right hl, List.take_append_of_le_length hl]
  · rw [min_eq_left (by omega), List.take_append_of_le_length (le_refl _), List.take_length,
      List.take_of_length_le (by omega)]

theorem etxPossible_whole {b : Bytes} (x : Bytes) (h : 4 ≤ b.length) :
    etxPossible (b ++ x) = etxPossible b := by
  have hpre : ∀ n, 4 ≤ n → kEtxPrefix.take n = kEtxPrefix := fun n hn => List.take_of_length_le hn
  have hx : 4 ≤ (b ++ x).length := by
    rw [List.length_append]
    omega
  simp only [etxPossible, hpre _ h, hpre _ hx, List.take_append_of_le_length h]

/-- More input does not change a step. -/
theorem step_push {p q : StarParser} {e : Event} (x : Bytes) (h : p.step false = .emitted e q) :
    (p.push x).step false = .emitted e (q.push x) := by
  have hx : (p.push x).buffer = p.buffer ++ x := rfl
  unfold step at h ⊢
  rw [hx]
  cases hb : p.buffer with
  | nil => simp [hb] at h
  | cons first rest =>
    have hcons : first :: (rest ++ x) = first :: rest ++ x := rfl
    simp only [hb, Bool.false_eq_true, if_false] at h
    simp only [List.cons_append, Bool.false_eq_true, if_false]
    split_ifs at h with h1 h2 h3 h4 h5
    · cases h
      have hno : etxPossible (first :: (rest ++ x)) = false := by
        by_contra hd
        have := etxPossible_append (b := first :: rest) x (by simpa using hd)
        simp [this] at h2
      rw [if_pos h1, if_pos (by simp [hno])]
      rfl
    · cases h
      have hlen : 8 ≤ (first :: rest).length := not_lt.mp h3
      have hyes : etxPossible (first :: (rest ++ x)) = true := by
        rw [hcons, etxPossible_whole x (by omega)]
        simpa using h2
      have hlong : ¬ (first :: (rest ++ x)).length < kEscGsEtxResponseBytes := by
        rw [hcons, List.length_append, kEscGsEtxResponseBytes]
        omega
      rw [if_pos h1, if_neg (by simp [hyes]), if_neg hlong]
      have hget : ∀ i < 8, (first :: rest ++ x).getD i 0 = (first :: rest).getD i 0 := by
        intro i hi
        rw [List.getD_eq_getElem?_getD, List.getD_eq_getElem?_getD,
          List.getElem?_append_left (by omega)]
      simp only [hcons, hget 4 (by omega), hget 5 (by omega), hget 6 (by omega), push,
        List.drop_append_of_le_length hlen, kEscGsEtxResponseBytes]
    · cases h
      have hlen : p.asbBlockBytes.toNat ≤ (first :: rest).length := not_lt.mp h5
      have hlong : ¬ (first :: (rest ++ x)).length < p.asbBlockBytes.toNat := by
        rw [hcons, List.length_append]
        omega
      rw [if_neg h1]
      refine (if_pos h4).trans ((if_neg hlong).trans ?_)
      simp only [hcons, push, List.take_append_of_le_length hlen,
        List.drop_append_of_le_length hlen]
    · cases h
      rw [if_neg h1]
      exact if_neg h4

theorem scanner_lawful : scanner.Lawful where
  consumes p e q h := by
    have hs := step_emits (scanner_step.mp h)
    show q.buffer.length < p.buffer.length
    cases hs with
    | etx hlen =>
      unfold kEscGsEtxResponseBytes at *
      simp only [List.length_drop]
      omega
    | asb hpos hlen => simp only [List.length_drop]; omega
    | unknown _ _ hb => simp [hb]
  keeps p e q x h := scanner_step.mpr (step_push x (scanner_step.mp h))
  push_push p x y := by
    show ({ p with buffer := p.buffer ++ x ++ y } : StarParser) = _
    rw [List.append_assoc]
    rfl

/-- **Reads may be cut anywhere.** -/
theorem feed_append (p : StarParser) (x y : Bytes) :
    p.feed (x ++ y) =
      ((p.feed x).1 ++ ((p.feed x).2.feed y).1, ((p.feed x).2.feed y).2) := by
  simp only [feed_eq]
  exact Scanner.feed_append scanner_lawful p x y

/-! ### Parsers that wait -/

/-- The bytes that a parser holds between two reads: part of an answer, or of a block. -/
theorem held_of_step_none {p : StarParser} (h : scanner.step p = none) (hne : p.buffer ≠ []) :
    (p.buffer[0]? = some 0x1B ∧ etxPossible p.buffer = true ∧
      p.buffer.length < kEscGsEtxResponseBytes) ∨
    (p.buffer[0]? ≠ some 0x1B ∧ p.buffer.length < p.asbBlockBytes.toNat) := by
  obtain ⟨first, rest, hb⟩ := List.exists_cons_of_ne_nil hne
  have hstep : ∀ e q, p.step false ≠ .emitted e q := by
    intro e q he
    rw [scanner_step.mpr he] at h
    cases h
  have hfirst : p.buffer[0]? = some first := by rw [hb]; rfl
  unfold step at hstep
  simp only [hb, Bool.false_eq_true, if_false] at hstep
  rw [← hb] at hstep
  rw [hfirst]
  split_ifs at hstep with h1 h2 h3 h4 h5
  · exact absurd rfl (hstep _ _)
  · exact .inl ⟨congrArg some h1, by simpa using h2, h3⟩
  · exact absurd rfl (hstep _ _)
  · exact .inr ⟨fun he => h1 (Option.some.inj he), h5⟩
  · exact absurd rfl (hstep _ _)
  · exact absurd rfl (hstep _ _)

theorem length_push {p : StarParser} {b : UInt8} :
    (p.push [b]).buffer.length = p.buffer.length + 1 := by simp [push]

/-- An answer that one byte more makes whole ends with it. -/
theorem whole_of_emits_push {p q : StarParser} {n1 n2 c b : UInt8}
    (hp : scanner.step p = none) (h : (p.push [b]).Emits (.etxAck n1 n2 c) q) :
    (p.push [b]).buffer.length = kEscGsEtxResponseBytes := by
  have hlength := length_push (p := p) (b := b)
  obtain ⟨hlen, hpre⟩ : kEscGsEtxResponseBytes ≤ (p.push [b]).buffer.length ∧
      (p.push [b]).buffer.take 4 = kEtxPrefix := by
    cases h with
    | etx hlen hpre => exact ⟨hlen, hpre⟩
  unfold kEscGsEtxResponseBytes at *
  have hne : p.buffer ≠ [] := by
    rintro he
    rw [he] at hlength
    simp only [List.length_nil] at hlength
    omega
  rcases held_of_step_none hp hne with ⟨-, -, hshort⟩ | ⟨hother, -⟩
  · unfold kEscGsEtxResponseBytes at hshort
    omega
  · have hfirst : (p.push [b]).buffer[0]? = p.buffer[0]? :=
      List.getElem?_append_left (List.length_pos_of_ne_nil hne)
    have hb0 : ((p.push [b]).buffer.take 4)[0]? = some 0x1B := by rw [hpre]; rfl
    rw [List.getElem?_take_of_lt (by omega), hfirst] at hb0
    exact absurd hb0 hother

/-- An event that one byte more makes possible leaves three bytes at most. -/
theorem length_of_emits_push {p q : StarParser} {e : Event} {b : UInt8}
    (hp : scanner.step p = none) (h : (p.push [b]).Emits e q) : q.buffer.length < 4 := by
  have hlength := length_push (p := p) (b := b)
  have hheld := held_of_step_none hp
  have hfirst : p.buffer ≠ [] → (p.push [b]).buffer[0]? = p.buffer[0]? := fun hne =>
    List.getElem?_append_left (List.length_pos_of_ne_nil hne)
  cases h with
  | etx hlen hpre =>
    have hwhole := whole_of_emits_push hp (.etx hlen hpre)
    change ((p.push [b]).buffer.drop kEscGsEtxResponseBytes).length < 4
    rw [List.length_drop, hwhole]
    omega
  | asb hpos hlen hother =>
    have hpos' : 0 < p.asbBlockBytes.toNat := hpos
    have hlen' : p.asbBlockBytes.toNat ≤ p.buffer.length + 1 := hlength ▸ hlen
    change ((p.push [b]).buffer.drop p.asbBlockBytes.toNat).length < 4
    rw [List.length_drop, hlength]
    by_cases hne : p.buffer = []
    · rw [hne, List.length_nil]
      omega
    rcases hheld hne with ⟨h1, -, -⟩ | ⟨-, hshort⟩
    · exact absurd ((hfirst hne).trans h1) hother
    · omega
  | unknown first rest hb hcase =>
    have hrest : rest.length = p.buffer.length := by
      rw [hb, List.length_cons] at hlength
      omega
    change rest.length < 4
    rw [hrest]
    by_cases hne : p.buffer = []
    · rw [hne, List.length_nil]
      omega
    have hb0 : p.buffer[0]? = some first := by rw [← hfirst hne, hb]; rfl
    rcases hheld hne with ⟨h1, hpossible, -⟩ | ⟨h1, hshort⟩
    · rcases hcase with ⟨-, himpossible⟩ | ⟨hother, -⟩
      · by_contra hge
        have hsame : etxPossible (p.push [b]).buffer = etxPossible p.buffer :=
          etxPossible_whole [b] (by omega)
        rw [hsame, hpossible] at himpossible
        cases himpossible
      · exact absurd (Option.some.inj (hb0.symm.trans h1)) hother
    · rcases hcase with ⟨heq, -⟩ | ⟨-, hzero⟩
      · exact absurd (heq ▸ hb0) h1
      · have hzero' : p.asbBlockBytes = 0 := hzero
        rw [hzero'] at hshort
        exact absurd hshort (Nat.not_lt_zero _)

/-- **An answer comes with its last byte.** After one byte more a parser that waited makes an answer of
all that it holds, or none. -/
theorem answer_of_feed {p : StarParser} {b : UInt8} (hp : scanner.step p = none) {n1 n2 c : UInt8}
    (h : .etxAck n1 n2 c ∈ (p.feed [b]).1) : (p.push [b]).buffer.length = kEscGsEtxResponseBytes ∧
      ∃ q, (p.push [b]).Emits (.etxAck n1 n2 c) q := by
  rw [feed_eq] at h
  have hall := Scanner.drain_keeps (S := scanner)
    (J := fun q => q = p.push [b] ∨ q.buffer.length < 4)
    (fun r e q hr hs => by
      have hemits := step_emits (scanner_step.mp hs)
      refine .inr ?_
      rcases hr with rfl | hshort
      · exact length_of_emits_push hp hemits
      · have hlt : q.buffer.length < r.buffer.length := scanner_lawful.consumes r e q hs
        omega)
    (scanner.size (p.push [b])) (.inl rfl)
  obtain ⟨r, q, hr, hs⟩ := hall.2 _ h
  have hemits := step_emits (scanner_step.mp hs)
  rcases hr with rfl | hshort
  · exact ⟨whole_of_emits_push hp hemits, q, hemits⟩
  · cases hemits with
    | etx hlen =>
      unfold kEscGsEtxResponseBytes at hlen
      omega

/-- A parser waits after every read. -/
theorem step_feed (p : StarParser) (x : Bytes) : scanner.step (p.feed x).2 = none := by
  rw [feed_eq]
  exact Scanner.step_drain scanner_lawful le_rfl

/-! ### Blocks, byte by byte -/

/-- Bytes that do not begin like an answer wait until they are a block. -/
theorem scanner_step_block {p : StarParser} (hfirst : p.buffer[0]? ≠ some 0x1B)
    (hpos : 0 < p.asbBlockBytes.toNat) : scanner.step p =
      if p.buffer.length < p.asbBlockBytes.toNat then none
      else some (.asbStatus (p.buffer.take p.asbBlockBytes.toNat)
        (blockCounter (p.buffer.take p.asbBlockBytes.toNat)),
          { p with buffer := p.buffer.drop p.asbBlockBytes.toNat }) := by
  show (match p.step false with | .emitted e q => some (e, q) | .needMore | .empty => none) = _
  unfold step
  cases hb : p.buffer with
  | nil => simp [hpos]
  | cons first rest =>
    have h1 : ¬ first = 0x1B := by simpa [hb] using hfirst
    have h0 : 0 < p.asbBlockBytes := UInt8.lt_iff_toNat_lt.mpr (by simpa using hpos)
    simp only [h1, h0, if_false, if_true, Bool.false_eq_true]
    split_ifs <;> rfl

variable {p : StarParser} {x : Bytes} (hfirst : (p.buffer ++ x)[0]? ≠ some 0x1B)
include hfirst

/-- A block that is not whole yet is held. -/
theorem feed_held (hlen : (p.buffer ++ x).length < p.asbBlockBytes.toNat) :
    p.feed x = ([], p.push x) := by
  have hstep := (scanner_step_block (p := p.push x) hfirst (by simp only [push]; omega)).trans
    (if_pos hlen)
  rw [feed_eq, Scanner.feed]
  exact Scanner.drain_of_none hstep _

/-- A block is emitted with its last byte. -/
theorem feed_block (hlen : (p.buffer ++ x).length = p.asbBlockBytes.toNat)
    (hpos : 0 < p.asbBlockBytes.toNat) :
    p.feed x = ([.asbStatus (p.buffer ++ x) (blockCounter (p.buffer ++ x))],
      { p with buffer := [] }) := by
  have hstep := scanner_step_block (p := p.push x) hfirst hpos
  have htake : (p.push x).buffer.take (p.push x).asbBlockBytes.toNat = p.buffer ++ x :=
    List.take_of_length_le (le_of_eq hlen)
  have hdrop : (p.push x).buffer.drop (p.push x).asbBlockBytes.toNat = [] :=
    List.drop_of_length_le (le_of_eq hlen)
  rw [if_neg (by simp only [push]; omega), htake, hdrop] at hstep
  have hrest : scanner.step { p.push x with buffer := [] } = none := rfl
  obtain ⟨n, hn⟩ := Nat.exists_eq_succ_of_ne_zero (show (p.buffer ++ x).length ≠ 0 by omega)
  have hsize : scanner.size (scanner.push p x) = n + 1 := hn
  rw [feed_eq, Scanner.feed, hsize]
  refine (Scanner.drain_of_some hstep n).trans ?_
  rw [Scanner.drain_of_none hrest]
  rfl

end StarParser

end PrinterDriver.Core.Star
