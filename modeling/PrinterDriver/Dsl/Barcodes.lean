import PrinterDriver.Dsl.Documents
import Mathlib.Logic.Function.Iterate
import Mathlib.Tactic.SplitIfs

/-! # Barcodes

The data of a barcode as the printer takes it (`GS k`, function B). An EAN symbol is its digits with
the check digit behind them. Code 128 data selects a code set with a brace and a letter, and the
encoder changes the set where a run of digits pays for it; what the printer reads is the text that was
encoded (`reads_code128`). -/

namespace PrinterDriver.Dsl.Barcodes

open PrinterDriver.Core.Types PrinterDriver.Dsl.Documents
open PrinterDriver.Dsl.Render (decimal)

inductive BarcodeError where
  | unsupportedSymbology | invalidData | tooLong
  deriving DecidableEq, Repr

structure BarcodeFailure where
  error : BarcodeError
  message : Bytes
  deriving DecidableEq, Repr

/-- The operands of `GS k`, what the symbol says, and its width with the quiet zones. -/
structure BarcodeEncoding where
  m : UInt8
  data : Bytes
  text : Bytes
  modules : ℕ
  deriving DecidableEq, Repr

def kEan13 : UInt8 := 67
def kEan8 : UInt8 := 68
def kCode128 : UInt8 := 73

def kMaxDataBytes : ℕ := 255

def isDigit (c : UInt8) : Bool := 48 ≤ c && c ≤ 57

def allDigits (text : Bytes) : Bool := !text.isEmpty && text.all isDigit

def digitRun (text : Bytes) : ℕ := (text.takeWhile isDigit).length

/-! ### EAN -/

/-- The digits, weighed 3 and 1 in turn; the last one weighs 3. -/
def eanSum : Bytes → ℕ
  | [] => 0
  | c :: rest => (c.toNat - 48) * (if rest.length % 2 = 0 then 3 else 1) + eanSum rest

/-- The digit behind the text. -/
def eanCheckDigit (digits : Bytes) : ℤ :=
  if allDigits digits then (10 - eanSum digits % 10) % 10 else -1

def encodeEan (digits : Bytes) (body : ℕ) (m : UInt8) (name : Bytes) (modules : ℕ) :
    Except BarcodeFailure BarcodeEncoding :=
  if !allDigits digits then .error ⟨.invalidData, name ++ str " takes digits only"⟩
  else if digits.length = body then
    let full := digits ++ [48 + UInt8.ofNat (eanCheckDigit digits).toNat]
    .ok ⟨m, full, full, modules⟩
  else if digits.length = body + 1 then
    let check := eanCheckDigit (digits.take body)
    let last : ℤ := (digits.getD body 0).toNat - 48
    if last ≠ check then
      .error ⟨.invalidData, name ++ str " check digit is " ++ decimal last ++ str ", expected " ++
        decimal check⟩
    else .ok ⟨m, digits, digits, modules⟩
  else
    .error ⟨.invalidData, name ++ str " takes " ++ decimal body ++ str " or " ++
      decimal (body + 1) ++ str " digits, got " ++ decimal digits.length⟩

def encodeEan13 (digits : Bytes) : Except BarcodeFailure BarcodeEncoding :=
  encodeEan digits 12 kEan13 (str "ean13") (95 + 11 + 7)

def encodeEan8 (digits : Bytes) : Except BarcodeFailure BarcodeEncoding :=
  encodeEan digits 7 kEan8 (str "ean8") (67 + 7 + 7)

theorem toNat_of_isDigit {c : UInt8} (h : isDigit c = true) : 48 ≤ c.toNat ∧ c.toNat ≤ 57 := by
  simp only [isDigit, Bool.and_eq_true, decide_eq_true_eq, UInt8.le_iff_toNat_le] at h
  exact h

theorem isDigit_of_allDigits {digits : Bytes} (h : allDigits digits = true) :
    ∀ c ∈ digits, isDigit c = true := by
  rw [allDigits, Bool.and_eq_true, List.all_eq_true] at h
  exact h.2

/-- An EAN symbol is the digits and the check digit of them. -/
theorem encodeEan_ok {digits name : Bytes} {body modules : ℕ} {m : UInt8} {e : BarcodeEncoding}
    (hbody : 0 < body) (h : encodeEan digits body m name modules = .ok e) :
    ∃ check : Fin 10, e.data = digits.take body ++ [48 + UInt8.ofNat check] ∧
      e.data.length = body + 1 ∧ (eanSum (digits.take body) + check) % 10 = 0 := by
  have hmod : ∀ n : ℕ, 0 ≤ ((10 : ℤ) - (n : ℤ) % 10) % 10 ∧ ((10 : ℤ) - (n : ℤ) % 10) % 10 < 10 ∧
      ((n : ℤ) + ((10 : ℤ) - (n : ℤ) % 10) % 10) % 10 = 0 := by
    intro n
    omega
  unfold encodeEan at h
  split_ifs at h with hall hlen hlen'
  · cases h
    rw [Bool.not_eq_true, Bool.not_eq_false'] at hall
    obtain ⟨hge, hlt, hsum⟩ := hmod (eanSum digits)
    have hcheck : eanCheckDigit digits = (10 - (eanSum digits : ℤ) % 10) % 10 := if_pos hall
    rw [← hcheck] at hge hlt hsum
    refine ⟨⟨(eanCheckDigit digits).toNat, by omega⟩, ?_, ?_, ?_⟩
    · rw [← hlen, List.take_length]
    · simp [hlen]
    · rw [← hlen, List.take_length]
      show (eanSum digits + (eanCheckDigit digits).toNat) % 10 = 0
      omega
  · dsimp only at h
    split_ifs at h with hcheck
    · cases h
      rw [Bool.not_eq_true, Bool.not_eq_false'] at hall
      rw [not_not] at hcheck
      have hfull : digits = digits.take body ++ [digits[body]] := by
        rw [List.take_append_getElem, List.take_of_length_le (by omega)]
      have hdigit := isDigit_of_allDigits hall
      have hfront : allDigits (digits.take body) = true := by
        rw [allDigits, Bool.and_eq_true, List.all_eq_true]
        refine ⟨?_, fun c hc => hdigit c (List.mem_of_mem_take hc)⟩
        rw [Bool.not_eq_true', List.isEmpty_eq_false_iff, Ne, List.take_eq_nil_iff]
        rintro (h0 | h0)
        · omega
        · rw [h0] at hlen'
          simp at hlen'
      obtain ⟨hge, hlt, hsum⟩ := hmod (eanSum (digits.take body))
      have hcheck' : eanCheckDigit (digits.take body) =
          (10 - (eanSum (digits.take body) : ℤ) % 10) % 10 := if_pos hfront
      rw [← hcheck'] at hge hlt hsum
      have hlast := toNat_of_isDigit (hdigit _ (List.getElem_mem (show body < digits.length by omega)))
      rw [List.getD_eq_getElem?_getD, List.getElem?_eq_getElem (by omega), Option.getD_some] at hcheck
      refine ⟨⟨digits[body].toNat - 48, by omega⟩, ?_, hlen', ?_⟩
      · have hback : 48 + (digits[body].toNat - 48) = digits[body].toNat := by omega
        have hbyte : digits[body] = 48 + UInt8.ofNat (digits[body].toNat - 48) := by
          rw [← UInt8.toNat_inj, UInt8.toNat_add]
          simp only [UInt8.toNat_ofNat', UInt8.toNat_ofNat]
          omega
        show digits = _
        rw [← hbyte]
        exact hfull
      · show (eanSum (digits.take body) + (digits[body].toNat - 48)) % 10 = 0
        omega

/-! ### Code 128 -/

/-- The loop that chooses the code sets: what is left of the text, the set it is in (B where it is not
C), the data so far and the symbol characters so far. -/
structure Coder where
  rest : Bytes
  inC : Bool
  data : Bytes
  symbols : ℕ
  deriving DecidableEq, Repr

namespace Coder

/-- A code set is selected. -/
def pushEscape (s : Coder) (toC : Bool) : Coder :=
  { s with inC := toC, data := s.data ++ [0x7B, if toC then 0x43 else 0x42],
           symbols := s.symbols + 1 }

/-- A brace is doubled. -/
def pushSubsetB (s : Coder) (c : UInt8) (rest : Bytes) : Coder :=
  { s with rest := rest, data := s.data ++ (if c = 0x7B then [0x7B, c] else [c]),
           symbols := s.symbols + 1 }

def pushPair (s : Coder) (c d : UInt8) (rest : Bytes) : Coder :=
  { s with rest := rest, data := s.data ++ [(c - 48) * 10 + (d - 48)], symbols := s.symbols + 1 }

/-- Digits that are worth code set C. -/
def pays (rest : Bytes) : Bool :=
  6 ≤ digitRun rest || digitRun rest = rest.length && 4 ≤ digitRun rest

/-- One round of the loop. -/
def turn (s : Coder) : Coder :=
  match s.rest with
  | [] => s
  | c :: rest =>
    if s.inC then
      if 2 ≤ digitRun (c :: rest) then s.pushPair c (rest.headD 0) rest.tail
      else s.pushEscape false
    else if pays (c :: rest) then
      if digitRun (c :: rest) % 2 = 1 then s.pushSubsetB c rest else s.pushEscape true
    else s.pushSubsetB c rest

/-- Whether the next round selects a code set. -/
def changes (s : Coder) : Bool :=
  if s.inC then digitRun s.rest < 2 else pays s.rest && digitRun s.rest % 2 = 0

/-- How many rounds are left at most. -/
def rounds (s : Coder) : ℕ := 2 * s.rest.length + (if s.changes then 1 else 0)

theorem le_digitRun {text : Bytes} (h : 2 ≤ digitRun text) :
    ∃ c d rest, text = c :: d :: rest ∧ isDigit c = true ∧ isDigit d = true := by
  unfold digitRun at h
  match text, h with
  | [], h => simp at h
  | [c], h =>
    rw [List.takeWhile_cons] at h
    split_ifs at h <;> simp at h
  | c :: d :: rest, h =>
    rw [List.takeWhile_cons] at h
    split_ifs at h with hc
    · rw [List.takeWhile_cons] at h
      split_ifs at h with hd
      · exact ⟨c, d, rest, rfl, hc, hd⟩
      · simp at h
    · simp at h

theorem two_le_of_pays {text : Bytes} (h : pays text = true) : 4 ≤ digitRun text := by
  simp only [pays, Bool.or_eq_true, Bool.and_eq_true, decide_eq_true_eq] at h
  omega

theorem rounds_le (s : Coder) : s.rounds ≤ 2 * s.rest.length + 1 := by
  unfold rounds
  split_ifs <;> omega

theorem rounds_of_not_changes {s : Coder} (h : s.changes = false) :
    s.rounds = 2 * s.rest.length := by
  unfold rounds
  rw [h]
  rfl

theorem rounds_turn {s : Coder} (h : s.rest ≠ []) : s.turn.rounds < s.rounds := by
  obtain ⟨text, inC, data, symbols⟩ := s
  obtain ⟨c, rest, rfl⟩ := List.exists_cons_of_ne_nil h
  -- a round that takes a character makes up for any selection that follows
  have htaken : ∀ t : Coder, t.rest.length < (c :: rest).length →
      t.rounds < rounds ⟨c :: rest, inC, data, symbols⟩ := by
    intro t ht
    have hle := rounds_le t
    have hge : 2 * (c :: rest).length ≤ rounds ⟨c :: rest, inC, data, symbols⟩ :=
      Nat.le_add_right _ _
    omega
  -- no selection follows a selection
  have hselect : ∀ toC : Bool, changes ⟨c :: rest, inC, data, symbols⟩ = true →
      changes (pushEscape ⟨c :: rest, inC, data, symbols⟩ toC) = false →
      (pushEscape ⟨c :: rest, inC, data, symbols⟩ toC).rounds <
        rounds ⟨c :: rest, inC, data, symbols⟩ := by
    intro toC hbefore hafter
    rw [rounds_of_not_changes hafter, rounds, hbefore]
    exact Nat.lt_succ_self _
  unfold turn
  dsimp only
  split_ifs with hC hpair hpays hodd
  · refine htaken _ ?_
    show rest.tail.length < rest.length + 1
    rw [List.length_tail]
    omega
  · refine hselect false ?_ ?_
    · rw [changes, if_pos hC, decide_eq_true_eq]
      exact Nat.lt_of_not_le hpair
    · have hnot : pays (c :: rest) = false := by
        by_contra hp
        have := two_le_of_pays (Bool.not_eq_false _ ▸ hp)
        omega
      simp only [changes, pushEscape, hnot, Bool.false_and]
      rfl
  · exact htaken _ (Nat.lt_succ_self _)
  · refine hselect true ?_ ?_
    · rw [changes, if_neg hC, hpays, Bool.true_and, decide_eq_true_eq]
      show digitRun (c :: rest) % 2 = 0
      omega
    · have hrun := two_le_of_pays hpays
      simp only [changes, pushEscape, if_true, decide_eq_false_iff_not]
      omega
  · exact htaken _ (Nat.lt_succ_self _)

/-- The loop, to the end of the text. -/
def loop (s : Coder) : Coder := if s.rest = [] then s else s.turn.loop
termination_by s.rounds
decreasing_by exact rounds_turn ‹_›

end Coder

/-- The first selection. -/
def begin (text : Bytes) : Coder :=
  let lead := digitRun text
  Coder.pushEscape ⟨text, false, [], 0⟩
    (lead % 2 = 0 && (4 ≤ lead || text.length = 2 && lead = 2))

def hexDigit (n : UInt8) : UInt8 := if n < 10 then 48 + n else 55 + n

/-- Code set B and C, for what is printable. -/
def encodeCode128 (text : Bytes) : Except BarcodeFailure BarcodeEncoding :=
  if text = [] then .error ⟨.invalidData, str "code128 needs at least one character"⟩
  else
    match text.find? fun c => c < 0x20 || 0x7E < c with
    | some c =>
      .error ⟨.invalidData, str "code128 subset B covers 0x20..0x7E; byte 0x" ++
        [hexDigit (c / 16), hexDigit (c % 16)] ++ str " is outside it"⟩
    | none =>
      let s := (begin text).loop
      if kMaxDataBytes < s.data.length then
        .error ⟨.tooLong, str "code128 encodes to " ++ decimal s.data.length ++
          str " bytes; GS k carries at most " ++ decimal kMaxDataBytes⟩
      else .ok ⟨kCode128, s.data, text, 11 * (s.symbols + 1) + 13 + 20⟩

/-! ### What the printer reads -/

inductive CodeSet where
  | a | b | c
  deriving DecidableEq, Repr

def selected (c : UInt8) : Option CodeSet :=
  if c = 0x41 then some .a else if c = 0x42 then some .b else if c = 0x43 then some .c else none

/-- What one byte stands for in a code set. -/
def character : CodeSet → UInt8 → Option Bytes
  | .a, v => if v < 0x60 then some [v] else none
  | .b, v => if 0x20 ≤ v ∧ v < 0x80 then some [v] else none
  | .c, v => if v < 100 then some [48 + v / 10, 48 + v % 10] else none

/-- The text of the data behind a selection, and how many symbol characters it takes. -/
def readFrom : CodeSet → Bytes → Option (Bytes × ℕ)
  | _, [] => some ([], 0)
  | set, [v] =>
    if v = 0x7B then none else (character set v).map fun text => (text, 1)
  | set, v :: w :: data =>
    if v = 0x7B then
      if w = 0x7B ∧ set = .b then (readFrom set data).map fun r => (w :: r.1, r.2 + 1)
      else (selected w).bind fun set => (readFrom set data).map fun r => (r.1, r.2 + 1)
    else
      (character set v).bind fun text =>
        (readFrom set (w :: data)).map fun r => (text ++ r.1, r.2 + 1)

/-- The data starts with a selection. -/
def read : Bytes → Option (Bytes × ℕ)
  | v :: w :: data =>
    if v = 0x7B then
      (selected w).bind fun set => (readFrom set data).map fun r => (r.1, r.2 + 1)
    else none
  | _ => none

section Read
variable {set : CodeSet} {v w : UInt8} {data : Bytes}

theorem readFrom_cons (hv : v ≠ 0x7B) : readFrom set (v :: data) = (character set v).bind
    fun text => (readFrom set data).map fun r => (text ++ r.1, r.2 + 1) := by
  cases data with
  | nil =>
    simp only [readFrom, if_neg hv, Option.map_some]
    cases character set v with
    | none => rfl
    | some text => rw [Option.map_some, Option.bind_some, List.append_nil]
  | cons w data => rw [readFrom, if_neg hv]

theorem readFrom_brace :
    readFrom .b (0x7B :: 0x7B :: data) = (readFrom .b data).map fun r => (0x7B :: r.1, r.2 + 1) := by
  rw [readFrom, if_pos rfl, if_pos ⟨rfl, rfl⟩]

theorem readFrom_select {next : CodeSet} (hw : selected w = some next) :
    readFrom set (0x7B :: w :: data) = (readFrom next data).map fun r => (r.1, r.2 + 1) := by
  have hne : w ≠ 0x7B := by
    rintro rfl
    cases hw
  rw [readFrom, if_pos rfl, if_neg fun h => hne h.1, hw, Option.bind_some]

end Read

namespace Coder

def codeSet (inC : Bool) : CodeSet := if inC then .c else .b

theorem selected_letter (toC : Bool) :
    selected (if toC then 0x43 else 0x42) = some (codeSet toC) := by
  cases toC <;> rfl

/-- What was coded is read as what was taken of the text. -/
def Reads (text : Bytes) (s : Coder) : Prop :=
  ∃ coded, coded ++ s.rest = text ∧ ∀ data t n, readFrom (codeSet s.inC) data = some (t, n) →
    read (s.data ++ data) = some (coded ++ t, s.symbols + n)

/-- The two digits of a pair. -/
theorem pair_digits {c d : UInt8} (hc : isDigit c = true) (hd : isDigit d = true) :
    (c - 48) * 10 + (d - 48) < 100 ∧ 48 + ((c - 48) * 10 + (d - 48)) / 10 = c ∧
      48 + ((c - 48) * 10 + (d - 48)) % 10 = d := by
  have hall : ∀ m n : Fin 10, let c := UInt8.ofNat (48 + m); let d := UInt8.ofNat (48 + n)
      (c - 48) * 10 + (d - 48) < 100 ∧ 48 + ((c - 48) * 10 + (d - 48)) / 10 = c ∧
        48 + ((c - 48) * 10 + (d - 48)) % 10 = d := by
    decide
  have hdigit : ∀ x : UInt8, isDigit x = true → ∃ m : Fin 10, x = UInt8.ofNat (48 + m) := by
    intro x hx
    simp only [isDigit, Bool.and_eq_true, decide_eq_true_eq, UInt8.le_iff_toNat_le] at hx
    have h48 : (48 : UInt8).toNat = 48 := rfl
    have h57 : (57 : UInt8).toNat = 57 := rfl
    refine ⟨⟨x.toNat - 48, by omega⟩, ?_⟩
    have hback : 48 + (x.toNat - 48) = x.toNat := by omega
    show x = UInt8.ofNat (48 + (x.toNat - 48))
    rw [hback, UInt8.ofNat_toNat]
  obtain ⟨m, rfl⟩ := hdigit c hc
  obtain ⟨n, rfl⟩ := hdigit d hd
  exact hall m n

section Turn
variable {text : Bytes} {s : Coder} {c : UInt8} {rest : Bytes}

theorem Reads.pushEscape (h : Reads text s) (toC : Bool) : Reads text (s.pushEscape toC) := by
  obtain ⟨coded, htext, hread⟩ := h
  refine ⟨coded, htext, fun data t n hdata => ?_⟩
  have hselect : readFrom (codeSet s.inC) (0x7B :: (if toC then 0x43 else 0x42) :: data) =
      some (t, n + 1) := by
    rw [readFrom_select (selected_letter toC)]
    show (readFrom (codeSet toC) data).map _ = _
    rw [show readFrom (codeSet toC) data = some (t, n) from hdata]
    rfl
  have hall := hread _ t (n + 1) hselect
  show read ((s.data ++ [0x7B, if toC then 0x43 else 0x42]) ++ data) = some (coded ++ t, s.symbols + 1 + n)
  rw [List.append_assoc, Nat.add_right_comm, Nat.add_assoc]
  exact hall

theorem Reads.pushSubsetB (h : Reads text s) (hB : s.inC = false) (hrest : s.rest = c :: rest)
    (hc : 0x20 ≤ c ∧ c ≤ 0x7E) : Reads text (s.pushSubsetB c rest) := by
  obtain ⟨coded, htext, hread⟩ := h
  refine ⟨coded ++ [c], by rw [← htext, hrest, List.append_assoc]; rfl, fun data t n hdata => ?_⟩
  have hset : readFrom .b data = some (t, n) := by
    have hset := hdata
    rw [show (s.pushSubsetB c rest).inC = false from hB] at hset
    exact hset
  have hone : readFrom (codeSet s.inC) ((if c = 0x7B then [0x7B, c] else [c]) ++ data) =
      some (c :: t, n + 1) := by
    rw [hB]
    show readFrom .b _ = _
    split_ifs with hbrace
    · subst hbrace
      rw [List.cons_append, List.cons_append, List.nil_append, readFrom_brace, hset]
      rfl
    · have hchar : character .b c = some [c] :=
        if_pos ⟨hc.1, Nat.lt_of_le_of_lt (UInt8.le_iff_toNat_le.mp hc.2) (by decide)⟩
      rw [List.singleton_append, readFrom_cons hbrace, hchar, Option.bind_some, hset]
      rfl
  have hall := hread _ (c :: t) (n + 1) hone
  show read ((s.data ++ if c = 0x7B then [0x7B, c] else [c]) ++ data) =
    some ((coded ++ [c]) ++ t, s.symbols + 1 + n)
  rw [List.append_assoc, List.append_assoc, Nat.add_right_comm, Nat.add_assoc]
  exact hall

theorem Reads.pushPair (h : Reads text s) (hC : s.inC = true) {d : UInt8}
    (hrest : s.rest = c :: d :: rest) (hc : isDigit c = true) (hd : isDigit d = true) :
    Reads text (s.pushPair c d rest) := by
  obtain ⟨coded, htext, hread⟩ := h
  obtain ⟨hlt, htens, hunits⟩ := pair_digits hc hd
  refine ⟨coded ++ [c, d], by rw [← htext, hrest, List.append_assoc]; rfl, fun data t n hdata => ?_⟩
  have hset : readFrom .c data = some (t, n) := by
    have hset := hdata
    rw [show (s.pushPair c d rest).inC = true from hC] at hset
    exact hset
  have hone : readFrom (codeSet s.inC) (((c - 48) * 10 + (d - 48)) :: data) =
      some (c :: d :: t, n + 1) := by
    have hne : (c - 48) * 10 + (d - 48) ≠ 0x7B := fun he => by
      rw [he] at hlt
      exact absurd hlt (by decide)
    have hchar : character .c ((c - 48) * 10 + (d - 48)) = some [c, d] := by
      rw [character, if_pos hlt, htens, hunits]
    rw [hC]
    show readFrom .c _ = _
    rw [readFrom_cons hne, hchar, Option.bind_some, hset]
    rfl
  have hall := hread _ (c :: d :: t) (n + 1) hone
  show read ((s.data ++ [(c - 48) * 10 + (d - 48)]) ++ data) =
    some ((coded ++ [c, d]) ++ t, s.symbols + 1 + n)
  rw [List.append_assoc, List.append_assoc, Nat.add_right_comm, Nat.add_assoc]
  exact hall

/-- A round of the loop. -/
theorem Reads.turn (h : Reads text s) (hp : ∀ c ∈ text, 0x20 ≤ c ∧ c ≤ 0x7E) :
    Reads text s.turn := by
  have hprint : ∀ c ∈ s.rest, 0x20 ≤ c ∧ c ≤ 0x7E := by
    obtain ⟨coded, htext, -⟩ := h
    exact fun c hc => hp c (htext ▸ List.mem_append_right coded hc)
  unfold Coder.turn
  split
  · exact h
  next c rest hrest =>
    have hc := hprint c (hrest ▸ List.mem_cons_self)
    split_ifs with hC hpair hpays hodd
    · obtain ⟨c', d, tail, htail, hdc, hdd⟩ := le_digitRun hpair
      obtain ⟨rfl, rfl⟩ := List.cons.inj htail
      exact h.pushPair hC hrest hdc hdd
    · exact h.pushEscape false
    · exact h.pushSubsetB (Bool.not_eq_true _ ▸ hC) hrest hc
    · exact h.pushEscape true
    · exact h.pushSubsetB (Bool.not_eq_true _ ▸ hC) hrest hc

end Turn

theorem reads_begin (text : Bytes) : Reads text (begin text) := by
  have hstart : ∀ toC : Bool, Reads text (Coder.pushEscape ⟨text, false, [], 0⟩ toC) := by
    intro toC
    refine ⟨[], rfl, fun data t n hdata => ?_⟩
    show read (0x7B :: (if toC then 0x43 else 0x42) :: data) = some (t, 0 + 1 + n)
    rw [read, if_pos rfl, selected_letter, Option.bind_some,
      show readFrom (codeSet toC) data = some (t, n) from hdata, Nat.zero_add, Nat.add_comm 1 n]
    rfl
  exact hstart _

/-- Rounds that reach the end of the text are the loop. -/
theorem loop_eq {n : ℕ} : ∀ {s : Coder}, (turn^[n] s).rest = [] → s.loop = turn^[n] s := by
  induction n with
  | zero =>
    intro s h
    rw [loop]
    exact if_pos h
  | succ n ih =>
    intro s h
    have hturn : s.loop = s.turn.loop := by
      by_cases hs : s.rest = []
      · have hsame : s.turn = s := by
          unfold turn
          rw [hs]
        rw [hsame]
      · rw [loop, if_neg hs]
    rw [hturn]
    exact ih h

/-- The loop makes finitely many rounds. -/
theorem exists_rounds (s : Coder) : ∃ n ≤ s.rounds, (turn^[n] s).rest = [] := by
  induction hr : s.rounds using Nat.strong_induction_on generalizing s with
  | _ r ih =>
    by_cases hs : s.rest = []
    · exact ⟨0, Nat.zero_le _, hs⟩
    · have hlt : s.turn.rounds < r := hr ▸ rounds_turn hs
      obtain ⟨n, hn, hrest⟩ := ih _ hlt s.turn rfl
      exact ⟨n + 1, by omega, hrest⟩

theorem Reads.loop {text : Bytes} {s : Coder} (h : Reads text s)
    (hp : ∀ c ∈ text, 0x20 ≤ c ∧ c ≤ 0x7E) : Reads text s.loop := by
  obtain ⟨n, -, hrest⟩ := exists_rounds s
  rw [loop_eq hrest]
  clear hrest
  induction n generalizing s with
  | zero => exact h
  | succ n ih => exact ih (h.turn hp)

end Coder

/-- The printer reads the text that was encoded. -/
theorem read_encoded {text : Bytes} {e : BarcodeEncoding} (h : encodeCode128 text = .ok e) :
    ∃ symbols, read e.data = some (text, symbols) ∧ e.modules = 11 * (symbols + 1) + 13 + 20 := by
  unfold encodeCode128 at h
  split_ifs at h
  split at h
  · cases h
  next hfind =>
    have hp : ∀ c ∈ text, 0x20 ≤ c ∧ c ≤ 0x7E := by
      intro c hc
      have hnot := List.find?_eq_none.mp hfind c hc
      simp only [Bool.or_eq_true, decide_eq_true_eq, not_or, UInt8.not_lt] at hnot
      exact hnot
    dsimp only at h
    split_ifs at h
    cases h
    obtain ⟨n, -, hrest⟩ := Coder.exists_rounds (begin text)
    obtain ⟨coded, htext, hread⟩ := (Coder.reads_begin text).loop hp
    have hend : (begin text).loop.rest = [] := Coder.loop_eq hrest ▸ hrest
    have hdata := hread [] [] 0 rfl
    rw [hend, List.append_nil] at htext
    rw [List.append_nil, List.append_nil, htext] at hdata
    exact ⟨_, hdata, rfl⟩

/-- **Code 128 round trip.** The loop ends, the printer reads the text out of the data, and the width
is that of the symbol characters it reads, the check character, the stop and the quiet zones. -/
theorem reads_code128 (text : Bytes) (e : BarcodeEncoding) (h : encodeCode128 text = .ok e) :
    (∃ n ≤ 2 * text.length + 1, (Coder.turn^[n] (begin text)).rest = []) ∧
      ∃ symbols, read e.data = some (text, symbols) ∧
        e.modules = 11 * (symbols + 1) + 13 + 20 := by
  obtain ⟨n, hn, hrest⟩ := Coder.exists_rounds (begin text)
  exact ⟨⟨n, Nat.le_trans hn (Coder.rounds_le (begin text)), hrest⟩, read_encoded h⟩

/-- Five digits end a text, one of which is spent to make them pairs. -/
theorem reads_order : (∃ n ≤ 2 * (str "A\x7b12345").length + 1,
    (Coder.turn^[n] (begin (str "A\x7b12345"))).rest = []) ∧
      ∃ symbols, read [0x7B, 0x42, 0x41, 0x7B, 0x7B, 0x31, 0x7B, 0x43, 23, 45] =
        some (str "A\x7b12345", symbols) ∧ 121 = 11 * (symbols + 1) + 13 + 20 := by
  refine reads_code128 (str "A\x7b12345")
    ⟨kCode128, [0x7B, 0x42, 0x41, 0x7B, 0x7B, 0x31, 0x7B, 0x43, 23, 45], str "A\x7b12345", 121⟩ ?_
  have hloop := @Coder.loop_eq 6 (begin (str "A\x7b12345")) (by decide)
  unfold encodeCode128
  rw [hloop]
  decide

/-! ### The command -/

def Symbology.toBytes : Symbology → Bytes
  | .upcA => str "upcA"
  | .upcE => str "upcE"
  | .ean13 => str "ean13"
  | .ean8 => str "ean8"
  | .code39 => str "code39"
  | .itf => str "itf"
  | .codabar => str "codabar"
  | .code93 => str "code93"
  | .code128 => str "code128"
  | .gs1_128 => str "gs1_128"
  | .pdf417 => str "pdf417"
  | .dataMatrix => str "datamatrix"

def encodeBarcode (symbology : Symbology) (text : Bytes) : Except BarcodeFailure BarcodeEncoding :=
  match symbology with
  | .code128 => encodeCode128 text
  | .ean13 => encodeEan13 text
  | .ean8 => encodeEan8 text
  | other =>
    .error ⟨.unsupportedSymbology,
      Symbology.toBytes other ++ str " is not implemented on the hardware path"⟩

def hriPosition : Hri → UInt8
  | .none => 0
  | .above => 1
  | .below => 2
  | .both => 3

/-- The height, the module width, the position of the text and the symbol, and whether an operand was
out of its range. -/
def barcodeCommands (e : BarcodeEncoding) (heightDots moduleWidth : ℤ) (hri : Hri) : Bytes × Bool :=
  if e.data = [] ∨ kMaxDataBytes < e.data.length then ([], false)
  else
    let height := max 1 (min heightDots 255)
    let width := max 1 (min moduleWidth 6)
    ([0x1D, 0x68, UInt8.ofNat height.toNat, 0x1D, 0x77, UInt8.ofNat width.toNat,
        0x1D, 0x48, hriPosition hri, 0x1D, 0x6B, e.m, UInt8.ofNat e.data.length] ++ e.data,
      height ≠ heightDots || width ≠ moduleWidth)

/-- What is encoded fits into one command. -/
theorem encodeBarcode_fits {symbology : Symbology} {text : Bytes} {e : BarcodeEncoding}
    (h : encodeBarcode symbology text = .ok e) : e.data ≠ [] ∧ e.data.length ≤ kMaxDataBytes := by
  have hean : ∀ {body modules : ℕ} {m : UInt8} {name : Bytes}, 0 < body → body < 255 →
      encodeEan text body m name modules = .ok e →
      e.data ≠ [] ∧ e.data.length ≤ kMaxDataBytes := by
    intro body modules m name hpos hlt hok
    obtain ⟨check, -, hlen, -⟩ := encodeEan_ok hpos hok
    refine ⟨fun hnil => ?_, ?_⟩
    · rw [hnil] at hlen
      cases hlen
    · show e.data.length ≤ 255
      omega
  unfold encodeBarcode at h
  split at h
  · refine ⟨fun hnil => ?_, ?_⟩
    · obtain ⟨symbols, hread, -⟩ := read_encoded h
      rw [hnil] at hread
      cases hread
    · unfold encodeCode128 at h
      split_ifs at h
      split at h
      · cases h
      · dsimp only at h
        split_ifs at h with hlong
        cases h
        exact Nat.le_of_not_lt hlong
  · exact hean (by decide) (by decide) h
  · exact hean (by decide) (by decide) h
  · cases h

/-- The operands of the command are in their ranges, and the last one is the length of the data. -/
theorem barcodeCommands_encodeBarcode {symbology : Symbology} {text : Bytes} {e : BarcodeEncoding}
    (h : encodeBarcode symbology text = .ok e) (heightDots moduleWidth : ℤ) (hri : Hri) :
    ∃ height width n : UInt8, (barcodeCommands e heightDots moduleWidth hri).1 =
        [0x1D, 0x68, height, 0x1D, 0x77, width, 0x1D, 0x48, hriPosition hri, 0x1D, 0x6B, e.m, n] ++
          e.data ∧
      1 ≤ height.toNat ∧ 1 ≤ width.toNat ∧ width.toNat ≤ 6 ∧ n.toNat = e.data.length := by
  obtain ⟨hne, hlen⟩ := encodeBarcode_fits h
  have h255 : kMaxDataBytes = 255 := rfl
  unfold barcodeCommands
  rw [if_neg (not_or.mpr ⟨hne, Nat.not_lt.mpr hlen⟩)]
  refine ⟨_, _, _, rfl, ?_, ?_, ?_, ?_⟩ <;> rw [UInt8.toNat_ofNat'] <;> omega

end PrinterDriver.Dsl.Barcodes
