import PrinterDriver.Core.Star

/-! # Joining a Star stream out of step

A parser that was reset, or a connection that was joined, in the middle of a block has stray bytes before
the first frame. A block has a length and no mark, so that the parser frames the end of one block with the
beginning of what follows, and takes the opening bytes of an answer for status. Nothing is faked and nothing
is lost, whatever follows the stray bytes, exactly if they are whole pieces of the stream (`honest_iff_stray`). -/

namespace PrinterDriver.Core.StarStrays

open PrinterDriver.Core.Types PrinterDriver.Core.Star PrinterDriver.Lib.Scanning
open PrinterDriver.Core.Star.StarParser

/-! ### Frames -/

/-- What the printer sends. -/
inductive Frame where
  | block (bytes : Bytes)
  | answer (n1 n2 counter : UInt8)
  deriving DecidableEq, Repr

namespace Frame

def bytes : Frame → Bytes
  | .block b => b
  | .answer n1 n2 counter => kEtxPrefix ++ [n1, n2, counter, 0x00]

def event : Frame → Event
  | .block b => .asbStatus b (blockCounter b)
  | .answer n1 n2 counter => .etxAck n1 n2 counter

/-- A block has the declared length, and bit 0 of its first byte is clear. -/
def Complete (n : UInt8) : Frame → Prop
  | .block b => b.length = n.toNat ∧ ∃ first rest, b = first :: rest ∧ first &&& 0x01 = 0
  | .answer _ _ _ => True

end Frame

def stream (fs : List Frame) : Bytes := fs.flatMap Frame.bytes

/-- The ETB counter of a block that has one. -/
def carried : Event → Option UInt8
  | .asbStatus frame counter => if 7 < frame.length then some counter else none
  | _ => none

/-- The parser with these bytes in hand. -/
def holding (n : UInt8) (held : Bytes) : StarParser := { buffer := held, asbBlockBytes := n }

/-- The parser that joins the stream. -/
def joined (n : UInt8) : StarParser := holding n []

def reads (p : StarParser) : List Bytes → List Event × StarParser
  | [] => ([], p)
  | x :: xs => ((p.feed x).1 ++ (reads (p.feed x).2 xs).1, (reads (p.feed x).2 xs).2)

/-- Whatever frames follow the stray bytes, and however the reads are cut: no counter but that of a
complete block, and every answer is reported with its bytes. -/
structure Honest (n : UInt8) (stray : Bytes) : Prop where
  counters : ∀ fs : List Frame, (∀ f ∈ fs, f.Complete n) → ∀ chunks : List Bytes,
    chunks.flatten = stray ++ stream fs → ∀ e ∈ (reads (joined n) chunks).1, ∀ c,
      carried e = some c → ∃ f ∈ fs, carried f.event = some c
  answers : ∀ (fs post : List Frame) (n1 n2 counter : UInt8),
    (∀ f ∈ fs ++ .answer n1 n2 counter :: post, f.Complete n) → ∀ chunks : List Bytes,
      chunks.flatten = stray ++ stream (fs ++ .answer n1 n2 counter :: post) →
        ∃ came rest, .etxAck n1 n2 counter ∈ came ∧
          ((joined n).feed (stray ++ stream (fs ++ [.answer n1 n2 counter]))).1 =
            ((joined n).feed (stray ++ stream fs)).1 ++ came ∧
          (reads (joined n) chunks).1 = ((joined n).feed (stray ++ stream fs)).1 ++ came ++ rest

/-! ### Steps -/

variable {n : UInt8}

theorem reads_eq (chunks : List Bytes) : ∀ p : StarParser, scanner.step p = none →
    reads p chunks = p.feed chunks.flatten := by
  induction chunks with
  | nil =>
    intro p hp
    have hpush : scanner.push p [] = p := by
      show ({ p with buffer := p.buffer ++ [] } : StarParser) = p
      rw [List.append_nil]
    rw [List.flatten_nil, feed_eq, Scanner.feed, hpush, Scanner.drain_of_none hp]
    rfl
  | cons x xs ih =>
    intro p _
    have hdrained : scanner.step (p.feed x).2 = none := by
      rw [feed_eq]
      exact Scanner.step_feed scanner_lawful p x
    rw [reads, ih _ hdrained, List.flatten_cons, feed_append]

theorem reads_joined (chunks : List Bytes) :
    reads (joined n) chunks = (joined n).feed chunks.flatten := reads_eq chunks _ rfl

/-- The first step of a read, and the rest of it. -/
theorem feed_step {x y : Bytes} {e : Event}
    (h : scanner.step (holding n x) = some (e, holding n y)) :
    (joined n).feed x = (e :: ((joined n).feed y).1, ((joined n).feed y).2) := by
  have hlt : y.length < x.length := scanner_lawful.consumes _ _ _ h
  obtain ⟨k, hk⟩ := Nat.exists_eq_succ_of_ne_zero (show x.length ≠ 0 by omega)
  have hfuel : scanner.drain k (holding n y) = scanner.drain y.length (holding n y) :=
    Scanner.drain_fuel scanner_lawful (show y.length ≤ k by omega) (le_refl y.length)
  have hx : (joined n).feed x = scanner.drain x.length (holding n x) := feed_eq _ _
  have hy : (joined n).feed y = scanner.drain y.length (holding n y) := feed_eq _ _
  rw [hx, hy, hk, Scanner.drain_of_some h k, hfuel]

theorem feed_wait {x : Bytes} (h : scanner.step (holding n x) = none) :
    (joined n).feed x = ([], holding n x) := by
  have hx : (joined n).feed x = scanner.drain x.length (holding n x) := feed_eq _ _
  rw [hx, Scanner.drain_of_none h]

theorem step_lone {y : Bytes} (h : etxPossible (0x1B :: y) = false) :
    scanner.step (holding n (0x1B :: y)) = some (.unknownByte 0x1B, holding n y) := by
  rw [scanner_step]
  unfold StarParser.step
  simp only [holding, h]
  rfl

theorem step_answer {a : Bytes} (y : Bytes) (hlen : a.length = kEscGsEtxResponseBytes)
    (hpre : a.take 4 = kEtxPrefix) : scanner.step (holding n (a ++ y)) =
      some (.etxAck (a.getD 4 0) (a.getD 5 0) (a.getD 6 0), holding n y) := by
  have hlen8 : a.length = 8 := hlen
  have hposs : etxPossible a = true := by
    rw [etxPossible, hpre, List.take_of_length_le (by rw [hlen8]; decide)]
    exact decide_eq_true rfl
  have hdrop : a.drop kEscGsEtxResponseBytes = [] := List.drop_of_length_le (le_of_eq hlen)
  have hstep : (holding n a).step false =
      .emitted (.etxAck (a.getD 4 0) (a.getD 5 0) (a.getD 6 0)) (holding n []) := by
    obtain ⟨first, rest, rfl⟩ := List.exists_cons_of_length_eq_add_one hlen8
    have hfirst : first = 0x1B := (List.cons.inj hpre).1
    have hno : ¬(!etxPossible (first :: rest)) = true := by simp [hposs]
    have hlong : ¬(first :: rest).length < kEscGsEtxResponseBytes := by rw [hlen]; decide
    refine (if_pos hfirst).trans ((if_neg hno).trans ((if_neg hlong).trans ?_))
    show Step.emitted _ (holding n ((first :: rest).drop kEscGsEtxResponseBytes)) = _
    rw [hdrop]
    rfl
  exact scanner_lawful.keeps _ _ _ y (scanner_step.mpr hstep)

theorem step_block {b : Bytes} (y : Bytes) (hlen : b.length = n.toNat) (hpos : 0 < n.toNat)
    (hfirst : b.head? ≠ some 0x1B) : scanner.step (holding n (b ++ y)) =
      some (.asbStatus b (blockCounter b), holding n y) := by
  have hhead : (b ++ y)[0]? ≠ some 0x1B := by
    rw [List.getElem?_append_left (by omega), ← List.head?_eq_getElem?]
    exact hfirst
  have hstep := scanner_step_block (p := holding n (b ++ y)) hhead hpos
  have hlong : ¬(b ++ y).length < n.toNat := by
    rw [List.length_append]
    omega
  have htake : (b ++ y).take n.toNat = b := by rw [← hlen, List.take_left]
  have hdrop : (b ++ y).drop n.toNat = y := by rw [← hlen, List.drop_left]
  refine hstep.trans ((if_neg hlong).trans ?_)
  show some (Event.asbStatus ((b ++ y).take n.toNat) (blockCounter ((b ++ y).take n.toNat)),
    holding n ((b ++ y).drop n.toNat)) = _
  rw [htake, hdrop]

theorem step_byte {c : UInt8} (y : Bytes) (hn : n = 0) (hc : c ≠ 0x1B) :
    scanner.step (holding n (c :: y)) = some (.unknownByte c, holding n y) := by
  rw [scanner_step]
  unfold StarParser.step
  simp only [holding, hn, if_neg hc]
  rfl

theorem step_begun {y : Bytes} (h : etxPossible (0x1B :: y) = true)
    (hlen : (0x1B :: y).length < kEscGsEtxResponseBytes) :
    scanner.step (holding n (0x1B :: y)) = none := by
  have hstep : (holding n (0x1B :: y)).step false = .needMore := by
    unfold StarParser.step
    simp only [holding, h, hlen]
    rfl
  unfold scanner
  dsimp only
  rw [hstep]

theorem step_short {x : Bytes} (hfirst : x.head? ≠ some 0x1B) (hlen : x.length < n.toNat) :
    scanner.step (holding n x) = none :=
  (scanner_step_block (p := holding n x) (by rwa [← List.head?_eq_getElem?])
    (Nat.zero_lt_of_lt hlen)).trans (if_pos hlen)

/-! ### Frames in a row -/

theorem first_ne {b : UInt8} (h : b &&& 0x01 = 0) :
    b ≠ 0x1B ∧ b ≠ 0x1D ∧ b ≠ 0x03 ∧ b ≠ 0x01 := by
  refine ⟨?_, ?_, ?_, ?_⟩ <;> rintro rfl <;> exact absurd h (by decide)

theorem step_frame {f : Frame} (hf : f.Complete n) (y : Bytes) :
    scanner.step (holding n (f.bytes ++ y)) = some (f.event, holding n y) := by
  rcases f with b | ⟨n1, n2, counter⟩
  · obtain ⟨hlen, first, rest, rfl, hbit⟩ := hf
    have hpos : 0 < n.toNat := by
      rw [← hlen, List.length_cons]
      omega
    exact step_block y hlen hpos fun h => (first_ne hbit).1 (Option.some_inj.mp h)
  · exact step_answer y rfl rfl

theorem feed_stream {fs : List Frame} (h : ∀ f ∈ fs, f.Complete n) :
    (joined n).feed (stream fs) = (fs.map Frame.event, joined n) := by
  induction fs with
  | nil => exact feed_wait rfl
  | cons f fs ih =>
    have hfs : ∀ g ∈ fs, g.Complete n := fun g hg => h g (List.mem_cons_of_mem f hg)
    show (joined n).feed (f.bytes ++ stream fs) = _
    rw [feed_step (step_frame (h f List.mem_cons_self) (stream fs)), ih hfs, List.map_cons]

/-! ### Whole pieces -/

/-- What the stray bytes may end with: nothing, or the beginning of an answer that no frame goes on
with, and that is whole pieces once its `ESC` is passed over. -/
def Tail (n : UInt8) (t : Bytes) : Prop :=
  t = [] ∨ t = [0x1B] ∨ (n.toNat ≤ 1 ∧ t = [0x1B, 0x1D]) ∨ (n.toNat ≤ 2 ∧ t = [0x1B, 0x1D, 0x03])

/-- Stray bytes that are whole pieces: answers, `ESC` bytes that begin none, and, where a block is too
short for a counter, blocks; without blocks any other byte is a piece. -/
inductive Stray (n : UInt8) : Bytes → Prop
  | tail {t : Bytes} (h : Tail n t) : Stray n t
  | answer {a s : Bytes} (hlen : a.length = kEscGsEtxResponseBytes) (hpre : a.take 4 = kEtxPrefix)
      (hs : Stray n s) : Stray n (a ++ s)
  | lone {s : Bytes} (h : etxPossible (0x1B :: s) = false) (hs : Stray n s) : Stray n (0x1B :: s)
  | block {b s : Bytes} (hlen : b.length = n.toNat) (hpos : 0 < n.toNat) (hn : n.toNat < 8)
      (hfirst : b.head? ≠ some 0x1B) (hs : Stray n s) : Stray n (b ++ s)
  | byte {c : UInt8} {s : Bytes} (hn : n = 0) (hc : c ≠ 0x1B) (hs : Stray n s) : Stray n (c :: s)

/-- Bytes before `s` that come to one event, whatever follows `s`. -/
def Skips (n : UInt8) (piece s : Bytes) (e : Event) : Prop :=
  ∀ y, (joined n).feed (piece ++ s ++ y) =
    (e :: ((joined n).feed (s ++ y)).1, ((joined n).feed (s ++ y)).2)

theorem skips_answer {a : Bytes} (s : Bytes) (hlen : a.length = kEscGsEtxResponseBytes)
    (hpre : a.take 4 = kEtxPrefix) :
    Skips n a s (.etxAck (a.getD 4 0) (a.getD 5 0) (a.getD 6 0)) := fun y => by
  rw [List.append_assoc]
  exact feed_step (step_answer (s ++ y) hlen hpre)

theorem skips_lone {s : Bytes} (h : etxPossible (0x1B :: s) = false) :
    Skips n [0x1B] s (.unknownByte 0x1B) := fun y => by
  have hy : etxPossible (0x1B :: (s ++ y)) = false := by
    by_contra hp
    have hs := etxPossible_append (b := 0x1B :: s) y (by simpa using hp)
    rw [h] at hs
    cases hs
  exact feed_step (step_lone hy)

theorem skips_block {b : Bytes} (s : Bytes) (hlen : b.length = n.toNat) (hpos : 0 < n.toNat)
    (hfirst : b.head? ≠ some 0x1B) : Skips n b s (.asbStatus b (blockCounter b)) := fun y => by
  rw [List.append_assoc]
  exact feed_step (step_block (s ++ y) hlen hpos hfirst)

theorem skips_byte {c : UInt8} (s : Bytes) (hn : n = 0) (hc : c ≠ 0x1B) :
    Skips n [c] s (.unknownByte c) := fun y => feed_step (step_byte (s ++ y) hn hc)

theorem carried_short {b : Bytes} (h : b.length < 8) (c : UInt8) :
    carried (.asbStatus b c) = none := if_neg (by omega)

/-- What comes of the stray bytes: some events with them, and some more when a frame follows. -/
structure Opens (n : UInt8) (s : Bytes) (early late : List Event) : Prop where
  alone : ((joined n).feed s).1 = early
  followed : ∀ fs : List Frame, (∀ f ∈ fs, f.Complete n) → fs ≠ [] →
    ((joined n).feed (s ++ stream fs)).1 = early ++ late ++ fs.map Frame.event
  quiet : ∀ e ∈ early ++ late, carried e = none

theorem Opens.skip {piece s : Bytes} {e : Event} {early late : List Event}
    (hskip : Skips n piece s e) (he : carried e = none) (h : Opens n s early late) :
    Opens n (piece ++ s) (e :: early) late where
  alone := by
    have hs := hskip []
    rw [List.append_nil, List.append_nil] at hs
    rw [hs, h.alone]
  followed fs hfs hne := by rw [hskip, h.followed fs hfs hne, List.cons_append, List.cons_append]
  quiet e' he' := by
    rcases List.mem_cons.mp he' with rfl | he'
    · exact he
    · exact h.quiet e' he'

theorem opens_nil : Opens n [] [] [] where
  alone := congrArg Prod.fst (@feed_stream n [] fun f hf => by cases hf)
  followed fs hfs _ := by
    rw [List.nil_append, feed_stream hfs]
    rfl
  quiet e he := by cases he

/-! ### The beginning of an answer -/

/-- The second, the third or the fourth byte rules an answer out. -/
theorem etxPossible_false {b : UInt8} (h2 : b ≠ 0x1D) (h3 : b ≠ 0x03) (h4 : b ≠ 0x01)
    (rest : Bytes) : etxPossible (0x1B :: b :: rest) = false ∧
      etxPossible (0x1B :: 0x1D :: b :: rest) = false ∧
      etxPossible (0x1B :: 0x1D :: 0x03 :: b :: rest) = false := by
  refine ⟨?_, ?_, ?_⟩
  · by_contra h
    have hb := etxPossible_append (b := [0x1B, b]) rest (by simpa using h)
    simp [etxPossible, kEtxPrefix, h2] at hb
  · by_contra h
    have hb := etxPossible_append (b := [0x1B, 0x1D, b]) rest (by simpa using h)
    simp [etxPossible, kEtxPrefix, h3] at hb
  · by_contra h
    have hb := etxPossible_append (b := [0x1B, 0x1D, 0x03, b]) rest (by simpa using h)
    simp [etxPossible, kEtxPrefix, h4] at hb

/-- No frame goes on with an answer that was begun. -/
theorem stream_head {fs : List Frame} (h : ∀ f ∈ fs, f.Complete n) (hne : fs ≠ []) :
    ∃ b rest, stream fs = b :: rest ∧ b ≠ 0x1D ∧ b ≠ 0x03 ∧ b ≠ 0x01 := by
  obtain ⟨f, fs, rfl⟩ := List.exists_cons_of_ne_nil hne
  rcases f with bytes | ⟨n1, n2, counter⟩
  · obtain ⟨-, first, rest, rfl, hbit⟩ := h _ List.mem_cons_self
    exact ⟨first, rest ++ stream fs, rfl, (first_ne hbit).2⟩
  · exact ⟨0x1B, [0x1D, 0x03, 0x01, n1, n2, counter, 0x00] ++ stream fs, rfl, by decide, by decide,
      by decide⟩

/-- A begun answer is held until a frame follows, and its `ESC` is passed over then. -/
theorem opens_begun {t : Bytes} {early : List Event} (hbegun : etxPossible (0x1B :: t) = true)
    (hlen : (0x1B :: t).length < kEscGsEtxResponseBytes)
    (hruled : ∀ b rest, b ≠ 0x1D → b ≠ 0x03 → b ≠ 0x01 →
      etxPossible (0x1B :: (t ++ b :: rest)) = false)
    (h : Opens n t early []) : Opens n (0x1B :: t) [] (.unknownByte 0x1B :: early) where
  alone := congrArg Prod.fst (feed_wait (step_begun hbegun hlen))
  followed fs hfs hne := by
    obtain ⟨b, rest, hs, h2, h3, h4⟩ := stream_head hfs hne
    have hno : etxPossible (0x1B :: (t ++ stream fs)) = false := by
      rw [hs]
      exact hruled b rest h2 h3 h4
    rw [List.cons_append, feed_step (step_lone hno), h.followed fs hfs hne, List.append_nil]
    rfl
  quiet e he := by
    rcases List.mem_cons.mp he with rfl | he
    · rfl
    · exact h.quiet e (by rwa [List.append_nil])

theorem opens_tail {t : Bytes} (h : Tail n t) : ∃ early late, Opens n t early late := by
  have hzero : n.toNat = 0 → n = 0 := fun h => UInt8.toNat_inj.mp h
  have hbyte : ∀ {c : UInt8} {s : Bytes} {early : List Event}, n.toNat ≤ 1 → c ≠ 0x1B →
      Opens n s early [] → ∃ e, Opens n ([c] ++ s) (e :: early) [] := by
    intro c s early hn hc hs
    rcases Nat.le_one_iff_eq_zero_or_eq_one.mp hn with h0 | h1
    · exact ⟨_, hs.skip (skips_byte s (hzero h0) hc) rfl⟩
    · have hfirst : [c].head? ≠ some 0x1B := fun h => hc (Option.some_inj.mp h)
      exact ⟨_, hs.skip (skips_block s h1.symm (by omega) hfirst) (carried_short (by simp) _)⟩
  rcases h with rfl | rfl | ⟨hn, rfl⟩ | ⟨hn, rfl⟩
  · exact ⟨_, _, opens_nil⟩
  · exact ⟨_, _, opens_begun (by decide) (by decide)
      (fun b rest h2 h3 h4 => (etxPossible_false h2 h3 h4 rest).1) opens_nil⟩
  · obtain ⟨e, he⟩ := hbyte (c := 0x1D) hn (by decide) opens_nil
    exact ⟨_, _, opens_begun (by decide) (by decide)
      (fun b rest h2 h3 h4 => (etxPossible_false h2 h3 h4 rest).2.1) he⟩
  · have hwhole : ∃ early, Opens n [0x1D, 0x03] early [] := by
      rcases Nat.lt_or_ge n.toNat 2 with h1 | h2
      · obtain ⟨e, he⟩ := hbyte (c := 0x03) (by omega) (by decide) opens_nil
        obtain ⟨e', he'⟩ := hbyte (c := 0x1D) (by omega) (by decide) he
        exact ⟨_, he'⟩
      · have hlen : ([0x1D, 0x03] : Bytes).length = n.toNat := le_antisymm h2 hn
        exact ⟨_, opens_nil.skip (skips_block [] hlen (by omega) (by decide))
          (carried_short (by decide) _)⟩
    obtain ⟨early, he⟩ := hwhole
    exact ⟨_, _, opens_begun (by decide) (by decide)
      (fun b rest h2 h3 h4 => (etxPossible_false h2 h3 h4 rest).2.2) he⟩

theorem opens_stray {s : Bytes} (h : Stray n s) : ∃ early late, Opens n s early late := by
  induction h with
  | tail h => exact opens_tail h
  | answer hlen hpre _ ih =>
    obtain ⟨early, late, hs⟩ := ih
    exact ⟨_, late, hs.skip (skips_answer _ hlen hpre) rfl⟩
  | lone h _ ih =>
    obtain ⟨early, late, hs⟩ := ih
    exact ⟨_, late, hs.skip (skips_lone h) rfl⟩
  | block hlen hpos hn hfirst _ ih =>
    obtain ⟨early, late, hs⟩ := ih
    exact ⟨_, late, hs.skip (skips_block _ hlen hpos hfirst) (carried_short (by omega) _)⟩
  | byte hn hc _ ih =>
    obtain ⟨early, late, hs⟩ := ih
    exact ⟨_, late, hs.skip (skips_byte _ hn hc) rfl⟩

/-- **Behind whole pieces every frame is its event.** -/
theorem Opens.honest {s : Bytes} {early late : List Event} (h : Opens n s early late) :
    Honest n s where
  counters fs hfs chunks hc e he c hcar := by
    rw [reads_joined, hc] at he
    by_cases hne : fs = []
    · rw [hne, show stream [] = [] from rfl, List.append_nil, h.alone] at he
      rw [h.quiet e (List.mem_append_left _ he)] at hcar
      cases hcar
    · rw [h.followed fs hfs hne] at he
      rcases List.mem_append.mp he with he | he
      · rw [h.quiet e he] at hcar
        cases hcar
      · obtain ⟨f, hf, rfl⟩ := List.mem_map.mp he
        exact ⟨f, hf, hcar⟩
  answers fs post n1 n2 counter hfs chunks hc := by
    have hmid : ∀ f ∈ fs ++ [.answer n1 n2 counter], f.Complete n := by
      intro f hf
      rcases List.mem_append.mp hf with hf | hf
      · exact hfs f (List.mem_append_left _ hf)
      · rw [List.mem_singleton.mp hf]
        trivial
    rw [reads_joined, hc, h.followed _ hfs (by simp), h.followed _ hmid (by simp)]
    by_cases hne : fs = []
    · refine ⟨late ++ [.etxAck n1 n2 counter], post.map Frame.event, by simp, ?_, ?_⟩
      · rw [hne, show stream [] = [] from rfl, List.append_nil, h.alone]
        simp [Frame.event]
      · rw [hne, show stream [] = [] from rfl, List.append_nil, h.alone]
        simp [Frame.event]
    · refine ⟨[.etxAck n1 n2 counter], post.map Frame.event, by simp, ?_, ?_⟩
      · rw [h.followed fs (fun f hf => hfs f (List.mem_append_left _ hf)) hne]
        simp [Frame.event]
      · rw [h.followed fs (fun f hf => hfs f (List.mem_append_left _ hf)) hne]
        simp [Frame.event]

/-! ### Bytes that swallow an answer -/

/-- Some answer that follows is not reported. -/
def Swallows (n : UInt8) (s : Bytes) : Prop :=
  ∃ n1 n2 counter, .etxAck n1 n2 counter ∉
    ((joined n).feed (s ++ (Frame.answer n1 n2 counter).bytes)).1

theorem Swallows.not_honest {s : Bytes} (h : Swallows n s) : ¬Honest n s := by
  obtain ⟨n1, n2, counter, hlost⟩ := h
  intro hh
  have hs : stream ([] ++ [.answer n1 n2 counter]) = (Frame.answer n1 n2 counter).bytes :=
    List.append_nil _
  obtain ⟨came, rest, hcame, hlast, -⟩ := hh.answers [] [] n1 n2 counter
    (fun f hf => by
      rw [List.mem_singleton.mp hf]
      trivial) [s ++ stream ([] ++ [.answer n1 n2 counter])] (by simp)
  rw [hs] at hlast
  rw [hlast] at hlost
  exact hlost (List.mem_append_right _ hcame)

/-- Seven bytes are no answer. -/
theorem no_ack_of_short {x : Bytes} (h : x.length < kEscGsEtxResponseBytes) (n1 n2 counter : UInt8) :
    .etxAck n1 n2 counter ∉ ((joined n).feed x).1 := by
  intro hmem
  have hx : (joined n).feed x = scanner.drain x.length (holding n x) := feed_eq _ _
  rw [hx] at hmem
  have hkeeps : ∀ p e q, p.buffer.length < kEscGsEtxResponseBytes → scanner.step p = some (e, q) →
      q.buffer.length < kEscGsEtxResponseBytes := fun p e q hp hstep =>
    lt_trans (scanner_lawful.consumes p e q hstep) hp
  obtain ⟨q, q', hq, hstep⟩ := (Scanner.drain_keeps hkeeps x.length (p := holding n x) h).2 _ hmem
  cases step_emits (scanner_step.mp hstep) with
  | etx hlen _ => omega

/-- Bytes that wait for the rest of a block wait for bytes of the answer. -/
theorem swallows_short {r : Bytes} (hne : r ≠ []) (hfirst : r.head? ≠ some 0x1B)
    (hlen : r.length < n.toNat) (n1 n2 counter : UInt8) : .etxAck n1 n2 counter ∉
      ((joined n).feed (r ++ (Frame.answer n1 n2 counter).bytes)).1 := by
  have hpos : 0 < r.length := List.length_pos_iff.mpr hne
  have ha : (Frame.answer n1 n2 counter).bytes.length = 8 := rfl
  have hhead : (r ++ (Frame.answer n1 n2 counter).bytes).head? ≠ some 0x1B := by
    rw [List.head?_append_of_ne_nil _ hne]
    exact hfirst
  set x := r ++ (Frame.answer n1 n2 counter).bytes with hx
  have hxlen : x.length = r.length + 8 := by rw [hx, List.length_append, ha]
  by_cases hwait : x.length < n.toNat
  · rw [feed_wait (step_short hhead hwait)]
    exact List.not_mem_nil
  · have hblock : (x.take n.toNat).length = n.toNat := by
      rw [List.length_take]
      omega
    have hblockhead : (x.take n.toNat).head? ≠ some 0x1B := by
      rw [List.head?_take, if_neg (by omega)]
      exact hhead
    have hrest : (x.drop n.toNat).length < kEscGsEtxResponseBytes := by
      rw [List.length_drop, kEscGsEtxResponseBytes]
      omega
    have hstep := step_block (x.drop n.toNat) hblock (by omega) hblockhead
    rw [List.take_append_drop] at hstep
    rw [feed_step hstep]
    intro hmem
    rcases List.mem_cons.mp hmem with hmem | hmem
    · cases hmem
    · exact no_ack_of_short hrest n1 n2 counter hmem

/-- An answer that was begun takes the first bytes of the next one. -/
theorem swallows_begun {r : Bytes} (hlo : 4 ≤ r.length) (hhi : r.length < kEscGsEtxResponseBytes)
    (hpre : r.take 4 = kEtxPrefix) : Swallows n r := by
  refine ⟨(r ++ [0x1B]).getD 4 0 + 1, 0, 0, ?_⟩
  set n1 : UInt8 := (r ++ [0x1B]).getD 4 0 + 1 with hn1
  set x := r ++ (Frame.answer n1 0 0).bytes with hx
  have hxlen : x.length = r.length + 8 := by
    rw [hx, List.length_append]
    rfl
  have hlen : (x.take kEscGsEtxResponseBytes).length = kEscGsEtxResponseBytes := by
    rw [List.length_take, kEscGsEtxResponseBytes]
    omega
  have htake : (x.take kEscGsEtxResponseBytes).take 4 = kEtxPrefix := by
    rw [List.take_take, hx, show min 4 kEscGsEtxResponseBytes = 4 from rfl,
      List.take_append_of_le_length hlo, hpre]
  have hfifth : (x.take kEscGsEtxResponseBytes).getD 4 0 = (r ++ [0x1B]).getD 4 0 := by
    have hcut : x = (r ++ [0x1B]) ++ [0x1D, 0x03, 0x01, n1, 0, 0, 0x00] := by
      rw [hx, List.append_assoc]
      rfl
    rw [List.getD_eq_getElem?_getD, List.getD_eq_getElem?_getD, List.getElem?_take_of_lt (by decide),
      hcut, List.getElem?_append_left (by rw [List.length_append, List.length_singleton]; omega)]
  have hrest : (x.drop kEscGsEtxResponseBytes).length < kEscGsEtxResponseBytes := by
    rw [List.length_drop]
    unfold kEscGsEtxResponseBytes at *
    omega
  have hstep := step_answer (n := n) (x.drop kEscGsEtxResponseBytes) hlen htake
  rw [List.take_append_drop, hfifth] at hstep
  rw [feed_step hstep]
  intro hmem
  rcases List.mem_cons.mp hmem with hmem | hmem
  · have heq : n1 = (r ++ [0x1B]).getD 4 0 := (Event.etxAck.inj hmem).1
    rw [hn1] at heq
    simp at heq
  · exact no_ack_of_short hrest n1 0 0 hmem

/-- The `ESC` of an answer that was begun is passed over, and what is left waits for a block. -/
theorem swallows_ruled {t : Bytes} (hruled : ∀ b rest, b ≠ 0x1D → b ≠ 0x03 → b ≠ 0x01 →
      etxPossible (0x1B :: (t ++ b :: rest)) = false) (hne : t ≠ [])
    (hfirst : t.head? ≠ some 0x1B) (hlen : t.length < n.toNat) : Swallows n (0x1B :: t) := by
  refine ⟨0, 0, 0, ?_⟩
  have hno : etxPossible (0x1B :: (t ++ (Frame.answer 0 0 0).bytes)) = false :=
    hruled 0x1B _ (by decide) (by decide) (by decide)
  rw [List.cons_append, feed_step (step_lone hno)]
  intro hmem
  rcases List.mem_cons.mp hmem with hmem | hmem
  · cases hmem
  · exact swallows_short hne hfirst hlen 0 0 0 hmem

/-! ### Only whole pieces -/

/-- What is honest behind a piece is honest without it. -/
theorem Honest.of_skips {piece s : Bytes} {e : Event} (hskip : Skips n piece s e)
    (h : Honest n (piece ++ s)) : Honest n s where
  counters fs hfs chunks hc e' he c hcar := by
    refine h.counters fs hfs (piece :: chunks) (by rw [List.flatten_cons, hc, List.append_assoc]) e' ?_
      c hcar
    rw [reads_joined, List.flatten_cons, hc, ← List.append_assoc, hskip, ← hc, ← reads_joined]
    exact List.mem_cons_of_mem e he
  answers fs post n1 n2 counter hfs chunks hc := by
    obtain ⟨came, rest, hcame, hlast, hall⟩ := h.answers fs post n1 n2 counter hfs (piece :: chunks)
      (by rw [List.flatten_cons, hc, List.append_assoc])
    rw [hskip, hskip] at hlast
    rw [reads_joined, List.flatten_cons, hc, ← List.append_assoc, hskip, hskip, ← hc,
      ← reads_joined] at hall
    exact ⟨came, rest, hcame, (List.cons.inj hlast).2, (List.cons.inj hall).2⟩

/-- A block of stray bytes that has a counter. -/
theorem not_honest_of_counter {b s : Bytes} (hlen : b.length = n.toNat) (hn : 8 ≤ n.toNat)
    (hfirst : b.head? ≠ some 0x1B) : ¬Honest n (b ++ s) := by
  intro h
  have hskip := skips_block s hlen (by omega) hfirst []
  have hmem : .asbStatus b (blockCounter b) ∈ (reads (joined n) [b ++ s]).1 := by
    have hs : [b ++ s].flatten = b ++ s ++ [] := by simp
    rw [reads_joined, hs, hskip]
    exact List.mem_cons_self
  obtain ⟨f, hf, -⟩ := h.counters [] (fun f hf => by cases hf) [b ++ s] (by simp [stream]) _ hmem
    (blockCounter b) (if_pos (by omega))
  cases hf

theorem prefix_of_possible {s : Bytes} (h : etxPossible s = true) (hlen : 4 ≤ s.length) :
    s.take 4 = kEtxPrefix := by
  have hp : s.take 4 = kEtxPrefix.take s.length := of_decide_eq_true h
  rwa [List.take_of_length_le (show kEtxPrefix.length ≤ s.length from hlen)] at hp

/-- An answer that was begun is passed over only if nothing waits behind its `ESC`. -/
theorem tail_of_begun {t : Bytes} (hposs : etxPossible (0x1B :: t) = true)
    (hlen : (0x1B :: t).length < kEscGsEtxResponseBytes) (h : Honest n (0x1B :: t)) :
    Tail n (0x1B :: t) := by
  rcases t with _ | ⟨b, _ | ⟨c, _ | ⟨d, t⟩⟩⟩
  · exact .inr (.inl rfl)
  · have hb : b = 0x1D := by simpa [etxPossible, kEtxPrefix] using hposs
    subst hb
    by_cases hn : n.toNat ≤ 1
    · exact .inr (.inr (.inl ⟨hn, rfl⟩))
    · exact absurd h (swallows_ruled (t := [0x1D])
        (fun b rest h2 h3 h4 => (etxPossible_false h2 h3 h4 rest).2.1) (by simp) (by decide)
        (not_le.mp hn)).not_honest
  · have hbc : b = 0x1D ∧ c = 0x03 := by simpa [etxPossible, kEtxPrefix] using hposs
    obtain ⟨rfl, rfl⟩ := hbc
    by_cases hn : n.toNat ≤ 2
    · exact .inr (.inr (.inr ⟨hn, rfl⟩))
    · exact absurd h (swallows_ruled (t := [0x1D, 0x03])
        (fun b rest h2 h3 h4 => (etxPossible_false h2 h3 h4 rest).2.2) (by simp) (by decide)
        (not_le.mp hn)).not_honest
  · have h4 : 4 ≤ (0x1B :: b :: c :: d :: t).length := by
      simp only [List.length_cons]
      omega
    exact absurd h (swallows_begun h4 hlen (prefix_of_possible hposs h4)).not_honest

/-- Honest bytes are a tail, or begin with a piece. -/
theorem piece_of_honest {s : Bytes} (h : Honest n s) : Tail n s ∨ ∃ piece rest e,
    piece ≠ [] ∧ s = piece ++ rest ∧ Skips n piece rest e ∧ (Stray n rest → Stray n s) := by
  rcases s with _ | ⟨first, rest⟩
  · exact .inl (.inl rfl)
  · by_cases hesc : first = 0x1B
    · subst hesc
      rcases hposs : etxPossible (0x1B :: rest) with _ | _
      · exact .inr ⟨[0x1B], rest, _, by simp, rfl, skips_lone hposs, .lone hposs⟩
      · by_cases hlen : (0x1B :: rest).length < kEscGsEtxResponseBytes
        · exact .inl (tail_of_begun hposs hlen h)
        · set s : Bytes := 0x1B :: rest
          have hcut : s = s.take kEscGsEtxResponseBytes ++ s.drop kEscGsEtxResponseBytes :=
            (List.take_append_drop _ _).symm
          have h8 : (s.take kEscGsEtxResponseBytes).length = kEscGsEtxResponseBytes := by
            rw [List.length_take]
            omega
          have h4 : 4 ≤ s.length := by
            unfold kEscGsEtxResponseBytes at hlen
            omega
          have hpre : (s.take kEscGsEtxResponseBytes).take 4 = kEtxPrefix := by
            rw [List.take_take]
            exact prefix_of_possible hposs h4
          have hne : s.take kEscGsEtxResponseBytes ≠ [] := List.ne_nil_of_length_pos (by
            rw [h8]
            decide)
          refine .inr ⟨_, _, _, hne, hcut, skips_answer _ h8 hpre, fun hs => ?_⟩
          rw [hcut]
          exact .answer h8 hpre hs
    · have hfirst : (first :: rest).head? ≠ some 0x1B := fun hf => hesc (Option.some_inj.mp hf)
      by_cases hzero : n = 0
      · exact .inr ⟨[first], rest, _, by simp, rfl, skips_byte rest hzero hesc, .byte hzero hesc⟩
      · have hpos : 0 < n.toNat := Nat.pos_of_ne_zero fun h0 => hzero (UInt8.toNat_inj.mp h0)
        by_cases hlen : (first :: rest).length < n.toNat
        · exact absurd h (Swallows.not_honest
            ⟨0, 0, 0, swallows_short (List.cons_ne_nil _ _) hfirst hlen 0 0 0⟩)
        · set s := first :: rest
          have hcut : s = s.take n.toNat ++ s.drop n.toNat := (List.take_append_drop _ _).symm
          have hblock : (s.take n.toNat).length = n.toNat := by
            rw [List.length_take]
            omega
          have hhead : (s.take n.toNat).head? ≠ some 0x1B := by
            rw [List.head?_take, if_neg (by omega)]
            exact hfirst
          have hne : s.take n.toNat ≠ [] := List.ne_nil_of_length_pos (by omega)
          by_cases h8 : n.toNat < 8
          · refine .inr ⟨_, _, _, hne, hcut, skips_block _ hblock hpos hhead, fun hs => ?_⟩
            rw [hcut]
            exact .block hblock hpos h8 hhead hs
          · rw [hcut] at h
            exact absurd h (not_honest_of_counter hblock (not_lt.mp h8) hhead)

theorem stray_of_honest {s : Bytes} (h : Honest n s) : Stray n s := by
  induction hk : s.length using Nat.strongRecOn generalizing s with
  | ind k ih =>
    rcases piece_of_honest h with ht | ⟨piece, rest, e, hne, rfl, hskip, hlift⟩
    · exact .tail ht
    · have hpos : 0 < piece.length := List.length_pos_iff.mpr hne
      have hlt : rest.length < k := by
        rw [← hk, List.length_append]
        omega
      exact hlift (ih rest.length hlt (h.of_skips hskip) rfl)

/-- **No counter is faked and no answer is lost, whatever follows the stray bytes and however it is
read, exactly if they are whole pieces of the stream.** -/
theorem honest_iff_stray (n : UInt8) (s : Bytes) : Honest n s ↔ Stray n s := by
  constructor
  · exact stray_of_honest
  · intro h
    obtain ⟨early, late, hopens⟩ := opens_stray h
    exact hopens.honest

/-- **One byte of a block, and the next block comes with the counter of neither.** -/
theorem stray_byte_fakes : ¬∀ (n : UInt8) (s : Bytes), Honest n s := by
  intro h
  have hfs : ∀ f ∈ [Frame.block [0, 0, 0, 0, 0, 0, 2, 0]], f.Complete 8 := by
    intro f hf
    rw [List.mem_singleton.mp hf]
    exact ⟨rfl, 0, _, rfl, rfl⟩
  have hmem : .asbStatus [0, 0, 0, 0, 0, 0, 0, 2] 1 ∈
      (reads (joined 8) [[0, 0, 0, 0, 0, 0, 0, 2, 0]]).1 := by decide
  obtain ⟨f, hf, hcar⟩ := (h 8 [0]).counters _ hfs [[0, 0, 0, 0, 0, 0, 0, 2, 0]] rfl _ hmem 1 rfl
  rw [List.mem_singleton.mp hf] at hcar
  exact absurd hcar (by decide)

end PrinterDriver.Core.StarStrays
