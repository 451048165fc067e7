import PrinterDriver.Core.StarStrays
import Mathlib.Algebra.GroupWithZero.Nat

/-! # Whole Star streams

A stream of whole blocks and whole answers comes out as sent, whatever the length of a block and
however the reads are cut; on any stream every byte is accounted for; a flush leaves nothing; and
without blocks no stray byte hides the answer that follows it (`round_trips`). -/

namespace PrinterDriver.Core.StarStreams

open PrinterDriver.Core.Types PrinterDriver.Core.Star PrinterDriver.Core.StarStrays
open PrinterDriver.Core.Star.StarParser

/-! ### Streams -/

/-- A block of any bytes that begin unlike an answer, or an answer with any byte at its end. -/
inductive Piece where
  | block (bytes : Bytes)
  | answer (n1 n2 counter last : UInt8)
  deriving DecidableEq, Repr

namespace Piece

def bytes : Piece → Bytes
  | .block b => b
  | .answer n1 n2 counter last => kEtxPrefix ++ [n1, n2, counter, last]

def event : Piece → Event
  | .block b => .asbStatus b (if 7 < b.length then etbCounter (b.getD 7 0) else 0)
  | .answer n1 n2 counter _ => .etxAck n1 n2 counter

/-- A block has the declared length, and its first byte is not `ESC`. -/
def Complete (n : UInt8) : Piece → Prop
  | .block b => b.length = n.toNat ∧ ∃ first rest, b = first :: rest ∧ first ≠ 0x1B
  | .answer _ _ _ _ => True

end Piece

def sent (ps : List Piece) : Bytes := ps.flatMap Piece.bytes

/-- How many bytes an event stands for, where a block has `n`. -/
def consumed (n : UInt8) : Event → ℕ
  | .etxAck _ _ _ => kEscGsEtxResponseBytes
  | .asbStatus _ _ => n.toNat
  | .unknownByte _ => 1

/-- What a parser of blocks of `n` bytes makes of a stream. -/
structure RoundTrips (n : UInt8) : Prop where
  pieces : ∀ ps : List Piece, (∀ p ∈ ps, p.Complete n) → ∀ chunks : List Bytes,
    chunks.flatten = sent ps → reads (joined n) chunks = (ps.map Piece.event, joined n)
  accounts : ∀ (p : StarParser) (chunks : List Bytes), p.asbBlockBytes = n →
    ((reads p chunks).1.map (consumed n)).sum + (reads p chunks).2.buffer.length =
      p.buffer.length + chunks.flatten.length
  flushes : ∀ p : StarParser, p.asbBlockBytes = n →
    p.flush.2 = { p with buffer := [] } ∧ p.flush.2.step true = .empty ∧
      (p.flush.1.map (consumed n)).sum = p.buffer.length
  strays : n = 0 → ∀ stray : Bytes, ¬kEtxPrefix <:+: stray →
    ∀ (n1 n2 counter last : UInt8) (post : Bytes) (chunks : List Bytes),
      chunks.flatten = stray ++ (Piece.answer n1 n2 counter last).bytes ++ post →
        (reads (joined n) chunks).1 =
          stray.map .unknownByte ++ .etxAck n1 n2 counter :: ((joined n).feed post).1

variable {n : UInt8}

/-! ### Pieces in a row -/

theorem step_piece {p : Piece} (hp : p.Complete n) (y : Bytes) :
    scanner.step (holding n (p.bytes ++ y)) = some (p.event, holding n y) := by
  rcases p with b | ⟨n1, n2, counter, last⟩
  · obtain ⟨hlen, first, rest, rfl, hfirst⟩ := hp
    have hpos : 0 < n.toNat := by
      rw [← hlen, List.length_cons]
      omega
    exact step_block y hlen hpos fun h => hfirst (Option.some_inj.mp h)
  · exact step_answer y rfl rfl

theorem feed_sent {ps : List Piece} (h : ∀ p ∈ ps, p.Complete n) :
    (joined n).feed (sent ps) = (ps.map Piece.event, joined n) := by
  induction ps with
  | nil => exact feed_wait rfl
  | cons p ps ih =>
    have hps : ∀ q ∈ ps, q.Complete n := fun q hq => h q (List.mem_cons_of_mem p hq)
    show (joined n).feed (p.bytes ++ sent ps) = _
    rw [feed_step (step_piece (h p List.mem_cons_self) (sent ps)), ih hps, List.map_cons]

/-! ### Accounts -/

/-- A step, forced or not, takes the bytes of its event and leaves the block length. -/
theorem step_consumed {p q : StarParser} {e : Event} {force : Bool}
    (h : p.step force = .emitted e q) : q.asbBlockBytes = p.asbBlockBytes ∧
      consumed p.asbBlockBytes e + q.buffer.length = p.buffer.length ∧
      0 < consumed p.asbBlockBytes e := by
  unfold StarParser.step at h
  cases hb : p.buffer with
  | nil =>
    rw [hb] at h
    cases h
  | cons first rest =>
    simp only [hb] at h
    have hone : 1 + rest.length = (first :: rest).length := Nat.add_comm _ _
    split_ifs at h with h1 h2 h3 h4 h5 h6
    · cases h
      exact ⟨rfl, hone, Nat.one_pos⟩
    · cases h
      exact ⟨rfl, hone, Nat.one_pos⟩
    · cases h
      refine ⟨rfl, ?_, Nat.succ_pos 7⟩
      show kEscGsEtxResponseBytes + ((first :: rest).drop kEscGsEtxResponseBytes).length = _
      rw [List.length_drop]
      omega
    · cases h
      exact ⟨rfl, hone, Nat.one_pos⟩
    · cases h
      have hpos : 0 < p.asbBlockBytes.toNat := UInt8.lt_iff_toNat_lt.mp h5
      refine ⟨rfl, ?_, hpos⟩
      show p.asbBlockBytes.toNat + ((first :: rest).drop p.asbBlockBytes.toNat).length = _
      rw [List.length_drop]
      omega
    · cases h
      exact ⟨rfl, hone, Nat.one_pos⟩

theorem drain_consumed (force : Bool) (k : ℕ) (p : StarParser) :
    (p.drain force k).2.asbBlockBytes = p.asbBlockBytes ∧
      ((p.drain force k).1.map (consumed p.asbBlockBytes)).sum +
        (p.drain force k).2.buffer.length = p.buffer.length := by
  induction k generalizing p with
  | zero => exact ⟨rfl, Nat.zero_add _⟩
  | succ k ih =>
    rw [drain]
    cases hs : p.step force with
    | needMore | empty => exact ⟨rfl, Nat.zero_add _⟩
    | emitted e q =>
      obtain ⟨hn, htaken, _⟩ := step_consumed hs
      obtain ⟨hn', hsum⟩ := ih q
      rw [hn] at hn' hsum
      refine ⟨hn', ?_⟩
      show ((e :: (drain force k q).1).map (consumed p.asbBlockBytes)).sum +
        (drain force k q).2.buffer.length = _
      rw [List.map_cons, List.sum_cons]
      omega

theorem reads_consumed (chunks : List Bytes) (p : StarParser) (hp : p.asbBlockBytes = n) :
    ((reads p chunks).1.map (consumed n)).sum + (reads p chunks).2.buffer.length =
      p.buffer.length + chunks.flatten.length := by
  induction chunks generalizing p with
  | nil => exact Nat.zero_add _
  | cons x xs ih =>
    obtain ⟨hn, hfed⟩ := drain_consumed false (p.buffer ++ x).length
      { p with buffer := p.buffer ++ x }
    have hfed : ((p.feed x).1.map (consumed p.asbBlockBytes)).sum + (p.feed x).2.buffer.length =
        (p.buffer ++ x).length := hfed
    have hrest := ih (p.feed x).2 (hn.trans hp)
    rw [hp, List.length_append] at hfed
    rw [reads, List.flatten_cons, List.length_append]
    show (((p.feed x).1 ++ (reads (p.feed x).2 xs).1).map (consumed n)).sum +
      (reads (p.feed x).2 xs).2.buffer.length = _
    rw [List.map_append, List.sum_append]
    omega

/-! ### Flushing -/

/-- A forced step never waits. -/
theorem step_true {p : StarParser} (h : p.buffer ≠ []) : ∃ e q, p.step true = .emitted e q := by
  obtain ⟨first, rest, hb⟩ := List.exists_cons_of_ne_nil h
  unfold StarParser.step
  simp only [hb, if_true]
  split_ifs
  all_goals exact ⟨_, _, rfl⟩

theorem drain_true (k : ℕ) (p : StarParser) (hk : p.buffer.length ≤ k) :
    (p.drain true k).2.buffer = [] := by
  induction k generalizing p with
  | zero => exact List.eq_nil_of_length_eq_zero (Nat.le_zero.mp hk)
  | succ k ih =>
    by_cases hb : p.buffer = []
    · have hempty : p.step true = .empty := by
        unfold StarParser.step
        rw [hb]
      rw [drain, hempty]
      exact hb
    · obtain ⟨e, q, hs⟩ := step_true hb
      obtain ⟨_, htaken, hpos⟩ := step_consumed hs
      rw [drain, hs]
      exact ih q (by omega)

/-! ### Stray bytes without blocks -/

/-- Up to the answer, nothing begins like one. -/
theorem not_possible {stray : Bytes} (h : ¬kEtxPrefix <:+: 0x1B :: stray) (tail : Bytes) :
    etxPossible (0x1B :: (stray ++ (kEtxPrefix ++ tail))) = false := by
  by_contra hp
  have hp : etxPossible (0x1B :: (stray ++ (kEtxPrefix ++ tail))) = true := by simpa using hp
  have hlen : 4 ≤ (0x1B :: (stray ++ (kEtxPrefix ++ tail))).length := by
    simp only [List.length_cons, List.length_append, kEtxPrefix]
    omega
  have hpre := prefix_of_possible hp hlen
  by_cases h3 : 3 ≤ stray.length
  · have htake : (0x1B :: (stray ++ (kEtxPrefix ++ tail))).take 4 = (0x1B :: stray).take 4 :=
      List.take_append_of_le_length (show 4 ≤ (0x1B :: stray).length by
        rw [List.length_cons]
        omega)
    rw [htake] at hpre
    exact h (hpre ▸ (List.take_prefix 4 (0x1B :: stray)).isInfix)
  · -- The answer's own `ESC` stands where the prefix has another byte.
    rcases stray with _ | ⟨a, _ | ⟨b, _ | ⟨c, stray⟩⟩⟩
    · exact absurd hpre (by simp [kEtxPrefix])
    · exact absurd hpre (by simp [kEtxPrefix])
    · exact absurd hpre (by simp [kEtxPrefix])
    · simp only [List.length_cons] at h3
      omega

theorem feed_strays {stray : Bytes} (h : ¬kEtxPrefix <:+: stray) (tail : Bytes) :
    (joined 0).feed (stray ++ (kEtxPrefix ++ tail)) =
      (stray.map .unknownByte ++ ((joined 0).feed (kEtxPrefix ++ tail)).1,
        ((joined 0).feed (kEtxPrefix ++ tail)).2) := by
  induction stray with
  | nil => rfl
  | cons c stray ih =>
    have hrest : ¬kEtxPrefix <:+: stray := fun hin => h (hin.trans (List.suffix_cons c stray).isInfix)
    have hstep : scanner.step (holding 0 (c :: (stray ++ (kEtxPrefix ++ tail)))) =
        some (.unknownByte c, holding 0 (stray ++ (kEtxPrefix ++ tail))) := by
      by_cases hc : c = 0x1B
      · subst hc
        exact step_lone (not_possible h tail)
      · exact step_byte _ rfl hc
    rw [List.cons_append, feed_step hstep, ih hrest, List.map_cons, List.cons_append]

/-- **The round trip.** -/
theorem round_trips (n : UInt8) : RoundTrips n where
  pieces ps hps chunks hchunks := by rw [reads_joined, hchunks, feed_sent hps]
  accounts p chunks hp := reads_consumed chunks p hp
  flushes p hp := by
    obtain ⟨hn, hsum⟩ := drain_consumed true p.buffer.length p
    have hempty : p.flush.2.buffer = [] := drain_true _ p (le_refl _)
    have hflush : p.flush.2 = { p with buffer := [] } := by
      show (StarParser.mk p.flush.2.buffer p.flush.2.asbBlockBytes) = _
      rw [hempty]
      exact congrArg (StarParser.mk []) hn
    refine ⟨hflush, ?_, ?_⟩
    · rw [hflush]
      rfl
    · have hsum : (p.flush.1.map (consumed p.asbBlockBytes)).sum + p.flush.2.buffer.length =
        p.buffer.length := hsum
      rw [hempty, hp] at hsum
      exact hsum
  strays hn stray hstray n1 n2 counter last post chunks hchunks := by
    subst hn
    have hbytes : chunks.flatten = stray ++ (kEtxPrefix ++ ([n1, n2, counter, last] ++ post)) := by
      rw [hchunks]
      simp [Piece.bytes]
    have hanswer := feed_step (step_piece (n := 0) (p := .answer n1 n2 counter last) trivial post)
    rw [reads_joined, hbytes, feed_strays hstray]
    have hpost : kEtxPrefix ++ ([n1, n2, counter, last] ++ post) =
        (Piece.answer n1 n2 counter last).bytes ++ post := by simp [Piece.bytes]
    rw [hpost, hanswer]
    rfl

end PrinterDriver.Core.StarStreams
