import PrinterDriver.Engine.Ops
import Mathlib.Algebra.Group.Nat.Defs

/-! # Completion marker tokens

One allocator serves all printers of a process. A job takes two adjacent sequence values, an even one
for its print fence and the odd successor for its cut fence; the sequence wraps after 8836 values,
and pairs that are still held are passed over. The slots are drawn from a 32-bit counter. -/

namespace PrinterDriver.Engine.Markers

open PrinterDriver.Core.Types PrinterDriver.Engine.Ops

def kTokenAlphabetFirst : UInt8 := 0x21

def kTokenAlphabetSize : UInt32 := 94

def kTokenSequenceSpace : UInt32 := kTokenAlphabetSize * kTokenAlphabetSize

def encodeBase94 (value : UInt32) : Bytes :=
  let wrapped := value % kTokenSequenceSpace
  [kTokenAlphabetFirst + (wrapped / kTokenAlphabetSize).toUInt8,
    kTokenAlphabetFirst + (wrapped % kTokenAlphabetSize).toUInt8]

structure MarkerAllocator where
  nonce : Bytes
  next : UInt32 := 0
  /-- A set in the code. -/
  inUse : List Bytes := []

/-- The tokens of a slot. -/
def pairAt (nonce : Bytes) (slot : UInt32) : MarkerPair :=
  ⟨nonce ++ encodeBase94 (slot * 2), nonce ++ encodeBase94 (slot * 2 + 1)⟩

namespace MarkerAllocator

/-- Slots are drawn until one is free, at most as many as the fuel. -/
def acquireWithin : ℕ → MarkerAllocator → Option (MarkerPair × MarkerAllocator)
  | 0, _ => none
  | n + 1, a =>
    let pair := pairAt a.nonce a.next
    let a := { a with next := a.next + 1 }
    if a.inUse.contains pair.printToken || a.inUse.contains pair.cutToken then acquireWithin n a
    else some (pair, { a with inUse := pair.printToken :: pair.cutToken :: a.inUse })

/-- `none` is the exception of an allocator that has no free pair. -/
def acquire (a : MarkerAllocator) : Option (MarkerPair × MarkerAllocator) :=
  a.acquireWithin (kTokenSequenceSpace.toNat / 2)

def release (a : MarkerAllocator) (pair : MarkerPair) : MarkerAllocator :=
  { a with inUse := a.inUse.filter fun t => t ≠ pair.printToken && t ≠ pair.cutToken }

end MarkerAllocator

/-! ### The tokens of different slots -/

/-- No token of one pair is a token of the other. -/
def Apart (p q : MarkerPair) : Prop :=
  p.printToken ≠ q.printToken ∧ p.printToken ≠ q.cutToken ∧
    p.cutToken ≠ q.printToken ∧ p.cutToken ≠ q.cutToken

theorem Apart.symm {p q : MarkerPair} (h : Apart p q) : Apart q p :=
  ⟨h.1.symm, h.2.2.1.symm, h.2.1.symm, h.2.2.2.symm⟩

/-- Two sequence values have one token only if they are equal modulo 8836. -/
theorem encodeBase94_inj {v w : UInt32} (h : encodeBase94 v = encodeBase94 w) :
    v.toNat % 8836 = w.toNat % 8836 := by
  have hs : kTokenSequenceSpace.toNat = 8836 := rfl
  have ha : kTokenAlphabetSize.toNat = 94 := rfl
  simp only [encodeBase94, List.cons.injEq, and_true, UInt8.add_right_inj] at h
  have h1 := congrArg UInt8.toNat h.1
  have h2 := congrArg UInt8.toNat h.2
  simp only [UInt32.toNat_toUInt8, UInt32.toNat_div, UInt32.toNat_mod, hs, ha] at h1 h2
  omega

/-- The sequence value of the `n`-th slot drawn: the counter has 32 bits. -/
theorem toNat_slot (n : ℕ) : (UInt32.ofNat n * 2).toNat = 2 * n % 2 ^ 32 ∧
    (UInt32.ofNat n * 2 + 1).toNat = 2 * n % 2 ^ 32 + 1 := by
  have h2 : (UInt32.ofNat n * 2).toNat = 2 * n % 2 ^ 32 := by
    simp only [UInt32.toNat_mul, UInt32.toNat_ofNat', UInt32.toNat_ofNat]
    omega
  refine ⟨h2, ?_⟩
  rw [UInt32.toNat_add, h2]
  simp only [UInt32.toNat_ofNat]
  omega

/-- A print token is no cut token. -/
theorem printToken_ne_cutToken (nonce : Bytes) (m n : ℕ) :
    (pairAt nonce (UInt32.ofNat m)).printToken ≠ (pairAt nonce (UInt32.ofNat n)).cutToken := by
  intro h
  have := encodeBase94_inj (List.append_cancel_left h)
  rw [(toNat_slot m).1, (toNat_slot n).2] at this
  omega

/-- Slots that are fewer than 4418 apart have different tokens, as long as the doubled counter does
not wrap between them. -/
theorem apart_of_near {nonce : Bytes} {m n : ℕ} (hlt : m < n) (hnear : n < m + 4418)
    (hwrap : m / 2 ^ 31 = n / 2 ^ 31) :
    Apart (pairAt nonce (UInt32.ofNat m)) (pairAt nonce (UInt32.ofNat n)) := by
  refine ⟨fun h => ?_, printToken_ne_cutToken nonce m n, (printToken_ne_cutToken nonce n m).symm,
    fun h => ?_⟩ <;> have h := encodeBase94_inj (List.append_cancel_left h)
  · rw [(toNat_slot m).1, (toNat_slot n).1] at h
    omega
  · rw [(toNat_slot m).2, (toNat_slot n).2] at h
    omega

/-! ### Leasing -/

namespace MarkerAllocator

variable {a a' : MarkerAllocator} {pair : MarkerPair}

/-- The leased pair is that of the last slot drawn, and was free. -/
theorem acquireWithin_spec : ∀ {n : ℕ} {a : MarkerAllocator},
    a.acquireWithin n = some (pair, a') → ∃ k < n, pair = pairAt a.nonce (a.next + UInt32.ofNat k) ∧
      a' = ⟨a.nonce, a.next + UInt32.ofNat (k + 1),
        pair.printToken :: pair.cutToken :: a.inUse⟩ ∧
      pair.printToken ∉ a.inUse ∧ pair.cutToken ∉ a.inUse
  | 0, _, h => by cases h
  | n + 1, a, h => by
    unfold acquireWithin at h
    dsimp only at h
    split at h
    · obtain ⟨k, hk, hp, ha, hfree⟩ := acquireWithin_spec h
      refine ⟨k + 1, by omega, ?_, ?_, hfree⟩
      · rw [hp, UInt32.ofNat_add, UInt32.add_assoc, UInt32.add_comm (UInt32.ofNat k)]
        rfl
      · rw [ha, UInt32.ofNat_add (k + 1), UInt32.add_assoc, UInt32.add_comm (UInt32.ofNat (k + 1))]
        rfl
    next hfree =>
      obtain ⟨rfl, rfl⟩ := Prod.mk.inj (Option.some.inj h)
      simp only [Bool.or_eq_true, List.contains_iff_mem, not_or] at hfree
      exact ⟨0, by omega, by simp, by simp, hfree.1, hfree.2⟩

/-- No slot is leased if a token of each is in use. -/
theorem acquireWithin_eq_none : ∀ {n : ℕ} {a : MarkerAllocator}, a.acquireWithin n = none ↔
    ∀ k < n, (pairAt a.nonce (a.next + UInt32.ofNat k)).printToken ∈ a.inUse ∨
      (pairAt a.nonce (a.next + UInt32.ofNat k)).cutToken ∈ a.inUse
  | 0, a => iff_of_true rfl fun k hk => absurd hk (Nat.not_lt_zero k)
  | n + 1, a => by
    have hnext : ∀ k, a.next + UInt32.ofNat (k + 1) = a.next + 1 + UInt32.ofNat k := by
      intro k
      rw [UInt32.ofNat_add, UInt32.add_assoc, UInt32.add_comm (UInt32.ofNat k)]
      rfl
    rw [Nat.forall_lt_succ_left]
    simp only [hnext]
    unfold acquireWithin
    dsimp only
    have hzero : a.next + UInt32.ofNat 0 = a.next := by simp
    rw [hzero]
    split
    next hused =>
      rw [acquireWithin_eq_none]
      simp only [Bool.or_eq_true, List.contains_iff_mem] at hused
      exact (and_iff_right hused).symm
    next hfree =>
      simp only [Bool.or_eq_true, List.contains_iff_mem] at hfree
      exact iff_of_false (by simp) fun h => hfree h.1

theorem mem_release {t : Bytes} (ht : t ∈ a.inUse) (hp : t ≠ pair.printToken)
    (hc : t ≠ pair.cutToken) : t ∈ (a.release pair).inUse := by
  simp [release, ht, hp, hc]

end MarkerAllocator

end PrinterDriver.Engine.Markers
