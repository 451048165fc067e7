import PrinterDriver.Lib.Runs
import PrinterDriver.Engine.Markers
import Mathlib.Data.List.Nodup
import Mathlib.Data.List.Perm.Subperm
import Mathlib.Tactic.SplitIfs

/-! # Histories of leases

Any number of jobs acquire pairs of tokens and give them back. There are 4418 pairs, and a lease looks at
as many slots as it draws them from a counter of 32 bits. The doubled counter wraps every 2^31 slots,
which no multiple of 4418 is, so that a lease that draws across the wrap passes over up to 120
pairs. -/

namespace PrinterDriver.Engine.MarkerHistories

open PrinterDriver.Lib.Runs PrinterDriver.Core.Types PrinterDriver.Engine.Ops
  PrinterDriver.Engine.Markers

/-! ### The pairs -/

/-- Which of the pairs a slot has. -/
def slotNumber (slot : UInt32) : ℕ := slot.toNat % 2 ^ 31 % 4418

theorem slotNumber_lt (slot : UInt32) : slotNumber slot < 4418 := Nat.mod_lt _ (by decide)

/-- A sequence value prints modulo 8836. -/
theorem encodeBase94_congr {v w : UInt32} (h : v.toNat % 8836 = w.toNat % 8836) :
    encodeBase94 v = encodeBase94 w := by
  have hs : kTokenSequenceSpace.toNat = 8836 := rfl
  have hmod : v % kTokenSequenceSpace = w % kTokenSequenceSpace := by
    rw [← UInt32.toNat_inj, UInt32.toNat_mod, UInt32.toNat_mod, hs, h]
  unfold encodeBase94
  rw [hmod]

theorem toNat_double (slot : UInt32) : (slot * 2).toNat = 2 * (slot.toNat % 2 ^ 31) ∧
    (slot * 2 + 1).toNat = 2 * (slot.toNat % 2 ^ 31) + 1 := by
  have h2 : (slot * 2).toNat = 2 * (slot.toNat % 2 ^ 31) := by
    simp only [UInt32.toNat_mul, UInt32.toNat_ofNat]
    omega
  refine ⟨h2, ?_⟩
  rw [UInt32.toNat_add, h2]
  simp only [UInt32.toNat_ofNat]
  omega

/-- Slots of one number have one pair. -/
theorem pairAt_congr {nonce : Bytes} {slot slot' : UInt32} (h : slotNumber slot = slotNumber slot') :
    pairAt nonce slot = pairAt nonce slot' := by
  have hv := toNat_double slot
  have hw := toNat_double slot'
  unfold slotNumber at h
  have heven : encodeBase94 (slot * 2) = encodeBase94 (slot' * 2) :=
    encodeBase94_congr (by rw [hv.1, hw.1]; omega)
  have hodd : encodeBase94 (slot * 2 + 1) = encodeBase94 (slot' * 2 + 1) :=
    encodeBase94_congr (by rw [hv.2, hw.2]; omega)
  unfold pairAt
  rw [heven, hodd]

theorem ne_cutToken {nonce : Bytes} (slot slot' : UInt32) :
    (pairAt nonce slot).printToken ≠ (pairAt nonce slot').cutToken := by
  intro h
  have := encodeBase94_inj (List.append_cancel_left h)
  rw [(toNat_double slot).1, (toNat_double slot').2] at this
  omega

/-- Slots of different numbers have no token in common. -/
theorem apart_of_ne {nonce : Bytes} {slot slot' : UInt32} (h : slotNumber slot ≠ slotNumber slot') :
    Apart (pairAt nonce slot) (pairAt nonce slot') := by
  unfold slotNumber at h
  refine ⟨fun he => ?_, ne_cutToken _ _, (ne_cutToken _ _).symm, fun he => ?_⟩ <;>
    have he := encodeBase94_inj (List.append_cancel_left he)
  · rw [(toNat_double slot).1, (toNat_double slot').1] at he
    omega
  · rw [(toNat_double slot).2, (toNat_double slot').2] at he
    omega

theorem slotNumber_ofNat {v : ℕ} (h : v < 4418) : slotNumber (UInt32.ofNat v) = v := by
  unfold slotNumber
  rw [UInt32.toNat_ofNat']
  omega

theorem slotNumber_add (slot : UInt32) (k : ℕ) :
    slotNumber (slot + UInt32.ofNat k) = (slot.toNat + k) % 2 ^ 31 % 4418 := by
  unfold slotNumber
  rw [UInt32.toNat_add, UInt32.toNat_ofNat']
  omega

/-! ### The slots a lease looks at -/

/-- The numbers that no slot has among those a lease looks at. Its slots reach the wrap after `d`
draws; the numbers before it end with 4297 and those after it start with 0. -/
def PassedOver (next : UInt32) (v : ℕ) : Prop :=
  let d := 2 ^ 31 - next.toNat % 2 ^ 31
  4298 ≤ v ∧ v < 4418 ∧ 4418 ≤ v + d ∧ v + d < 8716

instance (next : UInt32) (v : ℕ) : Decidable (PassedOver next v) :=
  inferInstanceAs (Decidable (_ ∧ _))

theorem exists_draw {next : UInt32} {v : ℕ} (hv : v < 4418) (h : ¬ PassedOver next v) :
    ∃ k < 4418, slotNumber (next + UInt32.ofNat k) = v := by
  unfold PassedOver at h
  by_cases hbefore : next.toNat % 2 ^ 31 + (v + 4418 - next.toNat % 2 ^ 31 % 4418) % 4418 < 2 ^ 31
  · refine ⟨(v + 4418 - next.toNat % 2 ^ 31 % 4418) % 4418, Nat.mod_lt _ (by omega), ?_⟩
    rw [slotNumber_add]
    omega
  · refine ⟨v + (2 ^ 31 - next.toNat % 2 ^ 31), ?_, ?_⟩
    · omega
    · rw [slotNumber_add]
      omega

theorem not_passedOver (next : UInt32) {k : ℕ} (hk : k < 4418) :
    ¬ PassedOver next (slotNumber (next + UInt32.ofNat k)) := by
  unfold PassedOver
  rw [slotNumber_add]
  by_cases hbefore : next.toNat % 2 ^ 31 + k < 2 ^ 31
  · omega
  · omega

/-! ### Histories -/

inductive Op where
  | acquire
  /-- The pair at that place of the outstanding ones is given back. -/
  | release (k : ℕ)

structure State where
  markers : MarkerAllocator
  outstanding : List MarkerPair := []

/-- A lease that throws has drawn its slots. -/
def step : Op → State → Option State
  | .acquire, s =>
    match s.markers.acquire with
    | some (pair, markers) => some ⟨markers, pair :: s.outstanding⟩
    | none =>
      some { s with markers := { s.markers with next := s.markers.next + kTokenSequenceSpace / 2 } }
  | .release k, s =>
    (s.outstanding[k]?).map fun pair => ⟨s.markers.release pair, s.outstanding.eraseIdx k⟩

/-- No lease was taken yet. -/
def begin (nonce : Bytes) : State := { markers := { nonce := nonce } }

/-- The tokens in use are those of the outstanding pairs, which have none in common. -/
structure Sound (nonce : Bytes) (s : State) : Prop where
  ours : s.markers.nonce = nonce
  drawn : ∀ p ∈ s.outstanding, ∃ slot, p = pairAt nonce slot
  apart : s.outstanding.Pairwise Apart
  inUse : ∀ t, t ∈ s.markers.inUse ↔ ∃ p ∈ s.outstanding, t = p.printToken ∨ t = p.cutToken

theorem apart_of_getElem? {ps : List MarkerPair} (h : ps.Pairwise Apart) {i k : ℕ}
    {p q : MarkerPair} (hi : ps[i]? = some p) (hk : ps[k]? = some q) (hne : i ≠ k) : Apart p q := by
  obtain ⟨hilt, rfl⟩ := List.getElem?_eq_some_iff.mp hi
  obtain ⟨hklt, rfl⟩ := List.getElem?_eq_some_iff.mp hk
  rcases Nat.lt_or_gt_of_ne hne with hlt | hlt
  · exact List.pairwise_iff_getElem.mp h i k hilt hklt hlt
  · exact (List.pairwise_iff_getElem.mp h k i hklt hilt hlt).symm

section Sound
variable {nonce : Bytes} {s s' : State}

theorem sound_begin : Sound nonce (begin nonce) where
  ours := rfl
  drawn := fun _ hp => absurd hp List.not_mem_nil
  apart := .nil
  inUse := fun _ => ⟨fun ht => absurd ht List.not_mem_nil,
    fun ⟨_, hp, _⟩ => absurd hp List.not_mem_nil⟩

/-- A token is in use just if its pair is outstanding. -/
theorem Sound.mem_inUse (h : Sound nonce s) (slot : UInt32) :
    ((pairAt nonce slot).printToken ∈ s.markers.inUse ↔ pairAt nonce slot ∈ s.outstanding) ∧
      ((pairAt nonce slot).cutToken ∈ s.markers.inUse ↔ pairAt nonce slot ∈ s.outstanding) := by
  have hof : ∀ t, t ∈ s.markers.inUse → (t = (pairAt nonce slot).printToken ∨
      t = (pairAt nonce slot).cutToken) → pairAt nonce slot ∈ s.outstanding := by
    intro t ht hown
    obtain ⟨p, hp, htoken⟩ := (h.inUse t).mp ht
    obtain ⟨slot', rfl⟩ := h.drawn p hp
    by_cases hsame : slotNumber slot = slotNumber slot'
    · rw [pairAt_congr hsame]
      exact hp
    · obtain ⟨hpp, hpc, hcp, hcc⟩ := @apart_of_ne nonce _ _ hsame
      rcases hown with rfl | rfl <;> rcases htoken with he | he
      · exact absurd he hpp
      · exact absurd he hpc
      · exact absurd he hcp
      · exact absurd he hcc
  exact ⟨⟨fun ht => hof _ ht (.inl rfl), fun hp => (h.inUse _).mpr ⟨_, hp, .inl rfl⟩⟩,
    fun ht => hof _ ht (.inr rfl), fun hp => (h.inUse _).mpr ⟨_, hp, .inr rfl⟩⟩

theorem Sound.acquired (h : Sound nonce s) {pair : MarkerPair} {markers : MarkerAllocator}
    (ha : s.markers.acquire = some (pair, markers)) :
    (∃ slot, pair = pairAt nonce slot) ∧ (∀ p ∈ s.outstanding, Apart pair p) ∧
      Sound nonce ⟨markers, pair :: s.outstanding⟩ := by
  obtain ⟨k, -, hpair, rfl, hprint, hcut⟩ := MarkerAllocator.acquireWithin_spec ha
  rw [h.ours] at hpair
  have hapart : ∀ p ∈ s.outstanding, Apart pair p := by
    intro p hp
    obtain ⟨slot, rfl⟩ := h.drawn p hp
    by_cases hsame : slotNumber (s.markers.next + UInt32.ofNat k) = slotNumber slot
    · rw [hpair, pairAt_congr hsame] at hprint
      exact absurd ((h.mem_inUse slot).1.mpr hp) hprint
    · rw [hpair]
      exact apart_of_ne hsame
  refine ⟨⟨_, hpair⟩, hapart, ⟨h.ours, ?_, .cons hapart h.apart, fun t => ?_⟩⟩
  · rw [List.forall_mem_cons]
    exact ⟨⟨_, hpair⟩, h.drawn⟩
  · simp only [List.mem_cons, h.inUse t, exists_eq_or_imp]
    rw [or_assoc]

theorem Sound.released (h : Sound nonce s) {k : ℕ} {pair : MarkerPair}
    (hk : s.outstanding[k]? = some pair) :
    Sound nonce ⟨s.markers.release pair, s.outstanding.eraseIdx k⟩ := by
  refine ⟨h.ours, fun p hp => h.drawn p (List.mem_of_mem_eraseIdx hp),
    h.apart.sublist (List.eraseIdx_sublist ..), fun t => ?_⟩
  have hmem : t ∈ (s.markers.release pair).inUse ↔
      t ∈ s.markers.inUse ∧ t ≠ pair.printToken ∧ t ≠ pair.cutToken := by
    simp [MarkerAllocator.release]
  rw [hmem, h.inUse t]
  constructor
  · rintro ⟨⟨p, hp, htoken⟩, hprint, hcut⟩
    obtain ⟨i, hi⟩ := List.getElem?_of_mem hp
    have hne : i ≠ k := by
      rintro rfl
      obtain rfl : p = pair := Option.some.inj (hi.symm.trans hk)
      exact htoken.elim hprint hcut
    exact ⟨p, List.mem_eraseIdx_iff_getElem?.mpr ⟨i, hne, hi⟩, htoken⟩
  · rintro ⟨p, hp, htoken⟩
    obtain ⟨i, hne, hi⟩ := List.mem_eraseIdx_iff_getElem?.mp hp
    obtain ⟨hpp, hpc, hcp, hcc⟩ := apart_of_getElem? h.apart hi hk hne
    refine ⟨⟨p, List.mem_of_getElem? hi, htoken⟩, ?_⟩
    rcases htoken with rfl | rfl
    · exact ⟨hpp, hpc⟩
    · exact ⟨hcp, hcc⟩

theorem Sound.step (h : Sound nonce s) {op : Op} (hs : step op s = some s') : Sound nonce s' := by
  cases op with
  | acquire =>
    unfold MarkerHistories.step at hs
    dsimp only at hs
    split at hs
    · cases hs
      rename_i ha
      exact (h.acquired ha).2.2
    · cases hs
      exact ⟨h.ours, h.drawn, h.apart, h.inUse⟩
  | release k =>
    obtain ⟨pair, hk, rfl⟩ := Option.map_eq_some_iff.mp hs
    exact h.released hk

/-- A lease fails if all the pairs it looks at are outstanding. -/
theorem Sound.acquire_eq_none (h : Sound nonce s) : s.markers.acquire = none ↔
    ∀ v < 4418, ¬ PassedOver s.markers.next v →
      pairAt nonce (UInt32.ofNat v) ∈ s.outstanding := by
  have hdrawn : s.markers.acquire = none ↔
      ∀ k < 4418, pairAt nonce (s.markers.next + UInt32.ofNat k) ∈ s.outstanding := by
    refine MarkerAllocator.acquireWithin_eq_none.trans (forall₂_congr fun k _ => ?_)
    rw [h.ours, (h.mem_inUse _).1, (h.mem_inUse _).2, or_self]
  rw [hdrawn]
  constructor
  · intro hall v hv hseen
    obtain ⟨k, hk, hnumber⟩ := exists_draw hv hseen
    rw [pairAt_congr ((slotNumber_ofNat hv).trans hnumber.symm)]
    exact hall k hk
  · intro hall k hk
    rw [pairAt_congr (slotNumber_ofNat (slotNumber_lt _)).symm]
    exact hall _ (slotNumber_lt _) (not_passedOver _ hk)

/-- The pairs, by their numbers. -/
def pairs (nonce : Bytes) : List MarkerPair :=
  (List.range 4418).map fun v => pairAt nonce (UInt32.ofNat v)

theorem mem_pairs (nonce : Bytes) (slot : UInt32) : pairAt nonce slot ∈ pairs nonce := by
  refine List.mem_map.mpr ⟨slotNumber slot, List.mem_range.mpr (slotNumber_lt slot), ?_⟩
  exact pairAt_congr (slotNumber_ofNat (slotNumber_lt slot))

theorem nodup_pairs (nonce : Bytes) : (pairs nonce).Nodup := by
  refine List.Nodup.map_on (fun v hv w hw he => ?_) List.nodup_range
  by_contra hne
  have hapart : Apart (pairAt nonce (UInt32.ofNat v)) (pairAt nonce (UInt32.ofNat w)) := by
    apply apart_of_ne
    rw [slotNumber_ofNat (List.mem_range.mp hv), slotNumber_ofNat (List.mem_range.mp hw)]
    exact hne
  exact hapart.1 (congrArg MarkerPair.printToken he)

theorem Sound.nodup (h : Sound nonce s) : s.outstanding.Nodup :=
  h.apart.imp fun hpq he => hpq.1 (congrArg MarkerPair.printToken he)

theorem Sound.subset (h : Sound nonce s) : s.outstanding ⊆ pairs nonce := by
  intro p hp
  obtain ⟨slot, rfl⟩ := h.drawn p hp
  exact mem_pairs nonce slot

/-- There are 4418 pairs. -/
theorem Sound.length_eq (h : Sound nonce s) :
    s.outstanding.length = 4418 ↔ pairs nonce ⊆ s.outstanding := by
  have hlength : (pairs nonce).length = 4418 := by
    unfold pairs
    rw [List.length_map, List.length_range]
  have hsub := List.subperm_of_subset h.nodup h.subset
  constructor
  · intro hall
    exact (hsub.perm_of_length_le (by omega)).symm.subset
  · intro hall
    have hle := (List.subperm_of_subset (nodup_pairs nonce) hall).length_le
    have hge := hsub.length_le
    omega

end Sound

/-! ### What a lease promises -/

def isTokenAlphabet (c : UInt8) : Bool :=
  kTokenAlphabetFirst ≤ c && c < kTokenAlphabetFirst + kTokenAlphabetSize.toUInt8

/-- Two tokens with the nonce, of an even sequence value and the odd one after it. -/
structure Proper (nonce : Bytes) (pair : MarkerPair) : Prop where
  distinct : pair.printToken ≠ pair.cutToken
  adjacent : ∃ v < 4418, pair.printToken = nonce ++ encodeBase94 (UInt32.ofNat (2 * v)) ∧
    pair.cutToken = nonce ++ encodeBase94 (UInt32.ofNat (2 * v + 1))
  printable : (∀ c ∈ nonce, isTokenAlphabet c) →
    ∀ c ∈ pair.printToken ++ pair.cutToken, isTokenAlphabet c

/-- A lease has two tokens that no outstanding pair has, or all pairs are outstanding. -/
def Meets (nonce : Bytes) (op : Op) (s : State) : Prop :=
  match op with
  | .release _ => True
  | .acquire =>
    match s.markers.acquire with
    | some (pair, _) => Proper nonce pair ∧ ∀ p ∈ s.outstanding, Apart pair p
    | none => s.outstanding.length = 4418

/-- Not all the pairs that are free are passed over by the next lease. -/
def Covered (nonce : Bytes) (op : Op) (s : State) : Prop :=
  op = .acquire → s.outstanding.length < 4418 →
    ∃ v < 4418, ¬ PassedOver s.markers.next v ∧ pairAt nonce (UInt32.ofNat v) ∉ s.outstanding

theorem encodeBase94_alphabet (value : UInt32) : ∀ c ∈ encodeBase94 value, isTokenAlphabet c := by
  have hs : kTokenSequenceSpace.toNat = 8836 := rfl
  have ha : kTokenAlphabetSize.toNat = 94 := rfl
  have hdigit : ∀ d : UInt32, d.toNat < 94 → isTokenAlphabet (kTokenAlphabetFirst + d.toUInt8) := by
    intro d hd
    have hb : (kTokenAlphabetFirst + d.toUInt8).toNat = 0x21 + d.toNat := by
      rw [UInt8.toNat_add, UInt32.toNat_toUInt8]
      show (33 + d.toNat % 2 ^ 8) % 2 ^ 8 = 33 + d.toNat
      omega
    simp only [isTokenAlphabet, Bool.and_eq_true, decide_eq_true_eq, UInt8.le_iff_toNat_le,
      UInt8.lt_iff_toNat_lt, hb]
    have hfirst : kTokenAlphabetFirst.toNat = 33 := rfl
    have hlast : (kTokenAlphabetFirst + kTokenAlphabetSize.toUInt8).toNat = 127 := rfl
    omega
  intro c hc
  unfold encodeBase94 at hc
  simp only [List.mem_cons, List.not_mem_nil, or_false] at hc
  rcases hc with rfl | rfl
  · apply hdigit
    rw [UInt32.toNat_div, UInt32.toNat_mod, hs, ha]
    omega
  · apply hdigit
    rw [UInt32.toNat_mod, ha]
    exact Nat.mod_lt _ (by decide)

theorem proper_pairAt (nonce : Bytes) (slot : UInt32) : Proper nonce (pairAt nonce slot) where
  distinct := ne_cutToken slot slot
  adjacent := by
    refine ⟨slotNumber slot, slotNumber_lt slot, ?_⟩
    have hv := toNat_double slot
    have hlt := slotNumber_lt slot
    have heven : encodeBase94 (slot * 2) = encodeBase94 (UInt32.ofNat (2 * slotNumber slot)) := by
      apply encodeBase94_congr
      rw [hv.1, UInt32.toNat_ofNat']
      unfold slotNumber
      omega
    have hodd : encodeBase94 (slot * 2 + 1) =
        encodeBase94 (UInt32.ofNat (2 * slotNumber slot + 1)) := by
      apply encodeBase94_congr
      rw [hv.2, UInt32.toNat_ofNat']
      unfold slotNumber
      omega
    exact ⟨congrArg (nonce ++ ·) heven, congrArg (nonce ++ ·) hodd⟩
  printable := by
    intro hnonce c hc
    simp only [pairAt, List.mem_append] at hc
    rcases hc with (hc | hc) | (hc | hc)
    · exact hnonce c hc
    · exact encodeBase94_alphabet _ c hc
    · exact hnonce c hc
    · exact encodeBase94_alphabet _ c hc

theorem meets_iff_covered {nonce : Bytes} {s : State} (h : Sound nonce s) (op : Op) :
    Meets nonce op s ↔ Covered nonce op s := by
  rcases op with _ | k
  · have hle : s.outstanding.length ≤ 4418 := by
      have := (List.subperm_of_subset h.nodup h.subset).length_le
      rwa [pairs, List.length_map, List.length_range] at this
    unfold Meets
    dsimp only
    rcases hacquire : s.markers.acquire with _ | ⟨pair, markers⟩
    · have hseen := h.acquire_eq_none.mp hacquire
      constructor
      · intro hall _ hlt
        exact absurd hall (Nat.ne_of_lt hlt)
      · intro hcovered
        by_contra hne
        obtain ⟨v, hv, hnot, hfree⟩ := hcovered rfl (Nat.lt_of_le_of_ne hle hne)
        exact hfree (hseen v hv hnot)
    · obtain ⟨⟨slot, rfl⟩, hapart, -⟩ := h.acquired hacquire
      refine iff_of_true ⟨proper_pairAt nonce slot, hapart⟩ fun _ _ => ?_
      by_contra hnone
      have hseen : ∀ v < 4418, ¬ PassedOver s.markers.next v →
          pairAt nonce (UInt32.ofNat v) ∈ s.outstanding := by
        intro v hv hnot
        by_contra hfree
        exact hnone ⟨v, hv, hnot, hfree⟩
      rw [h.acquire_eq_none.mpr hseen] at hacquire
      cases hacquire
  · exact iff_of_true trivial fun he => by cases he

/-- **Leases keep their promise just where they look at a free pair.** -/
theorem acquire_meets (nonce : Bytes) (ops : List Op) :
    Along step (fun op s _ => Meets nonce op s) ops (begin nonce) ↔
      Along step (fun op s _ => Covered nonce op s) ops (begin nonce) :=
  along_congr (I := Sound nonce) (fun _ _ _ h hs _ => h.step hs)
    (fun op _ _ h _ => meets_iff_covered h op) ops _ sound_begin

/-! ### A lease that throws early -/

/-- The states of all histories. -/
abbrev Reached (nonce : Bytes) : State → Prop := Reach step (fun _ _ => True) (begin nonce)

theorem Reached.sound {nonce : Bytes} {s : State} (h : Reached nonce s) : Sound nonce s :=
  h.invariant sound_begin fun _ _ _ hsound _ hs => hsound.step hs

/-- The next slot is leased if it is free. -/
theorem step_acquire {nonce : Bytes} {s : State} (h : Sound nonce s)
    (hfree : pairAt nonce s.markers.next ∉ s.outstanding) :
    ∃ s', step .acquire s = some s' ∧ s'.markers.next = s.markers.next + 1 ∧
      s'.outstanding = pairAt nonce s.markers.next :: s.outstanding := by
  have hprint := mt (h.mem_inUse s.markers.next).1.mp hfree
  have hcut := mt (h.mem_inUse s.markers.next).2.mp hfree
  obtain rfl := h.ours
  let pair := pairAt s.markers.nonce s.markers.next
  let markers : MarkerAllocator := ⟨s.markers.nonce, s.markers.next + 1,
    pair.printToken :: pair.cutToken :: s.markers.inUse⟩
  have hacquire : s.markers.acquire = some (pair, markers) := by
    show s.markers.acquireWithin (4417 + 1) = _
    unfold MarkerAllocator.acquireWithin
    dsimp only
    rw [if_neg]
    simp only [Bool.or_eq_true, List.contains_iff_mem, not_or]
    exact ⟨hprint, hcut⟩
  refine ⟨⟨markers, pair :: s.outstanding⟩, ?_, rfl, rfl⟩
  simp only [step, hacquire]

/-- Jobs that follow one another take the counter anywhere. -/
theorem exists_turned (nonce : Bytes) (m : ℕ) :
    ∃ s, Reached nonce s ∧ s.markers.next = UInt32.ofNat m ∧ s.outstanding = [] := by
  induction m with
  | zero => exact ⟨begin nonce, .init, rfl, rfl⟩
  | succ m ih =>
    obtain ⟨s, hs, hnext, hnone⟩ := ih
    obtain ⟨s', hstep, hnext', hone⟩ :=
      step_acquire hs.sound (by rw [hnone]; exact List.not_mem_nil)
    refine ⟨⟨s'.markers.release (pairAt nonce s.markers.next), []⟩,
      (hs.step .acquire trivial hstep).step (.release 0) trivial ?_, ?_, rfl⟩
    · show (s'.outstanding[0]?).map _ = _
      rw [hone, hnone]
      rfl
    · show s'.markers.next = _
      rw [hnext', hnext, UInt32.ofNat_add]
      rfl

/-- From there that many jobs hold their pairs at a time. -/
theorem exists_leased (nonce : Bytes) {m j : ℕ} (hm : m + 4418 ≤ 2 ^ 31) (hj : j ≤ 4418) :
    ∃ s, Reached nonce s ∧ s.markers.next = UInt32.ofNat (m + j) ∧ s.outstanding.length = j ∧
      ∀ p ∈ s.outstanding, ∃ i < j, p = pairAt nonce (UInt32.ofNat (m + i)) := by
  induction j with
  | zero =>
    obtain ⟨s, hs, hnext, hnone⟩ := exists_turned nonce m
    refine ⟨s, hs, hnext, by rw [hnone]; rfl, fun p hp => ?_⟩
    rw [hnone] at hp
    exact absurd hp List.not_mem_nil
  | succ j ih =>
    obtain ⟨s, hs, hnext, hlength, hof⟩ := ih (by omega)
    have hfree : pairAt nonce s.markers.next ∉ s.outstanding := by
      intro hmem
      obtain ⟨i, hi, he⟩ := hof _ hmem
      rw [hnext] at he
      have hapart : Apart (pairAt nonce (UInt32.ofNat (m + i)))
          (pairAt nonce (UInt32.ofNat (m + j))) := apart_of_near (by omega) (by omega) (by omega)
      exact hapart.1 (congrArg MarkerPair.printToken he).symm
    obtain ⟨s', hstep, hnext', hmore⟩ := step_acquire hs.sound hfree
    refine ⟨s', hs.step .acquire trivial hstep, ?_, ?_, fun p hp => ?_⟩
    · rw [hnext', hnext, ← Nat.add_assoc, UInt32.ofNat_add (m + j)]
      rfl
    · rw [hmore, List.length_cons, hlength]
    · rw [hmore, List.mem_cons] at hp
      rcases hp with rfl | hp
      · exact ⟨j, Nat.lt_succ_self j, by rw [hnext]⟩
      · obtain ⟨i, hi, rfl⟩ := hof p hp
        exact ⟨i, Nat.lt_succ_of_lt hi, rfl⟩

/-- A condition on the moves of all runs is met from any state of theirs. -/
theorem along_of_reached {nonce : Bytes} {P : Op → State → State → Prop} {s : State}
    (h : Reached nonce s) (hP : ∀ ops, Along step P ops (begin nonce)) :
    ∀ ops, Along step P ops s := by
  induction h with
  | init => exact hP
  | @step s s' op _ _ hs ih =>
    intro ops
    have hcons := ih (op :: ops)
    unfold Along at hcons
    rw [hs] at hcons
    exact hcons.2

/-- With one slot left before the wrap, all pairs but the last are outstanding: the next lease draws
the slots of numbers 4297 and 0 to 4416, and throws. -/
theorem lastPair_passedOver :
    ¬ ∀ (nonce : Bytes) (ops : List Op),
      Along step (fun op s _ => Meets nonce op s) ops (begin nonce) := by
  intro hall
  obtain ⟨s, hs, hnext, hlength, -⟩ := exists_leased [0x21, 0x21] (m := 2 ^ 31 - 4419)
    (by decide) (Nat.le_refl 4418)
  let last := pairAt [0x21, 0x21] (UInt32.ofNat 4417)
  have hpairs := hs.sound.length_eq.mp hlength
  obtain ⟨k, hk⟩ := List.getElem?_of_mem (hpairs (mem_pairs [0x21, 0x21] (UInt32.ofNat 4417)))
  let s' : State := ⟨s.markers.release last, s.outstanding.eraseIdx k⟩
  have hstep : step (.release k) s = some s' := by
    show (s.outstanding[k]?).map _ = _
    rw [hk]
    rfl
  have hs' : Reached [0x21, 0x21] s' := hs.step (.release k) trivial hstep
  have hthrows : s'.markers.acquire = none := by
    refine hs'.sound.acquire_eq_none.mpr fun v hv hseen => ?_
    have hne : v ≠ 4417 := by
      rintro rfl
      apply hseen
      show PassedOver s.markers.next 4417
      rw [hnext]
      decide
    obtain ⟨i, hi⟩ := List.getElem?_of_mem (hpairs (mem_pairs [0x21, 0x21] (UInt32.ofNat v)))
    refine List.mem_eraseIdx_iff_getElem?.mpr ⟨i, ?_, hi⟩
    rintro rfl
    have hapart : Apart (pairAt [0x21, 0x21] (UInt32.ofNat v)) last := by
      apply apart_of_ne
      rw [slotNumber_ofNat hv, slotNumber_ofNat (by decide)]
      exact hne
    exact hapart.1 (congrArg MarkerPair.printToken (Option.some.inj (hi.symm.trans hk)))
  have hmeets := along_of_reached hs' (hall [0x21, 0x21]) [.acquire]
  have hone : step .acquire s' = some { s' with
      markers := { s'.markers with next := s'.markers.next + kTokenSequenceSpace / 2 } } := by
    simp only [step, hthrows]
  unfold Along at hmeets
  rw [hone] at hmeets
  have hfull := hmeets.1
  unfold Meets at hfull
  dsimp only at hfull
  rw [hthrows] at hfull
  have hklt := (List.getElem?_eq_some_iff.mp hk).1
  have hshort : s'.outstanding.length = 4417 := by
    show (s.outstanding.eraseIdx k).length = 4417
    rw [List.length_eraseIdx_of_lt hklt, hlength]
  omega

end PrinterDriver.Engine.MarkerHistories
