import Mathlib.Data.List.Basic

/-! # The first occurrence

The first place of a list where a needle stands. A needle that was found in a list is found at the same
place in whatever the list begins (`find_append`), and a list cut short has those that end before the
cut (`endOf_take`). -/

namespace PrinterDriver.Lib.Searching

variable {α : Type} [DecidableEq α]

/-- Where the needle first begins. -/
def find (needle : List α) : List α → Option ℕ
  | [] => if needle = [] then some 0 else none
  | a :: s => if needle.isPrefixOf (a :: s) then some 0 else (find needle s).map (· + 1)

/-- Where the first needle ends. -/
def endOf (needle s : List α) : Option ℕ := (find needle s).map (· + needle.length)

variable {needle : List α}

theorem find_cons_of_isPrefix {a : α} {s : List α} (h : needle <+: a :: s) :
    find needle (a :: s) = some 0 := if_pos (List.isPrefixOf_iff_prefix.mpr h)

theorem find_cons_of_not_isPrefix {a : α} {s : List α} (h : ¬needle <+: a :: s) :
    find needle (a :: s) = (find needle s).map (· + 1) :=
  if_neg fun hp => h (List.isPrefixOf_iff_prefix.mp hp)

/-- The needle fits. -/
theorem length_of_find : ∀ {s : List α} {i : ℕ}, find needle s = some i →
    i + needle.length ≤ s.length
  | [], i, h => by
    by_cases hn : needle = []
    · rw [find, if_pos hn] at h
      cases h
      rw [hn]
      exact Nat.le_refl 0
    · rw [find, if_neg hn] at h
      cases h
  | a :: s, i, h => by
    by_cases hp : needle <+: a :: s
    · rw [find_cons_of_isPrefix hp] at h
      cases h
      have := hp.length_le
      omega
    · rw [find_cons_of_not_isPrefix hp] at h
      obtain ⟨j, hj, rfl⟩ := Option.map_eq_some_iff.mp h
      have := length_of_find hj
      rw [List.length_cons]
      omega

/-- A needle that is found stays where it is. -/
theorem find_append (t : List α) : ∀ {s : List α} {i : ℕ}, find needle s = some i →
    find needle (s ++ t) = some i
  | [], i, h => by
    by_cases hn : needle = []
    · rw [find, if_pos hn] at h
      cases h
      subst hn
      cases t <;> rfl
    · rw [find, if_neg hn] at h
      cases h
  | a :: s, i, h => by
    by_cases hp : needle <+: a :: s
    · have hpt : needle <+: a :: (s ++ t) := hp.trans (List.prefix_append (a :: s) t)
      rw [find_cons_of_isPrefix hp] at h
      rw [List.cons_append, find_cons_of_isPrefix hpt, h]
    · rw [find_cons_of_not_isPrefix hp] at h
      obtain ⟨j, hj, rfl⟩ := Option.map_eq_some_iff.mp h
      have hlen : needle.length ≤ (a :: s).length := by
        have := length_of_find hj
        rw [List.length_cons]
        omega
      have hpt : ¬needle <+: a :: (s ++ t) := fun hin =>
        hp (List.prefix_of_prefix_length_le hin (List.prefix_append (a :: s) t) hlen)
      rw [List.cons_append, find_cons_of_not_isPrefix hpt, find_append t hj]
      rfl

/-- A needle that ends before the cut is found before the cut. -/
theorem find_of_append {t : List α} : ∀ {s : List α} {i : ℕ}, find needle (s ++ t) = some i →
    i + needle.length ≤ s.length → find needle s = some i
  | [], i, h, hi => by
    have hn : needle = [] := List.eq_nil_of_length_eq_zero (by
      rw [List.length_nil] at hi
      omega)
    have h0 : i = 0 := by
      rw [List.length_nil] at hi
      omega
    rw [find, if_pos hn, h0]
  | a :: s, i, h, hi => by
    by_cases hp : needle <+: a :: (s ++ t)
    · rw [List.cons_append, find_cons_of_isPrefix hp] at h
      cases h
      have hps : needle <+: a :: s :=
        List.prefix_of_prefix_length_le hp (List.prefix_append (a :: s) t) (by omega)
      exact find_cons_of_isPrefix hps
    · have hps : ¬needle <+: a :: s := fun hin => hp (hin.trans (List.prefix_append (a :: s) t))
      rw [List.cons_append, find_cons_of_not_isPrefix hp] at h
      obtain ⟨j, hj, rfl⟩ := Option.map_eq_some_iff.mp h
      have hj' := find_of_append hj (by
        rw [List.length_cons] at hi
        omega)
      rw [find_cons_of_not_isPrefix hps, hj']
      rfl

theorem endOf_eq_some {s : List α} {e : ℕ} :
    endOf needle s = some e ↔ ∃ i, find needle s = some i ∧ i + needle.length = e :=
  Option.map_eq_some_iff

theorem le_of_endOf {s : List α} {e : ℕ} (h : endOf needle s = some e) :
    needle.length ≤ e ∧ e ≤ s.length := by
  obtain ⟨i, hi, rfl⟩ := endOf_eq_some.mp h
  have := length_of_find hi
  omega

/-- **A list cut short has the needles that end before the cut.** -/
theorem endOf_take {s : List α} {k e : ℕ} :
    endOf needle (s.take k) = some e ↔ endOf needle s = some e ∧ e ≤ k := by
  constructor
  · intro h
    have hle := (le_of_endOf h).2
    obtain ⟨i, hi, rfl⟩ := endOf_eq_some.mp h
    have hs := find_append (s.drop k) hi
    rw [List.take_append_drop] at hs
    rw [List.length_take] at hle
    exact ⟨endOf_eq_some.mpr ⟨i, hs, rfl⟩, by omega⟩
  · rintro ⟨h, hk⟩
    have hle := (le_of_endOf h).2
    obtain ⟨i, hi, rfl⟩ := endOf_eq_some.mp h
    rw [← List.take_append_drop k s] at hi
    refine endOf_eq_some.mpr ⟨i, find_of_append hi ?_, rfl⟩
    rw [List.length_take]
    omega

/-- Past the first item, where the needle does not begin. -/
theorem endOf_cons {a : α} {s : List α} (h : ¬needle <+: a :: s) :
    endOf needle (a :: s) = (endOf needle s).map (· + 1) := by
  rw [endOf, endOf, find_cons_of_not_isPrefix h, Option.map_map, Option.map_map]
  congr 1
  funext i
  exact Nat.add_right_comm i 1 needle.length

theorem endOf_cons_of_isPrefix {a : α} {s : List α} (h : needle <+: a :: s) :
    endOf needle (a :: s) = some needle.length := by
  rw [endOf, find_cons_of_isPrefix h]
  exact congrArg some (Nat.zero_add _)

end PrinterDriver.Lib.Searching
