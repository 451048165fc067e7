import Mathlib.Data.List.Nodup
import Mathlib.Logic.Relation

/-! # Inheritance in a table

The entries of a table may name a parent. What an entry inherits from is its ancestry, the eldest
first; it has one just if no cycle can be reached from it. -/

namespace PrinterDriver.Lib.Inheritance

variable {α β : Type} (lookup : α → Option β) (parent : β → Option α)

def Extends (a b : α) : Prop := ∃ t, lookup a = some t ∧ parent t = some b

/-- The entries that a name inherits from, and its own last. A missing name has none. -/
inductive Ancestry : α → List (α × β) → Prop
  | missing {a : α} (h : lookup a = none) : Ancestry a []
  | root {a : α} {t : β} (h : lookup a = some t) (hp : parent t = none) : Ancestry a [(a, t)]
  | child {a b : α} {t : β} {l : List (α × β)} (h : lookup a = some t) (hp : parent t = some b)
      (hl : Ancestry b l) : Ancestry a (l ++ [(a, t)])

/-- A cycle can be reached from the name. -/
def Cyclic (a : α) : Prop :=
  ∃ b, Relation.ReflTransGen (Extends lookup parent) a b ∧
    Relation.TransGen (Extends lookup parent) b b

variable {lookup parent} {a b : α} {l l' : List (α × β)}

namespace Ancestry

theorem unique (h : Ancestry lookup parent a l) : ∀ {l'}, Ancestry lookup parent a l' → l = l' := by
  induction h with
  | missing h =>
    intro l' h'
    cases h' with
    | missing => rfl
    | root h' | child h' => cases h.symm.trans h'
  | root h hp =>
    intro l' h'
    cases h' with
    | missing h' => cases h.symm.trans h'
    | root h' =>
      obtain rfl := Option.some.inj (h.symm.trans h')
      rfl
    | child h' hp' =>
      obtain rfl := Option.some.inj (h.symm.trans h')
      cases hp.symm.trans hp'
  | child h hp _ ih =>
    intro l' h'
    cases h' with
    | missing h' => cases h.symm.trans h'
    | root h' hp' =>
      obtain rfl := Option.some.inj (h.symm.trans h')
      cases hp.symm.trans hp'
    | child h' hp' hl' =>
      obtain rfl := Option.some.inj (h.symm.trans h')
      obtain rfl := Option.some.inj (hp.symm.trans hp')
      rw [ih hl']

/-- The parent's ancestry is all but the entry itself. -/
theorem of_extends (h : Ancestry lookup parent a l) (hab : Extends lookup parent a b) :
    ∃ l' t, Ancestry lookup parent b l' ∧ l = l' ++ [(a, t)] := by
  obtain ⟨t, ht, hp⟩ := hab
  cases h with
  | missing h => cases ht.symm.trans h
  | root h hr =>
    obtain rfl := Option.some.inj (ht.symm.trans h)
    cases hp.symm.trans hr
  | child h hp' hl =>
    obtain rfl := Option.some.inj (ht.symm.trans h)
    obtain rfl := Option.some.inj (hp.symm.trans hp')
    exact ⟨_, _, hl, rfl⟩

theorem of_transGen (h : Ancestry lookup parent a l)
    (hab : Relation.TransGen (Extends lookup parent) a b) :
    ∃ l', Ancestry lookup parent b l' ∧ l'.length < l.length := by
  induction hab with
  | single hab =>
    obtain ⟨l', t, hl', rfl⟩ := h.of_extends hab
    exact ⟨l', hl', by simp⟩
  | tail _ hbc ih =>
    obtain ⟨m, hm, hlt⟩ := ih
    obtain ⟨l', t, hl', rfl⟩ := hm.of_extends hbc
    rw [List.length_append] at hlt
    exact ⟨l', hl', by omega⟩

theorem of_reflTransGen (h : Ancestry lookup parent a l)
    (hab : Relation.ReflTransGen (Extends lookup parent) a b) :
    ∃ l', Ancestry lookup parent b l' := by
  rcases Relation.reflTransGen_iff_eq_or_transGen.mp hab with rfl | hab
  · exact ⟨l, h⟩
  · obtain ⟨l', hl', -⟩ := h.of_transGen hab
    exact ⟨l', hl'⟩

/-- From a name that has an ancestry, no cycle is reached. -/
theorem not_cyclic (h : Ancestry lookup parent a l) : ¬ Cyclic lookup parent a := by
  rintro ⟨b, hab, hbb⟩
  obtain ⟨m, hm⟩ := h.of_reflTransGen hab
  obtain ⟨m', hm', hlt⟩ := hm.of_transGen hbb
  rw [hm.unique hm'] at hlt
  exact absurd hlt (Nat.lt_irrefl _)

/-- Every entry of the ancestry is reached. -/
theorem reached (h : Ancestry lookup parent a l) : ∀ {c : α}, c ∈ l.map Prod.fst →
    Relation.ReflTransGen (Extends lookup parent) a c := by
  induction h with
  | missing => simp
  | root =>
    intro c hc
    rw [List.mem_singleton.mp hc]
  | child h hp _ ih =>
    intro c hc
    rw [List.map_append, List.mem_append] at hc
    rcases hc with hc | hc
    · exact Relation.ReflTransGen.head ⟨_, h, hp⟩ (ih hc)
    · rw [List.mem_singleton.mp hc]

theorem not_mem_parent {t : β} (h : lookup a = some t) (hp : parent t = some b)
    (hl : Ancestry lookup parent b l) : a ∉ l.map Prod.fst := by
  intro hmem
  refine (child h hp hl).not_cyclic ⟨a, .refl, ?_⟩
  exact Relation.TransGen.head' ⟨t, h, hp⟩ (hl.reached hmem)

end Ancestry

/-- One entry more that was met leaves fewer that were not. -/
theorem length_unmet_lt [DecidableEq α] {keys met : List α} (hkey : a ∈ keys) (hmet : a ∉ met) :
    (keys.filter (· ∉ a :: met)).length < (keys.filter (· ∉ met)).length := by
  have hsub : keys.filter (· ∉ a :: met) = (keys.filter (· ∉ met)).filter (· ≠ a) := by
    rw [List.filter_filter]
    congr 1
    funext c
    simp [not_or]
  rw [hsub, List.length_filter_lt_length_iff_exists]
  exact ⟨a, List.mem_filter.mpr ⟨hkey, by simpa using hmet⟩, by simp⟩

/-- In a finite table, a name from which no cycle is reached has an ancestry: the names that lead to
an entry are not met again. -/
theorem exists_ancestry [DecidableEq α] {keys : List α}
    (hkeys : ∀ {a t}, lookup a = some t → a ∈ keys) (met : List α) (a : α)
    (hmet : ∀ c ∈ met, Relation.TransGen (Extends lookup parent) c a)
    (h : ¬ Cyclic lookup parent a) : ∃ l, Ancestry lookup parent a l := by
  cases ht : lookup a with
  | none => exact ⟨[], .missing ht⟩
  | some t =>
    cases hp : parent t with
    | none => exact ⟨_, .root ht hp⟩
    | some b =>
      have hab : Extends lookup parent a b := ⟨t, ht, hp⟩
      have hnew : a ∉ met := fun hmem => h ⟨a, .refl, hmet a hmem⟩
      have hfewer := length_unmet_lt (hkeys ht) hnew
      have hmet' : ∀ c ∈ a :: met, Relation.TransGen (Extends lookup parent) c b := by
        intro c hc
        rcases List.mem_cons.mp hc with rfl | hc
        · exact .single hab
        · exact (hmet c hc).tail hab
      have hacyclic : ¬ Cyclic lookup parent b := by
        rintro ⟨c, hbc, hcc⟩
        exact h ⟨c, .head hab hbc, hcc⟩
      obtain ⟨l, hl⟩ := exists_ancestry hkeys (a :: met) b hmet' hacyclic
      exact ⟨_, .child ht hp hl⟩
termination_by (keys.filter (· ∉ met)).length
decreasing_by exact hfewer

/-- **A name has an ancestry just if no cycle is reached from it.** -/
theorem ancestry_iff [DecidableEq α] {keys : List α}
    (hkeys : ∀ {a t}, lookup a = some t → a ∈ keys) :
    (∃ l, Ancestry lookup parent a l) ↔ ¬ Cyclic lookup parent a :=
  ⟨fun ⟨_, h⟩ => h.not_cyclic, exists_ancestry hkeys [] a (by simp)⟩

end PrinterDriver.Lib.Inheritance
