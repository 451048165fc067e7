import Mathlib.Data.List.Forall2

/-! # Maps that may fail

A partial function along a list: the map succeeds just if the function does at every element, and the
result pairs each element with what the function makes of it. -/

namespace PrinterDriver.Lib.Mapping

variable {α β : Type} {f : α → Option β}

/-- A map that succeeds pairs the elements with their images. -/
theorem mapM_eq_some_iff {l : List α} {bs : List β} :
    l.mapM f = some bs ↔ List.Forall₂ (fun a b => f a = some b) l bs := by
  induction l generalizing bs with
  | nil =>
    rw [List.forall₂_nil_left_iff]
    exact ⟨fun h => (Option.some.inj h).symm, fun h => h ▸ rfl⟩
  | cons a l ih =>
    rw [List.mapM_cons]
    constructor
    · intro h
      obtain ⟨b, hb, h⟩ := Option.bind_eq_some_iff.mp h
      obtain ⟨rest, hrest, h⟩ := Option.bind_eq_some_iff.mp h
      rw [← Option.some.inj h]
      exact .cons hb (ih.mp hrest)
    · rintro (_ | ⟨hb, hrest⟩)
      rw [hb, ih.mpr hrest]
      rfl

/-- What holds of every image makes the map succeed, and holds along it. -/
theorem exists_mapM {R : α → β → Prop} {l : List α} (h : ∀ a ∈ l, ∃ b, f a = some b ∧ R a b) :
    ∃ bs, l.mapM f = some bs ∧ List.Forall₂ R l bs := by
  induction l with
  | nil => exact ⟨[], rfl, .nil⟩
  | cons a l ih =>
    obtain ⟨⟨b, hf, hR⟩, hl⟩ := List.forall_mem_cons.mp h
    obtain ⟨bs, hmap, hall⟩ := ih hl
    refine ⟨b :: bs, ?_, .cons hR hall⟩
    rw [List.mapM_cons, hf, hmap]
    rfl

theorem isSome_mapM {l : List α} : (l.mapM f).isSome = true ↔ ∀ a ∈ l, (f a).isSome = true := by
  constructor
  · intro h a ha
    obtain ⟨bs, hbs⟩ := Option.isSome_iff_exists.mp h
    have hall := mapM_eq_some_iff.mp hbs
    obtain ⟨i, hi, rfl⟩ := List.mem_iff_getElem.mp ha
    have hb := hall.get hi (hall.length_eq ▸ hi)
    exact Option.isSome_iff_exists.mpr ⟨_, hb⟩
  · intro h
    have hall : ∀ a ∈ l, ∃ b, f a = some b ∧ True := fun a ha =>
      (Option.isSome_iff_exists.mp (h a ha)).imp fun _ hb => ⟨hb, trivial⟩
    obtain ⟨bs, hbs, -⟩ := exists_mapM hall
    rw [hbs]
    rfl

/-- Every element of the result comes from one of the list. -/
theorem mem_of_mapM {l : List α} {bs : List β} (h : l.mapM f = some bs) :
    ∀ b ∈ bs, ∃ a ∈ l, f a = some b := by
  intro b hb
  have hall := mapM_eq_some_iff.mp h
  obtain ⟨i, hi, rfl⟩ := List.mem_iff_getElem.mp hb
  have hi' : i < l.length := hall.length_eq ▸ hi
  exact ⟨l[i], List.getElem_mem hi', hall.get hi' hi⟩

/-- The image of every element is in the result. -/
theorem image_of_mapM {l : List α} {bs : List β} (h : l.mapM f = some bs) :
    ∀ a ∈ l, ∃ b ∈ bs, f a = some b := by
  intro a ha
  have hall := mapM_eq_some_iff.mp h
  obtain ⟨i, hi, rfl⟩ := List.mem_iff_getElem.mp ha
  have hi' : i < bs.length := hall.length_eq ▸ hi
  exact ⟨bs[i], List.getElem_mem hi', hall.get hi hi'⟩

theorem length_of_mapM {l : List α} {bs : List β} (h : l.mapM f = some bs) :
    bs.length = l.length :=
  (mapM_eq_some_iff.mp h).length_eq.symm

end PrinterDriver.Lib.Mapping
