import Mathlib.Data.List.Basic
import Mathlib.Data.List.DropRight
import Mathlib.Data.List.Infix

/-! # Delimited text

Pieces joined by a separator (`List.intercalate`) or each ended by it (`terminated`), and what a
prefix of such a text consists of: some whole pieces and a prefix of the next one. -/

namespace PrinterDriver.Lib.Delimited

section

variable {α : Type} {x : α}

/-- Every piece followed by the separator. -/
def terminated (x : α) (pieces : List (List α)) : List α := pieces.flatMap (· ++ [x])

@[simp]
theorem terminated_nil : terminated x ([] : List (List α)) = [] := rfl

@[simp]
theorem terminated_cons (l : List α) (ls : List (List α)) :
    terminated x (l :: ls) = l ++ x :: terminated x ls := by
  simp [terminated]

@[simp]
theorem terminated_append (ls ms : List (List α)) :
    terminated x (ls ++ ms) = terminated x ls ++ terminated x ms := by
  simp [terminated]

/-- A prefix of two texts in a row ends in the first, or goes on into the second. -/
theorem prefix_append_cases {p a b : List α} (h : p <+: a ++ b) :
    p <+: a ∨ ∃ r, p = a ++ r ∧ r <+: b := by
  obtain ⟨t, ht⟩ := h
  rcases List.append_eq_append_iff.mp ht with ⟨c, rfl, -⟩ | ⟨c, rfl, rfl⟩
  · exact .inl (List.prefix_append p c)
  · exact .inr ⟨c, rfl, List.prefix_append c t⟩

/-- Terminated pieces end with the separator. -/
theorem terminated_eq_concat : ∀ {ls : List (List α)}, ls ≠ [] →
    ∃ front, terminated x ls = front ++ [x]
  | [], h => absurd rfl h
  | [l], _ => ⟨l, by simp⟩
  | l :: m :: ls, _ => by
    obtain ⟨front, hf⟩ := terminated_eq_concat (List.cons_ne_nil m ls)
    exact ⟨l ++ x :: front, by rw [terminated_cons, hf, List.append_assoc, List.cons_append]⟩

theorem mem_intercalate {a : α} : ∀ {fs : List (List α)}, a ∈ [x].intercalate fs →
    a = x ∨ ∃ f ∈ fs, a ∈ f
  | [], h => by cases h
  | [f], h => by
    rw [List.intercalate_singleton] at h
    exact .inr ⟨f, by simp, h⟩
  | f :: g :: fs, h => by
    rw [List.intercalate_cons_cons, List.mem_append, List.mem_append, List.mem_singleton] at h
    rcases h with (h | h) | h
    · exact .inr ⟨f, by simp, h⟩
    · exact .inl h
    · exact (mem_intercalate h).imp_right fun ⟨m, hm, ha⟩ => ⟨m, List.mem_cons_of_mem _ hm, ha⟩

theorem count_intercalate [DecidableEq α] : ∀ {fs : List (List α)}, fs ≠ [] →
    (∀ f ∈ fs, x ∉ f) → ([x].intercalate fs).count x + 1 = fs.length
  | [], h, _ => absurd rfl h
  | [f], _, hx => by
    have hf : f.count x = 0 := List.count_eq_zero.mpr (hx f List.mem_cons_self)
    rw [List.intercalate_singleton, hf]
    rfl
  | f :: g :: fs, _, hx => by
    have hf : f.count x = 0 := List.count_eq_zero.mpr (hx f List.mem_cons_self)
    have ih := count_intercalate (List.cons_ne_nil g fs) fun k hk => hx k (List.mem_cons_of_mem f hk)
    rw [List.intercalate_cons_cons, List.count_append, List.count_append, hf, List.count_singleton_self,
      List.length_cons, ← ih]
    omega

/-- A prefix of joined pieces: some whole pieces, and a prefix of the next. -/
theorem prefix_intercalate : ∀ {fs : List (List α)}, fs ≠ [] →
    ∀ {p : List α}, p <+: [x].intercalate fs →
      ∃ ws f rest q, fs = ws ++ f :: rest ∧ q <+: f ∧ p = terminated x ws ++ q
  | [], h, _, _ => absurd rfl h
  | [f], _, p, hp => by
    rw [List.intercalate_singleton] at hp
    exact ⟨[], f, [], p, rfl, hp, rfl⟩
  | f :: g :: fs, _, p, hp => by
    rw [List.intercalate_cons_cons, List.append_assoc] at hp
    rcases prefix_append_cases hp with h | ⟨r, rfl, hr⟩
    · exact ⟨[], f, g :: fs, p, rfl, h, rfl⟩
    · rw [List.singleton_append, List.prefix_cons_iff] at hr
      rcases hr with rfl | ⟨s, rfl, hs⟩
      · exact ⟨[], f, g :: fs, f, rfl, List.prefix_rfl, by simp⟩
      · obtain ⟨ws, h, rest, q, he, hq, rfl⟩ := prefix_intercalate (List.cons_ne_nil g fs) hs
        exact ⟨f :: ws, h, rest, q, by rw [he, List.cons_append], hq, by simp⟩

/-- A prefix of terminated pieces: some whole pieces, and a prefix of the next or nothing. -/
theorem prefix_terminated : ∀ {ls : List (List α)} {p : List α}, p <+: terminated x ls →
    ∃ ws rest q, ls = ws ++ rest ∧ p = terminated x ws ++ q ∧
      (q = [] ∨ ∃ l rest', rest = l :: rest' ∧ q <+: l)
  | [], p, hp => ⟨[], [], [], rfl, by simpa using hp, .inl rfl⟩
  | l :: ls, p, hp => by
    rw [terminated_cons] at hp
    rcases prefix_append_cases hp with h | ⟨r, rfl, hr⟩
    · exact ⟨[], l :: ls, p, rfl, rfl, .inr ⟨l, ls, rfl, h⟩⟩
    · rw [List.prefix_cons_iff] at hr
      rcases hr with rfl | ⟨s, rfl, hs⟩
      · exact ⟨[], l :: ls, l, rfl, by simp, .inr ⟨l, ls, rfl, List.prefix_rfl⟩⟩
      · obtain ⟨ws, rest, q, rfl, rfl, hq⟩ := prefix_terminated hs
        exact ⟨l :: ws, rest, q, rfl, by simp, hq⟩

end

section

variable {α : Type} [BEq α] [LawfulBEq α] {x : α}

/-- Whole pieces are split off one by one. -/
theorem splitOn_terminated_append : ∀ {ls : List (List α)}, (∀ l ∈ ls, x ∉ l) →
    ∀ rest : List α, (terminated x ls ++ rest).splitOn x = ls ++ rest.splitOn x
  | [], _, rest => by simp
  | l :: ls, h, rest => by
    have hl : x ∉ l := h l (by simp)
    have hls : ∀ m ∈ ls, x ∉ m := fun m hm => h m (by simp [hm])
    rw [terminated_cons, List.append_assoc, List.cons_append,
      List.splitOn_append_cons_self_of_not_mem hl, splitOn_terminated_append hls, List.cons_append]

/-- What stands up to and including the last separator. -/
def wholePieces (x : α) (p : List α) : List α := p.rdropWhile (· != x)

/-- What stands behind the last separator. -/
def lastPiece (x : α) (p : List α) : List α := p.rtakeWhile (· != x)

theorem wholePieces_append_cons (front : List α) {q : List α} (h : x ∉ q) :
    wholePieces x (front ++ x :: q) = front ++ [x] := by
  have hq : ∀ b ∈ q.reverse, (b != x) = true := fun b hb => by
    simp only [bne_iff_ne]
    rintro rfl
    exact h (List.mem_reverse.mp hb)
  simp [wholePieces, List.rdropWhile, List.dropWhile_append_of_pos hq]

theorem lastPiece_append_cons (front : List α) {q : List α} (h : x ∉ q) :
    lastPiece x (front ++ x :: q) = q := by
  have hq : ∀ b ∈ q.reverse, (b != x) = true := fun b hb => by
    simp only [bne_iff_ne]
    rintro rfl
    exact h (List.mem_reverse.mp hb)
  simp [lastPiece, List.rtakeWhile, List.takeWhile_append_of_pos hq]

theorem wholePieces_of_notMem {q : List α} (h : x ∉ q) : wholePieces x q = [] := by
  rw [wholePieces, List.rdropWhile_eq_nil_iff]
  intro b hb
  simp only [bne_iff_ne]
  rintro rfl
  exact h hb

theorem lastPiece_of_notMem {q : List α} (h : x ∉ q) : lastPiece x q = q := by
  rw [lastPiece, List.rtakeWhile_eq_self_iff]
  intro b hb
  simp only [bne_iff_ne]
  rintro rfl
  exact h hb

end

end PrinterDriver.Lib.Delimited
