import Mathlib.Data.List.Basic
import Mathlib.Data.List.Infix

/-! # Text with holes

A template is text in which an opening mark and a closing mark delimit holes; an escaped opening mark
stands for itself, and one that is never closed is text with all that follows it. A template is read
once, whatever the holes are filled with (`pieces`), and its pieces spell it (`flatMap_spelling`). -/

namespace PrinterDriver.Lib.Templates

variable {α : Type} [DecidableEq α]

/-! ### The first occurrence of a mark -/

/-- What stands before the first occurrence of a mark, and what follows it. -/
def breakOn (mark : List α) : List α → Option (List α × List α)
  | [] => if mark = [] then some ([], []) else none
  | c :: text =>
    if mark.isPrefixOf (c :: text) then some ([], (c :: text).drop mark.length)
    else (breakOn mark text).map fun r => (c :: r.1, r.2)

theorem eq_append_drop {mark text : List α} (h : mark.isPrefixOf text = true) :
    text = mark ++ text.drop mark.length :=
  (List.prefix_iff_eq_append.mp (List.isPrefixOf_iff_prefix.mp h)).symm

theorem breakOn_eq_append {mark : List α} : ∀ {text front rest : List α},
    breakOn mark text = some (front, rest) → text = front ++ mark ++ rest
  | [], front, rest, h => by
    unfold breakOn at h
    split_ifs at h with hm
    cases h
    simp [hm]
  | c :: text, front, rest, h => by
    unfold breakOn at h
    split_ifs at h with hm
    · cases h
      rw [List.nil_append]
      exact eq_append_drop hm
    · obtain ⟨⟨front', rest'⟩, hr, he⟩ := Option.map_eq_some_iff.mp h
      cases he
      rw [List.cons_append, List.cons_append, ← breakOn_eq_append hr]

theorem breakOn_eq_none {mark : List α} : ∀ {text : List α}, breakOn mark text = none →
    ¬mark <:+: text
  | [], h, hi => by
    unfold breakOn at h
    split_ifs at h with hm
    exact hm (List.infix_nil.mp hi)
  | c :: text, h, hi => by
    unfold breakOn at h
    split_ifs at h with hm
    rcases List.infix_cons_iff.mp hi with hp | hi
    · exact hm (List.isPrefixOf_iff_prefix.mpr hp)
    · exact breakOn_eq_none (Option.map_eq_none_iff.mp h) hi

/-! ### Pieces -/

/-- How holes are marked. -/
structure Marks (α : Type) where
  opening : List α
  closing : List α
  /-- Before an opening mark that stands for itself. -/
  escape : α
  opening_ne_nil : opening ≠ []

/-- What a template is made of. -/
inductive Piece (α : Type) where
  | item (c : α)
  /-- The escaped opening mark. -/
  | escaped
  | hole (expression : List α)
  /-- What follows an opening mark that is never closed. -/
  | unclosed (rest : List α)

variable (m : Marks α)

/-- What a hole takes up is shorter than the text it stands in. -/
theorem length_lt_of_hole {text front rest : List α} (ho : m.opening.isPrefixOf text = true)
    (hb : breakOn m.closing (text.drop m.opening.length) = some (front, rest)) :
    rest.length < text.length := by
  have hpos : 0 < m.opening.length := List.length_pos_iff.mpr m.opening_ne_nil
  have hlen := congrArg List.length (breakOn_eq_append hb)
  have hle := congrArg List.length (eq_append_drop ho)
  simp only [List.length_append] at hlen hle
  omega

/-- The pieces of a template, from left to right. -/
def pieces : List α → List (Piece α)
  | [] => []
  | c :: text =>
    if (m.escape :: m.opening).isPrefixOf (c :: text) then
      .escaped :: pieces (text.drop m.opening.length)
    else if _ho : m.opening.isPrefixOf (c :: text) then
      match _hb : breakOn m.closing ((c :: text).drop m.opening.length) with
      | none => [.unclosed ((c :: text).drop m.opening.length)]
      | some (expression, rest) => .hole expression :: pieces rest
    else .item c :: pieces text
termination_by text => text.length
decreasing_by
  · simp only [List.length_drop, List.length_cons]
    omega
  · exact length_lt_of_hole m ‹_› ‹_›
  · simp only [List.length_cons]
    omega

namespace Piece

/-- How a piece is written. -/
def spelling : Piece α → List α
  | item c => [c]
  | escaped => m.escape :: m.opening
  | hole expression => m.opening ++ expression ++ m.closing
  | unclosed rest => m.opening ++ rest

/-- What becomes of a piece. -/
def fill (f : List α → List α) : Piece α → List α
  | item c => [c]
  | escaped => m.opening
  | hole expression => f expression
  | unclosed rest => m.opening ++ rest

end Piece

/-- **A template is what its pieces spell.** -/
theorem flatMap_spelling (text : List α) : (pieces m text).flatMap (Piece.spelling m) = text := by
  fun_induction pieces m text with
  | case1 => rfl
  | case2 c text he ih =>
    have h : c :: text = m.escape :: m.opening ++ (c :: text).drop (m.opening.length + 1) :=
      eq_append_drop he
    rw [List.drop_succ_cons] at h
    rw [List.flatMap_cons, ih, Piece.spelling, ← h]
  | case3 c text he ho hb =>
    rw [List.flatMap_singleton, Piece.spelling, ← eq_append_drop ho]
  | case4 c text he ho expression rest hb ih =>
    have h := breakOn_eq_append hb
    rw [List.flatMap_cons, ih, Piece.spelling, List.append_assoc, List.append_assoc,
      ← List.append_assoc expression, ← h, ← eq_append_drop ho]
  | case5 c text he ho ih =>
    rw [List.flatMap_cons, ih, Piece.spelling, List.singleton_append]

/-! ### Filling the holes -/

/-- A template with its holes filled. -/
def fill (f : List α → List α) (text : List α) : List α := (pieces m text).flatMap (Piece.fill m f)

@[simp]
theorem fill_nil (f : List α → List α) : fill m f [] = [] := by
  simp [fill, pieces]

section Equations
variable {f : List α → List α} {c : α} {text : List α}

theorem fill_escaped (he : (m.escape :: m.opening).isPrefixOf (c :: text) = true) :
    fill m f (c :: text) = m.opening ++ fill m f (text.drop m.opening.length) := by
  rw [fill, pieces, if_pos he]
  rfl

variable (he : ¬(m.escape :: m.opening).isPrefixOf (c :: text) = true)
include he

theorem fill_item (ho : ¬m.opening.isPrefixOf (c :: text) = true) :
    fill m f (c :: text) = c :: fill m f text := by
  rw [fill, pieces, if_neg he, dif_neg ho]
  rfl

theorem fill_unclosed (ho : m.opening.isPrefixOf (c :: text) = true)
    (hb : breakOn m.closing ((c :: text).drop m.opening.length) = none) :
    fill m f (c :: text) = c :: text := by
  rw [fill, pieces, if_neg he, dif_pos ho]
  split
  · rw [List.flatMap_singleton]
    exact (eq_append_drop ho).symm
  · rename_i hb'
    rw [hb] at hb'
    cases hb'

theorem fill_hole (ho : m.opening.isPrefixOf (c :: text) = true) {expression rest : List α}
    (hb : breakOn m.closing ((c :: text).drop m.opening.length) = some (expression, rest)) :
    fill m f (c :: text) = f expression ++ fill m f rest := by
  rw [fill, pieces, if_neg he, dif_pos ho]
  split
  · rename_i hb'
    rw [hb] at hb'
    cases hb'
  · rename_i hb'
    rw [hb] at hb'
    cases hb'
    rfl

end Equations

/-- What is not written in the template comes from a hole. -/
theorem mem_fill {f : List α → List α} {text : List α} {c : α} (h : c ∈ fill m f text) :
    c ∈ text ∨ ∃ expression, c ∈ f expression := by
  obtain ⟨p, hp, hc⟩ := List.mem_flatMap.mp h
  have hspelt : c ∈ p.spelling m → c ∈ text := by
    intro hs
    rw [← flatMap_spelling m text]
    exact List.mem_flatMap.mpr ⟨p, hp, hs⟩
  cases p with
  | item d => exact .inl (hspelt hc)
  | escaped => exact .inl (hspelt (List.mem_cons_of_mem _ hc))
  | hole expression => exact .inr ⟨expression, hc⟩
  | unclosed rest => exact .inl (hspelt hc)

/-- Text without an opening mark has no holes. -/
theorem fill_unmarked {f : List α → List α} : ∀ {text : List α}, ¬m.opening <:+: text →
    fill m f text = text
  | [], _ => fill_nil m f
  | c :: text, h => by
    have hopen : ¬m.opening.isPrefixOf (c :: text) = true := fun ho =>
      h (List.isPrefixOf_iff_prefix.mp ho).isInfix
    have hescape : ¬(m.escape :: m.opening).isPrefixOf (c :: text) = true := by
      intro he
      have hp := List.isPrefixOf_iff_prefix.mp he
      exact h (((List.suffix_cons _ _).isInfix).trans hp.isInfix)
    have ih : fill m f text = text := fill_unmarked fun hi => h (hi.trans
      (List.suffix_cons _ _).isInfix)
    rw [fill_item m hescape hopen, ih]

end PrinterDriver.Lib.Templates
