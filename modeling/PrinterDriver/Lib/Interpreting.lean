import Mathlib.Data.List.Basic

/-! # Interpreting a stream of commands

A machine reads a stream in which commands stand between items of their own. What it shows is each item of
its own with the state it is shown in. A stream that was put together of whole commands and items is read as
what it was put together of (`shown_of_tidy`), and commands that would change nothing may be left out
(`Elides.follow_eq`). -/

namespace PrinterDriver.Lib.Interpreting

/-- How many items that follow belong to a command that begins here, if one does, and what a command does. -/
structure Machine (β σ : Type) where
  arity : σ → β → List β → Option ℕ
  obey : σ → List β → σ

/-- What a stream is put together of. -/
inductive Piece (β : Type) where
  | command (items : List β)
  | own (item : β)

def Piece.items {β : Type} : Piece β → List β
  | .command items => items
  | .own item => [item]

variable {β σ : Type}

namespace Machine

variable (M : Machine β σ)

/-- Every turn takes an item, so the items are fuel enough. -/
def read : ℕ → σ → List β → List (β × σ)
  | 0, _, _ => []
  | _ + 1, _, [] => []
  | fuel + 1, s, first :: rest =>
    match M.arity s first rest with
    | some n => read fuel (M.obey s (first :: rest.take n)) (rest.drop n)
    | none => (first, s) :: read fuel s rest

/-- The items of the stream that are no part of a command, each with the state it is shown in. -/
def shown (s : σ) (stream : List β) : List (β × σ) := M.read stream.length s stream

/-- What pieces show that are read as what they are. -/
def follow : σ → List (Piece β) → List (β × σ)
  | _, [] => []
  | s, .command items :: pieces => follow (M.obey s items) pieces
  | s, .own item :: pieces => (item, s) :: follow s pieces

/-- The state behind a piece. -/
def after (s : σ) : Piece β → σ
  | .command items => M.obey s items
  | .own _ => s

def afterAll (s : σ) (pieces : List (Piece β)) : σ := pieces.foldl M.after s

/-- A piece that is read as what it is, whatever follows it. -/
def TidyPiece (s : σ) : Piece β → Prop
  | .command items => ∃ first args, items = first :: args ∧
      ∀ rest, M.arity s first (args ++ rest) = some args.length
  | .own item => ∀ rest, M.arity s item rest = none

def Tidy : σ → List (Piece β) → Prop
  | _, [] => True
  | s, piece :: pieces => M.TidyPiece s piece ∧ Tidy (M.after s piece) pieces

variable {M}

theorem read_fuel : ∀ {n m : ℕ} {s : σ} {stream : List β}, stream.length ≤ n → stream.length ≤ m →
    M.read n s stream = M.read m s stream
  | 0, 0, _, _, _, _ => rfl
  | 0, m + 1, _, [], _, _ => rfl
  | n + 1, 0, _, [], _, _ => rfl
  | n + 1, m + 1, _, [], _, _ => rfl
  | n + 1, m + 1, s, first :: rest, hn, hm => by
    rw [List.length_cons] at hn hm
    have hdrop : ∀ k, (rest.drop k).length ≤ rest.length := fun k => by
      rw [List.length_drop]
      omega
    unfold read
    cases M.arity s first rest with
    | some k =>
      have := hdrop k
      exact read_fuel (by omega) (by omega)
    | none =>
      dsimp only
      rw [read_fuel (show rest.length ≤ n by omega) (show rest.length ≤ m by omega)]

theorem shown_command {s : σ} {first : β} {args rest : List β}
    (h : M.arity s first (args ++ rest) = some args.length) :
    M.shown s (first :: args ++ rest) = M.shown (M.obey s (first :: args)) rest := by
  have hlen : rest.length ≤ (args ++ rest).length := by
    rw [List.length_append]
    omega
  show M.read ((args ++ rest).length + 1) s (first :: (args ++ rest)) = _
  rw [read, h]
  dsimp only
  rw [List.take_left, List.drop_left, shown, read_fuel hlen (Nat.le_refl _)]

theorem shown_own {s : σ} {item : β} {rest : List β} (h : M.arity s item rest = none) :
    M.shown s (item :: rest) = (item, s) :: M.shown s rest := by
  show M.read (rest.length + 1) s (item :: rest) = _
  rw [read, h]
  rfl

/-- **A tidy stream is read as what it was put together of.** -/
theorem shown_of_tidy {pieces : List (Piece β)} {s : σ} (h : M.Tidy s pieces) :
    M.shown s (pieces.flatMap Piece.items) = M.follow s pieces := by
  induction pieces generalizing s with
  | nil => rfl
  | cons piece pieces ih =>
    obtain ⟨hpiece, hrest⟩ := h
    have ih := ih hrest
    cases piece with
    | command items =>
      obtain ⟨first, args, rfl, harity⟩ := hpiece
      rw [List.flatMap_cons]
      exact (shown_command (harity _)).trans ih
    | own item =>
      rw [List.flatMap_cons]
      exact (shown_own (hpiece _)).trans (congrArg _ ih)

theorem tidy_append {more : List (Piece β)} : ∀ {pieces : List (Piece β)} {s : σ},
    M.Tidy s (pieces ++ more) ↔ M.Tidy s pieces ∧ M.Tidy (M.afterAll s pieces) more
  | [], _ => ⟨fun h => ⟨trivial, h⟩, fun h => h.2⟩
  | piece :: pieces, s => by
    have ih := @tidy_append more pieces (M.after s piece)
    constructor
    · rintro ⟨hpiece, hrest⟩
      obtain ⟨hpieces, hmore⟩ := ih.mp hrest
      exact ⟨⟨hpiece, hpieces⟩, hmore⟩
    · rintro ⟨⟨hpiece, hpieces⟩, hmore⟩
      exact ⟨hpiece, ih.mpr ⟨hpieces, hmore⟩⟩

theorem afterAll_append (s : σ) (pieces more : List (Piece β)) :
    M.afterAll s (pieces ++ more) = M.afterAll (M.afterAll s pieces) more := List.foldl_append

variable (M)

/-- The second stream is the first but for commands that change nothing where they stand. -/
inductive Elides : σ → List (Piece β) → List (Piece β) → Prop
  | nil (s : σ) : Elides s [] []
  | keep (piece : Piece β) {s : σ} {loud quiet : List (Piece β)}
      (h : Elides (M.after s piece) loud quiet) : Elides s (piece :: loud) (piece :: quiet)
  | leave {items : List β} {s : σ} {loud quiet : List (Piece β)} (hsame : M.obey s items = s)
      (h : Elides s loud quiet) : Elides s (.command items :: loud) quiet

variable {M}

namespace Elides

variable {s : σ} {loud quiet : List (Piece β)}

theorem refl (s : σ) : ∀ pieces : List (Piece β), M.Elides s pieces pieces
  | [] => .nil s
  | piece :: pieces => .keep piece (refl (M.after s piece) pieces)

/-- **What is left out is not missed.** -/
theorem follow_eq (h : M.Elides s loud quiet) : M.follow s loud = M.follow s quiet := by
  induction h with
  | nil s => rfl
  | keep piece _ ih =>
    cases piece with
    | command items => exact ih
    | own item =>
      rw [follow, follow]
      exact congrArg _ ih
  | leave hsame _ ih =>
    rw [follow, hsame]
    exact ih

theorem afterAll_eq (h : M.Elides s loud quiet) : M.afterAll s loud = M.afterAll s quiet := by
  induction h with
  | nil s => rfl
  | keep piece _ ih => exact ih
  | @leave items s loud quiet hsame _ ih =>
    show M.afterAll (M.obey s items) loud = _
    rw [hsame]
    exact ih

theorem append (h : M.Elides s loud quiet) {more less : List (Piece β)}
    (h' : M.Elides (M.afterAll s loud) more less) : M.Elides s (loud ++ more) (quiet ++ less) := by
  induction h with
  | nil s => exact h'
  | keep piece _ ih => exact .keep piece (ih h')
  | @leave items s loud quiet hsame _ ih =>
    refine .leave hsame (ih ?_)
    have hall : M.afterAll s (.command items :: loud) = M.afterAll (M.obey s items) loud := rfl
    rw [hall, hsame] at h'
    exact h'

end Elides

end Machine

end PrinterDriver.Lib.Interpreting
