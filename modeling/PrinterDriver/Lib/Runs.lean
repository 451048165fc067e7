import Mathlib.Data.Option.Basic

/-! # Runs of a step function

A system whose moves are functions of the state: `step a s` is the state after the move `a`, or none
where the move is not possible. `Reach` are the states of the runs whose moves all meet a condition
on the state before them; an invariant of the moves is one of the runs (`Reach.invariant`). -/

namespace PrinterDriver.Lib.Runs

variable {α σ : Type}

/-- The states of the runs from `init` whose moves all meet `G`. -/
inductive Reach (step : α → σ → Option σ) (G : α → σ → Prop) (init : σ) : σ → Prop
  | init : Reach step G init init
  | step {s s' : σ} (a : α) (h : Reach step G init s) (hg : G a s) (hs : step a s = some s') :
      Reach step G init s'

variable {step : α → σ → Option σ} {G : α → σ → Prop} {init : σ}

/-- What holds at first and what every move keeps, holds throughout. -/
theorem Reach.invariant {I : σ → Prop} (h0 : I init)
    (hI : ∀ a s s', I s → G a s → step a s = some s' → I s') {s : σ} (h : Reach step G init s) :
    I s := by
  induction h with
  | init => exact h0
  | step a _ hg hs ih => exact hI a _ _ ih hg hs

/-- The state after a list of moves, if all of them are possible and meet the condition. -/
def replay (step : α → σ → Option σ) (G : α → σ → Prop) [∀ a s, Decidable (G a s)] :
    List α → σ → Option σ
  | [], s => some s
  | a :: as, s => if G a s then (step a s).bind (replay step G as) else none

theorem reach_of_replay [∀ a s, Decidable (G a s)] : ∀ {as : List α} {s t : σ},
    Reach step G init s → replay step G as s = some t → Reach step G init t
  | [], _, _, h, hr => by
    cases hr
    exact h
  | a :: as, s, t, h, hr => by
    by_cases hg : G a s
    · rw [replay, if_pos hg] at hr
      obtain ⟨mid, hs, hrest⟩ := Option.bind_eq_some_iff.mp hr
      exact reach_of_replay (h.step a hg hs) hrest
    · rw [replay, if_neg hg] at hr
      cases hr

/-- Every move of a run meets a condition on the states around it; a run ends where a move is not
possible. -/
def Along (step : α → σ → Option σ) (P : α → σ → σ → Prop) : List α → σ → Prop
  | [], _ => True
  | a :: as, s =>
    match step a s with
    | none => True
    | some s' => P a s s' ∧ Along step P as s'

/-- Two conditions that agree on the moves of the states where an invariant holds, agree on the
runs; the invariant has to survive the moves that meet them. -/
theorem along_congr {P Q : α → σ → σ → Prop} {I : σ → Prop}
    (hI : ∀ a s s', I s → step a s = some s' → P a s s' → I s')
    (hPQ : ∀ a s s', I s → step a s = some s' → (P a s s' ↔ Q a s s')) :
    ∀ (as : List α) (s : σ), I s → (Along step P as s ↔ Along step Q as s)
  | [], _, _ => Iff.rfl
  | a :: as, s, hs => by
    unfold Along
    rcases hstep : step a s with _ | s'
    · exact Iff.rfl
    · have hrest : P a s s' → (Along step P as s' ↔ Along step Q as s') :=
        fun hp => along_congr hI hPQ as s' (hI a s s' hs hstep hp)
      have hmove : P a s s' ↔ Q a s s' := hPQ a s s' hs hstep
      exact (and_congr_right hrest).trans (and_congr_left' hmove)

end PrinterDriver.Lib.Runs
