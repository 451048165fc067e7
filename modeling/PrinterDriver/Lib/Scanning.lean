import Mathlib.Data.List.Basic
import Mathlib.Order.Lattice
import Mathlib.Order.Defs.LinearOrder

/-! # Incremental scanners

A scanner holds input and takes steps, each of which emits one event and consumes some of what is
held; a step that needs more input is no step. When more input never changes a step that was
already possible (`Lawful`), it does not matter how the input is cut up (`feed_append`). -/

namespace PrinterDriver.Lib.Scanning

/-- A scanner of items of `β`, its states `P` and events `ε`. -/
structure Scanner (β ε P : Type) where
  /-- One event, if what is held is enough for it. -/
  step : P → Option (ε × P)
  /-- More input. -/
  push : P → List β → P
  /-- How much is held. -/
  size : P → ℕ

variable {β ε P : Type}

/-- A step consumes, and more input does not change it. -/
structure Scanner.Lawful (S : Scanner β ε P) : Prop where
  consumes : ∀ p e q, S.step p = some (e, q) → S.size q < S.size p
  keeps : ∀ p e q x, S.step p = some (e, q) → S.step (S.push p x) = some (e, S.push q x)
  push_push : ∀ p x y, S.push (S.push p x) y = S.push p (x ++ y)

namespace Scanner

variable (S : Scanner β ε P)

/-- Steps while there are any, at most as many as the fuel. -/
def drain : ℕ → P → List ε × P
  | 0, p => ([], p)
  | n + 1, p =>
    match S.step p with
    | some (e, q) => (e :: (drain n q).1, (drain n q).2)
    | none => ([], p)

/-- What is held is fuel enough. -/
def feed (p : P) (x : List β) : List ε × P := S.drain (S.size (S.push p x)) (S.push p x)

variable {S}

theorem drain_of_none {p : P} (h : S.step p = none) : ∀ n, S.drain n p = ([], p)
  | 0 => rfl
  | n + 1 => by simp [drain, h]

theorem drain_of_some {p q : P} {e : ε} (h : S.step p = some (e, q)) (n : ℕ) :
    S.drain (n + 1) p = (e :: (S.drain n q).1, (S.drain n q).2) := by
  simp [drain, h]

/-- What every step keeps, a drain keeps, and every event came from a state that had it. -/
theorem drain_keeps {J : P → Prop} (hJ : ∀ p e q, J p → S.step p = some (e, q) → J q) :
    ∀ (n : ℕ) {p : P}, J p →
      J (S.drain n p).2 ∧ ∀ e ∈ (S.drain n p).1, ∃ q q', J q ∧ S.step q = some (e, q')
  | 0, p, hp => ⟨hp, by simp [drain]⟩
  | n + 1, p, hp => by
    cases h : S.step p with
    | none => simpa [drain_of_none h] using hp
    | some r =>
      obtain ⟨e, q⟩ := r
      have ih := drain_keeps hJ n (hJ p e q hp h)
      rw [drain_of_some h]
      refine ⟨ih.1, fun e' he' => ?_⟩
      rcases List.mem_cons.mp he' with rfl | he'
      · exact ⟨p, q, hp, h⟩
      · exact ih.2 e' he'

section Lawful
variable (hS : S.Lawful)
include hS

/-- Fuel beyond what is held changes nothing. -/
theorem drain_fuel : ∀ {n m : ℕ} {p : P}, S.size p ≤ n → S.size p ≤ m → S.drain n p = S.drain m p
  | n, m, p, hn, hm => by
    cases h : S.step p with
    | none => rw [drain_of_none h, drain_of_none h]
    | some r =>
      obtain ⟨e, q⟩ := r
      have hlt := hS.consumes p e q h
      cases n with
      | zero => omega
      | succ n =>
        cases m with
        | zero => omega
        | succ m =>
          rw [drain_of_some h, drain_of_some h,
            drain_fuel (show S.size q ≤ n by omega) (show S.size q ≤ m by omega)]

/-- A drained scanner needs more. -/
theorem step_drain : ∀ {n : ℕ} {p : P}, S.size p ≤ n → S.step (S.drain n p).2 = none
  | n, p, hn => by
    cases h : S.step p with
    | none => rwa [drain_of_none h]
    | some r =>
      obtain ⟨e, q⟩ := r
      have hlt := hS.consumes p e q h
      cases n with
      | zero => omega
      | succ n =>
        rw [drain_of_some h]
        exact step_drain (show S.size q ≤ n by omega)

/-- More input after a drain is more input before it. -/
theorem drain_push (x : List β) : ∀ {n m : ℕ} {p : P}, S.size p ≤ n → S.size (S.push p x) ≤ m →
    S.drain m (S.push p x) =
      ((S.drain n p).1 ++ (S.drain m (S.push (S.drain n p).2 x)).1,
        (S.drain m (S.push (S.drain n p).2 x)).2)
  | n, m, p, hn, hm => by
    cases h : S.step p with
    | none => simp [drain_of_none h]
    | some r =>
      obtain ⟨e, q⟩ := r
      have hlt := hS.consumes p e q h
      have hx := hS.keeps p e q x h
      have hlt' := hS.consumes _ e _ hx
      cases n with
      | zero => omega
      | succ n =>
        cases m with
        | zero => omega
        | succ m =>
          have ih := drain_push x (show S.size q ≤ n by omega)
            (show S.size (S.push q x) ≤ m + 1 by omega)
          rw [drain_of_some hx, drain_of_some h,
            drain_fuel hS (show _ ≤ m by omega) (show S.size (S.push q x) ≤ m + 1 by omega), ih]
          simp

/-- **The cut of the input does not matter.** -/
theorem feed_append (p : P) (x y : List β) :
    S.feed p (x ++ y) =
      ((S.feed p x).1 ++ (S.feed (S.feed p x).2 y).1, (S.feed (S.feed p x).2 y).2) := by
  unfold feed
  rw [← hS.push_push]
  have h := drain_push hS y (le_refl (S.size (S.push p x)))
    (le_max_left (S.size (S.push (S.push p x) y))
      (S.size (S.push (S.drain (S.size (S.push p x)) (S.push p x)).2 y)))
  rw [drain_fuel hS (le_refl _) (le_max_left _ _), h,
    drain_fuel hS (le_max_right _ _) (le_refl _)]

theorem step_feed (p : P) (x : List β) : S.step (S.feed p x).2 = none :=
  step_drain hS (le_refl _)

end Lawful

end Scanner

end PrinterDriver.Lib.Scanning
