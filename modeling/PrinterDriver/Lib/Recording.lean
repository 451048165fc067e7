import PrinterDriver.Lib.Simulations

/-! # Recorded runs

A machine that also remembers the calls of every thread (`recorded`). It moves as the machine does
(`reach_fst`), so that a statement about what happened in a run is one about a reached state. If
every program that may be started is safe to an observer, whatever the observer has seen, then so is
the recorded machine, with the observer's word on every call (`recorded_guarded`). -/

namespace PrinterDriver.Lib.Recording

open Relation PrinterDriver.Lib.Programs PrinterDriver.Lib.Threads PrinterDriver.Lib.Simulations
  Machine

variable {E : Interface} {ι σ τ : Type} [DecidableEq ι]

/-- The calls of a thread with their answers, oldest first. -/
abbrev Calls (E : Interface) : Type := List (Σ c : E.Call, E.Answer c)

/-- The calls after one more of a thread. -/
def remember (h : ι → Calls E) (i : ι) (x : Σ c : E.Call, E.Answer c) : ι → Calls E :=
  Function.update h i (h i ++ [x])

/-- A flag that is set by some of the calls, and never taken back. -/
theorem foldl_flag {X : Type} {post : τ → X → τ} {flag : τ → Bool} {sets : X → Bool}
    (h : ∀ t x, flag (post t x) = (flag t || sets x)) (xs : List X) :
    ∀ t : τ, flag (xs.foldl post t) = (flag t || xs.any sets) := by
  induction xs with
  | nil =>
    intro t
    rw [List.foldl_nil, List.any_nil, Bool.or_false]
  | cons x xs ih =>
    intro t
    rw [List.foldl_cons, ih, h, List.any_cons, Bool.or_assoc]

/-- The machine with a memory that its moves do not read. -/
def recorded (M : Machine E ι σ) : Machine E ι (σ × (ι → Calls E)) where
  Choice := M.Choice
  Event := M.Event
  Task := M.Task
  Restart := M.Restart
  serve i c ch s := (M.serve i c ch s.1).map fun r => (r.1, r.2, remember s.2 i ⟨c, r.1⟩)
  event e s := (M.event e s.1).map fun t => (t, s.2)
  start i t s := (M.start i t s.1).map fun r => (r.1, r.2, s.2)
  restart r s := (M.restart r s.1).map fun t => (t, s.2)

section Moves
variable {M : Machine E ι σ} {s s' : σ × (ι → Calls E)}

theorem serve_recorded {i : ι} {c : E.Call} {ch : M.Choice} {a : E.Answer c}
    (h : (recorded M).serve i c ch s = some (a, s')) :
    M.serve i c ch s.1 = some (a, s'.1) ∧ s'.2 = remember s.2 i ⟨c, a⟩ := by
  obtain ⟨⟨b, t⟩, ht, he⟩ := Option.map_eq_some_iff.mp h
  obtain ⟨rfl, rfl⟩ := Prod.mk.inj he
  exact ⟨ht, rfl⟩

theorem event_recorded {e : M.Event} (h : (recorded M).event e s = some s') :
    M.event e s.1 = some s'.1 ∧ s'.2 = s.2 := by
  obtain ⟨t, ht, rfl⟩ := Option.map_eq_some_iff.mp h
  exact ⟨ht, rfl⟩

theorem start_recorded {i : ι} {t : M.Task} {p : Prog E Unit}
    (h : (recorded M).start i t s = some (p, s')) :
    M.start i t s.1 = some (p, s'.1) ∧ s'.2 = s.2 := by
  obtain ⟨⟨q, u⟩, hu, he⟩ := Option.map_eq_some_iff.mp h
  obtain ⟨rfl, rfl⟩ := Prod.mk.inj he
  exact ⟨hu, rfl⟩

theorem restart_recorded {r : M.Restart} (h : (recorded M).restart r s = some s') :
    M.restart r s.1 = some s'.1 ∧ s'.2 = s.2 := by
  obtain ⟨t, ht, rfl⟩ := Option.map_eq_some_iff.mp h
  exact ⟨ht, rfl⟩

end Moves

/-! ### The run without its memory -/

/-- What the machine itself is in. -/
def forget (cfg : Config E ι (σ × (ι → Calls E))) : Config E ι σ := ⟨cfg.prog, cfg.state.1⟩

/-- The recorded machine follows the machine itself. -/
theorem follows_fst {M : Machine E ι σ} {G : (recorded M).Guard} :
    Follows (recorded M) M G (.none M) Prod.fst (fun _ => True) where
  serve _ _ ch _ _ _ _ _ h := ⟨trivial, ch, trivial, (serve_recorded h).1⟩
  event e _ _ _ _ h := ⟨trivial, e, trivial, (event_recorded h).1⟩
  start _ t _ _ _ _ h := ⟨trivial, t, (start_recorded h).1⟩
  restart r _ _ _ _ h := ⟨trivial, r, trivial, (restart_recorded h).1⟩

/-- **A recorded run is a run.** -/
theorem reach_fst {M : Machine E ι σ} {s : σ} {h : ι → Calls E} {G : (recorded M).Guard}
    {cfg : Config E ι (σ × (ι → Calls E))} (hr : Reach (recorded M) G (s, h) cfg) :
    Reach M (.none M) s (forget cfg) :=
  (follows_fst.reach trivial hr).2

/-- The guard of the machine, in its recorded runs. -/
def remembering {M : Machine E ι σ} (G : M.Guard) : (recorded M).Guard where
  serve i c ch s := G.serve i c ch s.1
  event e s := G.event e s.1
  restart r s := G.restart r s.1

section Decide
variable {M : Machine E ι σ} {G : M.Guard} [serve : ∀ i c ch s, Decidable (G.serve i c ch s)]
  [event : ∀ e s, Decidable (G.event e s)] [restart : ∀ r s, Decidable (G.restart r s)]

instance (i : ι) (c : E.Call) (ch : (recorded M).Choice) (s : σ × (ι → Calls E)) :
    Decidable ((remembering G).serve i c ch s) := serve i c ch s.1

instance (e : (recorded M).Event) (s : σ × (ι → Calls E)) :
    Decidable ((remembering G).event e s) := event e s.1

instance (r : (recorded M).Restart) (s : σ × (ι → Calls E)) :
    Decidable ((remembering G).restart r s) := restart r s.1

end Decide

/-- A machine that follows another follows it in its recorded runs too. -/
theorem follows_recorded {υ : Type} {M : Machine E ι σ} {N : Machine E ι υ} {G : M.Guard}
    {H : N.Guard} {f : σ → υ} {I : σ → Prop} (F : Follows M N G H f I) :
    Follows (recorded M) (recorded N) (remembering G) (remembering H) (Prod.map f id)
      (fun s => I s.1) where
  serve i c ch s a s' hi hg h := by
    obtain ⟨hs, hmem⟩ := serve_recorded h
    obtain ⟨hi', ch', hg', hn⟩ := F.serve i c ch s.1 a s'.1 hi hg hs
    refine ⟨hi', ch', hg', Option.map_eq_some_iff.mpr ⟨_, hn, ?_⟩⟩
    simp [Prod.map, hmem]
  event e s s' hi hg h := by
    obtain ⟨hs, hmem⟩ := event_recorded h
    obtain ⟨hi', e', hg', hn⟩ := F.event e s.1 s'.1 hi hg hs
    refine ⟨hi', e', hg', Option.map_eq_some_iff.mpr ⟨_, hn, ?_⟩⟩
    simp [Prod.map, hmem]
  start i t s p s' hi h := by
    obtain ⟨hs, hmem⟩ := start_recorded h
    obtain ⟨hi', t', hn⟩ := F.start i t s.1 p s'.1 hi hs
    refine ⟨hi', t', Option.map_eq_some_iff.mpr ⟨_, hn, ?_⟩⟩
    simp [Prod.map, hmem]
  restart r s s' hi hg h := by
    obtain ⟨hs, hmem⟩ := restart_recorded h
    obtain ⟨hi', r', hg', hn⟩ := F.restart r s.1 s'.1 hi hg hs
    refine ⟨hi', r', hg', Option.map_eq_some_iff.mpr ⟨_, hn, ?_⟩⟩
    simp [Prod.map, hmem]

/-- The same move. -/
def recordMove {M : Machine E ι σ} : M.Move → (recorded M).Move
  | .serve i ch => .serve i ch
  | .event e => .event e
  | .start i t => .start i t
  | .restart r => .restart r

/-! ### What an observer has to say -/

section Observed
variable {M : Machine E ι σ} {C : Contract E ι σ} {post : τ → (Σ c : E.Call, E.Answer c) → τ}
  {allowed : E.Call → τ → Prop} {begun : τ}

/-- The contract of the machine, and the observer of each thread allows its calls. -/
def watched (C : Contract E ι σ) (post : τ → (Σ c : E.Call, E.Answer c) → τ)
    (allowed : E.Call → τ → Prop) (begun : τ) : Contract E ι (σ × (ι → Calls E)) where
  inv s := C.inv s.1
  rest i s := C.rest i s.1
  allowed i c s := C.allowed i c s.1 ∧ allowed c ((s.2 i).foldl post begun)

theorem remember_self (h : ι → Calls E) (i : ι) (x : Σ c : E.Call, E.Answer c) :
    remember h i x i = h i ++ [x] := Function.update_self ..

theorem remember_of_ne (h : ι → Calls E) {i j : ι} (hj : j ≠ i) (x : Σ c : E.Call, E.Answer c) :
    remember h i x j = h j := Function.update_of_ne hj ..

/-- The other threads leave the memory of a thread alone. -/
theorem others_recorded {i : ι} {s s' : σ × (ι → Calls E)}
    (h : Others (recorded M) (.none _) (watched C post allowed begun) i s s') :
    Others M (.none M) C i s.1 s'.1 ∧ s'.2 i = s.2 i := by
  cases h with
  | event e hi hg h =>
    obtain ⟨he, hmem⟩ := event_recorded h
    exact ⟨.event e hi trivial he, by rw [hmem]⟩
  | serve j hj c ch a hi hg ha h =>
    obtain ⟨hs, hmem⟩ := serve_recorded h
    exact ⟨.serve j hj c ch a hi trivial ha.1 hs, by rw [hmem, remember_of_ne _ (Ne.symm hj)]⟩
  | start j hj t p hi h =>
    obtain ⟨hs, hmem⟩ := start_recorded h
    exact ⟨.start j hj t p hi hs, by rw [hmem]⟩

theorem others_star {i : ι} {s s' : σ × (ι → Calls E)}
    (h : ReflTransGen (Others (recorded M) (.none _) (watched C post allowed begun) i) s s') :
    ReflTransGen (Others M (.none M) C i) s.1 s'.1 ∧ s'.2 i = s.2 i := by
  induction h with
  | refl => exact ⟨.refl, rfl⟩
  | tail _ hstep ih =>
    obtain ⟨ho, hmem⟩ := others_recorded hstep
    exact ⟨ih.1.tail ho, hmem.trans ih.2⟩

/-- What is safe to the machine and to the observer is safe to both at once. -/
theorem safe_recorded {i : ι} {Q : Unit → σ → Prop} {R : Unit → τ → Prop} :
    ∀ {p : Prog E Unit} {s : σ × (ι → Calls E)}, Safe (M.world (.none M) C i) Q p s.1 →
      Safe (observe post allowed) R p ((s.2 i).foldl post begun) →
      Safe ((recorded M).world (.none _) (watched C post allowed begun) i)
        (fun a s => Q a s.1) p s := by
  intro p
  induction p with
  | ret a =>
    intro s h _ s' hs
    exact h s'.1 (others_star hs).1
  | call c k ih =>
    intro s h h' s' hs
    obtain ⟨hstar, hmem⟩ := others_star hs
    obtain ⟨hc, hk⟩ := h s'.1 hstar
    obtain ⟨hc', hk'⟩ := safe_observe_call.mp h'
    rw [← hmem] at hc' hk'
    refine ⟨⟨hc, hc'⟩, fun a t ⟨hinv, ch, _, ht⟩ => ?_⟩
    obtain ⟨hserve, hafter⟩ := serve_recorded ht
    refine ih a (hk a t.1 ⟨hinv, ch, trivial, hserve⟩) ?_
    rw [hafter, remember_self, List.foldl_append]
    exact hk' a

/-- **The rule for recorded machines.** -/
theorem recorded_guarded (O : Guarded M (.none M) C)
    (hstart : ∀ i t s p s', M.start i t s = some (p, s') → ∀ g,
      Safe (observe post allowed) (fun _ _ => True) p g) :
    Guarded (recorded M) (.none _) (watched C post allowed begun) where
  serve i c ch s a s' hinv _ hc h := O.serve i c ch s.1 a s'.1 hinv trivial hc.1 (serve_recorded h).1
  event e s s' hinv _ h := O.event e s.1 s'.1 hinv trivial (event_recorded h).1
  start i t s p s' hinv h := O.start i t s.1 p s'.1 hinv (start_recorded h).1
  restart r s s' hinv _ h := by
    obtain ⟨hi, hrest⟩ := O.restart r s.1 s'.1 hinv trivial (restart_recorded h).1
    have hret : ∀ g : τ, Safe (observe post allowed) (fun _ _ => True) (.ret () : Prog E Unit) g :=
      fun _ => safe_observe_ret.mpr trivial
    exact ⟨hi, fun i => safe_recorded (hrest i) (hret _)⟩
  program i t s p s' hinv hrest h := by
    obtain ⟨hs, -⟩ := start_recorded h
    exact safe_recorded (O.program i t s.1 p s'.1 hinv hrest hs) (hstart i t s.1 p s'.1 hs _)

end Observed

end PrinterDriver.Lib.Recording
