import PrinterDriver.Lib.Programs
import Mathlib.Logic.Function.Basic

/-! # Machines: threads that run programs over a shared state

A machine has threads, each running one program after another over a state they share. It moves by
serving the pending call of one thread, by an event of the environment, by starting a program on an
idle thread, or by a restart, which ends every thread. All moves are executable (`step`), so that
a run can be replayed; what a call answers, beyond what the state decides, is a `Choice`.

A `Guard` is a condition on every move of a run. `Guarded.reach` is the rule for machines: if every
program that may be started is safe under the interference of the others, then in every run whose
moves meet the guard every thread stays safe, and so makes only allowed calls. -/

namespace PrinterDriver.Lib.Threads

open Relation PrinterDriver.Lib.Programs

/-- A machine, by the functions that move it; `none` is a move that is not possible. -/
structure Machine (E : Interface) (ι σ : Type) where
  Choice : Type
  Event : Type
  Task : Type
  Restart : Type
  serve : ι → (c : E.Call) → Choice → σ → Option (E.Answer c × σ)
  event : Event → σ → Option σ
  start : ι → Task → σ → Option (Prog E Unit × σ)
  restart : Restart → σ → Option σ

variable {E : Interface} {ι σ : Type}

/-- What every thread is still to do, and the shared state. -/
structure Config (E : Interface) (ι σ : Type) where
  prog : ι → Prog E Unit
  state : σ

namespace Machine

/-- One move. -/
inductive Move (M : Machine E ι σ) where
  | serve (i : ι) (ch : M.Choice)
  | event (e : M.Event)
  | start (i : ι) (t : M.Task)
  | restart (r : M.Restart)

/-- All threads idle. -/
def idle (s : σ) : Config E ι σ := ⟨fun _ => .ret (), s⟩

/-- A condition on the moves of a run, each in the state before it. -/
structure Guard (M : Machine E ι σ) where
  serve : ι → (c : E.Call) → M.Choice → σ → Prop := fun _ _ _ _ => True
  event : M.Event → σ → Prop := fun _ _ => True
  restart : M.Restart → σ → Prop := fun _ _ => True

/-- The guard that every move meets. -/
def Guard.none (M : Machine E ι σ) : M.Guard := {}

/-- The move meets the guard. -/
def Guard.Meets {M : Machine E ι σ} (G : M.Guard) : M.Move → Config E ι σ → Prop
  | .serve i ch, cfg =>
    match cfg.prog i with
    | .ret _ => True
    | .call c _ => G.serve i c ch cfg.state
  | .event e, cfg => G.event e cfg.state
  | .start _ _, _ => True
  | .restart r, cfg => G.restart r cfg.state

theorem Guard.none_meets {M : Machine E ι σ} (m : M.Move) (cfg : Config E ι σ) :
    (Guard.none M).Meets m cfg := by
  cases m with
  | serve i ch =>
    simp only [Guard.Meets]
    split <;> trivial
  | event e | start i t | restart r => trivial

variable [DecidableEq ι]

/-- The configuration after a move. -/
def step (M : Machine E ι σ) : M.Move → Config E ι σ → Option (Config E ι σ)
  | .serve i ch, cfg =>
    match cfg.prog i with
    | .ret _ => none
    | .call c k => (M.serve i c ch cfg.state).map fun r => ⟨Function.update cfg.prog i (k r.1), r.2⟩
  | .event e, cfg => (M.event e cfg.state).map fun s => ⟨cfg.prog, s⟩
  | .start i t, cfg =>
    match cfg.prog i with
    | .ret _ => (M.start i t cfg.state).map fun r => ⟨Function.update cfg.prog i r.1, r.2⟩
    | .call _ _ => none
  | .restart r, cfg => (M.restart r cfg.state).map idle

/-- The configurations of the runs whose moves all meet the guard. -/
inductive Reach (M : Machine E ι σ) (G : M.Guard) (init : σ) : Config E ι σ → Prop
  | init : Reach M G init (idle init)
  | step {cfg cfg' : Config E ι σ} (m : M.Move) (h : Reach M G init cfg) (hm : G.Meets m cfg)
      (hs : M.step m cfg = some cfg') : Reach M G init cfg'

theorem serve_eq_some {M : Machine E ι σ} {i : ι} {ch : M.Choice} {cfg cfg' : Config E ι σ}
    (h : M.step (.serve i ch) cfg = some cfg') :
    ∃ c k a s', cfg.prog i = .call c k ∧ M.serve i c ch cfg.state = some (a, s') ∧
      cfg' = ⟨Function.update cfg.prog i (k a), s'⟩ := by
  unfold step at h
  cases hp : cfg.prog i with
  | ret a => simp [hp] at h
  | call c k =>
    simp only [hp] at h
    obtain ⟨⟨a, s'⟩, ha, rfl⟩ := Option.map_eq_some_iff.mp h
    exact ⟨c, k, a, s', rfl, ha, rfl⟩

theorem start_eq_some {M : Machine E ι σ} {i : ι} {t : M.Task} {cfg cfg' : Config E ι σ}
    (h : M.step (.start i t) cfg = some cfg') :
    ∃ p s', cfg.prog i = .ret () ∧ M.start i t cfg.state = some (p, s') ∧
      cfg' = ⟨Function.update cfg.prog i p, s'⟩ := by
  unfold step at h
  cases hp : cfg.prog i with
  | call c k => simp [hp] at h
  | ret a =>
    simp only [hp] at h
    obtain ⟨⟨p, s'⟩, ha, rfl⟩ := Option.map_eq_some_iff.mp h
    exact ⟨p, s', rfl, ha, rfl⟩

/-- What every move that meets the guard keeps of the shared state, whatever the threads are at,
holds throughout. -/
theorem Reach.keeps {M : Machine E ι σ} {G : M.Guard} {I : σ → Prop} {init : σ} (h0 : I init)
    (serve : ∀ i c ch s a s', I s → G.serve i c ch s → M.serve i c ch s = some (a, s') → I s')
    (event : ∀ e s s', I s → G.event e s → M.event e s = some s' → I s')
    (start : ∀ i t s p s', I s → M.start i t s = some (p, s') → I s')
    (restart : ∀ r s s', I s → G.restart r s → M.restart r s = some s' → I s')
    {cfg : Config E ι σ} (h : Reach M G init cfg) : I cfg.state := by
  induction h with
  | init => exact h0
  | step m _ hm hs ih =>
    cases m with
    | serve i ch =>
      obtain ⟨c, k, a, s', hp, ha, rfl⟩ := serve_eq_some hs
      simp only [Guard.Meets, hp] at hm
      exact serve i c ch _ a s' ih hm ha
    | event e =>
      obtain ⟨s', he, rfl⟩ := Option.map_eq_some_iff.mp hs
      exact event e _ s' ih hm he
    | start i t =>
      obtain ⟨p, s', -, ha, rfl⟩ := start_eq_some hs
      exact start i t _ p s' ih ha
    | restart r =>
      obtain ⟨s', hr, rfl⟩ := Option.map_eq_some_iff.mp hs
      exact restart r _ s' ih hm hr

/-! ### Replaying a run -/

instance {M : Machine E ι σ} {G : M.Guard} [∀ i c ch s, Decidable (G.serve i c ch s)]
    [∀ e s, Decidable (G.event e s)] [∀ r s, Decidable (G.restart r s)] :
    ∀ (m : M.Move) (cfg : Config E ι σ), Decidable (G.Meets m cfg)
  | .serve i ch, cfg =>
    match hp : cfg.prog i with
    | .ret _ => .isTrue (by simp [Guard.Meets, hp])
    | .call c _ => decidable_of_iff (G.serve i c ch cfg.state) (by simp [Guard.Meets, hp])
  | .event e, cfg => inferInstanceAs (Decidable (G.event e cfg.state))
  | .start _ _, _ => .isTrue trivial
  | .restart r, cfg => inferInstanceAs (Decidable (G.restart r cfg.state))

instance {M : Machine E ι σ} (i : ι) (c : E.Call) (ch : M.Choice) (s : σ) :
    Decidable ((Guard.none M).serve i c ch s) := .isTrue trivial

instance {M : Machine E ι σ} (e : M.Event) (s : σ) : Decidable ((Guard.none M).event e s) :=
  .isTrue trivial

instance {M : Machine E ι σ} (r : M.Restart) (s : σ) : Decidable ((Guard.none M).restart r s) :=
  .isTrue trivial

section Replay
variable {M : Machine E ι σ} (G : M.Guard) [∀ m cfg, Decidable (G.Meets m cfg)]

/-- The configuration after a list of moves, if all of them are possible and meet the guard. -/
def replay : List M.Move → Config E ι σ → Option (Config E ι σ)
  | [], cfg => some cfg
  | m :: ms, cfg => if G.Meets m cfg then (M.step m cfg).bind (replay ms) else none

/-- The call that a thread is about to make after a list of moves, and the state. -/
def pending (ms : List M.Move) (init : σ) (i : ι) : Option (E.Call × σ) :=
  (replay G ms (idle init)).bind fun cfg =>
    match cfg.prog i with
    | .ret _ => none
    | .call c _ => some (c, cfg.state)

variable {G}

theorem reach_of_replay {init : σ} : ∀ {ms : List M.Move} {cfg cfg' : Config E ι σ},
    Reach M G init cfg → replay G ms cfg = some cfg' → Reach M G init cfg'
  | [], _, _, h, hr => by
    cases hr
    exact h
  | m :: ms, cfg, cfg', h, hr => by
    by_cases hm : G.Meets m cfg
    · rw [replay, if_pos hm] at hr
      obtain ⟨mid, hs, hrest⟩ := Option.bind_eq_some_iff.mp hr
      exact reach_of_replay (h.step m hm hs) hrest
    · rw [replay, if_neg hm] at hr
      cases hr

/-- A guard changes nothing about where the moves lead. -/
theorem replay_none : ∀ {ms : List M.Move} {cfg cfg' : Config E ι σ},
    replay G ms cfg = some cfg' → replay (.none M) ms cfg = some cfg'
  | [], _, _, h => h
  | m :: ms, cfg, cfg', h => by
    by_cases hm : G.Meets m cfg
    · rw [replay, if_pos hm] at h
      rw [replay, if_pos (Guard.none_meets m cfg)]
      obtain ⟨mid, hs, hrest⟩ := Option.bind_eq_some_iff.mp h
      exact Option.bind_eq_some_iff.mpr ⟨mid, hs, replay_none hrest⟩
    · rw [replay, if_neg hm] at h
      cases h

/-- Where a list of moves leads that are all possible and meet the guard. -/
theorem reach_of_isSome {init : σ} {ms : List M.Move}
    (h : (replay G ms (idle init)).isSome = true) :
    Reach M G init ((replay (.none M) ms (idle init)).getD (idle init)) := by
  obtain ⟨cfg, hr⟩ := Option.isSome_iff_exists.mp h
  rw [replay_none hr]
  exact reach_of_replay .init hr

/-- What is observed of a replayed run is observed of a reached configuration. -/
theorem reach_of_pending {β : Type} {init : σ} {ms : List M.Move} {i : ι} {f : E.Call × σ → β}
    {b : β} (h : (pending G ms init i).map f = some b) :
    ∃ cfg c k, Reach M G init cfg ∧ cfg.prog i = .call c k ∧ f (c, cfg.state) = b := by
  obtain ⟨⟨c, s⟩, hp, hf⟩ := Option.map_eq_some_iff.mp h
  obtain ⟨cfg, hr, hc⟩ := Option.bind_eq_some_iff.mp hp
  split at hc
  · cases hc
  next k hk =>
    cases hc
    exact ⟨cfg, c, k, reach_of_replay .init hr, hk, hf⟩

end Replay

section Drive
variable {M : Machine E ι σ}

/-- The calls of a thread, answered one after another. -/
def drive (M : Machine E ι σ) (i : ι) :
    List M.Choice → Prog E Unit → σ → Option (Prog E Unit × σ)
  | [], p, s => some (p, s)
  | _ :: _, .ret _, _ => none
  | ch :: chs, .call c k, s => (M.serve i c ch s).bind fun r => drive M i chs (k r.1) r.2

/-- A thread may be driven from every configuration reached; the others wait. -/
theorem reach_of_drive {init : σ} {i : ι} : ∀ {chs : List M.Choice} {cfg : Config E ι σ}
    {p : Prog E Unit} {s : σ}, Reach M (.none M) init cfg →
    drive M i chs (cfg.prog i) cfg.state = some (p, s) →
      ∃ cfg', Reach M (.none M) init cfg' ∧ cfg'.prog i = p ∧ cfg'.state = s ∧
        ∀ j, j ≠ i → cfg'.prog j = cfg.prog j
  | [], cfg, p, s, h, hd => by
    cases hd
    exact ⟨cfg, h, rfl, rfl, fun _ _ => rfl⟩
  | ch :: chs, cfg, p, s, h, hd => by
    cases hp : cfg.prog i with
    | ret a => simp [drive, hp] at hd
    | call c k =>
      rw [hp] at hd
      obtain ⟨⟨a, s'⟩, hs, hd⟩ := Option.bind_eq_some_iff.mp hd
      have hstep : M.step (.serve i ch) cfg = some ⟨Function.update cfg.prog i (k a), s'⟩ := by
        simp [step, hp, hs]
      have hrest : drive M i chs (Function.update cfg.prog i (k a) i) s' = some (p, s) := by
        simpa using hd
      obtain ⟨cfg', hr, hp', hs', ho⟩ := reach_of_drive (h.step _ (Guard.none_meets _ _) hstep) hrest
      exact ⟨cfg', hr, hp', hs', fun j hj => (ho j hj).trans (by simp [hj])⟩

end Drive

/-- What the proof of a machine's safety names: the invariant of the shared state (`inv`), what
holds of a thread between two programs (`rest`), and which calls are allowed when. -/
structure Contract (E : Interface) (ι σ : Type) where
  inv : σ → Prop := fun _ => True
  rest : ι → σ → Prop
  allowed : ι → E.Call → σ → Prop := fun _ _ _ => True

/-- The moves of the machine that are not thread `i`'s own. -/
inductive Others (M : Machine E ι σ) (G : M.Guard) (C : Contract E ι σ) (i : ι) : σ → σ → Prop
  | event {s s' : σ} (e : M.Event) (hi : C.inv s) (hg : G.event e s) (h : M.event e s = some s') :
      Others M G C i s s'
  | serve {s s' : σ} (j : ι) (hj : j ≠ i) (c : E.Call) (ch : M.Choice) (a : E.Answer c)
      (hi : C.inv s) (hg : G.serve j c ch s) (ha : C.allowed j c s)
      (h : M.serve j c ch s = some (a, s')) : Others M G C i s s'
  | start {s s' : σ} (j : ι) (hj : j ≠ i) (t : M.Task) (p : Prog E Unit) (hi : C.inv s)
      (h : M.start j t s = some (p, s')) : Others M G C i s s'

/-- The world of thread `i`. -/
def world (M : Machine E ι σ) (G : M.Guard) (C : Contract E ι σ) (i : ι) : World E σ where
  answers c s a s' := C.inv s ∧ ∃ ch, G.serve i c ch s ∧ M.serve i c ch s = some (a, s')
  others := Others M G C i
  allowed := C.allowed i

/-- The obligations of a machine's proof. -/
structure Guarded (M : Machine E ι σ) (G : M.Guard) (C : Contract E ι σ) : Prop where
  /-- Allowed calls keep the invariant. -/
  serve : ∀ i c ch s a s', C.inv s → G.serve i c ch s → C.allowed i c s →
    M.serve i c ch s = some (a, s') → C.inv s'
  event : ∀ e s s', C.inv s → G.event e s → M.event e s = some s' → C.inv s'
  start : ∀ i t s p s', C.inv s → M.start i t s = some (p, s') → C.inv s'
  /-- A restart leaves every thread at rest. -/
  restart : ∀ r s s', C.inv s → G.restart r s → M.restart r s = some s' →
    C.inv s' ∧ ∀ i, Safe (M.world G C i) (fun _ => C.rest i) (.ret ()) s'
  /-- A program that is started is safe and ends at rest. -/
  program : ∀ i t s p s', C.inv s → C.rest i s → M.start i t s = some (p, s') →
    Safe (M.world G C i) (fun _ => C.rest i) p s'

/-- Every thread is safe. -/
def Good (M : Machine E ι σ) (G : M.Guard) (C : Contract E ι σ) (cfg : Config E ι σ) : Prop :=
  C.inv cfg.state ∧ ∀ i, Safe (M.world G C i) (fun _ => C.rest i) (cfg.prog i) cfg.state

section Run
variable {M : Machine E ι σ} {G : M.Guard} {C : Contract E ι σ}

/-- What a move of thread `i` leaves: its program is what it says, and to the other threads the
move was interference. -/
theorem Good.update {cfg : Config E ι σ} {s' : σ} {i : ι} {p : Prog E Unit} (h : Good M G C cfg)
    (hinv : C.inv s') (hp : Safe (M.world G C i) (fun _ => C.rest i) p s')
    (ho : ∀ j, i ≠ j → Others M G C j cfg.state s') :
    Good M G C ⟨Function.update cfg.prog i p, s'⟩ := by
  refine ⟨hinv, fun j => ?_⟩
  by_cases hj : j = i
  · subst hj
    simpa using hp
  · simpa [hj] using (h.2 j).others (ho j (Ne.symm hj))

/-- A move that meets the guard keeps every thread safe. -/
theorem Good.step (O : Guarded M G C) {cfg cfg' : Config E ι σ} {m : M.Move}
    (h : Good M G C cfg) (hm : G.Meets m cfg) (hs : M.step m cfg = some cfg') :
    Good M G C cfg' := by
  cases m with
  | serve i ch =>
    obtain ⟨c, k, a, s', hp, ha, rfl⟩ := serve_eq_some hs
    have hi := hp ▸ h.2 i
    simp only [Guard.Meets, hp] at hm
    refine h.update (O.serve i c ch _ a s' h.1 hm hi.allowed ha)
      (hi.answer ⟨h.1, ch, hm, ha⟩) fun j hj => ?_
    exact .serve i hj c ch a h.1 hm hi.allowed ha
  | event e =>
    obtain ⟨s', he, rfl⟩ := Option.map_eq_some_iff.mp hs
    exact ⟨O.event e _ _ h.1 hm he, fun i => (h.2 i).others (.event e h.1 hm he)⟩
  | start i t =>
    obtain ⟨p, s', hp, ha, rfl⟩ := start_eq_some hs
    refine h.update (O.start i t _ p s' h.1 ha) (O.program i t _ p s' h.1 (hp ▸ h.2 i).ret ha)
      fun j hj => ?_
    exact .start i hj t p h.1 ha
  | restart r =>
    obtain ⟨s', hr, rfl⟩ := Option.map_eq_some_iff.mp hs
    exact O.restart r _ _ h.1 hm hr

/-- **The rule for machines.** -/
theorem Guarded.reach (O : Guarded M G C) {init : σ} (h0 : C.inv init)
    (hi : ∀ i, Safe (M.world G C i) (fun _ => C.rest i) (.ret ()) init) {cfg : Config E ι σ}
    (h : Reach M G init cfg) : Good M G C cfg := by
  induction h with
  | init => exact ⟨h0, hi⟩
  | step m _ hm hs ih => exact ih.step O hm hs

/-- In a run that meets the guard every pending call is allowed. -/
theorem Guarded.allowed (O : Guarded M G C) {init : σ} (h0 : C.inv init)
    (hi : ∀ i, Safe (M.world G C i) (fun _ => C.rest i) (.ret ()) init) {cfg : Config E ι σ}
    (h : Reach M G init cfg) {i : ι} {c : E.Call} {k : E.Answer c → Prog E Unit}
    (hc : cfg.prog i = .call c k) : C.allowed i c cfg.state := by
  have hs := (O.reach h0 hi h).2 i
  rw [hc] at hs
  exact hs.allowed

/-- A guard of the runs takes nothing from the safety of the threads. -/
theorem Guarded.good (O : Guarded M (.none M) C) {init : σ} (h0 : C.inv init)
    (hi : ∀ i, Safe (M.world (.none M) C i) (fun _ => C.rest i) (.ret ()) init) {G : M.Guard}
    {cfg : Config E ι σ} (h : Reach M G init cfg) : Good M (.none M) C cfg := by
  induction h with
  | init => exact ⟨h0, hi⟩
  | step m _ _ hs ih => exact ih.step O (Guard.none_meets m _) hs

/-- **A further invariant of a machine.** In the runs that meet a guard of their own, what every move
keeps as long as the calls are allowed and what is known of these runs holds, holds throughout. -/
theorem Guarded.further (O : Guarded M (.none M) C) {init : σ} (h0 : C.inv init)
    (hi : ∀ i, Safe (M.world (.none M) C i) (fun _ => C.rest i) (.ret ()) init) {G : M.Guard}
    {J I : σ → Prop} (hJ : ∀ {cfg : Config E ι σ}, Reach M G init cfg → J cfg.state) (hI : I init)
    (serve : ∀ i c ch s a s', J s → I s → C.allowed i c s → G.serve i c ch s →
      M.serve i c ch s = some (a, s') → I s')
    (event : ∀ e s s', J s → I s → G.event e s → M.event e s = some s' → I s')
    (start : ∀ i t s p s', J s → I s → C.rest i s → M.start i t s = some (p, s') → I s')
    (restart : ∀ r s s', J s → I s → G.restart r s → M.restart r s = some s' → I s')
    {cfg : Config E ι σ} (h : Reach M G init cfg) : I cfg.state := by
  induction h with
  | init => exact hI
  | step m hreach hm hs ih =>
    have hgood := O.good h0 hi hreach
    have hj := hJ hreach
    cases m with
    | serve i ch =>
      obtain ⟨c, k, a, s', hp, ha, rfl⟩ := serve_eq_some hs
      simp only [Guard.Meets, hp] at hm
      exact serve i c ch _ a s' hj ih (hp ▸ hgood.2 i).allowed hm ha
    | event e =>
      obtain ⟨s', he, rfl⟩ := Option.map_eq_some_iff.mp hs
      exact event e _ s' hj ih hm he
    | start i t =>
      obtain ⟨p, s', hp, ha, rfl⟩ := start_eq_some hs
      exact start i t _ p s' hj ih (hp ▸ hgood.2 i).ret ha
    | restart r =>
      obtain ⟨s', hr, rfl⟩ := Option.map_eq_some_iff.mp hs
      exact restart r _ s' hj ih hm hr

/-- The same with nothing known but the invariant of the contract. -/
theorem Guarded.invariant (O : Guarded M (.none M) C) {init : σ} (h0 : C.inv init)
    (hi : ∀ i, Safe (M.world (.none M) C i) (fun _ => C.rest i) (.ret ()) init) {G : M.Guard}
    {I : σ → Prop} (hI : I init)
    (serve : ∀ i c ch s a s', C.inv s → I s → C.allowed i c s → G.serve i c ch s →
      M.serve i c ch s = some (a, s') → I s')
    (event : ∀ e s s', C.inv s → I s → G.event e s → M.event e s = some s' → I s')
    (start : ∀ i t s p s', C.inv s → I s → C.rest i s → M.start i t s = some (p, s') → I s')
    (restart : ∀ r s s', C.inv s → I s → G.restart r s → M.restart r s = some s' → I s')
    {cfg : Config E ι σ} (h : Reach M G init cfg) :
    Good M (.none M) C cfg ∧ I cfg.state :=
  ⟨O.good h0 hi h, O.further h0 hi (fun h => (O.good h0 hi h).1) hI serve event start restart h⟩

end Run

end Machine

end PrinterDriver.Lib.Threads
