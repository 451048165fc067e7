import PrinterDriver.Lib.Recording
import PrinterDriver.Engine.DriverRuns

/-! # What callers may do besides

In `driver` a job that is handed over has no task yet, and an append that fails ends the process.
`submitReserved` looks at nothing but whether the job is over, so that a job may be handed over again
while it is queued or at work, and is then run again; and an append that fails in the thread of a
caller throws to a caller who goes on, with a part of its line in the file. `openDriver` has these
moves too. Its runs that have neither are those of the driver (`reached_of_regular`).

The tasks of a job run one after the other, as on one worker. -/

namespace PrinterDriver.Engine.OpenDriver

open PrinterDriver.Lib.Programs PrinterDriver.Lib.Threads PrinterDriver.Lib.Simulations
  PrinterDriver.Lib.Recording PrinterDriver.Core.Types PrinterDriver.Core.Store
  PrinterDriver.Core.StoreRuns PrinterDriver.Engine.Ops PrinterDriver.Engine.RunJob
  PrinterDriver.Engine.Lifecycle PrinterDriver.Engine.Driver

open Machine State

/-- The driver, and the tasks that were pushed for a job besides its first. -/
structure OpenState where
  base : State
  again : Bytes → List Task := fun _ => []

/-- An event of the driver, or an append that fails in the thread of a caller, with `n` bytes of its
line in the file. -/
inductive OpenEvent where
  | base (e : Event)
  | appendFails (op : StoreOp) (n : ℕ)

namespace OpenState

/-- A task for a job that has one: it is pushed, and the entry of the key has the payload. -/
def push (s : OpenState) (id : Bytes) (p : Job) (payload : Payload) (options : JobOptions) :
    OpenState where
  base := { s.base with
    prior := none
    byKey := Function.update s.base.byKey p.key
      ((s.base.byKey p.key).map (JobEntry.setPayload payload)) }
  again := Function.update s.again id (s.again id ++ [⟨payload, options, 1, false⟩])

/-- `submitReserved` of a job, which only has to be unfinished. -/
def submitReserved (s : OpenState) (id : Bytes) (payload : Payload) (options : JobOptions) :
    Option OpenState :=
  (s.base.jobs id).bind fun p =>
    if p.isTerminal ∨ p.phase = .reserved ∨ p.phase = .held then
      (driver.event (.submitReserved id payload options) s.base).map fun t => { s with base := t }
    else some (s.push id p payload options)

def event (s : OpenState) : OpenEvent → Option OpenState
  | .base (.submitReserved id payload options) => s.submitReserved id payload options
  | .base e => (driver.event e s.base).map fun t => { s with base := t }
  | .appendFails op n => some
      { s with base := { s.base with prior := none, store := (op.apply s.base.store (some n)).2 } }

/-- The next task of a job whose thread is done with the one before: it is run, or cancelled. -/
def beginAgain (s : OpenState) (id : Bytes) (w : Work) : Option (Prog Worker Unit × OpenState) :=
  (s.base.jobs id).bind fun p =>
    match s.again id with
    | [] => none
    | t :: ts =>
      if p.phase ≠ .taken then none
      else match w with
        | .run j =>
          if t.Fits id p j then
            some (j.runJob,
              { base := { s.base with
                  prior := none
                  trails := Function.update s.base.trails id ((s.base.trails id).begin j) }
                again := Function.update s.again id ts })
          else none
        | .giveUp reason =>
          if reason = .transportUnreachable ∨ reason = .unknown then
            some (terminate id .failedKnown (JobResult.failed reason),
              { base := { s.base with prior := none }, again := Function.update s.again id ts })
          else none
        | .hold => none

def start (s : OpenState) (id : Bytes) (w : Work) : Option (Prog Worker Unit × OpenState) :=
  match driver.start id w s.base with
  | some r => some (r.1, { s with base := r.2 })
  | none => s.beginAgain id w

end OpenState

/-- The driver with all that its callers may do; the tasks of a process die with it. -/
def openDriver : Machine Worker Bytes OpenState where
  Choice := Choice
  Event := OpenEvent
  Task := Work
  Restart := Restart
  serve id c ch s := (driver.serve id c ch s.base).map fun r => (r.1, { s with base := r.2 })
  event e s := s.event e
  start id w s := s.start id w
  restart r s := (driver.restart r s.base).map fun t => { base := t }

/-- The first process, on an empty directory. -/
def openFirst (nonce : Bytes) : OpenState := { base := first nonce }

/-- A job is handed over once: `submitReserved` is given none that has a task and is not over. -/
def HandedOnce : Event → State → Prop
  | .submitReserved id _ _, s =>
    ∀ p ∈ s.jobs id, p.isTerminal = true ∨ p.phase = .reserved ∨ p.phase = .held
  | _, _ => True

/-- No append fails in a process that goes on. -/
def lossless : openDriver.Guard where
  event
    | .base _, _ => True
    | .appendFails _ _, _ => False

/-- Every job is handed over once, no append fails in a process that goes on, and a guard of the
driver is met. -/
def regular (G : driver.Guard) : openDriver.Guard where
  serve i c ch s := G.serve i c ch s.base
  event
    | .base e, s => HandedOnce e s.base ∧ G.event e s.base
    | .appendFails _ _, _ => False
  restart r s := G.restart r s.base

/-- The configurations of the runs of the open driver whose moves all meet the guard. -/
abbrev OpenReached (G : openDriver.Guard) (nonce : Bytes) : Config Worker Bytes OpenState → Prop :=
  openDriver.Reach G (openFirst nonce)

/-- Those of the runs that are remembered. -/
abbrev OpenRemembered (G : openDriver.Guard) (nonce : Bytes) :
    Config Worker Bytes (OpenState × (Bytes → Calls Worker)) → Prop :=
  (recorded openDriver).Reach (remembering G) (openFirst nonce, fun _ => [])

/-! ### Regular runs -/

/-- No job has a second task. -/
def Single (s : OpenState) : Prop := ∀ id, s.again id = []

section Regular
variable {s s' : OpenState} {id : Bytes}

theorem event_of_handedOnce {e : Event} (ho : HandedOnce e s.base)
    (h : s.event (.base e) = some s') :
    driver.event e s.base = some s'.base ∧ s'.again = s.again := by
  have hplain : (driver.event e s.base).map (fun t => { s with base := t }) = some s' →
      driver.event e s.base = some s'.base ∧ s'.again = s.again := by
    intro hm
    obtain ⟨t, ht, rfl⟩ := Option.map_eq_some_iff.mp hm
    exact ⟨ht, rfl⟩
  cases e with
  | submit r d => exact hplain h
  | reserve printerId key kind bytes d => exact hplain h
  | submitReserved id payload options =>
    obtain ⟨p, hp, h⟩ := Option.bind_eq_some_iff.mp h
    rw [if_pos (ho p hp)] at h
    exact hplain h

theorem start_of_single {w : Work} {p : Prog Worker Unit} (hs : Single s)
    (h : s.start id w = some (p, s')) :
    driver.start id w s.base = some (p, s'.base) ∧ s'.again = s.again := by
  unfold OpenState.start at h
  cases hd : driver.start id w s.base with
  | some r =>
    rw [hd] at h
    obtain ⟨rfl, rfl⟩ := Prod.mk.inj (Option.some.inj h)
    exact ⟨rfl, rfl⟩
  | none =>
    rw [hd] at h
    obtain ⟨q, -, h⟩ := Option.bind_eq_some_iff.mp h
    rw [hs id] at h
    cases h

/-- The open driver follows the driver as long as its moves are regular. -/
theorem follows_driver (G : driver.Guard) :
    Follows openDriver driver (regular G) G OpenState.base Single where
  serve i c ch s a s' hi hg h := by
    obtain ⟨⟨b, t⟩, ht, he⟩ := Option.map_eq_some_iff.mp h
    obtain ⟨rfl, rfl⟩ := Prod.mk.inj he
    exact ⟨hi, ch, hg, ht⟩
  event e s s' hi hg h := by
    cases e with
    | base e =>
      obtain ⟨he, hagain⟩ := event_of_handedOnce hg.1 h
      refine ⟨fun id => ?_, e, hg.2, he⟩
      rw [hagain, hi]
    | appendFails op n => exact absurd hg not_false
  start i w s p s' hi h := by
    obtain ⟨hb, hagain⟩ := start_of_single hi h
    refine ⟨fun id => ?_, w, hb⟩
    rw [hagain, hi]
  restart r s s' _ hg h := by
    obtain ⟨t, ht, rfl⟩ := Option.map_eq_some_iff.mp h
    exact ⟨fun _ => rfl, r, hg, ht⟩

/-- **A regular run is a run of the driver.** -/
theorem reached_of_regular {G : driver.Guard} {nonce : Bytes} {cfg : Config Worker Bytes OpenState}
    (h : OpenReached (regular G) nonce cfg) :
    Single cfg.state ∧ Reached G nonce (image OpenState.base cfg) :=
  (follows_driver G).reach (fun _ => rfl) h

end Regular

/-! ### Replaying a run -/

instance (e : Event) (s : State) : Decidable (HandedOnce e s) := by
  unfold HandedOnce
  split <;> infer_instance

section Decide
variable {G : driver.Guard} [serve : ∀ i c ch s, Decidable (G.serve i c ch s)]
  [event : ∀ e s, Decidable (G.event e s)] [restart : ∀ r s, Decidable (G.restart r s)]

instance (i : Bytes) (c : Call) (ch : openDriver.Choice) (s : OpenState) :
    Decidable ((regular G).serve i c ch s) := serve i c ch s.base

instance : ∀ (e : openDriver.Event) (s : OpenState), Decidable ((regular G).event e s)
  | .base e, s => @instDecidableAnd _ _ _ (event e s.base)
  | .appendFails _ _, _ => isFalse not_false

instance (r : openDriver.Restart) (s : OpenState) : Decidable ((regular G).restart r s) :=
  restart r s.base

end Decide

instance (i : Bytes) (c : Call) (ch : openDriver.Choice) (s : OpenState) :
    Decidable (lossless.serve i c ch s) := isTrue trivial

instance : ∀ (e : openDriver.Event) (s : OpenState), Decidable (lossless.event e s)
  | .base _, _ => isTrue trivial
  | .appendFails _ _, _ => isFalse not_false

instance (r : openDriver.Restart) (s : OpenState) : Decidable (lossless.restart r s) :=
  isTrue trivial

/-- A move of the driver. -/
def openMove : driver.Move → openDriver.Move
  | .serve i ch => .serve i ch
  | .event e => .event (.base e)
  | .start i w => .start i w
  | .restart r => .restart r

/-- Where a list of moves leads. -/
def openAfter (moves : List openDriver.Move) : Config Worker Bytes OpenState :=
  (replay (.none openDriver) moves (idle (openFirst (str "Q7")))).getD (idle (openFirst (str "Q7")))

theorem openReached_after {G : openDriver.Guard} [∀ m cfg, Decidable (G.Meets m cfg)]
    {moves : List openDriver.Move}
    (h : (replay G moves (idle (openFirst (str "Q7")))).isSome = true) :
    OpenReached G (str "Q7") (openAfter moves) :=
  reach_of_isSome h

end PrinterDriver.Engine.OpenDriver
