import PrinterDriver.Engine.DrawerSafety
import PrinterDriver.Engine.Verdicts

/-! # The cooldown of the solenoid

The worker of a printer serves one request after the other, on a clock that does not go back. Each
write of a byte of a drawer command is a `Pulse` with its time; the writes of one command are one
pulse. `openDrawer` sleeps out the cooldown of the pulse that it has noted last, and notes its own
when it is written; `openCashDrawer` and the jobs do neither.

`spaced_of_gentle`: as long as only `openDrawer` fires the port, two pulses are never closer than
the cooldown, at no moment of any run. -/

namespace PrinterDriver.Engine.Cooldown

open PrinterDriver.Lib.Programs PrinterDriver.Core.Types PrinterDriver.Core.CashDrawer
  PrinterDriver.Engine.Io PrinterDriver.Engine.Ops PrinterDriver.Engine.RunJob
  PrinterDriver.Engine.Accounting PrinterDriver.Engine.Drawer PrinterDriver.Engine.DrawerSafety
  PrinterDriver.Engine.Verdicts

open Prog

/-! ### The worker and its clock -/

/-- A request on the worker of the printer. -/
inductive Task (Copy : Type) where
  | openDrawer (d : DrawerRun) (stopping : Bool)
  | openCashDrawer (p : Capability) (stopping : Bool)
  | print (p : Capability) (printing : Printing Copy p)

/-- The time is in nanoseconds. -/
structure Pulse where
  task : ℕ
  start : ℕ
  time : ℕ
  deriving DecidableEq, Repr

structure Timeline where
  now : ℕ := 0
  /-- When the last pulse was noted. -/
  last : Option ℕ := none
  /-- A question to the switch is out: what is written is no pulse. -/
  asking : Bool := false
  /-- What the transport has accepted of the task. -/
  ledger : Ledger := {}
  pulses : List Pulse := []

def nanos (ms : UInt16) : ℕ := ms.toNat * 1000000

/-- Two different pulses are the cooldown apart. -/
def Spaced (cooldown : UInt16) (pulses : List Pulse) : Prop :=
  ∀ p ∈ pulses, ∀ q ∈ pulses, (p.task, p.start) ≠ (q.task, q.start) →
    p.time + nanos cooldown ≤ q.time ∨ q.time + nanos cooldown ≤ p.time

namespace Task

variable {Copy : Type}

def program : Task Copy → Prog Peripheral Unit
  | .openDrawer d stopping => if d.accepted stopping then d.openDrawer else .ret ()
  | .openCashDrawer p stopping =>
    if stopping then .ret () else onWorker (openCashDrawerTask p.toCapabilityProfile)
  | .print _ printing => onWorker printing.job.runJob

def cooldown : Task Copy → UInt16
  | .openDrawer d _ => d.caps.kick.cooldownMs
  | .openCashDrawer p _ | .print p _ => p.drawer.kick.cooldownMs

/-- The drawer commands of which a write carries a byte, by where they begin. -/
def strikes (task : Task Copy) (s : Timeline) (part : Part) (data : Bytes) : List ℕ :=
  match task with
  | .openDrawer _ _ => if s.asking then [] else [0]
  | .openCashDrawer _ _ => [0]
  | .print _ r =>
    if part ≠ .payload then []
    else if r.job.profile.drivableByEscposEngine || r.job.custom.isSome then
      (r.pulses (JobRun.printToken s.ledger.tokens)).filter fun start =>
        s.ledger.accepted.length < start + 5 && start < s.ledger.accepted.length + data.length
    else if r.job.profile.drivableByStarEngine && r.starPulses then [0]
    else []

/-- Only `openDrawer` fires the port. -/
def Gentle : Task Copy → Prop
  | .openDrawer _ _ => True
  | .openCashDrawer _ stopping => stopping = true
  | .print p printing => (Deed.print p printing []).Harmless

end Task

namespace Timeline

variable {Copy : Type}

def post (task : Task Copy) (i : ℕ) (s : Timeline) : Verdicts.Entry → Timeline
  | ⟨.worker (.io (.expectQueued _)), _⟩ => { s with asking := true }
  | ⟨.worker (.write part data), sent⟩ =>
    { s with
      pulses := (task.strikes s part data).map (⟨i, ·, s.now⟩) ++ s.pulses
      ledger := s.ledger.post ⟨.write part data, sent⟩ }
  | ⟨.worker c, a⟩ => { s with ledger := s.ledger.post ⟨c, a⟩ }
  | ⟨.awaitAnswer, _⟩ | ⟨.forget, _⟩ => { s with asking := false }
  | ⟨.pulsed, _⟩ => { s with last := some s.now }
  | _ => s

/-- The next task begins. -/
def begin (s : Timeline) : Timeline := { s with asking := false, ledger := {} }

end Timeline

/-- The cooldown of the pulse noted last is slept out. -/
def Slept : PeripheralCall → Option ℕ → ℕ → Prop
  | .coolDown ms, some last, now => last + nanos ms ≤ now
  | _, _, _ => True

section Runs
variable {Copy : Type}

/-- The clock goes on before a call takes effect; apart from that every answer is possible. -/
def timed (cooldown : UInt16) (task : Task Copy) (i : ℕ) : World Peripheral Timeline where
  answers c s a s' := ∃ now, s.now ≤ now ∧ Slept c s.last now ∧
    s' = Timeline.post task i { s with now := now } ⟨c, a⟩
  others _ _ := False
  allowed _ s := Spaced cooldown s.pulses

/-- The worker has served these tasks, in this order. -/
inductive Served (cooldown : UInt16) : List (Task Copy) → Timeline → Prop
  | nil : Served cooldown [] {}
  | task {tasks : List (Task Copy)} {s s' : Timeline} (task : Task Copy)
      (h : Served cooldown tasks s)
      (hrun : Finish (timed cooldown task tasks.length) task.program s.begin () s') :
      Served cooldown (tasks ++ [task]) s'

/-- The moments of a run: the worker is at some call of a task, the ones before it are served. -/
inductive Reached (cooldown : UInt16) : List (Task Copy) → Timeline → Prop
  | within {tasks : List (Task Copy)} {s s' : Timeline} {q : Prog Peripheral Unit}
      (task : Task Copy) (h : Served cooldown tasks s)
      (hrun : Reach (timed cooldown task tasks.length) task.program s.begin q s') :
      Reached cooldown (tasks ++ [task]) s'

end Runs

/-! ### What keeps pulses apart -/

section Calm
variable {Copy : Type} {cooldown : UInt16} {i n : ℕ} {task : Task Copy}

/-- All pulses are apart, belong to earlier tasks and were noted. -/
structure Rested (cooldown : UInt16) (i : ℕ) (s : Timeline) : Prop where
  spaced : Spaced cooldown s.pulses
  earlier : ∀ p ∈ s.pulses, p.task < i
  noted : ∀ p ∈ s.pulses, ∃ last, s.last = some last ∧ p.time ≤ last

theorem Rested.mono {s : Timeline} (h : Rested cooldown i s) (hi : i ≤ n) : Rested cooldown n s :=
  ⟨h.spaced, fun p hp => lt_of_lt_of_le (h.earlier p hp) hi, h.noted⟩

/-- Rested, and whether a question is out. -/
def Calm (cooldown : UInt16) (i : ℕ) (asking : Bool) (s : Timeline) : Prop :=
  Rested cooldown i s ∧ s.asking = asking

theorem stable (P : Timeline → Prop) : Stable (timed cooldown task n) P := fun _ _ _ h => h.elim

/-- A worker's call that writes no pulse. -/
theorem rested_worker {s : Timeline} {c : Call} {a : c.Answer} {now : ℕ}
    (h : Rested cooldown i s)
    (hstrikes : ∀ part data, c = .write part data →
      task.strikes { s with now := now } part data = []) :
    Rested cooldown i (Timeline.post task n { s with now := now } ⟨.worker c, a⟩) := by
  cases c with
  | write part data =>
    refine ⟨?_, ?_, ?_⟩ <;> simp only [Timeline.post, hstrikes part data rfl, List.map_nil,
      List.nil_append]
    exacts [h.spaced, h.earlier, h.noted]
  | io op => cases op <;> exact ⟨h.spaced, h.earlier, h.noted⟩
  | _ => exact ⟨h.spaced, h.earlier, h.noted⟩

end Calm

/-! ### The opening sequence -/

section Opening
variable {Copy : Type} {cooldown : UInt16} {i n : ℕ} {d : DrawerRun} {stopping : Bool}

/-- The calls of the sequence that are not about questions, pulses or the clock. -/
def Idle : PeripheralCall → Prop
  | .worker .ensureConnected | .worker (.io .beginJobIo) | .noteLevel _ | .drawerPin | .coolDown _
  | .overdue | .pause _ | .deliver _ => True
  | _ => False

theorem calm_idle {c : PeripheralCall} (hc : Idle c) {asking : Bool} {s s' : Timeline}
    {a : c.Answer} (h : Calm cooldown i asking s)
    (ha : (timed cooldown (.openDrawer d stopping : Task Copy) n).answers c s a s') :
    Calm cooldown i asking s' := by
  obtain ⟨now, -, -, rfl⟩ := ha
  have h' : Calm cooldown i asking { s with now := now } :=
    ⟨⟨h.1.spaced, h.1.earlier, h.1.noted⟩, h.2⟩
  cases c with
  | worker c =>
    cases c with
    | io op => cases op <;> first | exact h' | exact hc.elim
    | ensureConnected => exact ⟨⟨h.1.spaced, h.1.earlier, h.1.noted⟩, h.2⟩
    | _ => exact hc.elim
  | _ => first | exact h' | exact hc.elim

theorem triple_idle {α : Type} {c : PeripheralCall} (hc : Idle c) {k : c.Answer → Prog Peripheral α}
    {asking : Bool} {Q : α → Timeline → Prop}
    (hk : ∀ a, Triple (timed cooldown (.openDrawer d stopping : Task Copy) n)
      (Calm cooldown i asking) (k a) Q) :
    Triple (timed cooldown (.openDrawer d stopping : Task Copy) n) (Calm cooldown i asking)
      (.call (c : Peripheral.Call) k) Q :=
  Triple.call (stable _) (fun _ h => h.1.spaced) (fun _ => Calm cooldown i asking)
    (fun _ _ _ h ha => calm_idle hc h ha) hk

theorem asks_calm :
    Asks (timed cooldown (.openDrawer d stopping : Task Copy) n) (Calm cooldown i) where
  stable _ := stable _
  allowed _ _ _ h := h.1.spaced
  asks part s a s' h ha := by
    obtain ⟨now, -, -, rfl⟩ := ha
    exact ⟨⟨h.1.spaced, h.1.earlier, h.1.noted⟩, rfl⟩
  writes part data s a s' h ha := by
    obtain ⟨now, -, -, rfl⟩ := ha
    refine ⟨rested_worker h.1 fun _ _ _ => ?_, h.2⟩
    show (if s.asking then [] else [0]) = []
    rw [h.2, if_pos rfl]
  answered s a s' h ha := by
    obtain ⟨now, -, -, rfl⟩ := ha
    exact ⟨⟨h.1.spaced, h.1.earlier, h.1.noted⟩, rfl⟩
  forgets asking s a s' h ha := by
    obtain ⟨now, -, -, rfl⟩ := ha
    exact ⟨⟨h.1.spaced, h.1.earlier, h.1.noted⟩, rfl⟩

theorem triple_polls : Triple (timed cooldown (.openDrawer d stopping : Task Copy) n)
    (Calm cooldown i false) d.pollDrawerPin fun _ => Calm cooldown i false :=
  triple_poll asks_calm (fun _ => stable _) (fun _ h => h) fun _ _ _ _ h ha =>
    calm_idle (c := .noteLevel _) trivial h ha

theorem triple_watching : ∀ (before : Bool) (rounds : ℕ) (seen : DrawerRun.Sighting),
    Triple (timed cooldown (.openDrawer d stopping : Task Copy) n) (Calm cooldown i false)
      (d.watch before rounds seen) fun _ => Calm cooldown i false
  | before, rounds, seen => by
    unfold DrawerRun.watch
    refine Triple.bind triple_polls fun polled => ?_
    have hlast : Triple (timed cooldown (.openDrawer d stopping : Task Copy) n)
        (Calm cooldown i false) (DrawerRun.lastLevel polled) fun _ => Calm cooldown i false := by
      cases polled with
      | some high => exact Triple.ret (stable _) fun _ h => h
      | none =>
        exact triple_idle (c := .drawerPin) trivial fun _ => Triple.ret (stable _) fun _ h => h
    refine Triple.bind hlast fun level => ?_
    dsimp only
    split
    · exact Triple.ret (stable _) fun _ h => h
    · cases rounds with
      | zero => exact Triple.ret (stable _) fun _ h => h
      | succ rounds =>
        refine triple_idle (c := .overdue) trivial fun (late : Bool) => ?_
        change Triple _ _ (if late then _ else _) _
        split
        · exact Triple.ret (stable _) fun _ h => h
        · exact triple_idle (c := .pause _) trivial fun _ => triple_watching before rounds _

/-- The pulse of this task is being written: it is apart from the earlier ones. -/
structure Striking (cooldown : UInt16) (i : ℕ) (s : Timeline) : Prop where
  spaced : Spaced cooldown s.pulses
  quiet : s.asking = false
  past : ∀ p ∈ s.pulses, p.time ≤ s.now
  own : ∀ p ∈ s.pulses, p.task = i ∧ p.start = 0 ∨
    p.task < i ∧ ∃ last, s.last = some last ∧ p.time ≤ last
  slept : ∀ last, s.last = some last → last + nanos cooldown ≤ s.now

theorem Striking.later {s : Timeline} (h : Striking cooldown i s) {now : ℕ} (hnow : s.now ≤ now) :
    Striking cooldown i { s with now := now } where
  spaced := h.spaced
  quiet := h.quiet
  past p hp := (h.past p hp).trans hnow
  own := h.own
  slept last hl := (h.slept last hl).trans hnow

theorem striking_write {s : Timeline} {part : Part} {data : Bytes} {sent : TransportResult}
    (h : Striking cooldown i s) : Striking cooldown i
      (Timeline.post (.openDrawer d stopping : Task Copy) i s
        ⟨.worker (.write part data), sent⟩) := by
  have hpulses : (Timeline.post (.openDrawer d stopping : Task Copy) i s
      ⟨.worker (.write part data), sent⟩).pulses = ⟨i, 0, s.now⟩ :: s.pulses := by
    show ((if s.asking then [] else [0]) : List ℕ).map _ ++ s.pulses = _
    rw [h.quiet]
    rfl
  have hnew : ∀ p ∈ s.pulses, (p.task, p.start) ≠ (i, 0) → p.time + nanos cooldown ≤ s.now := by
    intro p hp hne
    rcases h.own p hp with ⟨ht, hs⟩ | ⟨_, last, hl, hle⟩
    · exact absurd (by rw [ht, hs]) hne
    · have := h.slept last hl
      omega
  refine ⟨?_, h.quiet, ?_, ?_, h.slept⟩ <;> rw [hpulses]
  · intro p hp q hq hne
    rcases List.mem_cons.mp hp with rfl | hp <;> rcases List.mem_cons.mp hq with rfl | hq
    · exact absurd rfl hne
    · exact .inr (hnew q hq hne.symm)
    · exact .inl (hnew p hp hne)
    · exact h.spaced p hp q hq hne
  · intro p hp
    rcases List.mem_cons.mp hp with rfl | hp
    · exact le_refl _
    · exact h.past p hp
  · intro p hp
    rcases List.mem_cons.mp hp with rfl | hp
    · exact .inl ⟨rfl, rfl⟩
    · exact h.own p hp

theorem triple_strikes {part : Part} {data : Bytes} :
    Triple (timed cooldown (.openDrawer d stopping : Task Copy) i) (Striking cooldown i)
      (onWorker (sendPaced d.profile part data)) fun _ => Striking cooldown i := by
  refine Triple.only (send_writes d _ _) (stable _) (fun _ _ _ h => h.spaced) ?_
  rintro c s a s' hc h ⟨now, hnow, -, rfl⟩
  cases c with
  | worker c =>
    cases c with
    | write part data => exact striking_write (h.later hnow)
    | _ => exact hc.elim
  | _ => exact hc.elim

/-- What the cooldown leaves behind. -/
theorem triple_coolDown (hcool : d.caps.kick.cooldownMs = cooldown) (hne : cooldown ≠ 0) :
    Triple (timed cooldown (.openDrawer d stopping : Task Copy) i) (Calm cooldown i false)
      d.coolDown fun _ => Striking cooldown i := by
  unfold DrawerRun.coolDown
  rw [hcool, if_pos hne]
  refine Triple.call (stable _) (fun _ h => h.1.spaced) (fun _ => Striking cooldown i) ?_
    fun _ => Triple.ret (stable _) fun _ h => h
  rintro s _ _ h ⟨now, _, hslept, rfl⟩
  have hafter : ∀ last, s.last = some last → last + nanos cooldown ≤ now := by
    intro last hl
    simpa only [hl, Slept] using hslept
  refine ⟨h.1.spaced, h.2, fun p hp => ?_, fun p hp => ?_, hafter⟩
  · obtain ⟨last, hl, hle⟩ := h.1.noted p hp
    have := hafter last hl
    show p.time ≤ now
    omega
  · exact .inr ⟨h.1.earlier p hp, h.1.noted p hp⟩

/-- The pulse is noted after it is written. -/
theorem calm_pulsed {s s' : Timeline} {a : Unit} (h : Striking cooldown i s)
    (ha : (timed cooldown (.openDrawer d stopping : Task Copy) i).answers .pulsed s a s') :
    Calm cooldown (i + 1) false s' := by
  obtain ⟨now, hnow, -, rfl⟩ := ha
  refine ⟨⟨h.spaced, fun p hp => ?_, fun p hp => ⟨now, rfl, (h.past p hp).trans hnow⟩⟩, h.quiet⟩
  rcases h.own p hp with ⟨ht, _⟩ | ⟨ht, _⟩ <;> omega

theorem triple_fire (hcool : d.caps.kick.cooldownMs = cooldown) (hne : cooldown ≠ 0)
    {before : Option Bool} {result : DrawerOpenResult} :
    Triple (timed cooldown (.openDrawer d stopping : Task Copy) i) (Calm cooldown i false)
      (d.fire before result) fun _ => Calm cooldown (i + 1) false := by
  refine Triple.bind (triple_coolDown hcool hne) fun _ => ?_
  unfold DrawerRun.kick
  cases d.pulse result with
  | none =>
    exact Triple.call (stable _) (fun _ h => h.spaced) (fun _ _ => True) (fun _ _ _ _ _ => trivial)
      fun (e : Empty) => e.elim
  | some bytes =>
    refine Triple.bind triple_strikes fun sent => ?_
    refine Triple.call (stable _) (fun _ h => h.spaced) (fun _ => Calm cooldown (i + 1) false)
      (fun _ _ _ h ha => calm_pulsed h ha) fun _ => ?_
    change Triple _ _ (if !sent.ok then _ else _) _
    split
    · exact Triple.ret (stable _) fun _ h => h
    · cases before with
      | none => exact Triple.ret (stable _) fun _ h => h
      | some before =>
        exact Triple.bind (triple_watching before d.rounds .silent) fun _ =>
          Triple.ret (stable _) fun _ h => h

theorem triple_openDrawer (hcool : d.caps.kick.cooldownMs = cooldown) (hne : cooldown ≠ 0) :
    Triple (timed cooldown (.openDrawer d stopping : Task Copy) i) (Calm cooldown i false)
      d.openDrawer fun _ => Rested cooldown (i + 1) := by
  have hrest : ∀ s, Calm cooldown i false s → Calm cooldown (i + 1) false s :=
    fun s h => ⟨h.1.mono (Nat.le_succ i), h.2⟩
  have hsequence : Triple (timed cooldown (.openDrawer d stopping : Task Copy) i)
      (Calm cooldown i false) d.runDrawerSequence fun _ => Calm cooldown (i + 1) false := by
    unfold DrawerRun.runDrawerSequence
    refine triple_idle (c := .worker .ensureConnected) trivial fun (connected : Bool) => ?_
    change Triple _ _ (if !connected then _ else _) _
    split
    · exact Triple.ret (stable _) hrest
    · refine triple_idle (c := .worker (.io .beginJobIo)) trivial fun _ => ?_
      change Triple _ _ (d.levelBefore >>= _) _
      have hbefore : Triple (timed cooldown (.openDrawer d stopping : Task Copy) i)
          (Calm cooldown i false) d.levelBefore fun _ => Calm cooldown i false := by
        unfold DrawerRun.levelBefore
        split
        · exact triple_polls
        · exact Triple.ret (stable _) fun _ h => h
      refine Triple.bind hbefore fun level => ?_
      cases level with
      | none => exact triple_fire hcool hne
      | some high =>
        dsimp only
        split
        · exact Triple.ret (stable _) hrest
        · exact triple_fire hcool hne
  refine Triple.bind hsequence fun result => ?_
  exact triple_idle (c := .deliver result) trivial fun _ => Triple.ret (stable _) fun _ h => h.1

end Opening

/-! ### Whole runs -/

section Tasks
variable {Copy : Type} {cooldown : UInt16} {i : ℕ} {task : Task Copy}

/-- A task on the worker's own calls that strikes nothing. -/
theorem triple_spared (hstrikes : ∀ s part data, task.strikes s part data = [])
    (p : Prog Worker Unit) :
    Triple (timed cooldown task i) (Rested cooldown i) (onWorker p) fun _ => Rested cooldown i := by
  have honly : (onWorker p).Only fun c => ∃ w, c = PeripheralCall.worker w :=
    Only.embed (S := fun _ => True) (fun w _ => ⟨w, rfl⟩) (Only.all p)
  refine Triple.only honly (stable _) (fun _ _ _ h => h.spaced) ?_
  rintro _ s a s' ⟨w, rfl⟩ h ⟨now, _, _, rfl⟩
  exact rested_worker h fun part data _ => hstrikes _ part data

theorem strikes_eq_nil {p : Capability} {r : Printing Copy p}
    (h : (Task.print p r).Gentle) (s : Timeline) (part : Part) (data : Bytes) :
    (Task.print p r).strikes s part data = [] := by
  unfold Task.Gentle Deed.Harmless at h
  unfold Task.strikes
  dsimp only at h ⊢
  split_ifs with hpart hescpos hstar
  · rfl
  · rw [if_pos hescpos] at h
    rw [pulses_eq_nil h.1 h.2, List.filter_nil]
  · rw [Bool.and_eq_true] at hstar
    rw [if_neg hescpos, if_pos hstar.1] at h
    rw [starPulses_eq_false h] at hstar
    exact nomatch hstar.2
  · rfl

theorem triple_task (hcool : task.cooldown = cooldown) (hne : cooldown ≠ 0) (h : task.Gentle) :
    Triple (timed cooldown task i) (Calm cooldown i false) task.program
      fun _ => Rested cooldown (i + 1) := by
  cases task with
  | openDrawer d stopping =>
    show Triple _ _ (if d.accepted stopping then d.openDrawer else .ret ()) _
    split
    · exact triple_openDrawer hcool hne
    · exact Triple.ret (stable _) fun _ h => h.1.mono (Nat.le_succ i)
  | openCashDrawer p stopping =>
    obtain rfl : stopping = true := h
    exact Triple.ret (stable _) fun _ h => h.1.mono (Nat.le_succ i)
  | print p r =>
    exact (triple_spared (strikes_eq_nil h) r.job.runJob).conseq (fun _ h => h.1)
      fun _ _ h => h.mono (Nat.le_succ i)

/-- A task begins calm. -/
theorem calm_begin {s : Timeline} (h : Rested cooldown i s) : Calm cooldown i false s.begin :=
  ⟨⟨h.spaced, h.earlier, h.noted⟩, rfl⟩

theorem rested_of_served {tasks : List (Task Copy)} {s : Timeline} (hne : cooldown ≠ 0)
    (hcool : ∀ task ∈ tasks, task.cooldown = cooldown) (hgentle : ∀ task ∈ tasks, task.Gentle)
    (h : Served cooldown tasks s) : Rested cooldown tasks.length s := by
  induction h with
  | nil => exact ⟨fun _ h => (nomatch h), fun _ h => (nomatch h), fun _ h => (nomatch h)⟩
  | @task tasks s s' task h hrun ih =>
    have hbefore := ih (fun t ht => hcool t (List.mem_append_left _ ht))
      fun t ht => hgentle t (List.mem_append_left _ ht)
    have hlast : task ∈ tasks ++ [task] := List.mem_append_right _ (List.mem_singleton.mpr rfl)
    rw [List.length_append, List.length_singleton]
    have hsafe := triple_task (hcool task hlast) hne (hgentle task hlast) _ (calm_begin hbefore)
    exact (hsafe.reach hrun).ret

/-- **As long as only `openDrawer` fires the port, pulses are the cooldown apart, at every moment of
every run.** -/
theorem spaced_of_gentle {tasks : List (Task Copy)} {s : Timeline} (hne : cooldown ≠ 0)
    (hcool : ∀ task ∈ tasks, task.cooldown = cooldown) (hgentle : ∀ task ∈ tasks, task.Gentle)
    (h : Reached cooldown tasks s) : Spaced cooldown s.pulses := by
  cases h with
  | @within tasks s₀ s' q task h hrun =>
    have hbefore := rested_of_served hne (fun t ht => hcool t (List.mem_append_left _ ht))
      (fun t ht => hgentle t (List.mem_append_left _ ht)) h
    have hlast : task ∈ tasks ++ [task] := List.mem_append_right _ (List.mem_singleton.mpr rfl)
    have hsafe := (triple_task (hcool task hlast) hne (hgentle task hlast) _
      (calm_begin hbefore)).reach hrun
    cases q with
    | ret a => exact hsafe.ret.spaced
    | call c k => exact hsafe.allowed

end Tasks

/-! ### Two pulses at once -/

section Examples
variable {Copy : Type}

/-- A clock that only moves while the cooldown is slept out. -/
def wake (c : PeripheralCall) (s : Timeline) : ℕ :=
  match c, s.last with
  | .coolDown ms, some last => max s.now (last + nanos ms)
  | _, _ => s.now

/-- A printer that takes everything and is asked nothing. -/
def obliging : (c : PeripheralCall) → Option c.Answer
  | .worker .ensureConnected => some true
  | .worker (.write _ data) => some (⟨true, data.length⟩ : TransportResult)
  | .worker (.io _) => some ()
  | .worker _ | .awaitAnswer | .drawerPin | .overdue => none
  | .forget | .noteLevel _ | .coolDown _ | .pulsed | .pause _ | .deliver _ => some ()

def serve (task : Task Copy) (i : ℕ) : Prog Peripheral Unit → Timeline → Option Timeline
  | .ret _, s => some s
  | .call c k, s =>
    match obliging c with
    | some a => serve task i (k a) (Timeline.post task i { s with now := wake c s } ⟨c, a⟩)
    | none => none

theorem slept_wake (c : PeripheralCall) (s : Timeline) :
    s.now ≤ wake c s ∧ Slept c s.last (wake c s) := by
  cases hlast : s.last with
  | none => cases c <;> simp [wake, hlast, Slept]
  | some last =>
    cases c with
    | coolDown ms => simp [wake, hlast, Slept]
    | _ => exact ⟨le_refl _, trivial⟩

theorem finish_serve {cooldown : UInt16} {task : Task Copy} {i : ℕ} :
    ∀ {p : Prog Peripheral Unit} {s s' : Timeline}, serve task i p s = some s' →
      Finish (timed cooldown task i) p s () s'
  | .ret _, s, s', h => by
    obtain rfl := Option.some.inj h
    exact .nil _ _
  | .call c k, s, s', h => by
    unfold serve at h
    cases hc : obliging c with
    | none =>
      rw [hc] at h
      cases h
    | some a =>
      rw [hc] at h
      obtain ⟨hnow, hslept⟩ := slept_wake c s
      exact .call .refl ⟨wake c s, hnow, hslept, rfl⟩ (finish_serve h)

/-- A port with a cooldown of a second and no switch. -/
def solenoid : Capability where
  drawer := {
    present := true
    electrical := { standard := .epson24V6P6C, channelCount := 2 }
    kick := { method := .epsonEscP, cooldownMs := 1000 } }

/-- A verified opening of that port. -/
def opening : Task Empty :=
  .openDrawer ⟨solenoid.toCapabilityProfile, solenoid.drawer, {}, fun _ => none⟩ false

/-- The same port, fired without asking. -/
def shot : Task Empty := .openCashDrawer solenoid false

/-- Served one after the other. -/
def afterTwo (task : Task Empty) : Option Timeline :=
  (serve task 0 task.program ({} : Timeline).begin).bind fun s => serve task 1 task.program s.begin

theorem reached_afterTwo {task : Task Empty} {s : Timeline} (h : afterTwo task = some s) :
    Reached 1000 [task, task] s := by
  obtain ⟨s₁, h₁, h₂⟩ := Option.bind_eq_some_iff.mp h
  exact .within task (.task task .nil (finish_serve h₁)) (finish_serve h₂)

theorem opening_spaced : ∃ s, Reached 1000 [opening, opening] s ∧ s.pulses.length = 2 ∧
    Spaced 1000 s.pulses := by
  have hrun : ∃ s, afterTwo opening = some s ∧ s.pulses.length = 2 := ⟨_, rfl, rfl⟩
  obtain ⟨s, hs, hlen⟩ := hrun
  have htasks : ∀ task ∈ [opening, opening], task = opening := fun task h => by simpa using h
  have hreached := reached_afterTwo hs
  refine ⟨s, hreached, hlen, ?_⟩
  refine spaced_of_gentle (by decide) (fun task h => ?_) (fun task h => ?_) hreached
  · rw [htasks task h]
    rfl
  · rw [htasks task h]
    trivial

/-- Two calls in a row fire the port twice at the same moment. -/
theorem shot_not_spaced : ∃ s, Reached 1000 [shot, shot] s ∧ shot.cooldown = 1000 ∧
    ¬ Spaced 1000 s.pulses := by
  have hrun : ∃ s, afterTwo shot = some s ∧ s.pulses = [⟨1, 0, 0⟩, ⟨0, 0, 0⟩] := ⟨_, rfl, rfl⟩
  obtain ⟨s, hs, hpulses⟩ := hrun
  refine ⟨s, reached_afterTwo hs, rfl, fun h => ?_⟩
  rw [hpulses] at h
  have := h ⟨1, 0, 0⟩ (by simp) ⟨0, 0, 0⟩ (by simp) (by decide)
  exact absurd this (by decide)

end Examples

end PrinterDriver.Engine.Cooldown
