import PrinterDriver.Lib.Threads
import PrinterDriver.Engine.Lifecycle

/-! # Shutting a printer down

`stop` of a runtime against any number of threads that submit jobs and the worker that runs them.
Every critical section and every access of an atomic is a step; what the device answers to a running
job is arbitrary. A job remembers who has it: the thread that created it or took it over, the task
queue, or nobody any more. -/

namespace PrinterDriver.Engine.Shutdown

open PrinterDriver.Lib.Programs PrinterDriver.Lib.Threads PrinterDriver.Core.Types
  PrinterDriver.Engine.Ops PrinterDriver.Engine.RunJob PrinterDriver.Engine.Lifecycle

open Prog Machine

/-! ### The threads -/

/-- What the threads of a runtime do. A call of a job says which job it is of. -/
inductive RtCall where
  | job (id : Bytes) (c : Call)
  /-- `submit` and `reserve`, up to the entry in the index. -/
  | create (id : Bytes) (submitted : Bool)
  | isTerminal (id : Bytes)
  | readStopping
  | push (task : JobRun)
  | take
  | settle
  | exchangeStopped
  | setStopping
  | join
  | swap

@[reducible] def RtCall.Answer : RtCall → Type
  | .job _ c => c.Answer
  | .isTerminal _ | .readStopping | .exchangeStopped => Bool
  | .take => Option JobRun
  | .swap => List JobRun
  | .create _ _ | .push _ | .settle | .setStopping | .join => Unit

@[reducible] def Rt : Interface := ⟨RtCall, RtCall.Answer⟩

/-- A part of the job engine, on behalf of a job. -/
def onBehalf (id : Bytes) (p : Prog Worker Unit) : Prog Rt Unit :=
  @Prog.embed _ _ Rt (RtCall.job id) (fun _ a => a) p

/-- The end of a job that was not run. -/
def giveUp (id : Bytes) (reason : FailureReason) : Prog Rt Unit :=
  onBehalf id (terminate id .failedKnown (JobResult.failed reason))

/-- Behind the index: the flag first, and the queue in a critical section of its own. -/
def enqueue (task : JobRun) : Prog Rt Unit := do
  let stopping : Bool ← perform (E := Rt) .readStopping
  if stopping then giveUp task.id .transportUnreachable
  else perform (E := Rt) (.push task)

/-- `submit`, where it creates a job. -/
def submit (task : JobRun) : Prog Rt Unit := do
  perform (E := Rt) (.create task.id true)
  enqueue task

def reserve (id : Bytes) : Prog Rt Unit := perform (E := Rt) (.create id false)

def submitReserved (task : JobRun) : Prog Rt Unit := do
  let terminal : Bool ← perform (E := Rt) (.isTerminal task.id)
  if terminal then return ()
  else enqueue task

/-- The tasks left in the queue are cancelled one after another. -/
def cancelAll : List JobRun → Prog Rt Unit
  | [] => return ()
  | task :: tasks => do
    giveUp task.id .unknown
    cancelAll tasks

def stop : Prog Rt Unit := do
  let stopped : Bool ← perform (E := Rt) .exchangeStopped
  if stopped then return ()
  else
    perform (E := Rt) .setStopping
    perform (E := Rt) .join
    let leftovers : List JobRun ← perform (E := Rt) .swap
    cancelAll leftovers

/-- One turn of the worker's loop. -/
def turn : Prog Rt Unit := do
  let task : Option JobRun ← perform (E := Rt) .take
  match task with
  | some task => do
    onBehalf task.id task.runJob
    perform (E := Rt) .settle
  | none => return ()

/-! ### The state -/

/-- Who has a job. The worker is the thread `none`. -/
inductive Owner (κ : Type) where
  | nobody | thread (t : Option κ) | queue | ended
  deriving DecidableEq, Repr

/-- A job; `taken` once it was submitted or handed over. -/
structure Ticket (κ : Type) where
  owner : Owner κ
  taken : Bool
  progress : Progress := {}
  /-- How often a terminal state was recorded. -/
  endings : ℕ := 0
  /-- How often the result was set. -/
  finishes : ℕ := 0
  deriving DecidableEq, Repr

structure Runtime (κ : Type) where
  jobs : Bytes → Option (Ticket κ) := fun _ => none
  tasks : List JobRun := []
  stopped : Bool := false
  stopping : Bool := false
  /-- The worker loop has returned. -/
  exited : Bool := false
  /-- `stop` has taken what was left in the queue. -/
  drained : Bool := false
  /-- The thread whose `stop` does the work. -/
  stopper : Option (Option κ) := none

/-- How many terminal states a call records. -/
def endingsOf : Call → ℕ
  | .recordState _ state _ _ _ => state.isTerminal.toNat
  | _ => 0

def Ticket.note {κ : Type} (k : Ticket κ) (c : Call) (a : c.Answer) : Ticket κ :=
  { k with
    progress := k.progress.post ⟨c, a⟩
    endings := k.endings + endingsOf c
    finishes := k.finishes + (isFinish c).toNat
    owner := if isFinish c then .ended else k.owner }

namespace Runtime

variable {κ : Type}

/-- A change of some jobs, if they are there. -/
def change (s : Runtime κ) (P : Bytes → Prop) [DecidablePred P] (f : Ticket κ → Ticket κ) :
    Runtime κ :=
  { s with jobs := fun id => if P id then (s.jobs id).map f else s.jobs id }

def give (s : Runtime κ) (P : Bytes → Prop) [DecidablePred P] (owner : Owner κ) : Runtime κ :=
  s.change P fun k => { k with owner := owner, taken := true }

def enter (s : Runtime κ) (id : Bytes) (k : Ticket κ) : Runtime κ :=
  { s with jobs := fun i => if i = id then some k else s.jobs i }

def finished (s : Runtime κ) (id : Bytes) : Bool :=
  match s.jobs id with
  | some k => k.progress.finished
  | none => false

/-- The job was submitted, or handed over. -/
def handedOver (s : Runtime κ) (id : Bytes) : Bool :=
  match s.jobs id with
  | some k => k.taken
  | none => false

/-- A step of thread `t`; the answers of a job's calls are chosen. -/
def serve (t : Option κ) : (c : RtCall) → ((c : Call) → Option c.Answer) → Runtime κ →
    Option (c.Answer × Runtime κ)
  | .job id c, ch, s => (ch c).map fun a => (a, s.change (· = id) fun k => k.note c a)
  | .create id submitted, _, s =>
    match s.jobs id with
    | some _ => none
    | none =>
      some ((), s.enter id ⟨if submitted then .thread t else .nobody, submitted, {}, 0, 0⟩)
  | .isTerminal id, _, s =>
    if s.finished id then some (true, s)
    else some (false, s.give (· = id) (.thread t))
  | .readStopping, _, s => some (s.stopping, s)
  | .push task, _, s =>
    some ((), { s.give (· = task.id) .queue with tasks := s.tasks ++ [task] })
  | .take, _, s =>
    if s.stopping then some (none, { s with exited := true })
    else
      match s.tasks with
      | [] => none
      | task :: rest => some (some task, { s.give (· = task.id) (.thread t) with tasks := rest })
  | .settle, _, s => some ((), s)
  | .exchangeStopped, _, s =>
    some (s.stopped,
      { s with stopped := true, stopper := if s.stopped then s.stopper else some t })
  | .setStopping, _, s => some ((), { s with stopping := true })
  | .join, _, s => if s.exited then some ((), s) else none
  | .swap, _, s =>
    some (s.tasks,
      { s.give (· ∈ s.tasks.map JobRun.id) (.thread t) with tasks := [], drained := true })

end Runtime

/-- What a thread can be asked to do. -/
inductive Task where
  | turn
  | submit (task : JobRun)
  | reserve (id : Bytes)
  | submitReserved (task : JobRun)
  | stop

/-- A runtime with a worker and the threads that call it. -/
def runtime (κ : Type) : Machine Rt (Option κ) (Runtime κ) where
  Choice := (c : Call) → Option c.Answer
  Event := Empty
  Task := Task
  Restart := Empty
  serve := Runtime.serve
  event := nofun
  restart := nofun
  start
    | none, .turn, s => if s.exited then none else some (turn, s)
    | some _, .submit task, s => some (submit task, s)
    | some _, .reserve id, s => some (reserve id, s)
    | some _, .submitReserved task, s =>
      if (s.jobs task.id).isSome then some (submitReserved task, s) else none
    | some _, .stop, s => some (stop, s)
    | _, _, _ => none

/-! ### What the threads rely on -/

/-- What a job has gone through, against who has it. -/
structure Ticket.Sound {κ : Type} (k : Ticket κ) : Prop where
  nobody : k.owner = .nobody ↔ k.taken = false
  closed : k.owner = .ended ↔ k.progress.finished = true
  fresh : k.owner = .nobody ∨ k.owner = .queue → k.progress = {}
  ended : k.progress.finished = true → k.progress.state.isTerminal = true
  endings : k.endings = k.progress.state.isTerminal.toNat
  finishes : k.finishes = k.progress.finished.toNat

structure Inv {κ : Type} (s : Runtime κ) : Prop where
  tickets : ∀ id k, s.jobs id = some k → k.Sound
  distinct : (s.tasks.map JobRun.id).Nodup
  queued : ∀ id, id ∈ s.tasks.map JobRun.id ↔ ∃ k, s.jobs id = some k ∧ k.owner = .queue
  drained : s.drained = true → s.tasks = [] ∧ s.exited = true
  exited : s.exited = true →
    s.stopping = true ∧ ∀ id k, s.jobs id = some k → k.owner ≠ .thread none
  stopper : s.stopped = true ↔ ∃ t : κ, s.stopper = some (some t)
  unstopped : s.stopper ≠ some none

/-- A task is pushed only while `stop` has not taken the queue, and a job is handed over once. -/
def guard (κ : Type) : (runtime κ).Guard where
  serve _ c _ s :=
    match c with
    | .push _ => s.drained = false
    | .isTerminal id => s.finished id = true ∨ s.handedOver id = false
    | _ => True

/-- A job's calls are made by the thread that has it. -/
def Allowed {κ : Type} (t : Option κ) : RtCall → Runtime κ → Prop
  | .job id c, s => ∃ (j : JobRun) (k : Ticket κ), j.id = id ∧ s.jobs id = some k ∧
      Admits j c k.progress ∧ (k.owner = .thread t ∨ ∃ pair, c = .releaseTokens pair)
  | .create _ _, _ | .isTerminal _, _ | .exchangeStopped, _ => t ≠ none
  | .push task, s => ∃ k, s.jobs task.id = some k ∧ k.owner = .thread t ∧ k.progress = {}
  | .take, s => t = none ∧ ∀ id k, s.jobs id = some k → k.owner ≠ .thread none
  | .swap, s => t ≠ none ∧ s.exited = true
  | _, _ => True

/-- Thread `t` has the jobs `L`, not yet begun, and no other; and if it is the one that stops the
runtime, it has emptied the queue. -/
structure Held {κ : Type} (t : Option κ) (L : List Bytes) (s : Runtime κ) : Prop where
  only : ∀ id k, s.jobs id = some k → k.owner = .thread t → id ∈ L
  mine : ∀ id ∈ L, ∃ k, s.jobs id = some k ∧ k.owner = .thread t ∧ k.progress = {}
  distinct : L.Nodup
  duty : s.stopper = some t → s.drained = true

def contract (κ : Type) : Machine.Contract Rt (Option κ) (Runtime κ) where
  inv := Inv
  rest t s := Held t [] s
  allowed := Allowed

/-! ### Jobs -/

section Tickets
variable {κ : Type} {t : Option κ} {s s' : Runtime κ} {k : Ticket κ} {id : Bytes}

theorem sound_enter (submitted : Bool) :
    (⟨if submitted then .thread t else .nobody, submitted, {}, 0, 0⟩ : Ticket κ).Sound := by
  cases submitted <;> exact
    { nobody := by simp, closed := by simp, fresh := fun _ => rfl, ended := fun h => by simp at h
      endings := rfl, finishes := rfl }

/-- A job not yet begun goes to another owner. -/
theorem Ticket.Sound.give (h : k.Sound) (hp : k.progress = {}) {owner : Owner κ}
    (hn : owner ≠ .nobody) (ho : owner ≠ .ended) :
    ({ k with owner := owner, taken := true } : Ticket κ).Sound where
  nobody := by simp [hn]
  closed := by simp [ho, hp]
  fresh _ := hp
  ended hf := by simp [hp] at hf
  endings := h.endings
  finishes := h.finishes

theorem endings_post {j : JobRun} {g : Progress} {c : Call} (h : Admits j c g) (a : c.Answer) :
    (g.post ⟨c, a⟩).state.isTerminal.toNat = g.state.isTerminal.toNat + endingsOf c := by
  cases c with
  | recordState id state confidence reason evidence =>
    simp [Progress.post, endingsOf, isTerminal_of_follows h.2.2.2.1]
  | write part data => cases part <;> rfl
  | awaitRealtime part count => cases part <;> rfl
  | _ => rfl

/-- A call of the thread that has the job. -/
theorem Ticket.Sound.note (h : k.Sound) {j : JobRun} {c : Call} {a : c.Answer}
    (ha : Admits j c k.progress) (ho : k.owner = .thread t) : (k.note c a).Sound := by
  have hrun : k.progress.finished = false := by
    rw [← Bool.not_eq_true, ← h.closed, ho]
    exact fun e => by cases e
  have hn : k.taken = true := by
    rw [← Bool.not_eq_false, ← h.nobody, ho]
    exact fun e => by cases e
  have hf : (k.progress.post ⟨c, a⟩).finished = isFinish c := by simp [finished_post, hrun]
  have he := endings_post ha a
  refine ⟨?_, ?_, fun hq => ?_, fun hq => ?_, ?_, ?_⟩
  · unfold Ticket.note
    cases isFinish c <;> simp [ho, hn]
  · unfold Ticket.note
    cases hc : isFinish c <;> simp [ho, hf, hc]
  · unfold Ticket.note at hq
    cases hc : isFinish c <;> simp [hc, ho] at hq
  · exact isTerminal_of_finish ha (hf ▸ hq) a
  · exact (congrArg (· + endingsOf c) h.endings).trans he.symm
  · unfold Ticket.note
    simp [h.finishes, hrun, hf]

/-- The release of a lease is not a step of the job. -/
theorem change_releaseTokens (s : Runtime κ) (pair : MarkerPair)
    (a : (Call.releaseTokens pair).Answer) :
    (s.change (· = id) fun k => k.note (.releaseTokens pair) a) = s := by
  have hjobs : (s.change (· = id) fun k => k).jobs = s.jobs := by
    funext i
    simp [Runtime.change]
  exact congrArg (fun jobs => { s with jobs := jobs }) hjobs

/-- A step of thread `t` on a job that is nobody else's. -/
def Within (t : Option κ) (s s' : Runtime κ) : Prop :=
  ∀ id, s'.jobs id = s.jobs id ∨
    ((∀ k, s.jobs id = some k → k.owner ≠ .ended ∧ ∀ u, k.owner = .thread u → u = t) ∧
      (∀ k, s'.jobs id = some k → ∀ u, k.owner = .thread u → u = t) ∧
        ((s.jobs id).isSome = true → (s'.jobs id).isSome = true))

theorem within_give {P : Bytes → Prop} [DecidablePred P] {owner : Owner κ}
    (hP : ∀ id, P id → ∀ k, s.jobs id = some k →
      k.owner ≠ .ended ∧ ∀ u, k.owner = .thread u → u = t)
    (ho : ∀ u, owner = .thread u → u = t) : Within t s (s.give P owner) := by
  intro id
  by_cases h : P id
  · refine .inr ⟨hP id h, fun k hk => ?_, fun hs => ?_⟩
    · simp only [Runtime.give, Runtime.change, if_pos h] at hk
      obtain ⟨k₀, _, rfl⟩ := Option.map_eq_some_iff.mp hk
      exact ho
    · simpa only [Runtime.give, Runtime.change, if_pos h, Option.isSome_map] using hs
  · exact .inl (by simp only [Runtime.give, Runtime.change, if_neg h])

/-! ### Steps -/

theorem serve_job {c : Call} {ch : (c : Call) → Option c.Answer} {a : c.Answer}
    (h : Runtime.serve t (.job id c) ch s = some (a, s')) :
    s' = s.change (· = id) fun k => k.note c a := by
  obtain ⟨b, _, hb⟩ := Option.map_eq_some_iff.mp h
  cases hb
  rfl

theorem serve_create {submitted : Bool} {ch : (c : Call) → Option c.Answer} {a : Unit}
    (h : Runtime.serve t (.create id submitted) ch s = some (a, s')) :
    s.jobs id = none ∧
      s' = s.enter id ⟨if submitted then .thread t else .nobody, submitted, {}, 0, 0⟩ := by
  simp only [Runtime.serve] at h
  split at h
  · cases h
  next hnone =>
    cases h
    exact ⟨hnone, rfl⟩

theorem serve_isTerminal {ch : (c : Call) → Option c.Answer} {a : Bool}
    (h : Runtime.serve t (.isTerminal id) ch s = some (a, s')) :
    s.finished id = true ∧ a = true ∧ s' = s ∨
      s.finished id = false ∧ a = false ∧ s' = s.give (· = id) (.thread t) := by
  simp only [Runtime.serve] at h
  split_ifs at h with hf
  · cases h
    exact .inl ⟨hf, rfl, rfl⟩
  · cases h
    exact .inr ⟨by simpa using hf, rfl, rfl⟩

theorem serve_take {ch : (c : Call) → Option c.Answer} {a : Option JobRun}
    (h : Runtime.serve t .take ch s = some (a, s')) :
    s.stopping = true ∧ a = none ∧ s' = { s with exited := true } ∨
      ∃ task rest, s.stopping = false ∧ s.tasks = task :: rest ∧ a = some task ∧
        s' = { s.give (· = task.id) (.thread t) with tasks := rest } := by
  simp only [Runtime.serve] at h
  split_ifs at h with hst
  · cases h
    exact .inl ⟨hst, rfl, rfl⟩
  · split at h
    · cases h
    next task rest htasks =>
      cases h
      exact .inr ⟨task, rest, by simpa using hst, htasks, rfl, rfl⟩

theorem serve_join {ch : (c : Call) → Option c.Answer} {a : Unit}
    (h : Runtime.serve t .join ch s = some (a, s')) : s.exited = true ∧ s' = s := by
  simp only [Runtime.serve] at h
  split_ifs at h with he
  cases h
  exact ⟨he, rfl⟩

/-- What a guarded step of thread `t` touches. -/
theorem within_serve {c : RtCall} {ch : (c : Call) → Option c.Answer} {a : c.Answer} (hi : Inv s)
    (hg : (guard κ).serve t c ch s) (ha : Allowed t c s)
    (h : Runtime.serve t c ch s = some (a, s')) : Within t s s' := by
  have hown : ∀ u : Option κ, (Owner.thread t : Owner κ) = .thread u → u = t := fun u hu => by
    simpa [eq_comm] using hu
  have hqueue : ∀ id ∈ s.tasks.map JobRun.id, ∀ k, s.jobs id = some k →
      k.owner ≠ .ended ∧ ∀ u, k.owner = .thread u → u = t := by
    intro id hid k hk
    obtain ⟨k', hk', ho⟩ := (hi.queued id).mp hid
    cases hk.symm.trans hk'
    simp [ho]
  cases c with
  | job id c =>
    obtain ⟨j, k, rfl, hk, had, ho⟩ := ha
    rw [serve_job h]
    intro i
    by_cases hij : i = j.id
    · subst hij
      rcases ho with ho | ⟨pair, rfl⟩
      · refine .inr ⟨fun k' hk' => ?_, fun k' hk' u hu => ?_, fun _ => by simp [Runtime.change, hk]⟩
        · cases hk.symm.trans hk'
          exact ⟨fun e => by simp [ho] at e, fun u hu => hown u (ho ▸ hu)⟩
        · simp only [Runtime.change, if_pos, hk, Option.map_some] at hk'
          cases hk'
          unfold Ticket.note at hu
          split_ifs at hu
          exact hown u (ho ▸ hu)
      · exact .inl (by rw [change_releaseTokens])
    · exact .inl (by simp only [Runtime.change, if_neg hij])
  | create id submitted =>
    obtain ⟨hnone, rfl⟩ := serve_create h
    intro i
    by_cases hij : i = id
    · subst hij
      refine .inr ⟨fun k hk => by simp [hnone] at hk, fun k hk u hu => ?_, fun hs => by
        simp [hnone] at hs⟩
      simp only [Runtime.enter, if_pos] at hk
      cases hk
      cases submitted
      · cases hu
      · exact hown u hu
    · exact .inl (by simp only [Runtime.enter, if_neg hij])
  | isTerminal id =>
    obtain ⟨_, _, rfl⟩ | ⟨hf, _, rfl⟩ := serve_isTerminal h
    · exact fun _ => .inl rfl
    · refine within_give (fun i hi' k hk => ?_) hown
      subst hi'
      rcases hg with hg | hg
      · simp [hf] at hg
      · have ho : k.owner = .nobody := (hi.tickets _ _ hk).nobody.mpr (by
          simpa [Runtime.handedOver, hk] using hg)
        simp [ho]
  | push task =>
    cases h
    obtain ⟨k, hk, ho, _⟩ := ha
    refine within_give (fun i hi' k' hk' => ?_) (fun u hu => by cases hu)
    subst hi'
    cases hk.symm.trans hk'
    exact ⟨fun e => by simp [ho] at e, fun u hu => hown u (ho ▸ hu)⟩
  | take =>
    obtain ⟨_, _, rfl⟩ | ⟨task, rest, _, htasks, _, rfl⟩ := serve_take h
    · exact fun _ => .inl rfl
    · exact within_give (fun i hi' k hk => hqueue i (by simp [htasks, hi']) k hk) hown
  | swap =>
    cases h
    exact within_give (fun i hi' k hk => hqueue i hi' k hk) hown
  | readStopping | settle | exchangeStopped | setStopping =>
    cases h
    exact fun _ => .inl rfl
  | join =>
    rw [(serve_join h).2]
    exact fun _ => .inl rfl

/-- Jobs not yet begun go to another owner. -/
theorem sound_give {P : Bytes → Prop} [DecidablePred P] {owner : Owner κ} (hi : Inv s)
    (hP : ∀ id, P id → ∀ k, s.jobs id = some k → k.progress = {}) (hn : owner ≠ .nobody)
    (ho : owner ≠ .ended) : ∀ id k, (s.give P owner).jobs id = some k → k.Sound := by
  intro id k hk
  by_cases h : P id
  · simp only [Runtime.give, Runtime.change, if_pos h] at hk
    obtain ⟨k₀, hk₀, rfl⟩ := Option.map_eq_some_iff.mp hk
    exact (hi.tickets id k₀ hk₀).give (hP id h k₀ hk₀) hn ho
  · simp only [Runtime.give, Runtime.change, if_neg h] at hk
    exact hi.tickets id k hk

/-- Who has a job after some were given away. -/
theorem owner_give {P : Bytes → Prop} [DecidablePred P] {owner o : Owner κ} :
    (∃ k, (s.give P owner).jobs id = some k ∧ k.owner = o) ↔
      if P id then owner = o ∧ (s.jobs id).isSome = true
      else ∃ k, s.jobs id = some k ∧ k.owner = o := by
  split_ifs with h
  · simp only [Runtime.give, Runtime.change, if_pos h]
    cases s.jobs id <;> simp
  · simp only [Runtime.give, Runtime.change, if_neg h]

/-- The worker takes no job any more once it has returned. -/
theorem worker_serve {c : RtCall} {ch : (c : Call) → Option c.Answer} {a : c.Answer} (hi : Inv s)
    (hg : (guard κ).serve t c ch s) (ha : Allowed t c s)
    (h : Runtime.serve t c ch s = some (a, s')) (he : s.exited = true) :
    ∀ id k, s'.jobs id = some k → k.owner ≠ .thread none := by
  intro id k hk ho
  obtain ⟨hst, hno⟩ := hi.exited he
  rcases within_serve hi hg ha h id with heq | ⟨_, hw, _⟩
  · exact hno id k (heq ▸ hk) ho
  · cases hw k hk none ho
    cases c with
    | job id' c =>
      obtain ⟨j, k', rfl, hk', _, ho' | ⟨pair, rfl⟩⟩ := ha
      · exact hno _ k' hk' ho'
      · rw [serve_job h, change_releaseTokens] at hk
        exact hno _ _ hk ho
    | create _ _ | isTerminal _ | exchangeStopped => exact ha rfl
    | swap => exact ha.1 rfl
    | push task =>
      obtain ⟨k', hk', ho', _⟩ := ha
      exact hno _ k' hk' ho'
    | take =>
      obtain ⟨_, _, rfl⟩ | ⟨task, rest, hst', _, _, rfl⟩ := serve_take h
      · exact hno _ k hk ho
      · simp [hst] at hst'
    | readStopping | settle | setStopping =>
      cases h
      exact hno _ k hk ho
    | join =>
      rw [(serve_join h).2] at hk
      exact hno _ k hk ho

/-- The jobs in the queue after a call of a job: the same. -/
theorem inv_job {c : Call} {a : c.Answer} (hi : Inv s) (ha : Allowed t (.job id c) s) :
    let s' := s.change (· = id) fun k => k.note c a
    (∀ i k, s'.jobs i = some k → k.Sound) ∧
      ∀ i, i ∈ s'.tasks.map JobRun.id ↔ ∃ k, s'.jobs i = some k ∧ k.owner = .queue := by
  obtain ⟨j, k, rfl, hk, had, ho⟩ := ha
  rcases ho with ho | ⟨pair, rfl⟩
  · refine ⟨fun i k' hk' => ?_, fun i => (hi.queued i).trans ?_⟩
    · by_cases hij : i = j.id
      · simp only [Runtime.change, hij, hk, Option.map_some, if_true] at hk'
        cases hk'
        exact (hi.tickets _ _ hk).note had ho
      · simp only [Runtime.change, if_neg hij] at hk'
        exact hi.tickets i k' hk'
    · by_cases hij : i = j.id
      · subst hij
        have hne : (k.note c a).owner ≠ .queue := by
          unfold Ticket.note
          cases isFinish c <;> simp [ho]
        simp [Runtime.change, hk, ho, hne]
      · simp only [Runtime.change, if_neg hij]
  · rw [change_releaseTokens]
    exact ⟨hi.tickets, hi.queued⟩

/-- A guarded call keeps the invariant. -/
theorem Inv.serve {c : RtCall} {ch : (c : Call) → Option c.Answer} {a : c.Answer} (hi : Inv s)
    (hg : (guard κ).serve t c ch s) (ha : Allowed t c s)
    (h : Runtime.serve t c ch s = some (a, s')) : Inv s' := by
  have hw := worker_serve hi hg ha h
  cases c with
  | job id c =>
    obtain ⟨ht, hq⟩ := inv_job (a := a) hi ha
    rw [serve_job h] at hw ⊢
    exact
      { tickets := ht, distinct := hi.distinct, queued := hq, drained := hi.drained
        exited := fun he => ⟨(hi.exited he).1, hw he⟩
        stopper := hi.stopper, unstopped := hi.unstopped }
  | create id submitted =>
    obtain ⟨hnone, rfl⟩ := serve_create h
    refine
      { tickets := fun i k hk => ?_, distinct := hi.distinct
        queued := fun i => (hi.queued i).trans ?_, drained := hi.drained
        exited := fun he => ⟨(hi.exited he).1, hw he⟩
        stopper := hi.stopper, unstopped := hi.unstopped }
    · by_cases hij : i = id
      · simp only [Runtime.enter, if_pos hij] at hk
        cases hk
        exact sound_enter submitted
      · simp only [Runtime.enter, if_neg hij] at hk
        exact hi.tickets i k hk
    · by_cases hij : i = id
      · subst hij
        cases submitted <;> simp [Runtime.enter, hnone]
      · simp only [Runtime.enter, if_neg hij]
  | isTerminal id =>
    obtain ⟨_, _, rfl⟩ | ⟨hf, _, rfl⟩ := serve_isTerminal h
    · exact hi
    have hnew : ∀ k, s.jobs id = some k → k.owner = .nobody ∧ k.progress = {} := by
      intro k hk
      rcases hg with hg | hg
      · simp [hf] at hg
      · have ho : k.owner = .nobody := (hi.tickets _ _ hk).nobody.mpr (by
          simpa [Runtime.handedOver, hk] using hg)
        exact ⟨ho, (hi.tickets _ _ hk).fresh (.inl ho)⟩
    exact
      { tickets := sound_give hi (fun i hid k hk => (hnew k (hid ▸ hk)).2) (by simp) (by simp)
        distinct := hi.distinct
        queued := fun i => (hi.queued i).trans <| by
          rw [owner_give]
          split_ifs with hij
          · subst hij
            exact ⟨fun ⟨k, hk, ho⟩ => by simp [(hnew k hk).1] at ho, fun hf => by simp at hf⟩
          · exact Iff.rfl
        drained := hi.drained
        exited := fun he => ⟨(hi.exited he).1, hw he⟩
        stopper := hi.stopper, unstopped := hi.unstopped }
  | push task =>
    cases h
    obtain ⟨k, hk, ho, hp⟩ := ha
    have hnot : task.id ∉ s.tasks.map JobRun.id := fun hm => by
      obtain ⟨k', hk', ho'⟩ := (hi.queued task.id).mp hm
      cases hk.symm.trans hk'
      simp [ho] at ho'
    exact
      { tickets := sound_give hi
          (fun i hid k' hk' => by cases hk.symm.trans (hid ▸ hk'); exact hp) (by simp) (by simp)
        distinct := by
          rw [List.map_append, List.nodup_append]
          refine ⟨hi.distinct, by simp, fun i him i' hi' he => hnot ?_⟩
          rw [List.map_singleton, List.mem_singleton] at hi'
          exact hi' ▸ he ▸ him
        queued := fun i => by
          rw [List.map_append, List.mem_append, hi.queued i, owner_give]
          split_ifs with hij
          · simp [hij, hk]
          · simp [hij]
        drained := fun hd => absurd (hd.symm.trans hg) (by simp)
        exited := fun he => ⟨(hi.exited he).1, hw he⟩
        stopper := hi.stopper, unstopped := hi.unstopped }
  | take =>
    obtain ⟨hst, _, rfl⟩ | ⟨task, rest, hst, htasks, _, rfl⟩ := serve_take h
    · exact
        { tickets := hi.tickets, distinct := hi.distinct, queued := hi.queued
          drained := fun hd => ⟨(hi.drained hd).1, rfl⟩
          exited := fun _ => ⟨hst, ha.2⟩
          stopper := hi.stopper, unstopped := hi.unstopped }
    have hnd : (task.id :: rest.map JobRun.id).Nodup := by
      simpa [htasks] using hi.distinct
    obtain ⟨k, hk, ho⟩ := (hi.queued task.id).mp (by simp [htasks])
    exact
      { tickets := sound_give hi (fun i hid k' hk' => by
          cases hk.symm.trans (hid ▸ hk')
          exact (hi.tickets _ _ hk).fresh (.inr ho)) (by simp) (by simp)
        distinct := hnd.of_cons
        queued := fun i => by
          rw [owner_give]
          split_ifs with hij
          · subst hij
            simp only [List.nodup_cons] at hnd
            simp [hnd.1]
          · rw [← hi.queued i]
            simp [htasks, hij]
        drained := fun hd => by simp [(hi.drained hd).1] at htasks
        exited := fun he => ⟨(hi.exited he).1, hw he⟩
        stopper := hi.stopper, unstopped := hi.unstopped }
  | swap =>
    cases h
    exact
      { tickets := sound_give hi (fun i hid k hk => by
          obtain ⟨k', hk', ho⟩ := (hi.queued i).mp hid
          cases hk.symm.trans hk'
          exact (hi.tickets _ _ hk).fresh (.inr ho)) (by simp) (by simp)
        distinct := List.nodup_nil
        queued := fun i => by
          rw [owner_give]
          split_ifs with hij
          · simp
          · rw [← hi.queued i]
            simpa using hij
        drained := fun _ => ⟨rfl, ha.2⟩
        exited := fun he => ⟨(hi.exited he).1, hw he⟩
        stopper := hi.stopper, unstopped := hi.unstopped }
  | exchangeStopped =>
    cases h
    obtain ⟨u, rfl⟩ := Option.ne_none_iff_exists'.mp ha
    refine
      { tickets := hi.tickets, distinct := hi.distinct, queued := hi.queued
        drained := hi.drained, exited := hi.exited
        stopper := ?_, unstopped := ?_ }
    · cases hs : s.stopped
      · simp
      · simpa using hi.stopper.mp hs
    · cases hs : s.stopped
      · simp
      · simpa using hi.unstopped
  | setStopping =>
    cases h
    exact { hi with exited := fun he => ⟨rfl, (hi.exited he).2⟩ }
  | readStopping | settle =>
    cases h
    exact hi
  | join =>
    rw [(serve_join h).2]
    exact hi

end Tickets

/-! ### What a thread sees of the others -/

section Programs
variable {κ : Type} {t : Option κ} {s s' : Runtime κ} {L : List Bytes}

/-- The world of a thread of the runtime. -/
abbrev around (t : Option κ) : World Rt (Runtime κ) := (runtime κ).world (guard κ) (contract κ) t

/-- What others leave alone: the jobs of thread `t` and those that are over. -/
structure Beside (t : Option κ) (s s' : Runtime κ) : Prop where
  kept : ∀ id k, s.jobs id = some k → k.owner = .thread t ∨ k.owner = .ended → s'.jobs id = some k
  none : ∀ id k, s'.jobs id = some k → k.owner = .thread t → s.jobs id = some k
  known : ∀ id, (s.jobs id).isSome = true → (s'.jobs id).isSome = true
  stopper : s'.stopper = some t ↔ s.stopper = some t
  drained : s.drained = true → s'.drained = true
  exited : s.exited = true → s'.exited = true

theorem beside_refl : Beside t s s := ⟨fun _ _ h _ => h, fun _ _ h _ => h, fun _ h => h, .rfl, id, id⟩

theorem beside_of_within {j : Option κ} (hj : j ≠ t) (hw : Within j s s')
    (hstop : s'.stopper = some t ↔ s.stopper = some t) (hd : s.drained = true → s'.drained = true)
    (he : s.exited = true → s'.exited = true) : Beside t s s' where
  kept id k hk ho := by
    rcases hw id with heq | ⟨hno, _⟩
    · exact heq ▸ hk
    · rcases ho with ho | ho
      · exact absurd ((hno k hk).2 t ho).symm hj
      · exact absurd ho (hno k hk).1
  none id k hk ho := by
    rcases hw id with heq | ⟨_, hno, _⟩
    · exact heq ▸ hk
    · exact absurd (hno k hk t ho).symm hj
  known id hs := by
    rcases hw id with heq | ⟨_, _, hsome⟩
    · exact heq ▸ hs
    · exact hsome hs
  stopper := hstop
  drained := hd
  exited := he

theorem beside_others (h : (around t).others s s') : Beside t s s' := by
  cases h with
  | event e => exact e.elim
  | start j hj task p hi hs =>
    have : s' = s := by
      cases j <;> cases task <;> simp only [runtime, Option.ite_none_right_eq_some,
        Option.ite_none_left_eq_some, Option.some.injEq, Prod.mk.injEq, reduceCtorEq] at hs
      all_goals first | exact hs.2.2.symm | exact hs.2.symm
    exact this ▸ beside_refl
  | serve j hj c ch a hi hg ha hs =>
    have hw := within_serve hi hg ha hs
    replace hs : Runtime.serve j c ch s = some (a, s') := hs
    cases c with
    | job id c =>
      rw [serve_job hs] at hw ⊢
      exact beside_of_within hj hw .rfl (fun h => h) fun h => h
    | create id submitted =>
      obtain ⟨_, rfl⟩ := serve_create hs
      exact beside_of_within hj hw .rfl (fun h => h) fun h => h
    | isTerminal id =>
      obtain ⟨_, _, rfl⟩ | ⟨_, _, rfl⟩ := serve_isTerminal hs
      all_goals exact beside_of_within hj hw .rfl (fun h => h) fun h => h
    | take =>
      obtain ⟨_, _, rfl⟩ | ⟨task, rest, _, _, _, rfl⟩ := serve_take hs
      · exact beside_of_within hj hw .rfl (fun h => h) fun _ => rfl
      · exact beside_of_within hj hw .rfl (fun h => h) fun h => h
    | join =>
      rw [(serve_join hs).2]
      exact beside_refl
    | exchangeStopped =>
      cases hs
      refine beside_of_within hj hw ?_ (fun h => h) fun h => h
      dsimp only
      split_ifs with hst
      · exact .rfl
      · refine ⟨fun h => absurd (Option.some.inj h) hj, fun h => ?_⟩
        obtain ⟨u, rfl⟩ : ∃ u, t = some u := by
          cases t with
          | none => exact absurd h hi.unstopped
          | some u => exact ⟨u, rfl⟩
        exact absurd (hi.stopper.mpr ⟨u, h⟩) hst
    | swap =>
      cases hs
      exact beside_of_within hj hw .rfl (fun _ => rfl) fun h => h
    | push _ | readStopping | settle | setStopping =>
      cases hs
      exact beside_of_within hj hw .rfl (fun h => h) fun h => h

theorem Held.beside (h : Held t L s) (hb : Beside t s s') : Held t L s' where
  only id k hk ho := h.only id k (hb.none id k hk ho) ho
  mine id hid := by
    obtain ⟨k, hk, ho, hp⟩ := h.mine id hid
    exact ⟨k, hb.kept id k hk (.inl ho), ho, hp⟩
  distinct := h.distinct
  duty hs := hb.drained (h.duty (hb.stopper.mp hs))

theorem stable_held : Stable (around t) (Held t L) := fun _ _ h ho => h.beside (beside_others ho)

/-! ### The programs of the threads -/

/-- Thread `t` is at the calls of a job, and has the jobs `L` besides. -/
structure Running (t : Option κ) (j : JobRun) (L : List Bytes) (s : Runtime κ) : Prop where
  here : ∃ k, s.jobs j.id = some k ∧
    k.owner = if k.progress.finished then .ended else .thread t
  only : ∀ id k, s.jobs id = some k → k.owner = .thread t → id ∈ j.id :: L
  mine : ∀ id ∈ L, ∃ k, s.jobs id = some k ∧ k.owner = .thread t ∧ k.progress = {}
  distinct : (j.id :: L).Nodup
  duty : s.stopper = some t → s.drained = true

def progressOf (id : Bytes) (s : Runtime κ) : Progress :=
  match s.jobs id with
  | some k => k.progress
  | none => {}

theorem Running.beside {j : JobRun} (h : Running t j L s) (hb : Beside t s s') :
    Running t j L s' ∧ progressOf j.id s' = progressOf j.id s := by
  obtain ⟨k, hk, ho⟩ := h.here
  have hk' : s'.jobs j.id = some k := hb.kept _ _ hk (by
    rw [ho]
    split_ifs <;> simp)
  refine ⟨⟨⟨k, hk', ho⟩, fun id k hk ho => h.only id k (hb.none id k hk ho) ho, fun id hid => ?_,
    h.distinct, fun hs => hb.drained (h.duty (hb.stopper.mp hs))⟩, by simp [progressOf, hk, hk']⟩
  obtain ⟨k, hk, ho, hp⟩ := h.mine id hid
  exact ⟨k, hb.kept id k hk (.inl ho), ho, hp⟩

/-- A call of the job at hand. -/
theorem Running.note {j : JobRun} {c : Call} (h : Running t j L s) (a : c.Answer) :
    let s' := s.change (· = j.id) fun k => k.note c a
    Running t j L s' ∧ progressOf j.id s' = (progressOf j.id s).post ⟨c, a⟩ := by
  obtain ⟨k, hk, ho⟩ := h.here
  have hj : (s.change (· = j.id) fun k => k.note c a).jobs j.id = some (k.note c a) := by
    simp [Runtime.change, hk]
  have hne : ∀ id ≠ j.id, (s.change (· = j.id) fun k => k.note c a).jobs id = s.jobs id :=
    fun id hid => by simp [Runtime.change, hid]
  refine ⟨⟨⟨_, hj, ?_⟩, fun id k' hk' ho' => ?_, fun id hid => ?_, h.distinct, h.duty⟩, ?_⟩
  · simp only [Ticket.note, finished_post, ho]
    cases k.progress.finished <;> cases isFinish c <;> simp
  · by_cases hid : id = j.id
    · exact hid ▸ List.mem_cons_self
    · exact h.only id k' (hne id hid ▸ hk') ho'
  · have hid' : id ≠ j.id := fun e => by
      have := h.distinct
      simp [← e, hid] at this
    rw [hne id hid']
    exact h.mine id hid
  · simp only [progressOf, hj, hk]
    rfl

/-- **A part of the job engine** on behalf of a job that the thread has: what it does to the job is
what the progress of a job allows, whatever the other threads do meanwhile. -/
theorem safe_onBehalf {j : JobRun} {p : Prog Worker Unit}
    (hp : Safe (log j) (fun _ g => g.finished = true) p {}) (h : Held t (j.id :: L) s) :
    Safe (around t) (fun _ => Held t L) (onBehalf j.id p) s := by
  obtain ⟨k, hk, ho, hfresh⟩ := h.mine j.id List.mem_cons_self
  have hrun : Running t j L s := ⟨⟨k, hk, by simp [ho, hfresh]⟩, h.only,
    fun id hid => h.mine id (List.mem_cons_of_mem _ hid), h.distinct, h.duty⟩
  have hview : progressOf j.id s = {} := by simp [progressOf, hk, hfresh]
  rw [← hview] at hp
  have hsim : Safe ((around t).pull (RtCall.job j.id) fun _ a => a)
      (fun _ s => Running t j L s ∧ (progressOf j.id s).finished = true) p s := by
    refine Safe.simulate (fun s s' hr hs => hr.beside (beside_others hs)) ?_ ?_ hrun hp
    · rintro c s a s' hr _ ⟨b, ⟨_, ch, _, hs⟩, rfl⟩
      rw [serve_job (t := t) hs]
      exact hr.note b
    · intro c s hr ha
      obtain ⟨k, hk, ho⟩ := hr.here
      have hpk : progressOf j.id s = k.progress := by simp [progressOf, hk]
      refine ⟨j, k, rfl, hk, hpk ▸ ha, ?_⟩
      cases hf : k.progress.finished with
      | false => exact .inl (by simpa [hf] using ho)
      | true =>
        rw [hpk] at ha
        exact .inr (releases_of_admits ha hf)
  refine Safe.embed (hsim.mono ?_)
  rintro _ s ⟨hr, hf⟩
  obtain ⟨k, hk, ho⟩ := hr.here
  have hpk : progressOf j.id s = k.progress := by simp [progressOf, hk]
  refine ⟨fun id k' hk' ho' => ?_, hr.mine, hr.distinct.of_cons, hr.duty⟩
  rcases List.mem_cons.mp (hr.only id k' hk' ho') with rfl | hmem
  · cases hk.symm.trans hk'
    simp [← hpk, hf, ho'] at ho
  · exact hmem

theorem safe_giveUp {task : JobRun} {reason : FailureReason} (h : Held t (task.id :: L) s) :
    Safe (around t) (fun _ => Held t L) (giveUp task.id reason) s :=
  safe_onBehalf (safe_terminate ⟨rfl, rfl, rfl, rfl, le_rfl, Nat.zero_le _, fun h => by cases h⟩
    rfl (by simp [JobResult.failed]) fun _ h => h) h

/-- An access that leaves the jobs alone. -/
theorem safe_access {α : Type} {P : Runtime κ → Prop} {Q : α → Runtime κ → Prop} {c : RtCall}
    {f : c.Answer → Prog Rt α} (hP : Stable (around t) P) (hc : ∀ s, P s → Allowed t c s)
    (R : c.Answer → Runtime κ → Prop)
    (hR : ∀ s a s', P s → Inv s → (∃ ch, (guard κ).serve t c ch s ∧
      Runtime.serve t c ch s = some (a, s')) → R a s')
    (hf : ∀ a, Triple (around t) (R a) (f a) Q) :
    Triple (around t) P ((perform (E := Rt) c : Prog Rt c.Answer) >>= f) Q :=
  Triple.call hP hc R (fun s a s' hs ⟨hi, h⟩ => hR s a s' hs hi h) hf

theorem jobs_give {P : Bytes → Prop} [DecidablePred P] {owner : Owner κ} {id : Bytes} {k : Ticket κ}
    (h : (s.give P owner).jobs id = some k) :
    P id ∧ k.owner = owner ∨ ¬ P id ∧ s.jobs id = some k := by
  by_cases hP : P id
  · simp only [Runtime.give, Runtime.change, if_pos hP] at h
    obtain ⟨k₀, _, rfl⟩ := Option.map_eq_some_iff.mp h
    exact .inl ⟨hP, rfl⟩
  · simp only [Runtime.give, Runtime.change, if_neg hP] at h
    exact .inr ⟨hP, h⟩

/-- Thread `t`, which has no job, is given the jobs `L`. -/
theorem held_give {P : Bytes → Prop} [DecidablePred P] (hP : ∀ id, P id ↔ id ∈ L) (hL : L.Nodup)
    (hno : ∀ id k, s.jobs id = some k → k.owner ≠ .thread t)
    (hnew : ∀ id ∈ L, ∃ k, s.jobs id = some k ∧ k.progress = {})
    (hd : s.stopper = some t → s.drained = true) : Held t L (s.give P (.thread t)) where
  only id k hk ho := by
    obtain ⟨h, _⟩ | ⟨_, h⟩ := jobs_give hk
    · exact (hP id).mp h
    · exact absurd ho (hno id k h)
  mine id hid := by
    obtain ⟨k, hk, hp⟩ := hnew id hid
    refine ⟨{ k with owner := .thread t, taken := true }, ?_, rfl, hp⟩
    simp only [Runtime.give, Runtime.change, if_pos ((hP id).mpr hid), hk, Option.map_some]
  distinct := hL
  duty := hd

theorem held_push {task : JobRun} (h : Held t [task.id] s) :
    Held t [] { s.give (· = task.id) .queue with tasks := s.tasks ++ [task] } where
  only id k hk ho := by
    have hk : (s.give (· = task.id) .queue).jobs id = some k := hk
    obtain ⟨_, hq⟩ | ⟨hne, hk⟩ := jobs_give hk
    · cases hq.symm.trans ho
    · exact absurd (List.mem_singleton.mp (h.only id k hk ho)) hne
  mine := by simp
  distinct := List.nodup_nil
  duty := h.duty

theorem held_enter {id : Bytes} {submitted : Bool} (h : Held t [] s) :
    Held t (if submitted then [id] else [])
      (s.enter id ⟨if submitted then .thread t else .nobody, submitted, {}, 0, 0⟩) where
  only i k hk ho := by
    by_cases hid : i = id
    · simp only [Runtime.enter, if_pos hid] at hk
      cases hk
      cases submitted
      · cases ho
      · simp [hid]
    · simp only [Runtime.enter, if_neg hid] at hk
      exact absurd (h.only i k hk ho) List.not_mem_nil
  mine i hi := by
    cases submitted
    · simp at hi
    · rw [if_pos rfl, List.mem_singleton] at hi
      subst hi
      exact ⟨⟨.thread t, true, {}, 0, 0⟩, by simp [Runtime.enter], rfl, rfl⟩
  distinct := by cases submitted <;> simp
  duty := h.duty

theorem safe_enqueue {task : JobRun} :
    Triple (around t) (Held t [task.id]) (enqueue task) fun _ => Held t [] := by
  refine safe_access (c := .readStopping) stable_held (fun _ _ => trivial)
    (fun _ => Held t [task.id]) ?_ fun stopping => ?_
  · rintro s a s' h _ ⟨_, _, hs⟩
    cases hs
    exact h
  split_ifs
  · exact fun s h => safe_giveUp h
  · refine Triple.perform stable_held (fun s h => h.mine _ List.mem_cons_self)
      (fun _ => stable_held) ?_
    rintro s a s' h ⟨_, _, _, hs⟩
    cases hs
    exact held_push h

theorem safe_submit {task : JobRun} (ht : t ≠ none) :
    Triple (around t) (Held t []) (submit task) fun _ => Held t [] := by
  refine safe_access (c := .create task.id true) stable_held (fun _ _ => ht)
    (fun _ => Held t [task.id]) ?_ fun _ => safe_enqueue
  rintro s a s' h _ ⟨_, _, hs⟩
  obtain ⟨_, rfl⟩ := serve_create hs
  exact (held_enter h : Held t (if true then [task.id] else []) _)

theorem safe_reserve {id : Bytes} (ht : t ≠ none) :
    Triple (around t) (Held t []) (reserve id) fun _ => Held t [] := by
  refine safe_access (c := .create id false) stable_held (fun _ _ => ht) (fun _ => Held t []) ?_
    fun _ => Triple.ret stable_held fun _ h => h
  rintro s a s' h _ ⟨_, _, hs⟩
  obtain ⟨_, rfl⟩ := serve_create hs
  exact (held_enter h : Held t (if false then [id] else []) _)

theorem safe_submitReserved {task : JobRun} (ht : t ≠ none) :
    Triple (around t) (fun s => Held t [] s ∧ (s.jobs task.id).isSome = true)
      (submitReserved task) fun _ => Held t [] := by
  refine safe_access (c := .isTerminal task.id) ?_ (fun _ _ => ht)
    (fun terminal => if terminal then Held t [] else Held t [task.id]) ?_ fun terminal => ?_
  · exact fun s s' h ho =>
      ⟨stable_held s s' h.1 ho, (beside_others ho).known task.id h.2⟩
  · rintro s a s' ⟨h, hsome⟩ hi ⟨_, hg, hs⟩
    obtain ⟨_, rfl, rfl⟩ | ⟨hf, rfl, rfl⟩ := serve_isTerminal hs
    · exact h
    · refine held_give (by simp) (by simp) (fun id k hk ho => by simpa using h.only id k hk ho) ?_
        h.duty
      intro id hid
      cases List.mem_singleton.mp hid
      obtain ⟨k, hk⟩ := Option.isSome_iff_exists.mp hsome
      refine ⟨k, hk, (hi.tickets _ _ hk).fresh (.inl ?_)⟩
      rcases hg with hg | hg
      · simp [hf] at hg
      · exact (hi.tickets _ _ hk).nobody.mpr (by simpa [Runtime.handedOver, hk] using hg)
  · cases terminal
    · exact safe_enqueue
    · exact Triple.ret stable_held fun _ h => h

theorem safe_cancelAll : ∀ {tasks : List JobRun},
    Triple (around t) (Held t (tasks.map JobRun.id)) (cancelAll tasks) fun _ => Held t []
  | [] => Triple.ret stable_held fun _ h => h
  | _ :: _ => Triple.bind (fun _ h => safe_giveUp h) fun _ => safe_cancelAll

/-- The thread stops the runtime, and the queue is still to be emptied. -/
structure Stopping (t : Option κ) (s : Runtime κ) : Prop where
  only : ∀ id k, s.jobs id = some k → k.owner ≠ .thread t
  stopper : s.stopper = some t

theorem stable_stopping : Stable (around t) (Stopping t) := fun _ _ h ho =>
  have hb := beside_others ho
  ⟨fun id k hk hown => h.only id k (hb.none id k hk hown) hown, hb.stopper.mpr h.stopper⟩

theorem safe_stop (ht : t ≠ none) :
    Triple (around t) (Held t []) stop fun _ => Held t [] := by
  refine safe_access (c := .exchangeStopped) stable_held (fun _ _ => ht)
    (fun stopped => if stopped then Held t [] else Stopping t) ?_ fun stopped => ?_
  · rintro s a s' h hi ⟨_, _, hs⟩
    cases hs
    cases hst : s.stopped
    · exact ⟨fun id k hk ho => by simpa using h.only id k hk ho, by simp⟩
    · exact { h with duty := by simpa using h.duty }
  cases stopped
  case true => exact Triple.ret stable_held fun _ h => h
  refine safe_access (c := .setStopping) stable_stopping (fun _ _ => trivial)
    (fun _ => Stopping t) ?_ fun _ => ?_
  · rintro s a s' h _ ⟨_, _, hs⟩
    cases hs
    exact ⟨h.only, h.stopper⟩
  refine safe_access (c := .join) stable_stopping (fun _ _ => trivial)
    (fun _ s => Stopping t s ∧ s.exited = true) ?_ fun _ => ?_
  · rintro s a s' h _ ⟨_, _, hs⟩
    obtain ⟨he, rfl⟩ := serve_join hs
    exact ⟨h, he⟩
  refine safe_access (c := .swap) ?_ (fun _ h => ⟨ht, h.2⟩)
    (fun leftovers => Held t (leftovers.map JobRun.id)) ?_ fun leftovers => safe_cancelAll
  · exact fun s s' h ho => ⟨stable_stopping s s' h.1 ho, (beside_others ho).exited h.2⟩
  · rintro s a s' ⟨h, he⟩ hi ⟨_, _, hs⟩
    cases hs
    have hheld : Held t (s.tasks.map JobRun.id)
        ({ s with drained := true }.give (· ∈ s.tasks.map JobRun.id) (.thread t)) := by
      refine held_give (fun _ => .rfl) hi.distinct h.only (fun id hid => ?_) fun _ => rfl
      obtain ⟨k, hk, ho⟩ := (hi.queued id).mp hid
      exact ⟨k, hk, (hi.tickets _ _ hk).fresh (.inr ho)⟩
    exact ⟨hheld.only, hheld.mine, hheld.distinct, hheld.duty⟩

theorem safe_turn : Triple (around (none : Option κ)) (Held none []) turn fun _ => Held none [] := by
  refine safe_access (c := .take) stable_held
    (fun s h => ⟨rfl, fun id k hk ho => by simpa using h.only id k hk ho⟩)
    (fun task => Held none (task.toList.map JobRun.id)) ?_ fun task => ?_
  · rintro s a s' h hi ⟨_, _, hs⟩
    obtain ⟨_, rfl, rfl⟩ | ⟨task, rest, _, htasks, rfl, rfl⟩ := serve_take hs
    · exact ⟨h.only, h.mine, h.distinct, h.duty⟩
    · have hheld : Held none [task.id] (s.give (· = task.id) (.thread none)) := by
        refine held_give (by simp) (by simp) (fun id k hk ho => by simpa using h.only id k hk ho)
          (fun id hid => ?_) h.duty
        obtain ⟨k, hk, ho⟩ := (hi.queued id).mp (by simp_all)
        exact ⟨k, hk, (hi.tickets _ _ hk).fresh (.inr ho)⟩
      exact ⟨hheld.only, hheld.mine, hheld.distinct, hheld.duty⟩
  cases task with
  | none => exact Triple.ret stable_held fun _ h => h
  | some task =>
    have hfresh : Fresh task {} := ⟨.inl rfl, rfl, rfl, rfl, rfl, rfl⟩
    refine Triple.bind (fun s h => safe_onBehalf (runJob_progress hfresh) h) fun _ => ?_
    refine Triple.perform stable_held (fun _ _ => trivial) (fun _ => stable_held) ?_
    rintro s a s' h ⟨_, _, _, hs⟩
    cases hs
    exact h

theorem guarded (κ : Type) : (runtime κ).Guarded (guard κ) (contract κ) where
  serve _ _ _ _ _ _ hi hg ha hs := hi.serve hg ha hs
  event e := e.elim
  start t task s p s' hi hs := by
    cases t <;> cases task <;> simp only [runtime, Option.ite_none_right_eq_some,
      Option.ite_none_left_eq_some, Option.some.injEq, Prod.mk.injEq, reduceCtorEq] at hs
    case none.turn => exact hs.2.2 ▸ hi
    case some.submitReserved => exact hs.2.2 ▸ hi
    all_goals exact hs.2 ▸ hi
  restart r := r.elim
  program t task s p s' hi hr hs := by
    cases t <;> cases task <;> simp only [runtime, Option.ite_none_right_eq_some,
      Option.ite_none_left_eq_some, Option.some.injEq, Prod.mk.injEq, reduceCtorEq] at hs
    case none.turn =>
      obtain ⟨_, rfl, rfl⟩ := hs
      exact safe_turn s hr
    case some.submitReserved =>
      obtain ⟨hsome, rfl, rfl⟩ := hs
      exact safe_submitReserved (by simp) s ⟨hr, hsome⟩
    all_goals obtain ⟨rfl, rfl⟩ := hs
    case some.submit => exact safe_submit (by simp) s hr
    case some.reserve => exact safe_reserve (by simp) s hr
    case some.stop => exact safe_stop (by simp) s hr

end Programs

/-! ### Shutdown -/

section Shutdown
variable {κ : Type}

theorem inv_init : Inv ({} : Runtime κ) where
  tickets _ _ h := by cases h
  distinct := List.nodup_nil
  queued id := ⟨fun h => by simp at h, fun ⟨_, h, _⟩ => by cases h⟩
  drained h := by cases h
  exited h := by cases h
  stopper := ⟨fun h => (by cases h), fun ⟨_, h⟩ => (by cases h)⟩
  unstopped h := by cases h

theorem held_init (t : Option κ) : Held t [] ({} : Runtime κ) :=
  ⟨fun _ _ h => (by cases h), by simp, List.nodup_nil, fun h => (by cases h)⟩

def returned : Prog Rt Unit → Bool
  | .ret _ => true
  | .call _ _ => false

variable [DecidableEq κ]

/-- **Shutdown leaves no job behind**, if no task is pushed after the queue was taken and no job is
handed over twice: no job ends twice, and once `stop` and the other calls have returned every job
that was submitted or handed over has ended. -/
theorem shutdown_complete {cfg : Config Rt (Option κ) (Runtime κ)}
    (h : (runtime κ).Reach (guard κ) {} cfg) :
    (∀ id k, cfg.state.jobs id = some k → k.endings ≤ 1 ∧ k.finishes ≤ 1) ∧
      (cfg.state.stopped = true → (∀ t : κ, returned (cfg.prog (some t)) = true) →
        ∀ id k, cfg.state.jobs id = some k → k.taken = true →
          k.progress.state.isTerminal = true ∧ k.progress.finished = true) := by
  obtain ⟨hi, hsafe⟩ := (guarded κ).reach inv_init
    (fun t => Triple.ret stable_held (fun _ h => h) _ (held_init t)) h
  refine ⟨fun id k hk => ?_, fun hstop hret id k hk htaken => ?_⟩
  · have hs := hi.tickets id k hk
    exact ⟨hs.endings ▸ Bool.toNat_le _, hs.finishes ▸ Bool.toNat_le _⟩
  · have hs := hi.tickets id k hk
    have hidle : ∀ t : κ, Held (some t) [] cfg.state := fun t => by
      have ht := hsafe (some t)
      cases hp : cfg.prog (some t) with
      | ret a =>
        rw [hp] at ht
        exact ht.ret
      | call c q => exact absurd (hret t) (by simp [hp, returned])
    obtain ⟨t, ht⟩ := hi.stopper.mp hstop
    obtain ⟨hempty, hexit⟩ := hi.drained ((hidle t).duty ht)
    have hover : k.owner = .ended := by
      cases ho : k.owner with
      | ended => rfl
      | nobody => simp [hs.nobody.mp ho] at htaken
      | queue =>
        have := (hi.queued id).mpr ⟨k, hk, ho⟩
        simp [hempty] at this
      | thread u =>
        cases u with
        | none => exact absurd ho ((hi.exited hexit).2 id k hk)
        | some u => simpa using (hidle u).only id k hk ho
    have hf := hs.closed.mp hover
    exact ⟨hs.ended hf, hf⟩

end Shutdown

/-! ### Two runs -/

instance (κ : Type) (t : Option κ) (c : RtCall) (ch : (runtime κ).Choice) (s : Runtime κ) :
    Decidable ((guard κ).serve t c ch s) := by
  cases c <;> simp only [guard] <;> infer_instance

instance (κ : Type) (r : (runtime κ).Restart) (s : Runtime κ) :
    Decidable ((guard κ).restart r s) := .isTrue trivial

instance (κ : Type) (e : (runtime κ).Event) (s : Runtime κ) : Decidable ((guard κ).event e s) :=
  .isTrue trivial

/-- A receipt, submitted by one thread while another stops the runtime. -/
def receipt : JobRun where
  id := str "job-1"
  key := str "order-7"
  payload := .raw (str "hello")
  options := {}
  attempt := 1
  banner := false
  profile := {}
  widthDots := 576
  codecs := Core.Encoder.plainCodecs
  completionMethod := fun _ => none

def go : (c : Call) → Option c.Answer
  | .recordState _ _ _ _ _ | .emit _ _ | .finish _ _ => some ()
  | _ => none

/-- The steps of one thread. -/
def steps (t : Option Bool) (n : ℕ) : List (runtime Bool).Move := List.replicate n (.serve t go)

/-- The receipt is in the queue before `stop` begins. -/
def inTime : List (runtime Bool).Move :=
  [.start (some false) (.submit receipt)] ++ steps (some false) 3 ++ [.start (some true) .stop] ++
    steps (some true) 2 ++ [.start none .turn] ++ steps none 1 ++ steps (some true) 5

/-- Whether both calls have returned, and what became of the receipt. -/
def outcome (cfg : Config Rt (Option Bool) (Runtime Bool)) : Bool × Bool × Bool × Bool :=
  (cfg.state.stopped, returned (cfg.prog (some false)) && returned (cfg.prog (some true)),
    cfg.state.handedOver receipt.id, cfg.state.finished receipt.id)

theorem outcome_eq {cfg : Config Rt (Option Bool) (Runtime Bool)} {done : Bool}
    (h : outcome cfg = (true, true, true, done)) :
    cfg.state.stopped = true ∧ (∀ t : Bool, returned (cfg.prog (some t)) = true) ∧
      ∃ k, cfg.state.jobs receipt.id = some k ∧ k.taken = true ∧ k.progress.finished = done := by
  simp only [outcome, Prod.mk.injEq, Bool.and_eq_true, Runtime.handedOver, Runtime.finished] at h
  obtain ⟨hs, ⟨hf, ht⟩, htaken, hdone⟩ := h
  refine ⟨hs, fun t => by cases t <;> assumption, ?_⟩
  cases hk : cfg.state.jobs receipt.id with
  | none => simp [hk] at htaken
  | some k => exact ⟨k, rfl, by simpa [hk] using htaken, by simpa [hk] using hdone⟩

theorem inTime_complete : ∃ cfg : Config Rt (Option Bool) (Runtime Bool),
    (runtime Bool).Reach (guard Bool) {} cfg ∧ ∃ k, cfg.state.jobs receipt.id = some k ∧
      k.endings ≤ 1 ∧ k.finishes ≤ 1 ∧ k.progress.state.isTerminal = true := by
  have hrun : (replay (guard Bool) inTime (idle {})).map outcome = some (true, true, true, true) := by
    decide +kernel
  obtain ⟨cfg, hr, ho⟩ := Option.map_eq_some_iff.mp hrun
  obtain ⟨hs, hret, k, hk, htaken, _⟩ := outcome_eq ho
  have hreach := reach_of_replay .init hr
  obtain ⟨honce, hall⟩ := shutdown_complete hreach
  obtain ⟨he, hf⟩ := honce _ k hk
  exact ⟨cfg, hreach, k, hk, he, hf, (hall hs hret _ k hk htaken).1⟩

/-- The flag is read before `stop` begins, and the receipt pushed after `stop` has returned. -/
def late : List (runtime Bool).Move :=
  [.start (some false) (.submit receipt)] ++ steps (some false) 2 ++ [.start (some true) .stop] ++
    steps (some true) 2 ++ [.start none .turn] ++ steps none 1 ++ steps (some true) 2 ++
    steps (some false) 1

/-- A receipt that is left behind. -/
theorem late_left : ¬ ∀ cfg : Config Rt (Option Bool) (Runtime Bool),
    (runtime Bool).Reach (.none _) {} cfg → cfg.state.stopped = true →
      (∀ t : Bool, returned (cfg.prog (some t)) = true) →
        ∀ id k, cfg.state.jobs id = some k → k.taken = true → k.progress.finished = true := by
  intro hall
  have hrun : (replay (.none _) late (idle {})).map outcome = some (true, true, true, false) := by
    decide +kernel
  obtain ⟨cfg, hr, ho⟩ := Option.map_eq_some_iff.mp hrun
  obtain ⟨hs, hret, k, hk, htaken, hdone⟩ := outcome_eq ho
  have := hall cfg (reach_of_replay .init hr) hs hret _ k hk htaken
  simp [hdone] at this

end PrinterDriver.Engine.Shutdown
