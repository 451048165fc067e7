import PrinterDriver.Engine.Driver
import PrinterDriver.Queue.QueueRuns

/-! # Submissions whose journal fails

`Printer::print`, `reserveJob` and `PrintQueue::enqueue` with the appends they make: the creation of
the job, and the job's first transition where the runtime is stopping or the lane does not drain. A
call throws when an append fails. The key is bound once the job is created, so a failure of the
second append leaves it bound to a job that nobody has (`stranded_iff`). -/

namespace PrinterDriver.Queue.Submissions

open PrinterDriver.Core.Types PrinterDriver.Core.Journal PrinterDriver.Core.Store
  PrinterDriver.Core.StoreRuns
open PrinterDriver.Engine.Ops PrinterDriver.Engine.RunJob PrinterDriver.Engine.Driver
open PrinterDriver.Queue.PrintQueue PrinterDriver.Queue.Lanes PrinterDriver.Queue.QueueRuns

/-- The driver and the queue, and which runtimes are stopping. -/
structure Desk where
  driver : State
  queue : QueueState := {}
  stopping : Bytes → Bool := fun _ => false

/-- What a call draws, when its second append is made, and which of its appends fail, after how many
bytes. -/
structure Luck where
  draw : State.Draw
  createFault : Option ℕ := none
  recordedAt : UInt64 := 0
  recordFault : Option ℕ := none

/-- What a call gives back. -/
inductive Reply where
  | job (id : Option Bytes)
  | thrown (error : StoreError)
  deriving DecidableEq

/-- What `reserve` gives back, and whether it created the job. -/
inductive Reserved where
  | existing (id : Option Bytes)
  | created (id : Bytes)
  | thrown (error : StoreError)
  deriving DecidableEq

def Reserved.reply : Reserved → Reply
  | .existing id => .job id
  | .created id => .job (some id)
  | .thrown error => .thrown error

/-! ### Appends -/

/-- An append, which may fail. -/
def tryAppend (s : State) (op : StoreOp) (fault : Option ℕ) : Option StoreError × State :=
  ((op.apply s.store fault).1, { s with store := (op.apply s.store fault).2 })

/-- Persist, then publish. -/
def advance (s : State) (now : UInt64) (id : Bytes) (state : JobState) (reason : FailureReason)
    (fault : Option ℕ) : Option StoreError × State :=
  match tryAppend s (.recordState now id state .transportAccepted reason {}) fault with
  | (none, s) =>
    (none, s.change id fun p =>
      { p with history := p.history ++ [⟨state, .transportAccepted, reason.published⟩] })
  | (some error, s) => (some error, s)

/-- `holdLocked`. -/
def hold (s : State) (now : UInt64) (id : Bytes) (fault : Option ℕ) : Option StoreError × State :=
  advance s now id .heldOffline .none fault

/-- `finishLocked` of the queue, and `terminate` of a job that never reached a worker. -/
def finish (s : State) (now : UInt64) (id : Bytes) (reason : FailureReason) (fault : Option ℕ) :
    Option StoreError × State :=
  match advance s now id .failedKnown reason fault with
  | (none, s) => (none, s.change id fun p => { p with result := some (JobResult.failed reason) })
  | (some error, s) => (some error, s)

/-- The record of a new job. -/
def newRecord (d : State.Draw) (key printerId : Bytes) (attempt : UInt32) (kind : PayloadKind)
    (bytes : UInt64) : JobRecord where
  id := d.id
  key := key
  printerId := printerId
  attempt := attempt
  payloadKind := kind
  payloadBytes := bytes

/-- A new job: in the journal, then in the index. Nobody has it yet. -/
def create (s : State) (d : State.Draw) (key printerId : Bytes) (attempt : UInt32)
    (kind : PayloadKind) (bytes : UInt64) (payload : Option Payload) (fault : Option ℕ) :
    Option StoreError × State :=
  match tryAppend s (.createJob d.now (newRecord d key printerId attempt kind bytes)) fault with
  | (none, s) =>
    (none, { s with
      jobs := Function.update s.jobs d.id (some
        { key := key, printerId := printerId, attempt := attempt, phase := .reserved
          history := [⟨.queued, .transportAccepted, none⟩] })
      byKey := Function.update s.byKey key (some
        { job := d.id, printerId := printerId, payload := payload, attempt := attempt }) })
  | (some error, s) => (some error, s)

/-! ### The calls -/

namespace Desk

def setDriver (k : Desk) (s : State) : Desk := { k with driver := s }

def setQueue (k : Desk) (q : QueueState) : Desk := { k with queue := q }

/-- The end of `submit` and of `submitReserved`: a runtime that is stopping fails the job, another
gets its task. -/
def launch (k : Desk) (luck : Luck) (id printerId : Bytes) (task : Task) : Reply × Desk :=
  if k.stopping printerId then
    match finish k.driver luck.recordedAt id .transportUnreachable luck.recordFault with
    | (none, s) => (.job (some id), k.setDriver s)
    | (some error, s) => (.thrown error, k.setDriver s)
  else (.job (some id), k.setDriver (k.driver.change id (Job.setPhase (.queued task))))

/-- `Printer::print`. -/
def print (k : Desk) (luck : Luck) (printerId : Bytes) (payload : Payload) (options : JobOptions) :
    Reply × Desk :=
  match k.driver.decideSubmit { printerId, payload := some payload, options } with
  | .existing id => (.job (some id), k)
  | .nothing => (.job none, k)
  | .create attempt _ =>
    match create k.driver luck.draw (State.effectiveKey options.key luck.draw) printerId attempt
      (kindOf payload) (payloadInputBytes payload) (some payload) luck.createFault with
    | (none, s) =>
      (k.setDriver s).launch luck luck.draw.id printerId ⟨payload, options, attempt, false⟩
    | (some error, s) => (.thrown error, k.setDriver s)

/-- `reserve`. -/
def reserve (k : Desk) (luck : Luck) (printerId key : Bytes) (kind : PayloadKind)
    (bytes : UInt64) : Reserved × Desk :=
  match k.driver.decideReserve key with
  | .existing id => (.existing (some id), k)
  | .nothing => (.existing none, k)
  | .create attempt payload =>
    match create k.driver luck.draw (State.effectiveKey key luck.draw) printerId attempt kind bytes
      payload luck.createFault with
    | (none, s) => (.created luck.draw.id, k.setDriver s)
    | (some error, s) => (.thrown error, k.setDriver s)

/-- `submitReserved` of a job that is new. -/
def submitReserved (k : Desk) (luck : Luck) (id key printerId : Bytes) (payload : Payload)
    (options : JobOptions) : Reply × Desk :=
  (k.setDriver { k.driver with
    byKey := Function.update k.driver.byKey key
      ((k.driver.byKey key).map (JobEntry.setPayload payload)) }).launch luck id printerId
    ⟨payload, options, 1, false⟩

end Desk

/-- What a caller hands to the queue. -/
structure QueueOptions where
  key : Bytes
  job : JobOptions := {}
  priority : ℤ := 0
  ttlMs : ℕ := 0

namespace Desk

/-- `enqueue` once the job is created: the lane has it, the queue refuses it, or it is held. -/
def place (policy : QueuePolicy) (k : Desk) (luck : Luck) (printerId key : Bytes)
    (status : DeviceStatus) (payload : Payload) (o : QueueOptions) (now : ℕ) : Reply × Desk :=
  let id := luck.draw.id
  let r := k.queue.enqueue policy printerId status (some id) o.priority o.ttlMs now
  match r.1 with
  | .existing => (.job (some id), k.setQueue r.2)
  | .started =>
    (k.setQueue r.2).submitReserved luck id key printerId payload { o.job with key := key }
  | .overflowed =>
    match finish k.driver luck.recordedAt id .queueOverflow luck.recordFault with
    | (none, s) => (.job (some id), (k.setDriver s).setQueue r.2)
    | (some error, s) =>
      (.thrown error, (k.setDriver s).setQueue
        (k.queue.setLane printerId (k.queue.laneLocked printerId status)))
  | .held _ =>
    match hold k.driver luck.recordedAt id luck.recordFault with
    | (none, s) =>
      (.job (some id), (k.setDriver (s.change id (Job.setPhase .held))).setQueue r.2)
    | (some error, s) =>
      (.thrown error, (k.setDriver s).setQueue
        (k.queue.setLane printerId (k.queue.laneLocked printerId status)).accept)

/-- `PrintQueue::enqueue`. -/
def enqueue (policy : QueuePolicy) (k : Desk) (luck : Luck) (printerId : Bytes)
    (status : DeviceStatus) (payload : Payload) (o : QueueOptions) (now : ℕ) : Reply × Desk :=
  match k.reserve luck printerId o.key (kindOf payload) (payloadInputBytes payload) with
  | (.created _, k) =>
    k.place policy luck printerId (State.effectiveKey o.key luck.draw) status payload o now
  | (.existing id, k) =>
    (.job id, k.setQueue (k.queue.setLane printerId (k.queue.laneLocked printerId status)))
  | (.thrown error, k) =>
    (.thrown error, k.setQueue (k.queue.setLane printerId (k.queue.laneLocked printerId status)))

end Desk

/-- The calls that claim a key. -/
inductive Request where
  | print (printerId : Bytes) (payload : Payload) (options : JobOptions)
  | reserveJob (printerId key : Bytes) (kind : PayloadKind) (bytes : UInt64)
  | enqueue (printerId : Bytes) (status : DeviceStatus) (payload : Payload) (o : QueueOptions)
      (now : ℕ)

/-- The key that the caller gives. -/
def Request.given : Request → Bytes
  | .print _ _ options => options.key
  | .reserveJob _ key _ _ => key
  | .enqueue _ _ _ o _ => o.key

/-- The key that the call claims. -/
def Request.key (c : Request) (luck : Luck) : Bytes := State.effectiveKey c.given luck.draw

def Desk.call (policy : QueuePolicy) (k : Desk) (luck : Luck) : Request → Reply × Desk
  | .print printerId payload options => k.print luck printerId payload options
  | .reserveJob printerId key kind bytes =>
    ((k.reserve luck printerId key kind bytes).1.reply, (k.reserve luck printerId key kind bytes).2)
  | .enqueue printerId status payload o now => k.enqueue policy luck printerId status payload o now

/-! ### Jobs that nobody has -/

/-- A worker has the job, or will take it. -/
def atWorker : Engine.Driver.Phase → Bool
  | .queued _ | .taken => true
  | _ => false

/-- The key is bound to a job that is not over, waits on no lane and is with no worker. -/
def Stranded (k : Desk) (key : Bytes) : Prop :=
  ∃ e p, k.driver.byKey key = some e ∧ k.driver.jobs e.job = some p ∧ p.isTerminal = false ∧
    atWorker p.phase = false ∧ ∀ id, ∀ item ∈ (k.queue.lane id).waiting, item.job ≠ e.job

/-- What the call draws is new: no job has the identifier, and no key was made of it. -/
structure Fresh (k : Desk) (c : Request) (luck : Luck) : Prop where
  id : luck.draw.id ∉ k.driver.store.ids
  waiting : ∀ id, ∀ item ∈ (k.queue.lane id).waiting, item.job ≠ luck.draw.id
  auto : c.given = [] → k.driver.byKey (c.key luck) = none

variable {policy : QueuePolicy} {k : Desk} {luck : Luck} {c : Request} {key id : Bytes}
  {s : State} {error : StoreError}

/-! ### The second append -/

/-- The key is bound to a job that no worker has and no lane holds. -/
structure Orphan (k : Desk) (key id : Bytes) : Prop where
  bound : ∃ e, k.driver.byKey key = some e ∧ e.job = id
  idle : ∃ p, k.driver.jobs id = some p ∧ p.isTerminal = false ∧ atWorker p.phase = false
  waiting : ∀ printer, ∀ item ∈ (k.queue.lane printer).waiting, item.job ≠ id

theorem Orphan.stranded (h : Orphan k key id) : Stranded k key := by
  obtain ⟨e, he, rfl⟩ := h.bound
  obtain ⟨p, hp, hopen, hidle⟩ := h.idle
  exact ⟨e, p, he, hp, hopen, hidle, h.waiting⟩

/-- Nothing but the store changes. -/
structure Untold (s s' : State) : Prop where
  jobs : s'.jobs = s.jobs
  byKey : s'.byKey = s.byKey

theorem tryAppend_untold (op : StoreOp) (fault : Option ℕ) : Untold s (tryAppend s op fault).2 :=
  ⟨rfl, rfl⟩

theorem advance_thrown {now : UInt64} {state : JobState} {reason : FailureReason}
    {fault : Option ℕ} {s' : State}
    (h : advance s now id state reason fault = (some error, s')) : Untold s s' := by
  unfold advance at h
  split at h
  · cases (Prod.mk.inj h).1
  · next happ =>
    obtain ⟨-, rfl⟩ := Prod.mk.inj h
    have hsame := tryAppend_untold (s := s) (.recordState now id state .transportAccepted reason {})
      fault
    rw [happ] at hsame
    exact hsame

theorem finish_thrown {now : UInt64} {reason : FailureReason} {fault : Option ℕ} {s' : State}
    (h : finish s now id reason fault = (some error, s')) : Untold s s' := by
  unfold finish at h
  split at h
  · cases (Prod.mk.inj h).1
  · next hadv =>
    obtain ⟨-, rfl⟩ := Prod.mk.inj h
    exact advance_thrown hadv

/-- A job stays an orphan where the index keeps its entry and the lanes what waits on them. -/
theorem Orphan.keep {k' : Desk} (h : Orphan k key id) (hs : Untold k.driver k'.driver)
    (hwait : ∀ printer, (k'.queue.lane printer).waiting = (k.queue.lane printer).waiting) :
    Orphan k' key id := by
  refine ⟨?_, ?_, fun printer => ?_⟩
  · rw [hs.byKey]
    exact h.bound
  · rw [hs.jobs]
    exact h.idle
  · rw [hwait]
    exact h.waiting printer

theorem launch_thrown {printerId : Bytes} {task : Task} (h : Orphan k key id)
    (ht : (k.launch luck id printerId task).1 = .thrown error) :
    Orphan (k.launch luck id printerId task).2 key id := by
  unfold Desk.launch at ht ⊢
  split_ifs at ht ⊢
  rcases hfin : finish k.driver luck.recordedAt id .transportUnreachable luck.recordFault with
    ⟨_ | e, s'⟩
  · rw [hfin] at ht
    cases ht
  · exact h.keep (finish_thrown hfin) fun _ => rfl

theorem submitReserved_thrown {printerId : Bytes} {payload : Payload} {options : JobOptions}
    (h : Orphan k key id)
    (ht : (k.submitReserved luck id key printerId payload options).1 = .thrown error) :
    Orphan (k.submitReserved luck id key printerId payload options).2 key id := by
  refine launch_thrown ⟨?_, h.idle, h.waiting⟩ ht
  obtain ⟨e, he, rfl⟩ := h.bound
  refine ⟨e.setPayload payload, ?_, rfl⟩
  change Function.update k.driver.byKey key ((k.driver.byKey key).map (JobEntry.setPayload payload))
    key = _
  rw [Function.update_self, he]
  rfl

/-- A lane that is written over with what waits on it as it was. -/
theorem setLane_waiting {q : QueueState} {l : QueueLane} {printerId : Bytes}
    (hl : l.waiting = (q.lane printerId).waiting) (printer : Bytes) :
    ((q.setLane printerId l).lane printer).waiting = (q.lane printer).waiting := by
  by_cases h : printer = printerId
  · subst h
    rw [setLane_lane, hl]
  · rw [setLane_lane_of_ne h]

theorem place_thrown {printerId : Bytes} {status : DeviceStatus} {payload : Payload}
    {o : QueueOptions} {now : ℕ} (h : Orphan k key luck.draw.id)
    (ht : (k.place policy luck printerId key status payload o now).1 = .thrown error) :
    Orphan (k.place policy luck printerId key status payload o now).2 key luck.draw.id := by
  have hlane : ∀ printer, ((k.queue.setLane printerId
      (k.queue.laneLocked printerId status)).lane printer).waiting =
      (k.queue.lane printer).waiting := setLane_waiting (laneLocked_waiting _ _)
  have hstart : ∀ printer, ((k.queue.setLane printerId
      (k.queue.laneLocked printerId status).start).lane printer).waiting =
      (k.queue.lane printer).waiting :=
    setLane_waiting (l := (k.queue.laneLocked printerId status).start) (laneLocked_waiting _ _)
  unfold Desk.place at ht ⊢
  dsimp only at ht ⊢
  by_cases hdrain : (k.queue.laneLocked printerId status).drainable policy = true
  · have he : k.queue.enqueue policy printerId status (some luck.draw.id) o.priority o.ttlMs now =
        (.started, (k.queue.setLane printerId
          (k.queue.laneLocked printerId status).start).count 0 1) := if_pos hdrain
    rw [he] at ht ⊢
    exact submitReserved_thrown (h.keep ⟨rfl, rfl⟩ hstart) ht
  · by_cases hfull : policy.maxDepth ≠ 0 ∧
        policy.maxDepth ≤ (k.queue.laneLocked printerId status).waiting.length
    · have he : k.queue.enqueue policy printerId status (some luck.draw.id) o.priority o.ttlMs now =
          (.overflowed, (k.queue.setLane printerId
            (k.queue.laneLocked printerId status)).refuse) := (if_neg hdrain).trans (if_pos hfull)
      rw [he] at ht ⊢
      dsimp only at ht ⊢
      rcases hfin : finish k.driver luck.recordedAt luck.draw.id .queueOverflow luck.recordFault with
        ⟨_ | e, s'⟩
      · rw [hfin] at ht
        cases ht
      · exact h.keep (finish_thrown hfin) hlane
    · have he : k.queue.enqueue policy printerId status (some luck.draw.id) o.priority o.ttlMs now =
          (.held (newItem policy k.queue luck.draw.id o.priority o.ttlMs now),
            (k.queue.setLane printerId ((k.queue.laneLocked printerId status).push
              (newItem policy k.queue luck.draw.id o.priority o.ttlMs now))).accept.signal) :=
        (if_neg hdrain).trans (if_neg hfull)
      rw [he] at ht ⊢
      dsimp only at ht ⊢
      rcases hheld : hold k.driver luck.recordedAt luck.draw.id luck.recordFault with ⟨_ | e, s'⟩
      · rw [hheld] at ht
        cases ht
      · exact h.keep (advance_thrown hheld) hlane

/-! ### The first append -/

section
variable (s : State) {d : State.Draw} (key printerId : Bytes) (attempt : UInt32)
  (kind : PayloadKind) (bytes : UInt64) (payload : Option Payload)

/-- A creation that returns leaves a job that nobody has. -/
theorem create_orphan (hid : d.id ∉ s.store.ids) (q : QueueState) (stopping : Bytes → Bool)
    (hwait : ∀ printer, ∀ item ∈ (q.lane printer).waiting, item.job ≠ d.id) :
    ∃ s', create s d key printerId attempt kind bytes payload none = (none, s') ∧
      Orphan { driver := s', queue := q, stopping := stopping } key d.id := by
  have hadmitted : (StoreOp.createJob d.now
      (newRecord d key printerId attempt kind bytes)).Admitted s.store := hid
  have hok := apply_ok hadmitted
  unfold create tryAppend
  rw [hok]
  refine ⟨_, rfl, ⟨_, Function.update_self _ _ _, rfl⟩, ⟨_, Function.update_self _ _ _, rfl, rfl⟩,
    hwait⟩

/-- One that fails leaves the index as it was. -/
theorem create_fails (hid : d.id ∉ s.store.ids) (n : ℕ) :
    ∃ s', create s d key printerId attempt kind bytes payload (some n) =
      (some .journalFailed, s') ∧ Untold s s' := by
  have hadmitted : (StoreOp.createJob d.now
      (newRecord d key printerId attempt kind bytes)).Admitted s.store := hid
  have hfail := apply_failed hadmitted n
  unfold create tryAppend
  rw [hfail]
  exact ⟨_, rfl, rfl, rfl⟩

end

/-- The key is unbound, or bound to a job that is over and printed nothing. -/
def Unclaimed (s : State) (key : Bytes) : Prop :=
  ∀ e, s.byKey key = some e → s.failedAndFinished e.job = true

theorem Unclaimed.not_stranded {k' : Desk} (h : Unclaimed k.driver key)
    (hs : Untold k.driver k'.driver) : ¬ Stranded k' key := by
  rintro ⟨e, p, he, hp, hopen, -, -⟩
  rw [hs.byKey] at he
  rw [hs.jobs] at hp
  have hover := h e he
  unfold State.failedAndFinished at hover
  rw [hp, Option.any_some, hopen, Bool.false_and] at hover
  cases hover

theorem lookup_effective {given : Bytes} {d : State.Draw}
    (hauto : given = [] → s.byKey (State.effectiveKey given d) = none) :
    s.byKey (State.effectiveKey given d) = s.lookup given := by
  by_cases h : given = []
  · rw [hauto h]
    unfold State.lookup
    rw [if_pos h]
  · unfold State.effectiveKey State.lookup
    rw [if_neg h, if_neg h]

theorem unclaimed_of_submit {printerId : Bytes} {payload : Payload} {options : JobOptions}
    {d : State.Draw} {attempt : UInt32} {kept : Option Payload}
    (hauto : options.key = [] → s.byKey (State.effectiveKey options.key d) = none)
    (h : s.decideSubmit { printerId, payload := some payload, options } = .create attempt kept) :
    Unclaimed s (State.effectiveKey options.key d) := by
  intro e he
  rw [lookup_effective hauto] at he
  unfold State.decideSubmit at h
  rw [he] at h
  by_contra hopen
  rw [Bool.not_eq_true] at hopen
  simp only [hopen, Bool.not_false, Bool.and_self, if_true] at h
  cases h

theorem unclaimed_of_reserve {given : Bytes} {d : State.Draw} {attempt : UInt32}
    {kept : Option Payload} (hauto : given = [] → s.byKey (State.effectiveKey given d) = none)
    (h : s.decideReserve given = .create attempt kept) :
    Unclaimed s (State.effectiveKey given d) := by
  intro e he
  rw [lookup_effective hauto] at he
  unfold State.decideReserve at h
  rw [he] at h
  cases h

/-! ### The calls -/

theorem print_iff {printerId : Bytes} {payload : Payload} {options : JobOptions}
    (hfresh : Fresh k (.print printerId payload options) luck)
    (ht : (k.print luck printerId payload options).1 = .thrown error) :
    ¬ Stranded (k.print luck printerId payload options).2
      (State.effectiveKey options.key luck.draw) ↔ luck.createFault.isSome = true := by
  unfold Desk.print at ht ⊢
  rcases hdec : k.driver.decideSubmit { printerId, payload := some payload, options } with
    id | ⟨attempt, kept⟩ | _
  · rw [hdec] at ht
    cases ht
  · rw [hdec] at ht
    dsimp only at ht ⊢
    rcases hf : luck.createFault with _ | n
    · obtain ⟨s', hs', horphan⟩ := create_orphan k.driver
        (State.effectiveKey options.key luck.draw) printerId attempt (kindOf payload)
        (payloadInputBytes payload) (some payload) hfresh.id k.queue k.stopping hfresh.waiting
      rw [hf, hs'] at ht
      rw [hs']
      have hleft := launch_thrown horphan ht
      exact iff_of_false (not_not_intro hleft.stranded) Bool.false_ne_true
    · obtain ⟨s', hs', hsame⟩ := create_fails k.driver
        (State.effectiveKey options.key luck.draw) printerId attempt (kindOf payload)
        (payloadInputBytes payload) (some payload) hfresh.id n
      rw [hs']
      exact iff_of_true ((unclaimed_of_submit hfresh.auto hdec).not_stranded hsame) rfl
  · rw [hdec] at ht
    cases ht

theorem reply_thrown {r : Reserved} (h : r.reply = .thrown error) : r = .thrown error := by
  rcases r with _ | _ | e
  · cases h
  · cases h
  · obtain rfl := Reply.thrown.inj h
    rfl

/-- `reserve` throws only where it binds nothing. -/
theorem reserve_thrown {printerId given : Bytes} {kind : PayloadKind} {bytes : UInt64}
    (hid : luck.draw.id ∉ k.driver.store.ids)
    (hauto : given = [] → k.driver.byKey (State.effectiveKey given luck.draw) = none)
    (ht : (k.reserve luck printerId given kind bytes).1 = .thrown error) :
    luck.createFault.isSome = true ∧
      Untold k.driver (k.reserve luck printerId given kind bytes).2.driver ∧
      Unclaimed k.driver (State.effectiveKey given luck.draw) := by
  unfold Desk.reserve at ht ⊢
  rcases hdec : k.driver.decideReserve given with id | ⟨attempt, kept⟩ | _
  · rw [hdec] at ht
    cases ht
  · rw [hdec] at ht
    dsimp only at ht ⊢
    rcases hf : luck.createFault with _ | n
    · obtain ⟨s', hs', -⟩ := create_orphan k.driver (State.effectiveKey given luck.draw) printerId
        attempt kind bytes kept hid {} k.stopping (fun _ _ h => absurd h List.not_mem_nil)
      rw [hf, hs'] at ht
      cases ht
    · obtain ⟨s', hs', hsame⟩ := create_fails k.driver (State.effectiveKey given luck.draw)
        printerId attempt kind bytes kept hid n
      rw [hs']
      exact ⟨rfl, hsame, unclaimed_of_reserve hauto hdec⟩
  · rw [hdec] at ht
    cases ht

/-- A job that `reserve` created is nobody's yet. -/
theorem reserve_created {printerId given : Bytes} {kind : PayloadKind} {bytes : UInt64}
    (hid : luck.draw.id ∉ k.driver.store.ids)
    (hwait : ∀ printer, ∀ item ∈ (k.queue.lane printer).waiting, item.job ≠ luck.draw.id)
    (hc : (k.reserve luck printerId given kind bytes).1 = .created id) :
    luck.createFault = none ∧
      Orphan (k.reserve luck printerId given kind bytes).2
        (State.effectiveKey given luck.draw) luck.draw.id := by
  unfold Desk.reserve at hc ⊢
  rcases hdec : k.driver.decideReserve given with id | ⟨attempt, kept⟩ | _
  · rw [hdec] at hc
    cases hc
  · rw [hdec] at hc
    dsimp only at hc ⊢
    rcases hf : luck.createFault with _ | n
    · obtain ⟨s', hs', horphan⟩ := create_orphan k.driver (State.effectiveKey given luck.draw)
        printerId attempt kind bytes kept hid k.queue k.stopping hwait
      rw [hs']
      exact ⟨rfl, horphan⟩
    · obtain ⟨s', hs', -⟩ := create_fails k.driver (State.effectiveKey given luck.draw)
        printerId attempt kind bytes kept hid n
      rw [hf, hs'] at hc
      cases hc
  · rw [hdec] at hc
    cases hc

theorem enqueue_iff {printerId : Bytes} {status : DeviceStatus} {payload : Payload}
    {o : QueueOptions} {now : ℕ} (hfresh : Fresh k (.enqueue printerId status payload o now) luck)
    (ht : (k.enqueue policy luck printerId status payload o now).1 = .thrown error) :
    ¬ Stranded (k.enqueue policy luck printerId status payload o now).2
      (State.effectiveKey o.key luck.draw) ↔ luck.createFault.isSome = true := by
  have hauto : o.key = [] → k.driver.byKey (State.effectiveKey o.key luck.draw) = none := hfresh.auto
  unfold Desk.enqueue at ht ⊢
  rcases hres : k.reserve luck printerId o.key (kindOf payload) (payloadInputBytes payload) with
    ⟨id | id | e, k'⟩
  · rw [hres] at ht
    cases ht
  · have hcreated : (k.reserve luck printerId o.key (kindOf payload)
        (payloadInputBytes payload)).1 = .created id := by rw [hres]
    have hmade := reserve_created hfresh.id hfresh.waiting hcreated
    rw [hres] at hmade ht
    obtain ⟨hfault, horphan⟩ := hmade
    have hleft := place_thrown horphan ht
    rw [hfault]
    exact iff_of_false (not_not_intro hleft.stranded) Bool.false_ne_true
  · have hthrown : (k.reserve luck printerId o.key (kindOf payload)
        (payloadInputBytes payload)).1 = .thrown e := by rw [hres]
    have hfail := reserve_thrown hfresh.id hauto hthrown
    rw [hres] at hfail
    obtain ⟨hfault, hsame, hfree⟩ := hfail
    exact iff_of_true (hfree.not_stranded hsame) hfault

/-- A key that is bound to a job that nobody has answers every later submission with that job. -/
theorem Stranded.answers (h : Stranded k key) (hkey : key ≠ []) : ∃ id,
    (∀ printerId payload options, options.key = key →
      k.driver.decideSubmit { printerId, payload := some payload, options } = .existing id) ∧
    k.driver.decideReserve key = .existing id := by
  obtain ⟨e, p, he, hp, hopen, -, -⟩ := h
  have hlook : k.driver.lookup key = some e := by
    unfold State.lookup
    rw [if_neg hkey]
    exact he
  have hover : k.driver.failedAndFinished e.job = false := by
    unfold State.failedAndFinished
    rw [hp, Option.any_some, hopen, Bool.false_and]
  refine ⟨e.job, fun printerId payload options hk => ?_, ?_⟩
  · unfold State.decideSubmit
    dsimp only
    rw [hk, hlook]
    simp [hover]
  · unfold State.decideReserve
    rw [hlook]

/-- **A submission is atomic just if the append that fails is the job's creation.** Of a call that
throws: the key that it claimed is not left bound to a job that is not over, waits on no lane and is
with no worker. -/
theorem atomic_iff (policy : QueuePolicy) (k : Desk) (c : Request) (luck : Luck)
    (hfresh : Fresh k c luck) (error : StoreError)
    (ht : (k.call policy luck c).1 = .thrown error) :
    ¬ Stranded (k.call policy luck c).2 (c.key luck) ↔ luck.createFault.isSome = true := by
  rcases c with ⟨printerId, payload, options⟩ | ⟨printerId, key, kind, bytes⟩ |
    ⟨printerId, status, payload, o, now⟩
  · exact print_iff hfresh ht
  · have hthrown : (k.reserve luck printerId key kind bytes).1 = .thrown error := reply_thrown ht
    obtain ⟨hfault, hsame, hfree⟩ := reserve_thrown hfresh.id hfresh.auto hthrown
    exact iff_of_true (hfree.not_stranded hsame) hfault
  · exact enqueue_iff hfresh ht

/-! ### A printer that is known to be offline -/

/-- A ticket for a printer that is offline, which the queue will hold. -/
def offlineTicket : Request :=
  .enqueue (str "bar") { observed := true, online := some false } (.raw []) { key := str "order" } 0

/-- What the call draws, and how its two appends go. -/
def luckWith (createFault recordFault : Option ℕ) : Luck where
  draw := { now := 0, id := str "j1", auto := str "a1" }
  createFault := createFault
  recordFault := recordFault

def emptyDesk : Desk := { driver := first (str "n") }

theorem fresh_offlineTicket (createFault recordFault : Option ℕ) :
    Fresh emptyDesk offlineTicket (luckWith createFault recordFault) where
  id := List.not_mem_nil
  waiting _ _ h := absurd h List.not_mem_nil
  auto h := absurd h (by decide)

theorem atomic_iff_offlineTicket :
    ¬ Stranded (emptyDesk.call {} (luckWith (some 0) none) offlineTicket).2 (str "order") ↔
      (luckWith (some 0) none).createFault.isSome = true :=
  atomic_iff {} emptyDesk offlineTicket (luckWith (some 0) none) (fresh_offlineTicket _ _)
    .journalFailed (by decide +kernel)

/-- The job is created and bound, and then cannot be recorded as held. -/
theorem bound_to_nobody : ¬ ∀ (policy : QueuePolicy) (k : Desk) (c : Request) (luck : Luck),
    Fresh k c luck → ∀ error, (k.call policy luck c).1 = .thrown error →
      ¬ Stranded (k.call policy luck c).2 (c.key luck) := by
  intro hall
  have hthrown : (emptyDesk.call {} (luckWith none (some 0)) offlineTicket).1 =
      .thrown .journalFailed := by decide +kernel
  have hnot := hall {} emptyDesk offlineTicket (luckWith none (some 0)) (fresh_offlineTicket _ _)
    _ hthrown
  have hcreated := (enqueue_iff (fresh_offlineTicket none (some 0)) hthrown).mp hnot
  cases hcreated

end PrinterDriver.Queue.Submissions
