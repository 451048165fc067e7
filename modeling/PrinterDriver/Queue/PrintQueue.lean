import PrinterDriver.Core.Types
import Mathlib.Logic.Function.Basic
import Mathlib.Data.Option.Basic
import Mathlib.Data.Int.Notation

/-! # The print queue

The lanes of `print_queue.cpp`: a job is started at once on a lane that drains, refused where the
lane is full, and otherwise held until the pump starts or expires it. Device events and the ends of
jobs arrive in an inbox, which the next pump applies.

An item travels with its payload and its options, which the queue hands on untouched; they are left
out. A time is in nanoseconds of the monotonic clock. The lanes are pumped in the order in which
they came about, where the source takes the order of its hash table. -/

namespace PrinterDriver.Queue.PrintQueue

open PrinterDriver.Core.Types

inductive DrainOrder where
  | fifo | priority
  deriving DecidableEq, Repr

structure QueuePolicy where
  holdWhileOffline : Bool := true
  defaultTtlMs : ℕ := 0
  maxDepth : ℕ := 64
  drainOrder : DrainOrder := .fifo

/-- A held job. -/
structure QueueItem where
  job : Bytes
  priority : ℤ := 0
  seq : ℕ := 0
  deadline : Option ℕ := none
  deriving DecidableEq

/-- One printer's lane; `attached` once its printer is known. -/
structure QueueLane where
  attached : Bool := false
  waiting : List QueueItem := []
  offline : Bool := false
  coverOpen : Bool := false
  paperOut : Bool := false
  linkDown : Bool := false
  blocked : Bool := false
  paused : Bool := false
  inFlight : Bool := false
  deriving DecidableEq

/-- A job that the queue started, on this printer, ended in this state. -/
structure QueueCompletion where
  printerId : Bytes
  state : JobState
  deriving DecidableEq

/-- What the printer was last heard to say. -/
structure DeviceStatus where
  observed : Bool := false
  online : Option Bool := none
  coverOpen : Option Bool := none
  paperOut : Option Bool := none
  deriving DecidableEq

/-- The state under the queue's lock, then the inbox. -/
structure QueueState where
  lanes : Bytes → Option QueueLane := fun _ => none
  order : List Bytes := []
  nextSeq : ℕ := 0
  expired : ℕ := 0
  overflowed : ℕ := 0
  drained : ℕ := 0
  completions : List QueueCompletion := []
  deviceEvents : List (Bytes × DeviceEvent) := []
  pending : Bool := false

/-! ### Lanes -/

def QueueLane.usable (lane : QueueLane) : Bool :=
  !lane.offline && !lane.coverOpen && !lane.paperOut && !lane.linkDown

def QueueLane.drainable (policy : QueuePolicy) (lane : QueueLane) : Bool :=
  !(lane.paused || lane.blocked || lane.inFlight) && (!policy.holdWhileOffline || lane.usable)

/-- A lane without its printer takes its flags from the last snapshot. -/
def QueueLane.attach (lane : QueueLane) (status : DeviceStatus) : QueueLane :=
  if lane.attached then lane
  else { lane with
    attached := true
    offline := if status.observed then status.online = some false else lane.offline
    coverOpen := if status.observed then status.coverOpen.getD false else lane.coverOpen
    paperOut := if status.observed then status.paperOut.getD false else lane.paperOut
    linkDown := false }

/-- What a device event says about the lane. -/
def QueueLane.hear (lane : QueueLane) : DeviceEvent → QueueLane
  | .online => { lane with offline := false }
  | .offline => { lane with offline := true }
  | .coverOpen => { lane with coverOpen := true }
  | .coverClosed => { lane with coverOpen := false }
  | .paperOut => { lane with paperOut := true }
  | .paperNearEnd | .paperOk => { lane with paperOut := false }
  | .connectionLost => { lane with linkDown := true }
  | .connectionRestored => { lane with linkDown := false }
  | .cutterError | .recoverableError | .unrecoverableError | .foreignWriterDetected => lane

/-- The job in flight ended; one that ended Unknown blocks the lane. -/
def QueueLane.complete (lane : QueueLane) (state : JobState) : QueueLane :=
  { lane with inFlight := false, blocked := lane.blocked || state = .unknown }

def QueueLane.push (lane : QueueLane) (item : QueueItem) : QueueLane :=
  { lane with waiting := lane.waiting ++ [item] }

def QueueLane.start (lane : QueueLane) : QueueLane := { lane with inFlight := true }

def QueueState.setLane (s : QueueState) (id : Bytes) (lane : QueueLane) : QueueState :=
  { s with
    lanes := Function.update s.lanes id (some lane)
    order := if (s.lanes id).isSome then s.order else s.order ++ [id] }

/-- The lane of a printer, which is made where there is none. -/
def QueueState.lane (s : QueueState) (id : Bytes) : QueueLane := (s.lanes id).getD {}

/-- A change of a lane that is there. -/
def QueueState.modify (s : QueueState) (id : Bytes) (f : QueueLane → QueueLane) : QueueState :=
  match s.lanes id with
  | some lane => s.setLane id (f lane)
  | none => s

def QueueState.count (s : QueueState) (expired started : ℕ) : QueueState :=
  { s with expired := s.expired + expired, drained := s.drained + started }

def QueueState.signal (s : QueueState) : QueueState := { s with pending := true }

/-! ### Enqueue -/

/-- What became of a job that was enqueued. -/
inductive Enqueued where
  | existing
  | started
  | overflowed
  | held (item : QueueItem)

/-- The lane of the printer, with what is known of it. -/
def QueueState.laneLocked (s : QueueState) (id : Bytes) (status : DeviceStatus) : QueueLane :=
  (s.lane id).attach status

/-- Nanoseconds in a millisecond. -/
def nsPerMs : ℕ := 1000000

/-- The item of a job that is held. -/
def newItem (policy : QueuePolicy) (s : QueueState) (job : Bytes) (priority : ℤ)
    (ttlMs now : ℕ) : QueueItem :=
  let ttl := if ttlMs ≠ 0 then ttlMs else policy.defaultTtlMs
  { job := job, priority := priority, seq := s.nextSeq
    deadline := if ttl ≠ 0 then some (now + ttl * nsPerMs) else none }

/-- One more job is refused. -/
def QueueState.refuse (s : QueueState) : QueueState := { s with overflowed := s.overflowed + 1 }

/-- One more job is accepted. -/
def QueueState.accept (s : QueueState) : QueueState := { s with nextSeq := s.nextSeq + 1 }

/-- `reserved` is the job that was created for the key, if the key had none. -/
def QueueState.enqueue (policy : QueuePolicy) (s : QueueState) (id : Bytes)
    (status : DeviceStatus) (reserved : Option Bytes) (priority : ℤ) (ttlMs now : ℕ) :
    Enqueued × QueueState :=
  let lane := s.laneLocked id status
  match reserved with
  | none => (.existing, s.setLane id lane)
  | some job =>
    if lane.drainable policy then (.started, (s.setLane id lane.start).count 0 1)
    else if policy.maxDepth ≠ 0 ∧ policy.maxDepth ≤ lane.waiting.length then
      (.overflowed, (s.setLane id lane).refuse)
    else
      let item := newItem policy s job priority ttlMs now
      (.held item, (s.setLane id (lane.push item)).accept.signal)

/-- What `enqueue` leaves where an append behind `reserveJob` fails and the call throws: a job that
was to start has taken the lane, one that overflows is not counted, one that was to be held has its
rank and is not on the lane. -/
def QueueState.enqueueThrown (policy : QueuePolicy) (s : QueueState) (id : Bytes)
    (status : DeviceStatus) : QueueState :=
  let lane := s.laneLocked id status
  if lane.drainable policy then (s.setLane id lane.start).count 0 1
  else if policy.maxDepth ≠ 0 ∧ policy.maxDepth ≤ lane.waiting.length then s.setLane id lane
  else (s.setLane id lane).accept

/-! ### The pump -/

def QueueState.takeInbox (s : QueueState) : QueueState :=
  { s with completions := [], deviceEvents := [], pending := false }

/-- The events first, then the completions. -/
def QueueState.applyInbox (s : QueueState) : QueueState :=
  s.completions.foldl (fun t c => t.modify c.printerId (·.complete c.state))
    (s.deviceEvents.foldl (fun t e => t.modify e.1 (·.hear e.2)) s.takeInbox)

/-- Whether the candidate is to be started before the incumbent. -/
def precedes (policy : QueuePolicy) (candidate incumbent : QueueItem) : Prop :=
  if policy.drainOrder = .priority ∧ candidate.priority ≠ incumbent.priority then
    incumbent.priority < candidate.priority
  else candidate.seq < incumbent.seq

instance (policy : QueuePolicy) (x y : QueueItem) : Decidable (precedes policy x y) := by
  unfold precedes
  infer_instance

/-- The best item so far, with its index, against the items from index `i` on. -/
def selectFrom (policy : QueuePolicy) : ℕ × QueueItem → ℕ → List QueueItem → ℕ × QueueItem
  | best, _, [] => best
  | best, i, candidate :: rest =>
    selectFrom policy (if precedes policy candidate best.2 then (i, candidate) else best)
      (i + 1) rest

/-- The item to be started next, with its index. -/
def selectLocked (policy : QueuePolicy) : List QueueItem → Option (ℕ × QueueItem)
  | [] => none
  | item :: rest => some (selectFrom policy (0, item) 1 rest)

/-- The deadline has passed. -/
def QueueItem.due (now : ℕ) (item : QueueItem) : Bool := item.deadline.any (· ≤ now)

/-- What the pump does with one lane: the expired items, the started one, and the lane. -/
structure LanePump where
  expired : List QueueItem
  started : Option QueueItem
  lane : QueueLane

/-- The lane without the items whose deadline has passed. -/
def QueueLane.expire (now : ℕ) (lane : QueueLane) : QueueLane :=
  { lane with waiting := lane.waiting.filter fun item => !item.due now }

def QueueLane.drop (lane : QueueLane) (index : ℕ) : QueueLane :=
  { lane with waiting := lane.waiting.eraseIdx index }

def pumpLane (policy : QueuePolicy) (now : ℕ) (lane : QueueLane) : LanePump :=
  let expired := lane.waiting.filter (QueueItem.due now)
  let lane := lane.expire now
  if lane.drainable policy then
    match selectLocked policy lane.waiting with
    | some (index, picked) => ⟨expired, some picked, (lane.drop index).start⟩
    | none => ⟨expired, none, lane⟩
  else ⟨expired, none, lane⟩

/-- The earlier of a time and the deadline of an item. -/
def earlier (next : Option ℕ) (item : QueueItem) : Option ℕ :=
  match item.deadline, next with
  | some d, some n => if d < n then some d else some n
  | some d, none => some d
  | none, _ => next

/-- A job of a printer's lane. -/
structure Ticket where
  printerId : Bytes
  job : Bytes
  deriving DecidableEq

/-- An item on the lane of a printer, or one that left it. -/
structure Placed where
  printerId : Bytes
  item : QueueItem
  deriving DecidableEq

def Placed.ticket (h : Placed) : Ticket := ⟨h.printerId, h.item.job⟩

/-- What a pump did, and when the next deadline is due. -/
structure Pumped where
  expired : List Placed := []
  started : List Placed := []
  next : Option ℕ := none

/-- One round of the pump's loop. -/
def pumpRound (policy : QueuePolicy) (now : ℕ) (acc : Pumped × QueueState) (id : Bytes) :
    Pumped × QueueState :=
  match acc.2.lanes id with
  | none => acc
  | some lane =>
    let p := pumpLane policy now lane
    ({ expired := acc.1.expired ++ p.expired.map (⟨id, ·⟩)
       started := acc.1.started ++ p.started.toList.map (⟨id, ·⟩)
       next := p.lane.waiting.foldl earlier acc.1.next },
      (acc.2.setLane id p.lane).count p.expired.length p.started.toList.length)

def QueueState.pumpLocked (policy : QueuePolicy) (now : ℕ) (s : QueueState) :
    Pumped × QueueState :=
  s.applyInbox.order.foldl (pumpRound policy now) ({}, s.applyInbox)

/-- The append of a pump that fails: that of the `n`th expired item of a lane, or that of the job it
starts, which it makes on a runtime that is stopping. -/
inductive PumpFault where
  | expiry (n : ℕ)
  | start
  deriving DecidableEq

/-- The lane without the first `n` items whose deadline has passed. -/
def dropDue (now : ℕ) : ℕ → List QueueItem → List QueueItem
  | 0, items => items
  | _ + 1, [] => []
  | n + 1, item :: rest => if item.due now then dropDue now n rest else item :: dropDue now (n + 1) rest

/-- What the pump does with a lane until the append that fails: what expired is out, and so is the
item whose start throws. -/
def pumpLaneThrown (policy : QueuePolicy) (now : ℕ) (lane : QueueLane) :
    PumpFault → Option (List QueueItem × ℕ × QueueLane)
  | .expiry n =>
    let due := lane.waiting.filter (QueueItem.due now)
    if n < due.length then
      some (due.take n, 0, { lane with waiting := dropDue now n lane.waiting })
    else none
  | .start =>
    let p := pumpLane policy now lane
    if p.started.isSome then some (p.expired, 1, p.lane) else none

/-- A pump that throws at the lane of this index: the lanes before it are pumped. -/
def QueueState.pumpThrown (policy : QueuePolicy) (now : ℕ) (s : QueueState) (index : ℕ)
    (fault : PumpFault) : Option (Pumped × QueueState) := do
  let acc := (s.applyInbox.order.take index).foldl (pumpRound policy now) ({}, s.applyInbox)
  let id ← s.applyInbox.order[index]?
  let lane ← acc.2.lanes id
  let (expired, started, lane) ← pumpLaneThrown policy now lane fault
  return ({ acc.1 with expired := acc.1.expired ++ expired.map (⟨id, ·⟩) },
    (acc.2.setLane id lane).count expired.length started)

/-! ### Control -/

def QueueState.unblock (s : QueueState) (id : Bytes) : QueueState :=
  s.modify id fun lane => { lane with blocked := false }

def QueueState.pause (s : QueueState) (id : Bytes) : QueueState :=
  s.setLane id { s.lane id with paused := true }

def QueueState.resume (s : QueueState) (id : Bytes) : QueueState :=
  s.modify id fun lane => { lane with paused := false }

/-- A device event in the inbox. -/
def QueueState.deviceEvent (s : QueueState) (id : Bytes) (e : DeviceEvent) : QueueState :=
  { s with deviceEvents := s.deviceEvents ++ [(id, e)], pending := true }

/-- The end of a job in the inbox. -/
def QueueState.completion (s : QueueState) (id : Bytes) (state : JobState) : QueueState :=
  { s with completions := s.completions ++ [⟨id, state⟩], pending := true }

/-! ### The queue and what is around it -/

/-- Where the queue's own thread is: before its pump, between the pump and the inbox lock, blocked
in its wait, or done. -/
inductive Phase where
  | top
  | pumped (next : Option ℕ)
  | waiting (next : Option ℕ) (notified : Bool)
  | returned
  deriving DecidableEq

/-- The queue with its thread, the jobs it created and what became of them, how those that were
handed over ended, the calls that still owe a signal, and those that still owe a notification. -/
structure World where
  queue : QueueState := {}
  thread : Phase := .top
  stopping : Bool := false
  created : List Ticket := []
  handed : List Placed := []
  expired : List Ticket := []
  overflowed : List Ticket := []
  ended : Bytes → Option JobState := fun _ => none
  signals : ℕ := 0
  notifies : ℕ := 0

/-- What happens next, each critical section a move of its own. -/
inductive Action where
  | enqueue (printerId : Bytes) (status : DeviceStatus) (reserved : Option Bytes) (priority : ℤ)
      (ttlMs now : ℕ)
  | tick (now : ℕ)
  | pause (printerId : Bytes)
  | resume (printerId : Bytes)
  | unblock (printerId : Bytes)
  | stop
  | signal
  | notify
  | deviceEvent (printerId : Bytes) (event : DeviceEvent)
  | finish (job : Bytes) (state : JobState)
  | pump (now : ℕ)
  | check
  | wake
  deriving DecidableEq

/-- The thread goes on. -/
def World.goTo (w : World) (thread : Phase) : World := { w with thread := thread }

/-- A notification reaches the thread only in its wait. -/
def Phase.notify : Phase → Phase
  | .waiting next _ => .waiting next true
  | phase => phase

/-- What an enqueued job has become. One that was started at once keeps the rank that the next held
job will have. -/
def World.record (w : World) (queue : QueueState) (printerId job : Bytes) (priority : ℤ) :
    Enqueued → World
  | .existing => { w with queue := queue }
  | .started => { w with
      queue := queue
      created := w.created ++ [⟨printerId, job⟩]
      handed := w.handed ++ [⟨printerId, { job, priority, seq := queue.nextSeq }⟩] }
  | .overflowed => { w with
      queue := queue
      created := w.created ++ [⟨printerId, job⟩]
      overflowed := w.overflowed ++ [⟨printerId, job⟩] }
  | .held _ => { w with
      queue := queue
      created := w.created ++ [⟨printerId, job⟩]
      thread := w.thread.notify }

/-- What a pump did. -/
def World.pumped (w : World) (p : Pumped × QueueState) : World :=
  { w with
    queue := p.2
    handed := w.handed ++ p.1.started
    expired := w.expired ++ p.1.expired.map Placed.ticket }

/-- A control of a lane: where there is such a lane, a signal is owed. -/
def World.control (w : World) (printerId : Bytes) (queue : QueueState) : World :=
  { w with queue := queue, signals := w.signals + if (w.queue.lanes printerId).isSome then 1 else 0 }

/-- A callback of the engine: the inbox is written and a notification is owed. -/
def World.callback (w : World) (queue : QueueState) : World :=
  { w with queue := queue, notifies := w.notifies + 1 }

/-- The end of a job that was handed over and has not ended. -/
def World.finish (w : World) (job : Bytes) (state : JobState) : Option World :=
  match w.handed.find? fun h => h.item.job = job with
  | none => none
  | some h =>
    if state.isTerminal ∧ w.ended job = none then
      some { w with
        queue := w.queue.completion h.printerId state
        ended := Function.update w.ended job (some state)
        notifies := w.notifies + 1 }
    else none

/-- The thread's turn with the inbox lock. -/
def World.check (w : World) (next : Option ℕ) : World :=
  if w.queue.pending then { w with queue := { w.queue with pending := false }, thread := .top }
  else if w.stopping then { w with thread := .returned }
  else { w with thread := .waiting next false }

/-- The moves of the system; a move that is not possible gives none. -/
def step (policy : QueuePolicy) : Action → World → Option World
  | .enqueue id status reserved priority ttlMs now, w =>
    if ∃ job ∈ reserved, job ∈ w.created.map Ticket.job then none
    else
      let r := w.queue.enqueue policy id status reserved priority ttlMs now
      some (w.record r.2 id (reserved.getD []) priority r.1)
  | .tick now, w => some (w.pumped (w.queue.pumpLocked policy now))
  | .pause id, w => some { w with queue := w.queue.pause id }
  | .resume id, w => some (w.control id (w.queue.resume id))
  | .unblock id, w => some (w.control id (w.queue.unblock id))
  | .stop, w =>
    if w.stopping then some w else some { w with stopping := true, signals := w.signals + 1 }
  | .signal, w =>
    if w.signals = 0 then none
    else some { w with
      queue := w.queue.signal
      signals := w.signals - 1
      notifies := w.notifies + 1 }
  | .notify, w =>
    if w.notifies = 0 then none
    else some { w with notifies := w.notifies - 1, thread := w.thread.notify }
  | .deviceEvent id e, w => some (w.callback (w.queue.deviceEvent id e))
  | .finish job state, w => w.finish job state
  | .pump now, w =>
    if w.thread ≠ .top then none
    else if w.stopping then some { w with thread := .returned }
    else
      let p := w.queue.pumpLocked policy now
      some ((w.pumped p).goTo (.pumped p.1.next))
  | .check, w =>
    match w.thread with
    | .pumped next => some (w.check next)
    | _ => none
  | .wake, w =>
    match w.thread with
    | .waiting _ _ => some { w with queue := { w.queue with pending := false }, thread := .top }
    | _ => none

end PrinterDriver.Queue.PrintQueue
