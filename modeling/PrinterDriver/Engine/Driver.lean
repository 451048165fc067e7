import PrinterDriver.Core.Crashes
import PrinterDriver.Engine.Leasing
import PrinterDriver.Engine.Lifecycle
import PrinterDriver.Engine.Markers

/-! # The driver

The jobs of a storage directory over any number of processes: the job store, the index of the keys and
of the tokens, the tasks of the workers and of the print queue, and restarts. A job's calls are
those of its own thread, so that the jobs of all printers interleave in every way. A process dies
anywhere; if the last thing that happened is an append, any part of its bytes may be in the file.

A job is handed over once here, and an append that fails ends the process; a job that is handed over
again while it is queued or at work, and an append that throws to a caller who goes on, are moves of
the machine of `OpenDriver`, which this one is a part of.

`Trail` and `leases` are what the model remembers of the past. -/

namespace PrinterDriver.Engine.Driver

open PrinterDriver.Lib.Programs PrinterDriver.Lib.Threads PrinterDriver.Core.Types
  PrinterDriver.Core.Profile PrinterDriver.Core.Journal PrinterDriver.Core.Store
  PrinterDriver.Core.StoreRuns PrinterDriver.Core.Crashes PrinterDriver.Core.Encoder
  PrinterDriver.Engine.Ops PrinterDriver.Engine.RunJob PrinterDriver.Engine.Lifecycle
  PrinterDriver.Engine.Leasing PrinterDriver.Engine.Markers

open Prog

/-! ### Jobs -/

/-- What the task of a submitted job captures. -/
structure Task where
  payload : Payload
  options : JobOptions
  attempt : UInt32
  banner : Bool
  deriving DecidableEq

/-- Who has the job: its reserver, the print queue, a worker's queue, the thread that works on it; a
job of an earlier process is over. -/
inductive Phase where
  | reserved
  | held
  | queued (task : Task)
  | taken
  | reloaded
  deriving DecidableEq

/-- A `PrintJob`; its state and its confidence are those of the event published last. -/
structure Job where
  key : Bytes
  printerId : Bytes
  attempt : UInt32
  printToken : Bytes := []
  cutToken : Bytes := []
  history : List JobEvent := []
  result : Option JobResult := none
  phase : Phase

def Job.state (p : Job) : JobState := (p.history.getLast?.map JobEvent.state).getD .queued

def Job.isTerminal (p : Job) : Bool := p.result.isSome

def Job.setPhase (phase : Phase) (p : Job) : Job := { p with phase := phase }

/-- The options of an entry are left out: nothing reads them. -/
structure JobEntry where
  job : Bytes
  printerId : Bytes
  payload : Option Payload := none
  attempt : UInt32

def JobEntry.setPayload (payload : Payload) (e : JobEntry) : JobEntry :=
  { e with payload := some payload }

/-- What one job has done in the process that created it; a job that no worker has taken has the run
of a profile without capabilities. -/
structure Trail where
  run : JobRun
  progress : Progress := {}
  tokens : Tokens := .unleased

/-- No run. -/
def idleRun (id : Bytes) : JobRun where
  id := id
  key := []
  payload := .raw []
  options := {}
  attempt := 1
  banner := false
  profile := {}
  widthDots := 0
  codecs := plainCodecs
  completionMethod := fun _ => none

namespace Trail

def new (id : Bytes) : Trail := { run := idleRun id }

/-- A worker takes the job. -/
def begin (j : JobRun) (t : Trail) : Trail := { t with run := j }

/-- What is remembered of a call. -/
def note (x : Σ c : Call, c.Answer) (t : Trail) : Trail :=
  { t with progress := t.progress.post x, tokens := t.tokens.post x }

end Trail

/-! ### The state -/

structure State where
  store : JobStore
  /-- The store before the last thing that happened, if that was an append. -/
  prior : Option (JobStore × StoreOp) := none
  jobs : Bytes → Option Job := fun _ => none
  byKey : Bytes → Option JobEntry := fun _ => none
  /-- Oldest first. -/
  byToken : Bytes → List Bytes := fun _ => []
  markers : MarkerAllocator
  trails : Bytes → Trail := Trail.new
  /-- Newest first, those of earlier processes too. -/
  leases : List (Bytes × MarkerPair) := []

/-- What the environment chooses when a call is served. -/
structure Choice where
  now : UInt64 := 0
  answer : (c : Call) → Option c.Answer := fun _ => none

namespace State

/-- An append that returns. -/
def commit (s : State) (op : StoreOp) : Option State :=
  match op.apply s.store none with
  | (none, store) => some { s with store := store, prior := some (s.store, op) }
  | (some _, _) => none

def change (s : State) (id : Bytes) (f : Job → Job) : State :=
  { s with jobs := Function.update s.jobs id ((s.jobs id).map f) }

def registerToken (s : State) (token id : Bytes) : State :=
  if token = [] then s
  else { s with byToken := Function.update s.byToken token (s.byToken token ++ [id]) }

/-- A call of a job's thread. -/
def serve (s : State) : (c : Call) → Choice → Option (c.Answer × State)
  | .recordState id state confidence reason evidence, ch =>
    (s.commit (.recordState ch.now id state confidence reason evidence)).map fun s => ((), s)
  | .recordTokens id pair, _ =>
    (s.commit (.recordTokens id pair.printToken pair.cutToken)).map fun s => ((), s)
  | .emit id event, _ =>
    some ((), s.change id fun p => { p with history := p.history ++ [event] })
  | .finish id result, _ => some ((), s.change id fun p => { p with result := some result })
  | .setTokens id pair, _ =>
    some ((), s.change id fun p =>
      { p with printToken := pair.printToken, cutToken := pair.cutToken })
  | .registerTokens id pair, _ =>
    some ((), (s.registerToken pair.printToken id).registerToken pair.cutToken id)
  | .acquireTokens, _ => s.markers.acquire.map fun r => (r.1, { s with markers := r.2 })
  | .releaseTokens pair, _ => some ((), { s with markers := s.markers.release pair })
  | c, ch => (ch.answer c).map fun a => (a, s)

/-- The leases after a call of a job. -/
def leasesAfter (s : State) (id : Bytes) : (Σ c : Call, c.Answer) → List (Bytes × MarkerPair)
  | ⟨.acquireTokens, pair⟩ => (id, pair) :: s.leases
  | _ => s.leases

/-- What the model remembers of a call of a job. -/
def note (s : State) (id : Bytes) (x : Σ c : Call, c.Answer) : State :=
  { s with
    trails := Function.update s.trails id ((s.trails id).note x)
    leases := s.leasesAfter id x }

/-! ### Submitting -/

/-- What is done with a submission. -/
inductive Verdict where
  | existing (id : Bytes)
  | create (attempt : UInt32) (payload : Option Payload)
  | nothing

def Verdict.creates : Verdict → Bool
  | .create _ _ => true
  | _ => false

def lookup (s : State) (key : Bytes) : Option JobEntry := if key = [] then none else s.byKey key

/-- The job printed nothing and is over. -/
def failedAndFinished (s : State) (id : Bytes) : Bool :=
  (s.jobs id).any fun p => p.isTerminal && p.state = .failedKnown

/-- A call of `submit`: a print, or a reprint of a key. -/
structure Submission where
  printerId : Bytes
  payload : Option Payload
  options : JobOptions
  reprint : Bool := false
  banner : Bool := false

def decideSubmit (s : State) (r : Submission) : Verdict :=
  match s.lookup r.options.key with
  | some e =>
    if !r.reprint && !s.failedAndFinished e.job then .existing e.job
    else
      match r.payload <|> e.payload with
      | some payload => .create (e.attempt + 1) (some payload)
      | none => .nothing
  | none =>
    match r.payload with
    | some payload => .create 1 (some payload)
    | none => .nothing

def decideReserve (s : State) (key : Bytes) : Verdict :=
  match s.lookup key with
  | some e => .existing e.job
  | none => .create 1 none

/-- What a submission draws: the clock, an identifier, and one for a job without a key. -/
structure Draw where
  now : UInt64
  id : Bytes
  auto : Bytes

def effectiveKey (key : Bytes) (d : Draw) : Bytes :=
  if key = [] then str "auto-" ++ d.auto else key

/-- A new job in the journal and the index. -/
def mint (s : State) (d : Draw) (key printerId : Bytes) (attempt : UInt32) (kind : PayloadKind)
    (bytes : UInt64) (payload : Option Payload) (phase : Phase) : Option State :=
  (s.commit (.createJob d.now
    { id := d.id, key := key, printerId := printerId, attempt := attempt, payloadKind := kind,
      payloadBytes := bytes })).map fun s =>
    { s with
      jobs := Function.update s.jobs d.id (some
        { key := key, printerId := printerId, attempt := attempt, phase := phase
          history := [⟨.queued, .transportAccepted, none⟩] })
      byKey := Function.update s.byKey key (some
        { job := d.id, printerId := printerId, payload := payload, attempt := attempt })
      trails := Function.update s.trails d.id (Trail.new d.id) }

end State

def kindOf : Payload → PayloadKind
  | .raster _ => .raster
  | .document _ _ => .document
  | .raw _ => .raw

def payloadInputBytes : Payload → UInt64
  | .raster r => UInt64.ofNat r.gray.length
  | .document bytes _ => UInt64.ofNat bytes.length
  | .raw bytes => UInt64.ofNat bytes.length

/-! ### The machine -/

inductive Event where
  /-- `Printer::print`, and `forceReprint` of the printer and of the driver. -/
  | submit (r : State.Submission) (d : State.Draw)
  | reserve (printerId key : Bytes) (kind : PayloadKind) (bytes : UInt64) (d : State.Draw)
  | submitReserved (id : Bytes) (payload : Payload) (options : JobOptions)

/-- A task of a worker, or a transition that the print queue makes itself. -/
inductive Work where
  | run (j : JobRun)
  | hold
  | giveUp (reason : FailureReason)

/-- A process that starts; `cut` says how much of an append is in the file. -/
structure Restart where
  now : Bytes → UInt64 := fun _ => 0
  cut : Option ℕ := none

/-- The task is that of the job, whatever profile the worker finds. -/
def Task.Fits (t : Task) (id : Bytes) (p : Job) (j : JobRun) : Prop :=
  j.id = id ∧ j.key = p.key ∧ j.payload = t.payload ∧ j.options = t.options ∧
    j.attempt = t.attempt.toNat ∧ j.banner = t.banner

instance (t : Task) (id : Bytes) (p : Job) (j : JobRun) : Decidable (t.Fits id p j) :=
  inferInstanceAs (Decidable (_ ∧ _))

/-- Why a job is given up that no worker runs: the runtime is stopping, or has cancelled the job; the
queue is full, or the job too old. -/
def Phase.givenUp : Phase → FailureReason → Bool
  | .queued _, reason => reason = .transportUnreachable || reason = .unknown
  | .reserved, reason | .held, reason => reason = .expired || reason = .queueOverflow
  | _, _ => false

def reloadedResult (r : JobRecord) : JobResult :=
  (match r.state with
  | .doneSoftware | .physicallyVerified => JobResult.done r.confidence
  | .failedKnown => JobResult.failed r.reason r.confidence
  | _ => { outcome := .unknown, confidence := r.confidence, reason := r.reason }).attested r.evidence

def eventOf (r : JobRecord) : JobEvent := ⟨r.state, r.confidence, r.reason.published⟩

/-- A job of an earlier process. -/
def reloadedJob (r : JobRecord) : Job where
  key := r.key
  printerId := r.printerId
  attempt := r.attempt
  printToken := r.printToken
  cutToken := r.cutToken
  history := [eventOf r]
  result := some (reloadedResult r)
  phase := .reloaded

def entryOf (r : JobRecord) : JobEntry where
  job := r.id
  printerId := r.printerId
  attempt := r.attempt

namespace State

/-- A record is entered in the index. -/
def enter (s : State) (r : JobRecord) : State :=
  ({ s with
    jobs := Function.update s.jobs r.id (some (reloadedJob r))
    byKey := Function.update s.byKey r.key (some (entryOf r)) }.registerToken r.printToken
      r.id).registerToken r.cutToken r.id

/-- A process opens the store; the records are in the order of creation. -/
def opened (store : JobStore) (nonce : Bytes) (trails : Bytes → Trail)
    (leases : List (Bytes × MarkerPair)) : State :=
  store.jobs.foldl enter
    { store := store, markers := { nonce := nonce }, trails := trails, leases := leases }

def step (s : State) : Event → Option State
  | .submit r d =>
    match s.decideSubmit r with
    | .create attempt payload =>
      if r.options.key = [] ∧ (s.byKey (effectiveKey r.options.key d)).isSome then none
      else payload.bind fun w =>
        s.mint d (effectiveKey r.options.key d) r.printerId attempt (kindOf w) (payloadInputBytes w)
          (some w) (.queued ⟨w, r.options, attempt, r.banner⟩)
    | _ => some s
  | .reserve printerId key kind bytes d =>
    match s.decideReserve key with
    | .create attempt payload =>
      if key = [] ∧ (s.byKey (effectiveKey key d)).isSome then none
      else s.mint d (effectiveKey key d) printerId attempt kind bytes payload .reserved
    | _ => some s
  | .submitReserved id payload options =>
    (s.jobs id).bind fun p =>
      if p.isTerminal then some s
      else if p.phase = .reserved ∨ p.phase = .held then
        some
          { s with
            jobs := (s.change id (Job.setPhase (.queued ⟨payload, options, 1, false⟩))).jobs
            byKey := Function.update s.byKey p.key
              ((s.byKey p.key).map (JobEntry.setPayload payload)) }
      else none

/-- The thread of a job begins its work. -/
def begin (s : State) (id : Bytes) (w : Work) : Option (Prog Worker Unit × State) :=
  (s.jobs id).bind fun p =>
    match w with
    | .run j =>
      match p.phase with
      | .queued t =>
        if t.Fits id p j then
          some (j.runJob,
            { s with
              jobs := (s.change id (Job.setPhase .taken)).jobs
              trails := Function.update s.trails id ((s.trails id).begin j) })
        else none
      | _ => none
    | .hold =>
      if p.phase = .reserved then
        some (advance id .heldOffline .transportAccepted .none,
          s.change id (Job.setPhase .held))
      else none
    | .giveUp reason =>
      if p.phase.givenUp reason then
        some (terminate id .failedKnown (JobResult.failed reason),
          s.change id (Job.setPhase .taken))
      else none

/-- A call of the thread of a job. -/
def serveAs (s : State) (id : Bytes) (c : Call) (ch : Choice) : Option (c.Answer × State) :=
  (serve { s with prior := none } c ch).map fun r => (r.1, r.2.note id ⟨c, r.1⟩)

/-- What is in the file when the process dies. -/
def remains (s : State) : Option ℕ → Option Bytes
  | none => some s.store.journal
  | some n => s.prior.map fun p => (p.2.apply p.1 (some n)).2.journal

end State

/-- The driver of a storage directory. -/
def driver : Machine Worker Bytes State where
  Choice := Choice
  Event := Event
  Task := Work
  Restart := Restart
  serve id c ch s := s.serveAs id c ch
  event e s := { s with prior := none }.step e
  start id w s := { s with prior := none }.begin id w
  restart r s := (s.remains r.cut).map fun file =>
    .opened (JobStore.open r.now file) s.markers.nonce s.trails s.leases

/-- The first process, on an empty directory. -/
def first (nonce : Bytes) : State :=
  .opened (JobStore.open (fun _ => 0) []) nonce Trail.new []

/-- The configurations of the runs whose moves all meet the guard. -/
abbrev Reached (G : driver.Guard) (nonce : Bytes) : Config Worker Bytes State → Prop :=
  driver.Reach G (first nonce)

end PrinterDriver.Engine.Driver
