import PrinterDriver.Agent.Jobs

/-! # The evidence document

What `GET /jobs` and `POST /jobs` of the agent say of a job. `evidenceJson` derives it from the
journal's record and the handle of the job; `getJob` and `jobDocument` say which record and handle
that is. -/

namespace PrinterDriver.Agent.Evidence

open PrinterDriver.Core.Types PrinterDriver.Core.Profile PrinterDriver.Core.Journal
  PrinterDriver.Core.Store PrinterDriver.Engine.Driver

open PrinterDriver.Agent.Jobs (findJob)

/-- A claim that bytes left the host. -/
def bytesLeftTheHost : JobState → Bool
  | .bytesSent | .printConfirmed | .cutCommandProcessed | .doneSoftware | .physicallyVerified
  | .unknown => true
  | .queued | .preflightOk | .sendStarted | .failedKnown | .heldOffline => false

/-- A claim that an ordered fence answered. -/
def fenceCameBack : ConfidenceLevel → Bool
  | .printConfirmed | .cutProcessed | .cutFaultFree | .physicallyVerified => true
  | .transportAccepted | .printerHealthy => false

def fenceName (mechanism : CompletionMechanism) : Bytes := (evidenceFor mechanism).method

def tri (value : Option Bool) (yes no : Bytes) : Bytes :=
  match value with
  | none => str "unknown"
  | some b => if b then yes else no

def gradeLetter : ConfidenceGrade → Bytes
  | .aPlusDurableQueryableJob => str "A+"
  | .aJobLevelConfirmation => str "A"
  | .bOrderedDeviceResponse => str "B"
  | .cDeviceStatusAround => str "C"
  | .dSpoolerCompleted => str "D"
  | .eTransportOnly => str "E"

/-- Of the status of a printer what the document shows. -/
structure DeviceStatus where
  cutterError : Option Bool := none
  paperOut : Option Bool := none
  paperNearEnd : Option Bool := none
  deriving DecidableEq, Repr

def paperStatus (status : DeviceStatus) : Bytes :=
  if status.paperOut = some true then str "out"
  else if status.paperNearEnd = some true then str "nearEnd"
  else if status.paperOut.isSome then str "ok"
  else str "unknown"

/-- The `evidence` object. -/
structure Proof where
  transportAccepted : Bool
  printFence : Bytes
  fenceResponse : Bool
  cutterStatus : Bytes
  paperStatus : Bytes
  deriving DecidableEq, Repr

/-- The body of the answer; enumerations stand for their spellings. -/
structure Document where
  job : Bytes
  state : JobState
  evidence : Proof
  grade : Bytes
  authority : CompletionAuthority
  method : Bytes
  token : Bytes
  key : Bytes
  printerId : Bytes
  attempt : UInt32
  confidence : ConfidenceLevel
  cutToken : Bytes
  terminal : Bool
  deduped : Bool
  recovered : Bool
  reason : Option FailureReason
  outcome : Option JobOutcome
  deriving DecidableEq

/-- The printers of the agent. -/
abbrev Printers : Type := Bytes → Option (CapabilityProfile × DeviceStatus)

def recordOutcome (state : JobState) : JobOutcome :=
  if state = .doneSoftware ∨ state = .physicallyVerified then .done
  else if state = .failedKnown then .failed
  else .unknown

/-- The outcome of the handle if it has one, else that of a terminal record. -/
def outcomeShown (record : JobRecord) (job : Option Job) : Option JobOutcome :=
  match job.bind Job.result with
  | some result => some result.outcome
  | none => if record.isTerminal then some (recordOutcome record.state) else none

def evidenceJson (owned : Printers) (record : JobRecord) (job : Option Job) (deduped : Bool) :
    Document :=
  let (profile, status) := (owned record.printerId).getD (genericEscpos, {})
  { job := record.id
    state := record.state
    evidence :=
      { transportAccepted := bytesLeftTheHost record.state
        printFence := fenceName profile.completion
        fenceResponse := fenceCameBack record.confidence
        cutterStatus :=
          if record.reason = .cutterFault then str "fault"
          else tri status.cutterError (str "fault") (str "clear")
        paperStatus := paperStatus status }
    grade := gradeLetter record.evidence.grade
    authority := record.evidence.authority
    method := record.evidence.method
    token := record.printToken
    key := record.key
    printerId := record.printerId
    attempt := record.attempt
    confidence := record.confidence
    cutToken := record.cutToken
    terminal := record.isTerminal
    deduped := deduped
    recovered := record.recovered
    reason := record.reason.published
    outcome := outcomeShown record job }

/-! ### The two requests -/

/-- The newest job that a token was given to. -/
def jobByToken (s : State) (token : Bytes) : Option Bytes := (s.byToken token).getLast?

/-- A reference is a key, a token, or the identifier of a job. -/
def getJob (s : State) (owned : Printers) (reference : Bytes) : Option Document :=
  let job := (findJob s reference).or (jobByToken s reference)
  let record := ((job.bind s.store.findById).or (s.store.findById reference)).or
    (s.store.findByKey reference)
  record.map fun r => evidenceJson owned r (job.bind s.jobs) false

/-- `POST /jobs` on the job of the request, found or made. -/
def jobDocument (s : State) (owned : Printers) (id : Bytes) (deduped : Bool) : Option Document :=
  (s.store.findById id).map fun r => evidenceJson owned r (s.jobs id) deduped

end PrinterDriver.Agent.Evidence
