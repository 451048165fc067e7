import Mathlib.Data.List.Basic

/-! # The closed enumerations of the SDK

The enumerations of `types.hpp` with their spellings, the evidence a claim rests on, and the
terminal outcome of a job. Byte strings are lists of bytes; `str` is a literal. -/

namespace PrinterDriver.Core.Types

/-- A `std::string` or a byte buffer. -/
abbrev Bytes : Type := List UInt8

instance : LawfulBEq Bytes := inferInstance

/-- The bytes of an ASCII literal. -/
def str (s : String) : Bytes := s.toList.map fun c => UInt8.ofNat c.toNat

inductive JobState where
  | queued | preflightOk | sendStarted | bytesSent | printConfirmed | cutCommandProcessed
  | doneSoftware | physicallyVerified | failedKnown | unknown | heldOffline
  deriving DecidableEq, Repr

/-- What evidence backs the current claim. -/
inductive ConfidenceLevel where
  | transportAccepted | printerHealthy | printConfirmed | cutProcessed | cutFaultFree
  | physicallyVerified
  deriving DecidableEq, Repr

inductive DeviceEvent where
  | online | offline | coverOpen | coverClosed | paperOut | paperNearEnd | paperOk | cutterError
  | recoverableError | unrecoverableError | connectionLost | connectionRestored
  | foreignWriterDetected
  deriving DecidableEq, Repr

inductive FailureReason where
  | none | transportUnreachable | preflightCoverOpen | preflightPaperOut | preflightHardwareError
  | timeoutAwaitingCompletion | cutterFault | unsupported | unknown | expired | queueOverflow
  deriving DecidableEq, Repr

inductive JobOutcome where
  | done | failed | unknown
  deriving DecidableEq, Repr

inductive ConfidenceGrade where
  | aPlusDurableQueryableJob | aJobLevelConfirmation | bOrderedDeviceResponse
  | cDeviceStatusAround | dSpoolerCompleted | eTransportOnly
  deriving DecidableEq, Repr

inductive CompletionAuthority where
  | physicalPrinter | vendorSpooler | pdAgent | printServer | transportOnly
  deriving DecidableEq, Repr

/-! ### Spellings, as the journal stores them -/

def JobState.toBytes : JobState → Bytes
  | .queued => str "Queued"
  | .preflightOk => str "PreflightOk"
  | .sendStarted => str "SendStarted"
  | .bytesSent => str "BytesSent"
  | .printConfirmed => str "PrintConfirmed"
  | .cutCommandProcessed => str "CutCommandProcessed"
  | .doneSoftware => str "DoneSoftware"
  | .physicallyVerified => str "PhysicallyVerified"
  | .failedKnown => str "FailedKnown"
  | .unknown => str "Unknown"
  | .heldOffline => str "HeldOffline"

def ConfidenceLevel.toBytes : ConfidenceLevel → Bytes
  | .transportAccepted => str "TransportAccepted"
  | .printerHealthy => str "PrinterHealthy"
  | .printConfirmed => str "PrintConfirmed"
  | .cutProcessed => str "CutProcessed"
  | .cutFaultFree => str "CutFaultFree"
  | .physicallyVerified => str "PhysicallyVerified"

def FailureReason.toBytes : FailureReason → Bytes
  | .none => str "None"
  | .transportUnreachable => str "TransportUnreachable"
  | .preflightCoverOpen => str "PreflightCoverOpen"
  | .preflightPaperOut => str "PreflightPaperOut"
  | .preflightHardwareError => str "PreflightHardwareError"
  | .timeoutAwaitingCompletion => str "TimeoutAwaitingCompletion"
  | .cutterFault => str "CutterFault"
  | .unsupported => str "Unsupported"
  | .unknown => str "Unknown"
  | .expired => str "Expired"
  | .queueOverflow => str "QueueOverflow"

def ConfidenceGrade.toBytes : ConfidenceGrade → Bytes
  | .aPlusDurableQueryableJob => str "APlus_DurableQueryableJob"
  | .aJobLevelConfirmation => str "A_JobLevelConfirmation"
  | .bOrderedDeviceResponse => str "B_OrderedDeviceResponse"
  | .cDeviceStatusAround => str "C_DeviceStatusAround"
  | .dSpoolerCompleted => str "D_SpoolerCompleted"
  | .eTransportOnly => str "E_TransportOnly"

def CompletionAuthority.toBytes : CompletionAuthority → Bytes
  | .physicalPrinter => str "PhysicalPrinter"
  | .vendorSpooler => str "VendorSpooler"
  | .pdAgent => str "PdAgent"
  | .printServer => str "PrintServer"
  | .transportOnly => str "TransportOnly"

def kAllJobStates : List JobState :=
  [.queued, .preflightOk, .sendStarted, .bytesSent, .printConfirmed, .cutCommandProcessed,
    .doneSoftware, .physicallyVerified, .failedKnown, .unknown, .heldOffline]

def kAllConfidenceLevels : List ConfidenceLevel :=
  [.transportAccepted, .printerHealthy, .printConfirmed, .cutProcessed, .cutFaultFree,
    .physicallyVerified]

def kAllFailureReasons : List FailureReason :=
  [.none, .transportUnreachable, .preflightCoverOpen, .preflightPaperOut, .preflightHardwareError,
    .timeoutAwaitingCompletion, .cutterFault, .unsupported, .unknown, .expired, .queueOverflow]

def kAllConfidenceGrades : List ConfidenceGrade :=
  [.aPlusDurableQueryableJob, .aJobLevelConfirmation, .bOrderedDeviceResponse,
    .cDeviceStatusAround, .dSpoolerCompleted, .eTransportOnly]

def kAllCompletionAuthorities : List CompletionAuthority :=
  [.physicalPrinter, .vendorSpooler, .pdAgent, .printServer, .transportOnly]

/-! ### The evidence ladder -/

/-- The ordinal of a level. -/
def ConfidenceLevel.rank : ConfidenceLevel → ℕ
  | .transportAccepted => 0
  | .printerHealthy => 1
  | .printConfirmed => 2
  | .cutProcessed => 3
  | .cutFaultFree => 4
  | .physicallyVerified => 5

/-- The stronger of two levels. -/
def ConfidenceLevel.raise (current candidate : ConfidenceLevel) : ConfidenceLevel :=
  if current.rank < candidate.rank then candidate else current

/-- A level cut down to a ceiling. -/
def ConfidenceLevel.clampTo (value ceiling : ConfidenceLevel) : ConfidenceLevel :=
  if ceiling.rank < value.rank then ceiling else value

theorem ConfidenceLevel.rank_clampTo (v c : ConfidenceLevel) :
    (v.clampTo c).rank = min v.rank c.rank := by
  unfold ConfidenceLevel.clampTo; split_ifs <;> omega

theorem ConfidenceLevel.rank_raise (a b : ConfidenceLevel) :
    (a.raise b).rank = max a.rank b.rank := by
  unfold ConfidenceLevel.raise; split_ifs <;> omega

/-- A state a job never leaves. -/
def JobState.isTerminal : JobState → Bool
  | .doneSoftware | .physicallyVerified | .failedKnown | .unknown => true
  | _ => false

/-! ### Evidence and outcome -/

/-- What kind of evidence produced a result, and who produced it. -/
structure JobEvidence where
  grade : ConfidenceGrade := .eTransportOnly
  authority : CompletionAuthority := .transportOnly
  method : Bytes := str "none"
  deriving DecidableEq, Repr

/-- The terminal outcome of a job. -/
structure JobResult where
  outcome : JobOutcome := .unknown
  confidence : ConfidenceLevel := .transportAccepted
  reason : FailureReason := .none
  grade : ConfidenceGrade := .eTransportOnly
  authority : CompletionAuthority := .transportOnly
  method : Bytes := str "none"
  deriving DecidableEq, Repr

/-- The result with the given evidence. -/
def JobResult.attested (r : JobResult) (e : JobEvidence) : JobResult :=
  { r with grade := e.grade, authority := e.authority, method := e.method }

def JobResult.done (confidence : ConfidenceLevel) : JobResult :=
  { outcome := .done, confidence := confidence, reason := .none }

def JobResult.failed (reason : FailureReason)
    (reached : ConfidenceLevel := .transportAccepted) : JobResult :=
  { outcome := .failed, confidence := reached, reason := reason }

def JobResult.unknown (reached : ConfidenceLevel := .transportAccepted) : JobResult :=
  { outcome := .unknown, confidence := reached, reason := .unknown }

/-- What an observer of a job is told; the monotonic timestamp is left out. -/
structure JobEvent where
  state : JobState
  confidence : ConfidenceLevel
  reason : Option FailureReason
  deriving DecidableEq, Repr

/-- The reason as it is published: no reason at all for `none`. -/
def FailureReason.published (r : FailureReason) : Option FailureReason :=
  if r = .none then Option.none else some r

end PrinterDriver.Core.Types
