import PrinterDriver.Lib.Programs
import PrinterDriver.Engine.Io

/-! # What a worker's program can do

The interface of the job engines. A call is one critical section, one transport write, one journal
append, or one publication; between two calls anything else may happen. The `Part` of a call is a
label of the model: the code has none. -/

namespace PrinterDriver.Engine.Ops

open PrinterDriver.Lib.Programs PrinterDriver.Core.Types PrinterDriver.Core.Profile
  PrinterDriver.Core.EscposParser PrinterDriver.Engine.Io

/-- What a command on the wire is for. -/
inductive Part where
  | preamble | preflight | payload | printFence | cut | cutterStatus | refresh | drawer
  deriving DecidableEq, Repr

/-- `error` and `message` are left out: nothing reads them. -/
structure TransportResult where
  ok : Bool
  bytesWritten : ℕ
  deriving DecidableEq, Repr

/-- What the transport accepted of the bytes it was given. -/
def TransportResult.accepted (r : TransportResult) (data : Bytes) : Bytes :=
  if r.ok then data else data.take r.bytesWritten

structure MarkerPair where
  printToken : Bytes
  cutToken : Bytes
  deriving DecidableEq, Repr

/-- The critical sections that return nothing. -/
inductive IoOp where
  | beginJobIo
  | setCustomMethod (method : Option CompletionMethod)
  | expectRealtime (part : Part) (kinds : List DleEotKind)
  | expectQueued (part : Part)
  | clearRealtime
  | dropRealtimeAnswers
  | armCustomFence (part : Part)
  | enterStarMode (asbBlockBytes : UInt8)
  | zeroStarCounter

def IoOp.apply (s : IoState) : IoOp → IoState
  | .beginJobIo => s.beginJobIo
  | .setCustomMethod method => s.setCustomMethod method
  | .expectRealtime _ kinds => s.expectRealtime kinds
  | .expectQueued _ => s.expectQueued
  | .clearRealtime => s.clearRealtime
  | .dropRealtimeAnswers => s.dropRealtimeAnswers
  | .armCustomFence _ => s.armCustomFence
  | .enterStarMode n => s.enterStarMode n
  | .zeroStarCounter => s.zeroStarCounter

/-- What a fence is awaited by. -/
inductive Wait where
  | token (token : Bytes)
  | customToken (token : Bytes)
  | queued
  | star
  deriving DecidableEq, Repr

def Wait.apply (s : IoState) : Wait → WaitOutcome × IoState
  | .token t => (s.awaitToken t, s)
  | .customToken t => s.awaitCustomToken t
  | .queued => s.awaitQueued
  | .star => s.awaitStarFence

inductive Call where
  | ensureConnected
  | io (op : IoOp)
  | armStarFence (part : Part) (completion : CompletionMechanism)
  | write (part : Part) (data : Bytes)
  | await (part : Part) (w : Wait)
  | awaitRealtime (part : Part) (count : ℕ)
  | acquireTokens
  | setTokens (id : Bytes) (pair : MarkerPair)
  | recordTokens (id : Bytes) (pair : MarkerPair)
  | registerTokens (id : Bytes) (pair : MarkerPair)
  | releaseTokens (pair : MarkerPair)
  | recordState (id : Bytes) (state : JobState) (confidence : ConfidenceLevel)
      (reason : FailureReason) (evidence : JobEvidence)
  | emit (id : Bytes) (event : JobEvent)
  | finish (id : Bytes) (result : JobResult)
  /-- An exception leaves the worker, which ends the process. -/
  | uncaught

@[reducible] def Call.Answer : Call → Type
  | .ensureConnected => Bool
  | .armStarFence _ _ => Bytes
  | .write _ _ => TransportResult
  | .await _ _ => WaitOutcome
  | .awaitRealtime _ _ => WaitOutcome × List ParsedEvent
  | .acquireTokens => MarkerPair
  | .uncaught => Empty
  | .io _ | .setTokens _ _ | .recordTokens _ _ | .registerTokens _ _ | .releaseTokens _
  | .recordState _ _ _ _ _ | .emit _ _ | .finish _ _ => Unit

/-- The interface of a printer's worker. -/
@[reducible] def Worker : Interface := ⟨Call, Call.Answer⟩

open Prog

/-- An exception that nothing catches. -/
def uncaught {α : Type} : Prog Worker α := .call (.uncaught : Call) fun e => Empty.elim e

/-! ### Writing -/

/-- The bytes cut into chunks of `n`; the fuel is their number. -/
def chunks (n : ℕ) : ℕ → Bytes → List Bytes
  | 0, _ => []
  | _ + 1, [] => []
  | fuel + 1, b :: data =>
    (b :: data).take (max n 1) :: chunks n fuel ((b :: data).drop (max n 1))

/-- Chunk after chunk until one is refused; `offset` bytes were accepted before. -/
def sendChunks (part : Part) : List Bytes → ℕ → Prog Worker TransportResult
  | [], offset => pure ⟨true, offset⟩
  | c :: cs, offset => do
    let result : TransportResult ← perform (E := Worker) (.write part c)
    if result.ok then sendChunks part cs (offset + c.length)
    else pure ⟨false, offset + result.bytesWritten⟩

/-- Without a chunk size the bytes go out in one write. -/
def sendPaced (profile : CapabilityProfile) (part : Part) (data : Bytes) :
    Prog Worker TransportResult :=
  if profile.chunkBytes = 0 then perform (E := Worker) (.write part data)
  else sendChunks part (chunks profile.chunkBytes data.length data) 0

theorem chunks_flatten (n : ℕ) : ∀ {fuel : ℕ} {data : Bytes}, data.length ≤ fuel →
    (chunks n fuel data).flatten = data
  | 0, data, h => by simp [chunks, List.length_eq_zero_iff.mp (Nat.le_zero.mp h)]
  | _ + 1, [], _ => by simp [chunks]
  | fuel + 1, b :: data, h => by
    have hlen : ((b :: data).drop (max n 1)).length ≤ fuel := by
      simp only [List.length_drop, List.length_cons] at h ⊢
      omega
    rw [chunks, List.flatten_cons, chunks_flatten n hlen, List.take_append_drop]

theorem chunks_ne_nil (n : ℕ) : ∀ (fuel : ℕ) (data : Bytes), ∀ c ∈ chunks n fuel data, c ≠ []
  | 0, _, c, h => by simp [chunks] at h
  | _ + 1, [], c, h => by simp [chunks] at h
  | fuel + 1, b :: data, c, h => by
    rw [chunks, List.mem_cons] at h
    rcases h with rfl | h
    · simp
    · exact chunks_ne_nil n fuel _ c h

/-! ### Recording and publishing -/

/-- Persist first, then publish. -/
def advance (id : Bytes) (state : JobState) (confidence : ConfidenceLevel)
    (reason : FailureReason) (evidence : JobEvidence := {}) : Prog Worker Unit := do
  perform (E := Worker) (.recordState id state confidence reason evidence)
  perform (E := Worker) (.emit id ⟨state, confidence, reason.published⟩)

def terminate (id : Bytes) (state : JobState) (outcome : JobResult) : Prog Worker Unit := do
  advance id state outcome.confidence outcome.reason
    ⟨outcome.grade, outcome.authority, outcome.method⟩
  perform (E := Worker) (.finish id outcome)

end PrinterDriver.Engine.Ops
