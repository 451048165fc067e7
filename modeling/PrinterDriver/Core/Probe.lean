import PrinterDriver.Core.EscposParser
import PrinterDriver.Core.Profile
import PrinterDriver.Core.Encoder

/-! # The capability probe

`CapabilityProbe::run` asks its queries one after the other, each in a phase of its own that begins by
dropping what was heard, and takes what it hears in the phase for the answer. A transcript says which
bytes come in which phase, and which query each of them answers. -/

namespace PrinterDriver.Core.Probe

open PrinterDriver.Core.Types PrinterDriver.Core.Profile PrinterDriver.Core.EscposParser

open PrinterDriver.Core.Encoder (dleEot gsPaperStatus processIdMarker)

/-! ### Queries -/

inductive ByteField where
  | modelId | typeId | romVersion
  deriving DecidableEq, Repr

inductive TextField where
  | manufacturer | model | firmware | serial
  deriving DecidableEq, Repr

inductive Query where
  | realtime (kind : DleEotKind)
  | identityByte (field : ByteField)
  | identityText (field : TextField)
  | processId
  | queued
  | asb
  deriving DecidableEq, Repr

/-- In the order they are asked. -/
def Query.all : List Query :=
  [.realtime .printerStatus, .realtime .offlineCause, .realtime .errorCause, .realtime .paperSensor,
    .identityByte .modelId, .identityByte .typeId, .identityByte .romVersion,
    .identityText .manufacturer, .identityText .model, .identityText .firmware,
    .identityText .serial, .processId, .queued, .asb]

inductive Phase where
  | escpos | identityString | identityByte
  deriving DecidableEq, Repr

def Query.phase : Query → Phase
  | .identityByte _ => .identityByte
  | .identityText _ => .identityString
  | _ => .escpos

def gsIdentity (n : UInt8) : Bytes := [0x1D, 0x49, n]

def asbEnable : Bytes := [0x1D, 0x61, 0x0E]

def asbDisable : Bytes := [0x1D, 0x61, 0x00]

/-- Four printable bytes that no job is marked with. -/
def kProbeToken : Bytes := str "PRB0"

def testLine (text : Bytes) : Bytes := text ++ [0x0A] ++ [0x0A]

def Query.request (printTestLines : Bool) : Query → Bytes
  | .realtime kind => dleEot kind
  | .identityByte .modelId => gsIdentity 1
  | .identityByte .typeId => gsIdentity 2
  | .identityByte .romVersion => gsIdentity 3
  | .identityText .firmware => gsIdentity 65
  | .identityText .manufacturer => gsIdentity 66
  | .identityText .model => gsIdentity 67
  | .identityText .serial => gsIdentity 68
  | .processId =>
    (if printTestLines then testLine (str "pd capability probe: GS ( H") else []) ++
      (processIdMarker kProbeToken).getD []
  | .queued =>
    (if printTestLines then testLine (str "pd capability probe: GS r 1") else []) ++ gsPaperStatus
  | .asb => asbEnable

/-- The expectation that the parser is given before the query is written. -/
def Query.arm (p : ResponseParser) : Query → ResponseParser
  | .realtime kind => p.expectRealtime kind
  | .queued => p.expectQueued
  | _ => p

/-! ### Answers to `GS I` -/

/-- Printable bytes up to a NUL, without the header and the blanks around them. -/
def parseGsIString (data : Bytes) : Option Bytes :=
  let body := if data[0]? = some 0x5F then data.drop 1 else data
  let text := (body.takeWhile (· ≠ 0)).filter isPrintableAscii
  let trimmed := ((text.dropWhile (· = 0x20)).reverse.dropWhile (· = 0x20)).reverse
  if trimmed = [] then none else some trimmed

def parseGsIByte (data : Bytes) : Option UInt8 := data.head?

structure GsIStrings where
  manufacturer : Bytes := []
  model : Bytes := []
  firmware : Bytes := []
  serial : Bytes := []
  modelId : Option UInt8 := none
  typeId : Option UInt8 := none
  romVersion : Option UInt8 := none
  deriving DecidableEq, Repr

def GsIStrings.answered (s : GsIStrings) : Bool :=
  s.manufacturer ≠ [] || s.model ≠ [] || s.firmware ≠ [] || s.serial ≠ [] || s.modelId.isSome ||
    s.typeId.isSome || s.romVersion.isSome

/-! ### Findings -/

/-- What the probe established; `F` is the finding of a registered step. -/
structure CapabilityFindings (F : Type) where
  dleEot : Option Bool := none
  dleEot1 : Option Bool := none
  dleEot2 : Option Bool := none
  dleEot3 : Option Bool := none
  dleEot4 : Option Bool := none
  gsR1 : Option Bool := none
  gsHProcessId : Option Bool := none
  asb : Option Bool := none
  gsI : Option Bool := none
  cutterErrorStatus : Option Bool := none
  completion : Option CompletionMechanism := none
  reported : GsIStrings := {}
  unclassified : Bytes := []
  customProbe : List (Bytes × F) := []

variable {F : Type}

def CapabilityFindings.empty (f : CapabilityFindings F) : Bool :=
  f.dleEot.isNone && f.gsR1.isNone && f.gsHProcessId.isNone && f.asb.isNone && f.gsI.isNone &&
    f.cutterErrorStatus.isNone && f.completion.isNone && !f.reported.answered

/-- The strongest fence that answered; none when both were asked and neither did. -/
def completionFrom (f : CapabilityFindings F) : Option CompletionMechanism :=
  if f.gsHProcessId = some true then some .gsParenH
  else if f.gsR1 = some true then some .gsR1
  else if f.gsHProcessId.isSome && f.gsR1.isSome then some .none
  else none

/-- The facets that the job engines read: the fence, and whether real-time status is there. -/
def promote (defaults : CapabilityProfile) (f : CapabilityFindings F) : CapabilityProfile :=
  if f.empty then defaults
  else
    { defaults with
      completion := (f.completion.or (completionFrom f)).getD defaults.completion
      status := { defaults.status with dleEot := f.dleEot.getD defaults.status.dleEot } }

/-! ### The probe -/

/-- A read; every byte with the query that it answers. -/
abbrev Chunk : Type := List (Query × UInt8)

def Chunk.bytes (chunk : Chunk) : Bytes := chunk.map (·.2)

/-- What comes in a phase: before its expectation is registered, until its wait is over, and then until
the next phase begins. -/
structure Window where
  before : List Chunk := []
  wrote : Bool := true
  heard : List Chunk := []
  after : List Chunk := []

structure Transcript where
  reset : Window := {}
  window : Query → Window := fun _ => {}
  custom : ℕ → Window := fun _ => {}

/-- A registered step. -/
structure ProbeStep (F : Type) where
  id : Bytes
  requestBytes : Bytes
  classify : Bytes → F

structure ProbeOptions (F : Type) where
  printTestLines : Bool := true
  customSteps : List (ProbeStep F) := []

structure CapabilityProbe where
  phase : Phase := .escpos
  parser : ResponseParser := {}
  events : List ParsedEvent := []
  raw : Bytes := []
  unclassified : Bytes := []

def kMaxUnclassifiedKept : ℕ := 32

def ParsedEvent.unknown? : ParsedEvent → Option UInt8
  | .unknownByte b => some b
  | _ => none

namespace CapabilityProbe

def onBytes (p : CapabilityProbe) (data : Bytes) : CapabilityProbe :=
  if p.phase = .escpos then
    { p with
      raw := p.raw ++ data
      parser := (p.parser.feed data).2
      events := p.events ++ (p.parser.feed data).1
      unclassified := (p.unclassified ++ (p.parser.feed data).1.filterMap ParsedEvent.unknown?).take
        kMaxUnclassifiedKept }
  else { p with raw := p.raw ++ data }

/-- What was heard and expected is dropped. -/
def beginPhase (p : CapabilityProbe) (phase : Phase) : CapabilityProbe :=
  { p with phase := phase, parser := p.parser.reset, events := [], raw := [] }

def hear (p : CapabilityProbe) (chunks : List Chunk) : CapabilityProbe :=
  chunks.foldl (fun p chunk => p.onBytes chunk.bytes) p

def arm (p : CapabilityProbe) (q : Query) : CapabilityProbe := { p with parser := q.arm p.parser }

end CapabilityProbe

def isAsb : ParsedEvent → Bool
  | .asbStatus _ => true
  | _ => false

/-- What the wait of the query finds. -/
def answered (p : CapabilityProbe) : Query → Bool
  | .realtime _ | .queued => p.events ≠ []
  | .identityByte _ => (parseGsIByte p.raw).isSome
  | .identityText _ => (parseGsIString p.raw).isSome
  | .processId => p.events.contains (.gsHAck kProbeToken)
  | .asb => p.events.any isAsb

def CapabilityFindings.realtime (f : CapabilityFindings F) (a : Bool) :
    DleEotKind → CapabilityFindings F
  | .printerStatus => { f with dleEot1 := some a }
  | .offlineCause => { f with dleEot2 := some a }
  | .errorCause => { f with dleEot3 := some a }
  | .paperSensor =>
    { f with
      dleEot4 := some a
      dleEot := some (f.dleEot1 = some true || f.dleEot2 = some true || f.dleEot3 = some true || a)
      cutterErrorStatus := f.dleEot3 }

def GsIStrings.setByte (s : GsIStrings) (b : Option UInt8) : ByteField → GsIStrings
  | .modelId => { s with modelId := b }
  | .typeId => { s with typeId := b }
  | .romVersion => { s with romVersion := b }

def GsIStrings.setText (s : GsIStrings) (text : Bytes) : TextField → GsIStrings
  | .manufacturer => { s with manufacturer := text }
  | .model => { s with model := text }
  | .firmware => { s with firmware := text }
  | .serial => { s with serial := text }

/-- What a phase leaves in the findings. -/
def record (p : CapabilityProbe) (f : CapabilityFindings F) (q : Query) : CapabilityFindings F :=
  match q with
  | .realtime kind => f.realtime (answered p q) kind
  | .identityByte field => { f with reported := f.reported.setByte (parseGsIByte p.raw) field }
  | .identityText field =>
    let reported :=
      match parseGsIString p.raw with
      | some text => f.reported.setText text field
      | none => f.reported
    if field = .serial then { f with reported := reported, gsI := some reported.answered }
    else { f with reported := reported }
  | .processId => { f with gsHProcessId := some (answered p q) }
  | .queued => { f with gsR1 := some (answered p q) }
  | .asb => { f with asb := some (answered p q) }

/-- The run of the probe; a write that fails ends it. -/
structure Run (F : Type) where
  probe : CapabilityProbe := {}
  findings : CapabilityFindings F := {}
  live : Bool := true
  written : List Bytes := []

def ask (o : ProbeOptions F) (t : Transcript) (r : Run F) (q : Query) : Run F :=
  if !r.live then r
  else
    let w := t.window q
    let p := (((r.probe.beginPhase q.phase).hear w.before).arm q).hear w.heard
    let written := r.written ++ [q.request o.printTestLines]
    if !w.wrote then { r with probe := p, live := false, written := written }
    else
      { r with
        probe := p.hear w.after
        findings := record p r.findings q
        written := if q = .asb then written ++ [asbDisable] else written }

/-- A registered step without a request is not written. -/
def askCustom (t : Transcript) (r : Run F) (step : ProbeStep F × ℕ) : Run F :=
  if !r.live then r
  else
    let w := t.custom step.2
    let p := ((r.probe.beginPhase .escpos).hear w.before).hear w.heard
    let written :=
      if step.1.requestBytes = [] then r.written else r.written ++ [step.1.requestBytes]
    if step.1.requestBytes ≠ [] ∧ !w.wrote then
      { r with probe := p, live := false, written := written }
    else
      { r with
        probe := p.hear w.after
        findings := { r.findings with
          customProbe := r.findings.customProbe ++ [(step.1.id, step.1.classify p.raw)] }
        written := written }

/-- Before the first query: a known state, and ASB off. -/
def begun (t : Transcript) : Run F where
  probe := ((({} : CapabilityProbe).beginPhase .escpos).hear t.reset.heard)
  live := t.reset.wrote
  written := [[0x1B, 0x40] ++ asbDisable]

def run (o : ProbeOptions F) (t : Transcript) : CapabilityFindings F :=
  let r := o.customSteps.zipIdx.foldl (askCustom t) (Query.all.foldl (ask o t) (begun t))
  if r.live then
    { r.findings with
      completion := completionFrom r.findings
      unclassified := r.probe.unclassified }
  else r.findings

end PrinterDriver.Core.Probe
