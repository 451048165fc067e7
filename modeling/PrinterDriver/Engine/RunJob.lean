import PrinterDriver.Core.Encoder
import PrinterDriver.Engine.Ops

/-! # The job engines

`runJob` and `runStarJob` as programs of a worker, in the order of the source: preflight, lease,
payload, print fence, confirmation, cut, cutter status. Each stage gives the confidence reached,
or `none` when it has terminated the job. `refreshStatus` is the other program that asks for
real-time status. -/

namespace PrinterDriver.Engine.RunJob

open PrinterDriver.Lib.Programs PrinterDriver.Core.Types PrinterDriver.Core.Profile
  PrinterDriver.Core.EscposParser PrinterDriver.Core PrinterDriver.Core.Encoder
  PrinterDriver.Engine.Io PrinterDriver.Engine.Ops

open Prog

inductive CutSetting where
  | profile | partialCut | full | none
  deriving DecidableEq, Repr

inductive PreflightMode where
  | strict | skip
  deriving DecidableEq, Repr

structure JobOptions where
  key : Bytes := []
  cut : CutSetting := .profile
  openDrawer : Bool := false
  preflight : PreflightMode := .strict
  topFeedDots : UInt16 := 0
  bottomFeedDots : UInt16 := 0
  printVerificationId : Bool := true
  deriving DecidableEq, Repr

inductive Payload where
  | raster (payload : RasterPayload)
  | document (bytes : Bytes) (codePage : CodePage)
  | raw (bytes : Bytes)
  deriving DecidableEq, Repr

def effectiveCut (setting : CutSetting) (profile : CapabilityProfile) : CutVariant :=
  match setting with
  | .profile => profile.cut
  | .partialCut => .partialCut
  | .full => .full
  | .none => .none

/-- What `runJob` reads: its arguments, and of the runtime the profile snapshot, the paper width,
the codecs and the registered completion methods. -/
structure JobRun where
  id : Bytes
  key : Bytes
  payload : Payload
  options : JobOptions
  attempt : ℕ
  banner : Bool
  profile : CapabilityProfile
  widthDots : ℕ
  codecs : Codecs
  completionMethod : Bytes → Option CompletionMethod

def kReprintBannerLine : Bytes := str "*** REPRINT / POSSIBLE DUPLICATE ***"
def kReprintAttemptPrefix : Bytes := str "PRINT ATTEMPT: "
def kOrderPrefix : Bytes := str "ORDER: "
def kVerificationPrefix : Bytes := str "V:"

def noEvidence : JobEvidence := ⟨.eTransportOnly, .transportOnly, str "none"⟩

def statusEvidence : JobEvidence := ⟨.cDeviceStatusAround, .physicalPrinter, str "DLE EOT"⟩

def transportEvidence : JobEvidence := evidenceFor .none

namespace JobRun

variable (j : JobRun)

def ceiling : ConfidenceLevel := j.profile.maxConfidence

def reached (confidence : ConfidenceLevel) : ConfidenceLevel := confidence.clampTo j.ceiling

def cut : CutVariant := effectiveCut j.options.cut j.profile

/-- The registered method of a vendor-idle profile. -/
def custom : Option CompletionMethod :=
  if j.profile.completion = .vendorIdle ∧ j.profile.completionVendorId ≠ [] then
    j.completionMethod j.profile.completionVendorId
  else none

def successEvidence : JobEvidence :=
  match j.custom with
  | some m => ⟨m.grade, m.authority, m.methodName⟩
  | none => j.profile.evidence

def cutMode : CutMode := if j.cut = .full then .full else .partialCut

/-! ### The bytes of a job -/

def bannerLines (e : EscposEncoder) : EscposEncoder :=
  let e := (((e.align .center).bold true).line j.codecs kReprintBannerLine).bold false
  let e := if j.key = [] then e else e.line j.codecs (str "ORDER: " ++ j.key)
  ((e.line j.codecs (kReprintAttemptPrefix ++ str (toString j.attempt))).align .left).feed

def content (e : EscposEncoder) : Option EscposEncoder :=
  match j.payload with
  | .raster r =>
    if 0 < r.width ∧ 0 < r.height ∧ r.gray ≠ [] then e.rasterGrayscale j.codecs r j.widthDots
    else some e
  | .document bytes _ | .raw bytes => some (e.raw bytes)

/-- The printed half of the verification identifier. -/
def trailer (printToken : Bytes) (e : EscposEncoder) : Option EscposEncoder :=
  if j.options.printVerificationId ∧ printToken ≠ [] then
    let line := (if j.key = [] then [] else kOrderPrefix ++ j.key ++ str "  ") ++
      kVerificationPrefix ++ printToken
    (((e.feed.align .center).line j.codecs line).qr line).map fun e => e.align .left
  else some e

/-- The payload bytes; `none` is an `EncodingError`. -/
def buildPayload (printToken : Bytes) : Option Bytes := do
  let codePage := match j.payload with
    | .document _ codePage => codePage
    | _ => j.profile.codePage
  let e := ({} : EscposEncoder).initPrinter.selectCodePage codePage
  let e := if 0 < j.options.topFeedDots then e.feedDots j.options.topFeedDots else e
  let e := if j.banner then j.bannerLines e else e
  let e ← j.content e
  let e ← j.trailer printToken e
  let e := if j.options.openDrawer then e.kickCashDrawer else e
  return (e.feedLines j.profile.finalFeedLines).buffer

/-- The cut with the fence that rides behind it. -/
def buildCut (markerToken : Bytes) : Option Bytes := do
  let e := ({} : EscposEncoder).feedDots
    (max j.profile.media.headToCutterFeedDots j.options.bottomFeedDots)
  let e := (e.useCutWithFeed (0 < j.profile.quirks.extraFeedBeforeCut)
    j.profile.quirks.extraFeedBeforeCut).cut j.cutMode
  match j.profile.completion with
  | .gsParenH => (e.processId markerToken).map EscposEncoder.buffer
  | .gsR1 => return (e.raw gsPaperStatus).buffer
  | .vendorIdle | .eposJobId | .starCheckedBlock | .starEtb | .starEscGsEtx | .none =>
    return e.buffer

def starBannerLines (e : StarEncoder) : StarEncoder :=
  let e := (((e.align .center).bold true).line kReprintBannerLine).bold false
  let e := if j.key = [] then e else e.line (str "ORDER: " ++ j.key)
  ((e.line (kReprintAttemptPrefix ++ str (toString j.attempt))).align .left).feed

def starContent (e : StarEncoder) : Option StarEncoder :=
  match j.payload with
  | .raster r =>
    if !j.profile.star.rasterLineMode then some e
    else if 0 < r.width ∧ 0 < r.height ∧ r.gray ≠ [] then e.rasterGrayscale j.codecs r j.widthDots
    else some e
  | .document bytes _ =>
    some (e.raw (j.codecs.transcodeFromEscPos bytes j.profile.star.rasterLineMode).1)
  | .raw bytes => some (e.raw bytes)

/-- The Star payload; what it drops is named to a local that nothing reads. -/
def buildStarPayload : Option Bytes := do
  let e := ({} : StarEncoder).initPrinter
  let e := if 0 < j.options.topFeedDots then e.feedDots j.options.topFeedDots else e
  let e := if j.banner then j.starBannerLines e else e
  let e ← j.starContent e
  return (e.feedLines j.profile.finalFeedLines).buffer

def starCut : Bytes := (({} : StarEncoder).cut j.cutMode).buffer

/-! ### Exits -/

/-- The job is over: nothing of it was printed, or a fault was read. -/
def failKnown (reason : FailureReason) (confidence : ConfidenceLevel) (evidence : JobEvidence) :
    Prog Worker (Option ConfidenceLevel) := do
  terminate j.id .failedKnown ((JobResult.failed reason (j.reached confidence)).attested evidence)
  return none

/-- The job is over and its fate is not known. -/
def failUnknown (reason : FailureReason) (confidence : ConfidenceLevel) :
    Prog Worker (Option ConfidenceLevel) := do
  terminate j.id .unknown
    (({ outcome := .unknown, confidence := j.reached confidence, reason := reason } :
      JobResult).attested transportEvidence)
  return none

def succeed (confidence : ConfidenceLevel) (evidence : JobEvidence) :
    Prog Worker (Option ConfidenceLevel) := do
  terminate j.id .doneSoftware ((JobResult.done confidence).attested evidence)
  return none

/-- The reason of an unanswered fence. -/
def waitReason (ack : WaitOutcome) : FailureReason :=
  if ack = .timeout then .timeoutAwaitingCompletion else .unknown

/-! ### Preflight -/

def kPreflightKinds : List DleEotKind := [.printerStatus, .offlineCause, .errorCause, .paperSensor]

/-- Later answers overwrite earlier ones, field by field. -/
def mergeFlags (merged flags : StatusFlags) : StatusFlags :=
  { merged with
    online := flags.online <|> merged.online
    coverOpen := flags.coverOpen <|> merged.coverOpen
    paperOut := flags.paperOut <|> merged.paperOut
    paperNearEnd := flags.paperNearEnd <|> merged.paperNearEnd
    cutterError := flags.cutterError <|> merged.cutterError
    unrecoverableError := flags.unrecoverableError <|> merged.unrecoverableError }

def mergeAnswers (answers : List ParsedEvent) : StatusFlags :=
  answers.foldl (fun merged answer => mergeFlags merged answer.flags) {}

def refusal (merged : StatusFlags) : Option FailureReason :=
  if merged.coverOpen.getD false then some .preflightCoverOpen
  else if merged.paperOut.getD false then some .preflightPaperOut
  else if merged.unrecoverableError.getD false || merged.cutterError.getD false ||
      merged.online = some false then some .preflightHardwareError
  else none

def preflight (confidence : ConfidenceLevel) : Prog Worker (Option ConfidenceLevel) :=
  if j.options.preflight = .strict ∧ j.profile.status.dleEot then do
    perform (E := Worker) (.io (.expectRealtime .preflight kPreflightKinds))
    let sent ← sendPaced j.profile .preflight (kPreflightKinds.flatMap dleEot)
    if !sent.ok then j.failKnown .transportUnreachable confidence noEvidence
    else
      let (outcome, answers) ← (perform (E := Worker) (.awaitRealtime .preflight 4) :
        Prog Worker (WaitOutcome × List ParsedEvent))
      if outcome = .linkDown then j.failKnown .transportUnreachable confidence noEvidence
      else
        perform (E := Worker) (.io .clearRealtime)
        match refusal (mergeAnswers answers) with
        | some reason => j.failKnown reason confidence statusEvidence
        | none =>
          if answers = [] then return some confidence
          else
            let confidence := confidence.raise .printerHealthy
            advance j.id .preflightOk (j.reached confidence) .none
            return some confidence
  else return some confidence

/-! ### The ESC/POS engine -/

/-- Tokens for a mechanism that echoes one. -/
def leaseTokens : Prog Worker (Option MarkerPair) :=
  if j.profile.completion ≠ .gsParenH ∧ j.custom.isNone then return none
  else do
    let pair : MarkerPair ← perform (E := Worker) .acquireTokens
    perform (E := Worker) (.setTokens j.id pair)
    perform (E := Worker) (.recordTokens j.id pair)
    perform (E := Worker) (.registerTokens j.id pair)
    return some pair

def releaseTokens (lease : Option MarkerPair) : Prog Worker Unit :=
  match lease with
  | some pair => perform (E := Worker) (.releaseTokens pair)
  | none => return ()

/-- `SendStarted` is durable before the first byte; a payload refused whole printed nothing. -/
def sendPayload (wire : Bytes) (confidence : ConfidenceLevel) :
    Prog Worker (Option ConfidenceLevel) := do
  advance j.id .sendStarted (j.reached confidence) .none
  let sent ← sendPaced j.profile .payload wire
  if sent.ok then return some confidence
  else if sent.bytesWritten = 0 then j.failKnown .transportUnreachable confidence noEvidence
  else j.failUnknown .unknown confidence

/-- The bytes behind the payload. Without a completion mechanism that is the cut itself. -/
def armPrintFence (printToken : Bytes) : Prog Worker (Part × Bytes) :=
  match j.custom with
  | some m => do
    perform (E := Worker) (.io (.armCustomFence .printFence))
    return (.printFence, m.fenceBytes printToken)
  | none =>
    match j.profile.completion with
    | .gsParenH =>
      match processIdMarker printToken with
      | some marker => return (.printFence, marker)
      | none => uncaught
    | .gsR1 => do
      perform (E := Worker) (.io (.expectQueued .printFence))
      return (.printFence, gsPaperStatus)
    | .vendorIdle | .eposJobId | .starCheckedBlock | .starEtb | .starEscGsEtx | .none =>
      if j.cut = .none then return (.cut, [])
      else
        match j.buildCut printToken with
        | some bytes => return (.cut, bytes)
        | none => uncaught

/-- Nothing to write is no write at all. -/
def sendFence (profile : CapabilityProfile) (part : Part) (fence : Bytes) :
    Prog Worker TransportResult :=
  if fence = [] then return ⟨true, 0⟩ else sendPaced profile part fence

def sendPrintFence (printToken : Bytes) (confidence : ConfidenceLevel) :
    Prog Worker (Option ConfidenceLevel) := do
  let (part, fence) ← j.armPrintFence printToken
  let sent ← sendFence j.profile part fence
  if !sent.ok then j.failUnknown .unknown confidence
  else
    advance j.id .bytesSent (j.reached confidence) .none
    if j.profile.completion = .none then
      j.succeed (j.reached .transportAccepted) j.profile.evidence
    else return some confidence

/-- The wait that a fence of this job ends in. -/
def fenceWait (token : Bytes) : Wait :=
  if j.custom.isSome then .customToken token
  else if j.profile.completion = .gsParenH then .token token
  else .queued

def awaitPrintFence (printToken : Bytes) (confidence : ConfidenceLevel) :
    Prog Worker (Option ConfidenceLevel) := do
  let ack : WaitOutcome ← perform (E := Worker) (.await .printFence (j.fenceWait printToken))
  if ack ≠ .signalled then j.failUnknown (waitReason ack) confidence
  else
    let confidence := confidence.raise .printConfirmed
    advance j.id .printConfirmed (j.reached confidence) .none
    if j.cut = .none then j.succeed (j.reached confidence) j.successEvidence
    else return some confidence

def expectCutFence : Prog Worker Unit :=
  if j.profile.completion = .gsR1 then perform (E := Worker) (.io (.expectQueued .cut))
  else return ()

/-- The cut, armed before it is written. -/
def armCut (cutToken : Bytes) : Prog Worker Bytes :=
  match j.buildCut cutToken with
  | none => uncaught
  | some wire =>
    match j.custom with
    | some m => do
      perform (E := Worker) (.io (.armCustomFence .cut))
      return wire ++ m.fenceBytes cutToken
    | none => do
      j.expectCutFence
      return wire

def sendCut (cutToken : Bytes) (confidence : ConfidenceLevel) :
    Prog Worker (Option ConfidenceLevel) := do
  let wire ← j.armCut cutToken
  let sent ← sendPaced j.profile .cut wire
  if !sent.ok then j.failUnknown .unknown confidence
  else
    let ack : WaitOutcome ← perform (E := Worker) (.await .cut (j.fenceWait cutToken))
    if ack ≠ .signalled then j.failUnknown (waitReason ack) confidence
    else
      let confidence := confidence.raise .cutProcessed
      advance j.id .cutCommandProcessed (j.reached confidence) .none
      if j.profile.completion ≠ .gsParenH then
        j.succeed (j.reached confidence) j.successEvidence
      else return some confidence

/-- No answer is read for a request that was not sent. -/
def readCutterStatus (sent : TransportResult) : Prog Worker (List ParsedEvent) :=
  if sent.ok then do
    let (_, answers) ← (perform (E := Worker) (.awaitRealtime .cutterStatus 1) :
      Prog Worker (WaitOutcome × List ParsedEvent))
    return answers
  else return []

/-- The cutter bit, read after the ordered fence. -/
def cutterStatus (confidence : ConfidenceLevel) : Prog Worker (Option ConfidenceLevel) := do
  perform (E := Worker) (.io .clearRealtime)
  perform (E := Worker) (.io (.expectRealtime .cutterStatus [.errorCause]))
  let sent ← sendPaced j.profile .cutterStatus (dleEot .errorCause)
  let answers ← readCutterStatus sent
  if answers.any fun answer => answer.flags.cutterError.getD false then
    j.failKnown .cutterFault confidence statusEvidence
  else
    let confidence := if answers = [] then confidence else confidence.raise .cutFaultFree
    j.succeed (j.reached confidence) j.profile.evidence

/-- A stage runs only when the one before it has not ended the job. -/
def next (stage : ConfidenceLevel → Prog Worker (Option ConfidenceLevel)) :
    Option ConfidenceLevel → Prog Worker (Option ConfidenceLevel)
  | some confidence => stage confidence
  | none => return none

/-- From the payload on, under the tokens of the lease. -/
def printStages (lease : Option MarkerPair) (confidence : ConfidenceLevel) :
    Prog Worker (Option ConfidenceLevel) :=
  let printToken := (lease.map MarkerPair.printToken).getD []
  let cutToken := (lease.map MarkerPair.cutToken).getD []
  match j.buildPayload printToken with
  | none => uncaught
  | some wire => do
    let c ← j.sendPayload wire confidence
    let c ← next (j.sendPrintFence printToken) c
    let c ← next (j.awaitPrintFence printToken) c
    let c ← next (j.sendCut cutToken) c
    next j.cutterStatus c

/-- The lease is held until the job is over. -/
def leased (confidence : ConfidenceLevel) : Prog Worker (Option ConfidenceLevel) := do
  let lease ← j.leaseTokens
  let c ← j.printStages lease confidence
  releaseTokens lease
  return c

def runEscposJob : Prog Worker (Option ConfidenceLevel) := do
  let connected : Bool ← perform (E := Worker) .ensureConnected
  if !connected then j.failKnown .transportUnreachable .transportAccepted noEvidence
  else
    perform (E := Worker) (.io .beginJobIo)
    perform (E := Worker) (.io (.setCustomMethod j.custom))
    let c ← j.preflight .transportAccepted
    next j.leased c

/-! ### The Star engine -/

/-- The counter has a known baseline before the first `ETB`. -/
def starPreamble (confidence : ConfidenceLevel) : Prog Worker (Option ConfidenceLevel) :=
  if j.profile.completion = .starEtb then do
    let sent ← sendPaced j.profile .preamble (Star.asbEnable ++ Star.clearEtbCounter)
    if !sent.ok then j.failKnown .transportUnreachable confidence noEvidence
    else
      perform (E := Worker) (.io .zeroStarCounter)
      return some confidence
  else return some confidence

def sendStarPayload (confidence : ConfidenceLevel) : Prog Worker (Option ConfidenceLevel) :=
  match j.buildStarPayload with
  | none => uncaught
  | some wire => j.sendPayload wire confidence

/-- The cut without a fence; what the transport says of it is not looked at. -/
def sendStarCut : Prog Worker Unit :=
  if j.cut = .none then return ()
  else do
    let _ ← sendPaced j.profile .cut j.starCut
    return ()

def starUnfenced (confidence : ConfidenceLevel) : Prog Worker (Option ConfidenceLevel) := do
  j.sendStarCut
  advance j.id .bytesSent (j.reached confidence) .none
  j.succeed (j.reached .transportAccepted) j.profile.evidence

def starPrintFence (confidence : ConfidenceLevel) : Prog Worker (Option ConfidenceLevel) := do
  let fence : Bytes ← perform (E := Worker) (.armStarFence .printFence j.profile.completion)
  let sent ← sendPaced j.profile .printFence fence
  if !sent.ok then j.failUnknown .unknown confidence
  else
    advance j.id .bytesSent (j.reached confidence) .none
    let ack : WaitOutcome ← perform (E := Worker) (.await .printFence .star)
    if ack ≠ .signalled then j.failUnknown (waitReason ack) confidence
    else
      let confidence := confidence.raise .printConfirmed
      advance j.id .printConfirmed (j.reached confidence) .none
      if j.cut = .none then j.succeed (j.reached confidence) j.profile.evidence
      else return some confidence

def starCutFence (confidence : ConfidenceLevel) : Prog Worker (Option ConfidenceLevel) := do
  let fence : Bytes ← perform (E := Worker) (.armStarFence .cut j.profile.completion)
  let sent ← sendPaced j.profile .cut (j.starCut ++ fence)
  if !sent.ok then j.failUnknown .unknown confidence
  else
    let ack : WaitOutcome ← perform (E := Worker) (.await .cut .star)
    if ack ≠ .signalled then j.failUnknown (waitReason ack) confidence
    else
      let confidence := confidence.raise .cutProcessed
      advance j.id .cutCommandProcessed (j.reached confidence) .none
      j.succeed (j.reached confidence) j.profile.evidence

def runStarJob : Prog Worker (Option ConfidenceLevel) := do
  let connected : Bool ← perform (E := Worker) .ensureConnected
  if !connected then j.failKnown .transportUnreachable .transportAccepted noEvidence
  else
    perform (E := Worker) (.io .beginJobIo)
    perform (E := Worker) (.io (.enterStarMode j.profile.star.asbBlockBytes))
    let c ← j.starPreamble .transportAccepted
    let c ← next j.sendStarPayload c
    if j.profile.completion = .none then next j.starUnfenced c
    else
      let c ← next j.starPrintFence c
      next j.starCutFence c

/-! ### The two together -/

/-- The job as one of the two engines runs it, or refused because neither speaks its fence. -/
def runStages : Prog Worker (Option ConfidenceLevel) :=
  if j.profile.drivableByEscposEngine || j.custom.isSome then j.runEscposJob
  else if j.profile.drivableByStarEngine then j.runStarJob
  else j.failKnown .unsupported .transportAccepted noEvidence

def runJob : Prog Worker Unit := do
  let _ ← j.runStages
  return ()

end JobRun

/-- The wait of a refresh whose requests were sent; its outcome is not looked at. -/
def awaitRefresh (sent : TransportResult) : Prog Worker Unit :=
  if sent.ok then do
    let _ ← (perform (E := Worker) (.awaitRealtime .refresh 4) :
      Prog Worker (WaitOutcome × List ParsedEvent))
    return ()
  else return ()

/-- The status refresh, which shares the real-time expectations with the jobs but does not begin
with `beginJobIo`. -/
def refreshStatus (profile : CapabilityProfile) : Prog Worker Unit := do
  let connected : Bool ← perform (E := Worker) .ensureConnected
  if connected then
    perform (E := Worker) (.io .dropRealtimeAnswers)
    perform (E := Worker) (.io (.expectRealtime .refresh JobRun.kPreflightKinds))
    let sent ← sendPaced profile .refresh (JobRun.kPreflightKinds.flatMap dleEot)
    awaitRefresh sent
    perform (E := Worker) (.io .clearRealtime)
  else return ()

end PrinterDriver.Engine.RunJob
