import PrinterDriver.Agent.Http
import PrinterDriver.Core.Journal
import Mathlib.Logic.Function.Basic

/-! # The CloudPRNT server

The job repository of `cloudprnt.cpp` and the requests that read and change it. A printer polls its
route, downloads the job at the head of the route's queue and confirms it; an application submits.
A request holds the server's lock from the lookup of the route to its answer, so that a run is a
sequence of requests.

The body of a poll is taken as the JSON reader leaves it: its error, or the members the poll looks
at. Random bits of a token are an argument of the submission. The counter in a token is a number
without a width: the 64 bits of the source do not overflow in any run that ends. -/

namespace PrinterDriver.Agent.CloudPrnt

open PrinterDriver.Core.Types PrinterDriver.Agent.Http
open PrinterDriver.Core.Journal (decimal)

def kCloudPrntMethod : Bytes := str "CloudPRNT"

def kCloudPrntDefaultMediaType : Bytes := str "application/vnd.star.line"

def kEventLog : ℕ := 16

def kConditionLog : ℕ := 8

/-! ### Characters -/

def isSpace (c : UInt8) : Bool := c = 32 || (9 ≤ c && c ≤ 13)

def isDigit (c : UInt8) : Bool := 48 ≤ c && c ≤ 57

def isUpper (c : UInt8) : Bool := 65 ≤ c && c ≤ 90

def isLower (c : UInt8) : Bool := 97 ≤ c && c ≤ 122

def toLower (c : UInt8) : UInt8 := if isUpper c then c + 32 else c

def lowercased (text : Bytes) : Bytes := text.map toLower

/-- The letters and digits of a MAC, in lower case. -/
def normaliseMac (text : Bytes) : Bytes :=
  lowercased (text.filter fun c => isDigit c || isUpper c || isLower c)

/-- A media type in lower case, without its parameters. -/
def normaliseMedia (text : Bytes) : Bytes :=
  (((lowercased text).takeWhile (· ≠ 59)).dropWhile isSpace).rdropWhile isSpace

/-! ### The documented status table -/

/-- A row of the table; `event` is present where a device event names the condition. -/
structure CodeRow where
  code : ℕ
  meaning : Bytes
  outcome : JobOutcome
  reason : FailureReason
  event : Option DeviceEvent

def kCodes : List CodeRow :=
  [⟨200, str "OK/success", .done, .none, none⟩,
    ⟨201, str "output taken", .unknown, .unknown, none⟩,
    ⟨211, str "paper low", .unknown, .unknown, some .paperNearEnd⟩,
    ⟨220, str "printing", .unknown, .unknown, none⟩,
    ⟨221, str "output present", .unknown, .unknown, none⟩,
    ⟨230, str "cleaning", .unknown, .unknown, none⟩,
    ⟨231, str "maintenance", .unknown, .unknown, none⟩,
    ⟨410, str "paper out", .failed, .preflightPaperOut, some .paperOut⟩,
    ⟨411, str "jam", .failed, .preflightHardwareError, some .recoverableError⟩,
    ⟨412, str "roll position", .failed, .preflightHardwareError, some .recoverableError⟩,
    ⟨420, str "cover open", .failed, .preflightCoverOpen, some .coverOpen⟩,
    ⟨510, str "incompatible media", .failed, .unsupported, none⟩,
    ⟨511, str "decode failure", .failed, .unsupported, none⟩,
    ⟨512, str "unsupported media version", .failed, .unsupported, none⟩,
    ⟨520, str "job timeout", .failed, .timeoutAwaitingCompletion, none⟩,
    ⟨521, str "job too large", .failed, .unsupported, none⟩,
    ⟨1000, str "server settings JSON error", .failed, .unsupported, none⟩,
    ⟨1001, str "server settings JSON error", .failed, .unsupported, none⟩]

def findCode (code : ℕ) : Option CodeRow := kCodes.find? fun row => row.code = code

/-- What a code means for a job. -/
structure CloudPrntDisposition where
  outcome : JobOutcome := .unknown
  reason : FailureReason := .unknown
  meaning : Bytes := []
  documented : Bool := false
  deriving DecidableEq

def cloudPrntDisposition (code : ℕ) : CloudPrntDisposition :=
  match findCode code with
  | some row => ⟨row.outcome, row.reason, row.meaning, true⟩
  | none =>
    if 400 ≤ code ∧ code ≤ 599 then ⟨.failed, .unknown, str "undocumented failure code", false⟩
    else ⟨.unknown, .unknown, str "undocumented status code", false⟩

/-- The same table read as a condition of the device. -/
def cloudPrntDeviceEvent (code : ℕ) : Option DeviceEvent := (findCode code).bind CodeRow.event

def cloudPrntCodeMeaning (code : ℕ) : Bytes := ((findCode code).map CodeRow.meaning).getD []

def healthy (code : ℕ) : Bool := code = 200 || code = 201 || code = 220 || code = 221

/-- The next digit of a status code, which is at most 100000. -/
def statusDigit (value : ℕ) (c : UInt8) : Option ℕ :=
  let value := value * 10 + (c.toNat - 48)
  if 100000 < value then none else some value

/-- The number a status text begins with. -/
def cloudPrntStatusCode (text : Bytes) : Option ℕ :=
  let digits := (text.dropWhile isSpace).takeWhile isDigit
  if digits = [] then none else digits.foldlM statusDigit 0

example : cloudPrntStatusCode (percentDecode (str " 200%20OK")) = some 200 := by decide

/-! ### The repository -/

/-- One printer in the configuration. -/
structure CloudPrntSpec where
  id : Bytes
  mac : Bytes := []
  mediaTypes : List Bytes := []
  maxPending : ℕ := 32
  maxHistory : ℕ := 256

structure Job where
  token : Bytes
  mediaTypes : List Bytes
  bytes : Bytes
  byteCount : ℕ
  deliveries : UInt32 := 0
  confirmed : Bool := false
  code : ℕ := 0
  detail : Bytes := []
  result : JobResult
  evidence : JobEvidence
  deriving DecidableEq

/-- One route. The event log holds the events, which the source keeps by their names. -/
structure Printer where
  spec : CloudPrntSpec
  mac : Bytes
  macPinned : Bool
  identityRefusals : UInt64 := 0
  polled : Bool := false
  polls : UInt64 := 0
  uniqueId : Bytes := []
  asb : Bytes := []
  statusText : Bytes := []
  statusCode : ℕ := 0
  printingInProgress : Bool := false
  heldToken : Bytes := []
  fault : Option DeviceEvent := none
  announced : Bool := false
  events : List DeviceEvent := []
  conditions : List Bytes := []
  pending : List Bytes := []
  history : List Bytes := []
  jobs : Bytes → Option Job := fun _ => none

/-- The routes by their ids, and the counter of the tokens. -/
structure CloudPrntServer where
  find : Bytes → Option Printer := fun _ => none
  sequence : ℕ := 0

def CloudPrntServer.set (s : CloudPrntServer) (id : Bytes) (p : Printer) : CloudPrntServer :=
  { s with find := Function.update s.find id (some p) }

/-- A token is drawn. -/
def CloudPrntServer.draw (s : CloudPrntServer) : CloudPrntServer :=
  { s with sequence := s.sequence + 1 }

/-- What a printer is answered, as data: a refusal, the answer to a poll, a download, or the answer
to a confirmation. -/
inductive HttpResponse where
  | fail (status : ℕ) (message detail : Bytes)
  | offer (mediaTypes : List Bytes) (jobToken : Option Bytes)
  | document (contentType body : Bytes)
  | confirmation (token : Bytes) (retry : Option Bytes) (idempotent : Bool) (code : ℕ)
      (outcome : JobOutcome) (detail : Option Bytes)
  deriving DecidableEq

def unknownJob : HttpResponse := .fail 404 (str "unknown job") []

/-! ### Registry -/

/-- The route of a printer in the configuration. -/
def CloudPrntSpec.route (spec : CloudPrntSpec) : Printer where
  spec := { spec with
    mediaTypes := if spec.mediaTypes = [] then [kCloudPrntDefaultMediaType] else spec.mediaTypes
    maxPending := if spec.maxPending = 0 then 1 else spec.maxPending }
  mac := normaliseMac spec.mac
  macPinned := normaliseMac spec.mac ≠ []

def CloudPrntServer.addPrinter (s : CloudPrntServer) (spec : CloudPrntSpec) :
    Except Bytes CloudPrntServer :=
  if spec.id = [] then .error (str "a cloudprnt printer needs an id")
  else if (s.find spec.id).isSome then
    .error (str "cloudprnt printer id already owned: " ++ spec.id)
  else .ok (s.set spec.id spec.route)

/-- Whether a request speaks for the printer of the route; a poll may bind the route to it. -/
def Printer.identityMatches (p : Printer) (mac : Bytes) (adopt : Bool) : Bool × Printer :=
  if mac = [] then
    if p.macPinned && adopt then (false, { p with identityRefusals := p.identityRefusals + 1 })
    else (true, p)
  else if p.mac = [] then
    if adopt then (true, { p with mac := mac }) else (true, p)
  else if p.mac ≠ mac then (false, { p with identityRefusals := p.identityRefusals + 1 })
  else (true, p)

/-- Sixteen hexadecimal digits, the most significant first. -/
def hexDigits (bits : UInt64) : Bytes :=
  (List.range 16).map fun i =>
    let d := (bits >>> UInt64.ofNat (60 - 4 * i) &&& 0xF).toUInt8
    if d < 10 then 48 + d else 87 + d

def nextToken (bits : UInt64) (sequence : ℕ) : Bytes :=
  str "cp-" ++ hexDigits bits ++ str "-" ++ decimal sequence

/-- A bounded log, most recent last. -/
def appendBounded {α : Type} (log : List α) (entry : α) (limit : ℕ) : List α :=
  (log ++ [entry]).drop (log.length + 1 - limit)

/-- The event that clears a fault. -/
def recovery : DeviceEvent → DeviceEvent
  | .paperOut | .paperNearEnd => .paperOk
  | .coverOpen => .coverClosed
  | _ => .online

/-- What a code changes about the fault, and the event it is published with. -/
def faultAfter (fault : Option DeviceEvent) (code : ℕ) : List DeviceEvent × Option DeviceEvent :=
  match cloudPrntDeviceEvent code, fault with
  | some mapped, _ => if fault = some mapped then ([], fault) else ([mapped], some mapped)
  | none, some f => if healthy code then ([recovery f], none) else ([], fault)
  | none, none => ([], none)

/-- The conditions that no device event names, recorded when they change. -/
def conditionsAfter (p : Printer) (code : ℕ) : List Bytes :=
  if code ≠ 0 ∧ code ≠ 200 ∧ code ≠ p.statusCode ∧ cloudPrntDeviceEvent code = none then
    let meaning := cloudPrntCodeMeaning code
    appendBounded p.conditions
      (decimal code ++ str " " ++
        if meaning ≠ [] then meaning else str "not in the documented table") kConditionLog
  else p.conditions

/-- The events a code publishes, and the route after it. -/
def Printer.observe (p : Printer) (code : ℕ) : List DeviceEvent × Printer :=
  let events := (if p.announced then [] else [.online]) ++ (faultAfter p.fault code).1
  (events, { p with
    announced := true
    fault := (faultAfter p.fault code).2
    events := events.foldl (fun log e => appendBounded log e kEventLog) p.events
    conditions := conditionsAfter p code })

/-! ### Application side -/

/-- The advertised types among the requested ones; an unadvertised type is an error. -/
def advertised (spec : CloudPrntSpec) : List Bytes → Except Bytes (List Bytes)
  | [] => .ok []
  | requested :: rest =>
    if normaliseMedia requested = [] then advertised spec rest
    else match spec.mediaTypes.find? fun t => normaliseMedia t = normaliseMedia requested with
      | none => .error (str "media type is not advertised by " ++ spec.id ++ str ": " ++ requested)
      | some known => (advertised spec rest).map (known :: ·)

/-- A job as it is queued. -/
def Job.queued (token : Bytes) (mediaTypes : List Bytes) (bytes : Bytes) : Job where
  token := token
  mediaTypes := mediaTypes
  bytes := bytes
  byteCount := bytes.length
  result := JobResult.unknown.attested ⟨.eTransportOnly, .transportOnly, str "none"⟩
  evidence := ⟨.eTransportOnly, .transportOnly, str "none"⟩

def Printer.setJob (p : Printer) (token : Bytes) (job : Job) : Printer :=
  { p with jobs := Function.update p.jobs token (some job) }

/-- The job goes to the end of the queue, and into the table unless its token is there. -/
def Printer.enqueue (p : Printer) (job : Job) : Printer :=
  { p with
    pending := p.pending ++ [job.token]
    jobs := if (p.jobs job.token).isSome then p.jobs
      else Function.update p.jobs job.token (some job) }

/-- The token of the new job, and the server with it. -/
def CloudPrntServer.submit (s : CloudPrntServer) (printerId : Bytes) (mediaTypes : List Bytes)
    (bytes : Bytes) (bits : UInt64) : Except Bytes (Bytes × CloudPrntServer) :=
  match s.find printerId with
  | none => .error (str "unknown cloudprnt printer: " ++ printerId)
  | some p =>
    if bytes = [] then .error (str "a cloudprnt job needs bytes")
    else if p.spec.maxPending ≤ p.pending.length then
      .error (str "cloudprnt queue is full for " ++ printerId ++
        str "; the printer is not collecting its jobs")
    else match advertised p.spec mediaTypes with
      | .error e => .error e
      | .ok types =>
        let types := if types = [] then [p.spec.mediaTypes.headD []] else types
        let token := nextToken bits (s.sequence + 1)
        .ok (token, s.draw.set printerId (p.enqueue (.queued token types bytes)))

/-! ### Printer side -/

/-- What the poll reads of its body; a member that is absent or no string is empty. -/
structure PollDocument where
  printerMAC : Bytes := []
  uniqueID : Bytes := []
  statusCode : Bytes := []
  status : Bytes := []
  jobToken : Bytes := []
  printingInProgress : Bool := false

/-- What a poll says about the printer is remembered. -/
def Printer.hear (p : Printer) (body : PollDocument) : List DeviceEvent × Printer :=
  let statusText := percentDecode body.statusCode
  let code := cloudPrntStatusCode statusText
  let heard := p.observe (code.getD 0)
  (heard.1, { heard.2 with
    polled := true
    polls := p.polls + 1
    uniqueId := if body.uniqueID ≠ [] then body.uniqueID else p.uniqueId
    asb := body.status
    statusText := statusText
    statusCode := code.getD p.statusCode
    heldToken := body.jobToken
    printingInProgress := body.printingInProgress })

/-- Tokens at the head of the queue that are not in the table are dropped. -/
def Printer.skip (p : Printer) : Printer :=
  { p with pending := p.pending.dropWhile fun t => (p.jobs t).isNone }

/-- The job at the head of the queue. -/
def Printer.offered (p : Printer) : Option Job := p.pending.head?.bind p.jobs

def Printer.offer (p : Printer) : HttpResponse :=
  match p.offered with
  | some job => .offer job.mediaTypes (some job.token)
  | none => .offer p.spec.mediaTypes none

def CloudPrntServer.poll (s : CloudPrntServer) (printerId : Bytes)
    (body : Except Bytes PollDocument) : (HttpResponse × List DeviceEvent) × CloudPrntServer :=
  match body with
  | .error e => ((.fail 400 (str "malformed CloudPRNT poll") e, []), s)
  | .ok body =>
    match s.find printerId with
    | none => ((unknownJob, []), s)
    | some p =>
      match p.identityMatches (normaliseMac body.printerMAC) true with
      | (false, p) => ((.fail 404 (str "not found")
          (str "cloudprnt route is bound to another printer"), []), s.set printerId p)
      | (true, p) =>
        let heard := p.hear body
        let p := heard.2.skip
        ((p.offer, heard.1), s.set printerId p)

/-- The token a request is about: the one it names, or the head of the queue. -/
def Printer.wanted (p : Printer) (token : Bytes) : Option Bytes :=
  if token = [] then p.pending.head? else some token

/-- The job a request is about, with the token it is found under. -/
def Printer.locate (p : Printer) (token : Bytes) : Option (Bytes × Job) :=
  (p.wanted token).bind fun t => (p.jobs t).map (t, ·)

/-- The type the bytes are served as, if the job can be served so. -/
def Job.negotiate (job : Job) (type : Bytes) : Option Bytes :=
  if type = [] ∨ type = str "*/*" then some (job.mediaTypes.headD [])
  else job.mediaTypes.find? fun candidate => normaliseMedia candidate = type

/-- The download: it is counted and nothing is consumed. -/
def Printer.fetch (p : Printer) (token type : Bytes) : HttpResponse × Printer :=
  match p.locate token with
  | none => (unknownJob, p)
  | some (key, job) =>
    if job.confirmed then (unknownJob, p)
    else match job.negotiate (normaliseMedia type) with
      | none => (.fail 415 (str "unsupported media type") type, p)
      | some negotiated =>
        (.document negotiated job.bytes,
          p.setJob key { job with deliveries := job.deliveries + 1 })

def CloudPrntServer.fetchJob (s : CloudPrntServer) (printerId query : Bytes) :
    HttpResponse × CloudPrntServer :=
  match s.find printerId with
  | none => (unknownJob, s)
  | some p =>
    match p.identityMatches (normaliseMac (queryValue query (str "mac"))) false with
    | (false, p) => (unknownJob, s.set printerId p)
    | (true, p) =>
      let served := p.fetch (queryValue query (str "token")) (queryValue query (str "type"))
      (served.1, s.set printerId served.2)

/-- What a confirmation says about the job; `code` is none where no status code was read. -/
def dispositionOf (code : Option ℕ) : CloudPrntDisposition :=
  match code with
  | some code => cloudPrntDisposition code
  | none => ⟨.unknown, .unknown, str "confirmation carried no status code", false⟩

/-- The evidence behind a confirmation: without a code it is a delete and no evidence. -/
def evidenceOf (code : Option ℕ) : JobEvidence :=
  if code.isSome then ⟨.aJobLevelConfirmation, .physicalPrinter, kCloudPrntMethod⟩
  else ⟨.eTransportOnly, .transportOnly, kCloudPrntMethod⟩

def resultOf (code : Option ℕ) : JobResult :=
  match (dispositionOf code).outcome with
  | .done => .done .printConfirmed
  | .failed => .failed (dispositionOf code).reason
  | .unknown => .unknown

/-- The job once it is confirmed; its bytes are dropped. -/
def Job.settle (job : Job) (code : Option ℕ) : Job :=
  { job with
    confirmed := true
    code := code.getD 0
    detail := (dispositionOf code).meaning
    evidence := evidenceOf code
    result := (resultOf code).attested (evidenceOf code)
    bytes := [] }

/-- The oldest confirmed jobs are forgotten while there are too many. -/
def evict (maxHistory : ℕ) : List Bytes → (Bytes → Option Job) →
    List Bytes × (Bytes → Option Job)
  | [], jobs => ([], jobs)
  | evicted :: rest, jobs =>
    if maxHistory < (evicted :: rest).length then
      evict maxHistory rest (Function.update jobs evicted none)
    else (evicted :: rest, jobs)

/-- The queue and the history once a job is confirmed. -/
def Printer.retire (p : Printer) (token : Bytes) : Printer :=
  let kept := evict p.spec.maxHistory (p.history ++ [token]) p.jobs
  { p with pending := p.pending.erase token, history := kept.1, jobs := kept.2 }

/-- The confirmation. The answer is made of the job's record, which the eviction spares as long as
the history holds at least one job. -/
def Printer.confirm (p : Printer) (token : Bytes) (retry : Option Bytes) (code : Option ℕ) :
    HttpResponse × Printer :=
  match p.locate token with
  | none => (unknownJob, p)
  | some (key, job) =>
    if job.confirmed then
      (.confirmation job.token retry true job.code job.result.outcome none, p)
    else
      let job := job.settle code
      (.confirmation job.token retry false job.code job.result.outcome (some job.detail),
        (p.setJob key job).retire job.token)

/-- The status code of a confirmation, where one is given and can be read. -/
def confirmedCode (query : Bytes) : Option ℕ :=
  (queryValue? query (str "code")).bind cloudPrntStatusCode

def CloudPrntServer.confirm (s : CloudPrntServer) (printerId query : Bytes) :
    HttpResponse × CloudPrntServer :=
  match s.find printerId with
  | none => (unknownJob, s)
  | some p =>
    match p.identityMatches (normaliseMac (queryValue query (str "mac"))) false with
    | (false, p) => (unknownJob, s.set printerId p)
    | (true, p) =>
      let confirmed := p.confirm (queryValue query (str "token"))
        (queryValue? query (str "retry")) (confirmedCode query)
      (confirmed.1, s.set printerId confirmed.2)

/-! ### Runs of requests -/

/-- What the server is asked. -/
inductive Request where
  | addPrinter (spec : CloudPrntSpec)
  | submit (printerId : Bytes) (mediaTypes : List Bytes) (bytes : Bytes) (bits : UInt64)
  | poll (printerId : Bytes) (body : Except Bytes PollDocument)
  | fetchJob (printerId query : Bytes)
  | confirm (printerId query : Bytes)

/-- The answer of a request that a printer sends. -/
def CloudPrntServer.answer (s : CloudPrntServer) : Request → Option HttpResponse
  | .addPrinter _ | .submit _ _ _ _ => none
  | .poll id body => some (s.poll id body).1.1
  | .fetchJob id query => some (s.fetchJob id query).1
  | .confirm id query => some (s.confirm id query).1

/-- The server after a request. -/
def CloudPrntServer.next (s : CloudPrntServer) : Request → CloudPrntServer
  | .addPrinter spec =>
    match s.addPrinter spec with
    | .ok s' => s'
    | .error _ => s
  | .submit id mediaTypes bytes bits =>
    match s.submit id mediaTypes bytes bits with
    | .ok (_, s') => s'
    | .error _ => s
  | .poll id body => (s.poll id body).2
  | .fetchJob id query => (s.fetchJob id query).2
  | .confirm id query => (s.confirm id query).2

end PrinterDriver.Agent.CloudPrnt
