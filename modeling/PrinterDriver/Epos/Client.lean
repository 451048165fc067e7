import PrinterDriver.Epos.Replies
import PrinterDriver.Core.Journal

/-! # The ePOS client

One print of `epos.cpp`: the document is submitted in one request, and where the answer is not final
the result is retrieved under the job's id until it is, or until the poll budget is used up. A request
goes through the socket layer or through a transport the caller has set. -/

namespace PrinterDriver.Epos.Client

open PrinterDriver.Core.Types PrinterDriver.Epos.Xml PrinterDriver.Epos.Replies

open PrinterDriver.Core.Journal (decimal)

/-- Times are milliseconds. -/
structure ClientConfig where
  host : Bytes := []
  port : ℕ := 80
  path : Bytes := str "/cgi-bin/epos/service.cgi"
  deviceId : Bytes := str "local_printer"
  timeoutMs : ℕ := 60000
  spooler : Bool := false
  pollIntervalMs : ℕ := 500
  pollBudgetMs : ℕ := 60000

/-! ### Requests -/

def kMaxServiceTimeoutMs : ℕ := 300000

def isValidJobId (jobId : Bytes) : Bool :=
  jobId ≠ [] && jobId.length ≤ 30 && jobId.all fun c =>
    (48 ≤ c && c ≤ 57) || (97 ≤ c && c ≤ 122) || (65 ≤ c && c ≤ 90) || c = 95 || c = 45 || c = 46

def escapeXml (text : Bytes) : Bytes :=
  text.flatMap fun c =>
    if c = 38 then str "&amp;"
    else if c = 60 then str "&lt;"
    else if c = 62 then str "&gt;"
    else if c = 34 then str "&quot;"
    else if c = 39 then str "&apos;"
    else if c = 10 then str "&#10;"
    else [c]

/-- What both envelopes begin with. -/
def envelopeHead : Bytes :=
  str "<?xml version=\"1.0\" encoding=\"utf-8\"?>" ++ str "<s:Envelope xmlns:s=\"" ++
    kSoapNamespace ++ str "\"><s:Header><parameter xmlns=\"" ++ kEposNamespace ++ str "\">"

def buildPrintEnvelope (deviceId : Bytes) (timeoutMs : ℕ) (jobId document : Bytes) : Bytes :=
  envelopeHead ++
    (str "<devid>" ++ escapeXml deviceId ++ str "</devid>" ++
      str "<timeout>" ++ decimal (min timeoutMs kMaxServiceTimeoutMs) ++ str "</timeout>" ++
      (if jobId = [] then [] else str "<printjobid>" ++ escapeXml jobId ++ str "</printjobid>") ++
      str "</parameter></s:Header><s:Body><epos-print xmlns=\"" ++ kEposNamespace ++ str "\">" ++
      document ++ str "</epos-print></s:Body></s:Envelope>")

/-- The body is an empty element: a status poll carries nothing to print. -/
def buildPollEnvelope (jobId : Bytes) : Bytes :=
  envelopeHead ++
    (str "<printjobid>" ++ escapeXml jobId ++ str "</printjobid></parameter></s:Header>" ++
      str "<s:Body><epos-print xmlns=\"" ++ kEposNamespace ++
      str "\"/></s:Body></s:Envelope>")

/-! ### One post over a socket -/

structure HttpReply where
  ok : Bool := false
  error : Bytes := []
  status : ℤ := 0
  body : Bytes := []
  deriving DecidableEq, Repr

/-- What one `send` answers; only as much as is left can be written. -/
inductive SendAnswer where
  | wrote (n : ℕ)
  | wouldBlock
  | failed

/-- What one `recv` answers. -/
inductive RecvAnswer where
  | got (bytes : Bytes)
  | wouldBlock
  | closed
  | failed

/-- What the socket layer does in one post. Where the answers of `send` or `recv` end, the wait for the
next one ran into the deadline. `delivers` says whether what was sent came to the service. -/
structure Link where
  startup : Bool := true
  resolves : Bool := true
  connects : Bool := true
  sends : List SendAnswer := []
  receives : List RecvAnswer := []
  delivers : Bool := true

/-- What a post came to: the reply, how much of the request was sent, what was received. -/
structure Posted where
  reply : HttpReply
  sent : ℕ := 0
  raw : Bytes := []

def request (c : ClientConfig) (body : Bytes) : Bytes :=
  str "POST " ++ c.path ++ str " HTTP/1.1\r\n" ++
  str "Host: " ++ c.host ++ str ":" ++ decimal c.port ++ str "\r\n" ++
  str "Content-Type: text/xml; charset=utf-8\r\n" ++
  str "If-Modified-Since: Thu, 01 Jan 1970 00:00:00 GMT\r\n" ++
  str "SOAPAction: \"\"\r\n" ++
  str "Connection: close\r\n" ++
  str "Content-Length: " ++ decimal body.length ++ str "\r\n\r\n" ++ body

/-- The error the send loop ends in, if any, and how much it has sent. -/
def sendAll (size : ℕ) : ℕ → List SendAnswer → Option Bytes × ℕ
  | sent, [] => (if sent < size then some (str "timed out sending the ePOS request") else none, sent)
  | sent, answer :: answers =>
    if sent < size then
      match answer with
      | .wrote 0 => (some (str "the ePOS connection closed while sending"), sent)
      | .wrote (n + 1) => sendAll size (sent + min (n + 1) (size - sent)) answers
      | .wouldBlock => sendAll size sent answers
      | .failed => (some (str "the ePOS connection closed while sending"), sent)
    else (none, sent)

/-- A body of the announced length has come; the sum of the lengths is one of 64 bits. -/
def complete (raw : Bytes) : Bool :=
  match cut (str "\r\n\r\n") raw with
  | some (headers, _) =>
    match cut (str "content-length:") (lower headers) with
    | some (_, value) => decide ((headers.length + 4 + strtoull 10 value) % 2 ^ 64 ≤ raw.length)
    | none => false
  | none => false

/-- Whether the wait ran into the deadline, and what had come until then. -/
def receiveAll : Bytes → List RecvAnswer → Bool × Bytes
  | raw, [] => (true, raw)
  | raw, .got [] :: _ => (false, raw)
  | raw, .got (b :: bs) :: answers =>
    if complete (raw ++ b :: bs) then (false, raw ++ b :: bs) else receiveAll (raw ++ b :: bs) answers
  | raw, .wouldBlock :: answers => receiveAll raw answers
  | raw, .closed :: _ => (false, raw)
  | raw, .failed :: _ => (false, raw)

def httpStatus (statusLine : Bytes) : ℤ :=
  match cut (str " ") statusLine with
  | some (_, rest) => atoi rest
  | none => 0

def replyOf (raw : Bytes) : HttpReply :=
  match cut (str "\r\n\r\n") raw with
  | some (_, body) =>
    { ok := true, body := body, status := httpStatus (((cut (str "\r\n") raw).map (·.1)).getD raw) }
  | none => { error := str "malformed HTTP response from the ePOS service" }

def socketPost (c : ClientConfig) (body : Bytes) (link : Link) : Posted :=
  if !link.startup then { reply := { error := str "socket layer unavailable" } }
  else if !link.resolves then { reply := { error := str "cannot resolve " ++ c.host } }
  else if !link.connects then
    { reply := { error := str "cannot connect to " ++ c.host ++ str ":" ++ decimal c.port } }
  else
    match sendAll (request c body).length 0 link.sends with
    | (some error, sent) => { reply := { error := error }, sent := sent }
    | (none, sent) =>
      match receiveAll [] link.receives with
      | (true, raw) =>
        { reply := { error := str "timed out waiting for the ePOS response" }, sent := sent
          raw := raw }
      | (false, raw) => { reply := replyOf raw, sent := sent, raw := raw }

/-! ### The environment -/

/-- The socket layer, or a transport set by the caller; that one says what it replies, and
`delivers` whether a byte of the request came to the service. -/
inductive Carrier where
  | socket (link : Link)
  | custom (reply : HttpReply) (delivers : Bool)

/-- One post as the world answers it, and how long it took. -/
structure Exchange where
  carrier : Carrier
  took : ℕ := 0

/-- `Client::post` -/
def Exchange.reply (x : Exchange) (c : ClientConfig) (body : Bytes) : HttpReply :=
  match x.carrier with
  | .socket link => (socketPost c body link).reply
  | .custom reply _ => reply

/-- A byte of the request came to the service, which is also so when the service has answered. -/
def Exchange.reached (x : Exchange) (c : ClientConfig) (body : Bytes) : Bool :=
  match x.carrier with
  | .socket link =>
    let posted := socketPost c body link
    (link.delivers && 0 < posted.sent) || posted.raw ≠ []
  | .custom reply delivers => delivers || reply.ok

/-- The clock, and the bodies that have been posted. -/
structure World where
  now : ℕ := 0
  posts : List Bytes := []

def World.post (w : World) (body : Bytes) (x : Exchange) : World :=
  { now := w.now + x.took, posts := w.posts ++ [body] }

def World.sleep (w : World) (ms : ℕ) : World := { w with now := w.now + ms }

@[simp]
theorem World.post_now (w : World) (body : Bytes) (x : Exchange) :
    (w.post body x).now = w.now + x.took := rfl

@[simp]
theorem World.post_posts (w : World) (body : Bytes) (x : Exchange) :
    (w.post body x).posts = w.posts ++ [body] := rfl

@[simp]
theorem World.sleep_now (w : World) (ms : ℕ) : (w.sleep ms).now = w.now + ms := rfl

@[simp]
theorem World.sleep_posts (w : World) (ms : ℕ) : (w.sleep ms).posts = w.posts := rfl

/-! ### Verdicts -/

def spooledEvidence : JobEvidence :=
  ⟨.aPlusDurableQueryableJob, .vendorSpooler, str "ePOS JobID"⟩

def directEvidence : JobEvidence :=
  ⟨.aJobLevelConfirmation, .physicalPrinter, str "ePOS-Print response"⟩

def faultEvidence : JobEvidence := ⟨.cDeviceStatusAround, .vendorSpooler, str "ePOS status"⟩

def noEvidence : JobEvidence := ⟨.eTransportOnly, .transportOnly, str "transport-only"⟩

def reasonFor : ResponseCode → FailureReason
  | .eptrCoverOpen => .preflightCoverOpen
  | .eptrRecEmpty => .preflightPaperOut
  | .eptrCutter => .cutterFault
  | .eptrAutomatical | .eptrBatteryLow | .eptrMechanical | .eptrUnrecoverable | .errorWaitEject =>
    .preflightHardwareError
  | .exSpooler | .tooManyRequests => .queueOverflow
  | .schemaError | .requestEntityTooLarge => .unsupported
  | .deviceNotFound | .exBadport => .transportUnreachable
  | .exTimeout => .timeoutAwaitingCompletion
  | .printSystemError | .jobNotFound | .printing | .jobSpooling | .unrecognised | .none => .unknown

structure Outcome where
  terminal : Bool := true
  result : JobResult := {}
  state : JobState := .unknown
  acceptedNotPrinted : Bool := false
  polls : ℕ := 0
  submission : Response := {}
  last : Response := {}
  events : List DeviceEvent := []
  jobId : Bytes := []
  error : Bytes := []

/-- Not an answer: the paper has provably not moved yet. -/
def Outcome.accepted (out : Outcome) : Outcome :=
  { out with
    terminal := false
    acceptedNotPrinted := true
    state := .bytesSent
    result := { outcome := .unknown, confidence := .transportAccepted, reason := .none } }

/-- An honest end without a verdict. -/
def Outcome.undecided (out : Outcome) (reason : FailureReason) : Outcome :=
  { out with
    terminal := true
    state := .unknown
    result := JobResult.attested { outcome := .unknown, reason := reason } noEvidence }

def Outcome.failed (out : Outcome) (reason : FailureReason) (reached : ConfidenceLevel)
    (evidence : JobEvidence) : Outcome :=
  { out with
    state := .failedKnown
    result := (JobResult.failed reason reached).attested evidence }

def Outcome.done (out : Outcome) (evidence : JobEvidence) : Outcome :=
  { out with
    state := .doneSoftware
    result := (JobResult.done .cutProcessed).attested evidence }

/-- The terminal-state rules, applied to one response. -/
def classify (response : Response) (spooler first : Bool) : Outcome :=
  let out : Outcome :=
    { submission := response, last := response, events := toDeviceEvents response.status }
  if !response.parsed then out.undecided .unknown
  else if isNonTerminal response.code then out.accepted
  else if response.code = .jobNotFound then out.undecided .unknown
  else if !response.success || response.code ≠ .none then
    out.failed (reasonFor response.code) .transportAccepted faultEvidence
  else if spooler && first then out.accepted
  else if carries response.status kCutterError then
    out.failed .cutterFault .printConfirmed faultEvidence
  else if spooler then
    if carries response.status kPrintingCompleted then out.done spooledEvidence
    else if carries response.status kSpoolerStopped then
      out.failed .preflightHardwareError .transportAccepted faultEvidence
    else out.accepted
  else out.done directEvidence

/-! ### Printing -/

/-- The response in a reply, and the error when there is none. -/
def readReply (reply : HttpReply) : Response × Bytes :=
  if !reply.ok then ({}, reply.error)
  else
    let response := parseResponse reply.body
    (response,
      if response.parsed then []
      else str "no ePOS-Print <response> in the reply (HTTP " ++ str (toString reply.status) ++
        str ")")

def printEnvelope (c : ClientConfig) (jobId document : Bytes) : Bytes :=
  buildPrintEnvelope c.deviceId c.timeoutMs jobId document

/-- How far a print has come: it wants one more reply, or it is over and did not read the rest. -/
inductive Progress where
  | waiting (w : World) (out : Outcome)
  | ended (w : World) (out : Outcome) (rest : List Exchange)

/-- What a parsed answer makes of the outcome. -/
def Outcome.answered (out : Outcome) (c : ClientConfig) (jobId : Bytes) (answer : Response) :
    Outcome :=
  let step := classify answer c.spooler false
  { step with
    polls := out.polls
    submission := out.submission
    acceptedNotPrinted := out.acceptedNotPrinted || step.acceptedNotPrinted
    events := out.events ++ step.events
    jobId := jobId }

/-- Sleep, ask, and look again. The deadline is looked at before the sleep. -/
def retrieve (c : ClientConfig) (jobId : Bytes) (deadline : ℕ) (w : World) (out : Outcome)
    (replies : List Exchange) : Progress :=
  if deadline ≤ w.now then
    .ended w (out.undecided .timeoutAwaitingCompletion) replies
  else
    match replies with
    | [] => .waiting w out
    | x :: rest =>
      let poll := buildPollEnvelope jobId
      let w' := (w.sleep c.pollIntervalMs).post poll x
      let answer := readReply (x.reply c poll)
      let asked := { out with polls := out.polls + 1 }
      if !answer.1.parsed then retrieve c jobId deadline w' { asked with error := answer.2 } rest
      else
        let out' := asked.answered c jobId answer.1
        if out'.terminal then .ended w' out' rest else retrieve c jobId deadline w' out' rest
termination_by structural replies

/-- A print that reached nothing that could have printed it, as the client sees it. -/
def refused (jobId error : Bytes) : Outcome :=
  { Outcome.failed {} .transportUnreachable .transportAccepted noEvidence with
    jobId := jobId, error := error }

def Outcome.lost (out : Outcome) : Outcome :=
  { out.undecided .unknown with
    error := str "the spooler accepted the job without a JobID, so its result cannot be retrieved" }

/-- What follows the submission. -/
def conclude (c : ClientConfig) (jobId : Bytes) (w : World) (submission : Response × Bytes)
    (replies : List Exchange) : Progress :=
  if submission.2 ≠ [] ∧ submission.1.parsed = false then
    .ended w (refused jobId submission.2) replies
  else
    let out := { classify submission.1 c.spooler true with
      jobId := jobId, submission := submission.1 }
    if out.terminal then .ended w out replies
    else if jobId = [] then .ended w out.lost replies
    else retrieve c jobId (w.now + c.pollBudgetMs) w out replies

/-- An id the client submits under: none, or a valid one. -/
def usable (jobId : Bytes) : Bool := jobId = [] || isValidJobId jobId

/-- `Client::print`, from the replies of the world in their order. -/
def print (c : ClientConfig) (document jobId : Bytes) (w : World) (replies : List Exchange) :
    Progress :=
  if !usable jobId then
    .ended w (refused jobId (str
      "ePOS JobID must be 1-30 characters of alphanumerics, '_', '-' or '.'")) replies
  else
    match replies with
    | [] => .waiting w { jobId := jobId }
    | x :: rest =>
      let body := printEnvelope c jobId document
      conclude c jobId (w.post body x) (readReply (x.reply c body)) rest

end PrinterDriver.Epos.Client
