import PrinterDriver.Epos.Xml

/-! # The response of the ePOS-Print service

The response codes, the status mask, and the `<response>` element as the client reads it out of a
reply: found by namespace and local name, never by prefix. -/

namespace PrinterDriver.Epos.Replies

open PrinterDriver.Core.Types PrinterDriver.Epos.Xml

/-! ### Codes -/

inductive ResponseCode where
  | none
  | eptrAutomatical | eptrBatteryLow | eptrCoverOpen | eptrCutter | eptrMechanical | eptrRecEmpty
  | eptrUnrecoverable | errorWaitEject
  | schemaError | deviceNotFound | printSystemError | exBadport | exTimeout | exSpooler
  | tooManyRequests | requestEntityTooLarge
  | jobNotFound | printing | jobSpooling
  | unrecognised
  deriving DecidableEq, Repr

def ResponseCode.toBytes : ResponseCode → Bytes
  | .none => str ""
  | .eptrAutomatical => str "EPTR_AUTOMATICAL"
  | .eptrBatteryLow => str "EPTR_BATTERY_LOW"
  | .eptrCoverOpen => str "EPTR_COVER_OPEN"
  | .eptrCutter => str "EPTR_CUTTER"
  | .eptrMechanical => str "EPTR_MECHANICAL"
  | .eptrRecEmpty => str "EPTR_REC_EMPTY"
  | .eptrUnrecoverable => str "EPTR_UNRECOVERABLE"
  | .errorWaitEject => str "ERROR_WAIT_EJECT"
  | .schemaError => str "SchemaError"
  | .deviceNotFound => str "DeviceNotFound"
  | .printSystemError => str "PrintSystemError"
  | .exBadport => str "EX_BADPORT"
  | .exTimeout => str "EX_TIMEOUT"
  | .exSpooler => str "EX_SPOOLER"
  | .tooManyRequests => str "TooManyRequests"
  | .requestEntityTooLarge => str "RequestEntityTooLarge"
  | .jobNotFound => str "JobNotFound"
  | .printing => str "Printing"
  | .jobSpooling => str "JobSpooling"
  | .unrecognised => str "Unrecognised"

/-- The codes the parser looks for; the last constructor is not among them. -/
def kCodes : List ResponseCode :=
  [.eptrAutomatical, .eptrBatteryLow, .eptrCoverOpen, .eptrCutter, .eptrMechanical, .eptrRecEmpty,
    .eptrUnrecoverable, .errorWaitEject, .schemaError, .deviceNotFound, .printSystemError,
    .exBadport, .exTimeout, .exSpooler, .tooManyRequests, .requestEntityTooLarge, .jobNotFound,
    .printing, .jobSpooling]

def responseCodeFrom (text : Bytes) : ResponseCode :=
  if text = [] then .none
  else (kCodes.find? fun code => code.toBytes = text).getD .unrecognised

/-- The codes that tell the client to ask again. -/
def isNonTerminal (code : ResponseCode) : Bool := code = .printing || code = .jobSpooling

/-- Every code of the table is read back from its spelling. -/
theorem responseCodeFrom_toBytes : ∀ code ∈ kCodes, responseCodeFrom code.toBytes = code := by
  decide

/-! ### The status mask -/

def kNoResponse : UInt32 := 0x00000001
def kPrintingCompleted : UInt32 := 0x00000002
def kOffline : UInt32 := 0x00000008
def kCoverOpen : UInt32 := 0x00000020
def kWaitingOnlineRecovery : UInt32 := 0x00000100
def kMechanicalError : UInt32 := 0x00000400
def kCutterError : UInt32 := 0x00000800
def kUnrecoverableError : UInt32 := 0x00002000
def kAutoRecoveryError : UInt32 := 0x00004000
def kRollNearEnd : UInt32 := 0x00020000
def kPaperEnd : UInt32 := 0x00080000
def kSpoolerStopped : UInt32 := 0x80000000

/-- Whether the status carries a bit of the mask. -/
def carries (status mask : UInt32) : Bool := status &&& mask ≠ 0

/-- The events of the bits a status carries; no two bits here add the same one. -/
def toDeviceEvents (value : UInt32) : List DeviceEvent :=
  (if carries value kOffline then [.offline]
    else if carries value kNoResponse then [] else [.online]) ++
  (if carries value kCoverOpen then [.coverOpen] else []) ++
  (if carries value kPaperEnd then [.paperOut]
    else if carries value kRollNearEnd then [.paperNearEnd] else []) ++
  (if carries value kCutterError then [.cutterError] else []) ++
  (if carries value kUnrecoverableError || carries value kMechanicalError then
    [.unrecoverableError] else []) ++
  (if carries value kAutoRecoveryError || carries value kWaitingOnlineRecovery then
    [.recoverableError] else [])

/-! ### The element -/

structure Response where
  parsed : Bool := false
  success : Bool := false
  code : ResponseCode := .none
  codeText : Bytes := []
  status : UInt32 := 0
  battery : UInt32 := 0
  printjobid : Bytes := []
  deriving DecidableEq, Repr

/-- A decimal number cut down to 32 bits, unsigned. -/
def parseUnsigned32 (text : Bytes) : UInt32 := UInt32.ofNat (strtoull 10 text)

/-- One attribute; those with a prefix are no part of the contract. -/
def Response.read (r : Response) (a : Attribute) : Response :=
  if a.name.qualifier ≠ [] then r
  else if a.name.base = str "success" then
    { r with success := lower a.value = str "true" || lower a.value = str "1" }
  else if a.name.base = str "code" then
    { r with codeText := a.value, code := responseCodeFrom a.value }
  else if a.name.base = str "status" then { r with status := parseUnsigned32 a.value }
  else if a.name.base = str "battery" then { r with battery := parseUnsigned32 a.value }
  else if a.name.base = str "printjobid" then { r with printjobid := a.value }
  else r

def kEposNamespace : Bytes := str "http://www.epson-pos.com/schemas/2011/03/epos-print"
def kSoapNamespace : Bytes := str "http://schemas.xmlsoap.org/soap/envelope/"

/-- The first `<response>` of the ePOS-Print namespace; without one the response is not parsed. -/
def parseResponse (xml : Bytes) : Response :=
  match findElement kEposNamespace (str "response") (xml.length + 1) [] xml with
  | some tag => tag.attributes.foldl Response.read { parsed := true }
  | none => {}

theorem parsed_read (r : Response) (a : Attribute) : (r.read a).parsed = r.parsed := by
  unfold Response.read
  split_ifs <;> rfl

theorem parsed_foldl (attributes : List Attribute) : ∀ r : Response,
    (attributes.foldl Response.read r).parsed = r.parsed := by
  induction attributes with
  | nil => intro r; rfl
  | cons a as ih =>
    intro r
    rw [List.foldl_cons, ih, parsed_read]

/-- What is not parsed carries nothing. -/
theorem parseResponse_of_not_parsed {xml : Bytes} (h : (parseResponse xml).parsed = false) :
    parseResponse xml = {} := by
  unfold parseResponse at h ⊢
  split at h
  · rw [parsed_foldl] at h
    cases h
  · rfl

end PrinterDriver.Epos.Replies
