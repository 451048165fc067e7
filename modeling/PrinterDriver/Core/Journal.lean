import Mathlib.Data.List.Infix
import Mathlib.Tactic.IntervalCases
import PrinterDriver.Lib.Delimited
import PrinterDriver.Core.Types

/-! # The journal's lines

One record a line, its fields separated by tabs and escaped. A `J` line creates a job, an `S` line
is a transition, a `T` line attaches verification tokens. The reader takes the older, shorter forms
of a line as well. -/

namespace PrinterDriver.Core.Journal

open PrinterDriver.Lib.Delimited PrinterDriver.Core.Types

inductive PayloadKind where
  | raster | document | raw
  deriving DecidableEq, Repr

def PayloadKind.toBytes : PayloadKind → Bytes
  | .raster => str "Raster"
  | .document => str "Document"
  | .raw => str "Raw"

def kAllPayloadKinds : List PayloadKind := [.raster, .document, .raw]

/-- What the store knows of a job. -/
structure JobRecord where
  id : Bytes := []
  key : Bytes := []
  printerId : Bytes := []
  createdUnixMs : UInt64 := 0
  attempt : UInt32 := 1
  payloadKind : PayloadKind := .raw
  payloadBytes : UInt64 := 0
  printToken : Bytes := []
  cutToken : Bytes := []
  state : JobState := .queued
  confidence : ConfidenceLevel := .transportAccepted
  reason : FailureReason := .none
  evidence : JobEvidence := {}
  updatedUnixMs : UInt64 := 0
  recovered : Bool := false
  deriving DecidableEq, Repr

def JobRecord.isTerminal (r : JobRecord) : Bool := r.state.isTerminal

def JobRecord.setState (state : JobState) (confidence : ConfidenceLevel) (reason : FailureReason)
    (atMs : UInt64) (evidence : JobEvidence) (r : JobRecord) : JobRecord :=
  { r with
    state := state, confidence := confidence, reason := reason, evidence := evidence
    updatedUnixMs := atMs }

def JobRecord.setTokens (printToken cutToken : Bytes) (r : JobRecord) : JobRecord :=
  { r with printToken := printToken, cutToken := cutToken }

/-- The fields of a record that its creation line has. -/
def JobRecord.creation (r : JobRecord) : JobRecord :=
  { id := r.id, key := r.key, printerId := r.printerId, createdUnixMs := r.createdUnixMs,
    attempt := r.attempt, payloadKind := r.payloadKind, payloadBytes := r.payloadBytes,
    printToken := r.printToken, cutToken := r.cutToken }

/-- A record without the flag that only `load` sets. -/
def JobRecord.forget (r : JobRecord) : JobRecord := { r with recovered := false }

/-- A record as `createJob` stores it. -/
def JobRecord.fresh (now : UInt64) (r : JobRecord) : JobRecord :=
  { r with
    createdUnixMs := if r.createdUnixMs = 0 then now else r.createdUnixMs
    updatedUnixMs := if r.createdUnixMs = 0 then now else r.createdUnixMs
    state := .queued, confidence := .transportAccepted, reason := .none, evidence := {}
    recovered := false }

/-- What becomes of a state in flight: after `SendStarted` bytes may have printed. -/
def reloadedState : JobState → JobState
  | .sendStarted | .bytesSent | .printConfirmed | .cutCommandProcessed => .unknown
  | _ => .failedKnown

def JobRecord.recover (now : UInt64) (r : JobRecord) : JobRecord :=
  if r.isTerminal then r
  else
    { r with
      state := reloadedState r.state, reason := .unknown, evidence := {}, recovered := true
      updatedUnixMs := now }

/-- What a journal line says; a `job` entry has only the fields of the creation. -/
inductive JournalEntry where
  | job (record : JobRecord)
  | state (id : Bytes) (state : JobState) (confidence : ConfidenceLevel) (reason : FailureReason)
      (atMs : UInt64) (evidence : JobEvidence)
  | tokens (id printToken cutToken : Bytes)
  deriving DecidableEq, Repr

/-- The records of a job in a compacted journal. -/
def JobRecord.snapshot (r : JobRecord) : List JournalEntry :=
  [.job r, .state r.id r.state r.confidence r.reason r.updatedUnixMs r.evidence]

/-! ### Fields -/

def tab : UInt8 := 9
def newline : UInt8 := 10
def carriageReturn : UInt8 := 13
def hash : UInt8 := 35
def backslash : UInt8 := 92
def kJobPrefix : UInt8 := 74
def kStatePrefix : UInt8 := 83
def kTokenPrefix : UInt8 := 84
def kHeader : Bytes := str "#PDJOURNAL\t3"

def escapeByte (c : UInt8) : Bytes :=
  if c = backslash then str "\\\\"
  else if c = tab then str "\\t"
  else if c = newline then str "\\n"
  else if c = carriageReturn then str "\\r"
  else [c]

def escapeField (value : Bytes) : Bytes := value.flatMap escapeByte

/-- What a byte after a backslash stands for. -/
def unescapeByte (c : UInt8) : UInt8 :=
  if c = 116 then tab else if c = 110 then newline else if c = 114 then carriageReturn else c

/-- A backslash at the very end stands for itself. -/
def unescapeField : Bytes → Bytes
  | [] => []
  | [c] => [c]
  | c :: d :: rest =>
    if c = backslash then unescapeByte d :: unescapeField rest else c :: unescapeField (d :: rest)

def splitTabs (line : Bytes) : List Bytes := line.splitOn tab

def joinTabs (fields : List Bytes) : Bytes := [tab].intercalate fields

def parseEnum {α : Type} (spell : α → Bytes) (all : List α) (name : Bytes) : Option α :=
  all.find? fun value => spell value = name

/-- Numbers wrap around. -/
def parseDigit (value : UInt64) (c : UInt8) : Option UInt64 :=
  if c < 48 ∨ 57 < c then none else some (value * 10 + (c - 48).toUInt64)

def parseUint (text : Bytes) : Option UInt64 :=
  if text = [] then none else text.foldlM parseDigit 0

/-- A number as a stream prints it. -/
def decimal (n : ℕ) : Bytes := (Nat.toDigits 10 n).map fun c => UInt8.ofNat c.toNat

/-! ### Lines -/

def jobFields (r : JobRecord) : List Bytes :=
  [[kJobPrefix], escapeField r.id, escapeField r.key, escapeField r.printerId,
    decimal r.createdUnixMs.toNat, decimal r.attempt.toNat, r.payloadKind.toBytes,
    decimal r.payloadBytes.toNat, escapeField r.printToken, escapeField r.cutToken]

def tokenFields (id printToken cutToken : Bytes) : List Bytes :=
  [[kTokenPrefix], escapeField id, escapeField printToken, escapeField cutToken]

def stateFields (id : Bytes) (state : JobState) (confidence : ConfidenceLevel)
    (reason : FailureReason) (atMs : UInt64) (evidence : JobEvidence) : List Bytes :=
  [[kStatePrefix], escapeField id, state.toBytes, confidence.toBytes, reason.toBytes,
    decimal atMs.toNat, evidence.grade.toBytes, evidence.authority.toBytes,
    escapeField evidence.method]

def jobLine (r : JobRecord) : Bytes := joinTabs (jobFields r)

def tokenLine (id printToken cutToken : Bytes) : Bytes :=
  joinTabs (tokenFields id printToken cutToken)

def stateLine (id : Bytes) (state : JobState) (confidence : ConfidenceLevel)
    (reason : FailureReason) (atMs : UInt64) (evidence : JobEvidence) : Bytes :=
  joinTabs (stateFields id state confidence reason atMs evidence)

/-- The two lines of a new job. -/
def JobRecord.batch (r : JobRecord) : Bytes :=
  jobLine r ++ newline ::
    stateLine r.id r.state r.confidence r.reason r.updatedUnixMs r.evidence

/-- The evidence of an `S` line that has none: only a completed job may claim the device. -/
def legacyEvidence (state : JobState) (confidence : ConfidenceLevel) (base : JobEvidence) :
    JobEvidence :=
  if ConfidenceLevel.printConfirmed.rank ≤ confidence.rank ∧
      (state = .doneSoftware ∨ state = .physicallyVerified) then
    ⟨.bOrderedDeviceResponse, .physicalPrinter, str "journal-legacy"⟩
  else base

/-- The fields behind the time. A grade that parses stays even when the authority does not. -/
def parseEvidence (state : JobState) (confidence : ConfidenceLevel) : List Bytes → JobEvidence
  | grade :: authority :: method :: _ =>
    match parseEnum ConfidenceGrade.toBytes kAllConfidenceGrades grade with
    | none => legacyEvidence state confidence {}
    | some g =>
      match parseEnum CompletionAuthority.toBytes kAllCompletionAuthorities authority with
      | none => legacyEvidence state confidence { grade := g }
      | some a => ⟨g, a, unescapeField method⟩
  | _ => legacyEvidence state confidence {}

/-- The fields behind the size: the print token and the cut token. -/
def parseJobTokens : List Bytes → Bytes × Bytes
  | printToken :: cutToken :: _ => (unescapeField printToken, unescapeField cutToken)
  | _ => ([], [])

def parseJob : List Bytes → Option JournalEntry
  | id :: key :: printer :: created :: attempt :: kind :: bytes :: more => do
    let created ← parseUint created
    let attempt ← parseUint attempt
    let bytes ← parseUint bytes
    let kind ← parseEnum PayloadKind.toBytes kAllPayloadKinds kind
    some (.job
      { id := unescapeField id, key := unescapeField key, printerId := unescapeField printer,
        createdUnixMs := created, attempt := attempt.toUInt32, payloadKind := kind,
        payloadBytes := bytes, printToken := (parseJobTokens more).1,
        cutToken := (parseJobTokens more).2 })
  | _ => none

def parseTokens : List Bytes → Option JournalEntry
  | id :: printToken :: cutToken :: _ =>
    some (.tokens (unescapeField id) (unescapeField printToken) (unescapeField cutToken))
  | _ => none

def parseState : List Bytes → Option JournalEntry
  | id :: state :: confidence :: reason :: atMs :: more => do
    let state ← parseEnum JobState.toBytes kAllJobStates state
    let confidence ← parseEnum ConfidenceLevel.toBytes kAllConfidenceLevels confidence
    let reason ← parseEnum FailureReason.toBytes kAllFailureReasons reason
    let atMs ← parseUint atMs
    some (.state (unescapeField id) state confidence reason atMs
      (parseEvidence state confidence more))
  | _ => none

/-- Records of a kind that a newer core wrote are skipped. -/
def parseFields : List Bytes → Option JournalEntry
  | [kind] :: fields =>
    if kind = kJobPrefix then parseJob fields
    else if kind = kTokenPrefix then parseTokens fields
    else if kind = kStatePrefix then parseState fields
    else none
  | _ => none

def parseLine (line : Bytes) : Option JournalEntry :=
  if line = [] ∨ line.head? = some hash then none else parseFields (splitTabs line)

def stripReturn (line : Bytes) : Bytes :=
  if line.getLast? = some carriageReturn then line.dropLast else line

/-- `getline` has no last line when the text ends with a newline; an empty line says nothing. -/
def readJournal (text : Bytes) : List JournalEntry :=
  (text.splitOn newline).filterMap fun line => parseLine (stripReturn line)

/-! ### What is written reads back -/

/-- A field without a separator. -/
def Plain (field : Bytes) : Prop := tab ∉ field ∧ newline ∉ field ∧ carriageReturn ∉ field

instance (field : Bytes) : Decidable (Plain field) :=
  inferInstanceAs (Decidable (_ ∧ _ ∧ _))

theorem Plain.append {a b : Bytes} (ha : Plain a) (hb : Plain b) : Plain (a ++ b) := by
  simp only [Plain, List.mem_append, not_or] at *
  exact ⟨⟨ha.1, hb.1⟩, ⟨ha.2.1, hb.2.1⟩, ha.2.2, hb.2.2⟩

theorem Plain.of_initial {a b : Bytes} (hb : Plain b) (h : a <+: b) : Plain a :=
  ⟨fun m => hb.1 (h.subset m), fun m => hb.2.1 (h.subset m), fun m => hb.2.2 (h.subset m)⟩

theorem plain_escapeByte (c : UInt8) : Plain (escapeByte c) := by
  unfold escapeByte
  split_ifs with h1 h2 h3 h4
  · decide
  · decide
  · decide
  · decide
  · simp only [Plain, List.mem_singleton]
    exact ⟨fun h => h2 h.symm, fun h => h3 h.symm, fun h => h4 h.symm⟩

theorem plain_escapeField : ∀ value : Bytes, Plain (escapeField value)
  | [] => by decide
  | c :: value => (plain_escapeByte c).append (plain_escapeField value)

theorem unescapeField_escapeByte (c : UInt8) (rest : Bytes) :
    unescapeField (escapeByte c ++ rest) = c :: unescapeField rest := by
  unfold escapeByte
  split_ifs with h1 h2 h3 h4
  · rw [h1]; rfl
  · rw [h2]; rfl
  · rw [h3]; rfl
  · rw [h4]; rfl
  · cases rest with
    | nil => rfl
    | cons d rest => simp only [List.singleton_append, unescapeField, if_neg h1]

/-- **An escaped field reads back as it was.** -/
@[simp]
theorem unescapeField_escapeField : ∀ value : Bytes, unescapeField (escapeField value) = value
  | [] => rfl
  | c :: value => by
    rw [escapeField, List.flatMap_cons, unescapeField_escapeByte]
    exact congrArg _ (unescapeField_escapeField value)

theorem decimal_of_lt {n : ℕ} (h : n < 10) : decimal n = [UInt8.ofNat (48 + n)] := by
  rw [decimal, Nat.toDigits_of_lt_base h]
  interval_cases n <;> rfl

theorem decimal_of_le {n : ℕ} (h : 10 ≤ n) :
    decimal n = decimal (n / 10) ++ [UInt8.ofNat (48 + n % 10)] := by
  have hd : n % 10 < 10 := Nat.mod_lt _ (by omega)
  rw [← decimal_of_lt hd, decimal, decimal, decimal, Nat.toDigits_of_base_le (by omega) h,
    Nat.toDigits_of_lt_base hd, List.map_append]

theorem parseDigit_ofNat {d : ℕ} (h : d < 10) (value : UInt64) :
    parseDigit value (UInt8.ofNat (48 + d)) = some (value * 10 + UInt64.ofNat d) := by
  interval_cases d <;> rfl

theorem foldlM_parseDigit_decimal (n : ℕ) :
    (decimal n).foldlM parseDigit 0 = some (UInt64.ofNat n) := by
  induction n using Nat.strongRecOn with
  | ind n ih =>
    rcases Nat.lt_or_ge n 10 with h | h
    · rw [decimal_of_lt h, List.foldlM_cons, parseDigit_ofNat h]
      simp
    · rw [decimal_of_le h, List.foldlM_append, ih _ (by omega)]
      have hd : n % 10 < 10 := Nat.mod_lt _ (by omega)
      have hn : UInt64.ofNat (n / 10) * 10 + UInt64.ofNat (n % 10) = UInt64.ofNat n := by
        rw [show (10 : UInt64) = UInt64.ofNat 10 from rfl, ← UInt64.ofNat_mul, ← UInt64.ofNat_add,
          Nat.div_add_mod']
      simp only [Option.bind_eq_bind, Option.bind_some, List.foldlM_cons, List.foldlM_nil,
        parseDigit_ofNat hd, hn]
      rfl

theorem decimal_ne_nil (n : ℕ) : decimal n ≠ [] := by
  simp [decimal]

theorem ofNat_digit_inj {d e : ℕ} (hd : d < 10) (he : e < 10)
    (h : UInt8.ofNat (48 + d) = UInt8.ofNat (48 + e)) : d = e := by
  have hn := congrArg UInt8.toNat h
  rw [UInt8.toNat_ofNat', UInt8.toNat_ofNat'] at hn
  omega

/-- Different numbers are printed differently. -/
theorem decimal_inj {m n : ℕ} (h : decimal m = decimal n) : m = n := by
  induction m using Nat.strongRecOn generalizing n with
  | ind m ih =>
    have hlong : ∀ k, decimal (k / 10) ≠ [] := fun k => decimal_ne_nil _
    rcases Nat.lt_or_ge m 10 with hm | hm <;> rcases Nat.lt_or_ge n 10 with hn | hn
    · rw [decimal_of_lt hm, decimal_of_lt hn] at h
      exact ofNat_digit_inj hm hn (List.cons.inj h).1
    · rw [decimal_of_lt hm, decimal_of_le hn] at h
      exact absurd (List.append_eq_singleton_iff.mp h.symm) (by simp [hlong])
    · rw [decimal_of_le hm, decimal_of_lt hn] at h
      exact absurd (List.append_eq_singleton_iff.mp h) (by simp [hlong])
    · rw [decimal_of_le hm, decimal_of_le hn] at h
      obtain ⟨hfront, hlast⟩ := List.append_inj' h rfl
      have hq := ih (m / 10) (by omega) hfront
      have hr := ofNat_digit_inj (Nat.mod_lt _ (by omega)) (Nat.mod_lt _ (by omega))
        (List.cons.inj hlast).1
      omega

/-- **A printed number reads back modulo `2 ^ 64`.** -/
theorem parseUint_decimal (n : ℕ) : parseUint (decimal n) = some (UInt64.ofNat n) := by
  rw [parseUint, if_neg (decimal_ne_nil n), foldlM_parseDigit_decimal]

@[simp]
theorem parseEnum_payloadKind (k : PayloadKind) :
    parseEnum PayloadKind.toBytes kAllPayloadKinds k.toBytes = some k := by
  cases k <;> rfl

@[simp]
theorem parseEnum_jobState (s : JobState) :
    parseEnum JobState.toBytes kAllJobStates s.toBytes = some s := by
  cases s <;> rfl

@[simp]
theorem parseEnum_confidence (c : ConfidenceLevel) :
    parseEnum ConfidenceLevel.toBytes kAllConfidenceLevels c.toBytes = some c := by
  cases c <;> rfl

@[simp]
theorem parseEnum_reason (r : FailureReason) :
    parseEnum FailureReason.toBytes kAllFailureReasons r.toBytes = some r := by
  cases r <;> rfl

@[simp]
theorem parseEnum_grade (g : ConfidenceGrade) :
    parseEnum ConfidenceGrade.toBytes kAllConfidenceGrades g.toBytes = some g := by
  cases g <;> rfl

@[simp]
theorem parseEnum_authority (a : CompletionAuthority) :
    parseEnum CompletionAuthority.toBytes kAllCompletionAuthorities a.toBytes = some a := by
  cases a <;> rfl

/-- The line that says an entry, as fields. -/
def JournalEntry.fields : JournalEntry → List Bytes
  | .job r => jobFields r
  | .state id s confidence reason atMs evidence =>
    stateFields id s confidence reason atMs evidence
  | .tokens id printToken cutToken => tokenFields id printToken cutToken

def JournalEntry.line (e : JournalEntry) : Bytes := joinTabs e.fields

def JournalEntry.readBack : JournalEntry → JournalEntry
  | .job r => .job r.creation
  | e => e

theorem plain_decimal (n : ℕ) : Plain (decimal n) := by
  induction n using Nat.strongRecOn with
  | ind n ih =>
    have digit : ∀ d, d < 10 → Plain [UInt8.ofNat (48 + d)] := by decide
    rcases Nat.lt_or_ge n 10 with h | h
    · rw [decimal_of_lt h]
      exact digit n h
    · rw [decimal_of_le h]
      exact (ih _ (by omega)).append (digit _ (Nat.mod_lt _ (by omega)))

theorem plain_fields (e : JournalEntry) : ∀ f ∈ e.fields, Plain f := by
  cases e with
  | job r =>
    have hk : Plain r.payloadKind.toBytes := by cases r.payloadKind <;> decide
    simp only [JournalEntry.fields, jobFields, List.forall_mem_cons, plain_escapeField,
      plain_decimal, hk, List.not_mem_nil, false_imp_iff, implies_true, and_true]
    decide
  | state id s c r atMs ev =>
    have hs : Plain s.toBytes := by cases s <;> decide
    have hc : Plain c.toBytes := by cases c <;> decide
    have hr : Plain r.toBytes := by cases r <;> decide
    have hg : Plain ev.grade.toBytes := by cases ev.grade <;> decide
    have ha : Plain ev.authority.toBytes := by cases ev.authority <;> decide
    simp only [JournalEntry.fields, stateFields, List.forall_mem_cons, plain_escapeField,
      plain_decimal, hs, hc, hr, hg, ha, List.not_mem_nil, false_imp_iff, implies_true, and_true]
    decide
  | tokens id p c =>
    simp only [JournalEntry.fields, tokenFields, List.forall_mem_cons, plain_escapeField,
      List.not_mem_nil, false_imp_iff, implies_true, and_true]
    decide

theorem parseJob_written (r : JobRecord) (bytes : Bytes) (more : List Bytes) :
    parseJob (escapeField r.id :: escapeField r.key :: escapeField r.printerId ::
      decimal r.createdUnixMs.toNat :: decimal r.attempt.toNat :: r.payloadKind.toBytes ::
      bytes :: more) =
    (parseUint bytes).map fun b => .job
      { r.creation with
        payloadBytes := b, printToken := (parseJobTokens more).1
        cutToken := (parseJobTokens more).2 } := by
  cases h : parseUint bytes <;> simp [parseJob, h, parseUint_decimal, JobRecord.creation]

theorem parseState_written (id : Bytes) (s : JobState) (c : ConfidenceLevel) (r : FailureReason)
    (atMs : Bytes) (more : List Bytes) :
    parseState (escapeField id :: s.toBytes :: c.toBytes :: r.toBytes :: atMs :: more) =
      (parseUint atMs).map fun a => .state id s c r a (parseEvidence s c more) := by
  cases h : parseUint atMs <;> simp [parseState, h]

theorem parseFields_fields (e : JournalEntry) : parseFields e.fields = some e.readBack := by
  cases e with
  | job r =>
    rw [JournalEntry.fields, jobFields, parseFields, if_pos rfl, parseJob_written,
      parseUint_decimal]
    simp [parseJobTokens, JournalEntry.readBack, JobRecord.creation]
  | state id s c r atMs ev =>
    rw [JournalEntry.fields, stateFields, parseFields, if_neg (by decide), if_neg (by decide),
      if_pos rfl, parseState_written, parseUint_decimal]
    simp [parseEvidence, JournalEntry.readBack]
  | tokens id p c =>
    rw [JournalEntry.fields, tokenFields, parseFields, if_neg (by decide), if_pos rfl]
    simp [parseTokens, JournalEntry.readBack]

theorem fields_ne_nil (e : JournalEntry) : e.fields ≠ [] := by
  cases e <;> exact List.cons_ne_nil _ _

theorem splitTabs_joinTabs {fields : List Bytes} (h : fields ≠ []) (hp : ∀ f ∈ fields, Plain f) :
    splitTabs (joinTabs fields) = fields :=
  List.splitOn_intercalate tab (fun f hf => (hp f hf).1) h

/-- The first byte of a line is its kind. -/
theorem head_line (e : JournalEntry) :
    ∃ kind rest, e.line = kind :: tab :: rest ∧ kind ≠ hash ∧ kind ≠ tab := by
  cases e with
  | job r => exact ⟨kJobPrefix, _, rfl, by decide, by decide⟩
  | state id s c r atMs ev => exact ⟨kStatePrefix, _, rfl, by decide, by decide⟩
  | tokens id p c => exact ⟨kTokenPrefix, _, rfl, by decide, by decide⟩

/-- **A line that was written reads back.** -/
theorem parseLine_line (e : JournalEntry) : parseLine e.line = some e.readBack := by
  obtain ⟨kind, rest, h, hh, -⟩ := head_line e
  rw [parseLine, if_neg (by simp [h, hh]), JournalEntry.line,
    splitTabs_joinTabs (fields_ne_nil e) (plain_fields e), parseFields_fields]

/-! ### Torn lines -/

/-- What a torn line may be taken for: the same kind of entry about the same job. The fields behind
the payload kind, the print token or the reason may be cut short or missing. -/
def CutShort : JournalEntry → JournalEntry → Prop
  | .job r, .job t =>
    t = { r.creation with
      payloadBytes := t.payloadBytes, printToken := t.printToken, cutToken := t.cutToken }
  | .state id s c r _ ev, .state id' s' c' r' _ ev' =>
    id' = id ∧ s' = s ∧ c' = c ∧ r' = r ∧
      (ev'.grade = ev.grade ∧ ev'.authority = ev.authority ∨ ev' = legacyEvidence s c {})
  | .tokens id p _, .tokens id' p' _ => id' = id ∧ p' = p
  | _, _ => False

/-- The fields of a torn line: whole ones, then a part of the next. -/
theorem splitTabs_torn (e : JournalEntry) {q : Bytes} (h : q <+: e.line) :
    ∃ ws f rest r, e.fields = ws ++ f :: rest ∧ r <+: f ∧ splitTabs q = ws ++ [r] := by
  obtain ⟨ws, f, rest, r, he, hr, rfl⟩ := prefix_intercalate (fields_ne_nil e) h
  have hws : ∀ w ∈ ws, tab ∉ w := fun w hw => (plain_fields e w (by simp [he, hw])).1
  have hf : tab ∉ r := ((plain_fields e f (by simp [he])).of_initial hr).1
  exact ⟨ws, f, rest, r, he, hr, by
    rw [splitTabs, splitOn_terminated_append hws, List.splitOn_eq_singleton hf]⟩

/-- How many whole fields there are decides what a torn line still says. -/
theorem eq_take_of_eq_append {fs ws rest : List Bytes} {f : Bytes} (h : fs = ws ++ f :: rest) :
    ∃ k, k < fs.length ∧ ws = fs.take k :=
  ⟨ws.length, by simp [h], by simp [h]⟩

theorem take_append_singleton (fs : List Bytes) {m k : ℕ} (h : m ≤ k) (q : Bytes) :
    ∃ b more, fs.take k ++ [q] = fs.take m ++ b :: more := by
  obtain ⟨b, more, hb⟩ := List.exists_cons_of_ne_nil
    (List.append_ne_nil_of_right_ne_nil ((fs.take k).drop m) (List.cons_ne_nil q []))
  have htake : (fs.take k).take m = fs.take m := by rw [List.take_take, min_eq_left h]
  exact ⟨b, more, by rw [← hb, ← List.append_assoc, ← htake, List.take_append_drop]⟩

theorem parseFields_singleton (q : Bytes) : parseFields [q] = none := by
  unfold parseFields
  split
  · rename_i heq
    cases List.tail_eq_of_cons_eq heq
    split_ifs <;> rfl
  · rfl

theorem parseJob_short {fs : List Bytes} (h : fs.length < 7) : parseJob fs = none := by
  unfold parseJob
  split
  · simp only [List.length_cons] at h
    omega
  · rfl

theorem parseTokens_short {fs : List Bytes} (h : fs.length < 3) : parseTokens fs = none := by
  unfold parseTokens
  split
  · simp only [List.length_cons] at h
    omega
  · rfl

theorem parseState_short {fs : List Bytes} (h : fs.length < 5) : parseState fs = none := by
  unfold parseState
  split
  · simp only [List.length_cons] at h
    omega
  · rfl

theorem cutShort_job {r : JobRecord} {k : ℕ} {q : Bytes} {t : JournalEntry}
    (h : parseFields ((jobFields r).take k ++ [q]) = some t) : CutShort (.job r) t := by
  rcases Nat.lt_or_ge k 7 with hk | hk
  · cases k with
    | zero => rw [List.take_zero, List.nil_append, parseFields_singleton] at h; cases h
    | succ k =>
      rw [jobFields, List.take_succ_cons, List.cons_append, parseFields, if_pos rfl,
        parseJob_short (by simp; omega)] at h
      cases h
  · obtain ⟨bytes, more, hb⟩ := take_append_singleton (jobFields r) hk q
    rw [hb] at h
    change parseFields ([kJobPrefix] :: _) = _ at h
    rw [parseFields, if_pos rfl] at h
    obtain ⟨b, -, rfl⟩ := Option.map_eq_some_iff.mp ((parseJob_written r bytes more).symm.trans h)
    rfl

theorem cutShort_tokens {id p c : Bytes} {k : ℕ} {q : Bytes} {t : JournalEntry}
    (h : parseFields ((tokenFields id p c).take k ++ [q]) = some t) :
    CutShort (.tokens id p c) t := by
  rcases Nat.lt_or_ge k 3 with hk | hk
  · cases k with
    | zero => rw [List.take_zero, List.nil_append, parseFields_singleton] at h; cases h
    | succ k =>
      rw [tokenFields, List.take_succ_cons, List.cons_append, parseFields, if_neg (by decide),
        if_pos rfl, parseTokens_short (by simp; omega)] at h
      cases h
  · obtain ⟨cut, more, hb⟩ := take_append_singleton (tokenFields id p c) hk q
    rw [hb] at h
    change parseFields ([kTokenPrefix] :: _) = _ at h
    rw [parseFields, if_neg (by decide), if_pos rfl] at h
    obtain rfl := Option.some.inj h
    exact ⟨unescapeField_escapeField id, unescapeField_escapeField p⟩

/-- Evidence is complete once the field of its authority is, and else it is derived. -/
theorem parseEvidence_torn (s : JobState) (c : ConfidenceLevel) (ev : JobEvidence) (k : ℕ)
    (q : Bytes) :
    (parseEvidence s c ([ev.grade.toBytes, ev.authority.toBytes,
        escapeField ev.method].take k ++ [q])).grade = ev.grade ∧
      (parseEvidence s c ([ev.grade.toBytes, ev.authority.toBytes,
        escapeField ev.method].take k ++ [q])).authority = ev.authority ∨
      parseEvidence s c ([ev.grade.toBytes, ev.authority.toBytes,
        escapeField ev.method].take k ++ [q]) = legacyEvidence s c {} := by
  match k with
  | 0 => exact .inr rfl
  | 1 => exact .inr rfl
  | k + 2 =>
    obtain ⟨method, more, hb⟩ := List.exists_cons_of_ne_nil
      (List.append_ne_nil_of_right_ne_nil ([escapeField ev.method].take k) (List.cons_ne_nil q []))
    simp only [List.take_succ_cons, List.cons_append, hb]
    exact .inl (by simp [parseEvidence])

theorem cutShort_state {id : Bytes} {s : JobState} {c : ConfidenceLevel} {r : FailureReason}
    {atMs : UInt64} {ev : JobEvidence} {k : ℕ} {q : Bytes} {t : JournalEntry}
    (h : parseFields ((stateFields id s c r atMs ev).take k ++ [q]) = some t) :
    CutShort (.state id s c r atMs ev) t := by
  have split : ∀ (atMs : Bytes) (more : List Bytes),
      parseFields ([kStatePrefix] :: escapeField id :: s.toBytes :: c.toBytes :: r.toBytes ::
        atMs :: more) = some t →
      ∃ a, t = .state id s c r a (parseEvidence s c more) := by
    intro atMs more h
    rw [parseFields, if_neg (by decide), if_neg (by decide), if_pos rfl, parseState_written] at h
    obtain ⟨a, -, rfl⟩ := Option.map_eq_some_iff.mp h
    exact ⟨a, rfl⟩
  match k with
  | 0 => rw [List.take_zero, List.nil_append, parseFields_singleton] at h; cases h
  | 1 | 2 | 3 | 4 =>
    rw [stateFields, List.take_succ_cons, List.cons_append, parseFields, if_neg (by decide),
      if_neg (by decide), if_pos rfl, parseState_short (by simp)] at h
    cases h
  | 5 =>
    obtain ⟨a, rfl⟩ := split q [] h
    exact ⟨rfl, rfl, rfl, rfl, .inr rfl⟩
  | k + 6 =>
    obtain ⟨a, rfl⟩ := split (decimal atMs.toNat) _ h
    exact ⟨rfl, rfl, rfl, rfl, parseEvidence_torn s c ev k q⟩

/-- **A torn line says nothing, or part of what the whole line says.** -/
theorem parseLine_torn (e : JournalEntry) {q : Bytes} (h : q <+: e.line) {t : JournalEntry}
    (ht : parseLine q = some t) : CutShort e t := by
  obtain ⟨ws, f, rest, r, he, -, hs⟩ := splitTabs_torn e h
  obtain ⟨k, -, rfl⟩ := eq_take_of_eq_append he
  unfold parseLine at ht
  split_ifs at ht
  rw [hs] at ht
  cases e with
  | job r => exact cutShort_job ht
  | state id s c r atMs ev => exact cutShort_state ht
  | tokens id p c => exact cutShort_tokens ht

/-! ### The journal as a whole -/

/-- The lines of some entries, each ended. -/
def text (es : List JournalEntry) : Bytes := terminated newline (es.map JournalEntry.line)

@[simp]
theorem text_nil : text [] = [] := rfl

theorem text_cons (e : JournalEntry) (es : List JournalEntry) :
    text (e :: es) = e.line ++ newline :: text es := by
  simp [text]

theorem text_append (es fs : List JournalEntry) : text (es ++ fs) = text es ++ text fs := by
  simp [text]

theorem not_mem_line {b : UInt8} {e : JournalEntry} (hb : b ≠ tab) (h : ∀ f ∈ e.fields, b ∉ f) :
    b ∉ e.line := fun hm =>
  (mem_intercalate hm).elim hb fun ⟨f, hf, hm⟩ => h f hf hm

theorem newline_notMem_line (e : JournalEntry) : newline ∉ e.line :=
  not_mem_line (by decide) fun f hf => (plain_fields e f hf).2.1

theorem return_notMem_line (e : JournalEntry) : carriageReturn ∉ e.line :=
  not_mem_line (by decide) fun f hf => (plain_fields e f hf).2.2

theorem stripReturn_of_notMem {line : Bytes} (h : carriageReturn ∉ line) :
    stripReturn line = line :=
  if_neg fun hl => h (List.mem_of_getLast? hl)

/-- Whole lines are read one by one, whatever follows them. -/
theorem readJournal_text_append (es : List JournalEntry) (rest : Bytes) :
    readJournal (text es ++ rest) = es.map JournalEntry.readBack ++ readJournal rest := by
  have hes : ∀ l ∈ es.map JournalEntry.line, newline ∉ l := by
    simp only [List.mem_map, forall_exists_index, and_imp, forall_apply_eq_imp_iff₂]
    exact fun e _ => newline_notMem_line e
  have hread : ∀ e : JournalEntry, parseLine (stripReturn e.line) = some e.readBack := fun e => by
    rw [stripReturn_of_notMem (return_notMem_line e), parseLine_line]
  rw [readJournal, text, splitOn_terminated_append hes, List.filterMap_append, List.filterMap_map]
  refine congrArg₂ _ ?_ rfl
  rw [← List.filterMap_eq_map]
  exact List.filterMap_congr fun e _ => hread e

theorem readJournal_nil : readJournal [] = [] := rfl

/-- **A journal reads back.** -/
theorem readJournal_text (es : List JournalEntry) :
    readJournal (text es) = es.map JournalEntry.readBack := by
  simpa [readJournal_nil] using readJournal_text_append es []

/-- The text behind the last whole line says at most one entry. -/
theorem readJournal_of_notMem {q : Bytes} (hn : newline ∉ q) (hr : carriageReturn ∉ q) :
    readJournal q = (parseLine q).toList := by
  rw [readJournal, List.splitOn_eq_singleton hn, List.filterMap_cons, stripReturn_of_notMem hr]
  cases parseLine q <;> rfl

/-- What follows a newline is read on its own. -/
theorem readJournal_append_cons (front rest : Bytes) :
    readJournal (front ++ newline :: rest) = readJournal front ++ readJournal rest := by
  rw [readJournal, List.splitOn_append_cons_self, List.filterMap_append]
  rfl

/-- The header is a comment. -/
theorem readJournal_header (rest : Bytes) :
    readJournal (kHeader ++ newline :: rest) = readJournal rest := by
  rw [readJournal_append_cons]
  rfl

/-- What is read of a part of a line. -/
theorem readJournal_torn {e : JournalEntry} {torn : Bytes} (h : torn <+: e.line) :
    readJournal torn = (parseLine torn).toList :=
  readJournal_of_notMem (fun hm => newline_notMem_line e (h.subset hm))
    fun hm => return_notMem_line e (h.subset hm)

/-- A text cut anywhere: within its first line, or behind it. -/
theorem prefix_text_cons {e : JournalEntry} {es : List JournalEntry} {q : Bytes}
    (h : q <+: text (e :: es)) :
    q <+: e.line ∨ ∃ q', q' <+: text es ∧ readJournal q = e.readBack :: readJournal q' := by
  rw [text_cons] at h
  rcases prefix_append_cases h with hq | ⟨r, rfl, hr⟩
  · exact .inl hq
  · rcases List.prefix_cons_iff.mp hr with rfl | ⟨q', rfl, hq⟩
    · exact .inl (by simp)
    · refine .inr ⟨q', hq, ?_⟩
      rw [← List.singleton_append, ← List.append_assoc, ← show text [e] = e.line ++ [newline] by
        simp [text], readJournal_text_append]
      rfl

/-- **A text cut anywhere**: whole lines, and a torn one, which says nothing or part of what its
line says. -/
theorem prefix_text {es : List JournalEntry} {q : Bytes} (h : q <+: text es) :
    ∃ ws rest torn, es = ws ++ rest ∧ q = text ws ++ torn ∧
      newline ∉ torn ∧ carriageReturn ∉ torn ∧
      ∀ t, parseLine torn = some t → ∃ e rest', rest = e :: rest' ∧ CutShort e t := by
  obtain ⟨ls, ms, torn, he, rfl, ht⟩ := prefix_terminated h
  obtain ⟨ws, rest, rfl, rfl, rfl⟩ := List.map_eq_append_iff.mp he
  rcases ht with rfl | ⟨l, ls, hl, ht⟩
  · exact ⟨ws, rest, [], rfl, rfl, List.not_mem_nil, List.not_mem_nil, fun t ht => by cases ht⟩
  · obtain ⟨e, rest', rfl, rfl, -⟩ := List.map_eq_cons_iff.mp hl
    have hn : newline ∉ torn := fun hm => newline_notMem_line e (ht.subset hm)
    have hr : carriageReturn ∉ torn := fun hm => return_notMem_line e (ht.subset hm)
    exact ⟨ws, e :: rest', torn, rfl, rfl, hn, hr,
      fun t h => ⟨e, rest', rfl, parseLine_torn e ht h⟩⟩

/-! ### The codec -/

/-- A line is read as it was written wherever it stands in a file. -/
theorem readJournal_line (front rest : Bytes) (e : JournalEntry) :
    readJournal (front ++ newline :: (e.line ++ newline :: rest)) =
      readJournal front ++ e.readBack :: readJournal rest := by
  have hone : readJournal e.line = [e.readBack] := by
    rw [readJournal_of_notMem (newline_notMem_line e) (return_notMem_line e), parseLine_line]
    rfl
  rw [readJournal_append_cons, readJournal_append_cons, hone, List.singleton_append]

/-- **The line codec.** Every line reads back as the fields it was written from, alone and in a file;
it holds no newline and no carriage return, and its tabs stand between its fields. -/
theorem lines_codec :
    (∀ r, parseLine (jobLine r) = some (.job r.creation)) ∧
    (∀ id state confidence reason atMs evidence,
      parseLine (stateLine id state confidence reason atMs evidence) =
        some (.state id state confidence reason atMs evidence)) ∧
    (∀ id printToken cutToken, parseLine (tokenLine id printToken cutToken) =
      some (.tokens id printToken cutToken)) ∧
    ∀ e : JournalEntry,
      (∀ front rest, readJournal (front ++ newline :: (e.line ++ newline :: rest)) =
        readJournal front ++ e.readBack :: readJournal rest) ∧
      newline ∉ e.line ∧ carriageReturn ∉ e.line ∧
      splitTabs e.line = e.fields ∧ (∀ f ∈ e.fields, tab ∉ f) ∧
      e.line.count tab + 1 = e.fields.length := by
  refine ⟨fun r => parseLine_line (.job r), fun _ _ _ _ _ _ => parseLine_line (.state ..),
    fun _ _ _ => parseLine_line (.tokens ..), fun e => ⟨fun front rest => readJournal_line front rest e,
      newline_notMem_line e, return_notMem_line e, ?_, fun f hf => (plain_fields e f hf).1, ?_⟩⟩
  · exact splitTabs_joinTabs (fields_ne_nil e) (plain_fields e)
  · exact count_intercalate (fields_ne_nil e) fun f hf => (plain_fields e f hf).1

end PrinterDriver.Core.Journal
