import PrinterDriver.Core.Journal
import PrinterDriver.Core.Probe
import PrinterDriver.Epos.Xml
import PrinterDriver.Lib.Keyed

/-! # Stored findings

A `FindingsStore` keeps what probes found, one record a line, its fields separated by tabs and each with
its name. A record has the key of the identity that the printer reported; a new one replaces the record
with its key, and is looked for by its key or by its endpoint. -/

namespace PrinterDriver.Core.StoredFindings

open PrinterDriver.Core.Types PrinterDriver.Core.Profile PrinterDriver.Core.Probe
open PrinterDriver.Core.Journal (tab newline splitTabs joinTabs parseEnum decimal decimal_ne_nil
  decimal_of_lt decimal_of_le)
open PrinterDriver.Epos.Xml (digitValue isCSpace leadingDigits strtoull takeSign)
open PrinterDriver.Lib

variable {F : Type}

/-! ### Identity keys -/

def isAlnum (c : UInt8) : Bool := (48 ≤ c && c ≤ 57) || (65 ≤ c && c ≤ 90) || (97 ≤ c && c ≤ 122)

def underscore : UInt8 := 95

/-- A letter or digit in lower case, an underscore for anything else. -/
def keyByte (c : UInt8) : UInt8 :=
  if isAlnum c then (if 65 ≤ c && c ≤ 90 then c + 32 else c) else underscore

def appendPart (key part : Bytes) : Bytes :=
  if part = [] then key else (if key = [] then [] else key ++ str "-") ++ part.map keyByte

/-- Model, firmware and serial number; the endpoint when none was reported. -/
def identityKey (reported : GsIStrings) (endpoint : Bytes) : Bytes :=
  let key := appendPart (appendPart (appendPart [] reported.model) reported.firmware) reported.serial
  if key = [] then
    if appendPart key endpoint = [] then str "unidentified"
    else str "endpoint-" ++ appendPart key endpoint
  else key

/-! ### Records -/

/-- The findings with where and when they were made, and the key they are stored under. -/
structure Findings (F : Type) where
  key : Bytes := []
  endpoint : Bytes := []
  recordedUnixMs : UInt64 := 0
  found : CapabilityFindings F := {}

/-- The run of the probe to its end, or to the write that failed. -/
def lastRun (o : ProbeOptions F) (t : Transcript) : Run F :=
  o.customSteps.zipIdx.foldl (askCustom t) (Query.all.foldl (ask o t) (begun t))

/-- What `run` returns: only a probe that came to its end has a key. -/
def probed (endpoint : Bytes) (now : UInt64) (o : ProbeOptions F) (t : Transcript) : Findings F where
  key := if (lastRun o t).live then identityKey (run o t).reported endpoint else []
  endpoint := endpoint
  recordedUnixMs := now
  found := run o t

inductive Flag where
  | dleEot | dleEot1 | dleEot2 | dleEot3 | dleEot4 | gsR1 | gsH | asb | gsI | cutterStatus
  deriving DecidableEq, Repr

def flag (f : CapabilityFindings F) : Flag → Option Bool
  | .dleEot => f.dleEot
  | .dleEot1 => f.dleEot1
  | .dleEot2 => f.dleEot2
  | .dleEot3 => f.dleEot3
  | .dleEot4 => f.dleEot4
  | .gsR1 => f.gsR1
  | .gsH => f.gsHProcessId
  | .asb => f.asb
  | .gsI => f.gsI
  | .cutterStatus => f.cutterErrorStatus

def setFlag (f : CapabilityFindings F) (v : Option Bool) : Flag → CapabilityFindings F
  | .dleEot => { f with dleEot := v }
  | .dleEot1 => { f with dleEot1 := v }
  | .dleEot2 => { f with dleEot2 := v }
  | .dleEot3 => { f with dleEot3 := v }
  | .dleEot4 => { f with dleEot4 := v }
  | .gsR1 => { f with gsR1 := v }
  | .gsH => { f with gsHProcessId := v }
  | .asb => { f with asb := v }
  | .gsI => { f with gsI := v }
  | .cutterStatus => { f with cutterErrorStatus := v }

def text (s : GsIStrings) : TextField → Bytes
  | .manufacturer => s.manufacturer
  | .model => s.model
  | .firmware => s.firmware
  | .serial => s.serial

def byte (s : GsIStrings) : ByteField → Option UInt8
  | .modelId => s.modelId
  | .typeId => s.typeId
  | .romVersion => s.romVersion

/-- A field of a record. -/
inductive Field where
  | key | endpoint | recordedAt
  | flag (k : Flag)
  | completion
  | text (field : TextField)
  | byte (field : ByteField)
  | unclassified
  deriving DecidableEq, Repr

def Field.name : Field → Bytes
  | .key => str "key"
  | .endpoint => str "endpoint"
  | .recordedAt => str "at"
  | .flag .dleEot => str "dle_eot"
  | .flag .dleEot1 => str "dle_eot_1"
  | .flag .dleEot2 => str "dle_eot_2"
  | .flag .dleEot3 => str "dle_eot_3"
  | .flag .dleEot4 => str "dle_eot_4"
  | .flag .gsR1 => str "gs_r1"
  | .flag .gsH => str "gs_h"
  | .flag .asb => str "asb"
  | .flag .gsI => str "gs_i"
  | .flag .cutterStatus => str "cutter_status"
  | .completion => str "completion"
  | .text .manufacturer => str "maker"
  | .text .model => str "model"
  | .text .firmware => str "firmware"
  | .text .serial => str "serial"
  | .byte .modelId => str "model_id"
  | .byte .typeId => str "type_id"
  | .byte .romVersion => str "rom_id"
  | .unclassified => str "unclassified"

def kFields : List Field :=
  [.key, .endpoint, .recordedAt, .flag .dleEot, .flag .dleEot1, .flag .dleEot2, .flag .dleEot3,
    .flag .dleEot4, .flag .gsR1, .flag .gsH, .flag .asb, .flag .gsI, .flag .cutterStatus,
    .completion, .text .manufacturer, .text .model, .text .firmware, .text .serial,
    .byte .modelId, .byte .typeId, .byte .romVersion, .unclassified]

/-! ### Values -/

def equalsSign : UInt8 := 61

/-- Nothing that could break the format is kept. -/
def sanitizeByte (c : UInt8) : UInt8 :=
  if c < 0x20 ∨ c = 0x7F ∨ c = tab ∨ c = equalsSign then underscore else c

def sanitize (value : Bytes) : Bytes := value.map sanitizeByte

def hexDigit (n : UInt8) : UInt8 := if n < 10 then 48 + n else 55 + n

def hexOf (bytes : Bytes) : Bytes :=
  bytes.flatMap fun (b : UInt8) => [hexDigit (b >>> 4), hexDigit (b &&& 0x0F)]

def hexValue (c : UInt8) : Option UInt8 :=
  if 48 ≤ c ∧ c ≤ 57 then some (c - 48)
  else if 65 ≤ c ∧ c ≤ 70 then some (c - 65 + 10)
  else if 97 ≤ c ∧ c ≤ 102 then some (c - 97 + 10)
  else none

/-- Two digits a byte, up to the first that is none. -/
def unhex : Bytes → Bytes
  | c :: d :: rest =>
    match hexValue c, hexValue d with
    | some high, some low => (high <<< 4 ||| low) :: unhex rest
    | _, _ => []
  | _ => []

def mechanismName : CompletionMechanism → Bytes
  | .gsParenH => str "GsParenH"
  | .gsR1 => str "GsR1"
  | .vendorIdle => str "VendorIdle"
  | .eposJobId => str "EposJobId"
  | .starCheckedBlock => str "StarCheckedBlock"
  | .none => str "None"
  | .starEtb => str "StarEtb"
  | .starEscGsEtx => str "StarEscGsEtx"

/-- The names that are read back; the fences of the Star engine are not among them. -/
def kStoredMechanisms : List CompletionMechanism :=
  [.gsParenH, .gsR1, .vendorIdle, .eposJobId, .starCheckedBlock, .none]

def mechanismFromName (name : Bytes) : Option CompletionMechanism :=
  parseEnum mechanismName kStoredMechanisms name

/-! ### Lines -/

abbrev Entry : Type := Field × Bytes

def flagEntry (k : Flag) (value : Option Bool) : List Entry :=
  value.toList.map fun b => (.flag k, if b then str "1" else str "0")

def textEntry (field : Field) (value : Bytes) : List Entry :=
  if value = [] then [] else [(field, sanitize value)]

def byteEntry (field : ByteField) (value : Option UInt8) : List Entry :=
  value.toList.map fun b => (.byte field, decimal b.toNat)

def entries (f : Findings F) : List Entry :=
  [(.key, sanitize f.key)] ++ textEntry .endpoint f.endpoint ++
    [(.recordedAt, decimal f.recordedUnixMs.toNat)] ++ flagEntry .dleEot f.found.dleEot ++
    flagEntry .dleEot1 f.found.dleEot1 ++ flagEntry .dleEot2 f.found.dleEot2 ++
    flagEntry .dleEot3 f.found.dleEot3 ++ flagEntry .dleEot4 f.found.dleEot4 ++
    flagEntry .gsR1 f.found.gsR1 ++ flagEntry .gsH f.found.gsHProcessId ++
    flagEntry .asb f.found.asb ++ flagEntry .gsI f.found.gsI ++
    flagEntry .cutterStatus f.found.cutterErrorStatus ++
    (f.found.completion.toList.map fun m => (.completion, mechanismName m)) ++
    textEntry (.text .manufacturer) f.found.reported.manufacturer ++
    textEntry (.text .model) f.found.reported.model ++
    textEntry (.text .firmware) f.found.reported.firmware ++
    textEntry (.text .serial) f.found.reported.serial ++
    byteEntry .modelId f.found.reported.modelId ++ byteEntry .typeId f.found.reported.typeId ++
    byteEntry .romVersion f.found.reported.romVersion ++
    if f.found.unclassified = [] then [] else [(.unclassified, hexOf f.found.unclassified)]

def entryText (e : Entry) : Bytes := e.1.name ++ equalsSign :: e.2

/-- What a registered step found is not stored. -/
def serializeFindings (f : Findings F) : Bytes := joinTabs ((entries f).map entryText)

def setField (f : Findings F) (value : Bytes) : Field → Findings F
  | .key => { f with key := value }
  | .endpoint => { f with endpoint := value }
  | .recordedAt => { f with recordedUnixMs := UInt64.ofNat (strtoull 10 value) }
  | .flag k => { f with found := setFlag f.found (some (value = str "1")) k }
  | .completion => { f with found := { f.found with completion := mechanismFromName value } }
  | .text field =>
    { f with found := { f.found with reported := f.found.reported.setText value field } }
  | .byte field =>
    { f with
      found := { f.found with
        reported := f.found.reported.setByte (some (UInt8.ofNat (strtoull 10 value))) field } }
  | .unclassified => { f with found := { f.found with unclassified := unhex value } }

/-- The name and the value of a field; without an equals sign it has none, and a name that is not known
is passed over. -/
def parseEntry (field : Bytes) : Option Entry :=
  if equalsSign ∈ field then
    (parseEnum Field.name kFields (field.takeWhile (· ≠ equalsSign))).map fun name =>
      (name, (field.dropWhile (· ≠ equalsSign)).drop 1)
  else none

/-- A line without a key is no record. -/
def parseFindings (line : Bytes) : Option (Findings F) :=
  let es := (splitTabs line).filterMap parseEntry
  if es.any (·.1 = .key) then some (es.foldl (fun f e => setField f e.2 e.1) {}) else none

/-! ### The store -/

/-- The records, and what the file has. -/
structure FindingsStore (F : Type) where
  records : List (Findings F) := []
  file : Bytes := []

namespace FindingsStore

def fileText (records : List (Findings F)) : Bytes :=
  Delimited.terminated newline (records.map serializeFindings)

def load (file : Bytes) : List (Findings F) := (file.splitOn newline).filterMap parseFindings

/-- A store that is opened anew on the file. -/
def reload (s : FindingsStore F) : FindingsStore F := { s with records := load s.file }

def save (f : Findings F) (s : FindingsStore F) : FindingsStore F :=
  let records := Keyed.upsert Findings.key f s.records
  { records := records, file := fileText records }

def find (s : FindingsStore F) (key : Bytes) : Option (Findings F) :=
  if key = [] then none else s.records.find? fun r => decide (r.key = key)

def findByEndpoint (s : FindingsStore F) (endpoint : Bytes) : Option (Findings F) :=
  if endpoint = [] then none else s.records.find? fun r => decide (r.endpoint = endpoint)

def apply (s : FindingsStore F) : Keyed.Op (Findings F) → FindingsStore F
  | .put f => s.save f
  | .refresh => s.reload

/-- A history of saves and reloads, on a file that is not there yet. -/
def after (h : List (Keyed.Op (Findings F))) : FindingsStore F := h.foldl apply {}

end FindingsStore

/-! ### What reads back -/

theorem sanitizeByte_plain (c : UInt8) :
    sanitizeByte c ≠ tab ∧ sanitizeByte c ≠ newline ∧ sanitizeByte c ≠ equalsSign := by
  unfold sanitizeByte
  split_ifs with h
  · decide
  · simp only [not_or] at h
    refine ⟨h.2.2.1, ?_, h.2.2.2⟩
    rintro rfl
    exact h.1 (by decide)

@[simp]
theorem sanitizeByte_sanitizeByte (c : UInt8) : sanitizeByte (sanitizeByte c) = sanitizeByte c := by
  by_cases h : c < 0x20 ∨ c = 0x7F ∨ c = tab ∨ c = equalsSign
  · have hc : sanitizeByte c = underscore := if_pos h
    rw [hc]
    decide
  · have hc : sanitizeByte c = c := if_neg h
    rw [hc, hc]

@[simp]
theorem sanitize_sanitize (value : Bytes) : sanitize (sanitize value) = sanitize value := by
  simp [sanitize]

@[simp]
theorem sanitize_eq_nil {value : Bytes} : sanitize value = [] ↔ value = [] := List.map_eq_nil_iff

/-- A text that the store has no cause to change. -/
def Clean (value : Bytes) : Prop := ∀ c ∈ value, 0x20 ≤ c ∧ c ≠ 0x7F ∧ c ≠ equalsSign

instance (value : Bytes) : Decidable (Clean value) :=
  decidable_of_iff ((value.all fun c => 0x20 ≤ c && c ≠ 0x7F && c ≠ equalsSign) = true) (by
    simp [Clean, and_assoc])

theorem Clean.sanitize {value : Bytes} (h : Clean value) : sanitize value = value := by
  have hc : ∀ c ∈ value, sanitizeByte c = id c := by
    intro c hc
    obtain ⟨h1, h2, h3⟩ := h c hc
    refine if_neg ?_
    rintro (hl | rfl | rfl | rfl)
    · exact absurd h1 (UInt8.not_le.mpr hl)
    · exact h2 rfl
    · exact absurd h1 (by decide)
    · exact h3 rfl
  rw [StoredFindings.sanitize, List.map_congr_left hc, List.map_id]

/-! ### Numbers -/

theorem digitValue_ofNat {d : ℕ} (h : d < 10) : digitValue (UInt8.ofNat (48 + d)) = d := by
  interval_cases d <;> rfl

theorem takeWhile_decimal (n : ℕ) :
    (decimal n).takeWhile (fun c => digitValue c < 10) = decimal n := by
  rw [List.takeWhile_eq_self_iff]
  induction n using Nat.strongRecOn with
  | ind n ih =>
    rcases Nat.lt_or_ge n 10 with h | h
    · rw [decimal_of_lt h]
      intro c hc
      rw [List.mem_singleton.mp hc, digitValue_ofNat h]
      exact decide_eq_true h
    · have hd : n % 10 < 10 := Nat.mod_lt _ (by omega)
      rw [decimal_of_le h]
      intro c hc
      rcases List.mem_append.mp hc with hc | hc
      · exact ih _ (by omega) c hc
      · rw [List.mem_singleton.mp hc, digitValue_ofNat hd]
        exact decide_eq_true hd

theorem leadingDigits_decimal (n : ℕ) : leadingDigits 10 (decimal n) = n := by
  rw [leadingDigits, takeWhile_decimal]
  induction n using Nat.strongRecOn with
  | ind n ih =>
    rcases Nat.lt_or_ge n 10 with h | h
    · rw [decimal_of_lt h, List.foldl_cons, List.foldl_nil, digitValue_ofNat h]
      omega
    · have hd : n % 10 < 10 := Nat.mod_lt _ (by omega)
      rw [decimal_of_le h, List.foldl_append, ih _ (by omega), List.foldl_cons, List.foldl_nil,
        digitValue_ofNat hd]
      omega

theorem isDigit_of_digitValue {c : UInt8} (h : digitValue c < 10) : 48 ≤ c ∧ c ≤ 57 := by
  unfold digitValue at h
  split_ifs at h with h1
  · exact h1
  · omega
  · omega
  · omega

/-- A printed number begins with neither a blank nor a sign. -/
theorem takeSign_decimal (n : ℕ) :
    takeSign ((decimal n).dropWhile isCSpace) = (false, decimal n) := by
  obtain ⟨c, rest, hd⟩ := List.exists_cons_of_ne_nil (decimal_ne_nil n)
  have hc : digitValue c < 10 := by
    have htake := takeWhile_decimal n
    rw [hd, List.takeWhile_eq_self_iff] at htake
    exact of_decide_eq_true (htake c List.mem_cons_self)
  obtain ⟨hlo, hhi⟩ := isDigit_of_digitValue hc
  rw [UInt8.le_iff_toNat_le] at hlo hhi
  have hspace : isCSpace c = false := by
    simp only [isCSpace, Bool.or_eq_false_iff, Bool.and_eq_false_iff, decide_eq_false_iff_not,
      UInt8.le_iff_toNat_le]
    refine ⟨?_, .inr ?_⟩
    · rintro rfl
      exact absurd hlo (by decide)
    · change 48 ≤ c.toNat at hlo
      change ¬c.toNat ≤ 13
      omega
  rw [hd, List.dropWhile_cons_of_neg (by simp [hspace])]
  unfold takeSign
  split
  · rename_i h
    rw [(List.cons.inj h).1] at hlo
    exact absurd hlo (by decide)
  · rename_i h
    rw [(List.cons.inj h).1] at hlo
    exact absurd hlo (by decide)
  · rfl

theorem strtoull_decimal {n : ℕ} (h : n < 2 ^ 64) : strtoull 10 (decimal n) = n := by
  rw [strtoull, takeSign_decimal]
  dsimp only
  rw [if_neg (show ¬(10 : ℕ) = 16 by decide), leadingDigits_decimal, if_neg (by omega),
    if_neg (by decide)]

/-! ### Bytes in hexadecimal -/

theorem hexValue_hexDigit {n : UInt8} (h : n < 16) : hexValue (hexDigit n) = some n := by
  have hall : ∀ k < 16, hexValue (hexDigit (UInt8.ofNat k)) = some (UInt8.ofNat k) := by decide
  have hn := hall n.toNat (UInt8.lt_iff_toNat_lt.mp h)
  rwa [UInt8.ofNat_toNat] at hn

/-- A byte is its two halves. -/
theorem nibbles (b : UInt8) :
    b >>> 4 < 16 ∧ b &&& 0x0F < 16 ∧ (b >>> 4) <<< 4 ||| (b &&& 0x0F) = b := by
  have hall : ∀ k < 256, UInt8.ofNat k >>> 4 < 16 ∧ UInt8.ofNat k &&& 0x0F < 16 ∧
      (UInt8.ofNat k >>> 4) <<< 4 ||| (UInt8.ofNat k &&& 0x0F) = UInt8.ofNat k := by
    decide +kernel
  have hb := hall b.toNat b.toNat_lt
  rwa [UInt8.ofNat_toNat] at hb

theorem unhex_hexOf (bytes : Bytes) : unhex (hexOf bytes) = bytes := by
  induction bytes with
  | nil => rfl
  | cons b bytes ih =>
    obtain ⟨hhigh, hlow, hb⟩ := nibbles b
    show unhex (hexDigit (b >>> 4) :: hexDigit (b &&& 0x0F) :: hexOf bytes) = b :: bytes
    rw [unhex, hexValue_hexDigit hhigh, hexValue_hexDigit hlow]
    dsimp only
    rw [hb, ih]

/-! ### Entries -/

@[simp]
theorem parseEnum_field (field : Field) : parseEnum Field.name kFields field.name = some field := by
  rcases field with _ | _ | _ | k | _ | k | k | _
  case flag => cases k <;> rfl
  case text => cases k <;> rfl
  case byte => cases k <;> rfl
  all_goals rfl

theorem equalsSign_notMem_name (field : Field) : equalsSign ∉ field.name := by
  rcases field with _ | _ | _ | k | _ | k | k | _
  case flag => cases k <;> decide
  case text => cases k <;> decide
  case byte => cases k <;> decide
  all_goals decide

/-- A name, an equals sign and any value. -/
theorem parseEntry_entryText (e : Entry) : parseEntry (entryText e) = some e := by
  have hn : ∀ c ∈ e.1.name, decide (c ≠ equalsSign) = true := fun c hc =>
    decide_eq_true fun h => equalsSign_notMem_name e.1 (h ▸ hc)
  have hmem : equalsSign ∈ entryText e := by simp [entryText]
  rw [parseEntry, if_pos hmem, entryText, List.takeWhile_append_of_pos hn,
    List.dropWhile_append_of_pos hn]
  simp

/-- What the line of a record says. -/
def CapabilityFindings.readBack (f : CapabilityFindings F) : CapabilityFindings F :=
  { f with
    completion := f.completion.filter (· ∈ kStoredMechanisms)
    reported := { f.reported with
      manufacturer := sanitize f.reported.manufacturer
      model := sanitize f.reported.model
      firmware := sanitize f.reported.firmware
      serial := sanitize f.reported.serial }
    customProbe := [] }

def Findings.readBack (f : Findings F) : Findings F :=
  { f with
    key := sanitize f.key
    endpoint := sanitize f.endpoint
    found := CapabilityFindings.readBack f.found }

section

/-- The record with the fields set one after the other. -/
def read (es : List Entry) (g : Findings F) : Findings F :=
  es.foldl (fun f e => setField f e.2 e.1) g

theorem read_append (es es' : List Entry) (g : Findings F) :
    read (es ++ es') g = read es' (read es g) := List.foldl_append

theorem setFlag_flag (f : CapabilityFindings F) (k : Flag) : setFlag f (flag f k) k = f := by
  cases k <;> rfl

theorem setText_text (s : GsIStrings) (field : TextField) : s.setText (text s field) field = s := by
  cases field <;> rfl

theorem setByte_byte (s : GsIStrings) (field : ByteField) : s.setByte (byte s field) field = s := by
  cases field <;> rfl

theorem read_flag {k : Flag} {v : Option Bool} {g : Findings F} (h : flag g.found k = none) :
    read (flagEntry k v) g = { g with found := setFlag g.found v k } := by
  rcases v with _ | b
  · rw [← h, setFlag_flag, h]
    rfl
  · cases b <;> rfl

theorem read_endpoint {v : Bytes} {g : Findings F} (h : g.endpoint = []) :
    read (textEntry .endpoint v) g = { g with endpoint := sanitize v } := by
  by_cases hv : v = []
  · rw [textEntry, if_pos hv, hv, show sanitize [] = g.endpoint from h.symm]
    rfl
  · rw [textEntry, if_neg hv]
    rfl

theorem read_text {field : TextField} {v : Bytes} {g : Findings F}
    (h : text g.found.reported field = []) : read (textEntry (.text field) v) g =
      { g with found := { g.found with
          reported := g.found.reported.setText (sanitize v) field } } := by
  by_cases hv : v = []
  · rw [textEntry, if_pos hv, hv, show sanitize [] = text g.found.reported field from h.symm,
      setText_text]
    rfl
  · rw [textEntry, if_neg hv]
    rfl

theorem read_byte {field : ByteField} {v : Option UInt8} {g : Findings F}
    (h : byte g.found.reported field = none) : read (byteEntry field v) g =
      { g with found := { g.found with reported := g.found.reported.setByte v field } } := by
  rcases v with _ | b
  · rw [← h, setByte_byte, h]
    rfl
  · have hb : strtoull 10 (decimal b.toNat) = b.toNat :=
      strtoull_decimal (by have := b.toNat_lt; omega)
    show setField g (decimal b.toNat) (.byte field) = _
    unfold setField
    rw [hb, UInt8.ofNat_toNat]

theorem read_completion {m : Option CompletionMechanism} {g : Findings F}
    (h : g.found.completion = none) :
    read (m.toList.map fun m => (Field.completion, mechanismName m)) g =
      { g with found := { g.found with completion := m.filter (· ∈ kStoredMechanisms) } } := by
  rcases m with _ | m
  · rw [show Option.filter (· ∈ kStoredMechanisms) none = g.found.completion from h.symm]
    rfl
  · cases m <;> rfl

theorem read_unclassified {v : Bytes} {g : Findings F} (h : g.found.unclassified = []) :
    read (if v = [] then [] else [(Field.unclassified, hexOf v)]) g =
      { g with found := { g.found with unclassified := v } } := by
  by_cases hv : v = []
  · rw [if_pos hv, hv, ← h]
    rfl
  · rw [if_neg hv]
    show setField g (hexOf v) .unclassified = _
    unfold setField
    rw [unhex_hexOf]

theorem read_recordedAt (now : UInt64) (g : Findings F) :
    read [(.recordedAt, decimal now.toNat)] g = { g with recordedUnixMs := now } := by
  show setField g (decimal now.toNat) .recordedAt = _
  unfold setField
  rw [strtoull_decimal now.toNat_lt, UInt64.ofNat_toNat]

/-- **The entries of a record set its fields.** -/
theorem read_entries (f : Findings F) : read (entries f) {} = f.readBack := by
  unfold entries
  rw [read_append, read_append, read_append, read_append, read_append, read_append, read_append,
    read_append, read_append, read_append, read_append, read_append, read_append, read_append,
    read_append, read_append, read_append, read_append, read_append, read_append, read_append]
  rw [show read [(.key, sanitize f.key)] ({} : Findings F) = { key := sanitize f.key } from rfl,
    read_endpoint rfl, read_recordedAt, @read_flag F .dleEot _ _ rfl, @read_flag F .dleEot1 _ _ rfl,
    @read_flag F .dleEot2 _ _ rfl, @read_flag F .dleEot3 _ _ rfl, @read_flag F .dleEot4 _ _ rfl,
    @read_flag F .gsR1 _ _ rfl, @read_flag F .gsH _ _ rfl, @read_flag F .asb _ _ rfl,
    @read_flag F .gsI _ _ rfl, @read_flag F .cutterStatus _ _ rfl, read_completion rfl,
    @read_text F .manufacturer _ _ rfl, @read_text F .model _ _ rfl, @read_text F .firmware _ _ rfl,
    @read_text F .serial _ _ rfl, @read_byte F .modelId _ _ rfl, @read_byte F .typeId _ _ rfl,
    @read_byte F .romVersion _ _ rfl, read_unclassified rfl]
  simp only [setFlag, GsIStrings.setText, GsIStrings.setByte]
  rfl

end

/-! ### Lines -/

/-- No separator of the file. -/
def Plain (value : Bytes) : Prop := tab ∉ value ∧ newline ∉ value

instance (value : Bytes) : Decidable (Plain value) := by unfold Plain; infer_instance

theorem plain_sanitize (value : Bytes) : Plain (sanitize value) := by
  constructor
  · intro h
    obtain ⟨c, -, hc⟩ := List.mem_map.mp h
    exact (sanitizeByte_plain c).1 hc
  · intro h
    obtain ⟨c, -, hc⟩ := List.mem_map.mp h
    exact (sanitizeByte_plain c).2.1 hc

theorem plain_decimal (n : ℕ) : Plain (decimal n) :=
  ⟨(Journal.plain_decimal n).1, (Journal.plain_decimal n).2.1⟩

theorem plain_hexOf (bytes : Bytes) : Plain (hexOf bytes) := by
  have hdigit : ∀ k < 16, hexDigit (UInt8.ofNat k) ≠ tab ∧ hexDigit (UInt8.ofNat k) ≠ newline := by
    decide
  have hnibble : ∀ n : UInt8, n < 16 → hexDigit n ≠ tab ∧ hexDigit n ≠ newline := by
    intro n hn
    have h := hdigit n.toNat (UInt8.lt_iff_toNat_lt.mp hn)
    rwa [UInt8.ofNat_toNat] at h
  induction bytes with
  | nil => decide
  | cons b bytes ih =>
    obtain ⟨hhigh, hlow, -⟩ := nibbles b
    show Plain (hexDigit (b >>> 4) :: hexDigit (b &&& 0x0F) :: hexOf bytes)
    constructor
    · intro h
      rcases List.mem_cons.mp h with h | h
      · exact (hnibble _ hhigh).1 h.symm
      · rcases List.mem_cons.mp h with h | h
        · exact (hnibble _ hlow).1 h.symm
        · exact ih.1 h
    · intro h
      rcases List.mem_cons.mp h with h | h
      · exact (hnibble _ hhigh).2 h.symm
      · rcases List.mem_cons.mp h with h | h
        · exact (hnibble _ hlow).2 h.symm
        · exact ih.2 h

/-- Entries whose values have no separator. -/
def AllPlain (es : List Entry) : Prop := ∀ e ∈ es, Plain e.2

theorem AllPlain.append {es es' : List Entry} (h : AllPlain es) (h' : AllPlain es') :
    AllPlain (es ++ es') := List.forall_mem_append.mpr ⟨h, h'⟩

theorem allPlain_singleton {e : Entry} (h : Plain e.2) : AllPlain [e] := fun e' he' => by
  rw [List.mem_singleton.mp he']
  exact h

theorem allPlain_map {V : Type} {v : Option V} {enc : V → Entry} (h : ∀ b, Plain (enc b).2) :
    AllPlain (v.toList.map enc) := by
  intro e he
  obtain ⟨b, -, rfl⟩ := List.mem_map.mp he
  exact h b

theorem allPlain_flag (k : Flag) (v : Option Bool) : AllPlain (flagEntry k v) :=
  allPlain_map fun b => show Plain (if b then str "1" else str "0") by revert b; decide

theorem allPlain_byte (field : ByteField) (v : Option UInt8) : AllPlain (byteEntry field v) :=
  allPlain_map fun b => plain_decimal b.toNat

theorem allPlain_text (field : Field) (v : Bytes) : AllPlain (textEntry field v) := by
  unfold textEntry
  split_ifs
  · exact List.forall_mem_nil _
  · exact allPlain_singleton (plain_sanitize v)

theorem plain_mechanismName (m : CompletionMechanism) : Plain (mechanismName m) := by
  cases m <;> decide

theorem allPlain_entries (f : Findings F) : AllPlain (entries f) := by
  unfold entries
  refine .append (.append (.append (.append (.append (.append (.append (.append (.append (.append
    (.append (.append (.append (.append (.append (.append (.append (.append (.append (.append
    (.append (allPlain_singleton (plain_sanitize f.key)) (allPlain_text _ _))
    (allPlain_singleton (plain_decimal _))) (allPlain_flag _ _)) (allPlain_flag _ _))
    (allPlain_flag _ _)) (allPlain_flag _ _)) (allPlain_flag _ _)) (allPlain_flag _ _))
    (allPlain_flag _ _)) (allPlain_flag _ _)) (allPlain_flag _ _)) (allPlain_flag _ _))
    (allPlain_map plain_mechanismName)) (allPlain_text _ _)) (allPlain_text _ _))
    (allPlain_text _ _)) (allPlain_text _ _)) (allPlain_byte _ _)) (allPlain_byte _ _))
    (allPlain_byte _ _)) ?_
  split_ifs
  · exact List.forall_mem_nil _
  · exact allPlain_singleton (plain_hexOf _)

/-- The key comes first. -/
theorem entries_eq_cons (f : Findings F) :
    ∃ es, entries f = (.key, sanitize f.key) :: es := by
  unfold entries
  simp only [List.append_assoc]
  rw [List.singleton_append]
  exact ⟨_, rfl⟩

theorem plain_entryText {e : Entry} (h : Plain e.2) : Plain (entryText e) := by
  have hname : Plain e.1.name := by
    rcases e.1 with _ | _ | _ | k | _ | k | k | _
    case flag => cases k <;> decide
    case text => cases k <;> decide
    case byte => cases k <;> decide
    all_goals decide
  have htab : tab ≠ equalsSign := by decide
  have hnewline : newline ≠ equalsSign := by decide
  simp [Plain, entryText, hname.1, hname.2, h.1, h.2, htab, hnewline]

/-- **A record that was written reads back**, with its texts sanitised. -/
theorem parseFindings_serializeFindings (f : Findings F) :
    parseFindings (serializeFindings f) = some f.readBack := by
  obtain ⟨es, hes⟩ := entries_eq_cons f
  have hne : (entries f).map entryText ≠ [] := by simp [hes]
  have hsplit : splitTabs (serializeFindings f) = (entries f).map entryText := by
    refine List.splitOn_intercalate tab (fun l hl => ?_) hne
    obtain ⟨e, he, rfl⟩ := List.mem_map.mp hl
    exact (plain_entryText (allPlain_entries f e he)).1
  have hentries : ((entries f).map entryText).filterMap parseEntry = entries f := by
    rw [List.filterMap_map, show parseEntry ∘ entryText = some from funext parseEntry_entryText,
      List.filterMap_some]
  have hkey : ((entries f).any fun e => decide (e.1 = .key)) = true := by simp [hes]
  unfold parseFindings
  dsimp only
  rw [hsplit, hentries, if_pos hkey]
  exact congrArg some (read_entries f)

theorem newline_notMem_serializeFindings (f : Findings F) : newline ∉ serializeFindings f := by
  intro h
  rcases Delimited.mem_intercalate h with h | ⟨l, hl, h⟩
  · exact absurd h (by decide)
  · obtain ⟨e, he, rfl⟩ := List.mem_map.mp hl
    exact (plain_entryText (allPlain_entries f e he)).2 h

/-- **A file that was written loads.** -/
theorem load_fileText (records : List (Findings F)) :
    (FindingsStore.load (FindingsStore.fileText records) : List (Findings F)) =
      records.map Findings.readBack := by
  have hplain : ∀ l ∈ records.map serializeFindings, newline ∉ l := by
    intro l hl
    obtain ⟨r, -, rfl⟩ := List.mem_map.mp hl
    exact newline_notMem_serializeFindings r
  have hsplit := Delimited.splitOn_terminated_append hplain []
  rw [List.append_nil, List.splitOn_nil] at hsplit
  have hread : ∀ r ∈ records, (parseFindings ∘ serializeFindings) r =
      (some ∘ Findings.readBack) r := by
    intro r _
    rw [Function.comp_apply, Function.comp_apply, parseFindings_serializeFindings]
  have hempty : (parseFindings [] : Option (Findings F)) = none := rfl
  rw [FindingsStore.load, FindingsStore.fileText, hsplit, List.filterMap_append,
    List.filterMap_cons_none hempty, List.filterMap_nil, List.append_nil, List.filterMap_map,
    List.filterMap_congr hread, ← List.filterMap_map, List.filterMap_some]

end PrinterDriver.Core.StoredFindings
