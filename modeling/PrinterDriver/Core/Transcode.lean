import PrinterDriver.Core.CodePage
import PrinterDriver.Core.Encoder

/-! # From ESC/POS to Star Line Mode

A document holds ESC/POS bytes; for a Star printer its commands are turned into their Star
equivalents or dropped with a note. The reader checks before it reads, and a command that the
document cuts off is passed through. Every read is a checked one here: `none` would be a read
outside the document, which `transcode_isSome` excludes. -/

namespace PrinterDriver.Core.Transcode

open PrinterDriver.Core.Types PrinterDriver.Core.Encoder PrinterDriver.Core.CodePage

/-- What has been made of the document up to an index. -/
structure Transcoder where
  index : ℕ := 0
  out : StarEncoder := {}
  dropped : List Bytes := []
  unrecognisedBytes : ℕ := 0
  deriving DecidableEq, Repr

namespace Transcoder

def skip (t : Transcoder) (n : ℕ) : Transcoder := { t with index := t.index + n }

def raw (t : Transcoder) (bytes : Bytes) : Transcoder := { t with out := t.out.raw bytes }

/-- A note is made once. -/
def note (t : Transcoder) (what : Bytes) : Transcoder :=
  if what ∈ t.dropped then t else { t with dropped := t.dropped ++ [what] }

end Transcoder

/-- What becomes of a command. -/
inductive Reading where
  | done (t : Transcoder)
  /-- No command of this table. -/
  | other
  /-- A command that the document cuts off. -/
  | cutOff

/-- The document has `n` bytes from the index on. -/
def has (data : Bytes) (t : Transcoder) (n : ℕ) : Bool := t.index + n ≤ data.length

def le16 (low high : UInt8) : ℕ := low.toNat + high.toNat * 256

/-- The bytes from the index on. -/
def slice (data : Bytes) (index n : ℕ) : Option Bytes :=
  if index + n ≤ data.length then some ((data.drop index).take n) else none

/-- A command of three bytes. -/
def operand (data : Bytes) (t : Transcoder) (f : UInt8 → Transcoder) : Option Reading :=
  if has data t 3 then do
    let n ← data[t.index + 2]?
    return .done ((f n).skip 3)
  else some .other

/-- The commands that begin with `ESC`. -/
def escCommand (data : Bytes) (t : Transcoder) : Option Reading := do
  let second ← data[t.index + 1]?
  if second = 0x40 then
    let bytes ← slice data t.index 2
    return .done ((t.raw bytes).skip 2)
  else if second = 0x74 then
    operand data t fun _ =>
      t.note (str "code page selection (ESC t): Star text is transcoded as 7-bit ASCII")
  else if second = 0x61 then operand data t fun n => t.raw [0x1B, 0x1D, 0x61, n]
  else if second = 0x45 then operand data t fun n => t.raw [0x1B, if n ≠ 0 then 0x45 else 0x46]
  else if second = 0x2D then
    operand data t fun n => t.raw [0x1B, 0x2D, if n ≠ 0 then 0x01 else 0x00]
  else if second = 0x64 then operand data t fun n => t.raw [0x1B, 0x61, n]
  else if second = 0x4A then operand data t fun n => t.raw [0x1B, 0x4A, n]
  else if second = 0x70 then
    if has data t 5 then
      return .done ((t.note (str ("cash drawer kick (ESC p): Star's drawer command varies by " ++
        "model and interface and is not established here"))).skip 5)
    else return .other
  else return .other

/-- `GS V`. -/
def cutCommand (data : Bytes) (t : Transcoder) (mode : UInt8) : Reading :=
  let length := if mode = 65 ∨ mode = 66 then 4 else 3
  if !has data t length then .cutOff
  else
    let full := mode = 0 ∨ mode = 48 ∨ mode = 65
    .done ({ t with out := t.out.cut (if full then .full else .partialCut) }.skip length)

/-- `GS v 0`. -/
def rasterCommand (data : Bytes) (rasterLineMode : Bool) (t : Transcoder) : Option Reading :=
  if !has data t 8 then some .cutOff
  else do
    let xl ← data[t.index + 4]?
    let xh ← data[t.index + 5]?
    let yl ← data[t.index + 6]?
    let yh ← data[t.index + 7]?
    let bytesPerRow := le16 xl xh
    let rows := le16 yl yh
    let total := 8 + bytesPerRow * rows
    if !has data t total then return .cutOff
    else if rasterLineMode ∧ 0 < bytesPerRow ∧ 0 < rows then
      let image ← slice data (t.index + 8) (bytesPerRow * rows)
      return .done ({ t with
        out := t.out.rasterPacked ⟨bytesPerRow * 8, rows, bytesPerRow, image⟩ }.skip total)
    else
      return .done ((t.note (str ("raster image (GS v 0): declined because this profile does " ++
        "not enable Star raster line mode"))).skip total)

/-- `GS (`. -/
def extendedCommand (data : Bytes) (t : Transcoder) (third : UInt8) : Option Reading :=
  if !has data t 5 then some .other
  else do
    let pl ← data[t.index + 3]?
    let ph ← data[t.index + 4]?
    let total := 5 + le16 pl ph
    if !has data t total then return .cutOff
    else
      let what :=
        if third = 0x6B then
          str "QR code / 2D symbol (GS ( k): no Star symbol command is emitted by this engine"
        else if third = 0x48 then str "ESC/POS process-ID fence (GS ( H): Star uses its own"
        else str "unsupported GS ( command"
      return .done ((t.note what).skip total)

/-- The commands that begin with `GS`; each has at least three bytes. -/
def gsCommand (data : Bytes) (rasterLineMode : Bool) (t : Transcoder) : Option Reading := do
  let second ← data[t.index + 1]?
  if !has data t 3 then return .other
  else
    let third ← data[t.index + 2]?
    if second = 0x21 then
      return .done ((t.raw [0x1B, 0x69, third &&& 0x07, (third >>> 4) &&& 0x07]).skip 3)
    else if second = 0x56 then return cutCommand data t third
    else if second = 0x76 ∧ third = 0x30 then rasterCommand data rasterLineMode t
    else if second = 0x28 then extendedCommand data t third
    else if second = 0x72 then
      return .done ((t.note (str "ESC/POS queued status (GS r): Star uses its own fence")).skip 3)
    else if second = 0x61 then
      return .done ((t.note (str ("ESC/POS automatic status back (GS a): Star spells it " ++
        "ESC RS a and the job path issues it"))).skip 3)
    else return .other

/-- `DLE EOT`. -/
def dleCommand (data : Bytes) (t : Transcoder) : Option Reading := do
  let second ← data[t.index + 1]?
  if second = 0x04 then
    return .done ((t.note (str "ESC/POS realtime status (DLE EOT): not issued on Star")).skip 3)
  else return .other

/-- A byte that begins no command. -/
def plainByte (t : Transcoder) (first : UInt8) : Transcoder :=
  if first < 0x80 then (t.raw [first]).skip 1
  else
    let t := (t.raw [kUnmappedCodepointFallback]).note
      (str ("non-ASCII characters: the document's code page has no Star mapping here, so " ++
        "they print as '?'"))
    { t with unrecognisedBytes := t.unrecognisedBytes + 1 }.skip 1

/-- What stands at the index. -/
def command (data : Bytes) (rasterLineMode : Bool) (t : Transcoder) (first : UInt8) :
    Option Reading :=
  if first = 0x1B ∧ has data t 2 then escCommand data t
  else if first = 0x1D ∧ has data t 2 then gsCommand data rasterLineMode t
  else if first = 0x10 ∧ has data t 3 then dleCommand data t
  else some .other

/-- Command after command; the fuel is the number of bytes. -/
def transcodeFrom (data : Bytes) (rasterLineMode : Bool) : ℕ → Transcoder → Option Transcoder
  | 0, t => some t
  | fuel + 1, t =>
    if t.index < data.length then do
      let first ← data[t.index]?
      match ← command data rasterLineMode t first with
      | .done t => transcodeFrom data rasterLineMode fuel t
      | .other => transcodeFrom data rasterLineMode fuel (plainByte t first)
      | .cutOff => return t
    else some t

/-- What is left is a command that was cut off; it is passed through. -/
def passThrough (data : Bytes) (t : Transcoder) : Transcoder :=
  { t.raw (data.drop t.index) with
    index := max t.index data.length
    unrecognisedBytes := t.unrecognisedBytes + (data.length - t.index) }

def transcodeFromEscPos (data : Bytes) (rasterLineMode : Bool) : Option Transcoder :=
  (transcodeFrom data rasterLineMode data.length {}).map (passThrough data)

/-! ### Reads stay inside the document -/

section
variable {data : Bytes} {rasterLineMode : Bool} {t : Transcoder}

@[simp] theorem index_skip (t : Transcoder) (n : ℕ) : (t.skip n).index = t.index + n := rfl

@[simp] theorem index_raw (t : Transcoder) (bytes : Bytes) : (t.raw bytes).index = t.index := rfl

@[simp] theorem index_note (t : Transcoder) (what : Bytes) : (t.note what).index = t.index := by
  unfold Transcoder.note
  split_ifs <;> rfl

theorem read_of_has {n k : ℕ} (h : has data t n = true) (hk : k < n) :
    ∃ b, data[t.index + k]? = some b := by
  have hlen : t.index + n ≤ data.length := by simpa [has] using h
  exact ⟨_, List.getElem?_eq_getElem (by omega)⟩

theorem slice_of_has {index n m : ℕ} (h : has data t m = true) (hn : index + n = t.index + m) :
    ∃ bytes, slice data index n = some bytes := by
  have hlen : t.index + m ≤ data.length := by simpa [has] using h
  exact ⟨_, if_pos (by omega)⟩

/-- The command was read, and the transcoder is past it. -/
def Reads (t : Transcoder) (r : Option Reading) : Prop :=
  ∃ reading, r = some reading ∧ ∀ t', reading = .done t' → t.index < t'.index

theorem reads_done {t' : Transcoder} (h : t.index < t'.index) : Reads t (some (.done t')) :=
  ⟨_, rfl, fun _ he => Reading.done.inj he ▸ h⟩

theorem reads_other : Reads t (some .other) := ⟨_, rfl, fun _ he => nomatch he⟩

theorem reads_cutOff : Reads t (some .cutOff) := ⟨_, rfl, fun _ he => nomatch he⟩

theorem reads_operand {f : UInt8 → Transcoder} (hf : ∀ n, (f n).index = t.index) :
    Reads t (operand data t f) := by
  unfold operand
  split_ifs with h
  · obtain ⟨n, hn⟩ := read_of_has h (show 2 < 3 by omega)
    simp only [hn, Option.bind_eq_bind, Option.bind_some]
    exact reads_done (by simp [hf])
  · exact reads_other

theorem reads_escCommand (h : has data t 2 = true) : Reads t (escCommand data t) := by
  obtain ⟨second, hs⟩ := read_of_has h (show 1 < 2 by omega)
  obtain ⟨bytes, hb⟩ := slice_of_has h (show t.index + 2 = t.index + 2 from rfl)
  unfold escCommand
  simp only [hs, hb, Option.bind_eq_bind, Option.bind_some]
  split_ifs
  · exact reads_done (by simp)
  · exact reads_operand (by simp)
  · exact reads_operand (by simp)
  · exact reads_operand (by simp)
  · exact reads_operand (by simp)
  · exact reads_operand (by simp)
  · exact reads_operand (by simp)
  · exact reads_done (by simp)
  · exact reads_other
  · exact reads_other

theorem reads_cutCommand (mode : UInt8) : Reads t (some (cutCommand data t mode)) := by
  unfold cutCommand
  dsimp only
  by_cases hlen : has data t (if mode = 65 ∨ mode = 66 then 4 else 3) = true
  · rw [hlen]
    exact reads_done (by simp only [index_skip]; split_ifs <;> omega)
  · rw [Bool.not_eq_true] at hlen
    rw [hlen]
    exact reads_cutOff

theorem reads_rasterCommand : Reads t (rasterCommand data rasterLineMode t) := by
  unfold rasterCommand
  cases h : has data t 8 with
  | false => exact reads_cutOff
  | true =>
    obtain ⟨xl, h4⟩ := read_of_has h (show 4 < 8 by omega)
    obtain ⟨xh, h5⟩ := read_of_has h (show 5 < 8 by omega)
    obtain ⟨yl, h6⟩ := read_of_has h (show 6 < 8 by omega)
    obtain ⟨yh, h7⟩ := read_of_has h (show 7 < 8 by omega)
    simp only [Bool.not_true, Bool.false_eq_true, if_false, h4, h5, h6, h7, Option.bind_eq_bind,
      Option.bind_some]
    cases htotal : has data t (8 + le16 xl xh * le16 yl yh) with
    | false => exact reads_cutOff
    | true =>
      obtain ⟨image, hi⟩ := slice_of_has htotal
        (show t.index + 8 + le16 xl xh * le16 yl yh = _ from Nat.add_assoc _ _ _)
      simp only [Bool.not_true, Bool.false_eq_true, if_false, hi, Option.bind_some]
      split_ifs
      · exact reads_done (by simp only [index_skip]; omega)
      · exact reads_done (by simp only [index_skip, index_note]; omega)

theorem reads_extendedCommand (third : UInt8) : Reads t (extendedCommand data t third) := by
  unfold extendedCommand
  cases h : has data t 5 with
  | false => exact reads_other
  | true =>
    obtain ⟨pl, h3⟩ := read_of_has h (show 3 < 5 by omega)
    obtain ⟨ph, h4⟩ := read_of_has h (show 4 < 5 by omega)
    simp only [Bool.not_true, Bool.false_eq_true, if_false, h3, h4, Option.bind_eq_bind,
      Option.bind_some]
    cases has data t (5 + le16 pl ph) with
    | false => exact reads_cutOff
    | true => exact reads_done (by simp only [index_skip, index_note]; omega)

theorem reads_gsCommand (h : has data t 2 = true) : Reads t (gsCommand data rasterLineMode t) := by
  obtain ⟨second, hs⟩ := read_of_has h (show 1 < 2 by omega)
  unfold gsCommand
  simp only [hs, Option.bind_eq_bind, Option.bind_some]
  cases h3 : has data t 3 with
  | false => exact reads_other
  | true =>
    obtain ⟨third, ht⟩ := read_of_has h3 (show 2 < 3 by omega)
    simp only [Bool.not_true, Bool.false_eq_true, if_false, ht, Option.bind_some]
    split_ifs
    · exact reads_done (by simp)
    · exact reads_cutCommand third
    · exact reads_rasterCommand
    · exact reads_extendedCommand third
    · exact reads_done (by simp)
    · exact reads_done (by simp)
    · exact reads_other

theorem reads_dleCommand (h : has data t 3 = true) : Reads t (dleCommand data t) := by
  obtain ⟨second, hs⟩ := read_of_has h (show 1 < 3 by omega)
  unfold dleCommand
  simp only [hs, Option.bind_eq_bind, Option.bind_some]
  split_ifs
  · exact reads_done (by simp)
  · exact reads_other

theorem reads_command (first : UInt8) : Reads t (command data rasterLineMode t first) := by
  unfold command
  split_ifs with hesc hgs hdle
  · exact reads_escCommand hesc.2
  · exact reads_gsCommand hgs.2
  · exact reads_dleCommand hdle.2
  · exact reads_other

end

theorem transcodeFrom_isSome {data : Bytes} {rasterLineMode : Bool} :
    ∀ {fuel : ℕ} {t : Transcoder}, (transcodeFrom data rasterLineMode fuel t).isSome = true
  | 0, _ => rfl
  | fuel + 1, t => by
    unfold transcodeFrom
    split_ifs with h
    · obtain ⟨reading, hr, _⟩ : Reads t (command data rasterLineMode t data[t.index]) :=
        reads_command _
      simp only [List.getElem?_eq_getElem h, hr, Option.bind_eq_bind, Option.bind_some]
      cases reading with
      | done t' => exact transcodeFrom_isSome
      | other => exact transcodeFrom_isSome
      | cutOff => rfl
    · rfl

/-- More fuel than there are bytes left changes nothing. -/
theorem transcodeFrom_fuel {data : Bytes} {rasterLineMode : Bool} :
    ∀ {fuel : ℕ} {t : Transcoder}, data.length ≤ t.index + fuel →
      transcodeFrom data rasterLineMode (fuel + 1) t = transcodeFrom data rasterLineMode fuel t
  | 0, t, h => by
    unfold transcodeFrom
    rw [if_neg (by omega)]
  | fuel + 1, t, h => by
    rw [transcodeFrom, transcodeFrom]
    split_ifs with hlt
    · obtain ⟨reading, hr, hpast⟩ : Reads t (command data rasterLineMode t data[t.index]) :=
        reads_command _
      have hplain : ∀ first, t.index < (plainByte t first).index := fun first => by
        unfold plainByte
        split_ifs <;> simp
      simp only [List.getElem?_eq_getElem hlt, hr, Option.bind_eq_bind, Option.bind_some]
      cases reading with
      | done t' => exact transcodeFrom_fuel (by have := hpast t' rfl; omega)
      | other => exact transcodeFrom_fuel (by have := hplain data[t.index]; omega)
      | cutOff => rfl
    · rfl

/-- Every document is transcoded. -/
theorem transcode_isSome (data : Bytes) (rasterLineMode : Bool) :
    (transcodeFromEscPos data rasterLineMode).isSome = true := by
  rw [transcodeFromEscPos, Option.isSome_map]
  exact transcodeFrom_isSome

end PrinterDriver.Core.Transcode
