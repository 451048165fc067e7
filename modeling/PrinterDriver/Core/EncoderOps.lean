import PrinterDriver.Core.Commands
import PrinterDriver.Core.Raster

/-! # The operations of the ESC/POS encoder

What an operation puts into the buffer, put by put, given the style that is in force. An operation
that throws puts nothing and changes nothing. `respects_ops_iff` says when the transcoder respects
what a sequence of operations has put. -/

namespace PrinterDriver.Core.EncoderOps

open PrinterDriver.Core.Types PrinterDriver.Core.Profile PrinterDriver.Core.EscposParser
  PrinterDriver.Core.Encoder PrinterDriver.Core.CodePage PrinterDriver.Core.Transcode
  PrinterDriver.Core.Raster PrinterDriver.Core.Commands

/-! ### Puts -/

/-- A style command is left out when it would change nothing. -/
def changed (same : Bool) (bytes : Bytes) : List Put := if same then [] else [.command bytes]

def textPuts (bytes : Bytes) : List Put := bytes.map .text

def dotPuts (dots : UInt16) : List Put :=
  (dotChunks dots.toNat dots.toNat).map fun n => .command [0x1B, 0x4A, n]

def cutWithFeedBytes (mode : CutMode) (units : UInt8) : Bytes :=
  [0x1D, 0x56, if mode = .full then 65 else 66, units]

def cutBytes (mode : CutMode) : Bytes := [0x1D, 0x56, if mode = .full then 0 else 1]

/-- One `GS v 0` command a band. -/
def rasterPuts (scale : UInt8) (bytesPerRow band : ℕ) : ℕ → Bytes → List Put
  | 0, _ => []
  | height + 1, data =>
    let rows := min (max band 1) (height + 1)
    .command ([0x1D, 0x76, 0x30, scale] ++ lowHigh bytesPerRow ++ lowHigh rows ++
      data.take (bytesPerRow * rows)) ::
      rasterPuts scale bytesPerRow band (height + 1 - rows) (data.drop (bytesPerRow * rows))
termination_by height => height
decreasing_by omega

/-- The five functions of `GS ( k`. -/
def qrPuts (data : Bytes) (size ec model : UInt8) : List Put :=
  [.command [0x1D, 0x28, 0x6B, 0x04, 0x00, 0x31, 0x41, model, 0x00],
    .command [0x1D, 0x28, 0x6B, 0x03, 0x00, 0x31, 0x43, size],
    .command [0x1D, 0x28, 0x6B, 0x03, 0x00, 0x31, 0x45, ec],
    .command ([0x1D, 0x28, 0x6B] ++ lowHigh (data.length + 3) ++ [0x31, 0x50, 0x30] ++ data),
    .command [0x1D, 0x28, 0x6B, 0x03, 0x00, 0x31, 0x51, 0x30]]

/-! ### Operations -/

inductive QrErrorCorrection where
  | l | m | q | h
  deriving DecidableEq, Repr

def QrErrorCorrection.toByte : QrErrorCorrection → UInt8
  | .l => 48
  | .m => 49
  | .q => 50
  | .h => 51

inductive QrModel where
  | model1 | model2 | microQr
  deriving DecidableEq, Repr

def QrModel.toByte : QrModel → UInt8
  | .model1 => 49
  | .model2 => 50
  | .microQr => 51

inductive RasterScale where
  | normal | doubleWidth | doubleHeight | quadruple
  deriving DecidableEq, Repr

def RasterScale.toByte : RasterScale → UInt8
  | .normal => 0
  | .doubleWidth => 1
  | .doubleHeight => 2
  | .quadruple => 3

/-- The operations of the encoder but for `raw`, and for those that empty the buffer. -/
inductive EncoderOp where
  | initPrinter
  | selectCodePage (codePage : CodePage)
  | align (alignment : Encoder.Alignment)
  | bold (enabled : Bool)
  | underline (dots : UInt8)
  | textSize (width height : UInt8)
  | text (utf8 : Bytes)
  | line (utf8 : Bytes)
  | feed
  | feedLines (lines : UInt8)
  | feedDots (dots : UInt16)
  | useCutWithFeed (enabled : Bool) (units : UInt8)
  | cut (mode : CutMode)
  | cutWithFeed (mode : CutMode) (units : UInt8)
  | kickCashDrawer (pin onTime offTime : UInt8)
  | asb (enabled : Bool) (mask : UInt8)
  | processId (token : Bytes)
  | realtimeStatus (kind : DleEotKind)
  | queuedPaperStatus
  | rasterPacked (data : Bytes) (widthDots heightDots : ℕ) (scale : RasterScale)
      (maxRowsPerBand : ℕ)
  | rasterGrayscale (raster : RasterPayload) (targetWidthDots : ℕ) (scale : RasterScale)
  | qr (data : Bytes) (size : UInt8) (ec : QrErrorCorrection) (model : QrModel)

/-- What the encoder has selected. -/
structure Style where
  codePage : CodePage := .pc437
  alignment : Encoder.Alignment := .left
  boldOn : Bool := false
  underlined : UInt8 := 0
  sizeWidth : UInt8 := 1
  sizeHeight : UInt8 := 1
  cutWithFeed : Bool := false
  cutFeedUnits : UInt8 := 0
  deriving DecidableEq, Repr

def kMaxRasterBytesPerRow : ℕ := 0xFFFF

/-- The text in the code page that is selected. -/
def encoded (codePage : CodePage) (utf8 : Bytes) : Bytes :=
  (transliterate utf8 codePage).get (transliterate_isSome utf8 codePage)

/-- Zero rows a band is one band. -/
def bandOf (maxRowsPerBand height : ℕ) : ℕ :=
  if maxRowsPerBand = 0 then height else maxRowsPerBand

/-- What an operation selects and what it puts; `none` is an `EncodingError`. -/
def perform (s : Style) : EncoderOp → Option (Style × List Put)
  | .initPrinter => some
      ({ s with
          codePage := .pc437, alignment := .left, boldOn := false, underlined := 0,
          sizeWidth := 1, sizeHeight := 1 }, [.command [0x1B, 0x40]])
  | .selectCodePage codePage => some ({ s with codePage := codePage },
      changed (s.codePage = codePage) [0x1B, 0x74, codePageByte codePage])
  | .align alignment => some ({ s with alignment := alignment },
      changed (s.alignment = alignment) [0x1B, 0x61, alignment.toByte])
  | .bold enabled => some ({ s with boldOn := enabled },
      changed (s.boldOn = enabled) [0x1B, 0x45, if enabled then 1 else 0])
  | .underline dots =>
    if 2 < dots then none
    else some ({ s with underlined := dots }, changed (s.underlined = dots) [0x1B, 0x2D, dots])
  | .textSize width height =>
    if width < 1 ∨ 8 < width ∨ height < 1 ∨ 8 < height then none
    else some ({ s with sizeWidth := width, sizeHeight := height },
      changed (s.sizeWidth = width && s.sizeHeight = height)
        [0x1D, 0x21, ((width - 1) <<< 4) ||| (height - 1)])
  | .text utf8 => some (s, textPuts (encoded s.codePage utf8))
  | .line utf8 => some (s, textPuts (encoded s.codePage utf8) ++ [.text 0x0A])
  | .feed => some (s, [.text 0x0A])
  | .feedLines lines => some (s, [.command [0x1B, 0x64, lines]])
  | .feedDots dots => some (s, dotPuts dots)
  | .useCutWithFeed enabled units => some
      ({ s with cutWithFeed := enabled, cutFeedUnits := units }, [])
  | .cut mode => some (s, [.command
      (if s.cutWithFeed then cutWithFeedBytes mode s.cutFeedUnits else cutBytes mode)])
  | .cutWithFeed mode units => some (s, [.command (cutWithFeedBytes mode units)])
  | .kickCashDrawer pin onTime offTime =>
    if 1 < pin then none else some (s, [.command [0x1B, 0x70, pin, onTime, offTime]])
  | .asb enabled mask => some (s, [.command [0x1D, 0x61, if enabled then mask else 0x00]])
  | .processId token => (processIdMarker token).map fun marker => (s, [.command marker])
  | .realtimeStatus kind => some (s, [.command (dleEot kind)])
  | .queuedPaperStatus => some (s, [.command gsPaperStatus])
  | .rasterPacked data widthDots heightDots scale maxRowsPerBand =>
    if widthDots = 0 ∨ heightDots = 0 then none
    else if kMaxRasterBytesPerRow < bytesPerRow widthDots ∨ kMaxRasterRows < heightDots then none
    else if data.length ≠ bytesPerRow widthDots * heightDots then none
    else some (s, rasterPuts scale.toByte (bytesPerRow widthDots)
      (bandOf maxRowsPerBand heightDots) heightDots data)
  | .rasterGrayscale raster targetWidthDots scale =>
    (packGrayscale raster targetWidthDots).toOption.map fun packed =>
      (s, rasterPuts scale.toByte packed.bytesPerRow
        (bandOf raster.maxRowsPerBand packed.heightDots) packed.heightDots packed.data)
  | .qr data size ec model =>
    if size < 1 ∨ 16 < size then none
    else if 0xFFFF - 3 < data.length then none
    else some (s, qrPuts data size ec.toByte model.toByte)

/-- What a sequence of operations puts. -/
def record (s : Style) : List EncoderOp → List Put
  | [] => []
  | op :: ops =>
    match perform s op with
    | none => record s ops
    | some (s, puts) => puts ++ record s ops

/-! ### The bytes of the puts -/

theorem spelled_textPuts (bytes : Bytes) : spelled (textPuts bytes) = bytes := by
  unfold spelled textPuts
  rw [List.flatMap_map]
  exact List.flatMap_singleton' bytes

theorem spelled_dotPuts (dots : UInt16) : spelled (dotPuts dots) =
    (dotChunks dots.toNat dots.toNat).flatMap fun n => [0x1B, 0x4A, n] := by
  unfold spelled dotPuts
  rw [List.flatMap_map]
  rfl

/-! ### Commands that are in the table -/

section Familiar
variable {rasterLineMode : Bool}

theorem familiar_single {bytes : Bytes} (h : (translation rasterLineMode bytes).isSome = true) :
    Familiar rasterLineMode [.command bytes] :=
  (familiar_command bytes).mpr ⟨h, familiar_nil⟩

theorem familiar_changed {same : Bool} {bytes : Bytes}
    (h : (translation rasterLineMode bytes).isSome = true) :
    Familiar rasterLineMode (changed same bytes) := by
  unfold changed
  split_ifs
  · exact familiar_nil
  · exact familiar_single h

theorem familiar_textPuts : ∀ bytes : Bytes, Familiar rasterLineMode (textPuts bytes)
  | [] => familiar_nil
  | c :: bytes => (familiar_text c).mpr (familiar_textPuts bytes)

theorem familiar_dotPuts (dots : UInt16) : Familiar rasterLineMode (dotPuts dots) := by
  intro bytes hb
  obtain ⟨n, -, he⟩ := List.mem_map.mp hb
  cases he
  rfl

/-- A 16-bit field is read as it was written, in 16 bits. -/
theorem le16_lowHigh (n : ℕ) : le16 (UInt8.ofNat n) (UInt8.ofNat (n / 256)) = n % 65536 := by
  unfold le16
  rw [UInt8.toNat_ofNat', UInt8.toNat_ofNat']
  omega

theorem familiar_raster {scale : UInt8} {w rows : ℕ} {image : Bytes} :
    (translation rasterLineMode ([0x1D, 0x76, 0x30, scale] ++ lowHigh w ++ lowHigh rows ++
      image)).isSome = true ↔ image.length = w % 65536 * (rows % 65536) := by
  have htr : translation rasterLineMode ([0x1D, 0x76, 0x30, scale] ++ lowHigh w ++ lowHigh rows ++
      image) = rasterTranslation rasterLineMode (scale :: UInt8.ofNat w :: UInt8.ofNat (w / 256) ::
        UInt8.ofNat rows :: UInt8.ofNat (rows / 256) :: image) := rfl
  rw [htr, rasterTranslation, le16_lowHigh, le16_lowHigh]
  split_ifs with hlen hline
  · simp [hlen]
  · simp_all
  · simp_all [dropped]

theorem translation_extended (third : UInt8) (args : Bytes) :
    translation rasterLineMode (0x1D :: 0x28 :: third :: args) = extendedTranslation third args :=
  rfl

theorem familiar_qrPuts {data : Bytes} (size ec model : UInt8) (h : data.length ≤ 0xFFFF - 3) :
    Familiar rasterLineMode (qrPuts data size ec model) := by
  have hstore : (translation rasterLineMode ([0x1D, 0x28, 0x6B] ++ lowHigh (data.length + 3) ++
      [0x31, 0x50, 0x30] ++ data)).isSome = true := by
    have hspelled : [0x1D, 0x28, 0x6B] ++ lowHigh (data.length + 3) ++ [0x31, 0x50, 0x30] ++ data =
        0x1D :: 0x28 :: 0x6B :: UInt8.ofNat (data.length + 3) ::
          UInt8.ofNat ((data.length + 3) / 256) :: 0x31 :: 0x50 :: 0x30 :: data := rfl
    have hlen : (0x31 :: 0x50 :: 0x30 :: data : Bytes).length = (data.length + 3) % 65536 := by
      simp only [List.length_cons]
      omega
    rw [hspelled, translation_extended, extendedTranslation, le16_lowHigh,
      if_neg (not_not_intro hlen), if_pos rfl]
    rfl
  simp only [qrPuts, familiar_command]
  exact ⟨rfl, rfl, rfl, hstore, rfl, familiar_nil⟩

/-- Rows of at most 65535 bytes fit the field of the command, and no others do. -/
theorem familiar_rasterPuts {scale : UInt8} {w band : ℕ} : ∀ {height : ℕ} {data : Bytes},
    height ≤ kMaxRasterRows → data.length = w * height →
      (Familiar rasterLineMode (rasterPuts scale w band height data) ↔ height = 0 ∨ w < 65536)
  | 0, data, _, _ => by
    rw [rasterPuts]
    exact iff_of_true familiar_nil (.inl rfl)
  | height + 1, data, hmax, hlen => by
    rw [rasterPuts, familiar_command, familiar_raster]
    obtain ⟨rows, hrows⟩ : ∃ rows, rows = min (max band 1) (height + 1) := ⟨_, rfl⟩
    rw [← hrows]
    have hpos : 0 < rows := by omega
    have hle : rows ≤ height + 1 := by omega
    have hsmall : rows % 65536 = rows := Nat.mod_eq_of_lt (by unfold kMaxRasterRows at hmax; omega)
    have htake : (data.take (w * rows)).length = w * rows := by
      rw [List.length_take, hlen]
      exact Nat.min_eq_left (Nat.mul_le_mul_left w hle)
    have hdrop : (data.drop (w * rows)).length = w * (height + 1 - rows) := by
      rw [List.length_drop, hlen, Nat.mul_sub]
    have ih : Familiar rasterLineMode (rasterPuts scale w band (height + 1 - rows)
        (data.drop (w * rows))) ↔ height + 1 - rows = 0 ∨ w < 65536 :=
      familiar_rasterPuts (by omega) hdrop
    rw [htake, hsmall, ih]
    constructor
    · rintro ⟨heq, -⟩
      have hw : w = w % 65536 := Nat.eq_of_mul_eq_mul_right hpos heq
      exact .inr (by omega)
    · rintro (hzero | hw)
      · cases hzero
      · rw [Nat.mod_eq_of_lt hw]
        exact ⟨rfl, .inr hw⟩

end Familiar

/-! ### What a packed image is -/

theorem length_setDot {n : ℕ} {packed out : Bytes} {dot : ℕ × ℕ}
    (h : setDot n packed dot = some out) : out.length = packed.length := by
  unfold setDot at h
  dsimp only at h
  split_ifs at h
  cases h
  exact List.length_modify _ _ _

theorem length_foldlM_setDot {n : ℕ} : ∀ {dots : List (ℕ × ℕ)} {packed out : Bytes},
    dots.foldlM (setDot n) packed = some out → out.length = packed.length
  | [], _, _, h => by
    cases h
    rfl
  | dot :: dots, packed, out, h => by
    rw [List.foldlM_cons, Option.bind_eq_bind] at h
    obtain ⟨mid, hmid, hrest⟩ := Option.bind_eq_some_iff.mp h
    rw [length_foldlM_setDot hrest, length_setDot hmid]

/-- A packed image fills its rows, and has some. -/
theorem packed_shape {r : RasterPayload} {w : ℕ} {packed : PackedRaster}
    (h : packGrayscale r w = .ok packed) : packed.bytesPerRow = bytesPerRow w ∧
      0 < packed.heightDots ∧ packed.heightDots ≤ kMaxRasterRows ∧
        packed.data.length = packed.bytesPerRow * packed.heightDots := by
  unfold packGrayscale at h
  split_ifs at h with hzero
  dsimp only at h
  split_ifs at h with htall
  split at h
  · cases h
  · split at h
    · cases h
    · rename_i data hdata
      cases h
      have hlen : data.length = bytesPerRow w * fittedHeight r.width r.height w := by
        rw [length_foldlM_setDot hdata, List.length_replicate]
      have hpos : 0 < fittedHeight r.width r.height w := by
        unfold fittedHeight
        dsimp only
        split_ifs <;> omega
      exact ⟨rfl, hpos, Nat.le_of_not_lt htall, hlen⟩

/-! ### What text becomes -/

theorem ge_of_lookupCp852 {codepoint : UInt32} {c : UInt8} (h : lookupCp852 codepoint = some c) :
    0x80 ≤ c := by
  obtain ⟨entry, hentry, rfl⟩ := Option.map_eq_some_iff.mp h
  have hall : (kCp852.all fun entry => 0x80 ≤ entry.2) = true := by decide +kernel
  exact of_decide_eq_true (List.all_eq_true.mp hall entry (List.mem_of_find?_eq_some hentry))

theorem leadByte_pos {byte : UInt8} {extra : ℕ} {bits : UInt32}
    (h : leadByte byte = some (extra, bits)) : extra = 1 ∨ extra = 2 ∨ extra = 3 := by
  unfold leadByte at h
  split_ifs at h
  · cases h; exact .inl rfl
  · cases h; exact .inr (.inl rfl)
  · cases h; exact .inr (.inr rfl)

/-- A sequence of several bytes is no scalar below 0x80. -/
theorem not_isScalar {extra : ℕ} {codepoint : UInt32} (h : extra = 1 ∨ extra = 2 ∨ extra = 3)
    (hlow : codepoint < 0x80) : isScalar extra codepoint = false := by
  have h2 : codepoint < 0x800 := UInt32.lt_trans hlow (by decide)
  have h3 : codepoint < 0x10000 := UInt32.lt_trans hlow (by decide)
  rcases h with rfl | rfl | rfl
  · simp [isScalar, hlow]
  · simp [isScalar, h2]
  · simp [isScalar, h3]

/-- A scalar below 0x80 is one byte of the text. -/
theorem mem_of_decodeUtf8 {input : Bytes} {index behind : ℕ} {codepoint : UInt32}
    (h : decodeUtf8 input index = some (some codepoint, behind)) (hlow : codepoint < 0x80) :
    codepoint.toUInt8 ∈ input := by
  unfold decodeUtf8 at h
  rw [Option.bind_eq_bind] at h
  obtain ⟨byte, hbyte, h⟩ := Option.bind_eq_some_iff.mp h
  by_cases hascii : byte < 0x80
  · rw [if_pos hascii] at h
    cases h
    rw [UInt8.toUInt8_toUInt32]
    exact List.mem_of_getElem? hbyte
  rw [if_neg hascii] at h
  split at h
  · cases h
  next extra bits hlead =>
    split_ifs at h with hshort
    · cases h
    rw [Option.bind_eq_bind] at h
    obtain ⟨r, -, h⟩ := Option.bind_eq_some_iff.mp h
    cases r with
    | none => cases h
    | some scalar =>
      dsimp only at h
      split_ifs at h with hscalar
      · cases h
        rw [not_isScalar (leadByte_pos hlead) hlow] at hscalar
        cases hscalar
      · cases h

theorem printed_cases {codePage : CodePage} {scalar : Option UInt32} :
    (∃ codepoint, scalar = some codepoint ∧ codepoint < 0x80 ∧
      printed codePage scalar = codepoint.toUInt8) ∨
    0x80 ≤ printed codePage scalar ∨ printed codePage scalar = 0x3F := by
  cases scalar with
  | none => exact .inr (.inr rfl)
  | some codepoint =>
    unfold printed
    dsimp only
    by_cases hlow : codepoint < 0x80
    · rw [if_pos hlow]
      exact .inl ⟨codepoint, rfl, hlow, rfl⟩
    rw [if_neg hlow]
    by_cases hpage : codePage = .pc852
    · rw [if_pos hpage]
      cases hlook : lookupCp852 codepoint with
      | none => exact .inr (.inr rfl)
      | some c => exact .inr (.inl (ge_of_lookupCp852 hlook))
    · rw [if_neg hpage]
      exact .inr (.inr rfl)

/-- A byte of transliterated text is one of the text itself, or not a control byte. -/
theorem mem_transliterateFrom {utf8 : Bytes} {codePage : CodePage} {c : UInt8} :
    ∀ {fuel index : ℕ} {out : Bytes}, transliterateFrom utf8 codePage fuel index = some out →
      c ∈ out → c ∈ utf8 ∨ 0x80 ≤ c ∨ c = 0x3F
  | 0, _, _, h, hc => by
    cases h
    cases hc
  | fuel + 1, index, out, h, hc => by
    unfold transliterateFrom at h
    split_ifs at h with hlt
    · obtain ⟨scalar, behind, hd, -⟩ := decodeUtf8_eq_some hlt
      simp only [hd, Option.bind_eq_bind, Option.bind_some] at h
      obtain ⟨rest, hrest, he⟩ := Option.bind_eq_some_iff.mp h
      cases he
      rcases List.mem_cons.mp hc with rfl | hc
      · have hcases := @printed_cases codePage scalar
        rcases hcases with ⟨codepoint, rfl, hlow, hp⟩ | hhigh
        · rw [hp]
          exact .inl (mem_of_decodeUtf8 hd hlow)
        · exact .inr hhigh
      · exact mem_transliterateFrom hrest hc
    · cases h
      cases hc

theorem mem_encoded {codePage : CodePage} {utf8 : Bytes} {c : UInt8}
    (h : c ∈ encoded codePage utf8) : c ∈ utf8 ∨ 0x80 ≤ c ∨ c = 0x3F :=
  mem_transliterateFrom (Option.some_get _).symm h

/-! ### When the operations are respected -/

/-- No control byte stands in the text. -/
def Plain (utf8 : Bytes) : Prop := ∀ c ∈ utf8, 0x20 ≤ c ∧ c ≠ 0x7F

/-- The text of an operation has no control byte. -/
def PlainOp : EncoderOp → Prop
  | .text utf8 | .line utf8 => Plain utf8
  | _ => True

/-- The rows of an image fit the field of the command, which the packer does not check. -/
def Narrow : EncoderOp → Prop
  | .rasterGrayscale raster targetWidthDots _ =>
    (packGrayscale raster targetWidthDots).toOption.isSome = true →
      bytesPerRow targetWidthDots < 65536
  | _ => True

section Respected
variable {rasterLineMode : Bool} {s s' : Style} {op : EncoderOp} {puts : List Put}

theorem text_of_textPuts {bytes : Bytes} {c : UInt8} (h : .text c ∈ textPuts bytes) : c ∈ bytes := by
  obtain ⟨d, hd, he⟩ := List.mem_map.mp h
  cases he
  exact hd

/-- Plain text has none of the bytes that begin a command. -/
theorem ne_of_plain {codePage : CodePage} {utf8 : Bytes} {c : UInt8} (h : Plain utf8)
    (hc : .text c ∈ textPuts (encoded codePage utf8)) : c ≠ 0x1B ∧ c ≠ 0x1D ∧ c ≠ 0x10 := by
  have hge : 0x20 ≤ c := by
    rcases mem_encoded (text_of_textPuts hc) with hmem | hhigh | rfl
    · exact (h c hmem).1
    · exact UInt8.le_trans (by decide) hhigh
    · decide
  refine ⟨?_, ?_, ?_⟩ <;> rintro rfl <;> exact absurd hge (by decide)

theorem familiar_cut {mode : CutMode} :
    Familiar rasterLineMode [.command (cutBytes mode)] := by
  refine familiar_single ?_
  cases mode <;> rfl

theorem familiar_cutWithFeed {mode : CutMode} {units : UInt8} :
    Familiar rasterLineMode [.command (cutWithFeedBytes mode units)] := by
  refine familiar_single ?_
  cases mode <;> rfl

theorem familiar_processId {token marker : Bytes} (h : processIdMarker token = some marker) :
    Familiar rasterLineMode [.command marker] := by
  refine familiar_single ?_
  unfold processIdMarker at h
  split_ifs at h with hvalid
  cases h
  have hlen : token.length = 4 := by
    unfold isValidProcessIdToken at hvalid
    rw [Bool.and_eq_true, decide_eq_true_eq] at hvalid
    exact hvalid.1
  have hoperands : (0x30 :: 0x30 :: token : Bytes).length = le16 0x06 0x00 := by
    rw [List.length_cons, List.length_cons, hlen]
    rfl
  have hspelled : [0x1D, 0x28, 0x48, 0x06, 0x00, 0x30, 0x30] ++ token =
    0x1D :: 0x28 :: 0x48 :: 0x06 :: 0x00 :: 0x30 :: 0x30 :: token := rfl
  rw [hspelled, translation_extended, extendedTranslation, if_neg (not_not_intro hoperands)]
  rfl

/-- All that an operation puts is in the table, but for an image with rows that are too long. -/
theorem familiar_perform (h : perform s op = some (s', puts)) :
    Familiar rasterLineMode puts ↔ Narrow op := by
  cases op with
  | initPrinter =>
    cases h
    exact iff_of_true (familiar_single rfl) trivial
  | selectCodePage codePage | align alignment | bold enabled =>
    cases h
    exact iff_of_true (familiar_changed rfl) trivial
  | underline dots =>
    rw [perform] at h
    split_ifs at h
    cases h
    exact iff_of_true (familiar_changed rfl) trivial
  | textSize width height =>
    rw [perform] at h
    split_ifs at h
    cases h
    exact iff_of_true (familiar_changed rfl) trivial
  | text utf8 =>
    cases h
    exact iff_of_true (familiar_textPuts _) trivial
  | line utf8 =>
    cases h
    exact iff_of_true (familiar_append.mpr
      ⟨familiar_textPuts _, (familiar_text 0x0A).mpr familiar_nil⟩) trivial
  | feed =>
    cases h
    exact iff_of_true ((familiar_text 0x0A).mpr familiar_nil) trivial
  | feedLines lines =>
    cases h
    exact iff_of_true (familiar_single rfl) trivial
  | feedDots dots =>
    cases h
    exact iff_of_true (familiar_dotPuts dots) trivial
  | useCutWithFeed enabled units =>
    cases h
    exact iff_of_true familiar_nil trivial
  | cut mode =>
    cases h
    refine iff_of_true ?_ trivial
    split_ifs
    · exact familiar_cutWithFeed
    · exact familiar_cut
  | cutWithFeed mode units =>
    cases h
    exact iff_of_true familiar_cutWithFeed trivial
  | kickCashDrawer pin onTime offTime =>
    rw [perform] at h
    split_ifs at h
    cases h
    exact iff_of_true (familiar_single rfl) trivial
  | asb enabled mask =>
    cases h
    exact iff_of_true (familiar_single rfl) trivial
  | processId token =>
    obtain ⟨marker, hmarker, he⟩ := Option.map_eq_some_iff.mp h
    cases he
    exact iff_of_true (familiar_processId hmarker) trivial
  | realtimeStatus kind =>
    cases h
    exact iff_of_true (familiar_single rfl) trivial
  | queuedPaperStatus =>
    cases h
    exact iff_of_true (familiar_single rfl) trivial
  | rasterPacked data widthDots heightDots scale maxRowsPerBand =>
    rw [perform] at h
    split_ifs at h with hzero hlarge hlen
    cases h
    have hrows : bytesPerRow widthDots < 65536 := by
      unfold kMaxRasterBytesPerRow at hlarge
      omega
    have hheight : heightDots ≤ kMaxRasterRows := by omega
    exact iff_of_true ((familiar_rasterPuts hheight (not_not.mp hlen)).mpr (.inr hrows)) trivial
  | rasterGrayscale raster targetWidthDots scale =>
    obtain ⟨packed, hpacked, he⟩ := Option.map_eq_some_iff.mp h
    cases he
    obtain ⟨hrow, hpos, hmax, hlen⟩ := packed_shape (ok_of_toOption hpacked)
    rw [familiar_rasterPuts hmax hlen, hrow]
    constructor
    · rintro (hzero | hlt) -
      · omega
      · exact hlt
    · intro hnarrow
      exact .inr (hnarrow (by rw [hpacked]; rfl))
  | qr data size ec model =>
    rw [perform] at h
    split_ifs at h with hsize hlen
    cases h
    exact iff_of_true (familiar_qrPuts size ec.toByte model.toByte (by omega)) trivial

theorem not_mem_changed {same : Bool} {bytes : Bytes} {c : UInt8} :
    .text c ∉ changed same bytes := by
  unfold changed
  split_ifs <;> simp

theorem not_mem_dotPuts {dots : UInt16} {c : UInt8} : .text c ∉ dotPuts dots := by
  intro h
  obtain ⟨n, -, he⟩ := List.mem_map.mp h
  cases he

theorem not_mem_rasterPuts {scale : UInt8} {w band : ℕ} {c : UInt8} :
    ∀ {height : ℕ} {data : Bytes}, .text c ∉ rasterPuts scale w band height data
  | 0, data => by
    rw [rasterPuts]
    exact List.not_mem_nil
  | height + 1, data => by
    rw [rasterPuts, List.mem_cons]
    rintro (he | h)
    · cases he
    · exact not_mem_rasterPuts h

theorem ne_lineFeed {c : UInt8} (h : (.text c : Put) ∈ [.text 0x0A]) :
    c ≠ 0x1B ∧ c ≠ 0x1D ∧ c ≠ 0x10 := by
  cases List.mem_singleton.mp h
  decide

/-- Only text and line feeds are put as text. -/
theorem ne_of_perform (h : perform s op = some (s', puts)) (hplain : PlainOp op) {c : UInt8}
    (hc : .text c ∈ puts) : c ≠ 0x1B ∧ c ≠ 0x1D ∧ c ≠ 0x10 := by
  cases op with
  | text utf8 =>
    cases h
    exact ne_of_plain hplain hc
  | line utf8 =>
    cases h
    rcases List.mem_append.mp hc with htext | hfeed
    · exact ne_of_plain hplain htext
    · exact ne_lineFeed hfeed
  | feed =>
    cases h
    exact ne_lineFeed hc
  | selectCodePage codePage | align alignment | bold enabled =>
    cases h
    exact absurd hc not_mem_changed
  | underline dots =>
    rw [perform] at h
    split_ifs at h
    cases h
    exact absurd hc not_mem_changed
  | textSize width height =>
    rw [perform] at h
    split_ifs at h
    cases h
    exact absurd hc not_mem_changed
  | feedDots dots =>
    cases h
    exact absurd hc not_mem_dotPuts
  | initPrinter | feedLines lines | useCutWithFeed enabled units | cut mode
  | cutWithFeed mode units | asb enabled mask | realtimeStatus kind | queuedPaperStatus =>
    cases h
    simp at hc
  | kickCashDrawer pin onTime offTime =>
    rw [perform] at h
    split_ifs at h
    cases h
    simp at hc
  | processId token =>
    obtain ⟨marker, -, he⟩ := Option.map_eq_some_iff.mp h
    cases he
    simp at hc
  | rasterPacked data widthDots heightDots scale maxRowsPerBand =>
    rw [perform] at h
    split_ifs at h
    cases h
    exact absurd hc not_mem_rasterPuts
  | rasterGrayscale raster targetWidthDots scale =>
    obtain ⟨packed, -, he⟩ := Option.map_eq_some_iff.mp h
    cases he
    exact absurd hc not_mem_rasterPuts
  | qr data size ec model =>
    rw [perform] at h
    split_ifs at h
    cases h
    simp [qrPuts] at hc

theorem narrow_of_none (h : perform s op = none) : Narrow op := by
  cases op with
  | rasterGrayscale raster targetWidthDots scale =>
    intro hsome
    obtain ⟨packed, hpacked⟩ := Option.isSome_iff_exists.mp hsome
    rw [perform, hpacked] at h
    cases h
  | _ => trivial

theorem familiar_record : ∀ {ops : List EncoderOp} {s : Style},
    Familiar rasterLineMode (record s ops) ↔ ∀ op ∈ ops, Narrow op
  | [], s => iff_of_true familiar_nil (fun _ h => absurd h List.not_mem_nil)
  | op :: ops, s => by
    rw [record, List.forall_mem_cons]
    cases h : perform s op with
    | none => rw [familiar_record, and_iff_right (narrow_of_none h)]
    | some r => rw [familiar_append, familiar_perform h, familiar_record]

theorem ne_of_record : ∀ {ops : List EncoderOp} {s : Style}, (∀ op ∈ ops, PlainOp op) →
    ∀ c, .text c ∈ record s ops → c ≠ 0x1B ∧ c ≠ 0x1D ∧ c ≠ 0x10
  | [], s, _, c, hc => absurd hc List.not_mem_nil
  | op :: ops, s, hplain, c, hc => by
    have hrest : ∀ op ∈ ops, PlainOp op := fun o ho => hplain o (List.mem_cons_of_mem _ ho)
    rw [record] at hc
    cases h : perform s op with
    | none =>
      rw [h] at hc
      exact ne_of_record hrest c hc
    | some r =>
      rw [h] at hc
      rcases List.mem_append.mp hc with hop | hmore
      · exact ne_of_perform h (hplain op List.mem_cons_self) hop
      · exact ne_of_record hrest c hmore

/-- **When a sequence of operations is respected**: exactly if no image is packed into rows that are
too long for the field of their length. -/
theorem respects_ops_iff {ops : List EncoderOp} (hplain : ∀ op ∈ ops, PlainOp op) :
    Respects rasterLineMode (record {} ops) ↔ ∀ op ∈ ops, Narrow op := by
  rw [respects_iff, legible_iff, familiar_record]
  exact and_iff_left (quiet_of_text (ne_of_record hplain))

end Respected

end PrinterDriver.Core.EncoderOps
