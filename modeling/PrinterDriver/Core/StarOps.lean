import PrinterDriver.Core.EncoderOps

/-! # The operations of the Star encoder

What an operation of the Star encoder selects and puts, put by put, as for the ESC/POS encoder. -/

namespace PrinterDriver.Core.StarOps

open PrinterDriver.Core.Types PrinterDriver.Core.Encoder PrinterDriver.Core.Raster
  PrinterDriver.Core.Commands PrinterDriver.Core.EncoderOps

/-- The operations of the encoder but for `raw`. -/
inductive StarOp where
  | initPrinter
  | align (alignment : Encoder.Alignment)
  | bold (enabled : Bool)
  | underline (enabled : Bool)
  | text (utf8 : Bytes)
  | line (utf8 : Bytes)
  | feed
  | feedLines (lines : UInt8)
  | feedDots (dots : UInt16)
  | cut (mode : CutMode)
  | rasterPacked (data : Bytes) (widthDots heightDots : ℕ)
  | rasterGrayscale (raster : RasterPayload) (targetWidthDots : ℕ)

/-- What the encoder has selected. -/
structure StarStyle where
  alignment : Encoder.Alignment := .left
  boldOn : Bool := false
  underlineOn : Bool := false
  deriving DecidableEq, Repr

/-- `ESC GS a n` -/
def alignBytes (alignment : Encoder.Alignment) : Bytes := [0x1B, 0x1D, 0x61, alignment.toByte]

/-- `ESC E` and `ESC F` -/
def boldBytes (enabled : Bool) : Bytes := [0x1B, if enabled then 0x45 else 0x46]

/-- `ESC - n` -/
def underlineBytes (enabled : Bool) : Bytes := [0x1B, 0x2D, if enabled then 1 else 0]

/-- One `b n1 n2` command a row. -/
def rowPuts (bytesPerRow : ℕ) : ℕ → Bytes → List Put
  | 0, _ => []
  | rows + 1, data =>
    .command (0x62 :: lowHigh bytesPerRow ++ data.take bytesPerRow) ::
      rowPuts bytesPerRow rows (data.drop bytesPerRow)

/-- In `size_t`, where the ESC/POS encoder counts in 32 bits. -/
def starBytesPerRow (widthDots : ℕ) : ℕ := (widthDots + 7) / 8

/-- An image that is empty or short of data is passed over. -/
def imagePuts (data : Bytes) (widthDots heightDots : ℕ) : List Put :=
  if widthDots = 0 ∨ heightDots = 0 ∨ data.length < starBytesPerRow widthDots * heightDots then []
  else .command [0x1B, 0x2A, 0x72, 0x41] ::
    (rowPuts (starBytesPerRow widthDots) heightDots data ++ [.command [0x1B, 0x2A, 0x72, 0x42]])

/-- What an operation selects and what it puts; `none` is an `EncodingError`. -/
def perform (s : StarStyle) : StarOp → Option (StarStyle × List Put)
  | .initPrinter => some ({}, [.command [0x1B, 0x40]])
  | .align alignment => some ({ s with alignment := alignment },
      changed (alignment = s.alignment) (alignBytes alignment))
  | .bold enabled => some ({ s with boldOn := enabled },
      changed (enabled = s.boldOn) (boldBytes enabled))
  | .underline enabled => some ({ s with underlineOn := enabled },
      changed (enabled = s.underlineOn) (underlineBytes enabled))
  | .text utf8 => some (s, textPuts (transliterateAscii utf8))
  | .line utf8 => some (s, textPuts (transliterateAscii utf8) ++ [.text 0x0A])
  | .feed => some (s, [.text 0x0A])
  | .feedLines lines => some (s, changed (lines = 0) [0x1B, 0x61, lines])
  | .feedDots dots => some (s, dotPuts dots)
  | .cut mode => some (s, [.command [0x1B, 0x64, if mode = .full then 0x02 else 0x03]])
  | .rasterPacked data widthDots heightDots => some (s, imagePuts data widthDots heightDots)
  | .rasterGrayscale raster targetWidthDots =>
    if raster.width = 0 ∨ raster.height = 0 ∨ targetWidthDots = 0 then some (s, [])
    else (packGrayscale raster targetWidthDots).toOption.map fun packed =>
      (s, imagePuts packed.data packed.widthDots packed.heightDots)

/-! ### The encoder puts what its operations put -/

theorem spelled_rowPuts (bytesPerRow : ℕ) : ∀ (rows : ℕ) (data : Bytes),
    spelled (rowPuts bytesPerRow rows data) = StarEncoder.rasterRows bytesPerRow rows data
  | 0, _ => rfl
  | rows + 1, data => by
    rw [rowPuts, spelled_cons, spelled_rowPuts, StarEncoder.rasterRows]
    rfl

theorem spelled_changed (same : Bool) (bytes : Bytes) :
    spelled (changed same bytes) = if same then [] else bytes := by
  cases same with
  | true => rfl
  | false => exact List.append_nil bytes

theorem spelled_align (e : StarEncoder) (alignment : Encoder.Alignment) : (e.align alignment).buffer =
    e.buffer ++ spelled (changed (alignment = e.alignment) (alignBytes alignment)) := by
  rw [spelled_changed]
  unfold StarEncoder.align
  by_cases h : alignment = e.alignment
  · rw [if_pos h, if_pos (decide_eq_true h), List.append_nil]
  · rw [if_neg h, if_neg (by simpa using h)]
    rfl

theorem spelled_bold (e : StarEncoder) (enabled : Bool) : (e.bold enabled).buffer =
    e.buffer ++ spelled (changed (enabled = e.boldOn) (boldBytes enabled)) := by
  rw [spelled_changed]
  unfold StarEncoder.bold
  by_cases h : enabled = e.boldOn
  · rw [if_pos h, if_pos (decide_eq_true h), List.append_nil]
  · rw [if_neg h, if_neg (show ¬decide (enabled = e.boldOn) = true by simpa using h)]
    rfl

theorem spelled_imagePuts (e : StarEncoder) (packed : PackedRaster) :
    (e.rasterPacked packed).buffer =
      e.buffer ++ spelled (imagePuts packed.data packed.widthDots packed.heightDots) := by
  unfold StarEncoder.rasterPacked imagePuts starBytesPerRow
  dsimp only
  split_ifs
  · exact (List.append_nil _).symm
  · rw [spelled_cons, spelled_append, spelled_rowPuts]
    simp [StarEncoder.raw, Put.bytes, spelled]

theorem style_align (e : StarEncoder) (alignment : Encoder.Alignment) :
    (e.align alignment).alignment = alignment ∧ (e.align alignment).boldOn = e.boldOn := by
  unfold StarEncoder.align
  split_ifs with h
  · exact ⟨h.symm, rfl⟩
  · exact ⟨rfl, rfl⟩

theorem style_bold (e : StarEncoder) (enabled : Bool) :
    (e.bold enabled).alignment = e.alignment ∧ (e.bold enabled).boldOn = enabled := by
  unfold StarEncoder.bold
  by_cases h : enabled = e.boldOn
  · rw [if_pos h]
    exact ⟨rfl, h.symm⟩
  · rw [if_neg h]
    exact ⟨rfl, rfl⟩

theorem style_rasterPacked (e : StarEncoder) (packed : PackedRaster) :
    (e.rasterPacked packed).alignment = e.alignment ∧
      (e.rasterPacked packed).boldOn = e.boldOn := by
  unfold StarEncoder.rasterPacked
  dsimp only
  split_ifs <;> exact ⟨rfl, rfl⟩

/-- The operations as the driver calls them; it underlines nothing. -/
def call (c : Codecs) (e : StarEncoder) : StarOp → Option StarEncoder
  | .initPrinter => some e.initPrinter
  | .align alignment => some (e.align alignment)
  | .bold enabled => some (e.bold enabled)
  | .underline _ => none
  | .text utf8 => some (e.raw (transliterateAscii utf8))
  | .line utf8 => some (e.line utf8)
  | .feed => some e.feed
  | .feedLines lines => some (e.feedLines lines)
  | .feedDots dots => some (e.feedDots dots)
  | .cut mode => some (e.cut mode)
  | .rasterPacked data widthDots heightDots =>
    some (e.rasterPacked ⟨widthDots, heightDots, starBytesPerRow widthDots, data⟩)
  | .rasterGrayscale raster targetWidthDots => e.rasterGrayscale c raster targetWidthDots

/-- The driver's encoder has this behind it: the puts of an operation, and the style. -/
structure Wrote (e e' : StarEncoder) (s' : StarStyle) (puts : List Put) : Prop where
  buffer : e'.buffer = e.buffer ++ spelled puts
  alignment : s'.alignment = e'.alignment
  boldOn : s'.boldOn = e'.boldOn

/-- **The encoder of the driver writes what its operations put.** -/
theorem wrote_of_call {c : Codecs} (hpack : ∀ raster target,
      c.packGrayscale raster target = (packGrayscale raster target).toOption)
    {e e' : StarEncoder} {s : StarStyle} (halign : s.alignment = e.alignment)
    (hbold : s.boldOn = e.boldOn) {op : StarOp} (h : call c e op = some e') :
    ∃ s' puts, perform s op = some (s', puts) ∧ Wrote e e' s' puts := by
  cases op with
  | initPrinter =>
    obtain rfl := Option.some.inj h
    exact ⟨_, _, rfl, ⟨rfl, rfl, rfl⟩⟩
  | align alignment =>
    obtain rfl := Option.some.inj h
    obtain ⟨hnew, hsame⟩ := style_align e alignment
    exact ⟨_, _, rfl, ⟨by rw [halign]; exact spelled_align e alignment, hnew.symm,
      hbold.trans hsame.symm⟩⟩
  | bold enabled =>
    obtain rfl := Option.some.inj h
    obtain ⟨hsame, hnew⟩ := style_bold e enabled
    exact ⟨_, _, rfl, ⟨by rw [hbold]; exact spelled_bold e enabled, halign.trans hsame.symm,
      hnew.symm⟩⟩
  | underline enabled => cases h
  | text utf8 =>
    obtain rfl := Option.some.inj h
    exact ⟨_, _, rfl, ⟨by rw [spelled_textPuts]; rfl, halign, hbold⟩⟩
  | line utf8 =>
    obtain rfl := Option.some.inj h
    refine ⟨_, _, rfl, ⟨?_, halign, hbold⟩⟩
    rw [spelled_append, spelled_textPuts, ← List.append_assoc]
    rfl
  | feed =>
    obtain rfl := Option.some.inj h
    exact ⟨_, _, rfl, ⟨rfl, halign, hbold⟩⟩
  | feedLines lines =>
    obtain rfl := Option.some.inj h
    refine ⟨_, _, rfl, ?_⟩
    unfold StarEncoder.feedLines
    by_cases hzero : lines = 0
    · rw [if_pos hzero]
      exact ⟨by simp [changed, hzero], halign, hbold⟩
    · rw [if_neg hzero]
      exact ⟨by simp [changed, hzero, StarEncoder.raw, Put.bytes], halign, hbold⟩
  | feedDots dots =>
    obtain rfl := Option.some.inj h
    exact ⟨_, _, rfl, ⟨by rw [spelled_dotPuts]; rfl, halign, hbold⟩⟩
  | cut mode =>
    obtain rfl := Option.some.inj h
    exact ⟨_, _, rfl, ⟨rfl, halign, hbold⟩⟩
  | rasterPacked data widthDots heightDots =>
    obtain rfl := Option.some.inj h
    obtain ⟨hsame, hsame'⟩ :=
      style_rasterPacked e ⟨widthDots, heightDots, starBytesPerRow widthDots, data⟩
    exact ⟨_, _, rfl, ⟨spelled_imagePuts e _, halign.trans hsame.symm, hbold.trans hsame'.symm⟩⟩
  | rasterGrayscale raster targetWidthDots =>
    rw [call, StarEncoder.rasterGrayscale, hpack] at h
    rw [perform]
    split_ifs at h ⊢
    · obtain rfl := Option.some.inj h
      exact ⟨_, _, rfl, ⟨(List.append_nil _).symm, halign, hbold⟩⟩
    · obtain ⟨packed, hpacked, rfl⟩ := Option.map_eq_some_iff.mp h
      obtain ⟨hsame, hsame'⟩ := style_rasterPacked e packed
      exact ⟨_, _, Option.map_eq_some_iff.mpr ⟨packed, hpacked, rfl⟩,
        ⟨spelled_imagePuts e packed, halign.trans hsame.symm, hbold.trans hsame'.symm⟩⟩

end PrinterDriver.Core.StarOps
