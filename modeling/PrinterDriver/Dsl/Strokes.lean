import PrinterDriver.Core.EncoderOps
import PrinterDriver.Dsl.Render
import PrinterDriver.Engine.Requests

/-! # The commands of a rendered document

What the renderer puts into the buffer, put by put: a command for each style that has changed, the
text of a line, the commands of a symbol or an image, and bytes that are spliced in whole.
`render_spelled` says that the bytes of a document are these puts, and `transcoding_respects_iff` when
the transcoder respects them. -/

namespace PrinterDriver.Dsl.Strokes

open PrinterDriver.Core.Types PrinterDriver.Core.Profile PrinterDriver.Core.Encoder
  PrinterDriver.Core.Raster PrinterDriver.Core.Transcode PrinterDriver.Core.Commands
  PrinterDriver.Core.EncoderOps
  PrinterDriver.Dsl.Render
open PrinterDriver.Engine.Requests (codecs)

/-! ### Puts -/

def wordBytes (a b : UInt8) (value : ℤ) : Bytes :=
  [a, b] ++ lowHigh (min (value % 2 ^ 32).toNat 0xFFFF)

def alignPuts (p : Pen) (align : Align) : List Put :=
  changed (p.alignment = align) [0x1B, 0x61, align.toByte]

def leftMarginOf (style : ResolvedStyle) : ℤ := max 0 (style.marginLeftDots + style.indentDots)

/-- The width that is left between the margins, and at least one cell. -/
def areaOf (profile : RenderProfile) (style : ResolvedStyle) : ℤ :=
  max (int32 (profile.charDots style))
    (int32 profile.widthDots - leftMarginOf style - max 0 style.marginRightDots)

/-- The styles that only documents use, in the order in which they are selected. -/
def documentStylePuts (p : Pen) (profile : RenderProfile) (style : ResolvedStyle) : List Put :=
  let fontB : Bool := style.font = str "printerB"
  let line := clamp 0 255 style.lineSpacingDots
  let letter := clamp 0 255 style.letterSpacingDots
  changed (fontB = p.fontB) [0x1B, 0x4D, if fontB then 1 else 0] ++
    changed (style.inverse = p.inverse) [0x1D, 0x42, if style.inverse then 1 else 0] ++
    changed (style.upsideDown = p.upsideDown) [0x1B, 0x7B, if style.upsideDown then 1 else 0] ++
    changed (line = p.lineSpacing)
      (if line = 0 then [0x1B, 0x32] else [0x1B, 0x33, UInt8.ofNat line.toNat]) ++
    changed (letter = p.letterSpacing) [0x1B, 0x20, UInt8.ofNat letter.toNat] ++
    changed (leftMarginOf style = p.leftMargin) (wordBytes 0x1D 0x4C (leftMarginOf style)) ++
    changed (areaOf profile style = p.areaWidth) (wordBytes 0x1D 0x57 (areaOf profile style))

/-- The styles of the encoder. -/
def encoderStylePuts (p : Pen) (style : ResolvedStyle) : List Put :=
  let width := clamp 1 8 style.widthScale
  let height := clamp 1 8 style.heightScale
  alignPuts p style.align ++
    changed (p.boldOn = style.bold) [0x1B, 0x45, if style.bold then 1 else 0] ++
    changed (p.underlined = underlineDots style.underline)
      [0x1B, 0x2D, underlineDots style.underline] ++
    changed (p.sizeWidth = width ∧ p.sizeHeight = height)
      [0x1D, 0x21, UInt8.ofNat ((width - 1) * 16 + (height - 1)).toNat]

/-- The style of a row that is padded already is not aligned again. -/
def styleOf (style : ResolvedStyle) (prePadded : Bool) : ResolvedStyle :=
  if prePadded then { style with align := .left } else style

def payloadOf (options : RenderOptions) (gray : Bytes) (width height : ℕ) (dither : Dither) :
    RasterPayload :=
  { gray := gray, width := width, height := height
    binarization := if dither = .floydSteinberg then .floydSteinberg else .fixedThreshold
    threshold := 128, maxRowsPerBand := options.maxRowsPerBand }

def imagePuts (raster : RasterPayload) (target : ℕ) : List Put :=
  match packGrayscale raster target with
  | .ok packed =>
    rasterPuts 0 packed.bytesPerRow (bandOf raster.maxRowsPerBand packed.heightDots)
      packed.heightDots packed.data
  | .error _ => []

def printedPuts (options : RenderOptions) (p : Pen) : Printed → List Put
  | .text line style _ prePadded =>
    documentStylePuts p options.profile (styleOf style prePadded) ++
      encoderStylePuts p (styleOf style prePadded) ++
      textPuts (encoded p.codePage line) ++ [.text 0x0A]
  | .image gray width height target dither align =>
    alignPuts p align ++ imagePuts (payloadOf options gray width height dither) target
  | .barcode command align => alignPuts p align ++ [.command command]

/-- What an operation puts. -/
def emitPuts (options : RenderOptions) (p : Pen) : LayoutOp → List Put
  | .printed op => printedPuts options p op
  | .feed lines dots =>
    if 0 < dots then dotPuts (UInt16.ofNat (min dots 0xFFFF))
    else if 0 < lines then [.command [0x1B, 0x64, UInt8.ofNat lines]]
    else []
  | .qr payload size ec align =>
    alignPuts p align ++ qrPuts payload (UInt8.ofNat size.toNat) ec.toByte 50
  | .drawerKick pin pulse =>
    [.command [0x1B, 0x70, UInt8.ofNat pin.toNat, UInt8.ofNat pulse.toNat,
      UInt8.ofNat pulse.toNat]]
  | .raw bytes => [.command bytes]
  | .cut kind clearance =>
    (if 0 < clearance then dotPuts (UInt16.ofNat (min clearance 0xFFFF)) else []) ++
      [.command (if p.cutWithFeed then cutWithFeedBytes kind p.cutFeedUnits else cutBytes kind)]

/-- What the operations put, one after the other. -/
def emitAllPuts (options : RenderOptions) : List LayoutOp → Pen → List Put
  | [], _ => []
  | op :: ops, p =>
    emitPuts options p op ++ ((emit codecs options p op).map (emitAllPuts options ops)).getD []

/-- What the options ask to be sent first. -/
def openingPuts (options : RenderOptions) : List Put :=
  (if options.emitInitialize then [.command [0x1B, 0x40]] else []) ++
    if options.emitCodePage then
      changed (CodePage.pc437 = options.profile.codePage)
        [0x1B, 0x74, codePageByte options.profile.codePage]
    else []

/-- All that a document puts. -/
def documentPuts {Copy : Type} (setter : Typesetter Copy) (options : RenderOptions)
    (blocks : List (Block Copy)) : List Put :=
  openingPuts options ++
    emitAllPuts options (layoutDocument setter options blocks).ops (penOf options)

/-! ### The puts are the bytes -/

/-- The pen, with these puts written. -/
def written (p : Pen) (puts : List Put) : Pen := p.put (spelled puts)

section Written
variable {p : Pen}

theorem put_nil (p : Pen) : p.put [] = p := by
  unfold Pen.put Pen.onEncoder EscposEncoder.raw
  dsimp only
  rw [List.append_nil]

theorem written_nil (p : Pen) : written p [] = p := put_nil p

theorem written_command (p : Pen) (bytes : Bytes) : written p [.command bytes] = p.put bytes := by
  unfold written
  rw [spelled_cons, spelled_nil, List.append_nil]
  rfl

/-- A style command is left out where nothing changes. -/
theorem written_changed (p : Pen) (same : Prop) [Decidable same] (bytes : Bytes) :
    written p (changed same bytes) = if same then p else p.put bytes := by
  unfold changed
  by_cases hs : same
  · rw [if_pos hs, decide_eq_true hs]
    exact written_nil p
  · rw [if_neg hs, decide_eq_false hs]
    exact written_command p bytes

theorem selectFont_eq (p : Pen) (fontB : Bool) : p.selectFont fontB =
    { written p (changed (fontB = p.fontB) [0x1B, 0x4D, if fontB then 1 else 0]) with
      fontB := fontB } := by
  unfold Pen.selectFont
  rw [written_changed]
  split_ifs with h
  · cases h
    rfl
  all_goals rfl

theorem selectInverse_eq (p : Pen) (inverse : Bool) : p.selectInverse inverse =
    { written p (changed (inverse = p.inverse) [0x1D, 0x42, if inverse then 1 else 0]) with
      inverse := inverse } := by
  unfold Pen.selectInverse
  rw [written_changed]
  split_ifs with h
  · cases h
    rfl
  all_goals rfl

theorem selectUpsideDown_eq (p : Pen) (upsideDown : Bool) : p.selectUpsideDown upsideDown =
    { written p (changed (upsideDown = p.upsideDown)
        [0x1B, 0x7B, if upsideDown then 1 else 0]) with upsideDown := upsideDown } := by
  unfold Pen.selectUpsideDown
  rw [written_changed]
  split_ifs with h
  · cases h
    rfl
  all_goals rfl

theorem selectLineSpacing_eq (p : Pen) (dots : ℤ) : p.selectLineSpacing dots =
    { written p (changed (dots = p.lineSpacing)
        (if dots = 0 then [0x1B, 0x32] else [0x1B, 0x33, UInt8.ofNat dots.toNat])) with
      lineSpacing := dots } := by
  unfold Pen.selectLineSpacing
  rw [written_changed]
  by_cases h : dots = p.lineSpacing
  · rw [if_pos h, if_pos h, h]
  · rw [if_neg h, if_neg h]

theorem selectLetterSpacing_eq (p : Pen) (dots : ℤ) : p.selectLetterSpacing dots =
    { written p (changed (dots = p.letterSpacing) [0x1B, 0x20, UInt8.ofNat dots.toNat]) with
      letterSpacing := dots } := by
  unfold Pen.selectLetterSpacing
  rw [written_changed]
  by_cases h : dots = p.letterSpacing
  · rw [if_pos h, if_pos h, h]
  · rw [if_neg h, if_neg h]

theorem selectLeftMargin_eq (p : Pen) (dots : ℤ) : p.selectLeftMargin dots =
    { written p (changed (dots = p.leftMargin) (wordBytes 0x1D 0x4C dots)) with
      leftMargin := dots } := by
  unfold Pen.selectLeftMargin
  rw [written_changed]
  by_cases h : dots = p.leftMargin
  · rw [if_pos h, if_pos h, h]
  · rw [if_neg h, if_neg h]
    rfl

theorem selectAreaWidth_eq (p : Pen) (dots : ℤ) : p.selectAreaWidth dots =
    { written p (changed (dots = p.areaWidth) (wordBytes 0x1D 0x57 dots)) with
      areaWidth := dots } := by
  unfold Pen.selectAreaWidth
  rw [written_changed]
  by_cases h : dots = p.areaWidth
  · rw [if_pos h, if_pos h, h]
  · rw [if_neg h, if_neg h]
    rfl

theorem align_eq (p : Pen) (align : Align) : (p.onEncoder fun e => e.align align) =
    (written p (alignPuts p align)).onEncoder fun e => { e with alignment := align } := by
  unfold alignPuts
  rw [written_changed]
  unfold Pen.onEncoder EscposEncoder.align
  dsimp only
  by_cases h : p.alignment = align
  · subst h
    rw [if_pos rfl, if_pos rfl]
  · rw [if_neg h, if_neg h]
    rfl

theorem bold_eq (p : Pen) (enabled : Bool) : (p.onEncoder fun e => e.bold enabled) =
    (written p (changed (p.boldOn = enabled)
      [0x1B, 0x45, if enabled then 1 else 0])).onEncoder fun e => { e with boldOn := enabled } := by
  rw [written_changed]
  unfold Pen.onEncoder EscposEncoder.bold
  dsimp only
  by_cases h : p.boldOn = enabled
  · subst h
    rw [if_pos rfl, if_pos rfl]
  · rw [if_neg h, if_neg h]
    rfl

theorem underline_eq (p : Pen) {dots : UInt8} (hd : dots ≤ 2) : p.underline dots =
    some { written p (changed (p.underlined = dots) [0x1B, 0x2D, dots]) with
      underlined := dots } := by
  unfold Pen.underline
  rw [written_changed, if_neg (UInt8.not_lt.mpr hd)]
  by_cases h : p.underlined = dots
  · subst h
    rw [if_pos rfl, if_pos rfl]
  · rw [if_neg h, if_neg h]

theorem textSize_eq (p : Pen) {width height : ℤ} (hw : 1 ≤ width ∧ width ≤ 8)
    (hh : 1 ≤ height ∧ height ≤ 8) : p.textSize width height =
      some { written p (changed (p.sizeWidth = width ∧ p.sizeHeight = height)
          [0x1D, 0x21, UInt8.ofNat ((width - 1) * 16 + (height - 1)).toNat]) with
        sizeWidth := width, sizeHeight := height } := by
  unfold Pen.textSize
  rw [written_changed, if_neg (by omega)]
  by_cases h : p.sizeWidth = width ∧ p.sizeHeight = height
  · rw [if_pos h, if_pos h, ← h.1, ← h.2]
  · rw [if_neg h, if_neg h]

theorem clamp_bounds (n : ℤ) : 1 ≤ clamp 1 8 n ∧ clamp 1 8 n ≤ 8 := by
  unfold clamp
  omega

theorem underlineDots_le (underline : Underline) : underlineDots underline ≤ 2 := by
  cases underline <;> decide

/-- The pen with all that a style selects. -/
def styled (p : Pen) (profile : RenderProfile) (style : ResolvedStyle) : Pen :=
  { written p (documentStylePuts p profile style ++ encoderStylePuts p style) with
    alignment := style.align
    boldOn := style.bold
    underlined := underlineDots style.underline
    sizeWidth := clamp 1 8 style.widthScale
    sizeHeight := clamp 1 8 style.heightScale
    fontB := style.font = str "printerB"
    inverse := style.inverse
    upsideDown := style.upsideDown
    lineSpacing := clamp 0 255 style.lineSpacingDots
    letterSpacing := clamp 0 255 style.letterSpacingDots
    leftMargin := leftMarginOf style
    areaWidth := areaOf profile style }

/-- A style is always selected. -/
theorem applyStyle_eq (p : Pen) (profile : RenderProfile) (style : ResolvedStyle) :
    p.applyStyle profile style = some (styled p profile style) := by
  unfold Pen.applyStyle
  dsimp only
  rw [selectFont_eq, selectInverse_eq, selectUpsideDown_eq, selectLineSpacing_eq,
    selectLetterSpacing_eq, selectLeftMargin_eq, selectAreaWidth_eq]
  have hstyle : ∀ q : Pen, (q.onEncoder fun e => (e.align style.align).bold style.bold) =
      (q.onEncoder fun e => e.align style.align).onEncoder fun e => e.bold style.bold :=
    fun q => rfl
  rw [hstyle, align_eq, bold_eq, underline_eq _ (underlineDots_le _), Option.bind_eq_bind,
    Option.bind_some, textSize_eq _ (clamp_bounds _) (clamp_bounds _)]
  unfold styled documentStylePuts encoderStylePuts alignPuts written Pen.put Pen.onEncoder
    EscposEncoder.raw
  dsimp only
  simp only [spelled_append, List.append_assoc]
  rfl

end Written

/-- The buffer has these puts behind it. -/
def Wrote (p p' : Pen) (puts : List Put) : Prop := p'.buffer = p.buffer ++ spelled puts

section Wrote
variable {p p' q : Pen} {puts more : List Put} {options : RenderOptions}

theorem Wrote.trans (h : Wrote p q puts) (h' : Wrote q p' more) : Wrote p p' (puts ++ more) := by
  unfold Wrote at *
  rw [h', h, spelled_append, List.append_assoc]

theorem wrote_of_bytes {bytes : Bytes} (h : p'.buffer = p.buffer ++ bytes)
    (hb : bytes = spelled puts) : Wrote p p' puts := by
  unfold Wrote
  rw [h, hb]

theorem wrote_align (p : Pen) (align : Align) :
    Wrote p (p.onEncoder fun e => e.align align) (alignPuts p align) := by
  rw [align_eq]
  rfl

theorem spelled_rasterPuts {w band : ℕ} : ∀ {height : ℕ} {data : Bytes},
    spelled (rasterPuts 0 w band height data) = bandedRaster w band height data
  | 0, data => by
    rw [rasterPuts, bandedRaster]
    rfl
  | height + 1, data => by
    rw [rasterPuts, bandedRaster, spelled_cons, spelled_rasterPuts]
    rfl

theorem wrote_image {raster : RasterPayload} {target : ℕ} {e : EscposEncoder}
    (h : p.toEscposEncoder.rasterGrayscale codecs raster target = some e) :
    Wrote p { p with toEscposEncoder := e } (imagePuts raster target) := by
  obtain ⟨packed, hpacked, rfl⟩ := Option.map_eq_some_iff.mp h
  refine wrote_of_bytes rfl ?_
  unfold imagePuts
  have hok : packGrayscale raster target = .ok packed := by
    cases hp : packGrayscale raster target with
    | error fault =>
      have hnone : codecs.packGrayscale raster target = none := by
        show (packGrayscale raster target).toOption = none
        rw [hp]
        rfl
      rw [hnone] at hpacked
      cases hpacked
    | ok packed' =>
      have hsome : codecs.packGrayscale raster target = some packed' := by
        show (packGrayscale raster target).toOption = some packed'
        rw [hp]
        rfl
      rw [hsome] at hpacked
      cases hpacked
      rfl
  rw [hok]
  exact spelled_rasterPuts.symm

theorem wrote_printed {op : Printed} (h : emitPrinted codecs options p op = some p') :
    Wrote p p' (printedPuts options p op) := by
  cases op with
  | text line style columns prePadded =>
    unfold emitPrinted at h
    dsimp only at h
    rw [applyStyle_eq, Option.bind_eq_bind, Option.bind_some] at h
    cases h
    have hstyled : Wrote p (styled p options.profile (styleOf style prePadded))
        (documentStylePuts p options.profile (styleOf style prePadded) ++
          encoderStylePuts p (styleOf style prePadded)) := rfl
    have hline : Wrote (styled p options.profile (styleOf style prePadded))
        ((styled p options.profile (styleOf style prePadded)).onEncoder fun e =>
          e.line codecs line) (textPuts (encoded p.codePage line) ++ [.text 0x0A]) := by
      have hbytes : encoded p.codePage line ++ [0x0A] =
          spelled (textPuts (encoded p.codePage line) ++ [.text 0x0A]) := by
        rw [spelled_append, spelled_textPuts]
        rfl
      exact wrote_of_bytes (List.append_assoc _ _ _) hbytes
    rw [printedPuts, List.append_assoc _ (textPuts _)]
    exact hstyled.trans hline
  | image gray width height target dither align =>
    obtain ⟨e, he, hp⟩ := Option.bind_eq_some_iff.mp h
    cases hp
    exact (wrote_align p align).trans (wrote_image he)
  | barcode command align =>
    cases h
    refine (wrote_align p align).trans (wrote_of_bytes rfl ?_)
    rw [spelled_cons, spelled_nil, List.append_nil]
    rfl

theorem wrote_feedDots (p : Pen) (dots : UInt16) :
    Wrote p (p.onEncoder fun e => e.feedDots dots) (dotPuts dots) :=
  wrote_of_bytes rfl (spelled_dotPuts dots).symm

theorem wrote_cut (p : Pen) (mode : CutMode) : Wrote p (p.onEncoder fun e => e.cut mode)
    [.command (if p.cutWithFeed then cutWithFeedBytes mode p.cutFeedUnits else cutBytes mode)] := by
  unfold Pen.onEncoder EscposEncoder.cut
  dsimp only
  by_cases hfeed : p.cutWithFeed = true
  · rw [if_pos hfeed, if_pos hfeed]
    exact wrote_of_bytes rfl rfl
  · rw [if_neg hfeed, if_neg hfeed]
    exact wrote_of_bytes rfl rfl

/-- **The puts of an operation are its bytes.** -/
theorem wrote_emit {op : LayoutOp} (h : emit codecs options p op = some p') :
    Wrote p p' (emitPuts options p op) := by
  cases op with
  | printed op => exact wrote_printed h
  | feed lines dots =>
    unfold emit at h
    dsimp only at h
    rw [emitPuts]
    split_ifs at h ⊢
    · cases h
      exact wrote_of_bytes rfl (spelled_dotPuts _).symm
    · cases h
      exact wrote_of_bytes rfl rfl
    · cases h
      exact wrote_of_bytes (List.append_nil _).symm rfl
  | qr payload size ec align =>
    refine (wrote_align p align).trans ?_
    unfold emit Pen.qr at h
    dsimp only at h
    split_ifs at h
    cases h
    refine wrote_of_bytes rfl ?_
    simp only [qrPuts, spelled_cons, spelled_nil, Put.bytes, List.append_assoc, List.append_nil]
  | drawerKick pin pulse =>
    unfold emit Pen.kickCashDrawer at h
    dsimp only at h
    split_ifs at h
    cases h
    exact wrote_of_bytes rfl rfl
  | raw bytes =>
    cases h
    exact wrote_of_bytes rfl (List.append_nil bytes).symm
  | cut kind clearance =>
    unfold emit at h
    cases h
    rw [emitPuts]
    by_cases hclear : 0 < clearance
    · rw [if_pos hclear, if_pos hclear]
      exact (wrote_feedDots p _).trans (wrote_cut _ kind)
    · rw [if_neg hclear, if_neg hclear]
      exact wrote_cut p kind

theorem wrote_emitAll : ∀ {ops : List LayoutOp} {p p' : Pen},
    emitAll codecs options ops p = some p' → Wrote p p' (emitAllPuts options ops p)
  | [], p, p', h => by
    cases h
    exact (List.append_nil _).symm
  | op :: ops, p, p', h => by
    obtain ⟨q, hq, hops⟩ := Option.bind_eq_some_iff.mp h
    rw [emitAllPuts, hq]
    exact (wrote_emit hq).trans (wrote_emitAll hops)

theorem wrote_penOf (options : RenderOptions) :
    (penOf options).buffer = spelled (openingPuts options) := by
  have hselect : ∀ p : Pen, p.codePage = .pc437 →
      Wrote p (p.onEncoder fun e => e.selectCodePage options.profile.codePage)
        (changed (CodePage.pc437 = options.profile.codePage)
          [0x1B, 0x74, codePageByte options.profile.codePage]) := by
    intro p hp
    unfold Pen.onEncoder EscposEncoder.selectCodePage changed
    dsimp only
    rw [hp]
    by_cases hsame : CodePage.pc437 = options.profile.codePage
    · rw [if_pos hsame, decide_eq_true hsame]
      exact (List.append_nil _).symm
    · rw [if_neg hsame, decide_eq_false hsame]
      exact wrote_of_bytes rfl rfl
  unfold penOf openingPuts
  dsimp only
  by_cases hinit : options.emitInitialize = true
  · rw [if_pos hinit, if_pos hinit]
    by_cases hpage : options.emitCodePage = true
    · rw [if_pos hpage, if_pos hpage]
      exact hselect _ rfl
    · rw [if_neg hpage, if_neg hpage]
      rfl
  · rw [if_neg hinit, if_neg hinit]
    by_cases hpage : options.emitCodePage = true
    · rw [if_pos hpage, if_pos hpage]
      exact hselect _ rfl
    · rw [if_neg hpage, if_neg hpage]
      rfl

end Wrote

section Render
variable {Copy : Type} {setter : Typesetter Copy} {options : RenderOptions}
  {blocks : List (Block Copy)} {out : RenderOutput}

/-- **The puts of a document are its bytes.** -/
theorem render_spelled (h : render setter codecs options blocks = some out) :
    out.bytes = spelled (documentPuts setter options blocks) := by
  obtain ⟨p, hp, rfl⟩ := Option.map_eq_some_iff.mp h
  have hall := wrote_emitAll hp
  unfold documentPuts
  rw [spelled_append, ← wrote_penOf]
  exact hall

end Render

/-! ### Operations that Star can follow -/

/-- The style needs none of the commands that the table lacks. -/
structure Portable (profile : RenderProfile) (style : ResolvedStyle) : Prop where
  fontA : style.font ≠ str "printerB"
  inverse : style.inverse = false
  upright : style.upsideDown = false
  lineSpacing : clamp 0 255 style.lineSpacingDots = 0
  letterSpacing : clamp 0 255 style.letterSpacingDots = 0
  leftMargin : leftMarginOf style = 0
  areaWidth : areaOf profile style = int32 profile.widthDots

/-- The operation needs none of the commands that the table lacks; bytes that are spliced in are
one command of it. -/
def Followed (rasterLineMode : Bool) (options : RenderOptions) : LayoutOp → Prop
  | .printed (.text _ style _ _) => Portable options.profile style
  | .printed (.image gray width height target dither _) =>
    (packGrayscale (payloadOf options gray width height dither) target).toOption.isSome = true →
      bytesPerRow target < 65536
  | .printed (.barcode command _) => (translation rasterLineMode command).isSome = true
  | .raw bytes => (translation rasterLineMode bytes).isSome = true
  | .feed _ _ | .qr _ _ _ _ | .drawerKick _ _ | .cut _ _ => True

/-- None of the styles is selected that only documents use. -/
structure Bare (profile : RenderProfile) (p : Pen) : Prop where
  fontA : p.fontB = false
  inverse : p.inverse = false
  upright : p.upsideDown = false
  lineSpacing : p.lineSpacing = 0
  letterSpacing : p.letterSpacing = 0
  leftMargin : p.leftMargin = 0
  areaWidth : p.areaWidth = int32 profile.widthDots

section Followed
variable {rasterLineMode : Bool} {p p' : Pen} {options : RenderOptions} {profile : RenderProfile}
  {style : ResolvedStyle}

/-- A command that the table lacks is left out, or all is lost. -/
theorem familiar_changed_iff {same : Bool} {bytes : Bytes}
    (h : (translation rasterLineMode bytes).isSome = false) :
    Familiar rasterLineMode (changed same bytes) ↔ same = true := by
  unfold changed
  cases same with
  | true => exact iff_of_true familiar_nil rfl
  | false =>
    refine iff_of_false (fun hf => ?_) Bool.false_ne_true
    have hsome : (translation rasterLineMode bytes).isSome = true := (familiar_command bytes).mp hf |>.1
    rw [h] at hsome
    cases hsome

theorem familiar_documentStyle (hp : Bare profile p) :
    Familiar rasterLineMode (documentStylePuts p profile style) ↔ Portable profile style := by
  have hline : (translation rasterLineMode
      (if clamp 0 255 style.lineSpacingDots = 0 then [0x1B, 0x32]
        else [0x1B, 0x33, UInt8.ofNat (clamp 0 255 style.lineSpacingDots).toNat])).isSome = false := by
    split_ifs <;> rfl
  unfold documentStylePuts
  dsimp only
  rw [familiar_append, familiar_append, familiar_append, familiar_append, familiar_append,
    familiar_append, familiar_changed_iff rfl, familiar_changed_iff rfl, familiar_changed_iff rfl,
    familiar_changed_iff hline, familiar_changed_iff rfl, familiar_changed_iff rfl,
    familiar_changed_iff rfl, hp.fontA, hp.inverse, hp.upright, hp.lineSpacing, hp.letterSpacing,
    hp.leftMargin, hp.areaWidth]
  simp only [decide_eq_true_eq, decide_eq_false_iff_not]
  constructor
  · rintro ⟨⟨⟨⟨⟨⟨hfont, hinverse⟩, hdown⟩, hline⟩, hletter⟩, hmargin⟩, harea⟩
    exact ⟨hfont, hinverse, hdown, hline, hletter, hmargin, harea⟩
  · intro h
    exact ⟨⟨⟨⟨⟨⟨h.fontA, h.inverse⟩, h.upright⟩, h.lineSpacing⟩, h.letterSpacing⟩, h.leftMargin⟩,
      h.areaWidth⟩

theorem familiar_encoderStyle : Familiar rasterLineMode (encoderStylePuts p style) := by
  unfold encoderStylePuts alignPuts
  dsimp only
  rw [familiar_append, familiar_append, familiar_append]
  exact ⟨⟨⟨familiar_changed rfl, familiar_changed rfl⟩, familiar_changed rfl⟩, familiar_changed rfl⟩

theorem familiar_align {align : Align} : Familiar rasterLineMode (alignPuts p align) :=
  familiar_changed rfl

/-- Only the alignment may differ. -/
theorem portable_styleOf {prePadded : Bool} :
    Portable profile (styleOf style prePadded) ↔ Portable profile style := by
  unfold styleOf
  split_ifs
  · exact ⟨fun h => ⟨h.1, h.2, h.3, h.4, h.5, h.6, h.7⟩, fun h => ⟨h.1, h.2, h.3, h.4, h.5, h.6, h.7⟩⟩
  · exact Iff.rfl

theorem familiar_imagePuts {raster : RasterPayload} {target : ℕ} :
    Familiar rasterLineMode (imagePuts raster target) ↔
      ((packGrayscale raster target).toOption.isSome = true → bytesPerRow target < 65536) := by
  unfold imagePuts
  cases hpack : packGrayscale raster target with
  | error fault => exact iff_of_true familiar_nil (fun h => nomatch h)
  | ok packed =>
    obtain ⟨hrow, hpos, hmax, hlen⟩ := packed_shape hpack
    dsimp only
    rw [familiar_rasterPuts hmax hlen, hrow]
    constructor
    · rintro (hzero | hlt) -
      · omega
      · exact hlt
    · intro h
      exact .inr (h rfl)

/-- **What an operation puts is in the table** exactly if the operation can be followed. -/
theorem familiar_emitPuts {op : LayoutOp} (hp : Bare options.profile p)
    (h : emit codecs options p op = some p') :
    Familiar rasterLineMode (emitPuts options p op) ↔ Followed rasterLineMode options op := by
  cases op with
  | printed op =>
    cases op with
    | text line style columns prePadded =>
      have hline : Familiar rasterLineMode
          (textPuts (encoded p.codePage line) ++ [.text 0x0A]) :=
        familiar_append.mpr ⟨familiar_textPuts _, (familiar_text 0x0A).mpr familiar_nil⟩
      rw [emitPuts, printedPuts, List.append_assoc _ (textPuts _), familiar_append, familiar_append,
        familiar_documentStyle hp, portable_styleOf]
      exact ⟨fun hf => hf.1.1, fun hf => ⟨⟨hf, familiar_encoderStyle⟩, hline⟩⟩
    | image gray width height target dither align =>
      rw [emitPuts, printedPuts, familiar_append, familiar_imagePuts]
      exact and_iff_right familiar_align
    | barcode command align =>
      rw [emitPuts, printedPuts, familiar_append, familiar_command]
      exact ⟨fun hf => hf.2.1, fun hf => ⟨familiar_align, hf, familiar_nil⟩⟩
  | feed lines dots =>
    rw [emitPuts]
    refine iff_of_true ?_ trivial
    split_ifs
    · exact familiar_dotPuts _
    · exact familiar_single rfl
    · exact familiar_nil
  | qr payload size ec align =>
    have hlen : payload.length ≤ 0xFFFF - 3 := by
      unfold emit Pen.qr at h
      dsimp only at h
      split_ifs at h with hsize hlen
      omega
    exact iff_of_true (familiar_append.mpr ⟨familiar_align, familiar_qrPuts _ _ _ hlen⟩) trivial
  | drawerKick pin pulse => exact iff_of_true (familiar_single rfl) trivial
  | raw bytes =>
    rw [emitPuts, familiar_command]
    exact and_iff_left familiar_nil
  | cut kind clearance =>
    rw [emitPuts]
    refine iff_of_true (familiar_append.mpr ⟨?_, ?_⟩) trivial
    · split_ifs
      · exact familiar_dotPuts _
      · exact familiar_nil
    · split_ifs
      · exact familiar_cutWithFeed
      · exact familiar_cut

theorem bare_onEncoder (f : EscposEncoder → EscposEncoder) (hp : Bare profile p) :
    Bare profile (p.onEncoder f) := ⟨hp.1, hp.2, hp.3, hp.4, hp.5, hp.6, hp.7⟩

theorem bare_styled (h : Portable profile style) : Bare profile (styled p profile style) :=
  ⟨decide_eq_false h.fontA, h.inverse, h.upright, h.lineSpacing, h.letterSpacing, h.leftMargin,
    h.areaWidth⟩

/-- An operation that can be followed selects nothing that only documents use. -/
theorem bare_emit {op : LayoutOp} (hp : Bare options.profile p)
    (h : emit codecs options p op = some p') (hf : Followed rasterLineMode options op) :
    Bare options.profile p' := by
  cases op with
  | printed op =>
    cases op with
    | text line style columns prePadded =>
      unfold emit emitPrinted at h
      dsimp only at h
      rw [applyStyle_eq, Option.bind_eq_bind, Option.bind_some] at h
      cases h
      exact bare_onEncoder _ (bare_styled (portable_styleOf.mpr hf))
    | image gray width height target dither align =>
      obtain ⟨e, -, he⟩ := Option.bind_eq_some_iff.mp h
      cases he
      exact bare_onEncoder (fun _ => e) (bare_onEncoder _ hp)
    | barcode command align =>
      cases h
      exact bare_onEncoder _ (bare_onEncoder _ hp)
  | feed lines dots =>
    unfold emit at h
    dsimp only at h
    split_ifs at h
    · cases h
      exact bare_onEncoder _ hp
    · cases h
      exact bare_onEncoder _ hp
    · cases h
      exact hp
  | qr payload size ec align =>
    unfold emit Pen.qr at h
    dsimp only at h
    split_ifs at h
    cases h
    exact bare_onEncoder _ (bare_onEncoder _ hp)
  | drawerKick pin pulse =>
    unfold emit Pen.kickCashDrawer at h
    dsimp only at h
    split_ifs at h
    cases h
    exact bare_onEncoder _ hp
  | raw bytes =>
    cases h
    exact bare_onEncoder _ hp
  | cut kind clearance =>
    unfold emit at h
    cases h
    refine bare_onEncoder _ ?_
    split_ifs
    · exact bare_onEncoder _ hp
    · exact hp

theorem familiar_emitAll : ∀ {ops : List LayoutOp} {p p' : Pen}, Bare options.profile p →
    emitAll codecs options ops p = some p' →
      (Familiar rasterLineMode (emitAllPuts options ops p) ↔
        ∀ op ∈ ops, Followed rasterLineMode options op)
  | [], _, _, _, _ => iff_of_true familiar_nil (fun _ h => absurd h List.not_mem_nil)
  | op :: ops, p, p', hp, h => by
    obtain ⟨q, hq, hops⟩ := Option.bind_eq_some_iff.mp h
    rw [emitAllPuts, hq, familiar_append, familiar_emitPuts hp hq, List.forall_mem_cons]
    refine and_congr_right fun hf => ?_
    exact familiar_emitAll (bare_emit hp hq hf) hops

theorem bare_penOf (options : RenderOptions) : Bare options.profile (penOf options) := by
  have hblank : ∀ e : EscposEncoder, Bare options.profile
      { toEscposEncoder := e, areaWidth := int32 options.profile.widthDots } := by
    intro e
    refine ⟨rfl, rfl, rfl, rfl, rfl, rfl, ?_⟩
    dsimp only
  have hinit : ∀ p : Pen, Bare options.profile p → Bare options.profile p.initPrinter :=
    fun p hp => ⟨hp.1, hp.2, hp.3, hp.4, hp.5, hp.6, hp.7⟩
  unfold penOf
  dsimp only
  split_ifs
  · exact bare_onEncoder _ (hinit _ (hblank {}))
  · exact bare_onEncoder _ (hblank {})
  · exact hinit _ (hblank {})
  · exact hblank {}

theorem familiar_opening : Familiar rasterLineMode (openingPuts options) := by
  unfold openingPuts
  have hpage : ∀ n, (translation rasterLineMode [0x1B, 0x74, n]).isSome = true := fun n => rfl
  refine familiar_append.mpr ⟨?_, ?_⟩
  · split_ifs
    · exact familiar_single rfl
    · exact familiar_nil
  · split_ifs
    · exact familiar_changed (hpage _)
    · exact familiar_nil

variable {Copy : Type} {setter : Typesetter Copy} {blocks : List (Block Copy)}
  {out : RenderOutput}

/-- **When a rendered document is respected**: exactly if each of its operations can be followed and
no byte of its text begins like a command. -/
theorem respects_document_iff (h : render setter codecs options blocks = some out) :
    Respects rasterLineMode (documentPuts setter options blocks) ↔
      (∀ op ∈ (layoutDocument setter options blocks).ops, Followed rasterLineMode options op) ∧
        Quiet (documentPuts setter options blocks) := by
  obtain ⟨p, hp, -⟩ := Option.map_eq_some_iff.mp h
  rw [respects_iff, legible_iff]
  refine and_congr_left fun _ => ?_
  unfold documentPuts
  rw [familiar_append, and_iff_right familiar_opening]
  exact familiar_emitAll (bare_penOf options) hp

end Followed

/-! ### Boundaries -/

/-- **When transcoding respects the boundaries of commands**: for operations of the encoder with
plain text exactly if no image is packed into rows that are too long for their field, and for a
document exactly if every operation can be followed and no text begins like a command. -/
theorem transcoding_respects_iff (rasterLineMode : Bool) {Copy : Type} (setter : Typesetter Copy)
    (options : RenderOptions) :
    (∀ ops : List EncoderOp, (∀ op ∈ ops, PlainOp op) →
      (Respects rasterLineMode (record {} ops) ↔ ∀ op ∈ ops, Narrow op)) ∧
    ∀ (blocks : List (Block Copy)) (out : RenderOutput),
      render setter codecs options blocks = some out →
        out.bytes = spelled (documentPuts setter options blocks) ∧
        (Respects rasterLineMode (documentPuts setter options blocks) ↔
          (∀ op ∈ (layoutDocument setter options blocks).ops,
            Followed rasterLineMode options op) ∧ Quiet (documentPuts setter options blocks)) :=
  ⟨fun _ hplain => respects_ops_iff hplain,
    fun _ _ h => ⟨render_spelled h, respects_document_iff h⟩⟩

/-- Sets one line in a font. -/
def inFont (font : Bytes) : Typesetter Bytes where
  set _ _ line := ([.text line { font := font } 48 false], [])

/-- A line in the default font is transcoded as it should be. -/
theorem transcoding_respects_line :
    Respects true (record {} [.bold true, .line (str "A"), .cut .full]) ∧
      Respects true (documentPuts (inFont (str "printerA")) { profile := {} } [.copy (str "A")]) := by
  have hops : ∀ op ∈ [EncoderOp.bold true, .line (str "A"), .cut .full], PlainOp op := by
    intro op hop
    rcases List.mem_cons.mp hop with rfl | hop
    · trivial
    rcases List.mem_cons.mp hop with rfl | hop
    · intro c hc
      cases List.mem_singleton.mp hc
      decide
    · rcases List.mem_cons.mp hop with rfl | hop
      · trivial
      · cases hop
  have hplain : Portable ({} : RenderProfile) { font := str "printerA" } := by
    refine ⟨?_, rfl, rfl, ?_, ?_, ?_, ?_⟩ <;> decide +kernel
  have hout : (render (inFont (str "printerA")) codecs { profile := {} }
      [.copy (str "A")]).isSome = true := by decide +kernel
  obtain ⟨out, hout⟩ := Option.isSome_iff_exists.mp hout
  have hboth := transcoding_respects_iff true (inFont (str "printerA")) { profile := {} }
  refine ⟨(hboth.1 _ hops).mpr ?_, (hboth.2 _ _ hout).2.mpr ⟨?_, by decide +kernel⟩⟩
  · simp [Narrow]
  · intro op hop
    cases List.mem_singleton.mp hop
    exact hplain

/-- The command that selects font B is copied into the output: its escape, the letter of its opcode
and its operand. -/
theorem transcoding_prints_font :
    ((transcodeFromEscPos (spelled (documentPuts (inFont (str "printerB")) { profile := {} }
        [.copy (str "A")])) true).map fun t => t.out.buffer) =
      some [0x1B, 0x4D, 0x01, 0x41, 0x0A] ∧
    ¬ ∀ (blocks : List (Block Bytes)) (out : RenderOutput),
      render (inFont (str "printerB")) codecs { profile := {} } blocks = some out →
        Respects true (documentPuts (inFont (str "printerB")) { profile := {} } blocks) := by
  refine ⟨by decide +kernel, fun hall => ?_⟩
  have hout : (render (inFont (str "printerB")) codecs { profile := {} }
      [.copy (str "A")]).isSome = true := by decide +kernel
  obtain ⟨out, hout⟩ := Option.isSome_iff_exists.mp hout
  have hlegible := respects_iff.mp (hall _ out hout)
  have hfont : (translation true [0x1B, 0x4D, 0x01]).isSome = true :=
    (legible_iff.mp hlegible).1 _ (by decide +kernel)
  cases hfont

end PrinterDriver.Dsl.Strokes
