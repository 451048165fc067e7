import PrinterDriver.Core.Encoder
import Mathlib.Data.Int.Notation
import Mathlib.Algebra.Group.Nat.Defs
import Mathlib.Algebra.Group.Int.Defs

/-! # The receipt renderer

A bound document becomes layout operations, and the operations become ESC/POS bytes. How text, rows,
rules, symbols and images are set is a parameter (`Typesetter`): what it returns are operations that
print. `render` returns the bytes and the report; the cut and the margins that a document asks for
go to the caller and are left out, and so are the operations' source paths. -/

namespace PrinterDriver.Dsl.Render

open PrinterDriver.Core.Types PrinterDriver.Core.Profile PrinterDriver.Core.Encoder

/-! ### Documents -/

/-- The document's own enumeration has the members of the encoder's. -/
abbrev Align : Type := Core.Encoder.Alignment

inductive Underline where
  | none | single | double
  deriving DecidableEq, Repr

inductive Dither where
  | floydSteinberg | threshold | none
  deriving DecidableEq, Repr

inductive QrEc where
  | l | m | q | h
  deriving DecidableEq, Repr

def QrEc.toByte : QrEc → UInt8
  | .l => 48
  | .m => 49
  | .q => 50
  | .h => 51

def underlineDots : Underline → UInt8
  | .none => 0
  | .single => 1
  | .double => 2

/-- What the emitter reads of a resolved style. -/
structure ResolvedStyle where
  font : Bytes := str "printerA"
  widthScale : ℤ := 1
  heightScale : ℤ := 1
  bold : Bool := false
  inverse : Bool := false
  upsideDown : Bool := false
  underline : Underline := .none
  align : Align := .left
  lineSpacingDots : ℤ := 0
  letterSpacingDots : ℤ := 0
  indentDots : ℤ := 0
  marginLeftDots : ℤ := 0
  marginRightDots : ℤ := 0
  deriving DecidableEq, Repr

/-- A block of a bound document; `Copy` is what the blocks hold that the typesetter sets. -/
inductive Block (Copy : Type) where
  | copy (copy : Copy)
  | feed (lines : ℤ) (dots : Option ℤ)
  | cut (kind : CutMode)
  | drawerKick (pin pulse : ℤ)
  | raw (bytes : Bytes)
  | qr (content : Bytes) (size : ℤ) (ec : QrEc) (align : Align)
  /-- `each` and `if`, which binding removes. -/
  | control (kind path : Bytes)
  | custom (kind payload : Bytes)

/-! ### What the renderer knows of the printer -/

/-- The parts of a capability profile that only the renderer reads. -/
structure RenderCapabilities where
  printableWidthDots : ℕ := 576
  cutter : Bool := true
  barcodeGsK : Bool := true
  qrGsParenK : Bool := true
  rasterGsV : Bool := true
  deriving DecidableEq, Repr

structure RenderProfile where
  widthDots : ℕ := 576
  fontACharDots : ℕ := 12
  fontBCharDots : ℕ := 9
  codePage : CodePage := .pc437
  qr : Bool := true
  images : Bool := true
  cutter : Bool := true
  drawerKick : Bool := true
  barcodes : Bool := true
  headToCutterFeedDots : UInt16 := 120
  deriving DecidableEq, Repr

/-- Whether a pulse is allowed is not the renderer's question: `drawerKick` keeps its default. -/
def RenderProfile.from (capability : CapabilityProfile) (media : RenderCapabilities)
    (widthDots : ℕ) : RenderProfile :=
  let escposPath := capability.language = .escPos
  { widthDots := if widthDots ≠ 0 then widthDots else media.printableWidthDots
    codePage := capability.codePage
    cutter := media.cutter
    headToCutterFeedDots := capability.media.headToCutterFeedDots
    barcodes := media.barcodeGsK && escposPath
    qr := media.qrGsParenK && escposPath
    images := media.rasterGsV }

/-- A value that went through a 32-bit integer. -/
def int32 (n : ℤ) : ℤ := n.bmod (2 ^ 32)

/-- The width of a character cell. -/
def RenderProfile.charDots (profile : RenderProfile) (style : ResolvedStyle) : ℕ :=
  let base := if style.font = str "printerB" then profile.fontBCharDots else profile.fontACharDots
  let letter := (max 0 style.letterSpacingDots).toNat
  let scale := (max 1 (min style.widthScale 8)).toNat
  max 1 ((base + letter) * scale % 2 ^ 32)

structure RenderOptions where
  profile : RenderProfile
  /-- The registered block handlers, by the kind and the payload of a block. -/
  registrations : Option (RenderProfile → Bytes → Bytes →
    Option (Except (Bytes × Bytes × Bytes) Bytes)) := none
  emitInitialize : Bool := false
  emitCodePage : Bool := true
  maxRowsPerBand : ℕ := 1024
  cutClearanceDots : UInt16 := 0

/-! ### The report -/

inductive ReportKind where
  | missingPath | unknownFormatter | unformattableValue | malformedTemplate | unknownStyle
  | styleCycle | unsupportedStyle | unsupportedBlock | missingImage | truncated | emptyIteration
  | unsupportedTimezone | rawFramingRisk | note
  deriving DecidableEq, Repr

inductive RenderPath where
  | hardware | raster | notRendered
  deriving DecidableEq, Repr

structure ReportEntry where
  kind : ReportKind
  block : Bytes
  requested : Bytes
  delivered : Bytes
  path : RenderPath := .hardware
  detail : Bytes := []
  deriving DecidableEq, Repr

/-! ### Layout -/

/-- An operation that only prints. -/
inductive Printed where
  | text (line : Bytes) (style : ResolvedStyle) (columns : ℕ) (prePadded : Bool)
  | image (gray : Bytes) (width height targetWidthDots : ℕ) (dither : Dither) (align : Align)
  | barcode (command : Bytes) (align : Align)
  deriving DecidableEq, Repr

inductive LayoutOp where
  | printed (op : Printed)
  | feed (lines dots : ℕ)
  | qr (payload : Bytes) (size : ℤ) (ec : QrEc) (align : Align)
  | drawerKick (pin pulse : ℤ)
  | raw (bytes : Bytes)
  | cut (kind : CutMode) (clearanceDots : ℕ)
  deriving DecidableEq, Repr

/-- How copy is set against a profile, with what the report says of it. -/
structure Typesetter (Copy : Type) where
  set : RenderProfile → Bytes → Copy → List Printed × List ReportEntry

/-- The operations so far, and the report. -/
structure Layout where
  ops : List LayoutOp := []
  report : List ReportEntry := []

namespace Layout

def add (l : Layout) (op : LayoutOp) : Layout := { l with ops := l.ops ++ [op] }

def say (l : Layout) (entry : ReportEntry) : Layout := { l with report := l.report ++ [entry] }

def omitted (l : Layout) (place requested detail : Bytes) : Layout :=
  l.say ⟨.unsupportedBlock, place, requested, str "omitted", .notRendered, detail⟩

end Layout

def clamp (low high n : ℤ) : ℤ := max low (min n high)

def decimal (n : ℤ) : Bytes := str (toString n)

/-- `GS V`, then whether the first risky pair of the bytes is that. -/
def framingRisk : Bytes → Option Bool
  | a :: b :: rest =>
    if a = 0x1D ∧ b = 0x56 then some true
    else if a = 0x10 ∧ (b = 0x04 ∨ b = 0x05) then some false
    else framingRisk (b :: rest)
  | _ => none

def layFeed (l : Layout) (place : Bytes) (lines : ℤ) : Option ℤ → Layout
  | some dots =>
    let requested := max 0 dots
    let l := if 0xFFFF < requested then
        l.say ⟨.malformedTemplate, place, str "feed of " ++ decimal requested ++ str " dots",
          str "clamped to 65535", .hardware, str "beyond any physical roll"⟩
      else l
    l.add (.feed 0 (min requested 0xFFFF).toNat)
  | none => l.add (.feed (clamp 0 255 lines).toNat 0)

def layCut (options : RenderOptions) (l : Layout) (place : Bytes) (isLast : Bool)
    (kind : CutMode) : Layout :=
  if !options.profile.cutter then
    l.omitted place (str "cut:" ++ str (if kind = .full then "full" else "partial"))
      (str "this profile has no cutter")
  else
    let l := if isLast then
        l.say ⟨.note, place, str "cut as the final block", str "emitted in place", .hardware,
          str "the job's trailing cut still applies; consider meta.cut"⟩
      else l
    l.add (.cut kind (max options.profile.headToCutterFeedDots options.cutClearanceDots).toNat)

def layDrawerKick (options : RenderOptions) (l : Layout) (place : Bytes) (pin pulse : ℤ) :
    Layout :=
  if !options.profile.drawerKick then
    l.omitted place (str "drawerKick") (str "this profile has no drawer port")
  else l.add (.drawerKick (clamp 0 1 pin) (clamp 1 255 pulse))

def layRaw (l : Layout) (place bytes : Bytes) : Layout :=
  let l := match framingRisk bytes with
    | some cutCommand =>
      l.say ⟨.rawFramingRisk, place, str "raw bytes", str "passed through", .hardware,
        if cutCommand then str "contains GS V (cut): the core owns job framing"
        else str "contains a realtime status command"⟩
    | none => l
  l.add (.raw bytes)

def layQr (options : RenderOptions) (l : Layout) (place content : Bytes) (size : ℤ) (ec : QrEc)
    (align : Align) : Layout :=
  if !options.profile.qr then
    l.omitted place (str "qr") (str "this profile has no QR support")
  else
    let size' := clamp 1 16 size
    let l := l.add (.qr content size' ec align)
    if size' ≠ size then
      l.say ⟨.truncated, place, str "qr size " ++ decimal size, str "size " ++ decimal size',
        .hardware, str "GS ( k module size is 1..16"⟩
    else l

/-- A registered handler's bytes are spliced in as a raw operation. -/
def layCustom (options : RenderOptions) (l : Layout) (place kind payload : Bytes) : Layout :=
  match options.registrations.bind fun render => render options.profile kind payload with
  | none => l.omitted place kind (str "no handler registered for this block kind")
  | some (.ok bytes) => l.add (.raw bytes)
  | some (.error (requested, delivered, detail)) =>
    l.say ⟨.unsupportedBlock, place, if requested = [] then kind else requested, delivered,
      .notRendered, if detail = [] then str "the block handler declined to render" else detail⟩

/-- One block of the document. -/
def layBlock {Copy : Type} (setter : Typesetter Copy) (options : RenderOptions) (l : Layout)
    (place : Bytes) (isLast : Bool) : Block Copy → Layout
  | .copy copy =>
    let (ops, entries) := setter.set options.profile place copy
    { ops := l.ops ++ ops.map .printed, report := l.report ++ entries }
  | .feed lines dots => layFeed l place lines dots
  | .cut kind => layCut options l place isLast kind
  | .drawerKick pin pulse => layDrawerKick options l place pin pulse
  | .raw bytes => layRaw l place bytes
  | .qr content size ec align => layQr options l place content size ec align
  | .control kind path =>
    l.omitted place (kind ++ str ":" ++ path) (str "template control block in an unbound document")
  | .custom kind payload => layCustom options l place kind payload

/-- The blocks from the index on. -/
def layFrom {Copy : Type} (setter : Typesetter Copy) (options : RenderOptions) :
    ℕ → List (Block Copy) → Layout → Layout
  | _, [], l => l
  | i, b :: bs, l =>
    layFrom setter options (i + 1) bs
      (layBlock setter options l (str "blocks[" ++ decimal i ++ str "]") bs.isEmpty b)

def layoutDocument {Copy : Type} (setter : Typesetter Copy) (options : RenderOptions)
    (blocks : List (Block Copy)) : Layout := layFrom setter options 0 blocks {}

/-! ### Bytes -/

/-- The encoder with the styles that only documents use, and what the emitter has selected. -/
structure Pen extends EscposEncoder where
  underlined : UInt8 := 0
  sizeWidth : ℤ := 1
  sizeHeight : ℤ := 1
  fontB : Bool := false
  inverse : Bool := false
  upsideDown : Bool := false
  lineSpacing : ℤ := 0
  letterSpacing : ℤ := 0
  leftMargin : ℤ := 0
  areaWidth : ℤ := 0
  deriving DecidableEq, Repr

namespace Pen

/-- What the encoder does by itself. -/
def onEncoder (f : EscposEncoder → EscposEncoder) (p : Pen) : Pen :=
  { p with toEscposEncoder := f p.toEscposEncoder }

def put (p : Pen) (bytes : Bytes) : Pen := p.onEncoder fun e => e.raw bytes

/-- A command with a 16-bit operand, saturating. -/
def putWord (p : Pen) (a b : UInt8) (value : ℤ) : Pen :=
  p.put ([a, b] ++ lowHigh (min (value % 2 ^ 32).toNat 0xFFFF))

def initPrinter (p : Pen) : Pen :=
  { p.onEncoder EscposEncoder.initPrinter with underlined := 0, sizeWidth := 1, sizeHeight := 1 }

/-- `none` is an `EncodingError`. -/
def underline (p : Pen) (dots : UInt8) : Option Pen :=
  if 2 < dots then none
  else if p.underlined = dots then some p
  else some { p.put [0x1B, 0x2D, dots] with underlined := dots }

def textSize (p : Pen) (width height : ℤ) : Option Pen :=
  if width < 1 ∨ 8 < width ∨ height < 1 ∨ 8 < height then none
  else if p.sizeWidth = width ∧ p.sizeHeight = height then some p
  else some
    { p.put [0x1D, 0x21, UInt8.ofNat ((width - 1) * 16 + (height - 1)).toNat] with
      sizeWidth := width, sizeHeight := height }

def selectFont (p : Pen) (fontB : Bool) : Pen :=
  if fontB = p.fontB then p
  else { p.put [0x1B, 0x4D, if fontB then 1 else 0] with fontB := fontB }

def selectInverse (p : Pen) (inverse : Bool) : Pen :=
  if inverse = p.inverse then p
  else { p.put [0x1D, 0x42, if inverse then 1 else 0] with inverse := inverse }

def selectUpsideDown (p : Pen) (upsideDown : Bool) : Pen :=
  if upsideDown = p.upsideDown then p
  else { p.put [0x1B, 0x7B, if upsideDown then 1 else 0] with upsideDown := upsideDown }

/-- Zero is the printer's own default. -/
def selectLineSpacing (p : Pen) (dots : ℤ) : Pen :=
  if dots = p.lineSpacing then p
  else
    { p.put (if dots = 0 then [0x1B, 0x32] else [0x1B, 0x33, UInt8.ofNat dots.toNat]) with
      lineSpacing := dots }

def selectLetterSpacing (p : Pen) (dots : ℤ) : Pen :=
  if dots = p.letterSpacing then p
  else { p.put [0x1B, 0x20, UInt8.ofNat dots.toNat] with letterSpacing := dots }

def selectLeftMargin (p : Pen) (dots : ℤ) : Pen :=
  if dots = p.leftMargin then p else { p.putWord 0x1D 0x4C dots with leftMargin := dots }

def selectAreaWidth (p : Pen) (dots : ℤ) : Pen :=
  if dots = p.areaWidth then p else { p.putWord 0x1D 0x57 dots with areaWidth := dots }

/-- The styles that have changed since the line before. -/
def applyStyle (p : Pen) (profile : RenderProfile) (style : ResolvedStyle) : Option Pen := do
  let p := p.selectFont (style.font = str "printerB")
  let p := p.selectInverse style.inverse
  let p := p.selectUpsideDown style.upsideDown
  let p := p.selectLineSpacing (clamp 0 255 style.lineSpacingDots)
  let p := p.selectLetterSpacing (clamp 0 255 style.letterSpacingDots)
  let leftMargin := max 0 (style.marginLeftDots + style.indentDots)
  let p := p.selectLeftMargin leftMargin
  let area := int32 profile.widthDots - leftMargin - max 0 style.marginRightDots
  let p := p.selectAreaWidth (max (int32 (profile.charDots style)) area)
  let p := p.onEncoder fun e => (e.align style.align).bold style.bold
  let p ← p.underline (underlineDots style.underline)
  p.textSize (clamp 1 8 style.widthScale) (clamp 1 8 style.heightScale)

/-- `GS ( k` with a module size and an error correction level. -/
def qr (p : Pen) (data : Bytes) (size : ℤ) (ec : QrEc) : Option Pen :=
  if size < 1 ∨ 16 < size then none
  else if 0xFFFF - 3 < data.length then none
  else some <| p.put <|
    [0x1D, 0x28, 0x6B, 0x04, 0x00, 0x31, 0x41, 50, 0x00] ++
    [0x1D, 0x28, 0x6B, 0x03, 0x00, 0x31, 0x43, UInt8.ofNat size.toNat] ++
    [0x1D, 0x28, 0x6B, 0x03, 0x00, 0x31, 0x45, ec.toByte] ++
    [0x1D, 0x28, 0x6B] ++ lowHigh (data.length + 3) ++ [0x31, 0x50, 0x30] ++ data ++
    [0x1D, 0x28, 0x6B, 0x03, 0x00, 0x31, 0x51, 0x30]

/-- `ESC p` with a pin and a pulse in units of 2 ms. -/
def kickCashDrawer (p : Pen) (pin onTime offTime : UInt8) : Option Pen :=
  if 1 < pin then none else some (p.put [0x1B, 0x70, pin, onTime, offTime])

end Pen

/-- What prints. -/
def emitPrinted (c : Codecs) (options : RenderOptions) (p : Pen) : Printed → Option Pen
  | .text line style _ prePadded => do
    let style := if prePadded then { style with align := .left } else style
    let p ← p.applyStyle options.profile style
    return p.onEncoder fun e => e.line c line
  | .image gray width height target dither align => do
    let p := p.onEncoder fun e => e.align align
    let binarization := if dither = .floydSteinberg then .floydSteinberg else .fixedThreshold
    let e ← p.toEscposEncoder.rasterGrayscale c
      { gray := gray, width := width, height := height, binarization := binarization
        threshold := 128, maxRowsPerBand := options.maxRowsPerBand } target
    return { p with toEscposEncoder := e }
  | .barcode command align => some ((p.onEncoder fun e => e.align align).put command)

/-- One operation; `none` is an `EncodingError`. -/
def emit (c : Codecs) (options : RenderOptions) (p : Pen) : LayoutOp → Option Pen
  | .printed op => emitPrinted c options p op
  | .feed lines dots =>
    if 0 < dots then some (p.onEncoder fun e => e.feedDots (UInt16.ofNat (min dots 0xFFFF)))
    else if 0 < lines then some (p.onEncoder fun e => e.feedLines (UInt8.ofNat lines))
    else some p
  | .qr payload size ec align => (p.onEncoder fun e => e.align align).qr payload size ec
  | .drawerKick pin pulse =>
    p.kickCashDrawer (UInt8.ofNat pin.toNat) (UInt8.ofNat pulse.toNat) (UInt8.ofNat pulse.toNat)
  | .raw bytes => some (p.put bytes)
  | .cut kind clearance =>
    let p := if 0 < clearance then
        p.onEncoder fun e => e.feedDots (UInt16.ofNat (min clearance 0xFFFF))
      else p
    some (p.onEncoder fun e => e.cut kind)

def emitAll (c : Codecs) (options : RenderOptions) : List LayoutOp → Pen → Option Pen
  | [], p => some p
  | op :: ops, p => (emit c options p op).bind (emitAll c options ops)

/-- The printer's power-on defaults, and what the options ask to be sent first. -/
def penOf (options : RenderOptions) : Pen :=
  let p : Pen := { areaWidth := int32 options.profile.widthDots }
  let p := if options.emitInitialize then p.initPrinter else p
  if options.emitCodePage then p.onEncoder fun e => e.selectCodePage options.profile.codePage
  else p

structure RenderOutput where
  bytes : Bytes
  codePage : CodePage
  report : List ReportEntry

def render {Copy : Type} (setter : Typesetter Copy) (c : Codecs) (options : RenderOptions)
    (blocks : List (Block Copy)) : Option RenderOutput :=
  let laid := layoutDocument setter options blocks
  (emitAll c options laid.ops (penOf options)).map fun p =>
    ⟨p.buffer, p.codePage, laid.report⟩

end PrinterDriver.Dsl.Render
