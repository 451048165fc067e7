import PrinterDriver.Core.Profile
import PrinterDriver.Core.EscposParser
import PrinterDriver.Core.Star

/-! # The encoders

The part of the ESC/POS and Star encoders that frames a job. An encoder is its buffer and the style
it has already selected; a style command is left out when it would change nothing. What turns text
and images into bytes is a parameter (`Codecs`). -/

namespace PrinterDriver.Core.Encoder

open PrinterDriver.Core.Types PrinterDriver.Core.Profile PrinterDriver.Core.EscposParser

inductive Alignment where
  | left | center | right
  deriving DecidableEq, Repr

def Alignment.toByte : Alignment → UInt8
  | .left => 0
  | .center => 1
  | .right => 2

inductive CutMode where
  | partialCut | full
  deriving DecidableEq, Repr

inductive Binarization where
  | fixedThreshold | floydSteinberg
  deriving DecidableEq, Repr

/-- The operand of `ESC t n`. -/
def codePageByte : CodePage → UInt8
  | .pc437 => 0
  | .pc850 => 2
  | .wpc1252 => 16
  | .pc852 => 18
  | .pc858 => 19

structure RasterPayload where
  gray : Bytes
  width : ℕ := 0
  height : ℕ := 0
  binarization : Binarization := .floydSteinberg
  threshold : UInt8 := 128
  maxRowsPerBand : ℕ := 1024
  deriving DecidableEq, Repr

structure PackedRaster where
  widthDots : ℕ
  heightDots : ℕ
  bytesPerRow : ℕ
  data : Bytes
  deriving DecidableEq, Repr

/-- The text and image codecs of the encoders; `none` is an `EncodingError`. -/
structure Codecs where
  transliterate : Bytes → CodePage → Bytes
  packGrayscale : RasterPayload → ℕ → Option PackedRaster
  transcodeFromEscPos : Bytes → Bool → Bytes × List Bytes

/-- Codecs for payloads that need none. -/
def plainCodecs : Codecs where
  transliterate text _ := text
  packGrayscale _ _ := none
  transcodeFromEscPos bytes _ := (bytes, [])

/-- `lo` and `hi` of a 16-bit field. -/
def lowHigh (n : ℕ) : Bytes := [UInt8.ofNat n, UInt8.ofNat (n / 256)]

/-! ### Commands of their own -/

def dleEot (kind : DleEotKind) : Bytes := [0x10, 0x04, kind.toByte]

/-- `GS r 1`. -/
def gsPaperStatus : Bytes := [0x1D, 0x72, 0x01]

def isValidProcessIdToken (token : Bytes) : Bool :=
  token.length = 4 && token.all isPrintableAscii

/-- `GS ( H` function 48; only four printable bytes are accepted. -/
def processIdMarker (token : Bytes) : Option Bytes :=
  if isValidProcessIdToken token then
    some ([0x1D, 0x28, 0x48, 0x06, 0x00, 0x30, 0x30] ++ token)
  else none

/-- `GS v 0` commands of at most `band` rows each. -/
def bandedRaster (bytesPerRow band : ℕ) : ℕ → Bytes → Bytes
  | 0, _ => []
  | height + 1, data =>
    let rows := min (max band 1) (height + 1)
    [0x1D, 0x76, 0x30, 0x00] ++ lowHigh bytesPerRow ++ lowHigh rows ++
      data.take (bytesPerRow * rows) ++
      bandedRaster bytesPerRow band (height + 1 - rows) (data.drop (bytesPerRow * rows))
termination_by height => height
decreasing_by omega

/-- The chunks of at most 255 dots in which `feedDots` feeds. -/
def dotChunks : ℕ → ℕ → Bytes
  | 0, _ => []
  | _ + 1, 0 => []
  | n + 1, dots + 1 => UInt8.ofNat (min 255 (dots + 1)) :: dotChunks n (dots + 1 - min 255 (dots + 1))

/-! ### The ESC/POS encoder -/

structure EscposEncoder where
  buffer : Bytes := []
  codePage : CodePage := .pc437
  alignment : Alignment := .left
  boldOn : Bool := false
  cutWithFeed : Bool := false
  cutFeedUnits : UInt8 := 0
  deriving DecidableEq, Repr

namespace EscposEncoder

def raw (e : EscposEncoder) (data : Bytes) : EscposEncoder := { e with buffer := e.buffer ++ data }

def initPrinter (e : EscposEncoder) : EscposEncoder :=
  { e.raw [0x1B, 0x40] with codePage := .pc437, alignment := .left, boldOn := false }

def selectCodePage (e : EscposEncoder) (codePage : CodePage) : EscposEncoder :=
  if e.codePage = codePage then e
  else { e.raw [0x1B, 0x74, codePageByte codePage] with codePage := codePage }

def align (e : EscposEncoder) (alignment : Alignment) : EscposEncoder :=
  if e.alignment = alignment then e
  else { e.raw [0x1B, 0x61, alignment.toByte] with alignment := alignment }

def bold (e : EscposEncoder) (enabled : Bool) : EscposEncoder :=
  if e.boldOn = enabled then e
  else { e.raw [0x1B, 0x45, if enabled then 1 else 0] with boldOn := enabled }

def feed (e : EscposEncoder) : EscposEncoder := e.raw [0x0A]

def line (c : Codecs) (e : EscposEncoder) (utf8 : Bytes) : EscposEncoder :=
  (e.raw (c.transliterate utf8 e.codePage)).feed

def feedLines (e : EscposEncoder) (lines : UInt8) : EscposEncoder := e.raw [0x1B, 0x64, lines]

/-- `ESC J n`, chunked: `n` is one byte. -/
def feedDots (e : EscposEncoder) (dots : UInt16) : EscposEncoder :=
  e.raw ((dotChunks dots.toNat dots.toNat).flatMap fun n => [0x1B, 0x4A, n])

def useCutWithFeed (e : EscposEncoder) (enabled : Bool) (feedUnits : UInt8) : EscposEncoder :=
  { e with cutWithFeed := enabled, cutFeedUnits := feedUnits }

def cut (e : EscposEncoder) (mode : CutMode) : EscposEncoder :=
  if e.cutWithFeed then e.raw [0x1D, 0x56, if mode = .full then 65 else 66, e.cutFeedUnits]
  else e.raw [0x1D, 0x56, if mode = .full then 0 else 1]

/-- The pulse on pin 2, as the job trailer kicks it. -/
def kickCashDrawer (e : EscposEncoder) : EscposEncoder := e.raw [0x1B, 0x70, 0, 25, 25]

def processId (e : EscposEncoder) (token : Bytes) : Option EscposEncoder :=
  (processIdMarker token).map e.raw

def rasterGrayscale (c : Codecs) (e : EscposEncoder) (raster : RasterPayload)
    (targetWidthDots : ℕ) : Option EscposEncoder :=
  (c.packGrayscale raster targetWidthDots).map fun packed =>
    e.raw (bandedRaster packed.bytesPerRow
      (if raster.maxRowsPerBand = 0 then packed.heightDots else raster.maxRowsPerBand)
      packed.heightDots packed.data)

/-- `GS ( k` with module size 4, level M, model 2; the length field bounds the data. -/
def qr (e : EscposEncoder) (data : Bytes) : Option EscposEncoder :=
  if 0xFFFF - 3 < data.length then none
  else some <| e.raw <|
    [0x1D, 0x28, 0x6B, 0x04, 0x00, 0x31, 0x41, 50, 0x00] ++
    [0x1D, 0x28, 0x6B, 0x03, 0x00, 0x31, 0x43, 4] ++
    [0x1D, 0x28, 0x6B, 0x03, 0x00, 0x31, 0x45, 49] ++
    [0x1D, 0x28, 0x6B] ++ lowHigh (data.length + 3) ++ [0x31, 0x50, 0x30] ++ data ++
    [0x1D, 0x28, 0x6B, 0x03, 0x00, 0x31, 0x51, 0x30]

end EscposEncoder

/-! ### The Star encoder -/

/-- Everything above seven bits becomes a question mark. -/
def transliterateAscii (utf8 : Bytes) : Bytes := utf8.map fun b => if b < 0x80 then b else 0x3F

structure StarEncoder where
  buffer : Bytes := []
  alignment : Alignment := .left
  boldOn : Bool := false
  deriving DecidableEq, Repr

namespace StarEncoder

def raw (e : StarEncoder) (data : Bytes) : StarEncoder := { e with buffer := e.buffer ++ data }

def initPrinter (e : StarEncoder) : StarEncoder :=
  { e.raw [0x1B, 0x40] with alignment := .left, boldOn := false }

/-- `ESC GS a n`, not the `ESC a n` of ESC/POS. -/
def align (e : StarEncoder) (alignment : Alignment) : StarEncoder :=
  if alignment = e.alignment then e
  else { e.raw [0x1B, 0x1D, 0x61, alignment.toByte] with alignment := alignment }

def bold (e : StarEncoder) (enabled : Bool) : StarEncoder :=
  if enabled = e.boldOn then e
  else { e.raw [0x1B, if enabled then 0x45 else 0x46] with boldOn := enabled }

def feed (e : StarEncoder) : StarEncoder := e.raw [0x0A]

def line (e : StarEncoder) (utf8 : Bytes) : StarEncoder := (e.raw (transliterateAscii utf8)).feed

def feedLines (e : StarEncoder) (lines : UInt8) : StarEncoder :=
  if lines = 0 then e else e.raw [0x1B, 0x61, lines]

def feedDots (e : StarEncoder) (dots : UInt16) : StarEncoder :=
  e.raw ((dotChunks dots.toNat dots.toNat).flatMap fun n => [0x1B, 0x4A, n])

/-- `ESC d n`, the variants that feed to the cut position. -/
def cut (e : StarEncoder) (mode : CutMode) : StarEncoder :=
  e.raw [0x1B, 0x64, if mode = .full then 0x02 else 0x03]

/-- One raster command a row. -/
def rasterRows (bytesPerRow : ℕ) : ℕ → Bytes → Bytes
  | 0, _ => []
  | rows + 1, data =>
    0x62 :: lowHigh bytesPerRow ++ data.take bytesPerRow ++
      rasterRows bytesPerRow rows (data.drop bytesPerRow)

def rasterPacked (e : StarEncoder) (packed : PackedRaster) : StarEncoder :=
  let bytesPerRow := (packed.widthDots + 7) / 8
  if packed.widthDots = 0 ∨ packed.heightDots = 0 ∨
      packed.data.length < bytesPerRow * packed.heightDots then e
  else e.raw ([0x1B, 0x2A, 0x72, 0x41] ++ rasterRows bytesPerRow packed.heightDots packed.data ++
    [0x1B, 0x2A, 0x72, 0x42])

def rasterGrayscale (c : Codecs) (e : StarEncoder) (raster : RasterPayload)
    (targetWidthDots : ℕ) : Option StarEncoder :=
  if raster.width = 0 ∨ raster.height = 0 ∨ targetWidthDots = 0 then some e
  else (c.packGrayscale raster targetWidthDots).map e.rasterPacked

end StarEncoder

end PrinterDriver.Core.Encoder
