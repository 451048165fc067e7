import PrinterDriver.Dsl.Render
import PrinterDriver.Dsl.Values

/-! # Receipt documents

The document model: named styles and a vertical list of blocks. `each` and `if` hold further blocks,
and every other block is a leaf. -/

namespace PrinterDriver.Dsl.Documents

open PrinterDriver.Core.Types PrinterDriver.Core.Encoder PrinterDriver.Dsl.Values
open PrinterDriver.Dsl.Render (Align Underline Dither QrEc)

inductive Wrap where
  | word | char | clip | ellipsis
  deriving DecidableEq, Repr

inductive DividerKind where
  | solid | dashed | double | char
  deriving DecidableEq, Repr

inductive Hri where
  | none | above | below | both
  deriving DecidableEq, Repr

inductive CutRequest where
  | profile | partialCut | full | none
  deriving DecidableEq, Repr

inductive Symbology where
  | upcA | upcE | ean13 | ean8 | code39 | itf | codabar | code93 | code128 | gs1_128 | pdf417
  | dataMatrix
  deriving DecidableEq, Repr

/-! ### Styles -/

/-- What is absent is inherited. -/
structure TextStyle where
  inherits : Option Bytes := none
  font : Option Bytes := none
  widthScale : Option ℤ := none
  heightScale : Option ℤ := none
  bold : Option Bool := none
  italic : Option Bool := none
  inverse : Option Bool := none
  upsideDown : Option Bool := none
  rotate90 : Option Bool := none
  underline : Option Underline := none
  align : Option Align := none
  lineSpacingDots : Option ℤ := none
  letterSpacingDots : Option ℤ := none
  wrap : Option Wrap := none
  indentDots : Option ℤ := none
  marginLeftDots : Option ℤ := none
  marginRightDots : Option ℤ := none
  deriving DecidableEq, Repr

/-- A named style, an inline style, or both. -/
structure StyleRef where
  name : Option Bytes := none
  inlineStyle : TextStyle := {}
  deriving DecidableEq, Repr

/-! ### Blocks -/

inductive WidthUnit where
  | flex | chars | dots | percent
  deriving DecidableEq, Repr

structure CellWidth where
  unit : WidthUnit := .flex
  value : ℤ := 1
  deriving DecidableEq, Repr

structure Cell where
  content : Bytes := []
  width : CellWidth := {}
  align : Option Align := none
  wrap : Option Wrap := none
  style : StyleRef := {}
  deriving DecidableEq, Repr

structure Divider where
  kind : DividerKind := .solid
  /-- Where the kind is a character. -/
  char : Bytes := []
  thicknessDots : Option ℤ := none
  style : StyleRef := {}
  deriving DecidableEq, Repr

structure Barcode where
  content : Bytes := []
  symbology : Symbology := .code128
  heightDots : ℤ := 64
  moduleWidth : ℤ := 2
  hri : Hri := .none
  align : Align := .left
  deriving DecidableEq, Repr

/-- A named asset, or grayscale that the document holds. -/
structure Image where
  ref : Bytes := []
  gray : Bytes := []
  width : ℕ := 0
  height : ℕ := 0
  target : CellWidth := {}
  align : Align := .left
  dither : Dither := .floydSteinberg
  deriving DecidableEq, Repr

/-- A block that holds no other. -/
inductive Leaf (ν : Type) where
  | text (content : Bytes) (style : StyleRef)
  | columns (cells : List Cell)
  | image (picture : Image)
  | qr (content : Bytes) (size : ℤ) (ec : QrEc) (align : Align)
  | barcode (code : Barcode)
  | divider (rule : Divider)
  /-- Lines, or dots where these are set. -/
  | feed (lines : ℤ) (dots : Option ℤ)
  | cut (kind : CutMode)
  | drawerKick (pin pulse : ℤ)
  | raw (bytes : Bytes)
  /-- The kind of a registered handler, and the whole block. -/
  | custom (kind : Bytes) (payload : Json ν)

/-- `single` remembers whether the source has one block or a list of them. -/
inductive Block (ν : Type) where
  | leaf (leaf : Leaf ν)
  | each (path : Bytes) (single : Bool) (body : List (Block ν))
  /-- `if`, or `unless` where it is negated. -/
  | cond (path : Bytes) (negated single : Bool) (body : List (Block ν))

namespace Leaf

variable {ν : Type}

/-- The strings that a leaf has printed. -/
def contents : Leaf ν → List Bytes
  | text content _ => [content]
  | columns cells => cells.map Cell.content
  | image picture => [picture.ref]
  | qr content _ _ _ => [content]
  | barcode code => [code.content]
  | divider rule => [rule.char]
  | _ => []

end Leaf

/-! ### Documents -/

structure Margins (ν : Type) where
  topDots : Option ℤ := none
  bottomDots : Option ℤ := none
  topMm : Option ν := none
  bottomMm : Option ν := none

structure Meta (ν : Type) where
  locale : Bytes := []
  currency : Bytes := []
  tz : Bytes := []
  cut : Option CutRequest := none
  margins : Margins ν := {}

structure Document (ν : Type) where
  version : ℤ := 1
  isTemplate : Bool := false
  info : Meta ν := {}
  styles : List (Bytes × TextStyle) := []
  blocks : List (Block ν) := []

end PrinterDriver.Dsl.Documents
