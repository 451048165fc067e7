import PrinterDriver.Lib.Keyed
import PrinterDriver.Dsl.Base64
import PrinterDriver.Dsl.Documents

/-! # Writing documents

The canonical JSON of a document: what it does not say is left out, and what it says is written in one
spelling. -/

namespace PrinterDriver.Dsl.DocumentWriter

open PrinterDriver.Core.Types PrinterDriver.Core.Encoder PrinterDriver.Dsl.Values
open PrinterDriver.Dsl.Documents PrinterDriver.Dsl.Base64 PrinterDriver.Lib.Keyed
open PrinterDriver.Dsl.Render (Align Underline Dither QrEc)

/-! ### Words -/

def alignName : Align → Bytes
  | .left => str "left"
  | .center => str "center"
  | .right => str "right"

def wrapName : Wrap → Bytes
  | .word => str "word"
  | .char => str "char"
  | .clip => str "clip"
  | .ellipsis => str "ellipsis"

def underlineName : Underline → Bytes
  | .none => str "none"
  | .single => str "single"
  | .double => str "double"

def dividerName : DividerKind → Bytes
  | .solid => str "solid"
  | .dashed => str "dashed"
  | .double => str "double"
  | .char => str "char"

def ditherName : Dither → Bytes
  | .floydSteinberg => str "fs"
  | .threshold => str "threshold"
  | .none => str "none"

def hriName : Hri → Bytes
  | .none => str "none"
  | .above => str "above"
  | .below => str "below"
  | .both => str "both"

def qrEcName : QrEc → Bytes
  | .l => str "L"
  | .m => str "M"
  | .q => str "Q"
  | .h => str "H"

def cutRequestName : CutRequest → Bytes
  | .profile => str "profile"
  | .partialCut => str "partial"
  | .full => str "full"
  | .none => str "none"

def symbologyName : Symbology → Bytes
  | .upcA => str "upcA"
  | .upcE => str "upcE"
  | .ean13 => str "ean13"
  | .ean8 => str "ean8"
  | .code39 => str "code39"
  | .itf => str "itf"
  | .codabar => str "codabar"
  | .code93 => str "code93"
  | .code128 => str "code128"
  | .gs1_128 => str "gs1_128"
  | .pdf417 => str "pdf417"
  | .dataMatrix => str "datamatrix"

/-! ### Members -/

section
variable {ν : Type}

/-- A member of that name is replaced; what is no object becomes one. -/
def set (out : Json ν) (key : Bytes) (value : Json ν) : Json ν :=
  match out with
  | .object members => .object (upsert Prod.fst (key, value) members)
  | _ => .object [(key, value)]

/-- The members that there are, set one after the other. -/
def setAll (out : Json ν) (fields : List (Bytes × Option (Json ν))) : Json ν :=
  fields.foldl (fun out field => (field.2.map (set out field.1)).getD out) out

/-- A member whose value is not the one that is left out. -/
def differing {α : Type} [DecidableEq α] (default value : α) (write : α → Json ν) :
    Option (Json ν) := if value = default then none else some (write value)

variable [Doubles ν]

/-! ### Styles and widths -/

def isEmpty (style : TextStyle) : Bool :=
  style.inherits.isNone && style.font.isNone && style.widthScale.isNone && style.heightScale.isNone &&
    style.bold.isNone && style.italic.isNone && style.inverse.isNone && style.upsideDown.isNone &&
    style.rotate90.isNone && style.underline.isNone && style.align.isNone &&
    style.lineSpacingDots.isNone && style.letterSpacingDots.isNone && style.wrap.isNone &&
    style.indentDots.isNone && style.marginLeftDots.isNone && style.marginRightDots.isNone

def styleFields (style : TextStyle) : List (Bytes × Option (Json ν)) :=
  [(str "extends", style.inherits.map .string),
    (str "font", style.font.map .string),
    (str "widthScale", style.widthScale.map .ofInt),
    (str "heightScale", style.heightScale.map .ofInt),
    (str "bold", style.bold.map .boolean),
    (str "italic", style.italic.map .boolean),
    (str "underline", style.underline.map fun u => .string (underlineName u)),
    (str "inverse", style.inverse.map .boolean),
    (str "upsideDown", style.upsideDown.map .boolean),
    (str "rotate90", style.rotate90.map .boolean),
    (str "align", style.align.map fun a => .string (alignName a)),
    (str "wrap", style.wrap.map fun w => .string (wrapName w)),
    (str "lineSpacingDots", style.lineSpacingDots.map .ofInt),
    (str "letterSpacingDots", style.letterSpacingDots.map .ofInt),
    (str "indentDots", style.indentDots.map .ofInt),
    (str "marginLeftDots", style.marginLeftDots.map .ofInt),
    (str "marginRightDots", style.marginRightDots.map .ofInt)]

def styleToJson (style : TextStyle) : Json ν := setAll (.object []) (styleFields style)

def members : Json ν → List (Bytes × Json ν)
  | .object members => members
  | _ => []

/-- The member `style` of a block or a cell. -/
def writeStyleRef (ref : StyleRef) : Option (Json ν) :=
  match ref.name with
  | some name =>
    if isEmpty ref.inlineStyle then some (.string name)
    else some (setAll (.object []) ((str "extends", some (.string name)) ::
      (members (styleToJson ref.inlineStyle)).map fun member => (member.1, some member.2)))
  | none => if isEmpty ref.inlineStyle then none else some (styleToJson ref.inlineStyle)

def cellWidthToJson (width : CellWidth) : Json ν :=
  match width.unit with
  | .flex =>
    if width.value ≤ 1 then .string (str "flex")
    else .object [(str "flex", .ofInt width.value)]
  | .chars => .object [(str "chars", .ofInt width.value)]
  | .dots => .object [(str "dots", .ofInt width.value)]
  | .percent => .object [(str "percent", .ofInt width.value)]

/-! ### Blocks -/

def cellToJson (cell : Cell) : Json ν :=
  setAll (.object [])
    [(str "content", some (.string cell.content)),
      (str "width", some (cellWidthToJson cell.width)),
      (str "align", cell.align.map fun a => .string (alignName a)),
      (str "wrap", cell.wrap.map fun w => .string (wrapName w)),
      (str "style", writeStyleRef cell.style)]

def ruleToJson (rule : Divider) : Json ν :=
  if rule.kind = .char then
    setAll (.object [])
      [(str "style", some (.string (str "char"))), (str "char", some (.string rule.char)),
        (str "thicknessDots", rule.thicknessDots.map .ofInt)]
  else if rule.thicknessDots.isSome then
    setAll (.object [])
      [(str "style", some (.string (dividerName rule.kind))),
        (str "thicknessDots", rule.thicknessDots.map .ofInt)]
  else .string (dividerName rule.kind)

def alignField (align : Align) : Bytes × Option (Json ν) :=
  (str "align", differing .left align fun a => .string (alignName a))

/-- The asset by its name alone, where there is no grayscale. -/
def pictureToJson (picture : Image) : Json ν :=
  if picture.gray.isEmpty && !picture.ref.isEmpty then .string picture.ref
  else setAll (.object [])
    ((str "ref", differing [] picture.ref .string) ::
      if picture.gray.isEmpty then []
      else
        [(str "gray", some (.string (base64Encode picture.gray))),
          (str "width", some (.ofInt picture.width)), (str "height", some (.ofInt picture.height))])

def leafFields : Leaf ν → List (Bytes × Option (Json ν))
  | .text content style =>
    [(str "text", some (.string content)), (str "style", writeStyleRef style)]
  | .columns cells => [(str "columns", some (.array (cells.map cellToJson)))]
  | .divider rule => [(str "divider", some (ruleToJson rule)), (str "style", writeStyleRef rule.style)]
  | .feed lines dots =>
    [(str "feed", some (match dots with
      | some dots => .object [(str "dots", .ofInt dots)]
      | none => .ofInt lines))]
  | .cut kind => [(str "cut", some (.string (if kind = .full then str "full" else str "partial")))]
  | .drawerKick pin pulse =>
    [(str "drawerKick", some (.object [(str "pin", .ofInt pin), (str "pulse", .ofInt pulse)]))]
  | .raw bytes => [(str "raw", some (.string (base64Encode bytes)))]
  | .qr content size ec align =>
    [(str "qr", some (.string content)), (str "size", some (.ofInt size)),
      (str "ec", some (.string (qrEcName ec))), alignField align]
  | .barcode code =>
    [(str "barcode", some (.string code.content)),
      (str "symbology", some (.string (symbologyName code.symbology))),
      (str "height", some (.ofInt code.heightDots)),
      (str "moduleWidth", some (.ofInt code.moduleWidth)),
      (str "hri", some (.string (hriName code.hri))), alignField code.align]
  | .image picture =>
    [(str "image", some (pictureToJson picture)),
      (str "width",
        if picture.target.unit = .flex then none else some (cellWidthToJson picture.target)),
      alignField picture.align, (str "dither", some (.string (ditherName picture.dither)))]
  | .custom .. => []

def leafToJson (leaf : Leaf ν) : Json ν :=
  match leaf with
  | .custom _ payload => if payload.isObject then payload else .object []
  | leaf => setAll (.object []) (leafFields leaf)

/-- The member with the blocks that a block holds. -/
def bodyField (single : Bool) (body : List (Json ν)) : Bytes × Json ν :=
  match single, body with
  | true, [block] => (str "block", block)
  | _, body => (str "blocks", .array body)

mutual
def blockToJson : Block ν → Json ν
  | .leaf leaf => leafToJson leaf
  | .each path single body =>
    .object [(str "each", .string path), bodyField single (blockListToJson body)]
  | .cond path negated single body =>
    .object [(if negated then str "unless" else str "if", .string path),
      bodyField single (blockListToJson body)]

def blockListToJson : List (Block ν) → List (Json ν)
  | [] => []
  | block :: blocks => blockToJson block :: blockListToJson blocks
end

theorem blockListToJson_eq (blocks : List (Block ν)) :
    blockListToJson blocks = blocks.map blockToJson := by
  induction blocks with
  | nil => rfl
  | cons block blocks ih => rw [blockListToJson, ih, List.map_cons]

/-! ### Documents -/

def marginsToJson (margins : Margins ν) : Option (Json ν) :=
  if margins.topDots.isNone && margins.bottomDots.isNone && margins.topMm.isNone &&
      margins.bottomMm.isNone then none
  else some (setAll (.object [])
    [(str "topDots", margins.topDots.map .ofInt), (str "bottomDots", margins.bottomDots.map .ofInt),
      (str "topMm", margins.topMm.map fun mm => .number mm []),
      (str "bottomMm", margins.bottomMm.map fun mm => .number mm [])])

def metaToJson (info : Meta ν) : Json ν :=
  setAll (.object [])
    [(str "locale", differing [] info.locale .string),
      (str "currency", differing [] info.currency .string),
      (str "tz", differing [] info.tz .string),
      (str "cut", info.cut.map fun request => .string (cutRequestName request)),
      (str "margins", marginsToJson info.margins)]

def stylesToJson (styles : List (Bytes × TextStyle)) : Json ν :=
  setAll (.object []) (styles.map fun entry => (entry.1, some (styleToJson entry.2)))

def documentToJson (document : Document ν) : Json ν :=
  let info := metaToJson document.info
  setAll (.object [])
    [(str "v", some (.ofInt document.version)),
      (str "template", if document.isTemplate then some (.boolean true) else none),
      (str "meta", if (members info).isEmpty then none else some info),
      (str "styles", if document.styles.isEmpty then none else some (stylesToJson document.styles)),
      (str "blocks", some (.array (blockListToJson document.blocks)))]

end

end PrinterDriver.Dsl.DocumentWriter
