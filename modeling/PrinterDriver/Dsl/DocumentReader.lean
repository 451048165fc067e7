import PrinterDriver.Lib.Reading
import PrinterDriver.Dsl.Base64
import PrinterDriver.Dsl.Documents
import PrinterDriver.Dsl.Text
import PrinterDriver.Core.Journal

/-! # Reading documents

The reader of `document.cpp`: strict about the structure of a document, and forgiving about its words,
which it warns about. The levels of blocks that a block may still open are counted down. -/

namespace PrinterDriver.Dsl.DocumentReader

open PrinterDriver.Core.Types PrinterDriver.Core.Encoder PrinterDriver.Dsl.Values
open PrinterDriver.Dsl.Documents PrinterDriver.Dsl.Base64 PrinterDriver.Lib.Reading
open PrinterDriver.Dsl.Render (Align Underline Dither QrEc)
open PrinterDriver.Core.Journal (decimal)

/-! ### Words -/

def lowered (value : Bytes) : Bytes := value.map fun c => if 65 ≤ c ∧ c ≤ 90 then c + 32 else c

def lookup {α : Type} (value : Bytes) (table : List (Bytes × α)) : Option α :=
  (table.find? fun entry => lowered value = entry.1).map Prod.snd

def parseAlign (value : Bytes) : Option Align :=
  lookup value [(str "left", .left), (str "center", .center), (str "centre", .center),
    (str "right", .right)]

def parseWrap (value : Bytes) : Option Wrap :=
  lookup value [(str "word", .word), (str "char", .char), (str "clip", .clip),
    (str "ellipsis", .ellipsis)]

def parseUnderline (value : Bytes) : Option Underline :=
  lookup value [(str "none", .none), (str "single", .single), (str "double", .double)]

def parseDither (value : Bytes) : Option Dither :=
  lookup value [(str "fs", .floydSteinberg), (str "floydsteinberg", .floydSteinberg),
    (str "threshold", .threshold), (str "none", .none)]

def parseHri (value : Bytes) : Option Hri :=
  lookup value [(str "none", .none), (str "above", .above), (str "below", .below),
    (str "both", .both)]

def parseQrEc (value : Bytes) : Option QrEc :=
  lookup value [(str "l", .l), (str "m", .m), (str "q", .q), (str "h", .h)]

def parseSymbology (value : Bytes) : Option Symbology :=
  lookup value [(str "upca", .upcA), (str "upce", .upcE), (str "ean13", .ean13),
    (str "ean8", .ean8), (str "code39", .code39), (str "itf", .itf), (str "codabar", .codabar),
    (str "code93", .code93), (str "code128", .code128), (str "gs1_128", .gs1_128),
    (str "gs1-128", .gs1_128), (str "pdf417", .pdf417), (str "datamatrix", .dataMatrix)]

def parseCutRequest (value : Bytes) : Option CutRequest :=
  lookup value [(str "profile", .profile), (str "partial", .partialCut), (str "full", .full),
    (str "none", .none)]

/-- The names of a divider that stands alone; the object form has `char` too. -/
def parseDividerName (value : Bytes) : Option DividerKind :=
  lookup value [(str "solid", .solid), (str "dashed", .dashed), (str "double", .double)]

def parseDividerStyle (value : Bytes) : Option DividerKind :=
  lookup value [(str "solid", .solid), (str "dashed", .dashed), (str "double", .double),
    (str "char", .char)]

/-! ### Members -/

section
variable {ν : Type}

def asString : Json ν → Bytes
  | .string value => value
  | _ => []

def isNumber : Json ν → Bool
  | .number .. => true
  | _ => false

variable [Doubles ν]

def asInt : Json ν → ℤ
  | .number value _ => (Doubles.round value).getD 0
  | _ => 0

/-- `static_cast<int>` of what `asInt` gives. -/
def toInt (json : Json ν) : ℤ := (asInt json).bmod (2 ^ 32)

def readInt (json : Json ν) (key : Bytes) : Option ℤ :=
  (json.find key).bind fun value => if isNumber value then some (toInt value) else none

end

section
variable {ν : Type}

def readBool (json : Json ν) (key : Bytes) : Option Bool :=
  (json.find key).bind fun
    | .boolean value => some value
    | _ => none

/-- A member that is a string. -/
def readText (json : Json ν) (key : Bytes) : Option Bytes :=
  (json.find key).bind fun
    | .string value => some value
    | _ => none

def readString (json : Json ν) (key : Bytes) : Bytes := (readText json key).getD []

/-- The keys of a value that were not asked for. -/
def finish (json : Json ν) (place : Bytes) (seen : List Bytes) : Read Bytes Unit :=
  match json with
  | .object members =>
    Read.warnings ((members.filter fun member => member.1 ∉ seen).map fun member =>
      place ++ str ": unknown key \"" ++ member.1 ++ str "\" ignored")
  | _ => pure ()

/-- A member that names a value, with a warning about a name that is not known. -/
def readNamed {α : Type} (json : Json ν) (place key : Bytes) (parse : Bytes → Option α) :
    Read Bytes (Option α) :=
  match readText json key with
  | none => pure none
  | some name =>
    match parse name with
    | some value => pure (some value)
    | none => do
      Read.warn (place ++ str ": unknown " ++ key ++ str " \"" ++ name ++ str "\" ignored")
      pure none

/-- A member that names a value, without one. -/
def readQuietly {α : Type} (json : Json ν) (key : Bytes) (parse : Bytes → Option α) : Option α :=
  (readText json key).bind parse

/-! ### Styles -/

variable [Doubles ν]

def readUnderline (json : Json ν) (place : Bytes) : Read Bytes (Option Underline) :=
  match json.find (str "underline") with
  | none => pure none
  | some value =>
    match value with
    | .boolean on => pure (some (if on then .single else .none))
    | .number _ _ =>
      let dots := asInt value
      pure (some (if 2 ≤ dots then .double else if dots = 1 then .single else .none))
    | _ =>
      match (match value with | .string name => parseUnderline name | _ => none) with
      | some underline => pure (some underline)
      | none => do
        Read.warn (place ++ str ": unknown underline value ignored")
        pure none

def styleKeys : List Bytes :=
  [str "extends", str "font", str "widthScale", str "heightScale", str "bold", str "italic",
    str "inverse", str "upsideDown", str "rotate90", str "lineSpacingDots", str "letterSpacingDots",
    str "indentDots", str "marginLeftDots", str "marginRightDots", str "underline", str "align",
    str "wrap"]

def parseTextStyle (json : Json ν) (place : Bytes) : Read Bytes TextStyle :=
  if !json.isObject then Read.fail (place ++ str ": a style must be a JSON object")
  else do
    let underline ← readUnderline json place
    let align ← readNamed json place (str "align") parseAlign
    let wrap ← readNamed json place (str "wrap") parseWrap
    finish json place styleKeys
    pure
      { inherits := readText json (str "extends")
        font := readText json (str "font")
        widthScale := readInt json (str "widthScale")
        heightScale := readInt json (str "heightScale")
        bold := readBool json (str "bold")
        italic := readBool json (str "italic")
        inverse := readBool json (str "inverse")
        upsideDown := readBool json (str "upsideDown")
        rotate90 := readBool json (str "rotate90")
        underline
        align
        lineSpacingDots := readInt json (str "lineSpacingDots")
        letterSpacingDots := readInt json (str "letterSpacingDots")
        wrap
        indentDots := readInt json (str "indentDots")
        marginLeftDots := readInt json (str "marginLeftDots")
        marginRightDots := readInt json (str "marginRightDots") }

def parseStyleRef (json : Option (Json ν)) (place : Bytes) : Read Bytes StyleRef :=
  match json with
  | none => pure {}
  | some (.string name) => pure { name := some name }
  | some json =>
    if json.isObject then do
      let inlineStyle ← parseTextStyle json place
      pure { inlineStyle }
    else Read.fail (place ++ str ": style must be a name or an inline style object")

/-! ### Widths and bytes -/

/-- The first of the members that an object has. -/
def parseWidthObject (json : Json ν) (allowPercent : Bool) : Option CellWidth :=
  match json.find (str "chars") with
  | some value => some ⟨.chars, toInt value⟩
  | none =>
    match json.find (str "dots") with
    | some value => some ⟨.dots, toInt value⟩
    | none =>
      match if allowPercent then json.find (str "percent") else none with
      | some value => some ⟨.percent, toInt value⟩
      | none =>
        match json.find (str "flex") with
        | some value => some ⟨.flex, max 1 (toInt value)⟩
        | none => none

def parseCellWidth (json : Option (Json ν)) (place : Bytes) (allowPercent : Bool) :
    Read Bytes CellWidth :=
  match json with
  | none => pure {}
  | some (.string name) =>
    if lowered name = str "flex" then pure ⟨.flex, 1⟩
    else Read.fail (place ++ str ": unknown width \"" ++ name ++ str "\"")
  | some (.number value literal) =>
    pure ⟨if allowPercent then .dots else .chars, toInt (.number value literal)⟩
  | some json =>
    match parseWidthObject json allowPercent with
    | some width => pure width
    | none =>
      Read.fail (place ++ str ": width must be \"flex\", \x7bchars|dots|flex: n\x7d" ++
        if allowPercent then str " or \x7bpercent: n\x7d" else [])

def parseByte (place : Bytes) (item : Json ν) : Read Bytes UInt8 :=
  if !isNumber item then Read.fail (place ++ str ": byte arrays must contain numbers only")
  else if asInt item < 0 ∨ 255 < asInt item then Read.fail (place ++ str ": byte out of range")
  else pure (UInt8.ofNat (asInt item).toNat)

def parseBytes (json : Json ν) (place : Bytes) : Read Bytes Bytes :=
  match json with
  | .string text =>
    match base64Decode text with
    | some bytes => pure bytes
    | none => Read.fail (place ++ str ": not valid base64")
  | .array items => Read.each (fun _ => parseByte place) 0 items
  | _ => Read.fail (place ++ str ": expected base64 or an array of bytes")

/-! ### The blocks that hold no other -/

/-- The kinds of blocks, in the order in which their keys are asked for. -/
def kindKeys : List Bytes :=
  [str "each", str "if", str "unless", str "text", str "columns", str "divider", str "feed",
    str "cut", str "drawerKick", str "raw", str "qr", str "barcode", str "image"]

/-- The kinds that were asked for when this one was found. -/
def takenUpTo (key : Bytes) : List Bytes := kindKeys.takeWhile (· ≠ key) ++ [key]

def parseText (json value : Json ν) (place : Bytes) : Read Bytes (Leaf ν) := do
  let style ← parseStyleRef (json.find (str "style")) (place ++ str ".style")
  finish json place (takenUpTo (str "text") ++ [str "style"])
  pure (.text (asString value) style)

def parseCell (place : Bytes) (index : ℕ) (item : Json ν) : Read Bytes Cell :=
  let place := place ++ str ".cells[" ++ decimal index ++ str "]"
  if !item.isObject then Read.fail (place ++ str ": a cell must be a JSON object")
  else do
    let width ← parseCellWidth (item.find (str "width")) (place ++ str ".width") false
    let align ← readNamed item place (str "align") parseAlign
    let wrap ← readNamed item place (str "wrap") parseWrap
    let style ← parseStyleRef (item.find (str "style")) (place ++ str ".style")
    finish item place [str "content", str "width", str "align", str "wrap", str "style"]
    pure { content := readString item (str "content"), width, align, wrap, style }

def parseColumns (json value : Json ν) (place : Bytes) : Read Bytes (Leaf ν) :=
  match value with
  | .array items => do
    let cells ← Read.each (parseCell place) 0 items
    finish json place (takenUpTo (str "columns"))
    pure (.columns cells)
  | _ => Read.fail (place ++ str ".columns: expected an array of cells")

/-- The kind and the character that an object gives. -/
def dividerKind (value : Json ν) (place : Bytes) : Read Bytes (DividerKind × Bytes) := do
  let kind ← (match readText value (str "style") with
    | none => pure DividerKind.solid
    | some style =>
      match parseDividerStyle style with
      | some kind => pure kind
      | none => do
        Read.warn (place ++ str ": unknown divider style, using solid")
        pure .solid)
  match readText value (str "char") with
  | some fill => pure (.char, fill)
  | none => pure (kind, [])

/-- The rule, without its style. -/
def parseRule (value : Json ν) (place : Bytes) : Read Bytes Divider :=
  match value with
  | .string name =>
    match parseDividerName name with
    | some kind => pure { kind }
    | none =>
      if Text.width name = 1 then pure { kind := .char, char := name }
      else do
        Read.warn (place ++ str ": unknown divider \"" ++ name ++ str "\", using solid")
        pure {}
  | .object _ => do
    let (kind, char) ← dividerKind value (place ++ str ".divider")
    finish value (place ++ str ".divider") [str "style", str "char", str "thicknessDots"]
    pure { kind, char, thicknessDots := readInt value (str "thicknessDots") }
  | _ => Read.fail (place ++ str ".divider: expected a name or an object")

def parseDivider (json value : Json ν) (place : Bytes) : Read Bytes (Leaf ν) := do
  let rule ← parseRule value place
  let style ← parseStyleRef (json.find (str "style")) (place ++ str ".style")
  finish json place (takenUpTo (str "divider") ++ [str "style"])
  pure (.divider { rule with style })

def parseFeed (json value : Json ν) (place : Bytes) : Read Bytes (Leaf ν) := do
  let leaf ← (match value with
    | .number _ _ => pure (Leaf.feed (toInt value) none)
    | .object _ =>
      pure (.feed (((value.find (str "lines")).map toInt).getD 1)
        ((value.find (str "dots")).map toInt))
    | _ => Read.fail (place ++ str ".feed: expected a line count or \x7blines|dots: n\x7d"))
  finish json place (takenUpTo (str "feed"))
  pure leaf

def parseCut (json value : Json ν) (place : Bytes) : Read Bytes (Leaf ν) := do
  let leaf ← (match value with
    | .string name => pure (Leaf.cut (if lowered name = str "full" then .full else .partialCut))
    | .boolean _ => pure (.cut .partialCut)
    | _ => Read.fail (place ++ str ".cut: expected \"partial\" or \"full\""))
  finish json place (takenUpTo (str "cut"))
  pure leaf

/-- What is no object is not looked into. -/
def parseDrawerKick (json value : Json ν) (place : Bytes) : Read Bytes (Leaf ν) := do
  finish json place (takenUpTo (str "drawerKick"))
  pure (.drawerKick (((value.find (str "pin")).map toInt).getD 0)
    (((value.find (str "pulse")).map toInt).getD 25))

def parseRaw (json value : Json ν) (place : Bytes) : Read Bytes (Leaf ν) := do
  let bytes ← parseBytes value (place ++ str ".raw")
  finish json place (takenUpTo (str "raw"))
  pure (.raw bytes)

/-- A member that names a value, or a default. -/
def readWithDefault {α : Type} (json : Json ν) (key : Bytes) (parse : Bytes → Option α)
    (default : α) (warning : Bytes → Bytes) : Read Bytes α :=
  match readText json key with
  | none => pure default
  | some name =>
    match parse name with
    | some value => pure value
    | none => do
      Read.warn (warning name)
      pure default

def parseQr (json value : Json ν) (place : Bytes) : Read Bytes (Leaf ν) := do
  let ec ← readWithDefault json (str "ec") parseQrEc .m fun name =>
    place ++ str ": unknown QR error correction \"" ++ name ++ str "\", using M"
  finish json place (takenUpTo (str "qr") ++ [str "size", str "ec", str "align"])
  pure (.qr (asString value) ((readInt json (str "size")).getD 6) ec
    ((readQuietly json (str "align") parseAlign).getD .left))

def parseBarcode (json value : Json ν) (place : Bytes) : Read Bytes (Leaf ν) := do
  let symbology ← readWithDefault json (str "symbology") parseSymbology .code128 fun name =>
    place ++ str ": unknown symbology \"" ++ name ++ str "\", using code128"
  finish json place (takenUpTo (str "barcode") ++
    [str "symbology", str "height", str "moduleWidth", str "hri", str "align"])
  pure (.barcode
    { content := asString value
      symbology
      heightDots := (readInt json (str "height")).getD 64
      moduleWidth := (readInt json (str "moduleWidth")).getD 2
      hri := (readQuietly json (str "hri") parseHri).getD .none
      align := (readQuietly json (str "align") parseAlign).getD .left })

/-- The name or the grayscale of a picture. -/
def parsePicture (value : Json ν) (place : Bytes) : Read Bytes Image :=
  match value with
  | .string ref => pure { ref }
  | .object _ => do
    let gray ← (match value.find (str "gray") with
      | some gray => parseBytes gray (place ++ str ".image.gray")
      | none => pure [])
    finish value (place ++ str ".image") [str "ref", str "gray", str "width", str "height"]
    pure
      { ref := readString value (str "ref")
        gray
        width := ((readInt value (str "width")).getD 0).toNat
        height := ((readInt value (str "height")).getD 0).toNat }
  | _ => Read.fail (place ++ str ".image: expected an asset name or an object")

def parseImage (json value : Json ν) (place : Bytes) : Read Bytes (Leaf ν) := do
  let picture ← parsePicture value place
  let target ← parseCellWidth (json.find (str "width")) (place ++ str ".width") true
  finish json place (takenUpTo (str "image") ++ [str "width", str "align", str "dither"])
  pure (.image
    { picture with
      target
      align := (readQuietly json (str "align") parseAlign).getD .left
      dither := (readQuietly json (str "dither") parseDither).getD .floydSteinberg })

/-- A kind of block, with the reader of it. -/
abbrev LeafReader (ν : Type) : Type := Bytes × (Json ν → Json ν → Bytes → Read Bytes (Leaf ν))

def leafReaders : List (LeafReader ν) :=
  [(str "text", parseText), (str "columns", parseColumns), (str "divider", parseDivider),
    (str "feed", parseFeed), (str "cut", parseCut), (str "drawerKick", parseDrawerKick),
    (str "raw", parseRaw), (str "qr", parseQr), (str "barcode", parseBarcode),
    (str "image", parseImage)]

/-- The members that the handlers of the driver know. -/
abbrev Registrations : Type := Option (Bytes → Bool)

/-- The first member of a block that a handler knows. -/
def handled (registrations : Registrations) : Json ν → Option Bytes
  | .object members =>
    registrations.bind fun hasBlockHandler =>
      (members.find? fun member => hasBlockHandler member.1).map Prod.fst
  | _ => none

def parseCustom (registrations : Registrations) (json : Json ν) (place : Bytes) :
    Read Bytes (Leaf ν) :=
  match handled registrations json with
  | some kind => pure (.custom kind json)
  | none => Read.fail (place ++ str ": block carries no recognised key")

/-- The first kind that the block has the key of. -/
def parseLeaf (registrations : Registrations) (json : Json ν) (place : Bytes) :
    Read Bytes (Leaf ν) :=
  match leafReaders.findSome? fun reader =>
      (json.find reader.1).map fun value => reader.2 json value place with
  | some leaf => leaf
  | none => parseCustom registrations json place

/-! ### Blocks -/

/-- One block or a list of them, by the reader of a block. -/
def parseBody (parse : Json ν → Bytes → Read Bytes (Block ν)) (json : Json ν) (place : Bytes) :
    Read Bytes (Bool × List (Block ν)) :=
  match json.find (str "block") with
  | some single => do
    let block ← parse single (place ++ str ".block")
    pure (true, [block])
  | none =>
    match json.find (str "blocks") with
    | some (.array items) => do
      let body ← Read.each (fun index item =>
        parse item (place ++ str ".blocks[" ++ decimal index ++ str "]")) 0 items
      pure (false, body)
    | some _ => Read.fail (place ++ str ".blocks: expected an array")
    | none => Read.fail (place ++ str ": needs \"block\" or \"blocks\"")

/-- The depths from 0 to 32. -/
def blockLevels : ℕ := 33

/-- The levels are those that are left. -/
def parseBlock (registrations : Registrations) : ℕ → Json ν → Bytes → Read Bytes (Block ν)
  | 0, _, place => Read.fail (place ++ str ": blocks nested deeper than 32 levels")
  | levels + 1, json, place =>
    if !json.isObject then Read.fail (place ++ str ": a block must be a JSON object")
    else
      match json.find (str "each") with
      | some value => do
        let (single, body) ← parseBody (parseBlock registrations levels) json place
        finish json place [str "each", str "block", str "blocks"]
        pure (.each (asString value) single body)
      | none =>
        match json.find (str "unless"), json.find (str "if") with
        | some value, _ => do
          let (single, body) ← parseBody (parseBlock registrations levels) json place
          finish json place [str "each", str "if", str "unless", str "block", str "blocks"]
          pure (.cond (asString value) true single body)
        | none, some value => do
          let (single, body) ← parseBody (parseBlock registrations levels) json place
          finish json place [str "each", str "if", str "unless", str "block", str "blocks"]
          pure (.cond (asString value) false single body)
        | none, none => do
          let leaf ← parseLeaf registrations json place
          pure (.leaf leaf)

/-! ### Documents -/

/-- A member that may be absent. -/
def ifPresent {α : Type} (parse : Json ν → Read Bytes α) (default : α) :
    Option (Json ν) → Read Bytes α
  | some json => parse json
  | none => pure default

def parseMargins (json : Json ν) : Read Bytes (Margins ν) :=
  let place := str "document.meta.margins"
  let readNumber := fun key => (json.find key).bind fun
    | .number value _ => some value
    | _ => none
  if !json.isObject then Read.fail (place ++ str ": expected an object")
  else do
    finish json place [str "topDots", str "bottomDots", str "topMm", str "bottomMm"]
    pure
      { topDots := readInt json (str "topDots")
        bottomDots := readInt json (str "bottomDots")
        topMm := readNumber (str "topMm")
        bottomMm := readNumber (str "bottomMm") }

def parseMetaCut (json : Json ν) : Read Bytes (Option CutRequest) :=
  match json.find (str "cut") with
  | none => pure none
  | some (.boolean value) => pure (some (if value then .profile else .none))
  | some (.string name) =>
    match parseCutRequest name with
    | some request => pure (some request)
    | none => do
      Read.warn (str "document.meta: unknown cut \"" ++ name ++ str "\" ignored")
      pure none
  | some _ => do
    Read.warn (str "document.meta: cut must be a boolean or a name")
    pure none

def parseMeta (json : Json ν) : Read Bytes (Meta ν) :=
  let place := str "document.meta"
  if !json.isObject then Read.fail (place ++ str ": expected an object")
  else do
    let cut ← parseMetaCut json
    let margins ← ifPresent parseMargins {} (json.find (str "margins"))
    finish json place
      [str "locale", str "currency", str "tz", str "cut", str "margins"]
    pure
      { locale := readString json (str "locale")
        currency := readString json (str "currency")
        tz := readString json (str "tz")
        cut
        margins }

def parseStyles (json : Option (Json ν)) : Read Bytes (List (Bytes × TextStyle)) :=
  match json with
  | none => pure []
  | some (.object members) =>
    Read.each (fun _ member => do
      let style ← parseTextStyle member.2 (str "styles." ++ member.1)
      pure (member.1, style)) 0 members
  | some _ => Read.fail (str "document.styles: expected an object of named styles")

def parseBlocks (registrations : Registrations) (json : Option (Json ν)) :
    Read Bytes (List (Block ν)) :=
  match json with
  | none => pure []
  | some (.array items) =>
    Read.each (fun index item => parseBlock registrations blockLevels item
      (str "blocks[" ++ decimal index ++ str "]")) 0 items
  | some _ => Read.fail (str "document.blocks: expected an array")

def parseDocument (registrations : Registrations) (json : Json ν) : Read Bytes (Document ν) :=
  if !json.isObject then Read.fail (str "document: expected a JSON object")
  else do
    let info ← ifPresent parseMeta {} (json.find (str "meta"))
    let styles ← parseStyles (json.find (str "styles"))
    let blocks ← parseBlocks registrations (json.find (str "blocks"))
    finish json (str "document")
      [str "v", str "template", str "meta", str "styles", str "blocks"]
    pure
      { version := (readInt json (str "v")).getD 1
        isTemplate := ((json.find (str "template")).map Json.truthy).getD false
        info
        styles
        blocks }

end

end PrinterDriver.Dsl.DocumentReader
