import PrinterDriver.Lib.Templates
import PrinterDriver.Dsl.Documents
import Mathlib.Data.List.DropRight

/-! # Template binding

A template and a model become a plain document: `each` repeats its body for the elements of an array,
`if` and `unless` keep theirs or drop it, and the strings of the leaves have their placeholders
replaced. A formatter is a parameter; it sees a value and answers with text. -/

namespace PrinterDriver.Dsl.Bind

open PrinterDriver.Lib.Templates
open PrinterDriver.Core.Types PrinterDriver.Dsl.Values PrinterDriver.Dsl.Documents
open PrinterDriver.Dsl.Render (ReportKind ReportEntry decimal)

/-! ### Paths -/

def isDigits (text : Bytes) : Bool := !text.isEmpty && text.all fun c => 48 ≤ c && c ≤ 57

/-- An index out of the range of a `size_t` saturates. -/
def parseIndexFrom (value : ℕ) : Bytes → ℕ
  | [] => value
  | c :: text =>
    if (2 ^ 64 - 1 - 9) / 10 < value then 2 ^ 64 - 1
    else parseIndexFrom (value * 10 + (c - 48).toNat) text

def parseIndex (text : Bytes) : ℕ := parseIndexFrom 0 text

/-- An empty segment is only one that brackets hold. -/
def flushed (current : Bytes) : List Bytes := if current = [] then [] else [current]

/-- `current` is the segment under way. -/
def splitPathFrom (current : Bytes) : Bytes → List Bytes
  | [] => flushed current
  | c :: path =>
    if c = 46 then flushed current ++ splitPathFrom [] path
    else if c = 91 then
      match _h : breakOn [93] path with
      | none => flushed current
      | some (segment, rest) => flushed current ++ segment :: splitPathFrom [] rest
    else splitPathFrom (current ++ [c]) path
termination_by path => path.length
decreasing_by
  · simp only [List.length_cons]
    omega
  · have hlen := congrArg List.length (breakOn_eq_append ‹_›)
    simp only [List.length_append, List.length_cons] at hlen ⊢
    omega
  · simp only [List.length_cons]
    omega

/-- `order.items[0].name` and `order.items.0.name` are one path. -/
def splitPath (path : Bytes) : List Bytes := splitPathFrom [] path

section Values
variable {ν : Type}

/-- One segment down. -/
def enter (value : Json ν) (segment : Bytes) : Option (Json ν) :=
  if value.isArray && isDigits segment then value.at? (parseIndex segment) else value.find segment

def descend (value : Json ν) (segments : List Bytes) : Option (Json ν) := segments.foldlM enter value

/-- The model, or an element of an `each` in the scope around it. -/
inductive Scope (ν : Type) where
  | root (value : Json ν)
  | element (value : Json ν) (index count : ℕ) (parent : Scope ν)

namespace Scope

def value : Scope ν → Json ν
  | root value => value
  | element value _ _ _ => value

/-- The index of the innermost element, and how many there are. -/
def counter : Scope ν → Option (ℕ × ℕ)
  | root _ => none
  | element _ index count _ => some (index, count)

/-- The nearest scope that knows the first segment owns the path. -/
def lookup (head : Bytes) (rest : List Bytes) : Scope ν → Option (Json ν)
  | root value => (enter value head).bind fun found => descend found rest
  | element value _ _ parent =>
    match enter value head with
    | some found => descend found rest
    | none => parent.lookup head rest

end Scope

def resolve [Doubles ν] (scope : Scope ν) (path : Bytes) : Option (Json ν) :=
  if path = [] then none
  else if path = str "." ∨ path = str "this" then some scope.value
  else if path = str "@index" then scope.counter.map fun at_ => .ofInt at_.1
  else if path = str "@first" then scope.counter.map fun at_ => .boolean (at_.1 = 0)
  else if path = str "@last" then scope.counter.map fun at_ => .boolean (at_.1 + 1 = at_.2)
  else
    match splitPath path with
    | [] => none
    | head :: rest => scope.lookup head rest

end Values

/-! ### Placeholders -/

structure FormatContext where
  locale : Bytes := []
  currency : Bytes := []
  tz : Bytes := []

structure FormatOutcome where
  text : Bytes
  ok : Bool := true
  kind : ReportKind := .note
  detail : Bytes := []

/-- What is not empty wins over the document's own. -/
structure BindOptions where
  locale : Bytes := []
  currency : Bytes := []
  tz : Bytes := []
  maxBlocks : ℕ := 20000
  maxDepth : ℕ := 32

structure Binder (ν : Type) where
  /-- A value, under a formatter without its leading bar. -/
  applyFormatter : FormatContext → Json ν → Bytes → FormatOutcome
  options : BindOptions
  context : FormatContext

def isBlank (c : UInt8) : Bool := c = 32 || c = 9

def trim (text : Bytes) : Bytes := (text.dropWhile isBlank).rdropWhile isBlank

/-- Control bytes never reach the printer, but for newline and tab. -/
def sanitize (text : Bytes) : Bytes :=
  text.filter fun c => c = 10 || c = 9 || (0x20 ≤ c && c ≠ 0x7F)

/-- Two braces on either side, and a backslash before the two that stand for themselves. -/
def braces : Marks UInt8 := ⟨[123, 123], [125, 125], 92, List.cons_ne_nil _ _⟩

/-- A value on its way through the formatters. -/
structure Formatted (ν : Type) where
  current : Json ν
  rendered : Bytes
  report : List ReportEntry

namespace Binder

variable {ν : Type} [Doubles ν] (b : Binder ν)

def format (place written : Bytes) (f : Formatted ν) (formatter : Bytes) : Formatted ν :=
  let formatter := trim formatter
  if formatter = [] then f
  else
    let outcome := b.applyFormatter b.context f.current formatter
    { current := .string outcome.text
      rendered := outcome.text
      report := f.report ++
        if outcome.ok then []
        else [⟨outcome.kind, place, written, outcome.text, .hardware, outcome.detail⟩] }

/-- What stands between the braces: a path, and formatters behind bars. -/
def evaluate (scope : Scope ν) (place expression : Bytes) : Bytes × List ReportEntry :=
  let written := [123, 123] ++ expression ++ [125, 125]
  let path := trim ((expression.splitOn 124).headD [])
  let formatters := (expression.splitOn 124).tail
  if path = [] then
    ([], [⟨.malformedTemplate, place, written, [], .hardware, str "empty path"⟩])
  else
    match resolve scope path with
    | none => ([], [⟨.missingPath, place, written, [], .hardware, str "no such path in the model"⟩])
    | some value =>
      let rendered := valueToText value
      let structured := formatters.isEmpty && (value.isArray || value.isObject)
      let report := if structured then
          [⟨.unformattableValue, place, written, rendered, .hardware,
            str "the path resolves to a structure, not a value"⟩]
        else []
      let formatted := formatters.foldl (b.format place written) ⟨value, rendered, report⟩
      (sanitize formatted.rendered, formatted.report)

/-- The rest of a string that has an opening pair of braces somewhere. -/
def substituteFrom (scope : Scope ν) (place : Bytes) : Bytes → Bytes × List ReportEntry
  | [] => ([], [])
  | c :: source =>
    if [92, 123, 123].isPrefixOf (c :: source) then
      let after := substituteFrom scope place (source.drop 2)
      ([123, 123] ++ after.1, after.2)
    else if _ho : [123, 123].isPrefixOf (c :: source) then
      match _hb : breakOn [125, 125] (source.drop 1) with
      | none =>
        (c :: source, [⟨.malformedTemplate, place, c :: source, c :: source, .hardware,
          str "unterminated " ++ [123, 123] ++ str " left verbatim"⟩])
      | some (expression, rest) =>
        let value := b.evaluate scope place expression
        let after := substituteFrom scope place rest
        (value.1 ++ after.1, value.2 ++ after.2)
    else
      let after := substituteFrom scope place source
      (c :: after.1, after.2)
termination_by source => source.length
decreasing_by
  · simp only [List.length_drop, List.length_cons]
    omega
  · have hlen := congrArg List.length (breakOn_eq_append ‹_›)
    simp only [List.length_append, List.length_drop, List.length_cons] at hlen ⊢
    omega
  · simp only [List.length_cons]
    omega

def substitute (scope : Scope ν) (place source : Bytes) : Bytes × List ReportEntry :=
  if (breakOn [123, 123] source).isNone then (source, []) else b.substituteFrom scope place source

/-! ### Blocks -/

/-- The cells from the index on. -/
def bindCells (scope : Scope ν) (place : Bytes) : ℕ → List Cell → List Cell × List ReportEntry
  | _, [] => ([], [])
  | i, cell :: cells =>
    let content := b.substitute scope (place ++ str ".cells[" ++ decimal i ++ str "]") cell.content
    let after := bindCells scope place (i + 1) cells
    ({ cell with content := content.1 } :: after.1, content.2 ++ after.2)

/-- The strings of a leaf; what is not a string of the template stays as it is. -/
def fillLeaf (scope : Scope ν) (place : Bytes) : Leaf ν → Leaf ν × List ReportEntry
  | .text content style =>
    let content := b.substitute scope place content
    (.text content.1 style, content.2)
  | .qr content size ec align =>
    let content := b.substitute scope place content
    (.qr content.1 size ec align, content.2)
  | .barcode code =>
    let content := b.substitute scope place code.content
    (.barcode { code with content := content.1 }, content.2)
  | .columns cells =>
    let bound := b.bindCells scope place 0 cells
    (.columns bound.1, bound.2)
  | .image picture =>
    let ref := b.substitute scope place picture.ref
    (.image { picture with ref := ref.1 }, ref.2)
  | leaf => (leaf, [])

/-- What has been bound so far. -/
structure Bound (ν : Type) where
  blocks : List (Block ν) := []
  emitted : ℕ := 0
  overflowed : Bool := false
  report : List ReportEntry := []

def Bound.say {ν : Type} (s : Bound ν) (entry : ReportEntry) : Bound ν :=
  { s with report := s.report ++ [entry] }

def bindLeaf (scope : Scope ν) (place : Bytes) (s : Bound ν) (leaf : Leaf ν) : Bound ν :=
  let bound := b.fillLeaf scope place leaf
  { s with
    blocks := s.blocks ++ [.leaf bound.1]
    emitted := s.emitted + 1
    report := s.report ++ bound.2 }

/-- The body of a group, unless it is too deep. -/
def within (place : Bytes) (depth : ℕ) (s : Bound ν) (body : Bound ν → Bound ν) : Bound ν :=
  if b.options.maxDepth < depth then
    s.say ⟨.malformedTemplate, place, str "nested groups", str "stopped", .notRendered,
      str "deeper than the configured limit"⟩
  else body s

/-- No further block; the report has it once. -/
def overflow (place : Bytes) (s : Bound ν) : Bound ν :=
  let s := if s.overflowed then s
    else s.say ⟨.malformedTemplate, place, str "more blocks", str "stopped", .notRendered,
      str "the bound document exceeded " ++ decimal b.options.maxBlocks ++ str " blocks"⟩
  { s with overflowed := true }

def emptyIteration (place path detail : Bytes) (s : Bound ν) : Bound ν :=
  s.say ⟨.emptyIteration, place, str "each:" ++ path, str "0 iterations", .notRendered, detail⟩

mutual
/-- One block, at its place in the document. -/
def bindBlock (scope : Scope ν) (place : Bytes) (depth : ℕ) (s : Bound ν) : Block ν → Bound ν
  | .leaf leaf => b.bindLeaf scope place s leaf
  | .each path _ body =>
    match resolve scope path with
    | none | some .null => emptyIteration place path (str "no such path in the model") s
    | some (.array items) =>
      items.zipIdx.foldl (fun s item =>
        let place := place ++ [123] ++ decimal item.2 ++ [125]
        b.within place (depth + 1) s fun s =>
          bindFrom (.element item.1 item.2 items.length scope) place (depth + 1) 0 s body) s
    | some _ => emptyIteration place path (str "the path is not an array") s
  | .cond path negated _ body =>
    let truthy := (resolve scope path).any Json.truthy
    if truthy = negated then s
    else b.within place (depth + 1) s fun s => bindFrom scope place (depth + 1) 0 s body

/-- The blocks of a list from the index on. -/
def bindFrom (scope : Scope ν) (place : Bytes) (depth i : ℕ) (s : Bound ν) :
    List (Block ν) → Bound ν
  | [] => s
  | block :: blocks =>
    let here := place ++ str "[" ++ decimal i ++ str "]"
    if b.options.maxBlocks ≤ s.emitted then b.overflow here s
    else bindFrom scope place depth (i + 1) (bindBlock scope here depth s block) blocks
end

def bindBlocks (scope : Scope ν) (place : Bytes) (depth : ℕ) (s : Bound ν)
    (blocks : List (Block ν)) : Bound ν :=
  b.within place depth s fun s => b.bindFrom scope place depth 0 s blocks

end Binder

/-! ### Documents -/

/-- How a document's templates are bound. -/
def binderOf {ν : Type} (applyFormatter : FormatContext → Json ν → Bytes → FormatOutcome)
    (document : Document ν) (options : BindOptions) : Binder ν where
  applyFormatter := applyFormatter
  options := options
  context :=
    { locale := if options.locale = [] then document.info.locale else options.locale
      currency := if options.currency = [] then document.info.currency else options.currency
      tz := if options.tz = [] then document.info.tz else options.tz }

section Bind
variable {ν : Type} [Doubles ν] (applyFormatter : FormatContext → Json ν → Bytes → FormatOutcome)

/-- The bound document and the report. -/
def bind (document : Document ν) (model : Json ν) (options : BindOptions) :
    Document ν × List ReportEntry :=
  let binder := binderOf applyFormatter document options
  let bound := binder.bindBlocks (.root model) (str "blocks") 0 {} document.blocks
  ({ document with isTemplate := false, blocks := bound.blocks }, bound.report)

end Bind

end PrinterDriver.Dsl.Bind
