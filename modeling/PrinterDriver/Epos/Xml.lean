import PrinterDriver.Core.Types
import Mathlib.Data.List.Basic
import Mathlib.Data.Int.Notation
import Mathlib.Algebra.Group.Nat.Defs

/-! # The XML scanner of the ePOS client

Enough of XML to find one element and to read its attributes: start tags, end tags, entities, and
prefixes resolved through the `xmlns` declarations of the elements that are open. -/

namespace PrinterDriver.Epos.Xml

open PrinterDriver.Core.Types

def isSpace (c : UInt8) : Bool := c = 32 || c = 9 || c = 13 || c = 10

/-- A letter in lower case, every other byte as it is. -/
def lower (text : Bytes) : Bytes := text.map fun c => if 65 ≤ c ∧ c ≤ 90 then c - 65 + 97 else c

/-- What stands before the first occurrence of the pattern, and what follows it. -/
def cut (pattern : Bytes) : Bytes → Option (Bytes × Bytes)
  | [] => if pattern = [] then some ([], []) else none
  | c :: text =>
    if pattern.isPrefixOf (c :: text) then some ([], (c :: text).drop pattern.length)
    else (cut pattern text).map fun (front, rest) => (c :: front, rest)

/-! ### Numbers, as the C library reads them -/

def isCSpace (c : UInt8) : Bool := c = 32 || (9 ≤ c && c ≤ 13)

def digitValue (c : UInt8) : ℕ :=
  if 48 ≤ c ∧ c ≤ 57 then (c - 48).toNat
  else if 97 ≤ c ∧ c ≤ 122 then (c - 97).toNat + 10
  else if 65 ≤ c ∧ c ≤ 90 then (c - 65).toNat + 10
  else 36

/-- The number that the leading digits write. -/
def leadingDigits (base : ℕ) (text : Bytes) : ℕ :=
  (text.takeWhile fun c => digitValue c < base).foldl (fun n c => n * base + digitValue c) 0

/-- A sign, and whether it was a minus. -/
def takeSign : Bytes → Bool × Bytes
  | 45 :: text => (true, text)
  | 43 :: text => (false, text)
  | text => (false, text)

/-- Hexadecimal digits may follow `0x`. -/
def dropHexMark : Bytes → Bytes
  | 48 :: 120 :: text => text
  | 48 :: 88 :: text => text
  | text => text

/-- What is too large saturates, and a minus sign wraps. -/
def strtoull (base : ℕ) (text : Bytes) : ℕ :=
  let signed := takeSign (text.dropWhile isCSpace)
  let value := leadingDigits base (if base = 16 then dropHexMark signed.2 else signed.2)
  if 2 ^ 64 ≤ value then 2 ^ 64 - 1
  else if signed.1 then (2 ^ 64 - value) % 2 ^ 64 else value

def atoi (text : Bytes) : ℤ :=
  let signed := takeSign (text.dropWhile isCSpace)
  if signed.1 then -(leadingDigits 10 signed.2 : ℤ) else leadingDigits 10 signed.2

/-! ### Entities -/

/-- A numeric reference is decoded below 128 and is a question mark above. -/
def numericEntity (name : Bytes) : Bytes :=
  let hex := name[1]? = some 120 ∨ name[1]? = some 88
  let value := if hex then strtoull 16 (name.drop 2) else strtoull 10 (name.drop 1)
  if 0 < value ∧ value < 128 then [UInt8.ofNat value] else [63]

def entity (name : Bytes) : Option Bytes :=
  if name = str "amp" then some (str "&")
  else if name = str "lt" then some (str "<")
  else if name = str "gt" then some (str ">")
  else if name = str "quot" then some [34]
  else if name = str "apos" then some [39]
  else if name[0]? = some 35 then some (numericEntity name)
  else none

/-- An unknown entity stays as it is, and so does an ampersand with no semicolon after it. -/
def decodeFrom : ℕ → Bytes → Bytes
  | 0, _ => []
  | _, [] => []
  | fuel + 1, c :: text =>
    if c = 38 then
      match cut (str ";") text with
      | some (name, rest) =>
        (entity name).getD (c :: name ++ str ";") ++ decodeFrom fuel rest
      | none => c :: decodeFrom fuel text
    else c :: decodeFrom fuel text

def decodeEntities (text : Bytes) : Bytes := decodeFrom text.length text

/-! ### Tags -/

/-- A name and its prefix (`qualifier`), which is empty when there is no colon. -/
structure QName where
  qualifier : Bytes
  base : Bytes
  deriving DecidableEq, Repr

def splitQName (qname : Bytes) : QName :=
  match cut (str ":") qname with
  | some (front, rest) => ⟨front, rest⟩
  | none => ⟨[], qname⟩

structure Attribute where
  name : QName
  value : Bytes
  deriving DecidableEq, Repr

structure StartTag where
  name : QName
  attributes : List Attribute
  selfClosing : Bool
  deriving DecidableEq, Repr

/-- The attributes of a tag, and whether it closes itself. What has no value is passed over. -/
def attributesFrom : ℕ → Bytes → List Attribute × Bool
  | 0, _ => ([], false)
  | fuel + 1, text =>
    match text.dropWhile isSpace with
    | [] => ([], false)
    | c :: text =>
      if c = 47 then ([], true)
      else
        let inName := fun c => c ≠ 61 && !isSpace c && c ≠ 47
        match (c :: text).dropWhile inName with
        | [] => ([], false)
        | d :: rest =>
          if d ≠ 61 then attributesFrom fuel (d :: rest)
          else
            match rest.dropWhile isSpace with
            | [] => ([], false)
            | quote :: rest =>
              if quote ≠ 34 ∧ quote ≠ 39 then attributesFrom fuel (quote :: rest)
              else
                let more := attributesFrom fuel (rest.dropWhile (· ≠ quote)).tail
                (⟨splitQName ((c :: text).takeWhile inName),
                    decodeEntities (rest.takeWhile (· ≠ quote))⟩ :: more.1, more.2)

/-- The inside of a tag; every round of the attribute loop consumes a byte of it. -/
def parseStartTag (inside : Bytes) : Option StartTag :=
  let text := inside.dropWhile isSpace
  let inName := fun c => !isSpace c && c ≠ 47 && c ≠ 62
  if text.takeWhile inName = [] then none
  else
    let more := attributesFrom (inside.length + 1) (text.dropWhile inName)
    some ⟨splitQName (text.takeWhile inName), more.1, more.2⟩

/-! ### Namespaces -/

/-- An open element and the prefixes it declares. -/
structure NamespaceScope where
  element : Bytes
  bindings : List (Bytes × Bytes)

/-- The innermost declaration of a prefix; the innermost scope comes first. -/
def resolve (scopes : List NamespaceScope) (p : Bytes) : Bytes :=
  (scopes.findSome? fun scope => (scope.bindings.find? fun b => b.1 = p).map (·.2)).getD []

def StartTag.scope (tag : StartTag) : NamespaceScope where
  element := tag.name.base
  bindings := tag.attributes.filterMap fun a =>
    if a.name.qualifier = [] ∧ a.name.base = str "xmlns" then some ([], a.value)
    else if a.name.qualifier = str "xmlns" then some (a.name.base, a.value)
    else none

/-- An end tag closes the innermost element if that has its name. -/
def closeElement (scopes : List NamespaceScope) (name : QName) : List NamespaceScope :=
  match scopes with
  | scope :: outer => if scope.element = name.base then outer else scopes
  | [] => []

/-- What the scan does next with what is left after an opening angle bracket. -/
inductive Markup where
  | skip (rest : Bytes)
  | tag (inside rest : Bytes)
  | nothing

/-- Comments, declarations and processing instructions are passed over. -/
def markup (text : Bytes) : Markup :=
  if (str "!--").isPrefixOf text then
    match cut (str "-->") (text.drop 3) with
    | some (_, rest) => .skip rest
    | none => .nothing
  else if (str "?").isPrefixOf text ∨ (str "!").isPrefixOf text then
    match cut (str ">") (text.drop 1) with
    | some (_, rest) => .skip rest
    | none => .nothing
  else
    match cut (str ">") text with
    | some (inside, rest) => .tag inside rest
    | none => .nothing

/-- The first start tag of that namespace and local name. -/
def findElement (uri name : Bytes) : ℕ → List NamespaceScope → Bytes → Option StartTag
  | 0, _, _ => none
  | fuel + 1, scopes, xml =>
    match cut (str "<") xml with
    | none => none
    | some (_, text) =>
      match markup text with
      | .nothing => none
      | .skip rest => findElement uri name fuel scopes rest
      | .tag (47 :: inside) rest =>
        findElement uri name fuel (closeElement scopes (splitQName inside)) rest
      | .tag inside rest =>
        match parseStartTag inside with
        | none => findElement uri name fuel scopes rest
        | some tag =>
          if tag.name.base = name ∧ resolve (tag.scope :: scopes) tag.name.qualifier = uri then
            some tag
          else
            findElement uri name fuel (if tag.selfClosing then scopes else tag.scope :: scopes) rest

end PrinterDriver.Epos.Xml
