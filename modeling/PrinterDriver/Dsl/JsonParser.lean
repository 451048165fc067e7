import PrinterDriver.Dsl.JsonGrammar

/-! # Reading JSON

The parser of `json.cpp`, a function for each of its own, over the bytes that are left. The levels that a
value may still open are counted down, and a loop has the bytes that are left as its fuel: every round of
it takes one. -/

namespace PrinterDriver.Dsl.JsonParser

open PrinterDriver.Core.Types PrinterDriver.Dsl.Values PrinterDriver.Dsl.JsonGrammar
open PrinterDriver.Lib.Keyed
open PrinterDriver.Dsl.Text (encode)

def kMaxJsonDepth : ℕ := 64

/-- Where it went wrong, as the bytes that were left, and what. -/
structure JsonError where
  left : ℕ
  message : Bytes
  deriving DecidableEq, Repr

/-- A reader: what it read, and the bytes that are left. -/
abbrev Reader (α : Type) := Bytes → Except JsonError (α × Bytes)

def fail {α : Type} (rest : Bytes) (message : String) : Except JsonError α :=
  .error { left := rest.length, message := str message }

def skipWhitespace (text : Bytes) : Bytes := text.dropWhile isBlank

def expect (c : UInt8) (text : Bytes) : Except JsonError Bytes :=
  match text with
  | [] => .error { left := 0, message := str "expected '" ++ [c] ++ str "'" }
  | b :: rest =>
    if b = c then .ok rest
    else .error { left := text.length, message := str "expected '" ++ [c] ++ str "'" }

/-! ### Strings -/

def parseHex4 (text : Bytes) : Except JsonError (ℕ × Bytes) :=
  match text with
  | a :: b :: c :: d :: rest =>
    match hex4 a b c d with
    | some value => .ok (value, rest)
    | none => fail text "invalid hex digit in \\u escape"
  | _ => fail text "truncated \\u escape"

/-- The second escape of a surrogate pair. -/
def parseLow (high : ℕ) (text : Bytes) : Except JsonError (Bytes × Bytes) := do
  let (low, rest) ← parseHex4 text
  if isLow low then .ok (encode (paired high low), rest)
  else fail rest "high surrogate not followed by a low surrogate"

def parseUnicode (text : Bytes) : Except JsonError (Bytes × Bytes) := do
  let (codepoint, rest) ← parseHex4 text
  if isHigh codepoint then
    if rest.take 2 = [92, 117] then parseLow codepoint (rest.drop 2)
    else fail rest "unpaired high surrogate"
  else if isLow codepoint then fail rest "unpaired low surrogate"
  else .ok (encode codepoint, rest)

/-- What follows a backslash. -/
def parseEscape (text : Bytes) : Except JsonError (Bytes × Bytes) :=
  match text with
  | [] => fail [] "unterminated escape"
  | letter :: rest =>
    match shortEscape letter with
    | some c => .ok ([c], rest)
    | none => if letter = 117 then parseUnicode rest else fail rest "unknown escape"

/-- One round of the loop over the bytes of a string: a character, or the end. -/
def parseChar (text : Bytes) : Except JsonError (Option Bytes × Bytes) :=
  match text with
  | [] => fail [] "unterminated string"
  | b :: rest =>
    if b = 34 then .ok (none, rest)
    else if b < 0x20 then fail text "raw control character in string"
    else if b ≠ 92 then .ok (some [b], rest)
    else (parseEscape rest).map fun r => (some r.1, r.2)

def parseChars : ℕ → Reader Bytes
  | 0, text => fail text "out of fuel"
  | n + 1, text => do
    let (char, rest) ← parseChar text
    match char with
    | none => .ok ([], rest)
    | some c => (parseChars n rest).map fun r => (c ++ r.1, r.2)

def parseString (text : Bytes) : Except JsonError (Bytes × Bytes) := do
  let rest ← expect 34 text
  parseChars rest.length rest

/-! ### Numbers -/

/-- At least one digit. -/
def parseDigits (message : String) (text : Bytes) : Except JsonError Bytes :=
  match text with
  | [] => fail [] message
  | c :: _ => if isDigit c then .ok (text.dropWhile isDigit) else fail text message

def parseWhole (text : Bytes) : Except JsonError Bytes :=
  match text with
  | [] => fail [] "truncated number"
  | first :: rest =>
    if first = 48 then
      if rest.head?.any isDigit then fail rest "leading zeros are not valid JSON" else .ok rest
    else if 49 ≤ first ∧ first ≤ 57 then .ok (rest.dropWhile isDigit)
    else fail text "not a value"

def parseFraction (text : Bytes) : Except JsonError Bytes :=
  if text.head? = some 46 then parseDigits "digit expected after the decimal point" text.tail
  else .ok text

def parseExponent (text : Bytes) : Except JsonError Bytes :=
  if text.head? = some 101 ∨ text.head? = some 69 then
    let rest := text.tail
    let rest := if rest.head? = some 43 ∨ rest.head? = some 45 then rest.tail else rest
    parseDigits "digit expected in the exponent" rest
  else .ok text

/-- The number as it is written. -/
def parseNumber (text : Bytes) : Except JsonError (Bytes × Bytes) := do
  let rest ← parseWhole (if text.head? = some 45 then text.tail else text)
  let rest ← parseFraction rest
  let rest ← parseExponent rest
  .ok (text.take (text.length - rest.length), rest)

/-! ### Values -/

section Value
variable {ν : Type} (parseDoubleLiteral : Bytes → ν)

/-- The loop of `parseArray`. -/
def parseElements (value : Reader (Json ν)) : ℕ → Reader (List (Json ν))
  | 0, text => fail text "out of fuel"
  | n + 1, text => do
    let (element, rest) ← value (skipWhitespace text)
    let rest := skipWhitespace rest
    if rest.head? = some 44 then
      let rest := skipWhitespace rest.tail
      if rest.head? = some 93 then fail rest "trailing comma in array"
      else (parseElements value n rest).map fun r => (element :: r.1, r.2)
    else (expect 93 rest).map fun rest => ([element], rest)

def parseArray (value : Reader (Json ν)) (text : Bytes) : Except JsonError (Json ν × Bytes) := do
  let rest ← expect 91 text
  let rest := skipWhitespace rest
  if rest.head? = some 93 then .ok (.array [], rest.tail)
  else (parseElements value rest.length rest).map fun r => (.array r.1, r.2)

def parseKey (text : Bytes) : Except JsonError (Bytes × Bytes) :=
  if text.head? = some 34 then parseString text
  else fail text "object keys must be quoted strings"

/-- A key and its value. -/
def parseMember (value : Reader (Json ν)) (text : Bytes) :
    Except JsonError ((Bytes × Json ν) × Bytes) := do
  let (key, rest) ← parseKey text
  let rest ← expect 58 (skipWhitespace rest)
  let (member, rest) ← value (skipWhitespace rest)
  .ok ((key, member), rest)

/-- The loop of `parseObject`, with the members it has. -/
def parseMembers (value : Reader (Json ν)) :
    ℕ → List (Bytes × Json ν) → Reader (List (Bytes × Json ν))
  | 0, _, text => fail text "out of fuel"
  | n + 1, members, text => do
    let (member, rest) ← parseMember value (skipWhitespace text)
    let members := upsert Prod.fst member members
    let rest := skipWhitespace rest
    if rest.head? = some 44 then
      let rest := skipWhitespace rest.tail
      if rest.head? = some 125 then fail rest "trailing comma in object"
      else parseMembers value n members rest
    else (expect 125 rest).map fun rest => (members, rest)

def parseObject (value : Reader (Json ν)) (text : Bytes) :
    Except JsonError (Json ν × Bytes) := do
  let rest ← expect 123 text
  let rest := skipWhitespace rest
  if rest.head? = some 125 then .ok (.object [], rest.tail)
  else (parseMembers value rest.length [] rest).map fun r => (.object r.1, r.2)

def literal (word : String) (value : Json ν) (text : Bytes) :
    Except JsonError (Json ν × Bytes) :=
  if (str word).isPrefixOf text then .ok (value, text.drop (str word).length)
  else fail text "invalid literal"

/-- A value that may open so many levels, less one. -/
def parseValue : ℕ → Reader (Json ν)
  | 0, text => fail text "nesting deeper than 64 levels"
  | levels + 1, text =>
    match text with
    | [] => fail [] "unexpected end of input"
    | c :: _ =>
      if c = 123 then parseObject (parseValue levels) text
      else if c = 91 then parseArray (parseValue levels) text
      else if c = 34 then (parseString text).map fun r => (.string r.1, r.2)
      else if c = 116 then literal "true" (.boolean true) text
      else if c = 102 then literal "false" (.boolean false) text
      else if c = 110 then literal "null" .null text
      else (parseNumber text).map fun r => (.number (parseDoubleLiteral r.1) r.1, r.2)

def parseJson (text : Bytes) : Except JsonError (Json ν) := do
  let (value, rest) ← parseValue parseDoubleLiteral (kMaxJsonDepth + 1) (skipWhitespace text)
  let rest := skipWhitespace rest
  if rest = [] then .ok value else fail rest "trailing content after the top-level value"

end Value

/-- The message, with the byte offset. -/
def JsonError.what (text : Bytes) (e : JsonError) : Bytes :=
  str "JSON at byte " ++ str (toString (text.length - e.left)) ++ str ": " ++ e.message

end PrinterDriver.Dsl.JsonParser
