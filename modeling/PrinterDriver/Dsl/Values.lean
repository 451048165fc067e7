import PrinterDriver.Core.Types
import Mathlib.Data.Int.Notation

/-! # JSON values

The values that documents and models are read from and written to. Members keep their order, and a
number keeps the digits it was written with. What a `double` is, is a parameter. -/

namespace PrinterDriver.Dsl.Values

open PrinterDriver.Core.Types

/-- What is asked of a `double`. -/
class Doubles (ν : Type) where
  ofInt : ℤ → ν
  isZero : ν → Bool
  /-- The nearest integer, halves away from zero; nothing where the value is not finite. -/
  round : ν → Option ℤ
  formatDouble : ν → Bytes

/-- The literal of a number is empty unless it was read. -/
inductive Json (ν : Type) where
  | null
  | boolean (value : Bool)
  | number (value : ν) (literal : Bytes)
  | string (value : Bytes)
  | array (values : List (Json ν))
  | object (members : List (Bytes × Json ν))

namespace Json

variable {ν : Type}

/-- A number without a literal. -/
def ofInt [Doubles ν] (n : ℤ) : Json ν := .number (Doubles.ofInt n) []

def isArray : Json ν → Bool
  | array _ => true
  | _ => false

def isObject : Json ν → Bool
  | object _ => true
  | _ => false

/-- The member of that name, of an object. -/
def find (key : Bytes) : Json ν → Option (Json ν)
  | object members => (members.find? fun member => member.1 = key).map Prod.snd
  | _ => none

/-- The element, of an array. -/
def at? (index : ℕ) : Json ν → Option (Json ν)
  | array values => values[index]?
  | _ => none

/-- Null, false, zero and what is empty are false. -/
def truthy [Doubles ν] : Json ν → Bool
  | null => false
  | boolean value => value
  | number value _ => !Doubles.isZero value
  | string value => !value.isEmpty
  | array values => !values.isEmpty
  | object members => !members.isEmpty

/-! ### Text -/

/-- `%X` of a hexadecimal digit. -/
def hexDigit (n : UInt8) : UInt8 := if n < 10 then 48 + n else 55 + n

/-- A byte within quotes. -/
def escape (c : UInt8) : Bytes :=
  if c = 34 then str "\\\""
  else if c = 92 then str "\\\\"
  else if c = 8 then str "\\b"
  else if c = 12 then str "\\f"
  else if c = 10 then str "\\n"
  else if c = 13 then str "\\r"
  else if c = 9 then str "\\t"
  else if c < 0x20 then str "\\u00" ++ [hexDigit (c / 16), hexDigit (c % 16)]
  else [c]

def quote (value : Bytes) : Bytes := [34] ++ value.flatMap escape ++ [34]

def pad (indent : ℕ) : Bytes := List.replicate (indent * 2) 32

/-- What stands between the brackets of a list that is not empty. -/
def bracketed (pretty : Bool) (indent : ℕ) (opening closing : UInt8) (parts : List Bytes) : Bytes :=
  let lines := parts.map fun part => if pretty then [10] ++ pad (indent + 1) ++ part else part
  [opening] ++ [44].intercalate lines ++ (if pretty then [10] ++ pad indent else []) ++ [closing]

mutual
/-- `writeInto` -/
def write [Doubles ν] (pretty : Bool) (indent : ℕ) : Json ν → Bytes
  | null => str "null"
  | boolean value => if value then str "true" else str "false"
  | number value literal => if literal.isEmpty then Doubles.formatDouble value else literal
  | string value => quote value
  | array values =>
    if values.isEmpty then str "[]"
    else bracketed pretty indent 91 93 (writeValues pretty (indent + 1) values)
  | object members =>
    if members.isEmpty then str "{}"
    else bracketed pretty indent 123 125 (writeMembers pretty (indent + 1) members)

def writeValues [Doubles ν] (pretty : Bool) (indent : ℕ) : List (Json ν) → List Bytes
  | [] => []
  | value :: values => write pretty indent value :: writeValues pretty indent values

def writeMembers [Doubles ν] (pretty : Bool) (indent : ℕ) : List (Bytes × Json ν) → List Bytes
  | [] => []
  | (key, value) :: members =>
    (quote key ++ (if pretty then str ": " else str ":") ++ write pretty indent value) ::
      writeMembers pretty indent members
end

end Json

def toJson {ν : Type} [Doubles ν] (value : Json ν) (pretty : Bool) : Bytes := value.write pretty 0

/-- How a scalar prints with no formatter; a structure prints as compact text. -/
def valueToText {ν : Type} [Doubles ν] : Json ν → Bytes
  | .null => []
  | .boolean value => if value then str "true" else str "false"
  | .number value literal => if literal.isEmpty then toJson (.number value literal) false else literal
  | .string value => value
  | value => toJson value false

end PrinterDriver.Dsl.Values
