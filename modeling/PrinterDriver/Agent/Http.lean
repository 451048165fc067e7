import PrinterDriver.Core.Types
import Mathlib.Data.List.Basic

/-! # The query of a request

How `http.cpp` reads one parameter from the query of a request: the pairs between ampersands, the
first whose name is the one asked for, and its value with the percent escapes undone. -/

namespace PrinterDriver.Agent.Http

open PrinterDriver.Core.Types

/-- One hexadecimal digit. -/
def hexValue (c : UInt8) : Option UInt8 :=
  if 48 ≤ c ∧ c ≤ 57 then some (c - 48)
  else if 97 ≤ c ∧ c ≤ 102 then some (c - 97 + 10)
  else if 65 ≤ c ∧ c ≤ 70 then some (c - 65 + 10)
  else none

/-- Escapes that are not two hexadecimal digits stay as they are. -/
def percentDecode : Bytes → Bytes
  | [] => []
  | [c] => [c]
  | [c, d] => [c, d]
  | c :: d :: e :: rest =>
    if c = 37 then
      match hexValue d, hexValue e with
      | some high, some low => (high <<< 4 ||| low) :: percentDecode rest
      | _, _ => c :: percentDecode (d :: e :: rest)
    else c :: percentDecode (d :: e :: rest)

/-- In a form a plus stands for a space. -/
def formDecode (text : Bytes) : Bytes :=
  percentDecode (text.map fun c => if c = 43 then 32 else c)

/-- The name of a pair: what stands before its equals sign. -/
def pairName (pair : Bytes) : Bytes := pair.takeWhile (· ≠ 61)

/-- The value of a pair; it is empty where there is no equals sign. -/
def pairValue (pair : Bytes) : Bytes := formDecode (pair.dropWhile (· ≠ 61)).tail

/-- The value of the first parameter of that name. -/
def queryValue? (query name : Bytes) : Option Bytes :=
  ((query.splitOn 38).find? fun pair => pairName pair = name).map pairValue

/-- An absent parameter reads as empty. -/
def queryValue (query name : Bytes) : Bytes := (queryValue? query name).getD []

example : queryValue (str "uid=a%20b&code=200%20OK&token=") (str "code") = str "200 OK" := by
  decide

end PrinterDriver.Agent.Http
