import PrinterDriver.Dsl.Text
import PrinterDriver.Dsl.Values
import PrinterDriver.Lib.Keyed

/-! # JSON texts

The texts of RFC 8259 as concrete syntax trees: a tree has every byte of its text, so that what is
spelled is a function of it (`Tree.text`), and so are the value that is meant (`Tree.value`) and how
deeply values stand within others (`Tree.depth`). A string may hold any byte but quotes, backslashes and
controls, and an escaped surrogate stands only in a pair. -/

namespace PrinterDriver.Dsl.JsonGrammar

open PrinterDriver.Core.Types PrinterDriver.Dsl.Values PrinterDriver.Lib.Keyed
open PrinterDriver.Dsl.Text (encode)

/-! ### Blanks and digits -/

def isBlank (c : UInt8) : Bool := c = 32 || c = 9 || c = 10 || c = 13

def isDigit (c : UInt8) : Bool := 48 ≤ c && c ≤ 57

abbrev Blank := { w : Bytes // ∀ c ∈ w, isBlank c = true }

def Blank.none : Blank := ⟨[], fun _ h => nomatch h⟩

abbrev Digits := { ds : Bytes // ds ≠ [] ∧ ∀ c ∈ ds, isDigit c = true }

/-! ### Numbers -/

/-- No digit follows a leading zero. -/
inductive Whole where
  | zero
  | digits (first : UInt8) (more : Bytes) (hfirst : 49 ≤ first ∧ first ≤ 57)
      (hmore : ∀ c ∈ more, isDigit c = true)

def Whole.text : Whole → Bytes
  | .zero => [48]
  | .digits first more _ _ => first :: more

structure Exponent where
  letter : UInt8
  sign : Bytes
  digits : Digits
  hletter : letter = 101 ∨ letter = 69
  hsign : sign = [] ∨ sign = [43] ∨ sign = [45]

def Exponent.text (e : Exponent) : Bytes := e.letter :: (e.sign ++ e.digits.1)

structure Number where
  minus : Bool
  whole : Whole
  fraction : Option Digits
  exponent : Option Exponent

namespace Number

def fractionText : Option Digits → Bytes
  | none => []
  | some ds => 46 :: ds.1

def exponentText : Option Exponent → Bytes
  | none => []
  | some e => e.text

def text (n : Number) : Bytes :=
  (if n.minus then [45] else []) ++ n.whole.text ++ fractionText n.fraction ++
    exponentText n.exponent

end Number

/-! ### Strings -/

def hexValue (c : UInt8) : Option ℕ :=
  if 48 ≤ c ∧ c ≤ 57 then some (c.toNat - 48)
  else if 97 ≤ c ∧ c ≤ 102 then some (c.toNat - 97 + 10)
  else if 65 ≤ c ∧ c ≤ 70 then some (c.toNat - 65 + 10)
  else none

/-- The value of four hexadecimal digits. -/
def hex4 (a b c d : UInt8) : Option ℕ := do
  let a ← hexValue a
  let b ← hexValue b
  let c ← hexValue c
  let d ← hexValue d
  return ((a * 16 + b) * 16 + c) * 16 + d

structure Hex4 where
  a : UInt8
  b : UInt8
  c : UInt8
  d : UInt8
  value : ℕ
  spells : hex4 a b c d = some value

def Hex4.text (h : Hex4) : Bytes := [92, 117, h.a, h.b, h.c, h.d]

def isHigh (codepoint : ℕ) : Prop := 0xD800 ≤ codepoint ∧ codepoint ≤ 0xDBFF

def isLow (codepoint : ℕ) : Prop := 0xDC00 ≤ codepoint ∧ codepoint ≤ 0xDFFF

instance (codepoint : ℕ) : Decidable (isHigh codepoint) := inferInstanceAs (Decidable (_ ∧ _))

instance (codepoint : ℕ) : Decidable (isLow codepoint) := inferInstanceAs (Decidable (_ ∧ _))

/-- The code point of a surrogate pair. -/
def paired (high low : ℕ) : ℕ := 0x10000 + (high - 0xD800) * 1024 + (low - 0xDC00)

/-- What an escape of one letter stands for. -/
def shortEscape (letter : UInt8) : Option UInt8 :=
  if letter = 34 then some 34
  else if letter = 92 then some 92
  else if letter = 47 then some 47
  else if letter = 98 then some 8
  else if letter = 102 then some 12
  else if letter = 110 then some 10
  else if letter = 114 then some 13
  else if letter = 116 then some 9
  else none

inductive Item where
  | plain (c : UInt8) (h : 0x20 ≤ c ∧ c ≠ 34 ∧ c ≠ 92)
  | short (letter c : UInt8) (h : shortEscape letter = some c)
  | unicode (u : Hex4) (h : ¬isHigh u.value ∧ ¬isLow u.value)
  | pair (high low : Hex4) (h : isHigh high.value ∧ isLow low.value)

namespace Item

def text : Item → Bytes
  | plain c _ => [c]
  | short letter _ _ => [92, letter]
  | unicode u _ => u.text
  | pair high low _ => high.text ++ low.text

def bytes : Item → Bytes
  | plain c _ => [c]
  | short _ c _ => [c]
  | unicode u _ => encode u.value
  | pair high low _ => encode (paired high.value low.value)

end Item

def quoted (items : List Item) : Bytes := 34 :: (items.flatMap Item.text ++ [34])

def contents (items : List Item) : Bytes := items.flatMap Item.bytes

/-! ### Values -/

mutual
inductive Tree where
  | null
  | boolean (value : Bool)
  | number (n : Number)
  | string (items : List Item)
  | emptyArray (gap : Blank)
  | array (elements : Elements)
  | emptyObject (gap : Blank)
  | object (members : Members)

/-- The elements of an array, with the blanks around them. -/
inductive Elements where
  | last (before : Blank) (value : Tree) (after : Blank)
  | more (before : Blank) (value : Tree) (after : Blank) (rest : Elements)

/-- The members of an object, with the blanks around keys and values. -/
inductive Members where
  | last (before : Blank) (key : List Item) (gap colonGap : Blank) (value : Tree) (after : Blank)
  | more (before : Blank) (key : List Item) (gap colonGap : Blank) (value : Tree) (after : Blank)
      (rest : Members)
end

mutual
def Tree.text : Tree → Bytes
  | .null => str "null"
  | .boolean value => if value then str "true" else str "false"
  | .number n => n.text
  | .string items => quoted items
  | .emptyArray gap => 91 :: (gap.1 ++ [93])
  | .array elements => 91 :: (elements.text ++ [93])
  | .emptyObject gap => 123 :: (gap.1 ++ [125])
  | .object members => 123 :: (members.text ++ [125])

def Elements.text : Elements → Bytes
  | .last before value after => before.1 ++ (value.text ++ after.1)
  | .more before value after rest => before.1 ++ (value.text ++ (after.1 ++ 44 :: rest.text))

def Members.text : Members → Bytes
  | .last before key gap colonGap value after =>
    before.1 ++ (quoted key ++ (gap.1 ++ 58 :: (colonGap.1 ++ (value.text ++ after.1))))
  | .more before key gap colonGap value after rest =>
    before.1 ++ (quoted key ++ (gap.1 ++ 58 :: (colonGap.1 ++ (value.text ++
      (after.1 ++ 44 :: rest.text)))))
end

mutual
/-- How many arrays and objects stand around the value that stands deepest. -/
def Tree.depth : Tree → ℕ
  | .array elements => elements.depth
  | .object members => members.depth
  | _ => 0

def Elements.depth : Elements → ℕ
  | .last _ value _ => value.depth + 1
  | .more _ value _ rest => max (value.depth + 1) rest.depth

def Members.depth : Members → ℕ
  | .last _ _ _ _ value _ => value.depth + 1
  | .more _ _ _ _ value _ rest => max (value.depth + 1) rest.depth
end

section Value
variable {ν : Type} (parseDoubleLiteral : Bytes → ν)

/-- The last of the members with a key wins, in the place of the first. -/
def collapse (members : List (Bytes × Json ν)) : List (Bytes × Json ν) :=
  members.foldl (fun acc member => upsert Prod.fst member acc) []

mutual
def Tree.value : Tree → Json ν
  | .null => .null
  | .boolean value => .boolean value
  | .number n => .number (parseDoubleLiteral n.text) n.text
  | .string items => .string (contents items)
  | .emptyArray _ => .array []
  | .array elements => .array elements.values
  | .emptyObject _ => .object []
  | .object members => .object (collapse members.values)

def Elements.values : Elements → List (Json ν)
  | .last _ value _ => [value.value]
  | .more _ value _ rest => value.value :: rest.values

/-- Every member, in order. -/
def Members.values : Members → List (Bytes × Json ν)
  | .last _ key _ _ value _ => [(contents key, value.value)]
  | .more _ key _ _ value _ rest => (contents key, value.value) :: rest.values
end

/-- The text is that of a value of no more than that depth, between blanks. -/
def Denotes (kMaxJsonDepth : ℕ) (text : Bytes) (value : Json ν) : Prop :=
  ∃ (before : Blank) (tree : Tree) (after : Blank), text = before.1 ++ (tree.text ++ after.1) ∧
    tree.depth ≤ kMaxJsonDepth ∧ tree.value parseDoubleLiteral = value

end Value

end PrinterDriver.Dsl.JsonGrammar
