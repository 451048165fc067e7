import Mathlib.Data.List.Basic
import Mathlib.Tactic.SplitIfs

/-! # XML documents

Documents with namespaces, together with how they are written: the prefixes, the order and the quotes
of the attributes, white space, comments, processing instructions and CDATA sections. What a document
says is its `View`, the elements and their attributes under their expanded names. Bytes beyond ASCII
may stand in any name; there is no document type declaration. -/

namespace PrinterDriver.Lib.XmlDocuments

abbrev Text : Type := List UInt8

def ascii (s : String) : Text := s.toList.map fun c => UInt8.ofNat c.toNat

/-! ### Names -/

def isBlank (c : UInt8) : Bool := c = 32 || c = 9 || c = 13 || c = 10

/-- A letter or the underscore. -/
def isNameStart (c : UInt8) : Bool :=
  (97 ≤ c && c ≤ 122) || (65 ≤ c && c ≤ 90) || c = 95 || 128 ≤ c

/-- Digits, the hyphen and the dot may follow. -/
def isNameByte (c : UInt8) : Bool :=
  isNameStart c || (48 ≤ c && c ≤ 57) || c = 45 || c = 46

structure IsNcName (name : Text) : Prop where
  start : ∃ c rest, name = c :: rest ∧ isNameStart c
  bytes : ∀ c ∈ name, isNameByte c

/-- A name and its prefix (`qualifier`), which may be empty. -/
structure Name where
  qualifier : Text
  base : Text
  deriving DecidableEq

structure Name.WellFormed (n : Name) : Prop where
  qualifier : n.qualifier = [] ∨ IsNcName n.qualifier
  base : IsNcName n.base

def Name.write (n : Name) : Text :=
  if n.qualifier = [] then n.base else n.qualifier ++ 58 :: n.base

/-! ### Attribute values -/

inductive Entity where
  | amp | lt | gt | quot | apos
  deriving DecidableEq

def Entity.name : Entity → Text
  | .amp => ascii "amp"
  | .lt => ascii "lt"
  | .gt => ascii "gt"
  | .quot => ascii "quot"
  | .apos => ascii "apos"

def Entity.char : Entity → UInt8
  | .amp => 38
  | .lt => 60
  | .gt => 62
  | .quot => 34
  | .apos => 39

/-- A part of a value: a byte as it stands, or a reference. -/
inductive Piece where
  | raw (c : UInt8)
  | entity (e : Entity)
  | decimal (digits : Text)
  | hex (digits : Text)
  deriving DecidableEq

def Piece.write : Piece → Text
  | .raw c => [c]
  | .entity e => 38 :: e.name ++ [59]
  | .decimal digits => 38 :: 35 :: digits ++ [59]
  | .hex digits => 38 :: 35 :: 120 :: digits ++ [59]

def isDecimalDigit (c : UInt8) : Bool := 48 ≤ c && c ≤ 57

def isHexDigit (c : UInt8) : Bool :=
  isDecimalDigit c || (97 ≤ c && c ≤ 102) || (65 ≤ c && c ≤ 70)

def digitOf (c : UInt8) : ℕ :=
  if c ≤ 57 then c.toNat - 48 else if c ≤ 70 then c.toNat - 55 else c.toNat - 87

def number (base : ℕ) (digits : Text) : ℕ := digits.foldl (fun n c => n * base + digitOf c) 0

/-- The code points that a document may have. -/
def IsCharacter (n : ℕ) : Prop :=
  n = 9 ∨ n = 10 ∨ n = 13 ∨ (0x20 ≤ n ∧ n ≤ 0xD7FF) ∨ (0xE000 ≤ n ∧ n ≤ 0xFFFD) ∨
    (0x10000 ≤ n ∧ n ≤ 0x10FFFF)

def Piece.WellFormed (quote : UInt8) : Piece → Prop
  | .raw c => c ≠ 60 ∧ c ≠ 38 ∧ c ≠ quote
  | .entity _ => True
  | .decimal digits =>
    digits ≠ [] ∧ (∀ c ∈ digits, isDecimalDigit c) ∧ IsCharacter (number 10 digits)
  | .hex digits => digits ≠ [] ∧ (∀ c ∈ digits, isHexDigit c) ∧ IsCharacter (number 16 digits)

/-- The bytes of a character by its number. -/
def utf8 (n : ℕ) : Text := String.utf8EncodeChar (Char.ofNat n)

/-- What a value says, if a reference to a character stands for the given bytes. White space other
than blanks is read as a blank, and the end of a line as one. -/
def valueOf (reference : ℕ → Text) : List Piece → Text
  | [] => []
  | .raw c :: rest =>
    if c = 13 ∧ rest.head? = some (.raw 10) then valueOf reference rest
    else (if isBlank c then 32 else c) :: valueOf reference rest
  | .entity e :: rest => e.char :: valueOf reference rest
  | .decimal digits :: rest => reference (number 10 digits) ++ valueOf reference rest
  | .hex digits :: rest => reference (number 16 digits) ++ valueOf reference rest

/-! ### Tags -/

structure Attribute where
  /-- The white space that separates it. -/
  before : Text
  name : Name
  gapBefore : Text
  gapAfter : Text
  quote : UInt8
  value : List Piece

structure Attribute.WellFormed (a : Attribute) : Prop where
  separated : a.before ≠ []
  before : ∀ c ∈ a.before, isBlank c
  name : a.name.WellFormed
  gapBefore : ∀ c ∈ a.gapBefore, isBlank c
  gapAfter : ∀ c ∈ a.gapAfter, isBlank c
  quote : a.quote = 34 ∨ a.quote = 39
  value : ∀ p ∈ a.value, p.WellFormed a.quote

def Attribute.write (a : Attribute) : Text :=
  a.before ++ a.name.write ++ a.gapBefore ++ 61 :: a.gapAfter ++
    a.quote :: a.value.flatMap Piece.write ++ [a.quote]

structure Tag where
  name : Name
  attributes : List Attribute
  gap : Text

/-- What stands between the angle brackets, but for the slash. -/
def Tag.write (t : Tag) : Text := t.name.write ++ t.attributes.flatMap Attribute.write ++ t.gap

/-! ### Namespaces -/

/-- The namespaces that prefixes stand for; none is the empty one. -/
abbrev Env : Type := Text → Text

def xmlns : Text := ascii "xmlns"

/-- The prefix that an attribute of the name declares; the empty one is that of the default
namespace. -/
def Name.declares (n : Name) : Option Text :=
  if n.qualifier = [] ∧ n.base = xmlns then some []
  else if n.qualifier = xmlns then some n.base
  else none

def Attribute.declares (a : Attribute) : Option Text := a.name.declares

/-- The namespaces inside an element. -/
def Tag.bind (reference : ℕ → Text) (t : Tag) (env : Env) : Env := fun p =>
  ((t.attributes.find? fun a => a.declares = some p).map fun a =>
    valueOf reference a.value).getD (env p)

/-- The namespace of an element and its local name. -/
def Name.expanded (env : Env) (n : Name) : Text × Text := (env n.qualifier, n.base)

/-- The default namespace is not that of attributes; without a prefix they have none. -/
def Attribute.expanded (env : Env) (a : Attribute) : Option Text × Text :=
  (if a.name.qualifier = [] then none else some (env a.name.qualifier), a.name.base)

/-- The attributes of an element that are no declarations. -/
def Tag.lookup (reference : ℕ → Text) (t : Tag) (env : Env) (name : Option Text × Text) :
    Option Text :=
  (t.attributes.find? fun a => a.declares = none ∧ a.expanded env = name).map fun a =>
    valueOf reference a.value

/-- The prefix `xml` needs no declaration. -/
def Declared (env : Env) (qualifier : Text) : Prop :=
  qualifier = [] ∨ qualifier = ascii "xml" ∨ env qualifier ≠ []

/-- Prefixes are declared, and no attribute has the name of another. -/
structure Tag.WellFormed (reference : ℕ → Text) (env : Env) (t : Tag) : Prop where
  name : t.name.WellFormed
  attributes : ∀ a ∈ t.attributes, a.WellFormed
  gap : ∀ c ∈ t.gap, isBlank c
  declared : Declared (t.bind reference env) t.name.qualifier
  declaredAttributes : ∀ a ∈ t.attributes, a.declares = none →
    Declared (t.bind reference env) a.name.qualifier
  distinct : t.attributes.Pairwise fun a b => a.name ≠ b.name
  apart : t.attributes.Pairwise fun a b => a.declares = none → b.declares = none →
    a.expanded (t.bind reference env) ≠ b.expanded (t.bind reference env)

/-! ### Content -/

/-- What is no element and no text. -/
inductive Aside where
  | comment (content : Text)
  | cdata (content : Text)
  | instruction (content : Text)

def Aside.write : Aside → Text
  | .comment content => ascii "<!--" ++ content ++ ascii "-->"
  | .cdata content => ascii "<![CDATA[" ++ content ++ ascii "]]>"
  | .instruction content => ascii "<?" ++ content ++ ascii "?>"

def Aside.WellFormed : Aside → Prop
  | .comment content => ¬ascii "--" <:+: content ∧ ¬ascii "-" <:+ content
  | .cdata content => ¬ascii "]]>" <:+: content
  | .instruction content =>
    ¬ascii "?>" <:+: content ∧ ∃ c rest, content = c :: rest ∧ isNameStart c

/-- What stands one after the other inside an element, or at the top. -/
inductive Content where
  | nil
  | text (chars : Text) (rest : Content)
  | aside (a : Aside) (rest : Content)
  /-- An element without an end tag. -/
  | empty (tag : Tag) (rest : Content)
  | element (tag : Tag) (inner : Content) (gap : Text) (rest : Content)

namespace Content

def write : Content → Text
  | .nil => []
  | .text chars rest => chars ++ rest.write
  | .aside a rest => a.write ++ rest.write
  | .empty tag rest => 60 :: tag.write ++ [47, 62] ++ rest.write
  | .element tag inner gap rest =>
    60 :: tag.write ++ 62 :: inner.write ++ 60 :: 47 :: tag.name.write ++ gap ++ 62 :: rest.write

/-- The rules on what may stand where; a document has one element at the top. -/
def WellFormed (reference : ℕ → Text) : Env → Content → Prop
  | _, .nil => True
  | env, .text chars rest => 60 ∉ chars ∧ rest.WellFormed reference env
  | env, .aside a rest => a.WellFormed ∧ rest.WellFormed reference env
  | env, .empty tag rest => tag.WellFormed reference env ∧ rest.WellFormed reference env
  | env, .element tag inner gap rest =>
    tag.WellFormed reference env ∧ inner.WellFormed reference (tag.bind reference env) ∧
      (∀ c ∈ gap, isBlank c) ∧ rest.WellFormed reference env

end Content

/-- The elements in their order, with their attributes. -/
inductive View where
  | nil
  | element (name : Text × Text) (attributes : Option Text × Text → Option Text) (inner rest : View)

/-- What a document says. -/
def Content.view (reference : ℕ → Text) : Env → Content → View
  | _, .nil => .nil
  | env, .text _ rest => rest.view reference env
  | env, .aside _ rest => rest.view reference env
  | env, .empty tag rest =>
    .element (tag.name.expanded (tag.bind reference env))
      (tag.lookup reference (tag.bind reference env)) .nil (rest.view reference env)
  | env, .element tag inner _ rest =>
    .element (tag.name.expanded (tag.bind reference env))
      (tag.lookup reference (tag.bind reference env))
      (inner.view reference (tag.bind reference env)) (rest.view reference env)

/-- The attributes of the first element of that name, in the order of the start tags. -/
def View.first (name : Text × Text) : View → Option (Option Text × Text → Option Text)
  | .nil => none
  | .element n attributes inner rest =>
    if n = name then some attributes else (inner.first name).or (rest.first name)

/-! ### Documents written in another way -/

/-- Prefixes are renamed; those that need no declaration keep their names. -/
structure Renaming (ρ : Text → Text) : Prop where
  injective : ∀ {p q}, ρ p = ρ q → p = q
  none : ρ [] = []
  xml : ρ (ascii "xml") = ascii "xml"
  xmlns : ρ xmlns = xmlns

def Name.rename (ρ : Text → Text) (n : Name) : Name := ⟨ρ n.qualifier, n.base⟩

/-- A declaration declares the new prefix. -/
def Attribute.renamed (ρ : Text → Text) (a : Attribute) : Name :=
  if a.name.qualifier = xmlns then ⟨xmlns, ρ a.name.base⟩ else a.name.rename ρ

/-- The attributes may stand in another order, with other quotes and other white space. -/
structure Tag.Restyled (ρ : Text → Text) (reference : ℕ → Text) (t t' : Tag) : Prop where
  name : t'.name = t.name.rename ρ
  attributes : (t'.attributes.map fun a => (a.name, valueOf reference a.value)).Perm
    (t.attributes.map fun a => (a.renamed ρ, valueOf reference a.value))

/-- The same elements with the same attributes; what else stands between them may come and go. -/
inductive Restyled (ρ : Text → Text) (reference : ℕ → Text) : Content → Content → Prop
  | nil : Restyled ρ reference .nil .nil
  | text {c c' : Content} (chars : Text) (h : Restyled ρ reference c c') :
      Restyled ρ reference (.text chars c) c'
  | aside {c c' : Content} (a : Aside) (h : Restyled ρ reference c c') :
      Restyled ρ reference (.aside a c) c'
  | newText {c c' : Content} (chars : Text) (h : Restyled ρ reference c c') :
      Restyled ρ reference c (.text chars c')
  | newAside {c c' : Content} (a : Aside) (h : Restyled ρ reference c c') :
      Restyled ρ reference c (.aside a c')
  | empty {t t' : Tag} {c c' : Content} (ht : t.Restyled ρ reference t')
      (h : Restyled ρ reference c c') : Restyled ρ reference (.empty t c) (.empty t' c')
  | element {t t' : Tag} {inner inner' c c' : Content} {gap gap' : Text}
      (ht : t.Restyled ρ reference t') (hinner : Restyled ρ reference inner inner')
      (h : Restyled ρ reference c c') :
      Restyled ρ reference (.element t inner gap c) (.element t' inner' gap' c')

/-- What only one has is found in any order. -/
theorem find?_perm {α : Type} {l l' : List α} (h : l.Perm l') (q : α → Bool) :
    l.Pairwise (fun a b => ¬(q a = true ∧ q b = true)) → l.find? q = l'.find? q := by
  induction h with
  | nil => exact fun _ => rfl
  | cons a _ ih =>
    intro hunique
    have htail := ih (List.pairwise_cons.mp hunique).2
    by_cases ha : q a = true
    · rw [List.find?_cons_of_pos ha, List.find?_cons_of_pos ha]
    · rw [List.find?_cons_of_neg ha, List.find?_cons_of_neg ha, htail]
  | swap a b l =>
    intro hunique
    have hnot := (List.pairwise_cons.mp hunique).1 a (List.mem_cons_self ..)
    by_cases ha : q a = true
    · have hb : ¬q b = true := fun hb => hnot ⟨hb, ha⟩
      rw [List.find?_cons_of_neg hb, List.find?_cons_of_pos ha, List.find?_cons_of_pos ha]
    · by_cases hb : q b = true
      · rw [List.find?_cons_of_pos hb, List.find?_cons_of_neg ha, List.find?_cons_of_pos hb]
      · rw [List.find?_cons_of_neg hb, List.find?_cons_of_neg ha, List.find?_cons_of_neg ha,
          List.find?_cons_of_neg hb]
  | trans h₁ _ ih₁ ih₂ =>
    intro hunique
    have hmiddle := h₁.pairwise hunique fun hn hc => hn ⟨hc.2, hc.1⟩
    rw [ih₁ hunique, ih₂ hmiddle]

/-- What the attribute of a kind says, if the kind is a matter of the name. -/
theorem find?_names (reference : ℕ → Text) (q : Name → Bool) (attributes : List Attribute) :
    ((attributes.find? fun a => q a.name).map fun a => valueOf reference a.value) =
      ((attributes.map fun a => (a.name, valueOf reference a.value)).find? fun x => q x.1).map
        (·.2) := by
  rw [List.find?_map, Option.map_map]
  rfl

section Restyled
variable {ρ : Text → Text} {reference : ℕ → Text} {t t' : Tag}

/-- The attribute of a kind says the same after a restyling that renames the kind along. -/
theorem Tag.Restyled.find_eq (h : t.Restyled ρ reference t')
    (hdistinct : t.attributes.Pairwise fun a b => a.name ≠ b.name) (q q' : Name → Bool)
    (hq : ∀ a ∈ t.attributes, q' (a.renamed ρ) = q a.name)
    (hone : ∀ a ∈ t.attributes, ∀ b ∈ t.attributes, q a.name = true → q b.name = true →
      a.name = b.name) :
    ((t'.attributes.find? fun a => q' a.name).map fun a => valueOf reference a.value) =
      (t.attributes.find? fun a => q a.name).map fun a => valueOf reference a.value := by
  have hunique : (t.attributes.map fun a => (a.renamed ρ, valueOf reference a.value)).Pairwise
      fun x y => ¬(q' x.1 = true ∧ q' y.1 = true) := by
    rw [List.pairwise_map]
    refine hdistinct.imp_of_mem fun {a b} ha hb hne hc => ?_
    rw [hq a ha, hq b hb] at hc
    exact hne (hone a ha b hb hc.1 hc.2)
  rw [find?_names, ← find?_perm h.attributes.symm (fun x => q' x.1) hunique, List.find?_map,
    Option.map_map]
  have hsame : ∀ attributes : List Attribute, (∀ a ∈ attributes, q' (a.renamed ρ) = q a.name) →
      attributes.find? (fun a => q' (a.renamed ρ)) = attributes.find? fun a => q a.name := by
    intro attributes
    induction attributes with
    | nil => exact fun _ => rfl
    | cons a attributes ih =>
      intro hall
      have ha := hall a (List.mem_cons_self ..)
      have htail := ih fun b hb => hall b (List.mem_cons_of_mem _ hb)
      rw [List.find?_cons, List.find?_cons, ha, htail]
  rw [show ((fun x : Name × Text => q' x.1) ∘ fun a : Attribute =>
    (a.renamed ρ, valueOf reference a.value)) = fun a => q' (a.renamed ρ) from rfl,
    hsame t.attributes hq]
  rfl

theorem Renaming.eq_nil_iff (hρ : Renaming ρ) {p : Text} : ρ p = [] ↔ p = [] :=
  ⟨fun h => hρ.injective (h.trans hρ.none.symm), fun h => h ▸ hρ.none⟩

theorem Renaming.eq_xmlns_iff (hρ : Renaming ρ) {p : Text} :
    ρ p = XmlDocuments.xmlns ↔ p = XmlDocuments.xmlns :=
  ⟨fun h => hρ.injective (h.trans hρ.xmlns.symm), fun h => h ▸ hρ.xmlns⟩

/-- A declaration is one of the renamed prefix. -/
theorem declares_renamed (hρ : Renaming ρ) (a : Attribute) :
    (a.renamed ρ).declares = a.name.declares.map ρ := by
  have hx : ¬xmlns = [] := by decide
  unfold Attribute.renamed Name.declares
  by_cases hq : a.name.qualifier = xmlns
  · rw [if_pos hq, if_neg fun hc => hx hc.1, if_pos rfl, if_neg fun hc => hx (hq.symm.trans hc.1),
      if_pos hq]
    rfl
  · rw [if_neg hq, if_neg hq]
    unfold Name.rename
    simp only [hρ.eq_nil_iff, hρ.eq_xmlns_iff, if_neg hq]
    split_ifs
    · rw [Option.map_some, hρ.none]
    · rfl

/-- Names that declare one prefix are the same. -/
theorem eq_of_declares {m n : Name} {p : Text} (hm : m.base ≠ []) (hn : n.base ≠ [])
    (h : m.declares = some p) (h' : n.declares = some p) : m = n := by
  have hof : ∀ {n : Name}, n.base ≠ [] → n.declares = some p →
      n = if p = [] then ⟨[], xmlns⟩ else ⟨xmlns, p⟩ := by
    intro n hn h
    unfold Name.declares at h
    split_ifs at h with hd hq
    · obtain rfl := Option.some.inj h
      rw [if_pos rfl, ← hd.1, ← hd.2]
    · obtain rfl := Option.some.inj h
      rw [if_neg hn, ← hq]
  rw [hof hm h, hof hn h']

/-- The new prefixes stand for the namespaces of the old ones. -/
theorem Tag.Restyled.bind_eq (h : t.Restyled ρ reference t') (hρ : Renaming ρ)
    (hdistinct : t.attributes.Pairwise fun a b => a.name ≠ b.name)
    (hbase : ∀ a ∈ t.attributes, a.name.base ≠ []) {env env' : Env} (henv : ∀ p, env' (ρ p) = env p)
    (p : Text) : t'.bind reference env' (ρ p) = t.bind reference env p := by
  have hfind := h.find_eq hdistinct (fun n => n.declares = some p)
    (fun n => n.declares = some (ρ p)) (fun a _ => by
      rw [decide_eq_decide, declares_renamed hρ]
      rcases a.name.declares with _ | d
      · exact iff_of_false (fun he => by cases he) fun he => by cases he
      · rw [Option.map_some, Option.some.injEq, Option.some.injEq]
        exact ⟨fun he => hρ.injective he, fun he => by rw [he]⟩)
    (fun a ha b hb hm hn => eq_of_declares (hbase a ha) (hbase b hb) (of_decide_eq_true hm)
      (of_decide_eq_true hn))
  unfold Tag.bind
  rw [henv p]
  exact congrArg (Option.getD · (env p)) hfind

end Restyled

end PrinterDriver.Lib.XmlDocuments
