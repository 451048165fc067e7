import PrinterDriver.Dsl.Bind
import Mathlib.Data.List.Basic

/-! # What a template stands for

The expansion of a template is a list of leaves that no limit cuts short: the body of an `each` once
for every element, the body of an `if` where its path is true, and nothing of a group that is too
deep. Binding emits it, up to the limit on blocks (`bind_document`). -/

namespace PrinterDriver.Dsl.Expansion

open PrinterDriver.Lib.Templates
open PrinterDriver.Core.Types PrinterDriver.Dsl.Values PrinterDriver.Dsl.Documents
  PrinterDriver.Dsl.Bind PrinterDriver.Dsl.Bind.Binder
open PrinterDriver.Dsl.Render (ReportEntry decimal)

variable {ν : Type} [Doubles ν]

/-! ### The reference -/

/-- A value under a chain of formatters. -/
def formatted (f : Json ν → Bytes → FormatOutcome) : List Bytes → Json ν → Bytes
  | [], value => valueToText value
  | formatter :: formatters, value =>
    if trim formatter = [] then formatted f formatters value
    else formatted f formatters (.string (f value (trim formatter)).text)

/-- What stands for a placeholder. -/
def holeText (b : Binder ν) (scope : Scope ν) (expression : Bytes) : Bytes :=
  match resolve scope (trim ((expression.splitOn 124).headD [])) with
  | none => []
  | some value =>
    sanitize (formatted (b.applyFormatter b.context) (expression.splitOn 124).tail value)

/-- The strings of a leaf that a template may have placeholders in, replaced. -/
def mapContents (f : Bytes → Bytes) : Leaf ν → Leaf ν
  | .text content style => .text (f content) style
  | .qr content size ec align => .qr (f content) size ec align
  | .barcode code => .barcode { code with content := f code.content }
  | .columns cells => .columns (cells.map fun cell => { cell with content := f cell.content })
  | .image picture => .image { picture with ref := f picture.ref }
  | leaf => leaf

/-- What an `each` repeats its body for. -/
def items (scope : Scope ν) (path : Bytes) : List (Json ν) :=
  match resolve scope path with
  | some (.array values) => values
  | _ => []

/-- Whether an `if` keeps its body. -/
def holds (scope : Scope ν) (path : Bytes) : Bool := (resolve scope path).any Json.truthy

mutual
def expandBlock (b : Binder ν) (scope : Scope ν) (depth : ℕ) : Block ν → List (Leaf ν)
  | .leaf leaf => [mapContents (fill braces (holeText b scope)) leaf]
  | .each path _ body =>
    if b.options.maxDepth < depth + 1 then []
    else (items scope path).zipIdx.flatMap fun item =>
      expandBlocks b (.element item.1 item.2 (items scope path).length scope) (depth + 1) body
  | .cond path negated _ body =>
    if holds scope path = negated ∨ b.options.maxDepth < depth + 1 then []
    else expandBlocks b scope (depth + 1) body

/-- The leaves of blocks that stand at that depth. -/
def expandBlocks (b : Binder ν) (scope : Scope ν) (depth : ℕ) : List (Block ν) → List (Leaf ν)
  | [] => []
  | block :: blocks => expandBlock b scope depth block ++ expandBlocks b scope depth blocks
end

/-! ### Placeholders are read once -/

variable {b : Binder ν} {scope : Scope ν}

theorem rendered_format (place written : Bytes) : ∀ (formatters : List Bytes) (f : Formatted ν),
    f.rendered = valueToText f.current → (formatters.foldl (b.format place written) f).rendered =
      formatted (b.applyFormatter b.context) formatters f.current
  | [], _, h => h
  | formatter :: formatters, f, h => by
    rw [List.foldl_cons, formatted]
    by_cases ht : trim formatter = []
    · have hsame : b.format place written f formatter = f := if_pos ht
      rw [hsame, if_pos ht]
      exact rendered_format place written formatters f h
    · rw [if_neg ht]
      have hnext := rendered_format place written formatters (b.format place written f formatter)
      unfold Binder.format at hnext ⊢
      simp only [if_neg ht] at hnext ⊢
      exact hnext rfl

/-- The text of a placeholder does not depend on where it stands. -/
theorem evaluate_fst (place expression : Bytes) :
    (b.evaluate scope place expression).1 = holeText b scope expression := by
  unfold evaluate holeText
  by_cases hp : trim ((expression.splitOn 124).headD []) = []
  · have hnone : resolve scope (trim ((expression.splitOn 124).headD [])) = none := by
      rw [hp]
      rfl
    rw [if_pos hp, hnone]
  · rw [if_neg hp]
    cases resolve scope (trim ((expression.splitOn 124).headD [])) with
    | none => rfl
    | some value => exact congrArg sanitize (rendered_format place _ _ ⟨value, _, _⟩ rfl)

theorem substituteFrom_fst (place source : Bytes) :
    (b.substituteFrom scope place source).1 = fill braces (holeText b scope) source := by
  fun_induction substituteFrom b scope place source with
  | case1 => exact (fill_nil braces _).symm
  | case2 c source he after ih =>
    rw [fill_escaped braces he]
    exact congrArg ([123, 123] ++ ·) ih
  | case3 c source he ho hb => rw [fill_unclosed braces he ho hb]
  | case4 c source he ho expression rest hb value after ih =>
    rw [fill_hole braces he ho hb, ← ih]
    exact congrArg (· ++ after.1) (evaluate_fst place expression)
  | case5 c source he ho after ih =>
    rw [fill_item braces he ho, ← ih]

/-- **A string is scanned once**, and what a placeholder becomes is not scanned at all. -/
theorem substitute_fst (place source : Bytes) : (b.substitute scope place source).1 =
    (pieces braces source).flatMap (Piece.fill braces (holeText b scope)) := by
  unfold substitute
  split_ifs with hn
  · have hnone : ¬braces.opening <:+: source := breakOn_eq_none (Option.isNone_iff_eq_none.mp hn)
    exact (fill_unmarked braces hnone).symm
  · exact substituteFrom_fst place source

theorem bindCells_fst (place : Bytes) : ∀ (i : ℕ) (cells : List Cell),
    (b.bindCells scope place i cells).1 = cells.map fun cell =>
      { cell with content := fill braces (holeText b scope) cell.content }
  | _, [] => rfl
  | i, cell :: cells => by
    rw [bindCells, List.map_cons, bindCells_fst place (i + 1) cells, substitute_fst]
    rfl

theorem fillLeaf_fst (place : Bytes) (leaf : Leaf ν) :
    (b.fillLeaf scope place leaf).1 = mapContents (fill braces (holeText b scope)) leaf := by
  unfold fillLeaf mapContents
  split
  all_goals simp only [substitute_fst, bindCells_fst]
  all_goals rfl

/-! ### Binding emits the expansion -/

/-- The leaves have been emitted, as many as there was room for. -/
def Extends (limit : ℕ) (s s' : Bound ν) (leaves : List (Leaf ν)) : Prop :=
  s'.blocks = s.blocks ++ (leaves.take (limit - s.emitted)).map .leaf ∧
    s'.emitted = s.emitted + (leaves.take (limit - s.emitted)).length

section Extends
omit [Doubles ν]
variable {limit : ℕ} {s s' s'' : Bound ν} {leaves more : List (Leaf ν)}

theorem extends_nil (hb : s'.blocks = s.blocks) (he : s'.emitted = s.emitted) :
    Extends limit s s' [] := by
  refine ⟨?_, ?_⟩
  · rw [hb, List.take_nil, List.map_nil, List.append_nil]
  · rw [he, List.take_nil, List.length_nil, Nat.add_zero]

/-- Where there is no room, nothing is emitted. -/
theorem extends_of_full (hlimit : limit ≤ s.emitted) (hb : s'.blocks = s.blocks)
    (he : s'.emitted = s.emitted) : Extends limit s s' leaves := by
  have hzero : limit - s.emitted = 0 := Nat.sub_eq_zero_of_le hlimit
  refine ⟨?_, ?_⟩
  · rw [hzero, hb, List.take_zero, List.map_nil, List.append_nil]
  · rw [hzero, he, List.take_zero, List.length_nil, Nat.add_zero]

theorem Extends.append (h : Extends limit s s' leaves) (h' : Extends limit s' s'' more) :
    Extends limit s s'' (leaves ++ more) := by
  obtain ⟨hb, he⟩ := h
  obtain ⟨hb', he'⟩ := h'
  have hroom : limit - s'.emitted = limit - s.emitted - leaves.length := by
    rw [he, List.length_take]
    omega
  rw [hroom] at hb' he'
  refine ⟨?_, ?_⟩
  · rw [hb', hb, List.take_append, List.map_append, List.append_assoc]
  · rw [he', he, List.take_append, List.length_append, Nat.add_assoc]

/-- A loop emits what its turns emit. -/
theorem extends_foldl {α : Type} {f : Bound ν → α → Bound ν} {g : α → List (Leaf ν)}
    (h : ∀ s a, Extends limit s (f s a) (g a)) :
    ∀ (as : List α) (s : Bound ν), Extends limit s (as.foldl f s) (as.flatMap g)
  | [], s => extends_nil rfl rfl
  | a :: as, s => by
    rw [List.foldl_cons, List.flatMap_cons]
    exact (h s a).append (extends_foldl h as (f s a))

end Extends

omit [Doubles ν] in
/-- A group emits its body, unless it is too deep. -/
theorem extends_within {place : Bytes} {depth : ℕ} {s : Bound ν} {body : Bound ν → Bound ν}
    {leaves : List (Leaf ν)} (h : Extends b.options.maxBlocks s (body s) leaves) :
    Extends b.options.maxBlocks s (b.within place depth s body)
      (if b.options.maxDepth < depth then [] else leaves) := by
  unfold within
  split_ifs
  · exact extends_nil rfl rfl
  · exact h

theorem bindLeaf_extends {place : Bytes} {s : Bound ν} (leaf : Leaf ν)
    (hroom : s.emitted < b.options.maxBlocks) :
    Extends b.options.maxBlocks s (b.bindLeaf scope place s leaf)
      [mapContents (fill braces (holeText b scope)) leaf] := by
  have htake : [mapContents (fill braces (holeText b scope)) leaf].take
      (b.options.maxBlocks - s.emitted) = [mapContents (fill braces (holeText b scope)) leaf] :=
    List.take_of_length_le (by rw [List.length_singleton]; omega)
  refine ⟨?_, ?_⟩
  · rw [htake, List.map_singleton, ← fillLeaf_fst place leaf]
    rfl
  · rw [htake]
    rfl

theorem items_array {path : Bytes} {values : List (Json ν)}
    (h : resolve scope path = some (.array values)) : items scope path = values := by
  rw [items, h]

theorem items_other {path : Bytes} (h : ¬∃ values, resolve scope path = some (.array values)) :
    items scope path = [] := by
  unfold items
  split
  · rename_i values hvalues
    exact absurd ⟨values, hvalues⟩ h
  · rfl

omit [Doubles ν] in
theorem flatMap_unless {α : Type} {p : Prop} [Decidable p] {as : List α}
    {g : α → List (Leaf ν)} :
    (as.flatMap fun a => if p then [] else g a) = if p then [] else as.flatMap g := by
  split_ifs
  · exact List.flatMap_eq_nil_iff.mpr fun _ _ => rfl
  · rfl

mutual
theorem bindBlock_extends : ∀ (block : Block ν) (scope : Scope ν) (place : Bytes) (depth : ℕ)
    (s : Bound ν), s.emitted < b.options.maxBlocks →
      Extends b.options.maxBlocks s (b.bindBlock scope place depth s block)
        (expandBlock b scope depth block)
  | .leaf leaf, scope, place, depth, s, hroom => by
    rw [bindBlock, expandBlock]
    exact bindLeaf_extends leaf hroom
  | .each path _ body, scope, place, depth, s, _ => by
    rw [bindBlock, expandBlock]
    by_cases hitems : ∃ values, resolve scope path = some (.array values)
    · obtain ⟨values, hvalues⟩ := hitems
      rw [items_array hvalues, hvalues, ← flatMap_unless]
      exact extends_foldl (fun s item => extends_within
        (bindFrom_extends body (.element item.1 item.2 values.length scope) _ (depth + 1) 0 s)) _ s
    · rw [items_other hitems, List.zipIdx_nil, List.flatMap_nil, ite_self]
      split
      · exact extends_nil rfl rfl
      · exact extends_nil rfl rfl
      · rename_i values hvalues
        exact absurd ⟨values, hvalues⟩ hitems
      · exact extends_nil rfl rfl
  | .cond path negated _ body, scope, place, depth, s, _ => by
    rw [bindBlock, expandBlock]
    change Extends _ s (if holds scope path = negated then s else _) _
    by_cases hholds : holds scope path = negated
    · rw [if_pos hholds, if_pos (.inl hholds)]
      exact extends_nil rfl rfl
    · simp only [hholds, false_or, if_false]
      exact extends_within (bindFrom_extends body scope place (depth + 1) 0 s)

theorem bindFrom_extends : ∀ (blocks : List (Block ν)) (scope : Scope ν) (place : Bytes)
    (depth i : ℕ) (s : Bound ν),
      Extends b.options.maxBlocks s (b.bindFrom scope place depth i s blocks)
        (expandBlocks b scope depth blocks)
  | [], scope, place, depth, i, s => by
    rw [bindFrom, expandBlocks]
    exact extends_nil rfl rfl
  | block :: blocks, scope, place, depth, i, s => by
    rw [bindFrom, expandBlocks]
    by_cases hfull : b.options.maxBlocks ≤ s.emitted
    · rw [if_pos hfull]
      unfold overflow
      refine extends_of_full hfull ?_ ?_ <;> split_ifs <;> rfl
    · rw [if_neg hfull]
      exact (bindBlock_extends block scope _ depth s (Nat.lt_of_not_le hfull)).append
        (bindFrom_extends blocks scope place depth (i + 1) _)
end

/-- The leaves of a document's expansion, in the scope of the model. -/
def expansion (b : Binder ν) (document : Document ν) (model : Json ν) : List (Leaf ν) :=
  expandBlocks b (.root model) 0 document.blocks

/-- **Binding is the expansion**, cut off at the limit on blocks. -/
theorem bind_document (applyFormatter : FormatContext → Json ν → Bytes → FormatOutcome)
    (document : Document ν) (model : Json ν) (options : BindOptions) :
    (Bind.bind applyFormatter document model options).1 = { document with
      isTemplate := false
      blocks := ((expansion (binderOf applyFormatter document options) document model).take
        options.maxBlocks).map .leaf } := by
  have hextends : Extends options.maxBlocks {}
      ((binderOf applyFormatter document options).bindBlocks (.root model) (str "blocks") 0 {}
        document.blocks)
      (expansion (binderOf applyFormatter document options) document model) := by
    unfold bindBlocks within
    rw [if_neg (Nat.not_lt_zero _)]
    exact bindFrom_extends document.blocks (.root model) (str "blocks") 0 0 {}
  obtain ⟨hblocks, -⟩ := hextends
  exact congrArg (fun blocks => { document with isTemplate := false, blocks := blocks }) hblocks

/-! ### Nothing but what prints -/

/-- No control byte but newline and tab. -/
def Printable (c : UInt8) : Prop := (0x20 ≤ c ∧ c ≠ 0x7F) ∨ c = 10 ∨ c = 9

instance (c : UInt8) : Decidable (Printable c) := inferInstanceAs (Decidable (_ ∨ _))

theorem printable_sanitize {text : Bytes} {c : UInt8} (h : c ∈ sanitize text) : Printable c := by
  have hc := (List.mem_filter.mp h).2
  simp only [Bool.or_eq_true, Bool.and_eq_true, decide_eq_true_eq] at hc
  rcases hc with (hc | hc) | hc
  · exact .inr (.inl hc)
  · exact .inr (.inr hc)
  · exact .inl hc

theorem printable_holeText {expression : Bytes} {c : UInt8} (h : c ∈ holeText b scope expression) :
    Printable c := by
  unfold holeText at h
  split at h
  · cases h
  · exact printable_sanitize h

theorem printable_fill {source : Bytes} (hs : ∀ c ∈ source, Printable c) {c : UInt8}
    (h : c ∈ fill braces (holeText b scope) source) : Printable c := by
  rcases mem_fill braces h with hc | ⟨expression, hc⟩
  · exact hs c hc
  · exact printable_holeText hc

omit [Doubles ν] in
theorem contents_mapContents {f : Bytes → Bytes} {leaf : Leaf ν} {content : Bytes}
    (h : content ∈ (mapContents f leaf).contents) :
    content ∈ leaf.contents ∨ ∃ source ∈ leaf.contents, content = f source := by
  cases leaf with
  | text source | qr source => exact .inr ⟨source, List.mem_singleton_self _, List.mem_singleton.mp h⟩
  | barcode code => exact .inr ⟨code.content, List.mem_singleton_self _, List.mem_singleton.mp h⟩
  | image picture => exact .inr ⟨picture.ref, List.mem_singleton_self _, List.mem_singleton.mp h⟩
  | columns cells =>
    obtain ⟨cell', hcell', rfl⟩ := List.mem_map.mp h
    obtain ⟨cell, hcell, rfl⟩ := List.mem_map.mp hcell'
    exact .inr ⟨cell.content, List.mem_map_of_mem hcell, rfl⟩
  | _ => exact .inl h

mutual
/-- The leaves of a template, whatever groups they stand in. -/
def leavesOf : Block ν → List (Leaf ν)
  | .leaf leaf => [leaf]
  | .each _ _ body => leavesIn body
  | .cond _ _ _ body => leavesIn body

def leavesIn : List (Block ν) → List (Leaf ν)
  | [] => []
  | block :: blocks => leavesOf block ++ leavesIn blocks
end

mutual
/-- A leaf of the expansion is a leaf of the template, with its strings filled in some scope. -/
theorem mem_expandBlock : ∀ (block : Block ν) (scope : Scope ν) (depth : ℕ) {leaf : Leaf ν},
    leaf ∈ expandBlock b scope depth block →
      ∃ source ∈ leavesOf block, ∃ scope', leaf = mapContents (fill braces (holeText b scope')) source
  | .leaf source, scope, depth, leaf, h => by
    rw [expandBlock] at h
    exact ⟨source, by rw [leavesOf]; exact List.mem_singleton_self _, scope, List.mem_singleton.mp h⟩
  | .each path _ body, scope, depth, leaf, h => by
    rw [expandBlock] at h
    rw [leavesOf]
    split_ifs at h
    · cases h
    · obtain ⟨item, -, hleaf⟩ := List.mem_flatMap.mp h
      exact mem_expandBlocks body _ (depth + 1) hleaf
  | .cond path negated _ body, scope, depth, leaf, h => by
    rw [expandBlock] at h
    rw [leavesOf]
    split_ifs at h
    · cases h
    · exact mem_expandBlocks body scope (depth + 1) h

theorem mem_expandBlocks : ∀ (blocks : List (Block ν)) (scope : Scope ν) (depth : ℕ)
    {leaf : Leaf ν}, leaf ∈ expandBlocks b scope depth blocks →
      ∃ source ∈ leavesIn blocks, ∃ scope',
        leaf = mapContents (fill braces (holeText b scope')) source
  | [], scope, depth, leaf, h => by
    rw [expandBlocks] at h
    cases h
  | block :: blocks, scope, depth, leaf, h => by
    rw [expandBlocks] at h
    rw [leavesIn]
    rcases List.mem_append.mp h with h | h
    · obtain ⟨source, hsource, hscope⟩ := mem_expandBlock block scope depth h
      exact ⟨source, List.mem_append_left _ hsource, hscope⟩
    · obtain ⟨source, hsource, hscope⟩ := mem_expandBlocks blocks scope depth h
      exact ⟨source, List.mem_append_right _ hsource, hscope⟩
end

/-- The strings that a template writes out itself hold no control byte. -/
def Plain (document : Document ν) : Prop :=
  ∀ leaf ∈ leavesIn document.blocks, ∀ content ∈ leaf.contents, ∀ c ∈ content, Printable c

instance (document : Document ν) : Decidable (Plain document) :=
  inferInstanceAs (Decidable (∀ leaf ∈ leavesIn document.blocks, ∀ content ∈ leaf.contents,
    ∀ c ∈ content, Printable c))

theorem printable_expansion {document : Document ν} (hplain : Plain document) {model : Json ν}
    {leaf : Leaf ν} (h : leaf ∈ expansion b document model) :
    ∀ content ∈ leaf.contents, ∀ c ∈ content, Printable c := by
  obtain ⟨source, hsource, scope', rfl⟩ := mem_expandBlocks _ _ _ h
  intro content hcontent c hc
  rcases contents_mapContents hcontent with hsame | ⟨literal, hliteral, rfl⟩
  · exact hplain source hsource content hsame c hc
  · exact printable_fill (hplain source hsource literal hliteral) hc

/-! ### What binding promises -/

/-- What the bound document is, how its strings came about, and what they hold. -/
structure Exact (applyFormatter : FormatContext → Json ν → Bytes → FormatOutcome)
    (template : Document ν) (model : Json ν) (options : BindOptions) : Prop where
  document : (Bind.bind applyFormatter template model options).1 = { template with
    isTemplate := false
    blocks := ((expansion (binderOf applyFormatter template options) template model).take
      options.maxBlocks).map .leaf }
  /-- The pieces of a string are those of the template, whatever the model holds. -/
  singlePass : ∀ (scope : Scope ν) (place source : Bytes),
    ((binderOf applyFormatter template options).substitute scope place source).1 =
      (pieces braces source).flatMap
        (Piece.fill braces (holeText (binderOf applyFormatter template options) scope))
  printable : ∀ block ∈ (Bind.bind applyFormatter template model options).1.blocks,
    ∃ leaf, block = .leaf leaf ∧ ∀ content ∈ leaf.contents, ∀ c ∈ content, Printable c

/-- **Binding is exact**, and nothing that a model or a formatter says is a command. -/
theorem bind_exact (applyFormatter : FormatContext → Json ν → Bytes → FormatOutcome)
    {template : Document ν} (hplain : Plain template) (model : Json ν) (options : BindOptions) :
    Exact applyFormatter template model options where
  document := bind_document applyFormatter template model options
  singlePass := fun _ place source => substitute_fst place source
  printable := by
    rw [bind_document]
    intro block hblock
    obtain ⟨leaf, hleaf, rfl⟩ := List.mem_map.mp hblock
    exact ⟨leaf, rfl, printable_expansion hplain (List.mem_of_mem_take hleaf)⟩

/-- A line for every element of `items`, with the element under a formatter. -/
def receipt : Document ℤ where
  isTemplate := true
  blocks := [.each (str "items") false
    [.leaf (.text (str "Item: " ++ [123, 123] ++ str "name|upper" ++ [125, 125]) {})]]

/-- One element has the bytes of a cutter command in its name, another those of a placeholder. -/
def order : Json ℤ := .object [(str "items", .array [
  .object [(str "name", .string ([0x1D] ++ str "VA"))],
  .object [(str "name", .string ([123, 123] ++ str "items" ++ [125, 125]))]])]

/-- A `double` that is a whole number. -/
instance wholeDoubles : Doubles ℤ where
  ofInt n := n
  isZero n := n = 0
  round n := some n
  formatDouble := decimal

theorem bind_exact_receipt :
    Exact (fun _ value _ => { text := valueToText value }) receipt order {} ∧
      (expansion (binderOf (fun _ value _ => { text := valueToText value }) receipt {}) receipt
        order).map Leaf.contents =
          [[str "Item: VA"], [str "Item: " ++ [123, 123] ++ str "items" ++ [125, 125]]] :=
  ⟨bind_exact _ (by decide +kernel) order {}, by decide +kernel⟩

end PrinterDriver.Dsl.Expansion
