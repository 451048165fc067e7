import PrinterDriver.Dsl.TextBlocks

/-! # Printed widths

The layout measures a line in columns, and the printer sets each byte of it in a cell of its own. A
line is printed in its columns just if its marks, which are laid out in none, are no more than its
wide characters and the columns that it leaves (`within_iff`). Whatever documents are written in a
set of characters keep to their columns just if the set has no marks, and no wide character that a
space could leave a single column to (`prints_within_iff`). -/

namespace PrinterDriver.Dsl.PrintedWidths

open PrinterDriver.Core.Types PrinterDriver.Core.Profile PrinterDriver.Dsl.Documents
  PrinterDriver.Dsl.Text PrinterDriver.Dsl.Wrapping PrinterDriver.Dsl.Cells PrinterDriver.Dsl.Styles
  PrinterDriver.Dsl.Rows PrinterDriver.Dsl.TextBlocks
open PrinterDriver.Core.CodePage (transliterate transliterate_isSome)
open PrinterDriver.Lib.Mapping
open PrinterDriver.Dsl.Render (Align RenderProfile Printed)

/-! ### What is promised -/

/-- The bytes of a line are at most its columns, whatever the code page. -/
def Within : Printed → Prop
  | .text line _ columns _ => 2 ≤ columns → ∀ codePage bytes,
      transliterate line codePage = some bytes → bytes.length ≤ columns
  | .image .. | .barcode .. => True

/-- The texts of a block have no other characters; a divider's is its unit, repeated. -/
def WrittenIn (R : ℕ → Prop) : TextBlock → Prop
  | .text content _ => Every R content
  | .columns cells => ∀ cell ∈ cells, Every R cell.content
  | .divider rule => ∀ n, Every R (List.replicate n (dividerUnit rule)).flatten

/-- Every line of every block that is written in these characters is printed in its columns. -/
def PrintsWithin (R : ℕ → Prop) : Prop :=
  ∀ fuel styles profile place block laid, WrittenIn R block →
    setBlock fuel styles profile place block = some laid → ∀ op ∈ laid.1, Within op

/-- None of the characters is a mark, and with a space none is wide. -/
def Printable (R : ℕ → Prop) : Prop :=
  ∀ c, isScalar c = true → R c → columnWidth c ≠ 0 ∧ (R 0x20 → columnWidth c ≠ 2)

/-! ### One line -/

def isMark (codepoint : ℕ) : Bool := columnWidth codepoint = 0

def isWide (codepoint : ℕ) : Bool := columnWidth codepoint = 2

theorem length_add_wide (points : List ℕ) :
    points.length + points.countP isWide = points.countP isMark + pointsWidth points := by
  induction points with
  | nil => rfl
  | cons c points ih =>
    have htwo := columnWidth_le_two c
    have hsum : pointsWidth (c :: points) = columnWidth c + pointsWidth points := by
      unfold pointsWidth
      rw [List.map_cons, List.sum_cons]
    have hwide : isWide c = true ↔ columnWidth c = 2 := decide_eq_true_iff
    have hmark : isMark c = true ↔ columnWidth c = 0 := decide_eq_true_iff
    rw [List.countP_cons, List.countP_cons, List.length_cons, hsum]
    simp only [hwide, hmark]
    split_ifs <;> omega

/-- **A line is printed in its columns just if its marks are no more than its wide characters and
the columns that it leaves.** -/
theorem within_iff {line : Bytes} {style : Render.ResolvedStyle} {columns : ℕ} {prePadded : Bool} :
    Within (.text line style columns prePadded) ↔ (2 ≤ columns →
      (decode line).countP isMark + width line ≤ (decode line).countP isWide + columns) := by
  have hcells := length_add_wide (decode line)
  have hwidth : width line = pointsWidth (decode line) := rfl
  constructor
  · intro h hcolumns
    obtain ⟨bytes, hbytes⟩ := Option.isSome_iff_exists.mp (@transliterate_isSome line .pc437)
    have := h hcolumns .pc437 bytes hbytes
    rw [length_of_transliterate hbytes] at this
    omega
  · intro h hcolumns codePage bytes hbytes
    have := h hcolumns
    rw [length_of_transliterate hbytes]
    omega

/-- Without marks, a line that is laid out in its columns is printed in them. -/
abbrev Unmarked (c : ℕ) : Prop := columnWidth c ≠ 0

theorem length_le_width {line : Bytes} (h : Every Unmarked line) :
    (decode line).length ≤ width line := by
  have hcells := length_add_wide (decode line)
  have hnone : (decode line).countP isMark = 0 := by
    rw [List.countP_eq_zero]
    intro c hc hmark
    exact h c hc (of_decide_eq_true hmark)
  have hwidth : width line = pointsWidth (decode line) := rfl
  omega

theorem within_of_width {line : Bytes} {style : Render.ResolvedStyle} {columns : ℕ}
    {prePadded : Bool} (h : Every Unmarked line) (hwidth : width line ≤ columns) :
    Within (.text line style columns prePadded) := by
  intro _ codePage bytes hbytes
  rw [length_of_transliterate hbytes]
  exact Nat.le_trans (length_le_width h) hwidth

theorem every_pad {p : ℕ → Prop} {text : Bytes} {columns : ℕ} {align : Align} (hspace : p 0x20)
    (h : Every p text) : Every p (pad text columns align) := by
  by_cases hzero : columns = 0
  · unfold pad
    rw [if_pos hzero]
    exact every_nil
  · obtain ⟨leading, trailing, hdecode, -⟩ := decode_pad text align (Nat.pos_of_ne_zero hzero)
    intro c hc
    rw [hdecode, List.mem_append, List.mem_append] at hc
    rcases hc with (hc | hc) | hc
    · rw [List.eq_of_mem_replicate hc]
      exact hspace
    · exact h c (prefix_of_fitting.subset hc)
    · rw [List.eq_of_mem_replicate hc]
      exact hspace

/-! ### Texts, rows and dividers -/

section
variable {styles : StyleTable} {profile : RenderProfile} {place : Bytes}

/-- A text without marks in whose paragraphs every character has room. -/
theorem setText_within {content : Bytes} {ref : StyleRef}
    {laid : List Printed × List Render.ReportEntry} (hmarks : Every Unmarked content)
    (hroom : 2 ≤ charsPerLine profile (layoutStyle styles ref place).1 →
      ∀ paragraph ∈ content.splitOn 0x0A, ∀ c ∈ decode paragraph,
        columnWidth c ≤ room (layoutStyle styles ref place).1.wrap paragraph
          (charsPerLine profile (layoutStyle styles ref place).1))
    (h : setText styles profile place content ref = some laid) : ∀ op ∈ laid.1, Within op := by
  unfold setText at h
  obtain ⟨lines, hlines, rfl⟩ := Option.map_eq_some_iff.mp h
  intro op hop
  obtain ⟨line, hline, rfl⟩ := List.mem_map.mp hop
  intro hcolumns codePage bytes hbytes
  obtain ⟨paragraph, hp, its, hits, hline⟩ := mem_wrap (by omega) hlines line hline
  have hone : 1 ≤ room (layoutStyle styles ref place).1.wrap paragraph
      (charsPerLine profile (layoutStyle styles ref place).1) := by
    unfold room
    split_ifs <;> omega
  obtain ⟨hevery, hfits⟩ := @wrapParagraph_every
    (fun c => Unmarked c ∧ columnWidth c ≤ room (layoutStyle styles ref place).1.wrap paragraph
      (charsPerLine profile (layoutStyle styles ref place).1)) _ _ _ _ (by omega)
    ⟨by decide, hone⟩ ⟨by decide, hone⟩ ⟨by decide, hone⟩
    (fun c hc => ⟨hmarks c (mem_decode_of_piece (by decide) hp hc), hroom hcolumns paragraph hp c hc⟩)
    hits line hline
  rw [length_of_transliterate hbytes]
  exact Nat.le_trans (length_le_width fun c hc => (hevery c hc).1) (hfits fun _ hc => hc.2)

theorem setCell_every {style : ResolvedStyle} {cell : Cell} {n : ℕ} {set : SetCell}
    (hcell : Every Unmarked cell.content) (h : setCell style cell n = some set) (row : ℕ) :
    Every Unmarked (set.part row) := by
  obtain ⟨lines, hlines, rfl⟩ := Option.map_eq_some_iff.mp h
  refine every_pad (by decide) ?_
  show Every Unmarked ((lines[row]?).getD [])
  cases hrow : lines[row]? with
  | none => exact every_nil
  | some line =>
    have hline := List.mem_of_getElem? hrow
    by_cases hzero : n = 0
    · rw [hzero, wrap, if_pos rfl] at hlines
      rw [← Option.some.inj hlines] at hline
      rw [Option.getD_some, List.mem_singleton.mp hline]
      exact every_nil
    · obtain ⟨paragraph, hp, its, hits, hline⟩ :=
        mem_wrap (Nat.pos_of_ne_zero hzero) hlines line hline
      exact (wrapParagraph_every (Nat.pos_of_ne_zero hzero) (by decide) (by decide) (by decide)
        (fun c hc => hcell c (mem_decode_of_piece (by decide) hp hc)) hits line hline).1

theorem columnsRow_within {cells : List Cell} {laid : List Printed × List Render.ReportEntry}
    (hcells : ∀ cell ∈ cells, Every Unmarked cell.content)
    (h : columnsRow styles profile place cells = some laid) : ∀ op ∈ laid.1, Within op := by
  cases cells with
  | nil =>
    obtain rfl := Option.some.inj h
    simp
  | cons first others =>
    obtain ⟨r, hr, rfl⟩ := Option.map_eq_some_iff.mp h
    intro op hop
    obtain ⟨row, -, rfl⟩ := List.mem_map.mp hop
    obtain ⟨-, -, hset, -⟩ := setRow_spec hr
    refine within_of_width (fun c hc => ?_) (Nat.le_of_eq (width_pad _ _ _))
    obtain ⟨n, hline⟩ := decode_line hr row
    rw [hline, List.mem_append, List.mem_flatMap] at hc
    rcases hc with ⟨set, hmem, hc⟩ | hc
    · obtain ⟨i, hi, rfl⟩ := List.mem_iff_getElem.mp hmem
      have hlen := hset.length_eq
      have hone := hset.get (hlen ▸ hi) hi
      have hcell := List.of_mem_zip (List.getElem_mem (hlen ▸ hi))
      exact setCell_every (hcells _ hcell.1) hone row c hc
    · rw [List.eq_of_mem_replicate hc]
      decide

/-- The units that were set so far are copies, and are printed in the columns. -/
theorem fillUnits_spec {unit : Bytes} {columns : ℕ}
    (hunits : ∀ n, Every Unmarked (List.replicate n unit).flatten) : ∀ {fuel n : ℕ} {out : Bytes},
    (decode (List.replicate n unit).flatten).length ≤ columns →
    fillUnits unit columns fuel (List.replicate n unit).flatten = some out →
    Every Unmarked out ∧ (decode out).length ≤ columns
  | 0, _, _, _, h => by cases h
  | fuel + 1, n, out, hlen, h => by
    rw [fillUnits] at h
    split_ifs at h with hfits
    · have hnext : (List.replicate n unit).flatten ++ unit =
          (List.replicate (n + 1) unit).flatten := by
        rw [List.replicate_succ', List.flatten_append]
        simp
      have hunit : Every Unmarked unit := by simpa using hunits 1
      have hjoin := length_decode_append (List.replicate n unit).flatten unit
      have hfirst := length_le_width (hunits n)
      have hsecond := length_le_width hunit
      rw [hnext] at h hjoin
      exact fillUnits_spec hunits (by omega) h
    · rw [← Option.some.inj h]
      exact ⟨hunits n, hlen⟩

theorem setDivider_within {fuel : ℕ} {rule : Divider}
    {laid : List Printed × List Render.ReportEntry}
    (hunits : ∀ n, Every Unmarked (List.replicate n (dividerUnit rule)).flatten)
    (h : setDivider fuel styles profile place rule = some laid) : ∀ op ∈ laid.1, Within op := by
  unfold setDivider at h
  obtain ⟨line, hline, rfl⟩ := Option.map_eq_some_iff.mp h
  intro op hop
  rw [List.mem_singleton.mp hop]
  intro hcolumns codePage bytes hbytes
  rw [length_of_transliterate hbytes]
  unfold repeatUnit at hline
  split_ifs at hline with hnone
  · rw [← Option.some.inj hline]
    exact Nat.zero_le _
  · obtain ⟨out, hout, rfl⟩ := Option.map_eq_some_iff.mp hline
    obtain ⟨hevery, hlen⟩ := @fillUnits_spec (dividerUnit rule) _ hunits fuel 0 out
      (Nat.zero_le _) hout
    split_ifs with hshort
    · have hunit : Every Unmarked (dividerUnit rule) := by simpa using hunits 1
      have hjoin := length_decode_append out (clip (dividerUnit rule)
        (charsPerLine profile (layoutStyle styles rule.style place).1 - width out))
      have hfirst := length_le_width hevery
      have hsecond := length_le_width (every_clip (Nat.sub_pos_of_lt hshort) hunit)
      have hclip := width_clip_le (dividerUnit rule)
        (charsPerLine profile (layoutStyle styles rule.style place).1 - width out)
      omega
    · exact hlen

end

/-! ### Which characters keep to the columns -/

variable {R : ℕ → Prop}

theorem every_unmarked {text : Bytes} (hR : Printable R) (h : Every R text) : Every Unmarked text :=
  fun c hc => (hR c (scalar_of_mem_decode hc) (h c hc)).1

theorem mem_spaces_of_indent {paragraph : Bytes} (h : 0 < indentOf paragraph) :
    0x20 ∈ decode paragraph := by
  obtain ⟨body, hparagraph, -⟩ := indent_spec paragraph
  rw [hparagraph, decode_spaces_append]
  exact List.mem_append_left _ (List.mem_replicate.mpr ⟨by omega, rfl⟩)

theorem prints_of_printable (hR : Printable R) : PrintsWithin R := by
  intro fuel styles profile place block laid hwritten h
  cases block with
  | text content ref =>
    refine setText_within (every_unmarked hR hwritten) (fun hcolumns p hp c hc => ?_) h
    have htext : ∀ d ∈ decode p, d ∈ decode content := fun d hd =>
      mem_decode_of_piece (by decide) hp hd
    have htwo := columnWidth_le_two c
    unfold room
    split_ifs with hindent
    · by_cases hnone : indentOf p = 0
      · omega
      · have hspace := hwritten _ (htext _ (mem_spaces_of_indent (Nat.pos_of_ne_zero hnone)))
        have := (hR c (scalar_of_mem_decode hc) (hwritten c (htext c hc))).2 hspace
        omega
    · omega
  | columns cells =>
    exact columnsRow_within (fun cell hcell => every_unmarked hR (hwritten cell hcell)) h
  | divider rule => exact setDivider_within (fun n => every_unmarked hR (hwritten n)) h

/-- A strip of two columns. -/
def strip : RenderProfile := { widthDots := 24 }

def styled (mode : Wrap) : StyleRef := { inlineStyle := { wrap := some mode } }

theorem length_le_of_prints (h : PrintsWithin R) {content line : Bytes} (hwritten : Every R content)
    {mode : Wrap} {lines : List Bytes} (hlines : wrap content 2 mode = some lines)
    (hline : line ∈ lines) : (decode line).length ≤ 2 := by
  have hcolumns : charsPerLine strip (layoutStyle [] (styled mode) []).1 = 2 := by
    cases mode <;> decide
  have hmode : (layoutStyle [] (styled mode) []).1.wrap = mode := by
    cases mode <;> rfl
  have hset : setBlock 0 [] strip [] (.text content (styled mode)) = some
      (lines.map fun line => .text line (layoutStyle [] (styled mode) []).1.toResolvedStyle 2 false,
        (layoutStyle [] (styled mode) []).2) := by
    show setText [] strip [] content (styled mode) = _
    unfold setText
    dsimp only
    rw [hcolumns, hmode, hlines]
    rfl
  have hwithin := h 0 [] strip [] (.text content (styled mode)) _ hwritten hset _
    (List.mem_map_of_mem hline)
  obtain ⟨bytes, hbytes⟩ := Option.isSome_iff_exists.mp (@transliterate_isSome line .pc437)
  rw [← length_of_transliterate hbytes]
  exact hwithin (Nat.le_refl 2) .pc437 bytes hbytes

theorem not_mem_of_decode {b : UInt8} (hb : b.toNat < 0x80) {text : Bytes}
    (h : b.toNat ∉ decode text) : b ∉ text := by
  intro hmem
  obtain ⟨front, rest, rfl⟩ := List.append_of_mem hmem
  refine h ?_
  rw [decode_append front rest hb]
  exact List.mem_append_right _ List.mem_cons_self

theorem splitOn_of_decode {b : UInt8} (hb : b.toNat < 0x80) {text : Bytes}
    (h : b.toNat ∉ decode text) : text.splitOn b = [text] := by
  have hpieces : ∀ l ∈ [text], b ∉ l := by
    rw [List.forall_mem_singleton]
    exact not_mem_of_decode hb h
  have := List.splitOn_intercalate b hpieces (List.cons_ne_nil _ _)
  rwa [List.intercalate_singleton] at this

theorem wrap_paragraph {mode : Wrap} {text : Bytes} {columns : ℕ} {lines : List Bytes}
    (hpos : 0 < columns) (hbreak : 0x0A ∉ decode text)
    (h : wrapParagraph mode text columns = some lines) : wrap text columns mode = some lines := by
  unfold wrap
  rw [if_neg (by omega), splitOn_of_decode (by decide) hbreak, List.mapM_cons, h]
  simp

/-- Three marks take no column, and three bytes. -/
theorem unmarked_of_prints (h : PrintsWithin R) {c : ℕ} (hc : isScalar c = true) (hR : R c) :
    columnWidth c ≠ 0 := by
  intro hzero
  have hdecode : decode (encodeAll [c, c, c]) = [c, c, c] := decode_encodeAll (by simpa using hc)
  have hbreak : 0x0A ∉ decode (encodeAll [c, c, c]) := by
    rw [hdecode]
    intro hmem
    obtain rfl : 0x0A = c := by simpa using hmem
    exact absurd hzero (by decide)
  have hwritten : Every R (encodeAll [c, c, c]) := by
    intro d hd
    rw [hdecode] at hd
    obtain rfl : d = c := by simpa using hd
    exact hR
  have hfits : decode (clip (encodeAll [c, c, c]) 2) = [c, c, c] := by
    rw [decode_clip (by decide), hdecode]
    exact fitting_of_le (by simp [pointsWidth, hzero])
  have := length_le_of_prints h hwritten
    (wrap_paragraph (by decide) hbreak (by rw [wrapParagraph])) (List.mem_singleton.mpr rfl)
  rw [hfits, List.length_cons] at this
  exact absurd this (by simp)

/-- Two wide characters behind a space. -/
theorem narrow_of_prints (h : PrintsWithin R) (hspace : R 0x20) {c : ℕ} (hc : isScalar c = true)
    (hR : R c) : columnWidth c ≠ 2 := by
  intro hwide
  have hdecode : decode (encodeAll [c, c]) = [c, c] := decode_encodeAll (by simpa using hc)
  have hnone : ∀ d, columnWidth d = 1 → d ∉ decode (encodeAll [c, c]) := by
    intro d hd hmem
    rw [hdecode] at hmem
    obtain rfl : d = c := by simpa using hmem
    omega
  have htext : decode (spaces 1 ++ encodeAll [c, c]) = [0x20, c, c] := by
    rw [decode_spaces_append, hdecode]
    rfl
  have hbreak : 0x0A ∉ decode (spaces 1 ++ encodeAll [c, c]) := by
    rw [htext]
    intro hmem
    obtain rfl : 0x0A = c := by simpa using hmem
    exact absurd hwide (by decide)
  have hwritten : Every R (spaces 1 ++ encodeAll [c, c]) := by
    intro d hd
    rw [htext] at hd
    obtain rfl | rfl : d = 0x20 ∨ d = c := by simpa using hd
    · exact hspace
    · exact hR
  have hlong : width (encodeAll [c, c]) = 4 := by
    unfold width
    rw [hdecode]
    simp [pointsWidth, hwide]
  have hstuck : clip (encodeAll [c, c]) 1 = [] := by
    unfold clip
    rw [if_neg (by decide), hdecode, fitting, if_pos (by omega)]
    rfl
  have hne : encodeAll [c, c] ≠ [] := by
    intro hnil
    rw [hnil] at hdecode
    cases hdecode
  have hfill : fillLines 1 ((encodeAll [c, c]).splitOn 0x20) [] 0 = some [encodeAll [c, c]] := by
    rw [splitOn_of_decode (by decide) (hnone _ (by decide)), fillLines, if_neg hne,
      if_pos (by omega), hardBreak, if_neg (by omega), if_pos hstuck]
    rfl
  have hbare : indentOf (encodeAll [c, c]) = 0 := by
    by_contra hpos
    exact hnone 0x20 (by decide) (mem_spaces_of_indent (Nat.pos_of_ne_zero hpos))
  have hindent : indentOf (spaces 1 ++ encodeAll [c, c]) = 1 := by
    show ((0x20 :: encodeAll [c, c]).takeWhile (· = 0x20)).length = 1
    rw [List.takeWhile_cons_of_pos (by decide), List.length_cons]
    exact congrArg (· + 1) hbare
  have hlines : wrapParagraph .word (spaces 1 ++ encodeAll [c, c]) 2 =
      some [spaces 1 ++ encodeAll [c, c]] := by
    have hbody : (spaces 1 ++ encodeAll [c, c]).drop 1 = encodeAll [c, c] := rfl
    have hcons : spaces 1 ++ encodeAll [c, c] ≠ [] := List.cons_ne_nil _ _
    rw [wrapParagraph, if_neg hcons, hindent, if_pos (by decide), hbody,
      wrapParagraph_word hbare, hfill]
    rfl
  have := length_le_of_prints h hwritten (wrap_paragraph (by decide) hbreak hlines)
    (List.mem_singleton.mpr rfl)
  rw [htext] at this
  exact absurd this (by simp)

/-- **Documents written in a set of characters are printed in their columns just if the characters
are printable.** -/
theorem prints_within_iff (R : ℕ → Prop) : PrintsWithin R ↔ Printable R :=
  ⟨fun h _ hc hR => ⟨unmarked_of_prints h hc hR, fun hspace => narrow_of_prints h hspace hc hR⟩,
    prints_of_printable⟩

/-- "Café", where the accent is a mark of its own. -/
def cafe : Bytes := [0x43, 0x61, 0x66, 0x65, 0xCC, 0x81]

/-- A heading eight times as wide as the text, on the smaller paper. -/
def heading : StyleRef := { inlineStyle := { widthScale := some 8 } }

/-- The heading has four columns and five bytes. -/
theorem not_within_cafe : ∃ laid, setBlock 0 [] { widthDots := 384 } (str "blocks[0]")
    (.text cafe heading) = some laid ∧ ∃ op ∈ laid.1, ¬Within op := by
  have hcolumns : charsPerLine { widthDots := 384 } (layoutStyle [] heading (str "blocks[0]")).1 =
      4 := by decide
  have hmode : (layoutStyle [] heading (str "blocks[0]")).1.wrap = .word := rfl
  have hfill : fillLines 4 (cafe.splitOn 0x20) [] 0 = some [cafe] := by decide
  have hlines : wrap cafe 4 .word = some [cafe] :=
    wrap_paragraph (by decide) (by decide) ((wrapParagraph_word (by decide)).trans hfill)
  have hset : setBlock 0 [] { widthDots := 384 } (str "blocks[0]") (.text cafe heading) =
      some ([.text cafe (layoutStyle [] heading (str "blocks[0]")).1.toResolvedStyle 4 false],
        (layoutStyle [] heading (str "blocks[0]")).2) := by
    show setText [] _ _ cafe heading = _
    unfold setText
    dsimp only
    rw [hcolumns, hmode, hlines]
    rfl
  refine ⟨_, hset, _, List.mem_singleton.mpr rfl, fun h => ?_⟩
  have := within_iff.mp h (by decide)
  revert this
  decide

end PrinterDriver.Dsl.PrintedWidths
