import PrinterDriver.Dsl.Cells
import PrinterDriver.Dsl.Rows

/-! # Blocks that set lines of text

A text block is wrapped to the columns of its style, a row sets its cells side by side, and a divider
repeats its unit up to the last column. What repeats a unit loops until the columns are filled; it has
fuel, and nothing is what it returns where that runs out. -/

namespace PrinterDriver.Dsl.TextBlocks

open PrinterDriver.Core.Types PrinterDriver.Dsl.Documents PrinterDriver.Dsl.Text
  PrinterDriver.Dsl.Wrapping PrinterDriver.Dsl.Cells PrinterDriver.Dsl.Styles PrinterDriver.Dsl.Rows
open PrinterDriver.Core.Journal (decimal)
open PrinterDriver.Lib.Mapping
open PrinterDriver.Dsl.Render (RenderProfile ReportEntry Printed)

/-! ### Dividers -/

def dividerUnit (rule : Divider) : Bytes :=
  match rule.kind with
  | .solid => str "-"
  | .dashed => str "- "
  | .double => str "="
  | .char => if rule.char = [] then str "-" else rule.char

/-- Whole units, while another one fits. -/
def fillUnits (unit : Bytes) (columns : ℕ) : ℕ → Bytes → Option Bytes
  | 0, _ => none
  | fuel + 1, out =>
    if width out + max 1 (width unit) ≤ columns then fillUnits unit columns fuel (out ++ unit)
    else some out

/-- `text::repeat`: the last unit is clipped. -/
def repeatUnit (fuel : ℕ) (unit : Bytes) (columns : ℕ) : Option Bytes :=
  if columns = 0 ∨ unit = [] then some []
  else (fillUnits unit columns fuel []).map fun out =>
    if width out < columns then out ++ clip unit (columns - width out) else out

/-! ### Blocks -/

inductive TextBlock where
  | text (content : Bytes) (style : StyleRef)
  | columns (cells : List Cell)
  | divider (rule : Divider)
  deriving DecidableEq, Repr

def setText (styles : StyleTable) (profile : RenderProfile) (place content : Bytes)
    (ref : StyleRef) : Option (List Printed × List ReportEntry) :=
  let style := layoutStyle styles ref place
  let columns := charsPerLine profile style.1
  (wrap content columns style.1.wrap).map fun lines =>
    (lines.map fun line => .text line style.1.toResolvedStyle columns false, style.2)

def thicknessReport (rule : Divider) (place : Bytes) : List ReportEntry :=
  match rule.thicknessDots with
  | none => []
  | some dots =>
    if 0 < dots then [⟨.unsupportedStyle, place, str "thicknessDots:" ++ str (toString dots),
      str "character rule", .hardware, str "a dot-height rule needs the raster path"⟩]
    else []

def setDivider (fuel : ℕ) (styles : StyleTable) (profile : RenderProfile) (place : Bytes)
    (rule : Divider) : Option (List Printed × List ReportEntry) :=
  let style := layoutStyle styles rule.style place
  let columns := charsPerLine profile style.1
  (repeatUnit fuel (dividerUnit rule) columns).map fun line =>
    ([.text line style.1.toResolvedStyle columns true], style.2 ++ thicknessReport rule place)

/-- The lines that a block sets, and what the report says of it; nothing where a range is left. -/
def setBlock (fuel : ℕ) (styles : StyleTable) (profile : RenderProfile) (place : Bytes) :
    TextBlock → Option (List Printed × List ReportEntry)
  | .text content ref => setText styles profile place content ref
  | .columns cells => columnsRow styles profile place cells
  | .divider rule => setDivider fuel styles profile place rule

/-! ### Lines of any text -/

section
variable {p : ℕ → Prop} {columns : ℕ}

/-- Every code point of a text. -/
def Every (p : ℕ → Prop) (text : Bytes) : Prop := ∀ c ∈ decode text, p c

/-- Each of the characters has room in the columns. -/
def Narrow (p : ℕ → Prop) (columns : ℕ) : Prop := ∀ c, p c → columnWidth c ≤ columns

theorem every_nil : Every p [] := fun _ hc => nomatch hc

theorem every_clip {text : Bytes} (hpos : 0 < columns) (h : Every p text) :
    Every p (clip text columns) := by
  intro c hc
  rw [decode_clip hpos] at hc
  exact h c (prefix_of_fitting.subset hc)

theorem every_append_space {current token : Bytes} (hspace : p 0x20) (hcurrent : Every p current)
    (htoken : Every p token) : Every p (current ++ 0x20 :: token) := by
  intro c hc
  rw [decode_append_space, List.mem_append, List.mem_cons] at hc
  rcases hc with hc | rfl | hc
  · exact hcurrent c hc
  · exact hspace
  · exact htoken c hc

/-- What a token is cut into, malformed as it may be. -/
theorem hardBreak_every (hpos : 0 < columns) (hreplacement : p kReplacement) {token : Bytes}
    {heads : List Bytes} {rest : Bytes} (h : hardBreak columns token = some (heads, rest))
    (htoken : Every p token) :
    (∀ l ∈ heads, Every p l ∧ width l ≤ columns) ∧ Every p rest ∧
      (Narrow p columns → width rest ≤ columns) := by
  rw [hardBreak] at h
  split_ifs at h with hfit hhead hlen
  · cases h
    exact ⟨by simp, htoken, fun _ => hfit⟩
  · cases h
    refine ⟨by simp, htoken, fun hnarrow => ?_⟩
    obtain ⟨c, hc, hwide⟩ := wide_of_clip_eq_nil hpos (Nat.lt_of_not_le hfit) hhead
    exact absurd (hnarrow c (htoken c hc)) (by omega)
  · obtain ⟨⟨heads', rest'⟩, hbreak, hmore⟩ := Option.map_eq_some_iff.mp h
    cases hmore
    have hdrop : Every p (token.drop (clip token columns).length) := by
      intro c hc
      rcases mem_decode_drop hc with hc | rfl
      · exact htoken c hc
      · exact hreplacement
    obtain ⟨hheads, hrest⟩ := hardBreak_every hpos hreplacement hbreak hdrop
    have hhead := every_clip hpos htoken
    exact ⟨List.forall_mem_cons.mpr ⟨⟨hhead, width_clip_le token columns⟩, hheads⟩, hrest⟩
termination_by token.length
decreasing_by
  have := List.length_pos_of_ne_nil ‹¬clip token columns = []›
  rw [List.length_drop]
  omega

theorem fillLines_every (hpos : 0 < columns) (hreplacement : p kReplacement) (hspace : p 0x20) :
    ∀ {tokens : List Bytes} {current : Bytes} {lines : List Bytes},
      (∀ token ∈ tokens, Every p token) → Every p current →
      (Narrow p columns → width current ≤ columns) →
      fillLines columns tokens current (width current) = some lines →
      ∀ l ∈ lines, Every p l ∧ (Narrow p columns → width l ≤ columns)
  | [], current, lines, _, hcurrent, hwidth, h => by
    rw [← Option.some.inj h, List.forall_mem_singleton]
    exact ⟨hcurrent, hwidth⟩
  | token :: tokens, current, lines, htokens, hcurrent, hwidth, h => by
    obtain ⟨htoken, hrest⟩ := List.forall_mem_cons.mp htokens
    rw [fillLines] at h
    by_cases hempty : token = []
    · rw [if_pos hempty] at h
      exact fillLines_every hpos hreplacement hspace hrest hcurrent hwidth h
    rw [if_neg hempty] at h
    by_cases hlong : columns < width token
    · -- the token is cut, behind the line that was open
      rw [if_pos hlong] at h
      obtain ⟨⟨heads, rest⟩, hbreak, h⟩ := Option.bind_eq_some_iff.mp h
      obtain ⟨more, hmore, rfl⟩ := Option.map_eq_some_iff.mp h
      obtain ⟨hheads, hevery, hfits⟩ := hardBreak_every hpos hreplacement hbreak htoken
      have hmore := fillLines_every hpos hreplacement hspace hrest hevery hfits hmore
      intro l hl
      rw [List.mem_append, List.mem_append] at hl
      rcases hl with (hl | hl) | hl
      · rw [mem_pending hl]
        exact ⟨hcurrent, hwidth⟩
      · exact ⟨(hheads l hl).1, fun _ => (hheads l hl).2⟩
      · exact hmore l hl
    rw [if_neg hlong] at h
    by_cases hfirst : current = []
    · rw [if_pos hfirst] at h
      exact fillLines_every hpos hreplacement hspace hrest htoken (fun _ => by omega) h
    rw [if_neg hfirst] at h
    by_cases hfits : width current + 1 + width token ≤ columns
    · rw [if_pos hfits, ← width_append_space] at h
      rw [← width_append_space] at hfits
      exact fillLines_every hpos hreplacement hspace hrest
        (every_append_space hspace hcurrent htoken) (fun _ => hfits) h
    · rw [if_neg hfits] at h
      obtain ⟨more, hmore, rfl⟩ := Option.map_eq_some_iff.mp h
      exact List.forall_mem_cons.mpr ⟨⟨hcurrent, hwidth⟩,
        fillLines_every hpos hreplacement hspace hrest htoken (fun _ => by omega) hmore⟩

theorem every_ellipsize {text : Bytes} (hpos : 0 < columns) (hdot : p 0x2E) (h : Every p text) :
    Every p (ellipsize text columns) := by
  unfold ellipsize
  split_ifs with hfits hshort
  · exact h
  · exact every_clip hpos h
  · intro c hc
    have hdots : decode (clip text (columns - 3) ++ str "...") =
        decode (clip text (columns - 3)) ++ [0x2E, 0x2E, 0x2E] :=
      decode_append (clip text (columns - 3)) [0x2E, 0x2E] (by decide)
    rw [hdots, List.mem_append] at hc
    rcases hc with hc | hc
    · exact every_clip (by omega) h c hc
    · simp only [List.mem_cons, List.not_mem_nil, or_false, or_self] at hc
      rw [hc]
      exact hdot

theorem every_charLines {text : Bytes} (h : Every p text) :
    ∀ l ∈ charLines columns (decode text) [] 0,
      Every p l ∧ (Narrow p columns → width l ≤ columns) := by
  obtain ⟨hkept, hwidth⟩ := @charLines_spec columns (decode text) []
    (fun _ => scalar_of_mem_decode) (by simp)
  intro l hl
  refine ⟨fun c hc => h c ?_, fun hnarrow => ?_⟩
  · have hpoints : (charLines columns (decode text) [] 0).flatMap decode = decode text := hkept
    rw [← hpoints]
    exact List.mem_flatMap.mpr ⟨l, hl, hc⟩
  · exact hwidth (Nat.zero_le columns) (fun c hc => hnarrow c (h c hc)) l hl

theorem every_words {body : Bytes} {lines : List Bytes} (hpos : 0 < columns)
    (hreplacement : p kReplacement) (hspace : p 0x20) (h : Every p body)
    (hlines : fillLines columns (body.splitOn 0x20) [] 0 = some lines) :
    ∀ l ∈ lines, Every p l ∧ (Narrow p columns → width l ≤ columns) := by
  have htokens : ∀ token ∈ body.splitOn 0x20, Every p token := fun _ ht c hc =>
    h c (mem_decode_of_piece (by decide) ht hc)
  exact @fillLines_every p columns hpos hreplacement hspace _ [] lines htokens every_nil
    (fun _ => Nat.zero_le columns) hlines

/-- The lines of a paragraph have its characters, blanks and dots, and fit while each of these has
room behind the indent. -/
theorem wrapParagraph_every {mode : Wrap} {paragraph : Bytes} {lines : List Bytes}
    (hpos : 0 < columns) (hreplacement : p kReplacement) (hspace : p 0x20) (hdot : p 0x2E)
    (h : Every p paragraph) (hlines : wrapParagraph mode paragraph columns = some lines) :
    ∀ l ∈ lines, Every p l ∧ (Narrow p (room mode paragraph columns) → width l ≤ columns) := by
  have hempty : ∀ l ∈ [([] : Bytes)],
      Every p l ∧ (Narrow p (room mode paragraph columns) → width l ≤ columns) := by
    intro l hl
    rw [List.mem_singleton.mp hl]
    exact ⟨every_nil, fun _ => Nat.zero_le columns⟩
  cases mode with
  | clip =>
    rw [wrapParagraph] at hlines
    rw [← Option.some.inj hlines, List.forall_mem_singleton]
    exact ⟨every_clip hpos h, fun _ => width_clip_le paragraph columns⟩
  | ellipsis =>
    rw [wrapParagraph] at hlines
    rw [← Option.some.inj hlines, List.forall_mem_singleton]
    exact ⟨every_ellipsize hpos hdot h, fun _ => width_ellipsize_le paragraph columns⟩
  | char =>
    have hroom : room .char paragraph columns = columns := if_neg (by simp)
    rw [hroom] at hempty ⊢
    rw [wrapParagraph] at hlines
    split_ifs at hlines
    · rw [← Option.some.inj hlines]
      exact hempty
    · rw [← Option.some.inj hlines]
      exact every_charLines h
  | word =>
    obtain ⟨body, hparagraph, hdrop, hbody⟩ := indent_spec paragraph
    rw [wrapParagraph] at hlines
    split_ifs at hlines with hnil hindent
    · rw [← Option.some.inj hlines]
      exact hempty
    · -- the lines of the body, behind the indent
      have hroom : room .word paragraph columns = columns - indentOf paragraph :=
        if_pos ⟨rfl, hindent.2⟩
      rw [hdrop, wrapParagraph_word hbody] at hlines
      obtain ⟨inner, hinner, rfl⟩ := Option.map_eq_some_iff.mp hlines
      have hinside : Every p body := by
        intro c hc
        refine h c ?_
        rw [hparagraph, decode_spaces_append]
        exact List.mem_append_right _ hc
      have hall := every_words (by omega) hreplacement hspace hinside hinner
      intro l hl
      obtain ⟨text, ht, rfl⟩ := List.mem_map.mp hl
      obtain ⟨hevery, hfits⟩ := hall text ht
      constructor
      · intro c hc
        rw [decode_spaces_append, List.mem_append] at hc
        rcases hc with hc | hc
        · rw [List.eq_of_mem_replicate hc]
          exact hspace
        · exact hevery c hc
      · intro hnarrow
        rw [hroom] at hnarrow
        have := hfits hnarrow
        rw [width_spaces_append]
        omega
    · have hroom : room .word paragraph columns ≤ columns := by
        unfold room
        split_ifs <;> omega
      intro l hl
      obtain ⟨hevery, hfits⟩ := every_words hpos hreplacement hspace h hlines l hl
      exact ⟨hevery, fun hnarrow => hfits fun c hc => Nat.le_trans (hnarrow c hc) hroom⟩

/-- The lines of a text come from its paragraphs. -/
theorem mem_wrap {mode : Wrap} {utf8 : Bytes} {lines : List Bytes} (hpos : 0 < columns)
    (h : wrap utf8 columns mode = some lines) : ∀ l ∈ lines, ∃ paragraph ∈ utf8.splitOn 0x0A,
      ∃ its, wrapParagraph mode paragraph columns = some its ∧ l ∈ its := by
  unfold wrap at h
  rw [if_neg (by omega)] at h
  obtain ⟨broken, hbroken, rfl⟩ := Option.map_eq_some_iff.mp h
  intro l hl
  obtain ⟨its, hmem, hl⟩ := List.mem_flatten.mp hl
  obtain ⟨paragraph, hp, hwrap⟩ := mem_of_mapM hbroken its hmem
  exact ⟨paragraph, hp, its, hwrap, hl⟩

end

end PrinterDriver.Dsl.TextBlocks
