import PrinterDriver.Core.Journal
import PrinterDriver.Lib.Delimited
import PrinterDriver.Dsl.Columns
import PrinterDriver.Dsl.Styles
import PrinterDriver.Dsl.Wrapping

/-! # Rows of columns

A row is planned, each of its cells is wrapped to the columns that the plan grants it, and the lines
of the cells are set side by side. What a cell prints is lost where it has no columns, or too few for
a wide character; the report speaks only of widths that were cut and of styles
(`no_silent_loss_iff`). -/

namespace PrinterDriver.Dsl.Rows

open PrinterDriver.Core.Types PrinterDriver.Dsl.Documents PrinterDriver.Dsl.Text
  PrinterDriver.Dsl.Wrapping PrinterDriver.Dsl.Columns PrinterDriver.Dsl.Styles
open PrinterDriver.Core.Journal (decimal decimal_inj)
open PrinterDriver.Lib.Delimited (prefix_append_cases)
open PrinterDriver.Lib.Mapping
open PrinterDriver.Dsl.Render (Align RenderProfile ReportEntry Printed)

/-! ### The style of a row -/

def isPrinterFont (font : Bytes) : Bool := font = str "printerA" || font = str "printerB"

/-- The style of a block, with what the hardware path sets in its place; that is said. -/
def layoutStyle (styles : StyleTable) (ref : StyleRef) (place : Bytes) :
    ResolvedStyle × List ReportEntry :=
  let resolved := resolve styles ref place
  let style := resolved.1
  let italic : List ReportEntry := if style.italic then [⟨.unsupportedStyle, place, str "italic",
    str "bold", .hardware, str "no hardware italic; the raster path is not built yet"⟩] else []
  let rotated : List ReportEntry := if style.rotate90 then [⟨.unsupportedStyle, place,
    str "rotate90", str "upright", .hardware,
    str "rotated text changes the whole line geometry; not attempted"⟩] else []
  let font : List ReportEntry := if isPrinterFont style.font then [] else [⟨.unsupportedStyle, place,
    str "font:" ++ style.font, str "printerA", .hardware,
    str "named raster fonts need the raster path"⟩]
  ({ style with
      bold := style.bold || style.italic
      rotate90 := false
      font := if isPrinterFont style.font then style.font else str "printerA" },
    resolved.2 ++ italic ++ rotated ++ font)

def charsPerLine (profile : RenderProfile) (style : ResolvedStyle) : ℕ :=
  let cell := profile.charDots style.toResolvedStyle
  let usable : ℤ := profile.widthDots - max 0 style.marginLeftDots - max 0 style.marginRightDots -
    max 0 style.indentDots
  if usable < cell then 1 else max 1 (usable.toNat / cell)

/-! ### Setting a row -/

def cellPlace (place : Bytes) (i : ℕ) : Bytes :=
  place ++ str ".cells[" ++ decimal i ++ str "]"

/-- A cell whose lines are broken. -/
structure SetCell where
  align : Align
  width : ℕ
  lines : List Bytes
  deriving DecidableEq, Repr

def setCell (style : ResolvedStyle) (cell : Cell) (width : ℕ) : Option SetCell :=
  (wrap cell.content width (cell.wrap.getD style.wrap)).map fun lines =>
    ⟨cell.align.getD .left, width, lines⟩

/-- What the cell puts into a line of the row. -/
def SetCell.part (c : SetCell) (row : ℕ) : Bytes := pad ((c.lines[row]?).getD []) c.width c.align

structure SetRow where
  style : ResolvedStyle
  columns : ℕ
  cells : List SetCell
  report : List ReportEntry

namespace SetRow

def rows (r : SetRow) : ℕ := (r.cells.map fun c => c.lines.length).foldl max 1

def line (r : SetRow) (row : ℕ) : Bytes :=
  pad (r.cells.map fun c => c.part row).flatten r.columns .left

end SetRow

/-- A row has one style: a cell that asks for another is told so. -/
def cellReport (styles : StyleTable) (style : ResolvedStyle) (place : Bytes) (cells : List Cell) :
    List ReportEntry :=
  cells.zipIdx.flatMap fun c =>
    if c.2 ≠ 0 ∧ c.1.style ≠ {} ∧ (resolve styles c.1.style []).1 ≠ style then
      [⟨.unsupportedStyle, cellPlace place c.2, str "per-cell style", str "the row style",
        .hardware, str "one style per row: the printer styles whole lines"⟩]
    else []

/-- The style of the first cell is that of the row. -/
def rowStyle (styles : StyleTable) (place : Bytes) (cells : List Cell) :
    ResolvedStyle × List ReportEntry :=
  layoutStyle styles ((cells.headD {}).style) (cellPlace place 0)

def rowPlan (styles : StyleTable) (profile : RenderProfile) (place : Bytes) (cells : List Cell) :
    ColumnPlan :=
  let style := (rowStyle styles place cells).1
  planColumns (cells.map Cell.width) (charsPerLine profile style)
    (profile.charDots style.toResolvedStyle)

def truncatedReport (plan : ColumnPlan) (columns : ℕ) (place : Bytes) : List ReportEntry :=
  if plan.truncated then [⟨.truncated, place, str "fixed cell widths",
    decimal columns ++ str " columns", .hardware, str "the fixed widths do not fit the media"⟩]
  else []

/-- The cells of a row in their columns; nothing where wrapping leaves a range. -/
def setRow (styles : StyleTable) (profile : RenderProfile) (place : Bytes) (cells : List Cell) :
    Option SetRow :=
  let style := (rowStyle styles place cells).1
  let columns := charsPerLine profile style
  let plan := rowPlan styles profile place cells
  ((cells.zip plan.widths).mapM fun c => setCell style c.1 c.2).map fun set =>
    ⟨style, columns, set, (rowStyle styles place cells).2 ++ truncatedReport plan columns place ++
      cellReport styles style place cells⟩

/-- The lines that a row prints, and what the report says of it. -/
def columnsRow (styles : StyleTable) (profile : RenderProfile) (place : Bytes) :
    List Cell → Option (List Printed × List ReportEntry)
  | [] => some ([], [])
  | cells => (setRow styles profile place cells).map fun r =>
    ((List.range r.rows).map fun row => .text (r.line row) r.style.toResolvedStyle r.columns true,
      r.report)

/-! ### What a row promises -/

variable {styles : StyleTable} {profile : RenderProfile} {place : Bytes} {cells : List Cell}

def wrapOf (styles : StyleTable) (place : Bytes) (cells : List Cell) (cell : Cell) : Wrap :=
  cell.wrap.getD (rowStyle styles place cells).1.wrap

/-- The wrapping of the cell shortens nothing. -/
def Whole (mode : Wrap) : Prop := mode = .word ∨ mode = .char

/-- The parts of the cell print its text, in order. -/
def Kept (r : SetRow) (i : ℕ) (cell : Cell) : Prop :=
  ∃ c, r.cells[i]? = some c ∧ (List.range r.rows).flatMap (fun row => inked (c.part row)) =
    inked cell.content

/-- The report has an entry for the row or the cell. -/
def Reported (r : SetRow) (place : Bytes) (i : ℕ) : Prop :=
  ∃ entry ∈ r.report, entry.block = place ∨ entry.block = cellPlace place i

/-- The lines read as the parts of the cells, and what a cell prints is in its parts or reported. -/
def NoSilentLoss (styles : StyleTable) (profile : RenderProfile) (place : Bytes)
    (cells : List Cell) : Prop :=
  ∃ r, setRow styles profile place cells = some r ∧
    (∀ row, ∃ n, decode (r.line row) =
      (r.cells.flatMap fun c => decode (c.part row)) ++ List.replicate n 0x20) ∧
    ∀ i cell, cells[i]? = some cell → Whole (wrapOf styles place cells cell) →
      Kept r i cell ∨ Reported r place i

/-- The words that have to be cut are written as they are read, in every cell that has columns. -/
def SoftRow (styles : StyleTable) (profile : RenderProfile) (place : Bytes) (cells : List Cell) :
    Prop :=
  ∀ (i : ℕ) (cell : Cell) (width : ℕ), cells[i]? = some cell →
    (rowPlan styles profile place cells).widths[i]? = some width → 0 < width →
      ∀ paragraph ∈ cell.content.splitOn 0x0A, Soft (wrapOf styles place cells cell) paragraph width

/-- What the report says of a row or a cell: widths that were cut, a style that the first cell asks
for and the hardware path does not set, or a style of another cell that is not the row's. -/
def Declared (styles : StyleTable) (profile : RenderProfile) (place : Bytes) (cells : List Cell)
    (i : ℕ) (cell : Cell) : Prop :=
  (rowPlan styles profile place cells).truncated = true ∨
    (i = 0 ∧ (rowStyle styles place cells).2 ≠ []) ∨
    (i ≠ 0 ∧ cell.style ≠ {} ∧
      (resolve styles cell.style []).1 ≠ (rowStyle styles place cells).1)

/-- The text prints nothing, or it has columns, and room for each of its characters. -/
def Roomy (mode : Wrap) (content : Bytes) (width : ℕ) : Prop :=
  inked content = [] ∨ (0 < width ∧ ∀ paragraph ∈ content.splitOn 0x0A,
    ∀ c ∈ decode paragraph, columnWidth c ≤ room mode paragraph width)

/-- Every cell is roomy, or something is said. -/
def RoomyRow (styles : StyleTable) (profile : RenderProfile) (place : Bytes) (cells : List Cell) :
    Prop :=
  ∀ i cell width, cells[i]? = some cell →
    (rowPlan styles profile place cells).widths[i]? = some width →
      Whole (wrapOf styles place cells cell) →
        Roomy (wrapOf styles place cells cell) cell.content width ∨
          Declared styles profile place cells i cell

/-! ### One cell -/

section

variable {mode : Wrap} {columns : ℕ} {align : Align}

/-- A padded line prints what fits of it. -/
theorem inked_pad (l : Bytes) (hpos : 0 < columns) :
    inked (pad l columns align) = (fitting columns 0 (decode l)).filter fun c => !isSpace c := by
  obtain ⟨leading, trailing, hdecode, -⟩ := decode_pad l align hpos
  have hspaces : ∀ n, (List.replicate n 0x20).filter (fun c => !isSpace c) = [] := by
    intro n
    rw [List.filter_eq_nil_iff]
    intro c hc
    rw [List.eq_of_mem_replicate hc]
    decide
  unfold inked
  rw [hdecode, List.filter_append, List.filter_append, hspaces, hspaces, List.append_nil,
    List.nil_append]

theorem inked_pad_sublist (l : Bytes) (hpos : 0 < columns) :
    (inked (pad l columns align)).Sublist (inked l) := by
  rw [inked_pad l hpos]
  exact prefix_of_fitting.sublist.filter _

theorem inked_pad_of_le {l : Bytes} (hpos : 0 < columns) (h : width l ≤ columns) :
    inked (pad l columns align) = inked l := by
  rw [inked_pad l hpos, fitting_of_le (by unfold width at h; omega)]
  rfl

/-- The parts of all lines print what the padded lines do. -/
theorem flatMap_parts {g : Bytes → List ℕ} (hnil : g [] = []) {lines : List Bytes} {n : ℕ}
    (h : lines.length ≤ n) :
    (List.range n).flatMap (fun row => g ((lines[row]?).getD [])) = lines.flatMap g := by
  induction n generalizing lines with
  | zero =>
    obtain rfl := List.eq_nil_of_length_eq_zero (Nat.le_zero.mp h)
    rfl
  | succ n ih =>
    rw [List.range_succ_eq_map, List.flatMap_cons, List.flatMap_map]
    cases lines with
    | nil =>
      simp [hnil]
    | cons l lines =>
      rw [List.flatMap_cons, ← @ih lines (by simpa using h)]
      rfl

theorem eq_of_append_sublist {a a' b b' : List ℕ} (h : a.Sublist b) (h' : a'.Sublist b')
    (he : a ++ a' = b ++ b') : a = b ∧ a' = b' := by
  have hlen := congrArg List.length he
  rw [List.length_append, List.length_append] at hlen
  have hle := h.length_le
  have hle' := h'.length_le
  exact List.append_inj he (by omega)

theorem flatMap_sublist {g g' : Bytes → List ℕ} (h : ∀ l, (g l).Sublist (g' l)) :
    ∀ lines : List Bytes, (lines.flatMap g).Sublist (lines.flatMap g')
  | [] => .slnil
  | l :: lines => by
    rw [List.flatMap_cons, List.flatMap_cons]
    exact (h l).append (flatMap_sublist h lines)

/-- A character that is printed behind an indent fits behind it. -/
theorem columnWidth_le_of_pad {n c : ℕ} {text : Bytes} (hpos : 0 < columns)
    (hc : c ∈ inked (pad (spaces n ++ text) columns align)) : n + columnWidth c ≤ columns := by
  rw [inked_pad _ hpos, List.mem_filter, decode_spaces_append] at hc
  obtain ⟨hmem, hink⟩ := hc
  have hfits := @pointsWidth_fitting columns (List.replicate n 0x20 ++ decode text) 0
    (Nat.zero_le columns)
  obtain ⟨q, hq⟩ : ∃ q, q = fitting columns 0 (List.replicate n 0x20 ++ decode text) := ⟨_, rfl⟩
  have hprefix : q <+: List.replicate n 0x20 ++ decode text := hq ▸ prefix_of_fitting
  rw [← hq] at hmem hfits
  have hspaces : ∀ d ∈ List.replicate n 0x20, d ≠ c := by
    rintro d hd rfl
    rw [List.eq_of_mem_replicate hd] at hink
    revert hink
    decide
  rcases prefix_append_cases hprefix with h | ⟨rest, hrest, -⟩
  · exact absurd rfl (hspaces c (h.subset hmem))
  · rw [hrest] at hmem hfits
    rcases List.mem_append.mp hmem with hmem | hmem
    · exact absurd rfl (hspaces c hmem)
    · have hle := columnWidth_le hmem
      rw [pointsWidth_append, pointsWidth_replicate_space] at hfits
      omega

/-- The padded lines of broken paragraphs print the text just if its characters have room. -/
theorem kept_iff (hpos : 0 < columns) : ∀ {paragraphs : List Bytes} {lines : List (List Bytes)},
    List.Forall₂ (Broken mode columns) paragraphs lines →
    (lines.flatten.flatMap (fun l => inked (pad l columns align)) = paragraphs.flatMap inked ↔
      ∀ paragraph ∈ paragraphs, ∀ c ∈ decode paragraph, columnWidth c ≤ room mode paragraph columns)
  | [], _, .nil => by simp
  | paragraph :: paragraphs, ls :: rest, .cons h hs => by
    have ih := @kept_iff hpos paragraphs rest hs
    have hsub : (ls.flatMap fun l => inked (pad l columns align)).Sublist (ls.flatMap inked) :=
      flatMap_sublist (fun l => inked_pad_sublist l hpos) ls
    have hsubs : (rest.flatten.flatMap fun l => inked (pad l columns align)).Sublist
        (rest.flatten.flatMap inked) :=
      flatMap_sublist (fun l => inked_pad_sublist l hpos) rest.flatten
    rw [h.kept] at hsub
    rw [Broken.kept_all hs] at hsubs
    rw [List.flatten_cons, List.flatMap_append, List.flatMap_cons, List.forall_mem_cons, ← ih]
    constructor
    · intro he
      obtain ⟨hfirst, hrest⟩ := eq_of_append_sublist hsub hsubs he
      refine ⟨fun c hc => ?_, hrest⟩
      have hroom : 0 < room mode paragraph columns ∧ room mode paragraph columns ≤ columns := by
        unfold room
        split_ifs <;> omega
      by_cases hspace : isSpace c = true
      · rw [columnWidth_of_isSpace hspace]
        exact hroom.1
      · -- the character is printed behind the indent of its paragraph
        have hmem : c ∈ ls.flatMap fun l => inked (pad l columns align) := by
          rw [hfirst]
          exact List.mem_filter.mpr ⟨hc, by simpa using hspace⟩
        obtain ⟨l, hl, hcl⟩ := List.mem_flatMap.mp hmem
        obtain ⟨text, rfl⟩ := h.indented l hl
        have := columnWidth_le_of_pad hpos hcl
        omega
    · rintro ⟨hfits, hrest⟩
      have hwidth := h.fits.mpr hfits
      have hfirst : ls.flatMap (fun l => inked (pad l columns align)) = ls.flatMap inked := by
        rw [List.flatMap_def, List.flatMap_def]
        exact congrArg List.flatten
          (List.map_congr_left fun l hl => inked_pad_of_le hpos (hwidth l hl))
      rw [hfirst, h.kept, hrest]

end

/-! ### The cells of a row -/

theorem roomy_of_fits {mode : Wrap} {content : Bytes} {width : ℕ} (hpos : 0 < width) :
    Roomy mode content width ↔ ∀ paragraph ∈ content.splitOn 0x0A,
      ∀ c ∈ decode paragraph, columnWidth c ≤ room mode paragraph width := by
  constructor
  · rintro (hblank | ⟨-, hfits⟩) paragraph hp c hc
    · have hspace : isSpace c = true := by
        by_contra hink
        have hmem : c ∈ (content.splitOn 0x0A).flatMap inked :=
          List.mem_flatMap.mpr ⟨paragraph, hp, List.mem_filter.mpr ⟨hc, by simpa using hink⟩⟩
        rw [flatMap_inked_splitOn (.inr rfl), hblank] at hmem
        cases hmem
      rw [columnWidth_of_isSpace hspace]
      unfold room
      split_ifs <;> omega
    · exact hfits paragraph hp c hc
  · intro hfits
    exact .inr ⟨hpos, hfits⟩

/-- The cell is set, and its parts print its text just if it is roomy. -/
theorem setCell_spec {style : ResolvedStyle} {cell : Cell} {width : ℕ}
    (hsoft : 0 < width → ∀ paragraph ∈ cell.content.splitOn 0x0A,
      Soft (cell.wrap.getD style.wrap) paragraph width) :
    ∃ c, setCell style cell width = some c ∧ c.width = width ∧
      (Whole (cell.wrap.getD style.wrap) → ∀ n, c.lines.length ≤ n →
        ((List.range n).flatMap (fun row => inked (c.part row)) = inked cell.content ↔
          Roomy (cell.wrap.getD style.wrap) cell.content width)) := by
  unfold setCell
  by_cases hpos : 0 < width
  · by_cases hwhole : Whole (cell.wrap.getD style.wrap)
    · obtain ⟨lines, hlines, hbroken⟩ := wrap_spec hpos hwhole (hsoft hpos)
      rw [hlines]
      refine ⟨_, rfl, rfl, fun _ n hn => ?_⟩
      have hnil : inked (pad [] width (cell.align.getD .left)) = [] := by
        rw [inked_pad [] hpos]
        rfl
      have hparts := @flatMap_parts (fun l => inked (pad l width (cell.align.getD .left))) hnil
        lines.flatten n hn
      have hkept := @kept_iff _ width (cell.align.getD .left) hpos _ _ hbroken
      rw [flatMap_inked_splitOn (.inr rfl)] at hkept
      rw [roomy_of_fits hpos, ← hkept, ← hparts]
      rfl
    · have hshort : cell.wrap.getD style.wrap = .clip ∨ cell.wrap.getD style.wrap = .ellipsis := by
        unfold Whole at hwhole
        revert hwhole
        cases cell.wrap.getD style.wrap <;> simp
      obtain ⟨lines, hlines, -⟩ := @wrap_short _ cell.content width hpos hshort
      rw [hlines]
      exact ⟨_, rfl, rfl, fun h => absurd h hwhole⟩
  · obtain rfl : width = 0 := by omega
    refine ⟨⟨cell.align.getD .left, 0, [[]]⟩, rfl, rfl, fun _ n _ => ?_⟩
    have hnone : (List.range n).flatMap (fun row =>
        inked (SetCell.part ⟨cell.align.getD .left, 0, [[]]⟩ row)) = [] := by
      rw [List.flatMap_eq_nil_iff]
      intro row _
      rfl
    rw [hnone]
    exact ⟨fun h => .inl h.symm, fun h => (h.resolve_right fun h => absurd h.1 hpos).symm⟩

/-- What a row that was set is. -/
theorem setRow_spec {r : SetRow} (h : setRow styles profile place cells = some r) :
    r.style = (rowStyle styles place cells).1 ∧ r.columns = charsPerLine profile r.style ∧
      List.Forall₂ (fun c set => setCell r.style c.1 c.2 = some set)
        (cells.zip (rowPlan styles profile place cells).widths) r.cells ∧
      r.report = (rowStyle styles place cells).2 ++
        truncatedReport (rowPlan styles profile place cells) r.columns place ++
        cellReport styles r.style place cells := by
  unfold setRow at h
  obtain ⟨set, hset, rfl⟩ := Option.map_eq_some_iff.mp h
  exact ⟨rfl, rfl, mapM_eq_some_iff.mp hset, rfl⟩

theorem widths_spec : (rowPlan styles profile place cells).widths.length = cells.length ∧
    (rowPlan styles profile place cells).widths.sum ≤
      charsPerLine profile (rowStyle styles place cells).1 := by
  obtain ⟨hlen, hsum⟩ := @planColumns_fits
    (profile.charDots (rowStyle styles place cells).1.toResolvedStyle)
    (charsPerLine profile (rowStyle styles place cells).1) (cells.map Cell.width)
  exact ⟨hlen.trans (List.length_map _), hsum⟩

theorem charsPerLine_pos {style : ResolvedStyle} : 0 < charsPerLine profile style := by
  unfold charsPerLine
  dsimp only
  split_ifs <;> omega

/-- The line reads as the parts of its cells. -/
theorem decode_line {r : SetRow} (h : setRow styles profile place cells = some r) (row : ℕ) :
    ∃ n, decode (r.line row) =
      (r.cells.flatMap fun c => decode (c.part row)) ++ List.replicate n 0x20 := by
  obtain ⟨hstyle, hcolumns, hcells, -⟩ := setRow_spec h
  obtain ⟨hlen, hsum⟩ := @widths_spec styles profile place cells
  have hparts : ∀ set : List SetCell, WellFormed (set.map fun c => c.part row).flatten ∧
      decode (set.map fun c => c.part row).flatten = set.flatMap fun c => decode (c.part row) := by
    intro set
    induction set with
    | nil => exact ⟨⟨[], by simp, rfl⟩, rfl⟩
    | cons c set ih =>
      obtain ⟨hwell, hdecode⟩ := (wellFormed_pad ((c.lines[row]?).getD []) c.width c.align).append ih.1
      exact ⟨hwell, hdecode.trans (by rw [ih.2]; rfl)⟩
  have hwidth : width (r.cells.map fun c => c.part row).flatten ≤ r.columns := by
    have htotal : ∀ {zipped : List (Cell × ℕ)} {set : List SetCell},
        List.Forall₂ (fun c set => setCell r.style c.1 c.2 = some set) zipped set →
        pointsWidth (set.flatMap fun c => decode (c.part row)) = (zipped.map Prod.snd).sum := by
      intro zipped set hset
      induction hset with
      | nil => rfl
      | @cons c s _ _ hone _ ih =>
        obtain ⟨lines, -, rfl⟩ := Option.map_eq_some_iff.mp hone
        rw [List.flatMap_cons, pointsWidth_append, ih, List.map_cons, List.sum_cons]
        exact congrArg (· + _) (width_pad _ c.2 _)
    unfold width
    rw [(hparts r.cells).2, htotal hcells, List.map_snd_zip (by rw [hlen]), hcolumns, hstyle]
    exact hsum
  have hpos : 0 < r.columns := by
    rw [hcolumns]
    exact charsPerLine_pos
  obtain ⟨trailing, hdecode⟩ := decode_pad_left (r.cells.map fun c => c.part row).flatten hpos
  refine ⟨trailing, hdecode.trans ?_⟩
  rw [fitting_of_le (by unfold width at hwidth; omega), (hparts r.cells).2]

/-! ### The report -/

theorem cellPlace_inj {i j : ℕ} (h : cellPlace place i = cellPlace place j) : i = j := by
  unfold cellPlace at h
  rw [List.append_assoc, List.append_assoc, List.append_assoc, List.append_assoc] at h
  exact decimal_inj (List.append_cancel_right (List.append_cancel_left (List.append_cancel_left h)))

theorem cellPlace_ne (i : ℕ) : cellPlace place i ≠ place := by
  intro h
  have hlen := congrArg List.length h
  unfold cellPlace at hlen
  rw [List.length_append] at hlen
  have hone : (str "]").length = 1 := rfl
  simp only [List.length_append, hone] at hlen
  omega

theorem block_of_mem_if {p : Prop} [Decidable p] {said entry : ReportEntry}
    (hsaid : said.block = place) :
    (entry ∈ (if p then [said] else []) → entry.block = place) ∧
      (entry ∈ (if p then [] else [said]) → entry.block = place) := by
  split_ifs
  · exact ⟨fun h => by rw [List.mem_singleton.mp h, hsaid], fun h => by cases h⟩
  · exact ⟨fun h => (by cases h), fun h => by rw [List.mem_singleton.mp h, hsaid]⟩

theorem block_of_mem_layoutStyle {ref : StyleRef} : ∀ entry ∈ (layoutStyle styles ref place).2,
    entry.block = place := by
  intro entry hentry
  unfold layoutStyle at hentry
  simp only [List.mem_append] at hentry
  rcases hentry with ((h | h) | h) | h
  · exact block_of_mem_resolve entry h
  · exact (block_of_mem_if rfl).1 h
  · exact (block_of_mem_if rfl).1 h
  · exact (block_of_mem_if rfl).2 h

theorem truncatedReport_iff {plan : ColumnPlan} {columns : ℕ} :
    (∃ entry ∈ truncatedReport plan columns place, entry.block = place) ↔ plan.truncated = true := by
  unfold truncatedReport
  split_ifs with h
  · exact iff_of_true ⟨_, List.mem_singleton.mpr rfl, rfl⟩ h
  · exact iff_of_false (by simp) h

theorem mem_cellReport {style : ResolvedStyle} {entry : ReportEntry} :
    entry ∈ cellReport styles style place cells ↔ ∃ (i : ℕ) (cell : Cell), cells[i]? = some cell ∧
      (i ≠ 0 ∧ cell.style ≠ {} ∧ (resolve styles cell.style []).1 ≠ style) ∧
      entry = ⟨.unsupportedStyle, cellPlace place i, str "per-cell style", str "the row style",
        .hardware, str "one style per row: the printer styles whole lines"⟩ := by
  unfold cellReport
  rw [List.mem_flatMap]
  constructor
  · rintro ⟨⟨cell, i⟩, hmem, hentry⟩
    split_ifs at hentry with h
    · exact ⟨i, cell, List.mem_zipIdx_iff_getElem?.mp hmem, h, List.mem_singleton.mp hentry⟩
    · cases hentry
  · rintro ⟨i, cell, hget, h, rfl⟩
    exact ⟨(cell, i), List.mem_zipIdx_iff_getElem?.mpr hget, by rw [if_pos h]; exact List.mem_singleton.mpr rfl⟩

theorem reported_iff {r : SetRow} (h : setRow styles profile place cells = some r) {i : ℕ}
    {cell : Cell} (hcell : cells[i]? = some cell) :
    Reported r place i ↔ Declared styles profile place cells i cell := by
  obtain ⟨hstyle, -, -, hreport⟩ := setRow_spec h
  unfold Reported Declared
  rw [hreport, hstyle]
  constructor
  · rintro ⟨entry, hentry, hblock⟩
    rw [List.mem_append, List.mem_append] at hentry
    rcases hentry with (hentry | hentry) | hentry
    · have hzero := block_of_mem_layoutStyle entry hentry
      rw [hzero] at hblock
      rcases hblock with hblock | hblock
      · exact absurd hblock (cellPlace_ne 0)
      · exact .inr (.inl ⟨(cellPlace_inj hblock).symm, List.ne_nil_of_mem hentry⟩)
    · exact .inl (truncatedReport_iff.mp ⟨entry, hentry, (block_of_mem_if rfl).1 hentry⟩)
    · obtain ⟨j, other, hget, hother, rfl⟩ := mem_cellReport.mp hentry
      rcases hblock with hblock | hblock
      · exact absurd hblock (cellPlace_ne j)
      · obtain rfl := cellPlace_inj hblock
        obtain rfl := Option.some.inj (hget.symm.trans hcell)
        exact .inr (.inr hother)
  · rintro (htruncated | ⟨rfl, hne⟩ | hother)
    · obtain ⟨entry, hentry, hblock⟩ := truncatedReport_iff.mpr htruncated
      exact ⟨entry, List.mem_append_left _ (List.mem_append_right _ hentry), .inl hblock⟩
    · obtain ⟨entry, hentry⟩ := List.exists_mem_of_ne_nil _ hne
      exact ⟨entry, List.mem_append_left _ (List.mem_append_left _ hentry),
        .inr (block_of_mem_layoutStyle entry hentry)⟩
    · exact ⟨_, List.mem_append_right _ (mem_cellReport.mpr ⟨i, cell, hcell, hother, rfl⟩), .inr rfl⟩

/-! ### Which rows lose nothing -/

theorem setRow_exists (hsoft : SoftRow styles profile place cells) :
    ∃ r, setRow styles profile place cells = some r := by
  have hall : ∀ c ∈ cells.zip (rowPlan styles profile place cells).widths,
      ∃ set, setCell (rowStyle styles place cells).1 c.1 c.2 = some set ∧ True := by
    rintro ⟨cell, width⟩ hmem
    obtain ⟨i, hi⟩ := List.mem_iff_getElem?.mp hmem
    obtain ⟨hcell, hwidth⟩ := List.getElem?_zip_eq_some.mp hi
    obtain ⟨set, hset, -⟩ := setCell_spec fun hpos => hsoft i cell width hcell hwidth hpos
    exact ⟨set, hset, trivial⟩
  obtain ⟨set, hset, -⟩ := exists_mapM hall
  unfold setRow
  dsimp only
  rw [hset]
  exact ⟨_, rfl⟩

theorem le_foldl_max : ∀ {ns : List ℕ} {m : ℕ}, m ≤ ns.foldl max m ∧ ∀ n ∈ ns, n ≤ ns.foldl max m
  | [], m => ⟨Nat.le_refl m, by simp⟩
  | n :: ns, m => by
    obtain ⟨hstart, hall⟩ := @le_foldl_max ns (max m n)
    rw [List.foldl_cons, List.forall_mem_cons]
    exact ⟨by omega, by omega, hall⟩

/-- A cell is kept just if it is roomy. -/
theorem kept_cell_iff {r : SetRow} (h : setRow styles profile place cells = some r)
    (hsoft : SoftRow styles profile place cells) {i width : ℕ} {cell : Cell}
    (hcell : cells[i]? = some cell)
    (hwidth : (rowPlan styles profile place cells).widths[i]? = some width)
    (hwhole : Whole (wrapOf styles place cells cell)) :
    Kept r i cell ↔ Roomy (wrapOf styles place cells cell) cell.content width := by
  obtain ⟨hstyle, -, hcells, -⟩ := setRow_spec h
  obtain ⟨set, hset, -, hkept⟩ := @setCell_spec (rowStyle styles place cells).1 cell width
    fun hpos => hsoft i cell width hcell hwidth hpos
  have hget : r.cells[i]? = some set := by
    have hzip : (cells.zip (rowPlan styles profile place cells).widths)[i]? = some (cell, width) :=
      List.getElem?_zip_eq_some.mpr ⟨hcell, hwidth⟩
    obtain ⟨hi, hzip⟩ := List.getElem?_eq_some_iff.mp hzip
    have hi' : i < r.cells.length := hcells.length_eq ▸ hi
    have hone := hcells.get hi hi'
    simp only [List.get_eq_getElem, hzip, hstyle] at hone
    rw [List.getElem?_eq_getElem hi', ← Option.some.inj (hone.symm.trans hset)]
  have hrows : set.lines.length ≤ r.rows :=
    le_foldl_max.2 _ (List.mem_map.mpr ⟨set, List.mem_of_getElem? hget, rfl⟩)
  constructor
  · rintro ⟨c, hc, hk⟩
    obtain rfl := Option.some.inj (hget.symm.trans hc)
    exact (hkept hwhole r.rows hrows).mp hk
  · intro hroomy
    exact ⟨set, hget, (hkept hwhole r.rows hrows).mpr hroomy⟩

theorem roomy_of_no_loss (hsoft : SoftRow styles profile place cells)
    (h : NoSilentLoss styles profile place cells) : RoomyRow styles profile place cells := by
  obtain ⟨r, hr, -, hall⟩ := h
  intro i cell width hcell hwidth hwhole
  rcases hall i cell hcell hwhole with hkept | hreported
  · exact .inl ((kept_cell_iff hr hsoft hcell hwidth hwhole).mp hkept)
  · exact .inr ((reported_iff hr hcell).mp hreported)

theorem no_loss_of_roomy (hsoft : SoftRow styles profile place cells)
    (h : RoomyRow styles profile place cells) : NoSilentLoss styles profile place cells := by
  obtain ⟨r, hr⟩ := setRow_exists hsoft
  refine ⟨r, hr, decode_line hr, fun i cell hcell hwhole => ?_⟩
  obtain ⟨width, hwidth⟩ : ∃ width,
      (rowPlan styles profile place cells).widths[i]? = some width := by
    have hi := (List.getElem?_eq_some_iff.mp hcell).1
    rw [← (@widths_spec styles profile place cells).1] at hi
    exact ⟨_, List.getElem?_eq_getElem hi⟩
  rcases h i cell width hcell hwidth hwhole with hroomy | hdeclared
  · exact .inl ((kept_cell_iff hr hsoft hcell hwidth hwhole).mpr hroomy)
  · exact .inr ((reported_iff hr hcell).mpr hdeclared)

/-- A row of well-formed texts is soft. -/
theorem softRow_of_wellFormed (h : ∀ cell ∈ cells, WellFormed cell.content) :
    SoftRow styles profile place cells := fun _ cell _ hcell _ _ =>
  soft_of_wellFormed (h cell (List.mem_of_getElem? hcell))

/-- **Which rows lose nothing silently.** The condition is enough for every row, and needed for the
rows of well-formed texts. -/
theorem no_silent_loss_iff (styles : StyleTable) (profile : RenderProfile) (place : Bytes)
    (cells : List Cell) :
    (SoftRow styles profile place cells ∧ RoomyRow styles profile place cells →
      NoSilentLoss styles profile place cells) ∧
    ((∀ cell ∈ cells, WellFormed cell.content) →
      (NoSilentLoss styles profile place cells ↔ RoomyRow styles profile place cells)) :=
  ⟨fun h => no_loss_of_roomy h.1 h.2, fun h =>
    ⟨roomy_of_no_loss (softRow_of_wellFormed h), no_loss_of_roomy (softRow_of_wellFormed h)⟩⟩

/-- An item and its price. -/
theorem no_silent_loss_price : NoSilentLoss [] {} (str "blocks[0]")
    [{ content := [0x61] }, { content := [0x39], width := ⟨.chars, 8⟩, align := some .right }] := by
  refine ((no_silent_loss_iff _ _ _ _).2 fun cell hcell => ?_).mpr fun i cell width hcell hwidth _ => ?_
  · rcases List.mem_cons.mp hcell with rfl | hcell
    · exact ⟨[0x61], by decide, by decide⟩
    · rw [List.mem_singleton.mp hcell]
      exact ⟨[0x39], by decide, by decide⟩
  · rcases i with _ | _ | i
    · obtain rfl := Option.some.inj hcell
      obtain rfl : width = 40 := Option.some.inj (hwidth.symm.trans (by decide))
      exact .inl ((roomy_of_fits (by decide)).mpr (by decide))
    · obtain rfl := Option.some.inj hcell
      obtain rfl : width = 8 := Option.some.inj (hwidth.symm.trans (by decide))
      exact .inl ((roomy_of_fits (by decide)).mpr (by decide))
    · cases hcell

/-- A fixed cell that takes the whole line, and a flexible one behind it. -/
def crowded : List Cell :=
  [{ content := [0x61], width := ⟨.chars, 48⟩ }, { content := [0x62] }]

/-- The flexible cell has no columns, and the report is empty. -/
theorem not_no_silent_loss_crowded : ¬ NoSilentLoss [] {} (str "blocks[0]") crowded := by
  intro h
  have hwell : ∀ cell ∈ crowded, WellFormed cell.content := by
    intro cell hcell
    rcases List.mem_cons.mp hcell with rfl | hcell
    · exact ⟨[0x61], by decide, by decide⟩
    · rw [List.mem_singleton.mp hcell]
      exact ⟨[0x62], by decide, by decide⟩
  rcases roomy_of_no_loss (softRow_of_wellFormed hwell) h 1 { content := [0x62] } 0 rfl
    (by decide) (.inl (by decide)) with (hblank | hpos) | htruncated | hfirst | hother
  · revert hblank
    decide
  · exact absurd hpos.1 (Nat.lt_irrefl 0)
  · revert htruncated
    decide
  · exact absurd hfirst.1 (by decide)
  · exact hother.2.1 rfl

end PrinterDriver.Dsl.Rows
