import PrinterDriver.Dsl.PrintedWidths

/-! # Which blocks are printed in their columns

Without marks only one thing takes a block out of its columns: in a paragraph whose indent leaves a
single column a wide character has no room, and what stands behind it in its word is kept on the same
line. A well-formed text without marks is printed in its columns just if no such paragraph has a word
with a wide character that is not its last one (`block_within_iff`). -/

namespace PrinterDriver.Dsl.BlockWidths

open PrinterDriver.Core.Types PrinterDriver.Core.Profile PrinterDriver.Dsl.Documents
  PrinterDriver.Dsl.Text PrinterDriver.Dsl.Wrapping PrinterDriver.Dsl.Cells PrinterDriver.Dsl.Styles
  PrinterDriver.Dsl.Rows PrinterDriver.Dsl.TextBlocks PrinterDriver.Dsl.PrintedWidths
open PrinterDriver.Core.CodePage (transliterate transliterate_isSome)
open PrinterDriver.Lib.Mapping
open PrinterDriver.Dsl.Render (RenderProfile Printed)

/-! ### Words in a single column -/

/-- A wide character stands before another one. -/
def Wedged (points : List ℕ) : Prop := ∃ c ∈ points.dropLast, columnWidth c = 2

theorem not_wedged_of_length {points : List ℕ} (h : points.length ≤ 1) : ¬ Wedged points := by
  rintro ⟨c, hc, -⟩
  have hpos := List.length_pos_of_mem hc
  rw [List.length_dropLast] at hpos
  omega

theorem wedged_cons {c : ℕ} {points : List ℕ} (hne : points ≠ []) :
    Wedged (c :: points) ↔ columnWidth c = 2 ∨ Wedged points := by
  unfold Wedged
  rw [List.dropLast_cons_of_ne_nil hne]
  simp

theorem length_le_pointsWidth {points : List ℕ} (h : ∀ c ∈ points, Unmarked c) :
    points.length ≤ pointsWidth points := by
  have hcells := length_add_wide points
  have hnone : points.countP isMark = 0 := by
    rw [List.countP_eq_zero]
    intro c hc hmark
    exact h c hc (of_decide_eq_true hmark)
  omega

/-- What a line of one column can take of the characters is one that is not wide. -/
theorem fitting_one {c : ℕ} {points : List ℕ} (h : ∀ d ∈ c :: points, Unmarked d) :
    fitting 1 0 (c :: points) = if columnWidth c = 2 then [] else [c] := by
  obtain ⟨hc, hpoints⟩ := List.forall_mem_cons.mp h
  have htwo := columnWidth_le_two c
  have hone : columnWidth c ≠ 0 := hc
  rw [fitting]
  by_cases hwide : columnWidth c = 2
  · rw [if_pos (by omega), if_pos hwide]
  · rw [if_neg (by omega), if_neg hwide]
    have hnone : fitting 1 (0 + columnWidth c) points = [] := by
      cases points with
      | nil => rfl
      | cons d points =>
        have hd : columnWidth d ≠ 0 := hpoints d List.mem_cons_self
        rw [fitting, if_pos (by omega)]
    rw [hnone]

theorem width_encodeAll_cons {c : ℕ} {points : List ℕ} (h : ∀ d ∈ c :: points, isScalar d = true) :
    width (encodeAll (c :: points)) = columnWidth c + pointsWidth points := by
  unfold width
  rw [decode_encodeAll h]
  unfold pointsWidth
  rw [List.map_cons, List.sum_cons]

/-- What a line of one column takes of a word. -/
theorem clip_one {c : ℕ} {points : List ℕ} (hscalar : ∀ d ∈ c :: points, isScalar d = true)
    (hmarks : ∀ d ∈ c :: points, Unmarked d) : clip (encodeAll (c :: points)) 1 =
      encodeAll (if columnWidth c = 2 then [] else [c]) := by
  unfold clip
  rw [if_neg (by decide), decode_encodeAll hscalar, fitting_one hmarks]

/-- A word that fits, or begins with a wide character, is kept; another is cut behind its first
character. -/
theorem hardBreak_one_cons {c : ℕ} {points : List ℕ} (hscalar : ∀ d ∈ c :: points, isScalar d = true)
    (hmarks : ∀ d ∈ c :: points, Unmarked d) : hardBreak 1 (encodeAll (c :: points)) =
      if columnWidth c + pointsWidth points ≤ 1 ∨ columnWidth c = 2 then
        some ([], encodeAll (c :: points))
      else (hardBreak 1 (encodeAll points)).map fun broken => (encode c :: broken.1, broken.2) := by
  rw [hardBreak, width_encodeAll_cons hscalar, clip_one hscalar hmarks]
  by_cases hfit : columnWidth c + pointsWidth points ≤ 1
  · rw [if_pos hfit, if_pos (.inl hfit)]
  · rw [if_neg hfit]
    by_cases hwide : columnWidth c = 2
    · have hnone : encodeAll [] = [] := rfl
      rw [if_pos hwide, hnone, if_pos rfl, if_pos (.inr hwide)]
    · have hone : encodeAll [c] = encode c := by simp [encodeAll]
      have hsplit : encodeAll (c :: points) = encode c ++ encodeAll points := by simp [encodeAll]
      have hne : encode c ≠ [] := List.ne_nil_of_length_pos length_encode_pos
      have hle : ¬ (encodeAll (c :: points)).length < (encode c).length := by
        rw [hsplit, List.length_append]
        omega
      rw [if_neg hwide, hone, if_neg hne, if_neg hle, if_neg (not_or.mpr ⟨hfit, hwide⟩), hsplit,
        List.drop_left]

/-- A word is cut at its first wide character, and the rest of it is kept. -/
theorem hardBreak_one {points : List ℕ} (hscalar : ∀ c ∈ points, isScalar c = true)
    (hmarks : ∀ c ∈ points, Unmarked c) : ∃ heads rest,
      hardBreak 1 (encodeAll points) = some (heads, encodeAll rest) ∧ rest <:+ points ∧
        (∀ l ∈ heads, (decode l).length ≤ 1) ∧ (rest.length ≤ 1 ↔ ¬ Wedged points) := by
  induction points with
  | nil =>
    refine ⟨[], [], ?_, List.nil_suffix, by simp, iff_of_true (by simp) (not_wedged_of_length (by simp))⟩
    rw [hardBreak]
    rfl
  | cons c points ih =>
    rw [hardBreak_one_cons hscalar hmarks]
    obtain ⟨hc, hpoints⟩ := List.forall_mem_cons.mp hscalar
    obtain ⟨hmark, hmarks'⟩ := List.forall_mem_cons.mp hmarks
    have hlength := length_le_pointsWidth hmarks'
    have hzero : columnWidth c ≠ 0 := hmark
    by_cases hkept : columnWidth c + pointsWidth points ≤ 1 ∨ columnWidth c = 2
    · rw [if_pos hkept]
      refine ⟨[], c :: points, rfl, List.suffix_refl _, by simp, ?_⟩
      by_cases hlast : points = []
      · rw [hlast]
        exact iff_of_true (by simp) (not_wedged_of_length (by simp))
      · -- more characters do not fit, so that the first one is wide
        have hmore := List.length_pos_of_ne_nil hlast
        have hwide : columnWidth c = 2 := by omega
        rw [wedged_cons hlast, List.length_cons]
        simp [hwide]
        omega
    · obtain ⟨hfit, hwide⟩ := not_or.mp hkept
      have hlast : points ≠ [] := by
        rintro rfl
        have htwo := columnWidth_le_two c
        simp only [pointsWidth, List.map_nil, List.sum_nil] at hfit
        omega
      obtain ⟨heads, rest, hbreak, hsuffix, hheads, hiff⟩ := ih hpoints hmarks'
      rw [if_neg hkept, hbreak]
      refine ⟨encode c :: heads, rest, rfl, hsuffix.trans (List.suffix_cons _ _), ?_, ?_⟩
      · refine List.forall_mem_cons.mpr ⟨?_, hheads⟩
        have hone : encodeAll [c] = encode c := by simp [encodeAll]
        rw [← hone, decode_encodeAll (by simpa using hc)]
        exact Nat.le_refl 1
      · rw [hiff, wedged_cons hlast]
        simp [hwide]

/-- A token that a well-formed text without marks is split into. -/
structure Plain (token : Bytes) : Prop where
  wellFormed : WellFormed token
  unmarked : Every Unmarked token

theorem plain_encodeAll {points : List ℕ} (hscalar : ∀ c ∈ points, isScalar c = true)
    (hmarks : ∀ c ∈ points, Unmarked c) : Plain (encodeAll points) := by
  refine ⟨wellFormed_encodeAll hscalar, fun c hc => hmarks c ?_⟩
  rwa [decode_encodeAll hscalar] at hc

theorem Plain.width_pos {token : Bytes} (h : Plain token) (hne : token ≠ []) : 0 < width token := by
  have hle := length_le_width h.unmarked
  have hread : decode token ≠ [] := by
    intro hnil
    have hback := wellFormed_iff_encodeAll.mp h.wellFormed
    rw [hnil] at hback
    exact hne hback.symm
  have := List.length_pos_of_ne_nil hread
  omega

theorem plain_nil : Plain [] := ⟨⟨[], by simp, rfl⟩, every_nil⟩

/-- A word in a single column: what is cut off, and what is kept. -/
theorem hardBreak_plain {token : Bytes} (h : Plain token) : ∃ heads rest,
    hardBreak 1 token = some (heads, rest) ∧ Plain rest ∧ (∀ l ∈ heads, (decode l).length ≤ 1) ∧
      ((decode rest).length ≤ 1 ↔ ¬ Wedged (decode token)) := by
  have hscalar : ∀ c ∈ decode token, isScalar c = true := fun _ => scalar_of_mem_decode
  obtain ⟨heads, rest, hbreak, hsuffix, hheads, hiff⟩ := hardBreak_one hscalar h.unmarked
  have hrest : ∀ c ∈ rest, isScalar c = true := fun c hc => hscalar c (hsuffix.subset hc)
  rw [wellFormed_iff_encodeAll.mp h.wellFormed] at hbreak
  refine ⟨heads, encodeAll rest, hbreak,
    plain_encodeAll hrest fun c hc => h.unmarked c (hsuffix.subset hc), hheads, ?_⟩
  rw [decode_encodeAll hrest]
  exact hiff

/-- The lines of one column hold one character each just if no word is wedged. -/
theorem fillLines_one {tokens : List Bytes} (htokens : ∀ token ∈ tokens, Plain token)
    {current : Bytes} (hcurrent : Plain current) :
    ∃ lines, fillLines 1 tokens current (width current) = some lines ∧
      ((∀ l ∈ lines, (decode l).length ≤ 1) ↔
        (decode current).length ≤ 1 ∧ ∀ token ∈ tokens, ¬ Wedged (decode token)) := by
  induction tokens generalizing current with
  | nil => exact ⟨[current], rfl, by simp⟩
  | cons token tokens ih =>
    obtain ⟨htoken, hrest⟩ := List.forall_mem_cons.mp htokens
    rw [fillLines, List.forall_mem_cons]
    by_cases hempty : token = []
    · obtain ⟨lines, hlines, hiff⟩ := ih hrest hcurrent
      have hfine : ¬ Wedged (decode token) := by
        rw [hempty]
        exact not_wedged_of_length (by decide)
      rw [if_pos hempty]
      exact ⟨lines, hlines, by rw [hiff]; simp [hfine]⟩
    rw [if_neg hempty]
    by_cases hlong : 1 < width token
    · -- the word is cut, behind the line that was open
      obtain ⟨heads, rest, hbreak, hplain, hheads, hkept⟩ := hardBreak_plain htoken
      obtain ⟨lines, hlines, hiff⟩ := ih hrest hplain
      rw [if_pos hlong, hbreak, Option.bind_some, hlines, Option.map_some]
      refine ⟨_, rfl, ?_⟩
      have hopen : (∀ l ∈ if current = [] then [] else [current], (decode l).length ≤ 1) ↔
          (decode current).length ≤ 1 := by
        split_ifs with hnil
        · rw [hnil]
          exact iff_of_true (by simp) (by decide)
        · rw [List.forall_mem_singleton]
      rw [List.forall_mem_append, List.forall_mem_append, hopen, hiff, hkept]
      constructor
      · rintro ⟨⟨h, -⟩, hmore⟩
        exact ⟨h, hmore⟩
      · rintro ⟨h, hmore⟩
        exact ⟨⟨h, hheads⟩, hmore⟩
    rw [if_neg hlong]
    have hshort : (decode token).length ≤ 1 := by
      have := length_le_width htoken.unmarked
      omega
    have hfine := not_wedged_of_length hshort
    obtain ⟨lines, hlines, hiff⟩ := ih hrest htoken
    by_cases hfirst : current = []
    · rw [if_pos hfirst]
      have hnone : (decode []).length ≤ 1 := by decide
      refine ⟨lines, hlines, ?_⟩
      rw [hiff, hfirst]
      simp only [hshort, hnone, hfine, not_false_eq_true, true_and]
    · have hused := hcurrent.width_pos hfirst
      rw [if_neg hfirst, if_neg (by omega), hlines]
      refine ⟨current :: lines, rfl, ?_⟩
      rw [List.forall_mem_cons, hiff]
      simp [hshort, hfine]

/-! ### Paragraphs and texts -/

/-- The indent of a paragraph that is broken at words leaves a single column. -/
def Indented (mode : Wrap) (columns : ℕ) (paragraph : Bytes) : Prop :=
  mode = .word ∧ 0 < indentOf paragraph ∧ indentOf paragraph + 1 = columns

/-- In a single column, a word of the paragraph is wedged. -/
def Squeezed (mode : Wrap) (columns : ℕ) (paragraph : Bytes) : Prop :=
  Indented mode columns paragraph ∧ ∃ word ∈ paragraph.splitOn 0x20, Wedged (decode word)

section
variable {mode : Wrap} {columns : ℕ} {paragraph : Bytes} {lines : List Bytes}

/-- A paragraph is printed in its columns just if it is not squeezed. -/
theorem wrapParagraph_within_iff (hcolumns : 2 ≤ columns) (hplain : Plain paragraph)
    (h : wrapParagraph mode paragraph columns = some lines) :
    (∀ l ∈ lines, (decode l).length ≤ columns) ↔ ¬ Squeezed mode columns paragraph := by
  by_cases hindented : Indented mode columns paragraph
  · obtain ⟨rfl, hindent, hone⟩ := hindented
    obtain ⟨body, hparagraph, hdrop, hbody⟩ := indent_spec paragraph
    have hwords : paragraph.splitOn 0x20 =
        List.replicate (indentOf paragraph) [] ++ body.splitOn 0x20 := by
      conv_lhs => rw [hparagraph]
      rw [splitOn_spaces_append]
    have htokens : ∀ token ∈ body.splitOn 0x20, Plain token := by
      intro token ht
      have hmem : token ∈ paragraph.splitOn 0x20 := by
        rw [hwords]
        exact List.mem_append_right _ ht
      exact ⟨wellFormed_of_mem_splitOn (by decide) hplain.wellFormed hmem,
        fun c hc => hplain.unmarked c (mem_decode_of_piece (by decide) hmem hc)⟩
    obtain ⟨inner, hinner, hiff⟩ := fillLines_one htokens plain_nil
    have hne : paragraph ≠ [] := by
      rintro rfl
      exact absurd hindent (by decide)
    have hroom : columns - indentOf paragraph = 1 := by omega
    have hzero : width [] = 0 := rfl
    rw [wrapParagraph, if_neg hne, if_pos ⟨hindent, by omega⟩, hdrop, wrapParagraph_word hbody,
      hroom, ← hzero, hinner] at h
    obtain rfl := Option.some.inj h
    have hlines : (∀ l ∈ inner.map (spaces (indentOf paragraph) ++ ·), (decode l).length ≤ columns) ↔
        ∀ l ∈ inner, (decode l).length ≤ 1 := by
      rw [List.forall_mem_map]
      refine forall₂_congr fun l _ => ?_
      rw [decode_spaces_append, List.length_append, List.length_replicate]
      omega
    have hblank : ¬ Wedged (decode []) := not_wedged_of_length (by decide)
    rw [hlines, hiff]
    constructor
    · rintro ⟨-, hall⟩ ⟨-, word, hword, hwedged⟩
      rw [hwords, List.mem_append] at hword
      rcases hword with hword | hword
      · rw [List.eq_of_mem_replicate hword] at hwedged
        exact hblank hwedged
      · exact hall word hword hwedged
    · intro hnot
      refine ⟨by decide, fun token ht hwedged => hnot ⟨⟨rfl, hindent, hone⟩, token, ?_, hwedged⟩⟩
      rw [hwords]
      exact List.mem_append_right _ ht
  · -- two columns have room for every character
    refine iff_of_true (fun l hl => ?_) fun hsqueezed => hindented hsqueezed.1
    have hroom : 2 ≤ room mode paragraph columns := by
      unfold room
      split_ifs with hword
      · by_contra hlt
        refine hindented ⟨hword.1, ?_, ?_⟩ <;> omega
      · exact hcolumns
    obtain ⟨hevery, hfits⟩ := @wrapParagraph_every Unmarked columns mode paragraph lines
      (by omega) (by decide) (by decide) (by decide) hplain.unmarked h l hl
    exact Nat.le_trans (length_le_width hevery)
      (hfits fun c _ => Nat.le_trans (columnWidth_le_two c) hroom)

end

section
variable {styles : StyleTable} {profile : RenderProfile} {place : Bytes}

/-- A text of a block is squeezed where it is laid out. -/
def Squeezes (styles : StyleTable) (profile : RenderProfile) (place : Bytes) : TextBlock → Prop
  | .text content ref =>
    let style := (layoutStyle styles ref place).1
    ∃ paragraph ∈ content.splitOn 0x0A,
      Squeezed style.wrap (charsPerLine profile style) paragraph
  | .columns _ | .divider _ => False

/-- A paragraph of a block has a single column, and a wide character. -/
def Crams (styles : StyleTable) (profile : RenderProfile) (place : Bytes) : TextBlock → Prop
  | .text content ref =>
    let style := (layoutStyle styles ref place).1
    ∃ paragraph ∈ content.splitOn 0x0A,
      Indented style.wrap (charsPerLine profile style) paragraph ∧
        ∃ c ∈ decode paragraph, columnWidth c = 2
  | .columns _ | .divider _ => False

/-- The text of a block is well-formed. -/
def Readable : TextBlock → Prop
  | .text content _ => WellFormed content
  | .columns _ | .divider _ => True

/-- Without marks, a line is printed in its columns just if it has no more characters. -/
theorem within_iff_length {line : Bytes} {style : Render.ResolvedStyle} {columns : ℕ}
    {prePadded : Bool} (hcolumns : 2 ≤ columns) :
    Within (.text line style columns prePadded) ↔ (decode line).length ≤ columns := by
  constructor
  · intro h
    obtain ⟨bytes, hbytes⟩ := Option.isSome_iff_exists.mp (@transliterate_isSome line .pc437)
    rw [← length_of_transliterate hbytes]
    exact h hcolumns .pc437 bytes hbytes
  · intro h _ codePage bytes hbytes
    rw [length_of_transliterate hbytes]
    exact h

/-- The lines of a text have those of each paragraph. -/
theorem lines_of_wrap {mode : Wrap} {utf8 : Bytes} {columns : ℕ} {lines : List Bytes}
    (hpos : 0 < columns) (h : wrap utf8 columns mode = some lines) :
    ∀ paragraph ∈ utf8.splitOn 0x0A,
      ∃ its, wrapParagraph mode paragraph columns = some its ∧ ∀ l ∈ its, l ∈ lines := by
  intro paragraph hp
  unfold wrap at h
  rw [if_neg (by omega)] at h
  obtain ⟨broken, hbroken, rfl⟩ := Option.map_eq_some_iff.mp h
  obtain ⟨its, hmem, hits⟩ := image_of_mapM hbroken paragraph hp
  exact ⟨its, hits, fun l hl => List.mem_flatten.mpr ⟨its, hmem, hl⟩⟩

theorem setText_within_iff {content : Bytes} {ref : StyleRef}
    {laid : List Printed × List Render.ReportEntry} (hwell : WellFormed content)
    (hmarks : Every Unmarked content) (h : setText styles profile place content ref = some laid) :
    (∀ op ∈ laid.1, Within op) ↔ ¬ Squeezes styles profile place (.text content ref) := by
  unfold setText at h
  obtain ⟨lines, hlines, rfl⟩ := Option.map_eq_some_iff.mp h
  unfold Squeezes
  dsimp only
  rw [List.forall_mem_map]
  by_cases hcolumns : 2 ≤ charsPerLine profile (layoutStyle styles ref place).1
  · have hplain : ∀ paragraph ∈ content.splitOn 0x0A, Plain paragraph := fun paragraph hp =>
      ⟨wellFormed_of_mem_splitOn (by decide) hwell hp,
        fun c hc => hmarks c (mem_decode_of_piece (by decide) hp hc)⟩
    constructor
    · rintro hall ⟨paragraph, hp, hsqueezed⟩
      obtain ⟨its, hits, hmem⟩ := lines_of_wrap (by omega) hlines paragraph hp
      refine (wrapParagraph_within_iff hcolumns (hplain paragraph hp) hits).mp (fun l hl => ?_)
        hsqueezed
      exact (within_iff_length hcolumns).mp (hall l (hmem l hl))
    · intro hfree line hline
      obtain ⟨paragraph, hp, its, hits, hl⟩ := mem_wrap (by omega) hlines line hline
      have hfits := (wrapParagraph_within_iff hcolumns (hplain paragraph hp) hits).mpr
        fun hsqueezed => hfree ⟨paragraph, hp, hsqueezed⟩
      exact (within_iff_length hcolumns).mpr (hfits line hl)
  · refine iff_of_true (fun line _ hle => absurd hle hcolumns) ?_
    rintro ⟨paragraph, -, ⟨-, hindent, hone⟩, -⟩
    omega

/-- **Which blocks are printed in their columns.** A block without marks keeps to them unless it has
a paragraph with a single column and a wide character; and if its text is well-formed, just if no
word of such a paragraph has a wide character before its last one. -/
theorem block_within_iff {fuel : ℕ} {block : TextBlock}
    {laid : List Printed × List Render.ReportEntry}
    (h : setBlock fuel styles profile place block = some laid)
    (hmarks : WrittenIn Unmarked block) :
    (¬ Crams styles profile place block → ∀ op ∈ laid.1, Within op) ∧
      (Readable block → ((∀ op ∈ laid.1, Within op) ↔ ¬ Squeezes styles profile place block)) := by
  cases block with
  | text content ref =>
    refine ⟨fun hfree => setText_within hmarks (fun hcolumns paragraph hp c hc => ?_) h,
      fun hwell => setText_within_iff hwell hmarks h⟩
    have htwo := columnWidth_le_two c
    unfold room
    split_ifs with hword
    · by_contra hlt
      refine hfree ⟨paragraph, hp, ⟨hword.1, ?_, ?_⟩, c, hc, ?_⟩ <;> omega
    · omega
  | columns cells =>
    have hall := columnsRow_within hmarks h
    exact ⟨fun _ => hall, fun _ => iff_of_true hall id⟩
  | divider rule =>
    have hall := setDivider_within hmarks h
    exact ⟨fun _ => hall, fun _ => iff_of_true hall id⟩

/-- Two wide characters, a blank between them. -/
def sunAndRoot : Bytes := [0xE6, 0x97, 0xA5, 0x20, 0xE6, 0x9C, 0xAC]

theorem sunAndRoot_within : ∃ laid, setBlock 0 [] { widthDots := 384 } (str "blocks[0]")
    (.text sunAndRoot {}) = some laid ∧ ∀ op ∈ laid.1, Within op := by
  have hcolumns : charsPerLine { widthDots := 384 } (layoutStyle [] {} (str "blocks[0]")).1 = 32 := by
    decide
  have hmode : (layoutStyle [] {} (str "blocks[0]")).1.wrap = .word := rfl
  have hfill : fillLines 32 (sunAndRoot.splitOn 0x20) [] 0 = some [sunAndRoot] := by decide
  have hlines : wrap sunAndRoot 32 .word = some [sunAndRoot] :=
    wrap_paragraph (by decide) (by decide) ((wrapParagraph_word (by decide)).trans hfill)
  have hset : setBlock 0 [] { widthDots := 384 } (str "blocks[0]") (.text sunAndRoot {}) =
      some ([.text sunAndRoot (layoutStyle [] {} (str "blocks[0]")).1.toResolvedStyle 32 false],
        (layoutStyle [] {} (str "blocks[0]")).2) := by
    show setText [] _ _ sunAndRoot {} = _
    unfold setText
    dsimp only
    rw [hcolumns, hmode, hlines]
    rfl
  have hmarks : WrittenIn Unmarked (.text sunAndRoot {}) := by
    have hread : decode sunAndRoot = [0x65E5, 0x20, 0x672C] := by decide
    intro c hc
    rw [hread] at hc
    revert c
    decide
  have hwell : WellFormed sunAndRoot := ⟨[0x65E5, 0x20, 0x672C], by decide, by decide⟩
  refine ⟨_, hset, ((block_within_iff hset hmarks).2 hwell).mpr ?_⟩
  rintro ⟨paragraph, hp, ⟨-, hindent, -⟩, -⟩
  have hsplit : sunAndRoot.splitOn 0x0A = [sunAndRoot] := by decide
  rw [hsplit, List.mem_singleton] at hp
  rw [hp] at hindent
  exact absurd hindent (by decide)

end

end PrinterDriver.Dsl.BlockWidths
