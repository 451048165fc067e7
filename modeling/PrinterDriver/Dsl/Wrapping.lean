import PrinterDriver.Dsl.Text
import PrinterDriver.Lib.Mapping

/-! # Line breaking

What wrapping keeps of a text, and how wide its lines are. Every character but the spaces and the
line breaks is kept in order; a line is too wide just if a character is wider than the room that the
indent of its paragraph leaves (`wraps_iff`). -/

namespace PrinterDriver.Dsl.Wrapping

open PrinterDriver.Core.Types PrinterDriver.Dsl.Documents PrinterDriver.Dsl.Text
open PrinterDriver.Dsl.Render (Align)
open PrinterDriver.Lib.Mapping

/-! ### What is printed of a text -/

def isSpace (codepoint : ℕ) : Bool := codepoint = 0x20 || codepoint = 0x0A

/-- The code points of a text that are no spaces and no line breaks. -/
def inked (utf8 : Bytes) : List ℕ := (decode utf8).filter fun c => !isSpace c

theorem inked_append {b : UInt8} (front rest : Bytes) (hb : b = 0x20 ∨ b = 0x0A) :
    inked (front ++ b :: rest) = inked front ++ inked rest := by
  have hascii : b.toNat < 0x80 := by rcases hb with rfl | rfl <;> decide
  have hspace : isSpace b.toNat = true := by rcases hb with rfl | rfl <;> decide
  unfold inked
  rw [decode_append front rest hascii, List.filter_append,
    List.filter_cons_of_neg (by simp [hspace])]

theorem inked_spaces_append (n : ℕ) (text : Bytes) : inked (spaces n ++ text) = inked text := by
  have hspace : (List.replicate n 0x20).filter (fun c => !isSpace c) = [] := by
    rw [List.filter_eq_nil_iff]
    intro c hc
    rw [List.eq_of_mem_replicate hc]
    decide
  unfold inked
  rw [decode_spaces_append, List.filter_append, hspace, List.nil_append]

/-- A text prints what its pieces print. -/
theorem inked_intercalate {b : UInt8} (hb : b = 0x20 ∨ b = 0x0A) : ∀ {pieces : List Bytes},
    inked ([b].intercalate pieces) = pieces.flatMap inked
  | [] => rfl
  | [piece] => by simp
  | piece :: piece' :: pieces => by
    rw [List.intercalate_cons_cons, List.append_assoc, List.singleton_append, inked_append _ _ hb,
      inked_intercalate hb, List.flatMap_cons, List.flatMap_cons, List.flatMap_cons]

theorem flatMap_inked_splitOn {b : UInt8} (hb : b = 0x20 ∨ b = 0x0A) (utf8 : Bytes) :
    (utf8.splitOn b).flatMap inked = inked utf8 := by
  rw [← inked_intercalate hb, List.intercalate_splitOn]

theorem columnWidth_of_isSpace {c : ℕ} (h : isSpace c = true) : columnWidth c = 1 := by
  unfold isSpace at h
  rw [Bool.or_eq_true, decide_eq_true_iff, decide_eq_true_iff] at h
  rcases h with rfl | rfl <;> decide

/-- Lines that print a text are as wide as its characters, at least. -/
theorem columnWidth_le_of_lines {lines : List Bytes} {utf8 : Bytes} {columns : ℕ}
    (hkept : lines.flatMap inked = inked utf8) (hpos : 0 < columns)
    (hwidth : ∀ l ∈ lines, width l ≤ columns) : ∀ c ∈ decode utf8, columnWidth c ≤ columns := by
  intro c hc
  by_cases hspace : isSpace c = true
  · rw [columnWidth_of_isSpace hspace]
    exact hpos
  · have hmem : c ∈ lines.flatMap inked := by
      rw [hkept]
      exact List.mem_filter.mpr ⟨hc, by simpa using hspace⟩
    obtain ⟨l, hl, hcl⟩ := List.mem_flatMap.mp hmem
    exact Nat.le_trans (columnWidth_le (List.mem_filter.mp hcl).1) (hwidth l hl)

/-! ### Breaking at the edge -/

theorem decode_encodeAll_snoc {current : List ℕ} {c : ℕ}
    (hcurrent : ∀ d ∈ current, isScalar d = true) (hc : isScalar c = true) :
    encodeAll current ++ encode c = encodeAll (current ++ [c]) ∧
      ∀ d ∈ current ++ [c], isScalar d = true := by
  refine ⟨by simp [encodeAll], fun d hd => ?_⟩
  rcases List.mem_append.mp hd with hd | hd
  · exact hcurrent d hd
  · rw [List.mem_singleton.mp hd]
    exact hc

theorem charLines_spec {columns : ℕ} : ∀ {codepoints current : List ℕ},
    (∀ c ∈ codepoints, isScalar c = true) → (∀ c ∈ current, isScalar c = true) →
    ((charLines columns codepoints (encodeAll current) (pointsWidth current)).flatMap decode =
      current ++ codepoints) ∧
    (pointsWidth current ≤ columns → (∀ c ∈ codepoints, columnWidth c ≤ columns) →
      ∀ l ∈ charLines columns codepoints (encodeAll current) (pointsWidth current),
        width l ≤ columns)
  | [], current, _, hcurrent => by
    have hdecode := decode_encodeAll hcurrent
    refine ⟨by simp [charLines, hdecode], fun hle _ l hl => ?_⟩
    rw [charLines, List.mem_singleton] at hl
    rw [hl, width, hdecode]
    exact hle
  | c :: codepoints, current, hcodepoints, hcurrent => by
    have hc := hcodepoints c List.mem_cons_self
    have hrest : ∀ d ∈ codepoints, isScalar d = true := fun d hd =>
      hcodepoints d (List.mem_cons_of_mem c hd)
    have hdecode := decode_encodeAll hcurrent
    have hone : encode c = encodeAll [c] ∧ columnWidth c = pointsWidth [c] := by
      simp [encodeAll, pointsWidth]
    unfold charLines
    split_ifs with hbreak
    · -- a new line begins with the code point
      obtain ⟨hkept, hwidth⟩ := @charLines_spec columns codepoints [c] hrest (by simpa using hc)
      rw [hone.1, hone.2]
      refine ⟨by rw [List.flatMap_cons, hkept, hdecode]; simp, fun hle hall l hl => ?_⟩
      rcases List.mem_cons.mp hl with rfl | hl
      · rw [width, hdecode]
        exact hle
      · refine hwidth ?_ (fun d hd => hall d (List.mem_cons_of_mem c hd)) l hl
        rw [← hone.2]
        exact hall c List.mem_cons_self
    · obtain ⟨hencode, hscalar⟩ := decode_encodeAll_snoc hcurrent hc
      have hsum : pointsWidth current + columnWidth c = pointsWidth (current ++ [c]) := by
        rw [pointsWidth_append, hone.2]
      obtain ⟨hkept, hwidth⟩ := @charLines_spec columns codepoints (current ++ [c]) hrest hscalar
      rw [hencode, hsum]
      refine ⟨by rw [hkept]; simp, fun hle hall l hl => ?_⟩
      refine hwidth ?_ (fun d hd => hall d (List.mem_cons_of_mem c hd)) l hl
      have hwide := hall c List.mem_cons_self
      rw [← hsum]
      by_cases hempty : encodeAll current = []
      · have hnil : current = [] := by
          rw [← hdecode, hempty]
          rfl
        rw [hnil]
        simpa [pointsWidth] using hwide
      · have : ¬ columns < pointsWidth current + columnWidth c := fun h => hbreak ⟨h, hempty⟩
        omega

/-- The head of a well-formed token, and the rest of it. -/
theorem clip_spec {columns : ℕ} (hpos : 0 < columns) {token : Bytes} (htoken : WellFormed token) :
    ∃ rest, token = clip token columns ++ rest ∧ WellFormed rest ∧
      decode token = decode (clip token columns) ++ decode rest := by
  obtain ⟨more, hmore⟩ : fitting columns 0 (decode token) <+: decode token := prefix_of_fitting
  have hscalar : ∀ c ∈ more, isScalar c = true := fun c hc =>
    scalar_of_mem_decode (hmore ▸ List.mem_append_right _ hc)
  have hclip : clip token columns = encodeAll (fitting columns 0 (decode token)) :=
    if_neg (by omega)
  refine ⟨encodeAll more, ?_, wellFormed_encodeAll hscalar, ?_⟩
  · calc token = encodeAll (decode token) := (wellFormed_iff_encodeAll.mp htoken).symm
      _ = encodeAll (fitting columns 0 (decode token) ++ more) := by rw [hmore]
      _ = clip token columns ++ encodeAll more := by rw [encodeAll_append, hclip]
  · rw [decode_clip hpos, decode_encodeAll hscalar, hmore]

/-- A head is empty only before a code point that is wider than the line. -/
theorem wide_of_clip_eq_nil {columns : ℕ} (hpos : 0 < columns) {token : Bytes}
    (hwidth : columns < width token) (h : clip token columns = []) :
    ∃ c ∈ decode token, columns < columnWidth c := by
  have hfit := @decode_clip token columns hpos
  rw [h] at hfit
  unfold width at hwidth
  cases hd : decode token with
  | nil =>
    rw [hd] at hwidth
    exact absurd hwidth (Nat.not_lt_zero columns)
  | cons c points =>
    rw [hd, fitting] at hfit
    split_ifs at hfit with hc
    · exact ⟨c, List.mem_cons_self, by omega⟩
    · cases hfit

/-- A well-formed token is cut without a loss. -/
theorem hardBreak_spec {columns : ℕ} (hpos : 0 < columns) {token : Bytes}
    (htoken : WellFormed token) : ∃ heads rest, hardBreak columns token = some (heads, rest) ∧
      heads.flatMap decode ++ decode rest = decode token ∧ (∀ l ∈ heads, width l ≤ columns) ∧
      ((∀ c ∈ decode token, columnWidth c ≤ columns) → width rest ≤ columns) := by
  rw [hardBreak]
  obtain ⟨more, htoken', hmore, hdecode⟩ := clip_spec hpos htoken
  split_ifs with hfit hhead hlen
  · exact ⟨[], token, rfl, rfl, by simp, fun _ => hfit⟩
  · refine ⟨[], token, rfl, rfl, by simp, fun hall => ?_⟩
    obtain ⟨c, hc, hwide⟩ := wide_of_clip_eq_nil hpos (Nat.lt_of_not_le hfit) hhead
    exact absurd (hall c hc) (by omega)
  · have hle := congrArg List.length htoken'
    rw [List.length_append] at hle
    omega
  · have hdrop := congrArg (List.drop (clip token columns).length) htoken'
    rw [List.drop_left] at hdrop
    have hshorter : more.length < token.length := by
      have hle := congrArg List.length htoken'
      have hhead' := List.length_pos_of_ne_nil hhead
      rw [List.length_append] at hle
      omega
    obtain ⟨heads, rest, hbreak, hkept, hheads, hrest⟩ := hardBreak_spec hpos hmore
    rw [hdrop, hbreak]
    refine ⟨clip token columns :: heads, rest, rfl, ?_, ?_, fun hall => hrest fun c hc => ?_⟩
    · rw [List.flatMap_cons, List.append_assoc, hkept, hdecode]
    · exact List.forall_mem_cons.mpr ⟨width_clip_le token columns, hheads⟩
    · exact hall c (hdecode ▸ List.mem_append_right _ hc)
termination_by token.length

/-! ### Filling the lines -/

/-- A token that is kept whole, or is cut where it is written as it is read. -/
def Breakable (columns : ℕ) (token : Bytes) : Prop := WellFormed token ∨ width token ≤ columns

theorem width_append_space (current token : Bytes) :
    width (current ++ 0x20 :: token) = width current + 1 + width token := by
  have hspace : columnWidth 0x20 = 1 := by decide
  unfold width
  rw [decode_append_space, pointsWidth_append]
  unfold pointsWidth
  rw [List.map_cons, List.sum_cons, hspace, Nat.add_assoc]

theorem inked_flatMap_decode {heads : List Bytes} {rest token : Bytes}
    (h : heads.flatMap decode ++ decode rest = decode token) :
    heads.flatMap inked ++ inked rest = inked token := by
  unfold inked
  rw [← h, List.filter_append, List.filter_flatMap]

theorem inked_pending (current : Bytes) :
    (if current = [] then [] else [current]).flatMap inked = inked current := by
  split_ifs with h
  · rw [h]
    rfl
  · simp

theorem mem_pending {current l : Bytes} (h : l ∈ if current = [] then [] else [current]) :
    l = current := by
  split_ifs at h
  · cases h
  · exact List.mem_singleton.mp h

/-- The lines print the tokens, and are no wider than the columns while the tokens' characters
are not. -/
theorem fillLines_spec {columns : ℕ} (hpos : 0 < columns) : ∀ {tokens : List Bytes}
    {current : Bytes} {used : ℕ}, (∀ token ∈ tokens, Breakable columns token) →
    used = width current → ∃ lines, fillLines columns tokens current used = some lines ∧
      lines.flatMap inked = inked current ++ tokens.flatMap inked ∧
      (width current ≤ columns → (∀ token ∈ tokens, ∀ c ∈ decode token, columnWidth c ≤ columns) →
        ∀ l ∈ lines, width l ≤ columns)
  | [], current, used, _, _ => ⟨[current], rfl, by simp, by simp⟩
  | token :: tokens, current, used, hall, hused => by
    obtain ⟨htoken, hrest⟩ := List.forall_mem_cons.mp hall
    rw [fillLines]
    by_cases hempty : token = []
    · -- an empty token prints nothing
      obtain ⟨lines, hlines, hkept, hwidth⟩ := fillLines_spec hpos hrest hused
      rw [if_pos hempty]
      refine ⟨lines, hlines, by rw [hkept, List.flatMap_cons, hempty]; rfl, fun hle hwide => ?_⟩
      exact hwidth hle (List.forall_mem_cons.mp hwide).2
    rw [if_neg hempty]
    by_cases hlong : columns < width token
    · -- the token is cut, behind the line that was open
      obtain ⟨heads, rest, hbreak, hdecode, hheads, hwidth'⟩ :=
        hardBreak_spec hpos (htoken.resolve_right (by omega))
      obtain ⟨lines, hlines, hkept, hwidth⟩ := @fillLines_spec columns hpos tokens rest _ hrest rfl
      rw [if_pos hlong, hbreak, Option.bind_some, hlines, Option.map_some]
      refine ⟨_, rfl, ?_, fun hle hwide => ?_⟩
      · rw [List.flatMap_append, List.flatMap_append, inked_pending, hkept, List.flatMap_cons,
          ← inked_flatMap_decode hdecode]
        simp only [List.append_assoc]
      · obtain ⟨hwide, hwide'⟩ := List.forall_mem_cons.mp hwide
        intro l hl
        rw [List.mem_append, List.mem_append] at hl
        rcases hl with (hl | hl) | hl
        · rw [mem_pending hl]
          exact hle
        · exact hheads l hl
        · exact hwidth (hwidth' hwide) hwide' l hl
    rw [if_neg hlong]
    by_cases hcurrent : current = []
    · obtain ⟨lines, hlines, hkept, hwidth⟩ := @fillLines_spec columns hpos tokens token _ hrest rfl
      rw [if_pos hcurrent]
      refine ⟨lines, hlines, by rw [hkept, hcurrent, List.flatMap_cons]; rfl, fun _ hwide => ?_⟩
      exact hwidth (by omega) (List.forall_mem_cons.mp hwide).2
    rw [if_neg hcurrent]
    by_cases hfits : used + 1 + width token ≤ columns
    · have hsum : used + 1 + width token = width (current ++ 0x20 :: token) := by
        rw [width_append_space, hused]
      obtain ⟨lines, hlines, hkept, hwidth⟩ := fillLines_spec hpos hrest hsum
      rw [if_pos hfits]
      refine ⟨lines, hlines, ?_, fun _ hwide => ?_⟩
      · rw [hkept, inked_append _ _ (.inl rfl), List.flatMap_cons, List.append_assoc]
      · exact hwidth (by omega) (List.forall_mem_cons.mp hwide).2
    · obtain ⟨lines, hlines, hkept, hwidth⟩ := @fillLines_spec columns hpos tokens token _ hrest rfl
      rw [if_neg hfits, hlines]
      refine ⟨current :: lines, rfl, ?_, fun hle hwide => ?_⟩
      · rw [List.flatMap_cons, hkept, List.flatMap_cons]
      · exact List.forall_mem_cons.mpr
          ⟨hle, hwidth (by omega) (List.forall_mem_cons.mp hwide).2⟩

/-! ### Paragraphs -/

/-- The columns that the lines of a paragraph have, behind its indent. -/
def room (mode : Wrap) (paragraph : Bytes) (columns : ℕ) : ℕ :=
  if mode = .word ∧ indentOf paragraph < columns then columns - indentOf paragraph else columns

/-- The words that have to be cut are written as they are read. -/
def Soft (mode : Wrap) (paragraph : Bytes) (columns : ℕ) : Prop :=
  mode = .word → ∀ token ∈ paragraph.splitOn 0x20, Breakable (room mode paragraph columns) token

theorem splitOn_spaces_append (text : Bytes) : ∀ n,
    (spaces n ++ text).splitOn 0x20 = List.replicate n [] ++ text.splitOn 0x20
  | 0 => rfl
  | n + 1 => by
    have hcons : spaces (n + 1) ++ text = [] ++ 0x20 :: (spaces n ++ text) := rfl
    rw [hcons, List.splitOn_append_cons_self_of_not_mem (by simp), splitOn_spaces_append text n,
      List.replicate_succ, List.cons_append]

/-- A paragraph is its indent and what begins with no space. -/
theorem indent_spec : ∀ paragraph : Bytes, ∃ body,
    paragraph = spaces (indentOf paragraph) ++ body ∧
      paragraph.drop (indentOf paragraph) = body ∧ indentOf body = 0
  | [] => ⟨[], rfl, rfl, rfl⟩
  | b :: rest => by
    by_cases hb : b = 0x20
    · obtain ⟨body, hrest, hdrop, hbody⟩ := indent_spec rest
      have hindent : indentOf (b :: rest) = indentOf rest + 1 := by
        unfold indentOf
        rw [List.takeWhile_cons_of_pos (by simpa using hb), List.length_cons]
      refine ⟨body, ?_, by rw [hindent, List.drop_succ_cons, hdrop], hbody⟩
      rw [hindent]
      unfold spaces at hrest ⊢
      rw [List.replicate_succ, List.cons_append, ← hrest, hb]
    · have hindent : indentOf (b :: rest) = 0 := by
        unfold indentOf
        rw [List.takeWhile_cons_of_neg (by simpa using hb), List.length_nil]
      exact ⟨b :: rest, by rw [hindent]; rfl, by rw [hindent]; rfl, hindent⟩

theorem wrapParagraph_word {paragraph : Bytes} {columns : ℕ} (h : indentOf paragraph = 0) :
    wrapParagraph .word paragraph columns = fillLines columns (paragraph.splitOn 0x20) [] 0 := by
  rw [wrapParagraph]
  by_cases hempty : paragraph = []
  · rw [if_pos hempty, hempty]
    rfl
  · rw [if_neg hempty, if_neg (by omega)]

theorem mem_decode_intercalate {b : UInt8} (hb : b.toNat < 0x80) {c : ℕ} {piece : Bytes}
    (hc : c ∈ decode piece) :
    ∀ {pieces : List Bytes}, piece ∈ pieces → c ∈ decode ([b].intercalate pieces)
  | [], h => by cases h
  | [piece'], h => by
    rw [List.intercalate_singleton, ← List.mem_singleton.mp h]
    exact hc
  | piece' :: piece'' :: pieces, h => by
    rw [List.intercalate_cons_cons, List.append_assoc, List.singleton_append,
      decode_append _ _ hb]
    rcases List.mem_cons.mp h with rfl | h
    · exact List.mem_append_left _ hc
    · exact List.mem_append_right _ (List.mem_cons_of_mem _ (mem_decode_intercalate hb hc h))

theorem mem_decode_of_piece {b : UInt8} (hb : b.toNat < 0x80) {c : ℕ} {piece text : Bytes}
    (ht : piece ∈ text.splitOn b) (hc : c ∈ decode piece) : c ∈ decode text := by
  have h := mem_decode_intercalate hb hc ht
  rwa [List.intercalate_splitOn] at h

/-- The words of a text fill lines that print it, and that fit just if its characters do. -/
theorem words_spec {body : Bytes} {columns : ℕ} (hpos : 0 < columns)
    (htokens : ∀ token ∈ body.splitOn 0x20, Breakable columns token) :
    ∃ lines, fillLines columns (body.splitOn 0x20) [] 0 = some lines ∧
      lines.flatMap inked = inked body ∧
      ((∀ l ∈ lines, width l ≤ columns) ↔ ∀ c ∈ decode body, columnWidth c ≤ columns) := by
  obtain ⟨lines, hlines, hkept, hwidth⟩ := @fillLines_spec columns hpos _ [] 0 htokens rfl
  have hkept' : lines.flatMap inked = inked body := by
    rw [hkept, flatMap_inked_splitOn (.inl rfl)]
    rfl
  refine ⟨lines, hlines, hkept', columnWidth_le_of_lines hkept' hpos, fun hall => ?_⟩
  exact hwidth (Nat.zero_le columns) fun token ht c hc => hall c (mem_decode_of_piece (by decide) ht hc)

theorem width_spaces_append (n : ℕ) (text : Bytes) : width (spaces n ++ text) = n + width text := by
  unfold width
  rw [decode_spaces_append, pointsWidth_append, pointsWidth_replicate_space]

/-- The lines of a paragraph print it behind its indent, and fit just if its characters do. -/
structure Broken (mode : Wrap) (columns : ℕ) (paragraph : Bytes) (lines : List Bytes) : Prop where
  kept : lines.flatMap inked = inked paragraph
  fits : (∀ l ∈ lines, width l ≤ columns) ↔
    ∀ c ∈ decode paragraph, columnWidth c ≤ room mode paragraph columns
  indented : ∀ l ∈ lines, ∃ text, l = spaces (columns - room mode paragraph columns) ++ text

theorem broken_word {paragraph : Bytes} {columns : ℕ} (hpos : 0 < columns)
    (hsoft : Soft .word paragraph columns) :
    ∃ lines, wrapParagraph .word paragraph columns = some lines ∧
      Broken .word columns paragraph lines := by
  obtain ⟨body, hparagraph, hdrop, hbody⟩ := indent_spec paragraph
  obtain ⟨n, hn⟩ : ∃ n, n = indentOf paragraph := ⟨_, rfl⟩
  have htokens := hsoft rfl
  have hzero : n ≠ 0 → paragraph ≠ [] := by
    intro hne h
    rw [h] at hn
    exact hne hn
  have hroom : room .word paragraph columns = if n < columns then columns - n else columns := by
    unfold room
    rw [← hn]
    simp
  rw [hroom] at htokens
  rw [← hn] at hparagraph hdrop
  by_cases hindent : 0 < n ∧ n < columns
  · -- the lines of the body, behind the indent
    rw [if_pos hindent.2] at htokens hroom
    have hinner : ∀ token ∈ body.splitOn 0x20, Breakable (columns - n) token := by
      intro token ht
      refine htokens token ?_
      rw [hparagraph, splitOn_spaces_append]
      exact List.mem_append_right _ ht
    obtain ⟨inner, hlines, hkept, hwidth⟩ := words_spec (by omega) hinner
    rw [wrapParagraph, if_neg (hzero (by omega)), ← hn, if_pos hindent, hdrop,
      wrapParagraph_word hbody, hlines]
    refine ⟨_, rfl, ?_, ?_, ?_⟩
    · rw [List.flatMap_map]
      simp only [inked_spaces_append]
      rw [hkept, hparagraph, inked_spaces_append]
    · rw [hroom]
      have hspace : columnWidth 0x20 = 1 := by decide
      have hdecode : decode paragraph = List.replicate n 0x20 ++ decode body := by
        rw [hparagraph, decode_spaces_append]
      rw [hdecode]
      constructor
      · intro hall c hc
        rcases List.mem_append.mp hc with hc | hc
        · rw [List.eq_of_mem_replicate hc, hspace]
          omega
        · refine hwidth.mp (fun l hl => ?_) c hc
          have := hall (spaces n ++ l) (List.mem_map_of_mem hl)
          rw [width_spaces_append] at this
          omega
      · intro hall l hl
        obtain ⟨l', hl', rfl⟩ := List.mem_map.mp hl
        have := hwidth.mpr (fun c hc => hall c (List.mem_append_right _ hc)) l' hl'
        rw [width_spaces_append]
        omega
    · intro l hl
      obtain ⟨text, -, rfl⟩ := List.mem_map.mp hl
      have hdent : columns - room .word paragraph columns = n := by omega
      exact ⟨text, by rw [hdent]⟩
  · have hwhole : (if n < columns then columns - n else columns) = columns := by
      split_ifs <;> omega
    rw [hwhole] at htokens hroom
    have hflat : wrapParagraph .word paragraph columns =
        fillLines columns (paragraph.splitOn 0x20) [] 0 := by
      by_cases hn0 : n = 0
      · exact wrapParagraph_word (hn ▸ hn0)
      · rw [wrapParagraph, if_neg (hzero hn0), ← hn, if_neg hindent]
    obtain ⟨lines, hlines, hkept, hwidth⟩ := words_spec hpos htokens
    refine ⟨lines, hflat.trans hlines, hkept, by rw [hroom]; exact hwidth, fun l _ => ⟨l, ?_⟩⟩
    rw [hroom, Nat.sub_self]
    rfl

theorem broken_char {paragraph : Bytes} {columns : ℕ} (hpos : 0 < columns) :
    ∃ lines, wrapParagraph .char paragraph columns = some lines ∧
      Broken .char columns paragraph lines := by
  have hroom : room .char paragraph columns = columns := if_neg (by simp)
  have hindented : ∀ l : Bytes, ∃ text,
      l = spaces (columns - room .char paragraph columns) ++ text := by
    intro l
    rw [hroom, Nat.sub_self]
    exact ⟨l, rfl⟩
  by_cases hempty : paragraph = []
  · rw [wrapParagraph, if_pos hempty]
    refine ⟨[[]], rfl, by rw [hempty]; rfl, ?_, fun l _ => hindented l⟩
    rw [hempty]
    simp [decode, decodeFrom, width, pointsWidth]
  · obtain ⟨hkept, hwidth⟩ := @charLines_spec columns (decode paragraph) []
      (fun _ => scalar_of_mem_decode) (by simp)
    have hpoints : (charLines columns (decode paragraph) [] 0).flatMap decode =
        decode paragraph := hkept
    have hinked : (charLines columns (decode paragraph) [] 0).flatMap inked = inked paragraph := by
      calc (charLines columns (decode paragraph) [] 0).flatMap inked
          = ((charLines columns (decode paragraph) [] 0).flatMap decode).filter
              fun c => !isSpace c := List.filter_flatMap.symm
        _ = inked paragraph := by rw [hpoints]; rfl
    rw [wrapParagraph, if_neg hempty]
    refine ⟨_, rfl, hinked, ?_, fun l _ => hindented l⟩
    rw [hroom]
    exact ⟨columnWidth_le_of_lines hinked hpos, hwidth (Nat.zero_le columns)⟩

/-- What a paragraph that is broken at words or at the edge becomes. -/
theorem wrapParagraph_spec {mode : Wrap} {paragraph : Bytes} {columns : ℕ} (hpos : 0 < columns)
    (hmode : mode = .word ∨ mode = .char) (hsoft : Soft mode paragraph columns) :
    ∃ lines, wrapParagraph mode paragraph columns = some lines ∧
      Broken mode columns paragraph lines := by
  rcases hmode with rfl | rfl
  · exact broken_word hpos hsoft
  · exact broken_char hpos

/-! ### Whole texts -/

/-- **What wrapping at words or at the edge makes of the paragraphs of a text.** -/
theorem wrap_spec {mode : Wrap} {utf8 : Bytes} {columns : ℕ} (hpos : 0 < columns)
    (hmode : mode = .word ∨ mode = .char)
    (hsoft : ∀ paragraph ∈ utf8.splitOn 0x0A, Soft mode paragraph columns) :
    ∃ lines, wrap utf8 columns mode = some lines.flatten ∧
      List.Forall₂ (Broken mode columns) (utf8.splitOn 0x0A) lines := by
  obtain ⟨lines, hmap, hall⟩ := exists_mapM
    (fun paragraph hp => wrapParagraph_spec hpos hmode (hsoft paragraph hp))
  refine ⟨lines, ?_, hall⟩
  unfold wrap
  rw [if_neg (by omega), hmap]
  rfl

section

variable {mode : Wrap} {columns : ℕ}

theorem Broken.kept_all : ∀ {paragraphs : List Bytes} {lines : List (List Bytes)},
    List.Forall₂ (Broken mode columns) paragraphs lines →
      lines.flatten.flatMap inked = paragraphs.flatMap inked
  | [], _, .nil => rfl
  | _ :: _, _, .cons h hs => by
    rw [List.flatten_cons, List.flatMap_append, h.kept, Broken.kept_all hs, List.flatMap_cons]

theorem Broken.fits_all : ∀ {paragraphs : List Bytes} {lines : List (List Bytes)},
    List.Forall₂ (Broken mode columns) paragraphs lines →
      ((∀ l ∈ lines.flatten, width l ≤ columns) ↔ ∀ paragraph ∈ paragraphs,
        ∀ c ∈ decode paragraph, columnWidth c ≤ room mode paragraph columns)
  | [], _, .nil => by simp
  | _ :: _, _, .cons h hs => by
    rw [List.flatten_cons, List.forall_mem_append, h.fits, Broken.fits_all hs, List.forall_mem_cons]

end

theorem wellFormed_of_mem_splitOn {b : UInt8} (hb : b.toNat < 0x80) {piece utf8 : Bytes}
    (h : WellFormed utf8) (hp : piece ∈ utf8.splitOn b) : WellFormed piece := by
  have hall : ∀ {pieces : List Bytes}, WellFormed ([b].intercalate pieces) →
      ∀ piece ∈ pieces, WellFormed piece := by
    intro pieces
    induction pieces with
    | nil => simp
    | cons piece pieces ih =>
      cases pieces with
      | nil => simp
      | cons piece' pieces =>
        rw [List.intercalate_cons_cons, List.append_assoc, List.singleton_append,
          wellFormed_append hb]
        rintro ⟨hpiece, hpieces⟩
        exact List.forall_mem_cons.mpr ⟨hpiece, ih hpieces⟩
  exact hall (by rwa [List.intercalate_splitOn]) piece hp

/-- Every word of a well-formed text is. -/
theorem soft_of_wellFormed {mode : Wrap} {utf8 : Bytes} {columns : ℕ} (h : WellFormed utf8) :
    ∀ paragraph ∈ utf8.splitOn 0x0A, Soft mode paragraph columns := fun _ hp _ _ ht =>
  .inl (wellFormed_of_mem_splitOn (by decide) (wellFormed_of_mem_splitOn (by decide) h hp) ht)

theorem width_ellipsize_le (utf8 : Bytes) (columns : ℕ) : width (ellipsize utf8 columns) ≤ columns := by
  unfold ellipsize
  split_ifs with hfits hshort
  · exact hfits
  · exact width_clip_le utf8 columns
  · have hle := width_clip_le utf8 (columns - 3)
    have hdots : decode (clip utf8 (columns - 3) ++ str "...") =
        decode (clip utf8 (columns - 3)) ++ [0x2E, 0x2E, 0x2E] :=
      decode_append (clip utf8 (columns - 3)) [0x2E, 0x2E] (by decide)
    have hthree : pointsWidth [0x2E, 0x2E, 0x2E] = 3 := by decide
    unfold width at hle ⊢
    rw [hdots, pointsWidth_append, hthree]
    omega

/-- Clipping and ellipsis fit every text into the columns. -/
theorem wrap_short {mode : Wrap} {utf8 : Bytes} {columns : ℕ} (hpos : 0 < columns)
    (hmode : mode = .clip ∨ mode = .ellipsis) :
    ∃ lines, wrap utf8 columns mode = some lines ∧ ∀ l ∈ lines, width l ≤ columns := by
  have hone : ∀ paragraph ∈ utf8.splitOn 0x0A, ∃ lines,
      wrapParagraph mode paragraph columns = some lines ∧ ∀ l ∈ lines, width l ≤ columns := by
    intro paragraph _
    rcases hmode with rfl | rfl
    · exact ⟨[clip paragraph columns], by rw [wrapParagraph], by simp [width_clip_le]⟩
    · exact ⟨[ellipsize paragraph columns], by rw [wrapParagraph], by simp [width_ellipsize_le]⟩
  obtain ⟨lines, hmap, hall⟩ := @exists_mapM Bytes (List Bytes)
    (fun paragraph => wrapParagraph mode paragraph columns)
    (fun _ lines => ∀ l ∈ lines, width l ≤ columns) _ hone
  refine ⟨lines.flatten, ?_, fun l hl => ?_⟩
  · unfold wrap
    rw [if_neg (by omega), hmap]
    rfl
  · obtain ⟨bs, hbs, hl⟩ := List.mem_flatten.mp hl
    obtain ⟨i, hi, rfl⟩ := List.mem_iff_getElem.mp hbs
    exact hall.get (by rw [hall.length_eq]; exact hi) hi l hl

/-! ### Which texts are wrapped well -/

/-- The text comes out in lines that fit and, where it is not shortened, print all of it; and what
fits is padded to the columns exactly. -/
def Wraps (utf8 : Bytes) (columns : ℕ) (mode : Wrap) : Prop :=
  ∃ lines, wrap utf8 columns mode = some lines ∧ (∀ l ∈ lines, width l ≤ columns) ∧
    (mode = .word ∨ mode = .char → lines.flatMap inked = inked utf8) ∧
    ∀ line n align, width line ≤ n → width (pad line n align) = n

/-- A paragraph has an indent that leaves a single column, and a wide character. -/
def Cramped (utf8 : Bytes) (columns : ℕ) : Prop :=
  ∃ paragraph ∈ utf8.splitOn 0x0A, indentOf paragraph + 1 = columns ∧
    ∃ c ∈ decode paragraph, columnWidth c = 2

theorem columnWidth_le_two (c : ℕ) : columnWidth c ≤ 2 := by
  unfold columnWidth
  split_ifs <;> omega

/-- **Which texts are wrapped well.** -/
theorem wraps_iff {utf8 : Bytes} {columns : ℕ} {mode : Wrap} (h : WellFormed utf8)
    (hcolumns : 2 ≤ columns) :
    Wraps utf8 columns mode ↔ ¬ (mode = .word ∧ Cramped utf8 columns) := by
  have hpad : ∀ line n align, width line ≤ n → width (pad line n align) = n :=
    fun line n align _ => width_pad line n align
  by_cases hmode : mode = .word ∨ mode = .char
  · obtain ⟨lines, hlines, hbroken⟩ := wrap_spec (by omega) hmode
      (@soft_of_wellFormed mode utf8 columns h)
    have hwidth := Broken.fits_all hbroken
    have hkept : lines.flatten.flatMap inked = inked utf8 := by
      rw [Broken.kept_all hbroken, flatMap_inked_splitOn (.inr rfl)]
    constructor
    · rintro ⟨lines', hlines', hfit, -⟩ ⟨rfl, paragraph, hp, hindent, c, hc, hwide⟩
      obtain rfl := Option.some.inj (hlines.symm.trans hlines')
      have hle := hwidth.mp hfit paragraph hp c hc
      have hroom : room .word paragraph columns = 1 := by
        unfold room
        rw [if_pos ⟨rfl, by omega⟩]
        omega
      omega
    · intro hfine
      refine ⟨lines.flatten, hlines, hwidth.mpr fun paragraph hp c hc => ?_, fun _ => hkept, hpad⟩
      have htwo := columnWidth_le_two c
      unfold room
      split_ifs with hindent
      · by_contra hlt
        exact hfine ⟨hindent.1, paragraph, hp, by omega, c, hc, by omega⟩
      · omega
  · have hshort : mode = .clip ∨ mode = .ellipsis := by
      cases mode <;> simp_all
    obtain ⟨lines, hlines, hfit⟩ := @wrap_short mode utf8 columns (by omega) hshort
    exact iff_of_true ⟨lines, hlines, hfit, fun hm => absurd hm hmode, hpad⟩
      fun hm => hmode (.inl hm.1)

/-- Two letters and a space. -/
theorem wraps_letters : Wraps [0x61, 0x20, 0x62] 2 .word := by
  refine (wraps_iff ⟨[0x61, 0x20, 0x62], by decide, by decide⟩ (by decide)).mpr ?_
  rintro ⟨-, paragraph, hp, hindent, -⟩
  have hone : paragraph = [0x61, 0x20, 0x62] := by
    have hsplit : [(0x61 : UInt8), 0x20, 0x62].splitOn 0x0A = [[0x61, 0x20, 0x62]] := by decide
    rwa [hsplit, List.mem_singleton] at hp
  rw [hone] at hindent
  revert hindent
  decide

/-- A wide character behind one space, in two columns. -/
def indentedWide : Bytes := [0x20, 0xE4, 0xB8, 0xAD]

theorem not_wraps_indentedWide : WellFormed indentedWide ∧ ¬ Wraps indentedWide 2 .word := by
  have hwell : WellFormed indentedWide := ⟨[0x20, 0x4E2D], by decide, by decide⟩
  refine ⟨hwell, ?_⟩
  rintro ⟨lines', hlines', hfit, -⟩
  obtain ⟨lines, hlines, hbroken⟩ := wrap_spec (by decide) (.inl rfl)
    (@soft_of_wellFormed .word indentedWide 2 hwell)
  obtain rfl := Option.some.inj (hlines.symm.trans hlines')
  have hle := (Broken.fits_all hbroken).mp hfit indentedWide (by decide) 0x4E2D (by decide)
  revert hle
  decide

end PrinterDriver.Dsl.Wrapping
