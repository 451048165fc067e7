import PrinterDriver.Dsl.DocumentReader
import PrinterDriver.Dsl.DocumentWriter

/-! # Leaves round trip

What the writer makes of a style, of a width and of a block that holds no other is read back as it, without
a warning (`parseLeaf_stored`). What no block of its kind uses is not kept: the lines of a feed in dots, the
size of a picture without grayscale. -/

namespace PrinterDriver.Dsl.LeafRoundTrips

open PrinterDriver.Core.Types PrinterDriver.Core.Encoder PrinterDriver.Dsl.Values
open PrinterDriver.Dsl.Documents PrinterDriver.Dsl.Base64 PrinterDriver.Lib.Keyed
open PrinterDriver.Lib.Reading PrinterDriver.Dsl.DocumentReader PrinterDriver.Dsl.DocumentWriter
open PrinterDriver.Dsl.Render (Align Underline Dither QrEc)

/-! ### Objects -/

section
variable {ν : Type} {fields : List (Bytes × Option (Json ν))} {key : Bytes}

/-- The members that there are. -/
def present (fields : List (Bytes × Option (Json ν))) : List (Bytes × Json ν) :=
  fields.filterMap fun field => field.2.map (field.1, ·)

theorem setAll_append {out : List (Bytes × Json ν)}
    (h : (out.map Prod.fst ++ fields.map Prod.fst).Nodup) :
    setAll (.object out) fields = .object (out ++ present fields) := by
  induction fields generalizing out with
  | nil => simp [setAll, present]
  | cons field fields ih =>
    obtain ⟨key, value⟩ := field
    have hstep : setAll (.object out) ((key, value) :: fields) =
        setAll ((value.map (set (.object out) key)).getD (.object out)) fields := rfl
    rw [hstep]
    rw [List.map_cons] at h
    have hrest : (out.map Prod.fst ++ fields.map Prod.fst).Nodup :=
      h.sublist (List.Sublist.append_left (List.sublist_cons_self _ _) _)
    rcases value with _ | value
    · exact ih hrest
    · have hfresh : ∀ member ∈ out, member.1 ≠ key := by
        intro member hm he
        have hdisjoint := List.disjoint_of_nodup_append h
        exact hdisjoint (List.mem_map.mpr ⟨member, hm, he⟩) List.mem_cons_self
      have hset : set (.object out) key value = .object (out ++ [(key, value)]) :=
        congrArg Json.object (upsert_fresh Prod.fst hfresh)
      rw [Option.map_some, Option.getD_some, hset, ih, List.append_assoc]
      · rfl
      · rw [List.map_append, List.append_assoc]
        exact h

/-- Members that are set once each stand in the order in which they are set. -/
theorem setAll_eq (h : (fields.map Prod.fst).Nodup) :
    setAll (.object []) fields = .object (present fields) :=
  setAll_append (by simpa using h)

theorem key_of_mem_present {member : Bytes × Json ν} (h : member ∈ present fields) :
    member.1 ∈ fields.map Prod.fst := by
  obtain ⟨field, hfield, hvalue⟩ := List.mem_filterMap.mp h
  obtain ⟨value, -, rfl⟩ := Option.map_eq_some_iff.mp hvalue
  exact List.mem_map.mpr ⟨field, hfield, rfl⟩

theorem find_present_of_not_mem (h : key ∉ fields.map Prod.fst) :
    (Json.object (present fields)).find key = none := by
  have hnone : (present fields).find? (fun member => member.1 = key) = none := by
    rw [List.find?_eq_none]
    intro member hm he
    exact h (of_decide_eq_true he ▸ key_of_mem_present hm)
  rw [Json.find, hnone]
  rfl

theorem find_present_of_mem {value : Option (Json ν)} (hnodup : (fields.map Prod.fst).Nodup)
    (h : (key, value) ∈ fields) : (Json.object (present fields)).find key = value := by
  induction fields with
  | nil => exact absurd h List.not_mem_nil
  | cons field fields ih =>
    obtain ⟨k, v⟩ := field
    rw [List.map_cons, List.nodup_cons] at hnodup
    obtain ⟨hfresh, hnodup⟩ := hnodup
    rcases List.mem_cons.mp h with heq | htail
    · obtain ⟨rfl, rfl⟩ := Prod.mk.inj heq
      rcases value with _ | value
      · have hpresent : present ((key, none) :: fields) = present fields := rfl
        rw [hpresent]
        exact find_present_of_not_mem hfresh
      · have hpresent : present ((key, some value) :: fields) = (key, value) :: present fields := rfl
        rw [hpresent, Json.find, List.find?_cons_of_pos (by simp)]
        rfl
    · have hne : k ≠ key := by
        rintro rfl
        exact hfresh (List.mem_map.mpr ⟨_, htail, rfl⟩)
      rw [← ih hnodup htail]
      rcases v with _ | v
      · rfl
      · have hpresent : present ((k, some v) :: fields) = (k, v) :: present fields := rfl
        rw [hpresent, Json.find, List.find?_cons_of_neg (by simpa using hne)]
        rfl

theorem find_field (hnodup : (fields.map Prod.fst).Nodup) (i : ℕ) {value : Option (Json ν)}
    (h : fields[i]? = some (key, value)) : (Json.object (present fields)).find key = value :=
  find_present_of_mem hnodup (List.mem_of_getElem? h)

theorem find_pair_first {first second : Bytes} {a b : Json ν} :
    (Json.object [(first, a), (second, b)]).find first = some a := by
  rw [Json.find, List.find?_cons_of_pos (by simp)]
  rfl

theorem find_pair_second {first second : Bytes} {a b : Json ν} (h : first ≠ second) :
    (Json.object [(first, a), (second, b)]).find second = some b := by
  have hnodup : ([(first, some a), (second, some b)].map Prod.fst).Nodup := by simpa using h
  exact find_field hnodup 1 rfl

theorem find_pair_none {first second key : Bytes} {a b : Json ν} (hfirst : first ≠ key)
    (hsecond : second ≠ key) : (Json.object [(first, a), (second, b)]).find key = none := by
  have hout : key ∉ [(first, some a), (second, some b)].map Prod.fst := by
    simp [Ne.symm hfirst, Ne.symm hsecond]
  exact find_present_of_not_mem hout

/-- A reader that asked for all of the keys has nothing to warn about. -/
theorem finish_present {seen : List Bytes} (h : ∀ k ∈ fields.map Prod.fst, k ∈ seen)
    (place : Bytes) : finish (.object (present fields)) place seen = pure () := by
  have hnone : (present fields).filter (fun member => member.1 ∉ seen) = [] := by
    rw [List.filter_eq_nil_iff]
    intro member hm hout
    exact of_decide_eq_true hout (h _ (key_of_mem_present hm))
  rw [finish, hnone]
  rfl

end

/-! ### Members -/

/-- The values of an `int`. -/
def IsInt (n : ℤ) : Prop := -2 ^ 31 ≤ n ∧ n < 2 ^ 31

/-- Every `int` is a `double`. -/
def Exact (ν : Type) [Doubles ν] : Prop :=
  ∀ n, IsInt n → Doubles.round (Doubles.ofInt n : ν) = some n

theorem isInt_bmod (n : ℤ) : IsInt (n.bmod (2 ^ 32)) := by
  have hlow := Int.le_bmod (x := n) (m := 2 ^ 32) (by decide)
  have hhigh := Int.bmod_lt (x := n) (m := 2 ^ 32) (by decide)
  unfold IsInt
  omega

theorem bmod_of_isInt {n : ℤ} (h : IsInt n) : n.bmod (2 ^ 32) = n := by
  unfold IsInt at h
  exact Int.bmod_eq_of_le (by omega) (by omega)

section
variable {ν : Type} {json : Json ν} {key : Bytes}

theorem readText_eq {text : Option Bytes} (h : json.find key = text.map .string) :
    readText json key = text := by
  rw [readText, h]
  rcases text with _ | text <;> rfl

theorem readBool_eq {value : Option Bool} (h : json.find key = value.map .boolean) :
    readBool json key = value := by
  rw [readBool, h]
  rcases value with _ | value <;> rfl

/-- A name that is written is known. -/
theorem readText_named {α : Type} {name : α → Bytes} {value : Option α}
    (h : json.find key = value.map fun a => .string (name a)) :
    readText json key = value.map name := by
  refine readText_eq ?_
  rw [h, Option.map_map]
  rfl

theorem readNamed_eq {α : Type} {name : α → Bytes} {parse : Bytes → Option α} {value : Option α}
    (hparse : ∀ a, parse (name a) = some a)
    (h : json.find key = value.map fun a => .string (name a)) (place : Bytes) :
    readNamed json place key parse = pure value := by
  rw [readNamed, readText_named h]
  rcases value with _ | a
  · rfl
  · rw [Option.map_some]
    dsimp only
    rw [hparse]

theorem readQuietly_eq {α : Type} {name : α → Bytes} {parse : Bytes → Option α} {value : Option α}
    (hparse : ∀ a, parse (name a) = some a)
    (h : json.find key = value.map fun a => .string (name a)) :
    readQuietly json key parse = value := by
  rw [readQuietly, readText_named h]
  rcases value with _ | a
  · rfl
  · exact hparse a

/-- A string that is left out is empty. -/
theorem readString_differing {text : Bytes} (h : json.find key = differing [] text .string) :
    readString json key = text := by
  unfold differing at h
  by_cases htext : text = []
  · rw [if_pos htext] at h
    rw [readString, @readText_eq _ _ _ none h, htext]
    rfl
  · rw [if_neg htext] at h
    rw [readString, @readText_eq _ _ _ (some text) h]
    rfl

/-- A name that is left out is the default. -/
theorem readQuietly_differing {α : Type} [DecidableEq α] {json : Json ν} {key : Bytes}
    {name : α → Bytes} {parse : Bytes → Option α} {default value : α}
    (hparse : ∀ a, parse (name a) = some a)
    (h : json.find key = differing default value fun a => .string (name a)) :
    (readQuietly json key parse).getD default = value := by
  unfold differing at h
  by_cases hvalue : value = default
  · rw [if_pos hvalue] at h
    rw [@readQuietly_eq _ _ _ _ _ _ none hparse h, hvalue]
    rfl
  · rw [if_neg hvalue] at h
    rw [@readQuietly_eq _ _ _ _ _ _ (some value) hparse h]
    rfl

theorem readWithDefault_eq {α : Type} {json : Json ν} {key : Bytes} {name : α → Bytes}
    {parse : Bytes → Option α} {value : α} (hparse : ∀ a, parse (name a) = some a)
    (h : json.find key = some (.string (name value))) (default : α) (warning : Bytes → Bytes) :
    readWithDefault json key parse default warning = pure value := by
  have hname : readText json key = some (name value) := @readText_eq _ _ _ (some (name value)) h
  rw [readWithDefault, hname]
  dsimp only
  rw [hparse]

variable [Doubles ν]

theorem toInt_ofInt (hexact : Exact ν) {n : ℤ} (hn : IsInt n) : toInt (Json.ofInt n : Json ν) = n := by
  have hround : asInt (Json.ofInt n : Json ν) = n := by
    show (Doubles.round (Doubles.ofInt n : ν)).getD 0 = n
    rw [hexact n hn]
    rfl
  rw [toInt, hround, bmod_of_isInt hn]

theorem readInt_eq (hexact : Exact ν) {n : Option ℤ} (hn : ∀ i ∈ n, IsInt i)
    (h : json.find key = n.map .ofInt) : readInt json key = n := by
  rw [readInt, h]
  rcases n with _ | n
  · rfl
  · have hint := toInt_ofInt hexact (hn n rfl)
    show some (toInt (Json.ofInt n : Json ν)) = some n
    rw [hint]

end

theorem parseAlign_alignName (a : Align) : parseAlign (alignName a) = some a := by
  cases a <;> decide

theorem parseWrap_wrapName (w : Wrap) : parseWrap (wrapName w) = some w := by
  cases w <;> decide

theorem parseUnderline_underlineName (u : Underline) :
    parseUnderline (underlineName u) = some u := by
  cases u <;> decide

theorem parseDither_ditherName (d : Dither) : parseDither (ditherName d) = some d := by
  cases d <;> decide

theorem parseHri_hriName (h : Hri) : parseHri (hriName h) = some h := by
  cases h <;> decide

theorem parseQrEc_qrEcName (ec : QrEc) : parseQrEc (qrEcName ec) = some ec := by
  cases ec <;> decide

theorem parseSymbology_symbologyName (s : Symbology) :
    parseSymbology (symbologyName s) = some s := by
  cases s <;> decide

theorem parseCutRequest_cutRequestName (c : CutRequest) :
    parseCutRequest (cutRequestName c) = some c := by
  cases c <;> decide

theorem parseDividerStyle_dividerName (k : DividerKind) :
    parseDividerStyle (dividerName k) = some k := by
  cases k <;> decide

/-! ### Styles -/

/-- The numbers of a style are `int`s. -/
def IntStyle (style : TextStyle) : Prop :=
  ∀ n ∈ [style.widthScale, style.heightScale, style.lineSpacingDots, style.letterSpacingDots,
    style.indentDots, style.marginLeftDots, style.marginRightDots], ∀ i ∈ n, IsInt i

section
variable {ν : Type} [Doubles ν]

theorem nodup_styleFields (style : TextStyle) :
    ((styleFields style : List (Bytes × Option (Json ν))).map Prod.fst).Nodup := by
  show [str "extends", str "font", str "widthScale", str "heightScale", str "bold", str "italic",
    str "underline", str "inverse", str "upsideDown", str "rotate90", str "align", str "wrap",
    str "lineSpacingDots", str "letterSpacingDots", str "indentDots", str "marginLeftDots",
    str "marginRightDots"].Nodup
  decide

theorem styleToJson_eq (style : TextStyle) :
    (styleToJson style : Json ν) = .object (present (styleFields style)) :=
  setAll_eq (nodup_styleFields style)

theorem readUnderline_eq {json : Json ν} {underline : Option Underline}
    (h : json.find (str "underline") = underline.map fun u => .string (underlineName u))
    (place : Bytes) : readUnderline json place = pure underline := by
  rw [readUnderline, h]
  rcases underline with _ | u
  · rfl
  · rw [Option.map_some]
    dsimp only
    rw [parseUnderline_underlineName]

/-- A style that is written is read back. -/
theorem parseTextStyle_styleToJson (hexact : Exact ν) {style : TextStyle} (h : IntStyle style)
    (place : Bytes) : parseTextStyle (styleToJson style : Json ν) place = pure style := by
  rw [styleToJson_eq]
  generalize hjson : (Json.object (present (styleFields style)) : Json ν) = json
  have hfind : ∀ {key value} (i : ℕ), (styleFields style : List (Bytes × Option (Json ν)))[i]? = some (key, value) →
      json.find key = value := by
    intro key value i hi
    rw [← hjson]
    exact find_field (nodup_styleFields style) i hi
  have hint : ∀ {key n}, n ∈ [style.widthScale, style.heightScale, style.lineSpacingDots,
      style.letterSpacingDots, style.indentDots, style.marginLeftDots, style.marginRightDots] →
      json.find key = n.map .ofInt → readInt json key = n :=
    fun hn hk => readInt_eq hexact (h _ hn) hk
  have hobject : json.isObject = true := by rw [← hjson]; rfl
  have hfinish : finish json place styleKeys = pure () := by
    rw [← hjson]
    refine finish_present ?_ place
    show ∀ k ∈ [str "extends", str "font", str "widthScale", str "heightScale", str "bold",
      str "italic", str "underline", str "inverse", str "upsideDown", str "rotate90", str "align",
      str "wrap", str "lineSpacingDots", str "letterSpacingDots", str "indentDots",
      str "marginLeftDots", str "marginRightDots"], k ∈ styleKeys
    decide
  rw [parseTextStyle, if_neg (by rw [hobject]; decide),
    Read.bind_of_eq_pure (readUnderline_eq (hfind 6 rfl) place),
    Read.bind_of_eq_pure (readNamed_eq parseAlign_alignName (hfind 10 rfl) place),
    Read.bind_of_eq_pure (readNamed_eq parseWrap_wrapName (hfind 11 rfl) place),
    Read.bind_of_eq_pure hfinish, readText_eq (hfind 0 rfl), readText_eq (hfind 1 rfl),
    hint (by simp) (hfind 2 rfl), hint (by simp) (hfind 3 rfl), readBool_eq (hfind 4 rfl),
    readBool_eq (hfind 5 rfl), readBool_eq (hfind 7 rfl), readBool_eq (hfind 8 rfl),
    readBool_eq (hfind 9 rfl), hint (by simp) (hfind 12 rfl), hint (by simp) (hfind 13 rfl),
    hint (by simp) (hfind 14 rfl), hint (by simp) (hfind 15 rfl), hint (by simp) (hfind 16 rfl)]

theorem eq_of_isEmpty {style : TextStyle} (h : isEmpty style = true) : style = {} := by
  unfold isEmpty at h
  simp only [Bool.and_eq_true, Option.isNone_iff_eq_none] at h
  obtain ⟨⟨⟨⟨⟨⟨⟨⟨⟨⟨⟨⟨⟨⟨⟨⟨h1, h2⟩, h3⟩, h4⟩, h5⟩, h6⟩, h7⟩, h8⟩, h9⟩, h10⟩, h11⟩, h12⟩, h13⟩, h14⟩, h15⟩,
    h16⟩, h17⟩ := h
  cases style
  simp only at h1 h2 h3 h4 h5 h6 h7 h8 h9 h10 h11 h12 h13 h14 h15 h16 h17
  subst h1 h2 h3 h4 h5 h6 h7 h8 h9 h10 h11 h12 h13 h14 h15 h16 h17
  rfl

/-- A name or an inline style, not both. -/
structure SoundRef (ref : StyleRef) : Prop where
  one : ref.name = none ∨ isEmpty ref.inlineStyle = true
  ints : IntStyle ref.inlineStyle

theorem parseStyleRef_writeStyleRef (hexact : Exact ν) {ref : StyleRef} (h : SoundRef ref)
    (place : Bytes) : parseStyleRef (writeStyleRef ref : Option (Json ν)) place = pure ref := by
  obtain ⟨name, style⟩ := ref
  have hints : IntStyle style := h.ints
  unfold writeStyleRef
  by_cases hempty : isEmpty style = true
  · obtain rfl := eq_of_isEmpty hempty
    rcases name with _ | name
    · dsimp only
      rw [if_pos hempty]
      rfl
    · dsimp only
      rw [if_pos hempty]
      rfl
  · obtain rfl : name = none := h.one.resolve_right hempty
    dsimp only
    rw [if_neg hempty]
    have hread := parseTextStyle_styleToJson hexact hints place
    rw [styleToJson_eq] at hread ⊢
    have hobject : (Json.object (present (styleFields style)) : Json ν).isObject = true := rfl
    unfold parseStyleRef
    dsimp only
    rw [if_pos hobject, Read.bind_of_eq_pure hread]

/-! ### Widths -/

structure SoundWidth (width : CellWidth) : Prop where
  int : IsInt width.value
  flex : width.unit = .flex → 1 ≤ width.value

theorem parseCellWidth_cellWidthToJson (hexact : Exact ν) {width : CellWidth}
    (h : SoundWidth width) {allowPercent : Bool} (hpercent : width.unit = .percent → allowPercent = true)
    (place : Bytes) :
    parseCellWidth (some (cellWidthToJson width : Json ν)) place allowPercent = pure width := by
  obtain ⟨unit, value⟩ := width
  have hint : IsInt value := h.int
  have hvalue : toInt (Json.ofInt value : Json ν) = value := toInt_ofInt hexact hint
  have hone : ∀ key : Bytes, (Json.object [(key, (Json.ofInt value : Json ν))]).find key =
      some (Json.ofInt value) := by
    intro key
    rw [Json.find, List.find?_cons_of_pos (by simp)]
    rfl
  have hother : ∀ key other : Bytes, other ≠ key →
      (Json.object [(other, (Json.ofInt value : Json ν))]).find key = none := by
    intro key other hne
    rw [Json.find, List.find?_cons_of_neg (by simpa using hne)]
    rfl
  unfold cellWidthToJson
  rcases unit with _ | _ | _ | _
  · have hpos : 1 ≤ value := h.flex rfl
    dsimp only
    by_cases hle : value ≤ 1
    · obtain rfl : value = 1 := by omega
      rw [if_pos hle]
      rfl
    · have hobject : parseWidthObject (Json.object [(str "flex", (Json.ofInt value : Json ν))])
          allowPercent = some ⟨.flex, value⟩ := by
        unfold parseWidthObject
        have hpercent : (if allowPercent then
            (Json.object [(str "flex", (Json.ofInt value : Json ν))]).find (str "percent") else none) =
            none := by
          rw [hother (str "percent") (str "flex") (by decide)]
          exact ite_self _
        rw [hother _ _ (by decide), hother _ _ (by decide), hpercent, hone]
        dsimp only
        rw [hvalue, Int.max_eq_right hpos]
      rw [if_neg hle]
      unfold parseCellWidth
      dsimp only
      rw [hobject]
  · have hobject : parseWidthObject (Json.object [(str "chars", (Json.ofInt value : Json ν))])
        allowPercent = some ⟨.chars, value⟩ := by
      unfold parseWidthObject
      rw [hone]
      dsimp only
      rw [hvalue]
    unfold parseCellWidth
    dsimp only
    rw [hobject]
  · have hobject : parseWidthObject (Json.object [(str "dots", (Json.ofInt value : Json ν))])
        allowPercent = some ⟨.dots, value⟩ := by
      unfold parseWidthObject
      rw [hother _ _ (by decide), hone]
      dsimp only
      rw [hvalue]
    unfold parseCellWidth
    dsimp only
    rw [hobject]
  · have hobject : parseWidthObject (Json.object [(str "percent", (Json.ofInt value : Json ν))])
        allowPercent = some ⟨.percent, value⟩ := by
      unfold parseWidthObject
      rw [hother _ _ (by decide), hother _ _ (by decide), hpercent rfl, if_pos rfl, hone]
      dsimp only
      rw [hvalue]
    unfold parseCellWidth
    dsimp only
    rw [hobject]

/-! ### Cells -/

structure SoundCell (cell : Cell) : Prop where
  width : SoundWidth cell.width
  notPercent : cell.width.unit ≠ .percent
  style : SoundRef cell.style

theorem parseCell_cellToJson (hexact : Exact ν) {cell : Cell} (h : SoundCell cell) (place : Bytes)
    (index : ℕ) : parseCell place index (cellToJson cell : Json ν) = pure cell := by
  generalize hfields : [(str "content", some (.string cell.content)),
    (str "width", some (cellWidthToJson cell.width)),
    (str "align", cell.align.map fun a => .string (alignName a)),
    (str "wrap", cell.wrap.map fun w => .string (wrapName w)),
    (str "style", (writeStyleRef cell.style : Option (Json ν)))] = fields
  have hkeys : fields.map Prod.fst =
      [str "content", str "width", str "align", str "wrap", str "style"] := by rw [← hfields]; rfl
  have hnodup : (fields.map Prod.fst).Nodup := by rw [hkeys]; decide
  have hjson : (cellToJson cell : Json ν) = .object (present fields) := by
    rw [cellToJson, hfields, setAll_eq hnodup]
  have hobject : (Json.object (present fields)).isObject = true := rfl
  have hcontent : (Json.object (present fields)).find (str "content") =
      some (.string cell.content) := find_field hnodup 0 (by rw [← hfields]; rfl)
  have hwidth : (Json.object (present fields)).find (str "width") =
      some (cellWidthToJson cell.width) := find_field hnodup 1 (by rw [← hfields]; rfl)
  have halign : (Json.object (present fields)).find (str "align") =
      cell.align.map fun a => .string (alignName a) :=
    find_field hnodup 2 (by rw [← hfields]; rfl)
  have hwrap : (Json.object (present fields)).find (str "wrap") =
      cell.wrap.map fun w => .string (wrapName w) :=
    find_field hnodup 3 (by rw [← hfields]; rfl)
  have hstyle : (Json.object (present fields)).find (str "style") = writeStyleRef cell.style :=
    find_field hnodup 4 (by rw [← hfields]; rfl)
  have hread : readString (Json.object (present fields)) (str "content") = cell.content := by
    rw [readString, @readText_eq _ _ _ (some cell.content) hcontent]
    rfl
  have hpercent : cell.width.unit = .percent → false = true := fun he => absurd he h.notPercent
  rw [hjson, parseCell]
  rw [if_neg (by rw [hobject]; decide), hwidth, hstyle,
    Read.bind_of_eq_pure (parseCellWidth_cellWidthToJson hexact h.width hpercent _),
    Read.bind_of_eq_pure (readNamed_eq parseAlign_alignName halign _),
    Read.bind_of_eq_pure (readNamed_eq parseWrap_wrapName hwrap _),
    Read.bind_of_eq_pure (parseStyleRef_writeStyleRef hexact h.style _),
    Read.bind_of_eq_pure (finish_present (by rw [hkeys]; exact fun _ hk => hk) _), hread]

/-! ### Leaves -/

/-- What the reader gives. -/
def SoundLeaf (registrations : Registrations) : Leaf ν → Prop
  | .text _ style => SoundRef style
  | .columns cells => ∀ cell ∈ cells, SoundCell cell
  | .divider rule =>
    (rule.kind ≠ .char → rule.char = []) ∧ (∀ i ∈ rule.thicknessDots, IsInt i) ∧ SoundRef rule.style
  | .feed lines dots => IsInt lines ∧ ∀ i ∈ dots, IsInt i
  | .cut _ => True
  | .drawerKick pin pulse => IsInt pin ∧ IsInt pulse
  | .raw _ => True
  | .qr _ size _ _ => IsInt size
  | .barcode code => IsInt code.heightDots ∧ IsInt code.moduleWidth
  | .image picture => IsInt picture.width ∧ IsInt picture.height ∧ SoundWidth picture.target
  | .custom kind payload => payload.isObject = true ∧ (∀ key ∈ kindKeys, payload.find key = none) ∧
      handled registrations payload = some kind

/-- What is kept of a picture: a size belongs to grayscale, and a weight is no target. -/
def storedPicture (picture : Image) : Image :=
  { picture with
    width := if picture.gray.isEmpty then 0 else picture.width
    height := if picture.gray.isEmpty then 0 else picture.height
    target := if picture.target.unit = .flex then {} else picture.target }

/-- What is kept of a leaf. -/
def storedLeaf : Leaf ν → Leaf ν
  | .feed lines dots => .feed (if dots.isSome then 1 else lines) dots
  | .image picture => .image (storedPicture picture)
  | leaf => leaf

/-- The reader of a leaf is the one of its kind. -/
theorem parseLeaf_of_find {registrations : Registrations} {json value : Json ν} (i : ℕ)
    {reader : LeafReader ν} (hreader : leafReaders[i]? = some reader)
    (hearlier : ∀ r ∈ (leafReaders.take i : List (LeafReader ν)), json.find r.1 = none)
    (h : json.find reader.1 = some value) (place : Bytes) :
    parseLeaf registrations json place = reader.2 json value place := by
  have hsplit : (leafReaders : List (LeafReader ν)) =
      leafReaders.take i ++ reader :: leafReaders.drop (i + 1) := by
    obtain ⟨hi, rfl⟩ := List.getElem?_eq_some_iff.mp hreader
    rw [List.getElem_cons_drop, List.take_append_drop]
  have hnone : (leafReaders.take i : List (LeafReader ν)).findSome? (fun reader =>
      (json.find reader.1).map fun value => reader.2 json value place) = none := by
    rw [List.findSome?_eq_none_iff]
    intro r hr
    rw [hearlier r hr]
    rfl
  rw [parseLeaf, hsplit, List.findSome?_append, hnone, Option.none_or, List.findSome?_cons, h]
  rfl

/-- What is written of a leaf. -/
def leafObject (leaf : Leaf ν) : Json ν := .object (present (leafFields leaf))

section
variable {registrations : Registrations} {leaf : Leaf ν} {keys : List Bytes}

theorem find_leaf (hkeys : (leafFields leaf).map Prod.fst = keys) (hnodup : keys.Nodup) (i : ℕ)
    {key : Bytes} {value : Option (Json ν)} (h : (leafFields leaf)[i]? = some (key, value)) :
    (leafObject leaf).find key = value :=
  find_field (hkeys ▸ hnodup) i h

theorem finish_leaf (hkeys : (leafFields leaf).map Prod.fst = keys) {seen : List Bytes}
    (hseen : ∀ key ∈ keys, key ∈ seen) (place : Bytes) :
    finish (leafObject leaf) place seen = pure () :=
  finish_present (hkeys ▸ hseen) place

/-- What is written of a leaf is read by the reader of its kind. -/
theorem parseLeaf_leafToJson (hjson : leafToJson leaf = setAll (.object []) (leafFields leaf))
    (hkeys : (leafFields leaf).map Prod.fst = keys) (hnodup : keys.Nodup) (i : ℕ)
    (hearlier : ∀ key ∈ (kindKeys.drop 3).take i, key ∉ keys) {reader : LeafReader ν}
    {value : Json ν} (hreader : leafReaders[i]? = some reader)
    (hfirst : (leafFields leaf)[0]? = some (reader.1, some value)) (place : Bytes) :
    parseLeaf registrations (leafToJson leaf) place = reader.2 (leafObject leaf) value place := by
  rw [hjson, setAll_eq (hkeys ▸ hnodup)]
  refine parseLeaf_of_find i hreader (fun r hr => find_present_of_not_mem ?_)
    (find_leaf hkeys hnodup 0 hfirst) place
  have hreaders : (kindKeys.drop 3).take i =
      (leafReaders.take i : List (LeafReader ν)).map Prod.fst := by
    rw [List.map_take]
    rfl
  rw [hkeys]
  refine hearlier r.1 ?_
  rw [hreaders]
  exact List.mem_map.mpr ⟨r, hr, rfl⟩

end

section
variable {registrations : Registrations} (place : Bytes)

theorem parseLeaf_text (hexact : Exact ν) (content : Bytes) {style : StyleRef} (h : SoundRef style) :
    parseLeaf registrations (leafToJson (.text content style) : Json ν) place =
      pure (.text content style) := by
  have hkeys : (leafFields (.text content style : Leaf ν)).map Prod.fst =
      [str "text", str "style"] := rfl
  have hstyle := find_leaf hkeys (by decide) 1 rfl
  rw [parseLeaf_leafToJson rfl hkeys (by decide) 0 (by decide) rfl rfl]
  show parseText (leafObject (.text content style)) (.string content) place = _
  rw [parseText, hstyle, Read.bind_of_eq_pure (parseStyleRef_writeStyleRef hexact h _),
    Read.bind_of_eq_pure (finish_leaf hkeys (by decide) _)]
  rfl

theorem parseLeaf_columns (hexact : Exact ν) {cells : List Cell} (h : ∀ cell ∈ cells, SoundCell cell) :
    parseLeaf registrations (leafToJson (.columns cells) : Json ν) place = pure (.columns cells) := by
  have hkeys : (leafFields (.columns cells : Leaf ν)).map Prod.fst = [str "columns"] := rfl
  have hcells : Read.each (parseCell place) 0 (cells.map cellToJson : List (Json ν)) =
      pure cells := by
    rw [Read.each_map_eq_pure fun cell hcell => parseCell_cellToJson hexact (h cell hcell) place,
      List.map_id']
  rw [parseLeaf_leafToJson rfl hkeys (by decide) 1 (by decide) rfl rfl]
  show parseColumns (leafObject (.columns cells)) (.array (cells.map cellToJson)) place = _
  rw [parseColumns, Read.bind_of_eq_pure hcells,
    Read.bind_of_eq_pure (finish_leaf hkeys (by decide) _)]

theorem parseLeaf_feed (hexact : Exact ν) {lines : ℤ} {dots : Option ℤ} (hlines : IsInt lines)
    (hdots : ∀ i ∈ dots, IsInt i) :
    parseLeaf registrations (leafToJson (.feed lines dots) : Json ν) place =
      pure (storedLeaf (.feed lines dots)) := by
  have hkeys : (leafFields (.feed lines dots : Leaf ν)).map Prod.fst = [str "feed"] := rfl
  rw [parseLeaf_leafToJson rfl hkeys (by decide) 3 (by decide) rfl rfl]
  rcases dots with _ | dots
  · show ((pure (Leaf.feed (toInt (Json.ofInt lines : Json ν)) none)) >>= fun leaf =>
      finish (leafObject (.feed lines none)) place _ >>= fun _ => pure leaf) = _
    rw [Read.pure_bind, Read.bind_of_eq_pure (finish_leaf hkeys (by decide) _),
      toInt_ofInt hexact hlines]
    rfl
  · show ((pure (Leaf.feed 1 (some (toInt (Json.ofInt dots : Json ν))))) >>= fun leaf =>
      finish (leafObject (.feed lines (some dots))) place _ >>= fun _ => pure leaf) = _
    rw [Read.pure_bind, Read.bind_of_eq_pure (finish_leaf hkeys (by decide) _),
      toInt_ofInt hexact (hdots dots rfl)]
    rfl

theorem parseLeaf_cut (kind : CutMode) :
    parseLeaf registrations (leafToJson (.cut kind) : Json ν) place = pure (.cut kind) := by
  have hkeys : (leafFields (.cut kind : Leaf ν)).map Prod.fst = [str "cut"] := rfl
  rw [parseLeaf_leafToJson rfl hkeys (by decide) 4 (by decide) rfl rfl]
  cases kind <;>
  · show ((pure (Leaf.cut _)) >>= fun leaf =>
      finish (leafObject (.cut _)) place _ >>= fun _ => pure leaf) = _
    rw [Read.pure_bind, Read.bind_of_eq_pure (finish_leaf hkeys (by decide) _)]
    rfl

theorem parseLeaf_drawerKick (hexact : Exact ν) {pin pulse : ℤ} (hpin : IsInt pin)
    (hpulse : IsInt pulse) :
    parseLeaf registrations (leafToJson (.drawerKick pin pulse) : Json ν) place =
      pure (.drawerKick pin pulse) := by
  have hkeys : (leafFields (.drawerKick pin pulse : Leaf ν)).map Prod.fst = [str "drawerKick"] := rfl
  rw [parseLeaf_leafToJson rfl hkeys (by decide) 5 (by decide) rfl rfl]
  show (finish (leafObject (.drawerKick pin pulse)) place _ >>= fun _ =>
    pure (Leaf.drawerKick (toInt (Json.ofInt pin : Json ν)) (toInt (Json.ofInt pulse : Json ν)))) = _
  rw [Read.bind_of_eq_pure (finish_leaf hkeys (by decide) _), toInt_ofInt hexact hpin,
    toInt_ofInt hexact hpulse]

theorem parseBytes_base64Encode (bytes : Bytes) :
    parseBytes (.string (base64Encode bytes) : Json ν) place = pure bytes := by
  unfold parseBytes
  dsimp only
  rw [base64Decode_base64Encode]

theorem parseLeaf_raw (bytes : Bytes) :
    parseLeaf registrations (leafToJson (.raw bytes) : Json ν) place = pure (.raw bytes) := by
  have hkeys : (leafFields (.raw bytes : Leaf ν)).map Prod.fst = [str "raw"] := rfl
  rw [parseLeaf_leafToJson rfl hkeys (by decide) 6 (by decide) rfl rfl]
  show parseRaw (leafObject (.raw bytes)) (.string (base64Encode bytes)) place = _
  rw [parseRaw, Read.bind_of_eq_pure (parseBytes_base64Encode _ bytes),
    Read.bind_of_eq_pure (finish_leaf hkeys (by decide) _)]

theorem parseLeaf_qr (hexact : Exact ν) (content : Bytes) {size : ℤ} (ec : QrEc) (align : Align)
    (h : IsInt size) :
    parseLeaf registrations (leafToJson (.qr content size ec align) : Json ν) place =
      pure (.qr content size ec align) := by
  have hkeys : (leafFields (.qr content size ec align : Leaf ν)).map Prod.fst =
      [str "qr", str "size", str "ec", str "align"] := rfl
  have hfind := @find_leaf _ _ (.qr content size ec align : Leaf ν) _ hkeys (by decide)
  have hsize : readInt (leafObject (.qr content size ec align : Leaf ν)) (str "size") = some size :=
    readInt_eq hexact (by rintro i ⟨⟩; exact h) (hfind 1 rfl)
  rw [parseLeaf_leafToJson rfl hkeys (by decide) 7 (by decide) rfl rfl]
  show parseQr (leafObject (.qr content size ec align)) (.string content) place = _
  rw [parseQr, Read.bind_of_eq_pure (readWithDefault_eq parseQrEc_qrEcName (hfind 2 rfl) _ _),
    Read.bind_of_eq_pure (finish_leaf hkeys (by decide) _), hsize,
    readQuietly_differing parseAlign_alignName (hfind 3 rfl)]
  rfl

theorem parseLeaf_barcode (hexact : Exact ν) {code : Barcode} (hheight : IsInt code.heightDots)
    (hwidth : IsInt code.moduleWidth) :
    parseLeaf registrations (leafToJson (.barcode code) : Json ν) place = pure (.barcode code) := by
  have hkeys : (leafFields (.barcode code : Leaf ν)).map Prod.fst =
      [str "barcode", str "symbology", str "height", str "moduleWidth", str "hri", str "align"] := rfl
  have hfind := @find_leaf _ _ (.barcode code : Leaf ν) _ hkeys (by decide)
  have hheight : readInt (leafObject (.barcode code : Leaf ν)) (str "height") =
      some code.heightDots := readInt_eq hexact (by rintro i ⟨⟩; exact hheight) (hfind 2 rfl)
  have hwidth : readInt (leafObject (.barcode code : Leaf ν)) (str "moduleWidth") =
      some code.moduleWidth := readInt_eq hexact (by rintro i ⟨⟩; exact hwidth) (hfind 3 rfl)
  have hhri : readQuietly (leafObject (.barcode code : Leaf ν)) (str "hri") parseHri =
      some code.hri := @readQuietly_eq _ _ _ _ _ _ (some code.hri) parseHri_hriName (hfind 4 rfl)
  rw [parseLeaf_leafToJson rfl hkeys (by decide) 8 (by decide) rfl rfl]
  show parseBarcode (leafObject (.barcode code)) (.string code.content) place = _
  rw [parseBarcode,
    Read.bind_of_eq_pure (readWithDefault_eq parseSymbology_symbologyName (hfind 1 rfl) _ _),
    Read.bind_of_eq_pure (finish_leaf hkeys (by decide) _), hheight, hwidth, hhri,
    readQuietly_differing parseAlign_alignName (hfind 5 rfl)]
  rfl

theorem parseRule_ruleToJson (hexact : Exact ν) {rule : Divider}
    (hchar : rule.kind ≠ .char → rule.char = []) (hints : ∀ i ∈ rule.thicknessDots, IsInt i) :
    parseRule (ruleToJson rule : Json ν) place = pure { rule with style := {} } := by
  obtain ⟨kind, char, thickness, style⟩ := rule
  unfold ruleToJson
  dsimp only at hchar hints ⊢
  by_cases hkind : kind = .char
  · let fields : List (Bytes × Option (Json ν)) :=
      [(str "style", some (.string (str "char"))), (str "char", some (.string char)),
        (str "thicknessDots", thickness.map .ofInt)]
    have hkeys : fields.map Prod.fst = [str "style", str "char", str "thicknessDots"] := rfl
    have hnodup : (fields.map Prod.fst).Nodup := by rw [hkeys]; decide
    have hstyle : readText (Json.object (present fields)) (str "style") = some (str "char") :=
      @readText_eq _ _ _ (some (str "char")) (find_field hnodup 0 rfl)
    have hfill : readText (Json.object (present fields)) (str "char") = some char :=
      @readText_eq _ _ _ (some char) (find_field hnodup 1 rfl)
    have hthickness : readInt (Json.object (present fields)) (str "thicknessDots") = thickness :=
      readInt_eq hexact hints (find_field hnodup 2 rfl)
    have hread : dividerKind (Json.object (present fields)) (place ++ str ".divider") =
        pure (.char, char) := by
      rw [dividerKind, hstyle, hfill]
      rfl
    rw [if_pos hkind, setAll_eq hnodup]
    show parseRule (Json.object (present fields)) place = _
    rw [parseRule, Read.bind_of_eq_pure hread]
    dsimp only
    rw [Read.bind_of_eq_pure (finish_present (by rw [hkeys]; decide) _), hthickness, hkind]
  · have hnone : char = [] := hchar hkind
    rw [if_neg hkind, hnone]
    by_cases hthick : thickness.isSome = true
    · let fields : List (Bytes × Option (Json ν)) :=
        [(str "style", some (.string (dividerName kind))),
          (str "thicknessDots", thickness.map .ofInt)]
      have hkeys : fields.map Prod.fst = [str "style", str "thicknessDots"] := rfl
      have hnodup : (fields.map Prod.fst).Nodup := by rw [hkeys]; decide
      have hstyle : readText (Json.object (present fields)) (str "style") = some (dividerName kind) :=
        @readText_eq _ _ _ (some (dividerName kind)) (find_field hnodup 0 rfl)
      have hfill : readText (Json.object (present fields)) (str "char") = none :=
        @readText_eq _ _ _ none (find_present_of_not_mem (by rw [hkeys]; decide))
      have hthickness : readInt (Json.object (present fields)) (str "thicknessDots") = thickness :=
        readInt_eq hexact hints (find_field hnodup 1 rfl)
      have hread : dividerKind (Json.object (present fields)) (place ++ str ".divider") =
          pure (kind, []) := by
        rw [dividerKind, hstyle, hfill]
        dsimp only
        rw [parseDividerStyle_dividerName]
        rfl
      rw [if_pos hthick, setAll_eq hnodup]
      show parseRule (Json.object (present fields)) place = _
      rw [parseRule, Read.bind_of_eq_pure hread]
      dsimp only
      rw [Read.bind_of_eq_pure (finish_present (by rw [hkeys]; decide) _), hthickness]
    · have hname : parseDividerName (dividerName kind) = some kind := by
        cases kind with
        | char => exact absurd rfl hkind
        | solid | dashed | double => decide
      have hzero : thickness = none := by simpa using hthick
      rw [if_neg hthick, parseRule, hname, hzero]

theorem parseLeaf_divider (hexact : Exact ν) {rule : Divider}
    (hchar : rule.kind ≠ .char → rule.char = []) (hints : ∀ i ∈ rule.thicknessDots, IsInt i)
    (hstyle : SoundRef rule.style) :
    parseLeaf registrations (leafToJson (.divider rule) : Json ν) place = pure (.divider rule) := by
  have hkeys : (leafFields (.divider rule : Leaf ν)).map Prod.fst =
      [str "divider", str "style"] := rfl
  have hfind := find_leaf hkeys (by decide) 1 rfl
  rw [parseLeaf_leafToJson rfl hkeys (by decide) 2 (by decide) rfl rfl]
  show parseDivider (leafObject (.divider rule)) (ruleToJson rule) place = _
  rw [parseDivider, hfind, Read.bind_of_eq_pure (parseRule_ruleToJson place hexact hchar hints),
    Read.bind_of_eq_pure (parseStyleRef_writeStyleRef hexact hstyle _),
    Read.bind_of_eq_pure (finish_leaf hkeys (by decide) _)]

theorem parsePicture_pictureToJson (hexact : Exact ν) {picture : Image}
    (hwidth : IsInt picture.width) (hheight : IsInt picture.height) :
    parsePicture (pictureToJson picture : Json ν) place =
      pure { ref := picture.ref, gray := picture.gray, width := (storedPicture picture).width,
             height := (storedPicture picture).height } := by
  unfold pictureToJson storedPicture
  dsimp only
  by_cases hgray : picture.gray.isEmpty = true
  · have hempty : picture.gray = [] := List.isEmpty_iff.mp hgray
    by_cases href : picture.ref.isEmpty = true
    · have hnone : picture.ref = [] := List.isEmpty_iff.mp href
      have hfields : setAll (.object [])
          [(str "ref", (differing [] ([] : Bytes) .string : Option (Json ν)))] = .object [] := rfl
      rw [if_neg (by rw [href]; simp), if_pos hgray, if_pos hgray, if_pos hgray, hnone, hfields, hempty]
      rfl
    · rw [if_pos (by rw [hgray]; simpa using href), if_pos hgray, if_pos hgray, hempty]
      rfl
  · let fields : List (Bytes × Option (Json ν)) :=
      [(str "ref", differing [] picture.ref .string),
        (str "gray", some (.string (base64Encode picture.gray))),
        (str "width", some (.ofInt picture.width)), (str "height", some (.ofInt picture.height))]
    have hkeys : fields.map Prod.fst = [str "ref", str "gray", str "width", str "height"] := rfl
    have hnodup : (fields.map Prod.fst).Nodup := by rw [hkeys]; decide
    have hread : readString (Json.object (present fields)) (str "ref") = picture.ref :=
      readString_differing (find_field hnodup 0 rfl)
    have hpixels : (Json.object (present fields)).find (str "gray") =
        some (.string (base64Encode picture.gray)) := find_field hnodup 1 rfl
    have hw : readInt (Json.object (present fields)) (str "width") = some (picture.width : ℤ) :=
      readInt_eq hexact (by rintro i ⟨⟩; exact hwidth) (find_field hnodup 2 rfl)
    have hh : readInt (Json.object (present fields)) (str "height") = some (picture.height : ℤ) :=
      readInt_eq hexact (by rintro i ⟨⟩; exact hheight) (find_field hnodup 3 rfl)
    rw [if_neg (by simp [hgray]), if_neg hgray, if_neg hgray, if_neg hgray]
    show parsePicture (setAll (.object []) fields) place = _
    rw [setAll_eq hnodup, parsePicture, hpixels]
    dsimp only
    rw [Read.bind_of_eq_pure (parseBytes_base64Encode _ picture.gray),
      Read.bind_of_eq_pure (finish_present (by rw [hkeys]; decide) _), hread, hw, hh]
    rfl

theorem parseLeaf_image (hexact : Exact ν) {picture : Image} (hwidth : IsInt picture.width)
    (hheight : IsInt picture.height) (htarget : SoundWidth picture.target) :
    parseLeaf registrations (leafToJson (.image picture) : Json ν) place =
      pure (.image (storedPicture picture)) := by
  have hkeys : (leafFields (.image picture : Leaf ν)).map Prod.fst =
      [str "image", str "width", str "align", str "dither"] := rfl
  have hfind := @find_leaf _ _ (.image picture : Leaf ν) _ hkeys (by decide)
  have htarget : parseCellWidth ((leafObject (.image picture : Leaf ν)).find (str "width"))
      (place ++ str ".width") true = pure (storedPicture picture).target := by
    rw [hfind 1 rfl]
    unfold storedPicture
    dsimp only
    by_cases hflex : picture.target.unit = .flex
    · rw [if_pos hflex, if_pos hflex]
      rfl
    · rw [if_neg hflex, if_neg hflex,
        parseCellWidth_cellWidthToJson hexact htarget (fun _ => rfl)]
  have hdither : readQuietly (leafObject (.image picture : Leaf ν)) (str "dither") parseDither =
      some picture.dither :=
    @readQuietly_eq _ _ _ _ _ _ (some picture.dither) parseDither_ditherName (hfind 3 rfl)
  rw [parseLeaf_leafToJson rfl hkeys (by decide) 9 (by decide) rfl rfl]
  show parseImage (leafObject (.image picture)) (pictureToJson picture) place = _
  rw [parseImage, Read.bind_of_eq_pure (parsePicture_pictureToJson place hexact hwidth hheight),
    Read.bind_of_eq_pure htarget, Read.bind_of_eq_pure (finish_leaf hkeys (by decide) _),
    hdither, readQuietly_differing parseAlign_alignName (hfind 2 rfl)]
  rfl

theorem parseLeaf_custom {kind : Bytes} {payload : Json ν}
    (hunknown : ∀ key ∈ kindKeys, payload.find key = none)
    (hhandled : handled registrations payload = some kind) :
    parseLeaf registrations payload place = pure (.custom kind payload) := by
  have hnone : (leafReaders : List (LeafReader ν)).findSome? (fun reader =>
      (payload.find reader.1).map fun value => reader.2 payload value place) = none := by
    rw [List.findSome?_eq_none_iff]
    intro reader hreader
    have hkey : reader.1 ∈ kindKeys :=
      List.mem_of_mem_drop (i := 3) (List.mem_map.mpr ⟨reader, hreader, rfl⟩)
    rw [hunknown _ hkey]
    rfl
  rw [parseLeaf, hnone]
  dsimp only
  rw [parseCustom, hhandled]

/-- What is written of a leaf is read back as what is kept of it. -/
theorem parseLeaf_stored (hexact : Exact ν) {leaf : Leaf ν} (h : SoundLeaf registrations leaf) :
    parseLeaf registrations (leafToJson leaf) place = pure (storedLeaf leaf) := by
  cases leaf with
  | text content style => exact parseLeaf_text place hexact content h
  | columns cells => exact parseLeaf_columns place hexact h
  | image picture => exact parseLeaf_image place hexact h.1 h.2.1 h.2.2
  | qr content size ec align => exact parseLeaf_qr place hexact content ec align h
  | barcode code => exact parseLeaf_barcode place hexact h.1 h.2
  | divider rule => exact parseLeaf_divider place hexact h.1 h.2.1 h.2.2
  | feed lines dots => exact parseLeaf_feed place hexact h.1 h.2
  | cut kind => exact parseLeaf_cut place kind
  | drawerKick pin pulse => exact parseLeaf_drawerKick place hexact h.1 h.2
  | raw bytes => exact parseLeaf_raw place bytes
  | custom kind payload =>
    have hjson : leafToJson (.custom kind payload) = payload := if_pos h.1
    rw [hjson]
    exact parseLeaf_custom place h.2.1 h.2.2

end

/-- What is not kept is not written. -/
theorem leafToJson_storedLeaf (leaf : Leaf ν) : leafToJson (storedLeaf leaf) = leafToJson leaf := by
  cases leaf with
  | feed lines dots => rcases dots with _ | dots <;> rfl
  | image picture =>
    have hpicture : (pictureToJson (storedPicture picture) : Json ν) = pictureToJson picture := by
      unfold pictureToJson storedPicture
      dsimp only
      by_cases hgray : picture.gray.isEmpty = true
      · simp only [hgray, if_true]
      · simp only [hgray, Bool.false_eq_true, if_false]
    have htarget : (if (storedPicture picture).target.unit = .flex then none
        else some (cellWidthToJson (storedPicture picture).target)) =
        if picture.target.unit = .flex then none
        else some (cellWidthToJson picture.target : Json ν) := by
      unfold storedPicture
      dsimp only
      by_cases hflex : picture.target.unit = .flex
      · rw [if_pos hflex, if_pos hflex]
        rfl
      · rw [if_neg hflex]
    show setAll _ (leafFields (.image (storedPicture picture))) = setAll _ (leafFields (.image picture))
    rw [leafFields, leafFields, hpicture, htarget]
    rfl
  | text | columns | qr | barcode | divider | cut | drawerKick | raw | custom => rfl

end

end PrinterDriver.Dsl.LeafRoundTrips
