import PrinterDriver.Dsl.LeafRoundTrips

/-! # Documents round trip

What the writer makes of a document that was read is read back as that document, without a warning
(`reads_back`). Of a name that stands twice in the table of styles the last style is kept. -/

namespace PrinterDriver.Dsl.DocumentRoundTrips

open PrinterDriver.Core.Types PrinterDriver.Dsl.Values PrinterDriver.Dsl.Documents
open PrinterDriver.Lib.Keyed PrinterDriver.Lib.Reading PrinterDriver.Dsl.DocumentReader
open PrinterDriver.Dsl.DocumentWriter PrinterDriver.Dsl.LeafRoundTrips

section
variable {ν : Type} [Doubles ν]

/-! ### Blocks -/

mutual
/-- What is kept of a block. -/
def storedBlock : Block ν → Block ν
  | .leaf leaf => .leaf (storedLeaf leaf)
  | .each path single body => .each path single (storedBlocks body)
  | .cond path negated single body => .cond path negated single (storedBlocks body)

def storedBlocks : List (Block ν) → List (Block ν)
  | [] => []
  | block :: blocks => storedBlock block :: storedBlocks blocks
end

omit [Doubles ν] in
theorem storedBlocks_eq (blocks : List (Block ν)) : storedBlocks blocks = blocks.map storedBlock := by
  induction blocks with
  | nil => rfl
  | cons block blocks ih => rw [storedBlocks, ih, List.map_cons]

mutual
theorem blockToJson_storedBlock : ∀ block : Block ν, blockToJson (storedBlock block) = blockToJson block
  | .leaf leaf => leafToJson_storedLeaf leaf
  | .each path single body => by
    rw [storedBlock, blockToJson, blockListToJson_storedBlocks body, blockToJson]
  | .cond path negated single body => by
    rw [storedBlock, blockToJson, blockListToJson_storedBlocks body, blockToJson]

theorem blockListToJson_storedBlocks :
    ∀ blocks : List (Block ν), blockListToJson (storedBlocks blocks) = blockListToJson blocks
  | [] => rfl
  | block :: blocks => by
    rw [storedBlocks, blockListToJson, blockToJson_storedBlock block,
      blockListToJson_storedBlocks blocks, blockListToJson]
end

/-- What the reader gives, with so many levels left. -/
def SoundBlock (registrations : Registrations) : ℕ → Block ν → Prop
  | 0, _ => False
  | _ + 1, .leaf leaf => SoundLeaf registrations leaf
  | levels + 1, .each _ single body | levels + 1, .cond _ _ single body =>
    (single = true → body.length = 1) ∧ ∀ block ∈ body, SoundBlock registrations levels block

section
variable {registrations : Registrations}

theorem parseBody_bodyField {parse : Json ν → Bytes → Read Bytes (Block ν)} {first : Bytes}
    {path : Json ν} {single : Bool} {body : List (Block ν)} (hblock : first ≠ str "block")
    (hblocks : first ≠ str "blocks") (hsingle : single = true → body.length = 1)
    (hparse : ∀ block ∈ body, ∀ place, parse (blockToJson block) place = pure (storedBlock block))
    (place : Bytes) :
    parseBody parse (.object [(first, path), bodyField single (blockListToJson body)]) place =
      pure (single, storedBlocks body) := by
  rw [blockListToJson_eq, storedBlocks_eq]
  by_cases hone : single = true
  · obtain ⟨block, rfl⟩ := List.length_eq_one_iff.mp (hsingle hone)
    obtain rfl := hone
    have hfind := @find_pair_second _ _ _ path (blockToJson block) hblock
    show parseBody parse (.object [(first, path), (str "block", blockToJson block)]) place = _
    rw [parseBody, hfind]
    dsimp only
    rw [Read.bind_of_eq_pure (hparse block List.mem_cons_self _)]
    rfl
  · obtain rfl : single = false := by simpa using hone
    have hfind := @find_pair_second _ _ _ path (.array (body.map blockToJson)) hblocks
    have hnone := @find_pair_none _ _ (str "blocks") (str "block") path
      (.array (body.map blockToJson)) hblock (by decide)
    show parseBody parse (.object [(first, path), (str "blocks", .array (body.map blockToJson))])
      place = _
    rw [parseBody, hnone, hfind]
    dsimp only
    rw [Read.bind_of_eq_pure (Read.each_map_eq_pure fun block hb i => hparse block hb _)]

/-- The keys that are written of leaves. -/
def leafKeyLists : List (List Bytes) :=
  [[str "text", str "style"], [str "columns"],
    [str "image", str "width", str "align", str "dither"],
    [str "qr", str "size", str "ec", str "align"],
    [str "barcode", str "symbology", str "height", str "moduleWidth", str "hri", str "align"],
    [str "divider", str "style"], [str "feed"], [str "cut"], [str "drawerKick"], [str "raw"], []]

theorem exists_leafKeyList (leaf : Leaf ν) :
    ∃ i : ℕ, leafKeyLists[i]? = some ((leafFields leaf).map Prod.fst) := by
  cases leaf with
  | text => exact ⟨0, rfl⟩
  | columns => exact ⟨1, rfl⟩
  | image => exact ⟨2, rfl⟩
  | qr => exact ⟨3, rfl⟩
  | barcode => exact ⟨4, rfl⟩
  | divider => exact ⟨5, rfl⟩
  | feed => exact ⟨6, rfl⟩
  | cut => exact ⟨7, rfl⟩
  | drawerKick => exact ⟨8, rfl⟩
  | raw => exact ⟨9, rfl⟩
  | custom => exact ⟨10, rfl⟩

/-- A leaf is not taken for a block that holds others. -/
theorem leafToJson_no_control {leaf : Leaf ν} (h : SoundLeaf registrations leaf) :
    (leafToJson leaf).isObject = true ∧
      ∀ key ∈ kindKeys.take 3, (leafToJson leaf).find key = none := by
  obtain ⟨i, hi⟩ := exists_leafKeyList leaf
  have hlists : ∀ keys ∈ leafKeyLists, keys.Nodup ∧ ∀ key ∈ kindKeys.take 3, key ∉ keys := by
    decide
  obtain ⟨hnodup, hout⟩ := hlists _ (List.mem_of_getElem? hi)
  have hfields : setAll (.object []) (leafFields leaf) = leafObject leaf := setAll_eq hnodup
  have hobject : (leafObject leaf).isObject = true ∧
      ∀ key ∈ kindKeys.take 3, (leafObject leaf).find key = none :=
    ⟨rfl, fun key hkey => find_present_of_not_mem (hout key hkey)⟩
  cases leaf with
  | custom kind payload =>
    have hjson : leafToJson (.custom kind payload) = payload := if_pos h.1
    rw [hjson]
    exact ⟨h.1, fun key hkey => h.2.1 key (List.mem_of_mem_take hkey)⟩
  | text | columns | image | qr | barcode | divider | feed | cut | drawerKick | raw =>
    rw [← hfields] at hobject
    exact hobject

omit [Doubles ν] in
theorem exists_bodyField (single : Bool) (body : List (Json ν)) : ∃ second value,
    bodyField single body = (second, value) ∧ (second = str "block" ∨ second = str "blocks") := by
  unfold bodyField
  split
  · exact ⟨_, _, rfl, .inl rfl⟩
  · exact ⟨_, _, rfl, .inr rfl⟩

omit [Doubles ν] in
theorem finish_pair {first second : Bytes} {a b : Json ν} {seen : List Bytes} (hfirst : first ∈ seen)
    (hsecond : second ∈ seen) (place : Bytes) :
    finish (.object [(first, a), (second, b)]) place seen = pure () := by
  refine @finish_present _ [(first, some a), (second, some b)] seen ?_ place
  intro key hkey
  simp only [List.map_cons, List.map_nil, List.mem_cons, List.not_mem_nil, or_false] at hkey
  rcases hkey with rfl | rfl
  · exact hfirst
  · exact hsecond

/-- What is written of a block is read back as what is kept of it. -/
theorem parseBlock_stored (hexact : Exact ν) : ∀ {levels : ℕ} {block : Block ν},
    SoundBlock registrations levels block → ∀ place,
      parseBlock registrations levels (blockToJson block) place = pure (storedBlock block)
  | 0, _, h, _ => h.elim
  | levels + 1, .leaf leaf, h, place => by
    obtain ⟨hobject, hnone⟩ := leafToJson_no_control h
    have heach := hnone (str "each") (by decide)
    have hif := hnone (str "if") (by decide)
    have hunless := hnone (str "unless") (by decide)
    show parseBlock registrations (levels + 1) (leafToJson leaf) place = _
    rw [parseBlock, if_neg (by rw [hobject]; decide), heach, hunless, hif]
    dsimp only
    rw [Read.bind_of_eq_pure (parseLeaf_stored place hexact h)]
    rfl
  | levels + 1, .each path single body, h, place => by
    have hbody : ∀ block ∈ body, ∀ place,
        parseBlock registrations levels (blockToJson block) place = pure (storedBlock block) :=
      fun block hb => parseBlock_stored hexact (h.2 block hb)
    have hread := @parseBody_bodyField ν _ (parseBlock registrations levels) (str "each")
      (.string path) single body (by decide) (by decide) h.1 hbody place
    obtain ⟨second, value, hfield, hsecond⟩ := exists_bodyField single (blockListToJson body)
    have hseen : second ∈ [str "each", str "block", str "blocks"] := by
      rcases hsecond with rfl | rfl <;> decide
    rw [hfield] at hread
    rw [blockToJson, storedBlock, hfield, parseBlock, if_neg (by simp [Json.isObject]), find_pair_first]
    dsimp only
    rw [Read.bind_of_eq_pure hread]
    dsimp only
    rw [Read.bind_of_eq_pure (finish_pair (by decide) hseen place)]
    rfl
  | levels + 1, .cond path negated single body, h, place => by
    have hbody : ∀ block ∈ body, ∀ place,
        parseBlock registrations levels (blockToJson block) place = pure (storedBlock block) :=
      fun block hb => parseBlock_stored hexact (h.2 block hb)
    have hread := fun first hblock hblocks => @parseBody_bodyField ν _
      (parseBlock registrations levels) first (.string path) single body hblock hblocks h.1 hbody place
    obtain ⟨second, value, hfield, hsecond⟩ := exists_bodyField single (blockListToJson body)
    have hseen : second ∈ [str "each", str "if", str "unless", str "block", str "blocks"] := by
      rcases hsecond with rfl | rfl <;> decide
    have hother : ∀ key ∈ [str "each", str "if", str "unless"], second ≠ key := by
      rcases hsecond with rfl | rfl <;> decide
    rw [hfield] at hread
    rw [blockToJson, storedBlock, hfield]
    cases negated
    · show parseBlock registrations (levels + 1)
        (.object [(str "if", .string path), (second, value)]) place = _
      rw [parseBlock, if_neg (by simp [Json.isObject]), find_pair_none (by decide) (hother _ (by decide)),
        find_pair_none (by decide) (hother _ (by decide)), find_pair_first]
      dsimp only
      rw [Read.bind_of_eq_pure (hread (str "if") (by decide) (by decide))]
      dsimp only
      rw [Read.bind_of_eq_pure (finish_pair (by decide) hseen place)]
      rfl
    · show parseBlock registrations (levels + 1)
        (.object [(str "unless", .string path), (second, value)]) place = _
      rw [parseBlock, if_neg (by simp [Json.isObject]), find_pair_none (by decide) (hother _ (by decide)),
        find_pair_first]
      dsimp only
      rw [Read.bind_of_eq_pure (hread (str "unless") (by decide) (by decide))]
      dsimp only
      rw [Read.bind_of_eq_pure (finish_pair (by decide) hseen place)]
      rfl

end

/-! ### What the reader gives -/

section
variable {registrations : Registrations} (json value : Json ν) (place : Bytes)

theorem isInt_toInt (json : Json ν) : IsInt (toInt json) := isInt_bmod _

theorem isInt_readInt {key : Bytes} : ∀ i ∈ readInt json key, IsInt i := by
  intro i hi
  obtain ⟨value, -, hvalue⟩ := Option.bind_eq_some_iff.mp hi
  split_ifs at hvalue
  obtain rfl := Option.some.inj hvalue
  exact isInt_toInt value

theorem isInt_getD_readInt {key : Bytes} {default : ℤ} (h : IsInt default) :
    IsInt ((readInt json key).getD default) := by
  cases hread : readInt json key with
  | none => exact h
  | some i => exact isInt_readInt json i hread

theorem isInt_getD_toInt {n : Option (Json ν)} {default : ℤ} (h : IsInt default) :
    IsInt ((n.map toInt).getD default) := by
  rcases n with _ | value
  · exact h
  · exact isInt_toInt value

theorem yields_parseTextStyle : (parseTextStyle json place).Yields IntStyle := by
  unfold parseTextStyle
  split_ifs
  · exact Read.yields_fail
  · refine .then fun _ => .then fun _ => .then fun _ => .then fun _ => Read.yields_pure ?_
    intro n hn
    simp only [List.mem_cons, List.not_mem_nil, or_false] at hn
    rcases hn with rfl | rfl | rfl | rfl | rfl | rfl | rfl <;> exact isInt_readInt json

theorem soundRef_name (name : Option Bytes) : SoundRef { name } :=
  ⟨.inr rfl, by simp [IntStyle]⟩

theorem yields_parseStyleRef (json : Option (Json ν)) :
    (parseStyleRef json place).Yields SoundRef := by
  unfold parseStyleRef
  split
  · exact Read.yields_pure (soundRef_name none)
  · exact Read.yields_pure (soundRef_name _)
  · split_ifs
    · exact (yields_parseTextStyle _ place).bind fun style h => Read.yields_pure ⟨.inl rfl, h⟩
    · exact Read.yields_fail

theorem sound_parseWidthObject {allowPercent : Bool} {width : CellWidth}
    (h : parseWidthObject json allowPercent = some width) :
    SoundWidth width ∧ (width.unit = .percent → allowPercent = true) := by
  unfold parseWidthObject at h
  split at h
  · obtain rfl := Option.some.inj h
    exact ⟨⟨isInt_toInt _, nofun⟩, nofun⟩
  split at h
  · obtain rfl := Option.some.inj h
    exact ⟨⟨isInt_toInt _, nofun⟩, nofun⟩
  split at h
  · obtain rfl := Option.some.inj h
    refine ⟨⟨isInt_toInt _, nofun⟩, fun hunit => ?_⟩
    by_contra hno
    rename_i hpercent
    rw [if_neg hno] at hpercent
    cases hpercent
  split at h
  · obtain rfl := Option.some.inj h
    rename_i value _
    have hint := isInt_toInt value
    refine ⟨⟨?_, fun _ => Int.le_max_left _ _⟩, nofun⟩
    unfold IsInt at hint ⊢
    dsimp only
    omega
  · cases h

theorem yields_parseCellWidth (json : Option (Json ν)) (allowPercent : Bool) :
    (parseCellWidth json place allowPercent).Yields fun width =>
      SoundWidth width ∧ (width.unit = .percent → allowPercent = true) := by
  have hone : IsInt 1 := ⟨by decide, by decide⟩
  unfold parseCellWidth
  split
  · exact Read.yields_pure ⟨⟨hone, fun _ => le_refl _⟩, nofun⟩
  · split_ifs
    · exact Read.yields_pure ⟨⟨hone, fun _ => le_refl _⟩, nofun⟩
    · exact Read.yields_fail
  · refine Read.yields_pure ⟨⟨isInt_toInt _, ?_⟩, ?_⟩
    · cases allowPercent <;> nofun
    · cases allowPercent <;> nofun
  · split
    · exact Read.yields_pure (sound_parseWidthObject _ ‹_›)
    · exact Read.yields_fail

theorem yields_parseCell (index : ℕ) : (parseCell place index json).Yields SoundCell := by
  unfold parseCell
  dsimp only
  split_ifs
  · exact Read.yields_fail
  · refine (yields_parseCellWidth _ _ _).bind fun width hwidth => .then fun _ => .then fun _ =>
      (yields_parseStyleRef _ _).bind fun style hstyle => .then fun _ =>
        Read.yields_pure ⟨hwidth.1, fun hp => ?_, hstyle⟩
    exact absurd (hwidth.2 hp) (by decide)

omit [Doubles ν] in
theorem isInt_of_mem_none : ∀ i ∈ (none : Option ℤ), IsInt i :=
  fun _ hi => absurd hi (Option.not_mem_none _)

theorem yields_parseRule : (parseRule value place).Yields fun rule =>
    (rule.kind ≠ .char → rule.char = []) ∧ ∀ i ∈ rule.thicknessDots, IsInt i := by
  have hkind : ∀ place, (dividerKind value place).Yields fun r => r.1 ≠ .char → r.2 = [] := by
    intro place
    unfold dividerKind
    refine .then fun kind => ?_
    split
    · exact Read.yields_pure fun hne => absurd rfl hne
    · exact Read.yields_pure fun _ => rfl
  unfold parseRule
  split
  · split
    · exact Read.yields_pure ⟨fun _ => rfl, isInt_of_mem_none⟩
    · split_ifs
      · exact Read.yields_pure ⟨fun hne => absurd rfl hne, isInt_of_mem_none⟩
      · exact .then fun _ => Read.yields_pure ⟨fun _ => rfl, isInt_of_mem_none⟩
  · exact (hkind _).bind fun r hr => .then fun _ => Read.yields_pure ⟨hr, isInt_readInt _⟩
  · exact Read.yields_fail

theorem yields_parsePicture : (parsePicture value place).Yields fun picture =>
    IsInt picture.width ∧ IsInt picture.height := by
  have hzero : IsInt 0 := ⟨by decide, by decide⟩
  have hsize : ∀ json : Json ν, ∀ key, IsInt (((readInt json key).getD 0).toNat : ℤ) := by
    intro json key
    have hint := @isInt_getD_readInt ν _ json key 0 hzero
    unfold IsInt at hint ⊢
    omega
  unfold parsePicture
  split
  · exact Read.yields_pure ⟨hzero, hzero⟩
  · exact .then fun _ => .then fun _ => Read.yields_pure ⟨hsize _ _, hsize _ _⟩
  · exact Read.yields_fail

/-- Every kind of leaf is sound. -/
theorem yields_leafReader {reader : LeafReader ν} (h : reader ∈ leafReaders) :
    (reader.2 json value place).Yields (SoundLeaf registrations) := by
  simp only [leafReaders, List.mem_cons, List.not_mem_nil, or_false] at h
  rcases h with rfl | rfl | rfl | rfl | rfl | rfl | rfl | rfl | rfl | rfl
  · exact (yields_parseStyleRef _ _).bind fun style hstyle => .then fun _ => Read.yields_pure hstyle
  · show (parseColumns json value place).Yields _
    unfold parseColumns
    split
    · refine (Read.yields_each fun item _ i => yields_parseCell item place i).bind fun cells h =>
        .then fun _ => Read.yields_pure h.2
    · exact Read.yields_fail
  · exact (yields_parseRule _ _).bind fun rule hrule => (yields_parseStyleRef _ _).bind
      fun style hstyle => .then fun _ => Read.yields_pure ⟨hrule.1, hrule.2, hstyle⟩
  · have hfeed : ∀ {x : Read Bytes (Leaf ν)}, x.Yields (SoundLeaf registrations) →
        (x >>= fun leaf => finish json place (takenUpTo (str "feed")) >>= fun _ =>
          pure leaf).Yields (SoundLeaf registrations) :=
      fun hx => hx.bind fun leaf hleaf => .then fun _ => Read.yields_pure hleaf
    refine hfeed ?_
    split
    · exact Read.yields_pure ⟨isInt_toInt _, isInt_of_mem_none⟩
    · refine Read.yields_pure ⟨isInt_getD_toInt ⟨by decide, by decide⟩, fun i hi => ?_⟩
      obtain ⟨dots, -, rfl⟩ := Option.map_eq_some_iff.mp hi
      exact isInt_toInt dots
    · exact Read.yields_fail
  · have hcut : (parseCut json value place).Yields fun leaf => ∃ kind, leaf = .cut kind := by
      unfold parseCut
      refine Read.Yields.bind (P := fun leaf : Leaf ν => ∃ kind, leaf = .cut kind) ?_ fun leaf h =>
        .then fun _ => Read.yields_pure h
      split
      · exact Read.yields_pure ⟨_, rfl⟩
      · exact Read.yields_pure ⟨_, rfl⟩
      · exact Read.yields_fail
    refine hcut.imp ?_
    rintro leaf ⟨kind, rfl⟩
    trivial
  · exact .then fun _ => Read.yields_pure
      ⟨isInt_getD_toInt ⟨by decide, by decide⟩, isInt_getD_toInt ⟨by decide, by decide⟩⟩
  · exact .then fun _ => .then fun _ => Read.yields_pure trivial
  · exact .then fun _ => .then fun _ =>
      Read.yields_pure (isInt_getD_readInt json ⟨by decide, by decide⟩)
  · exact .then fun _ => .then fun _ => Read.yields_pure
      ⟨isInt_getD_readInt json ⟨by decide, by decide⟩, isInt_getD_readInt json ⟨by decide, by decide⟩⟩
  · exact (yields_parsePicture _ _).bind fun picture hpicture => (yields_parseCellWidth _ _ _).bind
      fun target htarget => .then fun _ => Read.yields_pure ⟨hpicture.1, hpicture.2, htarget.1⟩

theorem yields_parseLeaf (hobject : json.isObject = true)
    (hcontrol : ∀ key ∈ kindKeys.take 3, json.find key = none) :
    (parseLeaf registrations json place).Yields (SoundLeaf registrations) := by
  unfold parseLeaf
  split
  next leaf hleaf =>
    obtain ⟨reader, hreader, hfound⟩ := List.exists_of_findSome?_eq_some hleaf
    obtain ⟨value, -, rfl⟩ := Option.map_eq_some_iff.mp hfound
    exact yields_leafReader json value place hreader
  next hnone =>
    rw [List.findSome?_eq_none_iff] at hnone
    have hunknown : ∀ key ∈ kindKeys, json.find key = none := by
      intro key hkey
      rw [← List.take_append_drop 3 kindKeys] at hkey
      rcases List.mem_append.mp hkey with hkey | hkey
      · exact hcontrol key hkey
      · have hkeys : kindKeys.drop 3 = (leafReaders : List (LeafReader ν)).map Prod.fst := rfl
        rw [hkeys] at hkey
        obtain ⟨reader, hreader, rfl⟩ := List.mem_map.mp hkey
        exact Option.map_eq_none_iff.mp (hnone reader hreader)
    unfold parseCustom
    split
    · exact Read.yields_pure ⟨hobject, hunknown, ‹_›⟩
    · exact Read.yields_fail

omit [Doubles ν] in
theorem yields_parseBody {parse : Json ν → Bytes → Read Bytes (Block ν)} {Q : Block ν → Prop}
    (h : ∀ json place, (parse json place).Yields Q) :
    (parseBody parse json place).Yields fun r =>
      (r.1 = true → r.2.length = 1) ∧ ∀ block ∈ r.2, Q block := by
  unfold parseBody
  split
  · refine (h _ _).bind fun block hblock => Read.yields_pure ⟨fun _ => rfl, fun b hb => ?_⟩
    obtain rfl := List.mem_singleton.mp hb
    exact hblock
  · split
    · exact (Read.yields_each fun item _ i => h item _).bind fun body hbody =>
        Read.yields_pure ⟨nofun, hbody.2⟩
    · exact Read.yields_fail
    · exact Read.yields_fail

/-- Every block that is read is sound. -/
theorem yields_parseBlock : ∀ {levels : ℕ} {json : Json ν} {place : Bytes},
    (parseBlock registrations levels json place).Yields (SoundBlock registrations levels)
  | 0, _, _ => Read.yields_fail
  | levels + 1, json, place => by
    have hbody := yields_parseBody json place fun json place =>
      @yields_parseBlock levels json place
    unfold parseBlock
    split_ifs with hobject
    · exact Read.yields_fail
    · split
      · exact hbody.bind fun r hr => .then fun _ => Read.yields_pure hr
      next heach =>
        split
        · exact hbody.bind fun r hr => .then fun _ => Read.yields_pure hr
        · exact hbody.bind fun r hr => .then fun _ => Read.yields_pure hr
        next hunless hif =>
          refine (yields_parseLeaf json place (by simpa using hobject) ?_).bind fun leaf hleaf =>
            Read.yields_pure hleaf
          intro key hkey
          simp only [kindKeys, List.take_succ_cons, List.take_zero, List.mem_cons,
            List.not_mem_nil, or_false] at hkey
          rcases hkey with rfl | rfl | rfl
          · exact heach
          · exact hif
          · exact hunless

end

/-! ### Documents -/

/-- The last style of a name, where the first of that name stood. -/
def keptStyles (styles : List (Bytes × TextStyle)) : List (Bytes × TextStyle) :=
  upsertAll Prod.fst styles []

/-- What is kept of a document. -/
def stored (document : Document ν) : Document ν :=
  { document with
    styles := keptStyles document.styles
    blocks := storedBlocks document.blocks }

structure SoundMargins (margins : Margins ν) : Prop where
  top : ∀ i ∈ margins.topDots, IsInt i
  bottom : ∀ i ∈ margins.bottomDots, IsInt i

structure SoundDocument (registrations : Registrations) (document : Document ν) : Prop where
  version : IsInt document.version
  margins : SoundMargins document.info.margins
  styles : ∀ entry ∈ document.styles, IntStyle entry.2
  blocks : ∀ block ∈ document.blocks, SoundBlock registrations blockLevels block

omit [Doubles ν] in
theorem map_upsert {α β : Type} {f : α → β} (entry : Bytes × α) (l : List (Bytes × α)) :
    (upsert Prod.fst entry l).map (fun e => (e.1, f e.2)) =
      upsert Prod.fst (entry.1, f entry.2) (l.map fun e => (e.1, f e.2)) := by
  induction l with
  | nil => rfl
  | cons e l ih =>
    rw [upsert, List.map_cons, upsert]
    dsimp only
    split_ifs
    · rfl
    · rw [List.map_cons, ih]

theorem stylesToJson_eq (styles : List (Bytes × TextStyle)) :
    (stylesToJson styles : Json ν) =
      .object ((keptStyles styles).map fun entry => (entry.1, styleToJson entry.2)) := by
  have hfold : ∀ kept : List (Bytes × TextStyle),
      setAll (.object (kept.map fun entry => (entry.1, (styleToJson entry.2 : Json ν))))
        (styles.map fun entry => (entry.1, some (styleToJson entry.2))) =
      .object ((upsertAll Prod.fst styles kept).map
        fun entry => (entry.1, styleToJson entry.2)) := by
    induction styles with
    | nil => exact fun kept => rfl
    | cons entry styles ih =>
      intro kept
      have hstep : upsertAll Prod.fst (entry :: styles) kept =
          upsertAll Prod.fst styles (upsert Prod.fst entry kept) := rfl
      rw [hstep, ← ih, map_upsert]
      rfl
  exact hfold []

omit [Doubles ν] in
/-- A table whose names differ is kept as it is. -/
theorem keptStyles_of_nodup {styles : List (Bytes × TextStyle)} (h : (styles.map Prod.fst).Nodup) :
    keptStyles styles = styles := upsertAll_of_nodup Prod.fst h

omit [Doubles ν] in
theorem keptStyles_keptStyles (styles : List (Bytes × TextStyle)) :
    keptStyles (keptStyles styles) = keptStyles styles :=
  keptStyles_of_nodup (nodup_upsertAll Prod.fst List.nodup_nil)

omit [Doubles ν] in
theorem isEmpty_keptStyles (styles : List (Bytes × TextStyle)) :
    (keptStyles styles).isEmpty = styles.isEmpty := by
  rw [Bool.eq_iff_iff, List.isEmpty_iff, List.isEmpty_iff, keptStyles, upsertAll_eq_nil]
  simp

/-! ### The parts of a document -/

theorem parseStyles_stored (hexact : Exact ν) {styles : List (Bytes × TextStyle)}
    (h : ∀ entry ∈ styles, IntStyle entry.2) :
    parseStyles (if styles.isEmpty then none else some (stylesToJson styles : Json ν)) =
      pure (keptStyles styles) := by
  by_cases hempty : styles.isEmpty = true
  · rw [if_pos hempty, List.isEmpty_iff.mp hempty]
    rfl
  · rw [if_neg hempty, stylesToJson_eq, parseStyles]
    have hentry : ∀ entry ∈ keptStyles styles, ∀ _ : ℕ,
        (parseTextStyle (styleToJson entry.2 : Json ν) (str "styles." ++ entry.1) >>= fun style =>
          pure (entry.1, style)) = pure entry := by
      intro entry hentry _
      have hint : IntStyle entry.2 :=
        h entry ((mem_of_mem_upsertAll Prod.fst hentry).resolve_left List.not_mem_nil)
      rw [Read.bind_of_eq_pure (parseTextStyle_styleToJson hexact hint _)]
    rw [Read.each_map_eq_pure hentry, List.map_id']

theorem parseMargins_stored (hexact : Exact ν) {margins : Margins ν} (h : SoundMargins margins) :
    ifPresent parseMargins {} (marginsToJson margins) = pure margins := by
  obtain ⟨top, bottom, topMm, bottomMm⟩ := margins
  unfold marginsToJson
  dsimp only
  by_cases hnone : (top.isNone && bottom.isNone && topMm.isNone && bottomMm.isNone) = true
  · rw [if_pos hnone]
    simp only [Bool.and_eq_true, Option.isNone_iff_eq_none] at hnone
    obtain ⟨⟨⟨rfl, rfl⟩, rfl⟩, rfl⟩ := hnone
    rfl
  · rw [if_neg hnone]
    let fields : List (Bytes × Option (Json ν)) :=
      [(str "topDots", top.map .ofInt), (str "bottomDots", bottom.map .ofInt),
        (str "topMm", topMm.map fun mm => .number mm []),
        (str "bottomMm", bottomMm.map fun mm => .number mm [])]
    have hkeys : fields.map Prod.fst =
        [str "topDots", str "bottomDots", str "topMm", str "bottomMm"] := rfl
    have hnodup : (fields.map Prod.fst).Nodup := by rw [hkeys]; decide
    have htop : readInt (Json.object (present fields)) (str "topDots") = top :=
      readInt_eq hexact h.top (find_field hnodup 0 rfl)
    have hbottom : readInt (Json.object (present fields)) (str "bottomDots") = bottom :=
      readInt_eq hexact h.bottom (find_field hnodup 1 rfl)
    have htopMm : (Json.object (present fields)).find (str "topMm") =
        topMm.map fun mm => .number mm [] := find_field hnodup 2 rfl
    have hbottomMm : (Json.object (present fields)).find (str "bottomMm") =
        bottomMm.map fun mm => .number mm [] := find_field hnodup 3 rfl
    have hfinish : finish (Json.object (present fields)) (str "document.meta.margins")
        [str "topDots", str "bottomDots", str "topMm", str "bottomMm"] = pure () :=
      finish_present (by rw [hkeys]; exact fun _ hk => hk) _
    show parseMargins (setAll (.object []) fields) = _
    rw [setAll_eq hnodup, parseMargins]
    dsimp only
    rw [if_neg (by simp [Json.isObject]), Read.bind_of_eq_pure hfinish, htop, hbottom, htopMm, hbottomMm]
    rcases topMm with _ | mm <;> rcases bottomMm with _ | mm' <;> rfl

omit [Doubles ν] in
theorem parseMetaCut_eq {json : Json ν} {cut : Option CutRequest}
    (h : json.find (str "cut") = cut.map fun request => .string (cutRequestName request)) :
    parseMetaCut json = pure cut := by
  rw [parseMetaCut, h]
  rcases cut with _ | request
  · rfl
  · rw [Option.map_some]
    dsimp only
    rw [parseCutRequest_cutRequestName]

/-- The fields of what is said about a document. -/
def metaFields (info : Meta ν) : List (Bytes × Option (Json ν)) :=
  [(str "locale", differing [] info.locale .string),
    (str "currency", differing [] info.currency .string),
    (str "tz", differing [] info.tz .string),
    (str "cut", info.cut.map fun request => .string (cutRequestName request)),
    (str "margins", marginsToJson info.margins)]

theorem keys_metaFields (info : Meta ν) : (metaFields info).map Prod.fst =
    [str "locale", str "currency", str "tz", str "cut", str "margins"] := rfl

theorem nodup_metaFields (info : Meta ν) : ((metaFields info).map Prod.fst).Nodup := by
  rw [keys_metaFields]
  decide

theorem metaToJson_eq (info : Meta ν) : metaToJson info = .object (present (metaFields info)) :=
  setAll_eq (nodup_metaFields info)

theorem parseMeta_metaToJson (hexact : Exact ν) {info : Meta ν} (h : SoundMargins info.margins) :
    parseMeta (metaToJson info) = pure info := by
  have hfind : ∀ {key value} (i : ℕ), (metaFields info)[i]? = some (key, value) →
      (Json.object (present (metaFields info))).find key = value :=
    fun i hi => find_field (nodup_metaFields info) i hi
  have hmargins := parseMargins_stored hexact h
  have hfinish : finish (Json.object (present (metaFields info))) (str "document.meta")
      [str "locale", str "currency", str "tz", str "cut", str "margins"] = pure () :=
    finish_present (by rw [keys_metaFields]; exact fun _ hk => hk) _
  rw [metaToJson_eq, parseMeta, if_neg (by simp [Json.isObject]),
    Read.bind_of_eq_pure (parseMetaCut_eq (hfind 3 rfl)),
    hfind 4 rfl, Read.bind_of_eq_pure hmargins, Read.bind_of_eq_pure hfinish,
    readString_differing (hfind 0 rfl), readString_differing (hfind 1 rfl),
    readString_differing (hfind 2 rfl)]

/-- What says nothing about a document is left out. -/
theorem eq_of_metaToJson_isEmpty {info : Meta ν} (h : (members (metaToJson info)).isEmpty = true) :
    info = {} := by
  obtain ⟨locale, currency, tz, cut, margins⟩ := info
  rw [metaToJson_eq, List.isEmpty_iff] at h
  have hnone : ∀ {key value} (i : ℕ), (metaFields ⟨locale, currency, tz, cut, margins⟩)[i]? =
      some (key, value) → value = none := by
    intro key value i hi
    rw [← find_field (nodup_metaFields _) i hi]
    have hempty : present (metaFields ⟨locale, currency, tz, cut, margins⟩) = [] := h
    rw [hempty]
    rfl
  have hdiffering : ∀ {text : Bytes}, differing [] text (Json.string : Bytes → Json ν) = none →
      text = [] := by
    intro text htext
    by_contra hne
    rw [differing, if_neg hne] at htext
    cases htext
  have hlocale : locale = [] := hdiffering (hnone 0 rfl)
  have hcurrency : currency = [] := hdiffering (hnone 1 rfl)
  have htz : tz = [] := hdiffering (hnone 2 rfl)
  have hcut : cut = none := Option.map_eq_none_iff.mp (hnone 3 rfl)
  have hmargins : margins = {} := by
    have h4 : marginsToJson margins = none := hnone 4 rfl
    obtain ⟨top, bottom, topMm, bottomMm⟩ := margins
    unfold marginsToJson at h4
    dsimp only at h4
    split_ifs at h4 with hall
    simp only [Bool.and_eq_true, Option.isNone_iff_eq_none] at hall
    obtain ⟨⟨⟨rfl, rfl⟩, rfl⟩, rfl⟩ := hall
    rfl
  rw [hlocale, hcurrency, htz, hcut, hmargins]

theorem parseBlocks_stored (hexact : Exact ν) {registrations : Registrations}
    {blocks : List (Block ν)} (h : ∀ block ∈ blocks, SoundBlock registrations blockLevels block) :
    parseBlocks registrations (some (.array (blockListToJson blocks))) =
      pure (storedBlocks blocks) := by
  rw [blockListToJson_eq, storedBlocks_eq, parseBlocks]
  exact Read.each_map_eq_pure fun block hb i => parseBlock_stored hexact (h block hb) _

/-! ### Documents that were read -/

theorem parseDocument_documentToJson (hexact : Exact ν) {registrations : Registrations}
    {document : Document ν} (h : SoundDocument registrations document) :
    parseDocument registrations (documentToJson document) = pure (stored document) := by
  let fields : List (Bytes × Option (Json ν)) :=
    [(str "v", some (.ofInt document.version)),
      (str "template", if document.isTemplate then some (.boolean true) else none),
      (str "meta", if (members (metaToJson document.info)).isEmpty then none
        else some (metaToJson document.info)),
      (str "styles", if document.styles.isEmpty then none else some (stylesToJson document.styles)),
      (str "blocks", some (.array (blockListToJson document.blocks)))]
  have hkeys : fields.map Prod.fst =
      [str "v", str "template", str "meta", str "styles", str "blocks"] := rfl
  have hnodup : (fields.map Prod.fst).Nodup := by rw [hkeys]; decide
  have hversion : readInt (Json.object (present fields)) (str "v") = some document.version :=
    readInt_eq hexact (by rintro i ⟨⟩; exact h.version) (find_field hnodup 0 rfl)
  have htemplate : (((Json.object (present fields)).find (str "template")).map Json.truthy).getD false =
      document.isTemplate := by
    rw [find_field hnodup 1 rfl]
    cases document.isTemplate <;> rfl
  have hinfo : ifPresent parseMeta {} ((Json.object (present fields)).find (str "meta")) =
      pure document.info := by
    rw [find_field hnodup 2 rfl]
    by_cases hempty : (members (metaToJson document.info)).isEmpty = true
    · rw [if_pos hempty, eq_of_metaToJson_isEmpty hempty]
      rfl
    · rw [if_neg hempty]
      exact parseMeta_metaToJson hexact h.margins
  have hstyles : parseStyles ((Json.object (present fields)).find (str "styles")) =
      pure (keptStyles document.styles) := by
    rw [find_field hnodup 3 rfl]
    exact parseStyles_stored hexact h.styles
  have hblocks : parseBlocks registrations ((Json.object (present fields)).find (str "blocks")) =
      pure (storedBlocks document.blocks) := by
    rw [find_field hnodup 4 rfl]
    exact parseBlocks_stored hexact h.blocks
  have hfinish : finish (Json.object (present fields)) (str "document")
      [str "v", str "template", str "meta", str "styles", str "blocks"] = pure () :=
    finish_present (by rw [hkeys]; exact fun _ hk => hk) _
  have hjson : documentToJson document = .object (present fields) := setAll_eq hnodup
  rw [hjson, parseDocument, if_neg (by simp [Json.isObject]), Read.bind_of_eq_pure hinfo,
    Read.bind_of_eq_pure hstyles, Read.bind_of_eq_pure hblocks, Read.bind_of_eq_pure hfinish, hversion,
    htemplate]
  rfl

theorem documentToJson_stored (document : Document ν) :
    documentToJson (stored document) = documentToJson document := by
  have hstyles : (stylesToJson (keptStyles document.styles) : Json ν) =
      stylesToJson document.styles := by
    rw [stylesToJson_eq, stylesToJson_eq, keptStyles_keptStyles]
  have hempty : (stored document).styles.isEmpty = document.styles.isEmpty :=
    isEmpty_keptStyles document.styles
  have hkept : (stored document).styles = keptStyles document.styles := rfl
  have hblocks : blockListToJson (stored document).blocks = blockListToJson document.blocks :=
    blockListToJson_storedBlocks document.blocks
  rw [documentToJson, documentToJson, hempty, hkept, hstyles, hblocks]
  rfl

theorem yields_parseMeta (json : Json ν) :
    (parseMeta json).Yields fun info => SoundMargins info.margins := by
  have hmargins : ∀ json : Json ν, (parseMargins json).Yields SoundMargins := by
    intro json
    unfold parseMargins
    dsimp only
    split_ifs
    · exact Read.yields_fail
    · exact .then fun _ => Read.yields_pure ⟨isInt_readInt json, isInt_readInt json⟩
  unfold parseMeta
  dsimp only
  split_ifs
  · exact Read.yields_fail
  · refine .then fun _ => Read.Yields.bind (P := SoundMargins) ?_ fun margins h => .then fun _ =>
      Read.yields_pure h
    unfold ifPresent
    split
    · exact hmargins _
    · exact Read.yields_pure ⟨isInt_of_mem_none, isInt_of_mem_none⟩

theorem yields_parseStyles (json : Option (Json ν)) :
    (parseStyles json).Yields fun styles => ∀ entry ∈ styles, IntStyle entry.2 := by
  unfold parseStyles
  split
  · exact Read.yields_pure fun _ h => absurd h List.not_mem_nil
  · refine (Read.yields_each (Q := fun entry => IntStyle entry.2) fun member _ _ => ?_).imp
      fun styles h => h.2
    exact (yields_parseTextStyle _ _).bind fun style h => Read.yields_pure h
  · exact Read.yields_fail

theorem yields_parseBlocks (registrations : Registrations) (json : Option (Json ν)) :
    (parseBlocks registrations json).Yields fun blocks =>
      ∀ block ∈ blocks, SoundBlock registrations blockLevels block := by
  unfold parseBlocks
  split
  · exact Read.yields_pure fun _ h => absurd h List.not_mem_nil
  · exact (Read.yields_each fun _ _ _ => yields_parseBlock).imp fun blocks h => h.2
  · exact Read.yields_fail

/-- Every document that is read is sound. -/
theorem yields_parseDocument (registrations : Registrations) (json : Json ν) :
    (parseDocument registrations json).Yields (SoundDocument registrations) := by
  unfold parseDocument
  split_ifs
  · exact Read.yields_fail
  · refine Read.Yields.bind (P := fun info : Meta ν => SoundMargins info.margins) ?_ fun info hinfo =>
      (yields_parseStyles _).bind fun styles hstyles => (yields_parseBlocks _ _).bind
        fun blocks hblocks => .then fun _ => Read.yields_pure
          ⟨isInt_getD_readInt json ⟨by decide, by decide⟩, hinfo, hstyles, hblocks⟩
    unfold ifPresent
    split
    · exact yields_parseMeta _
    · exact Read.yields_pure ⟨isInt_of_mem_none, isInt_of_mem_none⟩

/-- **Documents read back.** What is written of a document that was read is read without a warning: the
document, but for what no block of its kind uses; and the same is written of that again. -/
theorem reads_back (hexact : Exact ν) {registrations : Registrations} {json : Json ν}
    {document : Document ν} {warnings : List Bytes}
    (h : parseDocument registrations json = .ok (document, warnings)) :
    parseDocument registrations (documentToJson document) = .ok (stored document, []) ∧
      documentToJson (stored document) = documentToJson document :=
  ⟨parseDocument_documentToJson hexact (yields_parseDocument registrations json document warnings h),
    documentToJson_stored document⟩

end

/-! ### Whole numbers for doubles -/

section
local instance wholes : Doubles ℤ where
  ofInt n := n
  isZero n := n == 0
  round n := some n
  formatDouble _ := []

/-- A feed in dots, within a group: the lines are dropped. -/
theorem feed_reads_back :
    parseDocument none (documentToJson (⟨1, false, {}, [],
      [.each (str "lines") true [.leaf (.feed 3 (some 40))]]⟩ : Document ℤ)) =
      .ok (⟨1, false, {}, [], [.each (str "lines") true [.leaf (.feed 1 (some 40))]]⟩, []) := by
  have hread : parseDocument none (.object [(str "blocks", .array [.object
      [(str "each", .string (str "lines")), (str "block", .object
        [(str "feed", .object [(str "lines", .number 3 []), (str "dots", .number 40 [])]),
          (str "colour", .null)])]])] : Json ℤ) =
      .ok (⟨1, false, {}, [], [.each (str "lines") true [.leaf (.feed 3 (some 40))]]⟩,
        [str "blocks[0].block: unknown key \"colour\" ignored"]) := rfl
  exact (reads_back (fun n _ => rfl) hread).1

end

end PrinterDriver.Dsl.DocumentRoundTrips
