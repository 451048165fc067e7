import PrinterDriver.Lib.Utf8
import PrinterDriver.Core.Encoder
import PrinterDriver.Dsl.Cells

/-! # One text, three readers

The layout, the encoder of the code pages and the Star encoder each walk over the bytes of a text. The
first two read it as UTF-8 does (`Lib.Utf8`), one character or one malformed byte at a time; the
third prints every byte on its own, so that it agrees with them on ASCII only. -/

namespace PrinterDriver.Dsl.Characters

open PrinterDriver.Lib.Utf8 PrinterDriver.Core.Types PrinterDriver.Core.Profile
  PrinterDriver.Dsl.Text PrinterDriver.Dsl.Cells
open PrinterDriver.Core.CodePage (transliterate transliterateFrom decodeUtf8 lookupCp852 kCp852
  kUnmappedCodepointFallback)
open PrinterDriver.Core.Encoder (transliterateAscii)

/-! ### What the layout sees -/

/-- A character has its code point, and a malformed byte that of the replacement character. -/
def codepoint : Item → ℕ
  | .char c => c.toNat
  | .malformed _ => kReplacement

theorem isScalar_char (c : Char) : isScalar c.toNat = true := by
  have hvalid : c.toNat < 0xD800 ∨ 0xDFFF < c.toNat ∧ c.toNat < 0x110000 := c.valid
  rw [isScalar_iff]
  omega

theorem exists_char {n : ℕ} (h : isScalar n = true) : ∃ c : Char, c.toNat = n := by
  rw [isScalar_iff] at h
  have hvalid : n.isValidChar := by
    rcases h with h | h
    · exact .inl h
    · exact .inr ⟨h.1, by omega⟩
  exact ⟨Char.ofNatAux n hvalid, rfl⟩

/-- The layout writes characters as UTF-8 does. -/
theorem encode_char (c : Char) : encode c.toNat = String.utf8EncodeChar c := by
  have hscalar := isScalar_iff.mp (isScalar_char c)
  have hunfold : String.utf8EncodeChar c = (let v := c.toNat
      if v ≤ 0x7f then [UInt8.ofNat v]
      else if v ≤ 0x7ff then [UInt8.ofNat (v / 64 % 32 + 192), UInt8.ofNat (v % 64 + 128)]
      else if v ≤ 0xffff then
        [UInt8.ofNat (v / 4096 % 16 + 224), UInt8.ofNat (v / 64 % 64 + 128), UInt8.ofNat (v % 64 + 128)]
      else
        [UInt8.ofNat (v / 262144 % 8 + 240), UInt8.ofNat (v / 4096 % 64 + 128),
          UInt8.ofNat (v / 64 % 64 + 128), UInt8.ofNat (v % 64 + 128)]) := rfl
  rw [hunfold]
  unfold encode
  dsimp only
  rw [if_pos (isScalar_char c)]
  generalize c.toNat = v at hscalar
  have htail : ∀ n : ℕ, n % 64 + 128 = 0x80 + n % 64 := fun n => Nat.add_comm _ _
  rw [htail v, htail (v / 64), htail (v / 4096)]
  by_cases h1 : v < 0x80
  · have hle : v ≤ 0x7f := by omega
    rw [if_pos h1, if_pos hle]
  have hgt : ¬v ≤ 0x7f := by omega
  rw [if_neg h1, if_neg hgt]
  by_cases h2 : v < 0x800
  · have hle : v ≤ 0x7ff := by omega
    have hlead : v / 64 % 32 + 192 = 0xC0 + v / 64 := by omega
    rw [if_pos h2, if_pos hle, hlead]
  have hgt : ¬v ≤ 0x7ff := by omega
  rw [if_neg h2, if_neg hgt]
  by_cases h3 : v < 0x10000
  · have hle : v ≤ 0xffff := by omega
    have hlead : v / 4096 % 16 + 224 = 0xE0 + v / 4096 := by omega
    rw [if_pos h3, if_pos hle, hlead]
  have hgt : ¬v ≤ 0xffff := by omega
  have hlead : v / 262144 % 8 + 240 = 0xF0 + v / 262144 := by omega
  rw [if_neg h3, if_neg hgt, hlead]

/-- Where the layout reads a character, one stands. -/
theorem decodeOne_eq_some {b : UInt8} {rest : Bytes} {n length : ℕ}
    (h : decodeOne b rest = some (n, length)) : ∃ c : Char, c.toNat = n ∧
      String.utf8EncodeChar c ++ rest.drop (length - 1) = b :: rest ∧
        length = (String.utf8EncodeChar c).length := by
  obtain ⟨c, rfl⟩ := exists_char (decodeOne_spec h).1
  have hback := encode_of_decodeOne h
  have hlen := length_of_decodeOne h
  rw [encode_char] at hback hlen
  exact ⟨c, rfl, hback, hlen⟩

/-- Where it reads none, none stands. -/
theorem decodeOne_eq_none {b : UInt8} {rest : Bytes} :
    decodeOne b rest = none ↔ ∀ c, ¬String.utf8EncodeChar c <+: b :: rest := by
  constructor
  · rintro h c ⟨tail, hcons⟩
    rw [← encode_char] at hcons
    rw [decodeOne_encode (isScalar_char c) hcons] at h
    cases h
  · intro h
    by_contra hne
    obtain ⟨⟨n, length⟩, hone⟩ := Option.ne_none_iff_exists'.mp hne
    obtain ⟨c, -, hcons, -⟩ := decodeOne_eq_some hone
    exact h c ⟨_, hcons⟩

/-- What the layout sees is what stands in the text. -/
theorem decode_of_reads {utf8 : Bytes} {items : List Item} (h : Reads utf8 items) :
    decode utf8 = items.map codepoint := by
  unfold decode
  induction h with
  | nil => rfl
  | char c h ih =>
    rw [← encode_char, decodeFrom_encode (isScalar_char c), ih, List.map_cons, codepoint]
  | malformed hnone h ih =>
    rw [decodeFrom, decodeOne_eq_none.mpr hnone, ih, List.map_cons, codepoint]

/-- Every text is read. -/
theorem exists_reads (utf8 : Bytes) : ∃ items, Reads utf8 items := by
  induction hn : utf8.length using Nat.strong_induction_on generalizing utf8 with
  | _ n ih =>
    cases utf8 with
    | nil => exact ⟨[], .nil⟩
    | cons b rest =>
      rw [List.length_cons] at hn
      cases hone : decodeOne b rest with
      | none =>
        obtain ⟨items, h⟩ := ih rest.length (by omega) rest rfl
        exact ⟨_, .malformed (decodeOne_eq_none.mp hone) h⟩
      | some r =>
        obtain ⟨c, -, hcons, -⟩ := decodeOne_eq_some hone
        have hdrop := List.length_drop (i := r.2 - 1) (l := rest)
        obtain ⟨items, h⟩ := ih (rest.drop (r.2 - 1)).length (by omega) _ rfl
        refine ⟨Item.char c :: items, ?_⟩
        rw [← hcons]
        exact .char c h

/-! ### What the code pages print -/

/-- The byte that a character prints as. -/
def pageByte (codePage : CodePage) : Item → UInt8
  | .char c => Core.CodePage.printed codePage (some c.val)
  | .malformed _ => kUnmappedCodepointFallback

theorem transliterateFrom_of_reads {codePage : CodePage} {text : Bytes} {items : List Item}
    (h : Reads text items) : ∀ {utf8 : Bytes} {index fuel : ℕ}, utf8.drop index = text →
      utf8.length ≤ index + fuel →
        transliterateFrom utf8 codePage fuel index = some (items.map (pageByte codePage)) := by
  -- one step, at a character or a malformed byte
  have hstep : ∀ {utf8 rest : Bytes} {b : UInt8} {index fuel : ℕ}, utf8.drop index = b :: rest →
      utf8.length ≤ index + fuel → ∃ n r behind, fuel = n + 1 ∧ index < utf8.length ∧
        decodeUtf8 utf8 index = some (r, behind) ∧
        r.map UInt32.toNat = (decodeOne b rest).map Prod.fst ∧
        behind = index + ((decodeOne b rest).map Prod.snd).getD 1 := by
    intro utf8 rest b index fuel hdrop hfuel
    have hlen := congrArg List.length hdrop
    rw [List.length_drop, List.length_cons] at hlen
    have hindex : index < utf8.length := by omega
    obtain ⟨r, behind, hone, -⟩ := Core.CodePage.decodeUtf8_eq_some hindex
    obtain ⟨hr, hbehind⟩ := decodeUtf8_agrees hdrop hone
    exact ⟨fuel - 1, r, behind, by omega, hindex, hone, hr, hbehind⟩
  induction h with
  | nil =>
    intro utf8 index fuel hdrop hfuel
    have hlen := List.drop_eq_nil_iff.mp hdrop
    cases fuel with
    | zero => rfl
    | succ n =>
      rw [transliterateFrom, if_neg (by omega)]
      rfl
  | @char c rest items h ih =>
    intro utf8 index fuel hdrop hfuel
    obtain ⟨b, tail, hcons⟩ := List.exists_cons_of_ne_nil
      (List.append_ne_nil_of_left_ne_nil (encode_ne_nil c) rest)
    have hone : decodeOne b tail = some (c.toNat, (String.utf8EncodeChar c).length) := by
      rw [← encode_char] at hcons ⊢
      exact decodeOne_encode (isScalar_char c) hcons
    obtain ⟨n, r, behind, rfl, hindex, hdecode, hr, hbehind⟩ := hstep (hdrop.trans hcons) hfuel
    rw [hone, Option.map_some] at hr hbehind
    obtain ⟨v, rfl, hv⟩ := Option.map_eq_some_iff.mp hr
    obtain rfl : v = c.val := UInt32.toNat_inj.mp hv
    have hpos := List.length_pos_iff.mpr (encode_ne_nil c)
    have hnext : utf8.drop behind = rest := by
      rw [hbehind, Option.getD_some, ← List.drop_drop, hdrop, List.drop_left]
    rw [Option.getD_some] at hbehind
    rw [transliterateFrom, if_pos hindex, hdecode, Option.bind_eq_bind, Option.bind_some]
    dsimp only
    rw [ih hnext (by omega)]
    rfl
  | @malformed b rest items hnone h ih =>
    intro utf8 index fuel hdrop hfuel
    obtain ⟨n, r, behind, rfl, hindex, hdecode, hr, hbehind⟩ := hstep hdrop hfuel
    rw [decodeOne_eq_none.mpr hnone] at hr hbehind
    obtain rfl := Option.map_eq_none_iff.mp hr
    have hnext : utf8.drop behind = rest := by
      rw [hbehind, Option.map_none, Option.getD_none, ← List.drop_drop, hdrop, List.drop_one,
        List.tail_cons]
    rw [Option.map_none, Option.getD_none] at hbehind
    rw [transliterateFrom, if_pos hindex, hdecode, Option.bind_eq_bind, Option.bind_some]
    dsimp only
    rw [ih hnext (by omega)]
    rfl

theorem transliterate_of_reads {utf8 : Bytes} {items : List Item} (h : Reads utf8 items)
    (codePage : CodePage) : transliterate utf8 codePage = some (items.map (pageByte codePage)) :=
  transliterateFrom_of_reads h List.drop_zero (by omega)

/-! ### ASCII -/

theorem lookupCp852_high {n : UInt32} {b : UInt8} (h : lookupCp852 n = some b) : 0x80 ≤ b := by
  obtain ⟨entry, hfind, rfl⟩ := Option.map_eq_some_iff.mp h
  have hall : kCp852.all (fun entry => 0x80 ≤ entry.2) = true := by decide +kernel
  exact of_decide_eq_true (List.all_eq_true.mp hall entry (List.mem_of_find?_eq_some hfind))

theorem lt_val {c : Char} : c.val < 0x80 ↔ c.toNat < 0x80 := UInt32.lt_iff_toNat_lt

/-- ASCII prints as itself. -/
theorem pageByte_ascii {c : Char} (h : c.toNat < 0x80) (codePage : CodePage) :
    pageByte codePage (.char c) = UInt8.ofNat c.toNat := by
  show (if c.val < 0x80 then c.val.toUInt8 else _) = _
  rw [if_pos (lt_val.mpr h)]
  rfl

theorem item_of_codepoint {item : Item} {c : Char} (h : c.toNat < 0x80)
    (hitem : codepoint item = c.toNat) : item = .char c := by
  cases item with
  | char d => rw [Char.toNat_inj.mp hitem]
  | malformed b =>
    have hreplaced : kReplacement = c.toNat := hitem
    have hbig : kReplacement = 0xFFFD := rfl
    omega

/-- What prints as ASCII is itself, or is substituted by a question mark. -/
theorem item_of_pageByte {codePage : CodePage} {item : Item} {c : Char} (h : c.toNat < 0x80)
    (hitem : pageByte codePage item = UInt8.ofNat c.toNat) : item = .char c ∨ c.toNat = 0x3F := by
  have hnat : (UInt8.ofNat c.toNat).toNat = c.toNat := toNat_ofNat (by omega)
  have hsubstitute : kUnmappedCodepointFallback = UInt8.ofNat c.toNat → c.toNat = 0x3F := by
    intro he
    rw [← hnat, ← he]
    rfl
  cases item with
  | malformed b => exact .inr (hsubstitute hitem)
  | char d =>
    by_cases hd : d.toNat < 0x80
    · rw [pageByte_ascii hd] at hitem
      have hsame := congrArg UInt8.toNat hitem
      rw [hnat, toNat_ofNat (by omega)] at hsame
      exact .inl (by rw [Char.toNat_inj.mp hsame])
    · right
      change (if d.val < 0x80 then d.val.toUInt8
        else if codePage = .pc852 then (lookupCp852 d.val).getD kUnmappedCodepointFallback
        else kUnmappedCodepointFallback) = UInt8.ofNat c.toNat at hitem
      rw [if_neg (fun hlt => hd (lt_val.mp hlt))] at hitem
      split_ifs at hitem
      · cases hmapped : lookupCp852 d.val with
        | none =>
          rw [hmapped] at hitem
          exact hsubstitute hitem
        | some b =>
          have hhigh := UInt8.le_iff_toNat_le.mp (lookupCp852_high hmapped)
          rw [hmapped, Option.getD_some] at hitem
          rw [hitem, hnat] at hhigh
          exact absurd hhigh (Nat.not_le.mpr h)
      · exact hsubstitute hitem

/-- **The two UTF-8 readers agree.** The layout and the code pages see the same characters and the same
malformed bytes, as many as bytes are printed, and ASCII at the same places. -/
theorem readers_agree (utf8 : Bytes) (codePage : CodePage) : ∃ items bytes, Reads utf8 items ∧
    decode utf8 = items.map codepoint ∧ transliterate utf8 codePage = some bytes ∧
    bytes = items.map (pageByte codePage) ∧ bytes.length = (decode utf8).length ∧
    ∀ (k : ℕ) (c : Char), c.toNat < 0x80 →
      ((decode utf8)[k]? = some c.toNat ↔ items[k]? = some (.char c)) ∧
      (items[k]? = some (.char c) → bytes[k]? = some (UInt8.ofNat c.toNat)) ∧
      (bytes[k]? = some (UInt8.ofNat c.toNat) → items[k]? = some (.char c) ∨ c.toNat = 0x3F) := by
  obtain ⟨items, h⟩ := exists_reads utf8
  have hdecode := decode_of_reads h
  refine ⟨items, items.map (pageByte codePage), h, hdecode, transliterate_of_reads h codePage, rfl,
    ?_, fun k c hc => ⟨⟨fun hk => ?_, fun hk => ?_⟩, fun hk => ?_, fun hk => ?_⟩⟩
  · rw [hdecode, List.length_map, List.length_map]
  · rw [hdecode, List.getElem?_map] at hk
    obtain ⟨item, hitem, hpoint⟩ := Option.map_eq_some_iff.mp hk
    rw [hitem, item_of_codepoint hc hpoint]
  · rw [hdecode, List.getElem?_map, hk]
    rfl
  · rw [List.getElem?_map, hk, Option.map_some, pageByte_ascii hc]
  · rw [List.getElem?_map] at hk
    obtain ⟨item, hitem, hbyte⟩ := Option.map_eq_some_iff.mp hk
    rcases item_of_pageByte hc hbyte with hsame | hmark
    · exact .inl (by rw [hitem, hsame])
    · exact .inr hmark

/-! ### The Star encoder -/

/-- The byte that a character would print as. -/
def asciiByte : Item → UInt8
  | .char c => if c.toNat < 0x80 then UInt8.ofNat c.toNat else kUnmappedCodepointFallback
  | .malformed _ => kUnmappedCodepointFallback

/-- Both languages print one byte for each character and for each malformed byte. -/
def Agree (utf8 : Bytes) (codePage : CodePage) : Prop :=
  ∃ items, Reads utf8 items ∧ transliterate utf8 codePage = some (items.map (pageByte codePage)) ∧
    transliterateAscii utf8 = items.map asciiByte

theorem encode_ascii_char {c : Char} (h : c.toNat < 0x80) :
    String.utf8EncodeChar c = [UInt8.ofNat c.toNat] := by
  rw [← encode_char]
  unfold encode
  dsimp only
  rw [if_pos (isScalar_char c), if_pos h]

/-- A byte of ASCII is a character. -/
theorem high_of_malformed {b : UInt8} {rest : Bytes}
    (hnone : ∀ c, ¬String.utf8EncodeChar c <+: b :: rest) : ¬b < 0x80 := by
  intro hb
  have hlt : b.toNat < 0x80 := UInt8.lt_iff_toNat_lt.mp hb
  obtain ⟨c, hc⟩ := exists_char (isScalar_iff.mpr (.inl (by omega : b.toNat < 0xD800)))
  refine hnone c ⟨rest, ?_⟩
  rw [encode_ascii_char (hc ▸ hlt), hc, UInt8.ofNat_toNat]
  rfl

theorem two_le_encode {c : Char} (h : ¬c.toNat < 0x80) : 2 ≤ (String.utf8EncodeChar c).length := by
  rw [← encode_char]
  unfold encode
  dsimp only
  rw [if_pos (isScalar_char c), if_neg h]
  split_ifs <;> simp only [List.length_cons, List.length_nil] <;> omega

theorem length_of_reads {utf8 : Bytes} {items : List Item} (h : Reads utf8 items) :
    items.length ≤ utf8.length ∧
      ((∃ c, Item.char c ∈ items ∧ ¬c.toNat < 0x80) → items.length < utf8.length) := by
  induction h with
  | nil => exact ⟨Nat.le_refl _, fun ⟨c, hc, _⟩ => by cases hc⟩
  | @char c rest items h ih =>
    have hpos := List.length_pos_iff.mpr (encode_ne_nil c)
    rw [List.length_cons, List.length_append]
    refine ⟨by omega, ?_⟩
    rintro ⟨d, hd, hhigh⟩
    rcases List.mem_cons.mp hd with he | hd
    · have hlong := two_le_encode (Item.char.inj he ▸ hhigh)
      omega
    · have hless := ih.2 ⟨d, hd, hhigh⟩
      omega
  | @malformed b rest items hnone h ih =>
    rw [List.length_cons, List.length_cons]
    refine ⟨by omega, ?_⟩
    rintro ⟨d, hd, hhigh⟩
    rcases List.mem_cons.mp hd with he | hd
    · cases he
    · have hless := ih.2 ⟨d, hd, hhigh⟩
      omega

theorem transliterateAscii_of_reads {utf8 : Bytes} {items : List Item} (h : Reads utf8 items)
    (hall : ∀ c, Item.char c ∈ items → c.toNat < 0x80) :
    transliterateAscii utf8 = items.map asciiByte := by
  unfold transliterateAscii
  induction h with
  | nil => rfl
  | @char c rest items h ih =>
    have hc := hall c List.mem_cons_self
    have hbyte : UInt8.ofNat c.toNat < 0x80 := by
      rw [UInt8.lt_iff_toNat_lt, toNat_ofNat (by omega)]
      exact hc
    rw [encode_ascii_char hc, List.singleton_append, List.map_cons, List.map_cons, if_pos hbyte,
      ih fun d hd => hall d (List.mem_cons_of_mem _ hd), asciiByte, if_pos hc]
  | @malformed b rest items hnone h ih =>
    rw [List.map_cons, List.map_cons, if_neg (high_of_malformed hnone),
      ih fun d hd => hall d (List.mem_cons_of_mem _ hd)]
    rfl

/-- **The Star encoder and the code pages agree just on texts without characters of several bytes.** -/
theorem agree_iff (utf8 : Bytes) (codePage : CodePage) : Agree utf8 codePage ↔
    ∀ items, Reads utf8 items → ∀ c, Item.char c ∈ items → c.toNat < 0x80 := by
  constructor
  · rintro ⟨items, h, -, hstar⟩ items' h' c hc
    obtain rfl := h.unique h'
    by_contra hhigh
    have hlen := congrArg List.length hstar
    rw [transliterateAscii, List.length_map, List.length_map] at hlen
    have hless := (length_of_reads h).2 ⟨c, hc, hhigh⟩
    omega
  · intro hall
    obtain ⟨items, h⟩ := exists_reads utf8
    exact ⟨items, h, transliterate_of_reads h codePage, transliterateAscii_of_reads h (hall items h)⟩

/-- An accented letter prints as one byte in one language and as two in the other. -/
theorem not_agree_accent : ¬Agree [0xC3, 0xA9] .pc852 ∧
    transliterate [0xC3, 0xA9] .pc852 = some [0x82] ∧
      transliterateAscii [0xC3, 0xA9] = [0x3F, 0x3F] := by
  refine ⟨?_, by decide, by decide⟩
  rintro ⟨items, h, hpage, hstar⟩
  have hone : transliterate [0xC3, 0xA9] .pc852 = some [0x82] := by decide
  have htwo : transliterateAscii [0xC3, 0xA9] = [0x3F, 0x3F] := by decide
  have hpage := congrArg List.length (Option.some.inj (hone.symm.trans hpage))
  have hstar := congrArg List.length (htwo.symm.trans hstar)
  rw [List.length_map] at hpage hstar
  rw [← hpage] at hstar
  cases hstar

end PrinterDriver.Dsl.Characters
