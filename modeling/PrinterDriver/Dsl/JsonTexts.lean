import PrinterDriver.Dsl.JsonParser
import Mathlib.Data.List.TakeWhile
import Mathlib.Tactic.SplitIfs

/-! # What the parser reads

Each function of the parser reads what its part of the grammar spells, and nothing else: of a text that
goes on with anything that may follow, it reads the part and leaves the rest. So the parser reads exactly
the JSON texts whose values stand in no more than the permitted arrays and objects, and reads them as what
they mean (`parseJson_iff`). -/

namespace PrinterDriver.Dsl.JsonTexts

open PrinterDriver.Core.Types PrinterDriver.Dsl.Values PrinterDriver.Dsl.JsonGrammar
open PrinterDriver.Dsl.JsonParser PrinterDriver.Lib.Keyed
open PrinterDriver.Dsl.Text (encode)

section Results
variable {ε α β : Type} {x : Except ε α} {b : β}

theorem bind_ok {f : α → Except ε β} :
    (x >>= f) = .ok b ↔ ∃ a, x = .ok a ∧ f a = .ok b := by
  cases x with
  | error e => exact ⟨fun h => (by cases h), fun ⟨_, h, _⟩ => (by cases h)⟩
  | ok a => exact ⟨fun h => ⟨a, rfl, h⟩, fun ⟨_, h, hf⟩ => (by cases h; exact hf)⟩

theorem map_ok {f : α → β} : x.map f = .ok b ↔ ∃ a, x = .ok a ∧ f a = b := by
  cases x with
  | error e => exact ⟨fun h => (by cases h), fun ⟨_, h, _⟩ => (by cases h)⟩
  | ok a =>
    constructor
    · intro h
      cases h
      exact ⟨a, rfl, rfl⟩
    · rintro ⟨_, h, rfl⟩
      cases h
      rfl

end Results

/-! ### Blanks and single bytes -/

theorem skip_split (text : Bytes) : ∃ w : Blank, text = w.1 ++ skipWhitespace text :=
  ⟨⟨text.takeWhile isBlank, fun _ hc => List.mem_takeWhile_imp hc⟩,
    List.takeWhile_append_dropWhile.symm⟩

theorem skip_of_solid {text : Bytes} (h : ∀ c ∈ text.head?, isBlank c = false) :
    skipWhitespace text = text := by
  cases text with
  | nil => rfl
  | cons c rest => exact List.dropWhile_cons_of_neg (by simp [h c rfl])

theorem skip_blank (w : Blank) (text : Bytes) :
    skipWhitespace (w.1 ++ text) = skipWhitespace text := by
  obtain ⟨w, hw⟩ := w
  show skipWhitespace (w ++ text) = _
  induction w with
  | nil => rfl
  | cons c w ih =>
    have hc : isBlank c = true := hw c List.mem_cons_self
    rw [← ih fun d hd => hw d (List.mem_cons_of_mem c hd)]
    exact List.dropWhile_cons_of_pos hc

theorem skip_cons {c : UInt8} (hc : isBlank c = false) {rest : Bytes} :
    skipWhitespace (c :: rest) = c :: rest := List.dropWhile_cons_of_neg (by simp [hc])

theorem skip_length (text : Bytes) : (skipWhitespace text).length ≤ text.length :=
  (List.dropWhile_suffix isBlank).length_le

theorem expect_ok {c : UInt8} {text rest : Bytes} : expect c text = .ok rest ↔ text = c :: rest := by
  cases text with
  | nil => exact ⟨fun h => (by cases h), fun h => (by cases h)⟩
  | cons b more =>
    unfold expect
    constructor
    · intro h
      dsimp only at h
      split_ifs at h with hb
      cases h
      rw [hb]
    · intro h
      cases h
      exact if_pos rfl

/-! ### Strings -/

theorem parseHex4_ok {text rest : Bytes} {value : ℕ} (h : parseHex4 text = .ok (value, rest)) :
    ∃ u : Hex4, 92 :: 117 :: text = u.text ++ rest ∧ u.value = value := by
  rcases text with _ | ⟨a, _ | ⟨b, _ | ⟨c, _ | ⟨d, more⟩⟩⟩⟩
  · cases h
  · cases h
  · cases h
  · cases h
  · unfold parseHex4 at h
    dsimp only at h
    cases hx : hex4 a b c d with
    | none =>
      rw [hx] at h
      cases h
    | some x =>
      rw [hx] at h
      cases h
      exact ⟨⟨a, b, c, d, value, hx⟩, rfl, rfl⟩

theorem parseHex4_text (u : Hex4) (rest : Bytes) :
    parseHex4 ([u.a, u.b, u.c, u.d] ++ rest) = .ok (u.value, rest) := by
  rw [List.cons_append, List.cons_append, List.cons_append, List.cons_append, List.nil_append]
  unfold parseHex4
  dsimp only
  rw [u.spells]

/-- A `\u` escape, or two. -/
theorem parseUnicode_ok {text rest s : Bytes} (h : parseUnicode text = .ok (s, rest)) :
    ∃ i : Item, 92 :: 117 :: text = i.text ++ rest ∧ i.bytes = s := by
  obtain ⟨⟨high, more⟩, hhigh, h⟩ := bind_ok.mp h
  obtain ⟨u, hu, rfl⟩ := parseHex4_ok hhigh
  dsimp only at h
  by_cases h1 : isHigh u.value
  · rw [if_pos h1] at h
    by_cases hsecond : more.take 2 = [92, 117]
    · rw [if_pos hsecond] at h
      have hmore : more = 92 :: 117 :: more.drop 2 := by
        conv_lhs => rw [← List.take_append_drop 2 more, hsecond]
        rfl
      obtain ⟨⟨low, last⟩, hlow, h⟩ := bind_ok.mp h
      obtain ⟨v, hv, rfl⟩ := parseHex4_ok hlow
      dsimp only at h
      by_cases h2 : isLow v.value
      · rw [if_pos h2] at h
        obtain ⟨hs, rfl⟩ := Prod.mk.inj (Except.ok.inj h)
        refine ⟨.pair u v ⟨h1, h2⟩, ?_, hs⟩
        rw [hu, hmore, hv]
        exact (List.append_assoc _ _ _).symm
      · rw [if_neg h2] at h
        cases h
    · rw [if_neg hsecond] at h
      cases h
  · rw [if_neg h1] at h
    by_cases h2 : isLow u.value
    · rw [if_pos h2] at h
      cases h
    · rw [if_neg h2] at h
      cases h
      exact ⟨.unicode u ⟨h1, h2⟩, hu, rfl⟩

/-- One character of a string, or its end. -/
theorem parseChar_ok {text rest : Bytes} {char : Option Bytes}
    (h : parseChar text = .ok (char, rest)) :
    (char = none ∧ text = 34 :: rest) ∨ ∃ i : Item, char = some i.bytes ∧ text = i.text ++ rest := by
  cases text with
  | nil => cases h
  | cons b more =>
    unfold parseChar at h
    dsimp only at h
    split_ifs at h with h1 h2 h3
    · cases h
      exact .inl ⟨rfl, by rw [h1]⟩
    · cases h
    · cases h
      exact .inr ⟨.plain b ⟨UInt8.not_lt.mp h2, h1, h3⟩, rfl, rfl⟩
    · obtain ⟨⟨s, rest'⟩, hescape, h⟩ := map_ok.mp h
      cases h
      have hb : b = 92 := Decidable.not_not.mp h3
      subst hb
      cases more with
      | nil => cases hescape
      | cons letter more =>
        unfold parseEscape at hescape
        dsimp only at hescape
        cases hs : shortEscape letter with
        | some c =>
          rw [hs] at hescape
          cases hescape
          exact .inr ⟨.short letter c hs, rfl, rfl⟩
        | none =>
          rw [hs] at hescape
          by_cases hu : letter = 117
          · subst hu
            obtain ⟨i, htext, hbytes⟩ := parseUnicode_ok hescape
            exact .inr ⟨i, by rw [hbytes], htext⟩
          · dsimp only at hescape
            rw [if_neg hu] at hescape
            cases hescape

theorem parseUnicode_unicode (u : Hex4) (h : ¬isHigh u.value ∧ ¬isLow u.value) (rest : Bytes) :
    parseUnicode ([u.a, u.b, u.c, u.d] ++ rest) = .ok (encode u.value, rest) := by
  refine bind_ok.mpr ⟨_, parseHex4_text u rest, ?_⟩
  dsimp only
  rw [if_neg h.1, if_neg h.2]

theorem parseUnicode_pair (u v : Hex4) (h : isHigh u.value ∧ isLow v.value) (rest : Bytes) :
    parseUnicode ([u.a, u.b, u.c, u.d] ++ (v.text ++ rest)) =
      .ok (encode (paired u.value v.value), rest) := by
  refine bind_ok.mpr ⟨_, parseHex4_text u (v.text ++ rest), ?_⟩
  dsimp only
  rw [if_pos h.1, if_pos (show (v.text ++ rest).take 2 = [92, 117] from rfl)]
  refine bind_ok.mpr ⟨_, parseHex4_text v rest, ?_⟩
  dsimp only
  rw [if_pos h.2]

theorem parseChar_backslash {text rest s : Bytes} (h : parseEscape text = .ok (s, rest)) :
    parseChar (92 :: text) = .ok (some s, rest) := by
  show (parseEscape text).map (fun r => (some r.1, r.2)) = _
  rw [h]
  rfl

theorem parseChar_item (i : Item) (rest : Bytes) :
    parseChar (i.text ++ rest) = .ok (some i.bytes, rest) := by
  cases i with
  | plain c h =>
    have h1 : ¬c < 0x20 := UInt8.not_lt.mpr h.1
    show (if c = 34 then _ else if c < 0x20 then _ else if c ≠ 92 then _ else _) = _
    rw [if_neg h.2.1, if_neg h1, if_pos h.2.2]
    rfl
  | short letter c h =>
    refine @parseChar_backslash (letter :: rest) _ _ ?_
    have hletter : parseEscape (letter :: rest) = .ok ([c], rest) := by
      unfold parseEscape
      dsimp only
      rw [h]
    exact hletter
  | unicode u h => exact parseChar_backslash (parseUnicode_unicode u h rest)
  | pair high low h =>
    show parseChar (92 :: 117 :: ([high.a, high.b, high.c, high.d] ++ low.text ++ rest)) = _
    rw [List.append_assoc]
    exact parseChar_backslash (parseUnicode_pair high low h rest)

theorem parseChars_ok {n : ℕ} {text rest s : Bytes} (h : parseChars n text = .ok (s, rest)) :
    ∃ items : List Item, text = items.flatMap Item.text ++ 34 :: rest ∧ contents items = s := by
  induction n generalizing text s with
  | zero => cases h
  | succ n ih =>
    obtain ⟨⟨char, more⟩, hchar, hround⟩ := bind_ok.mp h
    rcases parseChar_ok hchar with ⟨rfl, rfl⟩ | ⟨i, rfl, rfl⟩
    · cases hround
      exact ⟨[], rfl, rfl⟩
    · obtain ⟨⟨s', rest'⟩, hmore, hs⟩ := map_ok.mp hround
      cases hs
      obtain ⟨items, rfl, rfl⟩ := ih hmore
      refine ⟨i :: items, ?_, rfl⟩
      rw [List.flatMap_cons, List.append_assoc]

theorem parseChars_items {n : ℕ} (items : List Item) (rest : Bytes) (hn : items.length < n) :
    parseChars n (items.flatMap Item.text ++ 34 :: rest) = .ok (contents items, rest) := by
  induction items generalizing n with
  | nil =>
    obtain ⟨k, rfl⟩ := Nat.exists_eq_succ_of_ne_zero (show n ≠ 0 by omega)
    exact bind_ok.mpr ⟨(none, rest), rfl, rfl⟩
  | cons i items ih =>
    obtain ⟨k, rfl⟩ := Nat.exists_eq_succ_of_ne_zero (show n ≠ 0 by omega)
    rw [List.length_cons] at hn
    rw [List.flatMap_cons, List.append_assoc]
    refine bind_ok.mpr ⟨_, parseChar_item i _, ?_⟩
    dsimp only
    rw [ih (show items.length < k by omega)]
    rfl

theorem length_le_flatMap (items : List Item) : items.length ≤ (items.flatMap Item.text).length := by
  induction items with
  | nil => exact Nat.zero_le _
  | cons i items ih =>
    have hi : 1 ≤ i.text.length := by
      cases i <;> simp [Item.text, Hex4.text]
    rw [List.flatMap_cons, List.length_append, List.length_cons]
    omega

theorem parseString_ok {text rest s : Bytes} : parseString text = .ok (s, rest) ↔
    ∃ items, text = quoted items ++ rest ∧ contents items = s := by
  constructor
  · intro h
    obtain ⟨more, hquote, h⟩ := bind_ok.mp h
    obtain ⟨items, rfl, hs⟩ := parseChars_ok h
    refine ⟨items, ?_, hs⟩
    rw [expect_ok.mp hquote, quoted, List.cons_append, List.append_assoc, List.singleton_append]
  · rintro ⟨items, rfl, rfl⟩
    have htext : quoted items ++ rest = 34 :: (items.flatMap Item.text ++ 34 :: rest) := by
      rw [quoted, List.cons_append, List.append_assoc, List.singleton_append]
    refine bind_ok.mpr ⟨_, expect_ok.mpr htext, parseChars_items items rest ?_⟩
    have := length_le_flatMap items
    rw [List.length_append, List.length_cons]
    omega

/-! ### Numbers -/

/-- No digit comes first. -/
def Undigited (text : Bytes) : Prop := ∀ c ∈ text.head?, isDigit c = false

theorem digits_split (text : Bytes) : ∃ ds : Bytes, (∀ c ∈ ds, isDigit c = true) ∧
    text = ds ++ text.dropWhile isDigit :=
  ⟨text.takeWhile isDigit, fun _ hc => List.mem_takeWhile_imp hc,
    List.takeWhile_append_dropWhile.symm⟩

theorem dropWhile_digits {ds rest : Bytes} (hds : ∀ c ∈ ds, isDigit c = true)
    (hrest : Undigited rest) : (ds ++ rest).dropWhile isDigit = rest := by
  induction ds with
  | nil =>
    cases rest with
    | nil => rfl
    | cons c rest => exact List.dropWhile_cons_of_neg (by simp [hrest c rfl])
  | cons c ds ih =>
    have hc : isDigit c = true := hds c List.mem_cons_self
    rw [List.cons_append, List.dropWhile_cons_of_pos hc,
      ih fun d hd => hds d (List.mem_cons_of_mem c hd)]

theorem parseDigits_ok {message : String} {text rest : Bytes}
    (h : parseDigits message text = .ok rest) : ∃ ds : Digits, text = ds.1 ++ rest := by
  cases text with
  | nil => cases h
  | cons c more =>
    unfold parseDigits at h
    dsimp only at h
    by_cases hc : isDigit c = true
    · rw [if_pos hc] at h
      cases h
      obtain ⟨ds, hds, hmore⟩ := digits_split more
      refine ⟨⟨c :: ds, List.cons_ne_nil c ds, List.forall_mem_cons.mpr ⟨hc, hds⟩⟩, ?_⟩
      rw [List.dropWhile_cons_of_pos hc, List.cons_append, ← hmore]
    · rw [if_neg hc] at h
      cases h

theorem parseDigits_digits (message : String) (ds : Digits) {rest : Bytes}
    (hrest : Undigited rest) : parseDigits message (ds.1 ++ rest) = .ok rest := by
  obtain ⟨ds, hne, hds⟩ := ds
  obtain ⟨c, ds, rfl⟩ := List.exists_cons_of_ne_nil hne
  have hc : isDigit c = true := hds c List.mem_cons_self
  show (if isDigit c then Except.ok ((c :: ds ++ rest).dropWhile isDigit) else _) = _
  rw [if_pos hc, dropWhile_digits hds hrest]

theorem parseWhole_ok {text rest : Bytes} (h : parseWhole text = .ok rest) :
    ∃ w : Whole, text = w.text ++ rest := by
  cases text with
  | nil => cases h
  | cons first more =>
    unfold parseWhole at h
    dsimp only at h
    by_cases h0 : first = 48
    · rw [if_pos h0] at h
      by_cases hlead : more.head?.any isDigit = true
      · rw [if_pos hlead] at h
        cases h
      · rw [if_neg hlead] at h
        cases h
        exact ⟨.zero, by rw [h0]; rfl⟩
    · rw [if_neg h0] at h
      by_cases hdigit : 49 ≤ first ∧ first ≤ 57
      · rw [if_pos hdigit] at h
        cases h
        obtain ⟨ds, hds, hmore⟩ := digits_split more
        refine ⟨.digits first ds hdigit hds, ?_⟩
        show _ = first :: ds ++ _
        rw [List.cons_append, ← hmore]
      · rw [if_neg hdigit] at h
        cases h

theorem parseWhole_whole (w : Whole) {rest : Bytes} (hrest : Undigited rest) :
    parseWhole (w.text ++ rest) = .ok rest := by
  cases w with
  | zero =>
    have hhead : ¬rest.head?.any isDigit = true := by
      cases rest with
      | nil => exact Bool.false_ne_true
      | cons c rest => simp [hrest c rfl]
    show parseWhole (48 :: rest) = _
    unfold parseWhole
    dsimp only
    rw [if_pos rfl, if_neg hhead]
  | digits first more hfirst hmore =>
    have h0 : ¬first = 48 := by
      rintro rfl
      exact absurd hfirst.1 (by decide)
    show (if first = 48 then _ else if 49 ≤ first ∧ first ≤ 57 then
      Except.ok ((more ++ rest).dropWhile isDigit) else _) = _
    rw [if_neg h0, if_pos hfirst, dropWhile_digits hmore hrest]

theorem parseFraction_ok {text rest : Bytes} (h : parseFraction text = .ok rest) :
    ∃ f : Option Digits, text = Number.fractionText f ++ rest := by
  unfold parseFraction at h
  split_ifs at h with hdot
  · obtain ⟨ds, hds⟩ := parseDigits_ok h
    obtain ⟨more, rfl⟩ := List.head?_eq_some_iff.mp hdot
    rw [List.tail_cons] at hds
    exact ⟨some ds, by rw [hds]; rfl⟩
  · cases h
    exact ⟨none, rfl⟩

theorem parseFraction_fraction (f : Option Digits) {rest : Bytes} (hrest : Undigited rest)
    (hdot : rest.head? ≠ some 46) : parseFraction (Number.fractionText f ++ rest) = .ok rest := by
  cases f with
  | none => exact if_neg hdot
  | some ds =>
    have hhead : (Number.fractionText (some ds) ++ rest).head? = some 46 := rfl
    rw [parseFraction, if_pos hhead]
    exact parseDigits_digits _ ds hrest

/-- The sign of an exponent. -/
theorem sign_split (text : Bytes) : ∃ sign : Bytes, (sign = [] ∨ sign = [43] ∨ sign = [45]) ∧
    text = sign ++ if text.head? = some 43 ∨ text.head? = some 45 then text.tail else text := by
  by_cases h : text.head? = some 43 ∨ text.head? = some 45
  · rw [if_pos h]
    rcases h with h | h
    · obtain ⟨more, rfl⟩ := List.head?_eq_some_iff.mp h
      exact ⟨[43], .inr (.inl rfl), rfl⟩
    · obtain ⟨more, rfl⟩ := List.head?_eq_some_iff.mp h
      exact ⟨[45], .inr (.inr rfl), rfl⟩
  · rw [if_neg h]
    exact ⟨[], .inl rfl, rfl⟩

theorem parseExponent_ok {text rest : Bytes} (h : parseExponent text = .ok rest) :
    ∃ e : Option Exponent, text = Number.exponentText e ++ rest := by
  unfold parseExponent at h
  by_cases hletter : text.head? = some 101 ∨ text.head? = some 69
  · rw [if_pos hletter] at h
    obtain ⟨ds, hds⟩ := parseDigits_ok h
    obtain ⟨sign, hsign, htail⟩ := sign_split text.tail
    have hspelled : ∃ letter, (letter = 101 ∨ letter = 69) ∧ text = letter :: text.tail := by
      rcases hletter with hl | hl
      · obtain ⟨more, rfl⟩ := List.head?_eq_some_iff.mp hl
        exact ⟨101, .inl rfl, rfl⟩
      · obtain ⟨more, rfl⟩ := List.head?_eq_some_iff.mp hl
        exact ⟨69, .inr rfl, rfl⟩
    obtain ⟨letter, hl, htext⟩ := hspelled
    refine ⟨some ⟨letter, sign, ds, hl, hsign⟩, ?_⟩
    show _ = letter :: (sign ++ ds.1) ++ rest
    rw [htext, htail, hds, List.cons_append, List.append_assoc]
  · rw [if_neg hletter] at h
    cases h
    exact ⟨none, rfl⟩

theorem parseExponent_exponent (e : Option Exponent) {rest : Bytes} (hrest : Undigited rest)
    (hletter : ¬(rest.head? = some 101 ∨ rest.head? = some 69)) :
    parseExponent (Number.exponentText e ++ rest) = .ok rest := by
  cases e with
  | none => exact if_neg hletter
  | some e =>
    obtain ⟨letter, sign, ds, hl, hsign⟩ := e
    have hhead : (Number.exponentText (some ⟨letter, sign, ds, hl, hsign⟩) ++ rest).head? = some 101 ∨
        (Number.exponentText (some ⟨letter, sign, ds, hl, hsign⟩) ++ rest).head? = some 69 := by
      rcases hl with rfl | rfl
      · exact .inl rfl
      · exact .inr rfl
    have htail : (Number.exponentText (some ⟨letter, sign, ds, hl, hsign⟩) ++ rest).tail =
        sign ++ (ds.1 ++ rest) := List.append_assoc _ _ _
    have hdigit : ¬((ds.1 ++ rest).head? = some 43 ∨ (ds.1 ++ rest).head? = some 45) := by
      obtain ⟨ds, hne, hds⟩ := ds
      obtain ⟨c, ds, rfl⟩ := List.exists_cons_of_ne_nil hne
      have hc : isDigit c = true := hds c List.mem_cons_self
      rintro (h | h)
      · cases h
        cases hc
      · cases h
        cases hc
    rw [parseExponent, if_pos hhead, htail]
    dsimp only
    rcases hsign with rfl | rfl | rfl
    · rw [List.nil_append, if_neg hdigit]
      exact parseDigits_digits _ ds hrest
    · exact parseDigits_digits _ ds hrest
    · exact parseDigits_digits _ ds hrest

theorem parseNumber_ok {text rest lexeme : Bytes} (h : parseNumber text = .ok (lexeme, rest)) :
    ∃ n : Number, text = n.text ++ rest ∧ lexeme = n.text := by
  obtain ⟨afterWhole, hwhole, h⟩ := bind_ok.mp h
  obtain ⟨afterFraction, hfraction, h⟩ := bind_ok.mp h
  obtain ⟨afterExponent, hexponent, h⟩ := bind_ok.mp h
  cases h
  obtain ⟨w, hw⟩ := parseWhole_ok hwhole
  obtain ⟨f, rfl⟩ := parseFraction_ok hfraction
  obtain ⟨e, rfl⟩ := parseExponent_ok hexponent
  have hsigned : ∃ minus : Bool, text = (if minus then [45] else []) ++
      if text.head? = some 45 then text.tail else text := by
    by_cases hminus : text.head? = some 45
    · rw [if_pos hminus]
      obtain ⟨more, rfl⟩ := List.head?_eq_some_iff.mp hminus
      exact ⟨true, rfl⟩
    · rw [if_neg hminus]
      exact ⟨false, rfl⟩
  obtain ⟨minus, hminus⟩ := hsigned
  rw [hw] at hminus
  have htext : text = (Number.mk minus w f e).text ++ rest := by
    rw [hminus, Number.text]
    simp only [List.append_assoc]
  refine ⟨⟨minus, w, f, e⟩, htext, ?_⟩
  conv_lhs => rw [htext, List.length_append, Nat.add_sub_cancel, List.take_left]

/-- What may come after a value: a blank, or a byte that closes or separates. -/
def Follows (rest : Bytes) : Prop :=
  ∀ c ∈ rest.head?, isBlank c = true ∨ c = 44 ∨ c = 93 ∨ c = 125

theorem Follows.head_ne {rest : Bytes} (h : Follows rest) {c : UInt8} (hc : isBlank c = false)
    (h1 : c ≠ 44) (h2 : c ≠ 93) (h3 : c ≠ 125) : rest.head? ≠ some c := fun hhead => by
  rcases h c hhead with hb | hb | hb | hb
  · rw [hc] at hb
    cases hb
  · exact h1 hb
  · exact h2 hb
  · exact h3 hb

theorem Follows.undigited {rest : Bytes} (h : Follows rest) : Undigited rest := by
  intro c hhead
  by_contra hdigit
  have hdigit : isDigit c = true := by simpa using hdigit
  rcases h c hhead with hb | rfl | rfl | rfl
  · simp only [isBlank, Bool.or_eq_true, decide_eq_true_eq] at hb
    rcases hb with ((rfl | rfl) | rfl) | rfl
    all_goals cases hdigit
  all_goals cases hdigit

theorem undigited_exponent (e : Option Exponent) {rest : Bytes} (h : Undigited rest) :
    Undigited (Number.exponentText e ++ rest) ∧ (rest.head? ≠ some 46 →
      (Number.exponentText e ++ rest).head? ≠ some 46) := by
  cases e with
  | none => exact ⟨h, id⟩
  | some e =>
    obtain ⟨letter, sign, ds, hl, hsign⟩ := e
    rcases hl with rfl | rfl
    · refine ⟨fun c hc => ?_, fun _ hc => ?_⟩
      · cases hc
        rfl
      · cases hc
    · refine ⟨fun c hc => ?_, fun _ hc => ?_⟩
      · cases hc
        rfl
      · cases hc

theorem parseNumber_number (n : Number) {rest : Bytes} (hrest : Follows rest) :
    parseNumber (n.text ++ rest) = .ok (n.text, rest) := by
  obtain ⟨minus, w, f, e⟩ := n
  have hdigit := hrest.undigited
  obtain ⟨hdigit', hdot⟩ := undigited_exponent e hdigit
  have hdot := hdot (hrest.head_ne rfl (by decide) (by decide) (by decide))
  have hfraction : Undigited (Number.fractionText f ++ (Number.exponentText e ++ rest)) := by
    cases f with
    | none => exact hdigit'
    | some ds =>
      intro c hc
      cases hc
      rfl
  have hletter : ¬(rest.head? = some 101 ∨ rest.head? = some 69) := by
    rintro (h | h)
    · exact hrest.head_ne rfl (by decide) (by decide) (by decide) h
    · exact hrest.head_ne rfl (by decide) (by decide) (by decide) h
  have htext : (Number.mk minus w f e).text ++ rest = (if minus then [45] else []) ++
      (w.text ++ (Number.fractionText f ++ (Number.exponentText e ++ rest))) := by
    rw [Number.text]
    simp only [List.append_assoc]
  have hunsigned : (if ((Number.mk minus w f e).text ++ rest).head? = some 45 then
      ((Number.mk minus w f e).text ++ rest).tail else (Number.mk minus w f e).text ++ rest) =
      w.text ++ (Number.fractionText f ++ (Number.exponentText e ++ rest)) := by
    rw [htext]
    cases minus with
    | true => rfl
    | false =>
      refine if_neg fun h => ?_
      cases w with
      | zero => cases h
      | digits first more hfirst hmore =>
        cases h
        exact absurd hfirst.1 (by decide)
  refine bind_ok.mpr ⟨_, (congrArg parseWhole hunsigned).trans (parseWhole_whole w hfraction), ?_⟩
  refine bind_ok.mpr ⟨_, parseFraction_fraction f hdigit' hdot, ?_⟩
  refine bind_ok.mpr ⟨_, parseExponent_exponent e hdigit hletter, ?_⟩
  rw [List.length_append, Nat.add_sub_cancel, List.take_left]

/-! ### Values -/

section Value
variable {ν : Type} (parseDoubleLiteral : Bytes → ν)

/-- Whatever the reader reads is a value with no more than `n` arrays and objects around it. -/
def Sound (n : ℕ) (value : Reader (Json ν)) : Prop :=
  ∀ text v rest, value text = .ok (v, rest) → ∃ tree : Tree,
    text = tree.text ++ rest ∧ tree.value parseDoubleLiteral = v ∧ tree.depth + 1 ≤ n

/-- The reader reads every such value. -/
def Complete (n : ℕ) (value : Reader (Json ν)) : Prop :=
  ∀ (tree : Tree) (rest : Bytes), tree.depth + 1 ≤ n → Follows rest →
    value (tree.text ++ rest) = .ok (tree.value parseDoubleLiteral, rest)

/-- A value begins with a byte that is no blank and closes nothing. -/
theorem tree_opens (tree : Tree) : ∃ c more, tree.text = c :: more ∧ isBlank c = false ∧
    c ≠ 93 ∧ c ≠ 125 := by
  cases tree with
  | null => exact ⟨110, _, rfl, rfl, by decide, by decide⟩
  | boolean value =>
    cases value with
    | false => exact ⟨102, _, rfl, rfl, by decide, by decide⟩
    | true => exact ⟨116, _, rfl, rfl, by decide, by decide⟩
  | number n =>
    obtain ⟨c, more, hc, hdigit⟩ : ∃ c more, n.text = c :: more ∧ (c = 45 ∨ isDigit c = true) := by
      obtain ⟨minus, w, f, e⟩ := n
      cases minus with
      | true => exact ⟨45, _, rfl, .inl rfl⟩
      | false =>
        cases w with
        | zero => exact ⟨48, _, rfl, .inr rfl⟩
        | digits first more hfirst hmore =>
          refine ⟨first, _, rfl, .inr ?_⟩
          have h48 : (48 : UInt8) ≤ first := UInt8.le_trans (by decide) hfirst.1
          simp [isDigit, h48, hfirst.2]
    refine ⟨c, more, hc, ?_, ?_, ?_⟩
    · rcases hdigit with rfl | hdigit
      · rfl
      · by_contra hb
        simp only [isBlank, Bool.not_eq_false, Bool.or_eq_true, decide_eq_true_eq] at hb
        rcases hb with ((rfl | rfl) | rfl) | rfl
        all_goals cases hdigit
    · rintro rfl
      rcases hdigit with h | h
      · cases h
      · cases h
    · rintro rfl
      rcases hdigit with h | h
      · cases h
      · cases h
  | string items => exact ⟨34, _, rfl, rfl, by decide, by decide⟩
  | emptyArray gap => exact ⟨91, _, rfl, rfl, by decide, by decide⟩
  | array elements => exact ⟨91, _, rfl, rfl, by decide, by decide⟩
  | emptyObject gap => exact ⟨123, _, rfl, rfl, by decide, by decide⟩
  | object members => exact ⟨123, _, rfl, rfl, by decide, by decide⟩

theorem skip_tree (tree : Tree) (rest : Bytes) :
    skipWhitespace (tree.text ++ rest) = tree.text ++ rest := by
  obtain ⟨c, more, htext, hblank, -, -⟩ := tree_opens tree
  refine skip_of_solid fun d hd => ?_
  rw [htext] at hd
  cases hd
  exact hblank

theorem follows_cons {c : UInt8} (hc : c = 44 ∨ c = 93 ∨ c = 125) {rest : Bytes} :
    Follows (c :: rest) := fun d hd => by
  cases hd
  exact .inr hc

theorem follows_blank (w : Blank) {rest : Bytes} (h : Follows rest) : Follows (w.1 ++ rest) := by
  obtain ⟨w, hw⟩ := w
  cases w with
  | nil => exact h
  | cons c w =>
    intro d hd
    cases hd
    exact .inl (hw c List.mem_cons_self)

/-! #### Arrays -/

section Arrays
variable {n : ℕ} {value : Reader (Json ν)}

/-- Blanks before the elements belong to the first of them. -/
theorem elements_behind (gap : Blank) (es : Elements) : ∃ es' : Elements,
    es'.text = gap.1 ++ es.text ∧
      es'.values parseDoubleLiteral = es.values parseDoubleLiteral ∧ es'.depth = es.depth := by
  cases es with
  | last before v after =>
    refine ⟨.last ⟨gap.1 ++ before.1, ?_⟩ v after, List.append_assoc _ _ _, rfl, rfl⟩
    exact List.forall_mem_append.mpr ⟨gap.2, before.2⟩
  | more before v after rest =>
    refine ⟨.more ⟨gap.1 ++ before.1, ?_⟩ v after rest, List.append_assoc _ _ _, rfl, rfl⟩
    exact List.forall_mem_append.mpr ⟨gap.2, before.2⟩

theorem parseElements_ok (hvalue : Sound parseDoubleLiteral n value) {fuel : ℕ} {text rest : Bytes}
    {vs : List (Json ν)} (h : parseElements value fuel text = .ok (vs, rest)) :
    ∃ es : Elements, text = es.text ++ 93 :: rest ∧ es.values parseDoubleLiteral = vs ∧
      es.depth ≤ n := by
  induction fuel generalizing text vs with
  | zero => cases h
  | succ fuel ih =>
    obtain ⟨⟨element, more⟩, helement, hround⟩ := bind_ok.mp h
    obtain ⟨tree, htree, rfl, hdepth⟩ := hvalue _ _ _ helement
    obtain ⟨before, hbefore⟩ := skip_split text
    obtain ⟨after, hafter⟩ := skip_split more
    rw [htree] at hbefore
    dsimp only at hround
    by_cases hcomma : (skipWhitespace more).head? = some 44
    · rw [if_pos hcomma] at hround
      obtain ⟨next, hnext⟩ := List.head?_eq_some_iff.mp hcomma
      by_cases hclose : (skipWhitespace (skipWhitespace more).tail).head? = some 93
      · rw [if_pos hclose] at hround
        cases hround
      · rw [if_neg hclose] at hround
        obtain ⟨⟨vs', rest'⟩, hmore, hvs⟩ := map_ok.mp hround
        cases hvs
        obtain ⟨es, htext, rfl, hes⟩ := ih hmore
        obtain ⟨gap, hgap⟩ := skip_split next
        rw [hnext, List.tail_cons] at htext
        obtain ⟨es', hes', hvalues, hdepth'⟩ := elements_behind parseDoubleLiteral gap es
        refine ⟨.more before tree after es', ?_, ?_, ?_⟩
        · rw [hbefore, hafter, hnext, hgap, htext]
          simp [Elements.text, hes']
        · show tree.value parseDoubleLiteral :: es'.values parseDoubleLiteral = _
          rw [hvalues]
        · show max (tree.depth + 1) es'.depth ≤ n
          omega
    · rw [if_neg hcomma] at hround
      obtain ⟨last, hlast, hvs⟩ := map_ok.mp hround
      cases hvs
      refine ⟨.last before tree after, ?_, rfl, hdepth⟩
      rw [hbefore, hafter, expect_ok.mp hlast]
      simp [Elements.text]

/-- No element is the end of the array. -/
theorem elements_opens (es : Elements) (tail : Bytes) :
    (skipWhitespace (es.text ++ tail)).head? ≠ some 93 := by
  have hfirst : ∀ (before : Blank) (v : Tree) (more : Bytes),
      (skipWhitespace (before.1 ++ (v.text ++ more))).head? ≠ some 93 := by
    intro before v more h
    obtain ⟨c, rest, htext, -, h93, -⟩ := tree_opens v
    rw [skip_blank, skip_tree, htext] at h
    exact h93 (Option.some_inj.mp h)
  cases es with
  | last before v after =>
    rw [Elements.text, List.append_assoc, List.append_assoc]
    exact hfirst before v _
  | more before v after rest =>
    rw [Elements.text, List.append_assoc, List.append_assoc]
    exact hfirst before v _

theorem parseElements_elements (hvalue : Complete parseDoubleLiteral n value) :
    ∀ (es : Elements) {fuel : ℕ} (rest : Bytes), es.depth ≤ n →
      (skipWhitespace (es.text ++ 93 :: rest)).length ≤ fuel →
      parseElements value fuel (skipWhitespace (es.text ++ 93 :: rest)) =
        .ok (es.values parseDoubleLiteral, rest)
  | .last before v after, fuel, rest, hdepth, hfuel => by
    have hsplit : (Elements.last before v after).text ++ 93 :: rest =
        before.1 ++ (v.text ++ (after.1 ++ 93 :: rest)) := by simp [Elements.text]
    have hclose : Follows (93 :: rest) := follows_cons (.inr (.inl rfl))
    rw [hsplit, skip_blank, skip_tree] at hfuel ⊢
    simp only [List.length_append, List.length_cons] at hfuel
    obtain ⟨k, rfl⟩ := Nat.exists_eq_succ_of_ne_zero (show fuel ≠ 0 by omega)
    have helement : value (skipWhitespace (v.text ++ (after.1 ++ 93 :: rest))) =
        .ok (v.value parseDoubleLiteral, after.1 ++ 93 :: rest) := by
      rw [skip_tree]
      exact hvalue v _ hdepth (follows_blank after hclose)
    refine bind_ok.mpr ⟨_, helement, ?_⟩
    have hskip : skipWhitespace (after.1 ++ 93 :: rest) = 93 :: rest :=
      (skip_blank after _).trans (skip_cons rfl)
    dsimp only
    rw [hskip, if_neg (by simp)]
    rfl
  | .more before v after es, fuel, rest, hdepth, hfuel => by
    have hsplit : (Elements.more before v after es).text ++ 93 :: rest =
        before.1 ++ (v.text ++ (after.1 ++ 44 :: (es.text ++ 93 :: rest))) := by
      simp [Elements.text]
    have hdepth : max (v.depth + 1) es.depth ≤ n := hdepth
    have hcomma : Follows (44 :: (es.text ++ 93 :: rest)) := follows_cons (.inl rfl)
    rw [hsplit, skip_blank, skip_tree] at hfuel ⊢
    simp only [List.length_append, List.length_cons] at hfuel
    obtain ⟨k, rfl⟩ := Nat.exists_eq_succ_of_ne_zero (show fuel ≠ 0 by omega)
    have helement : value (skipWhitespace (v.text ++ (after.1 ++ 44 :: (es.text ++ 93 :: rest)))) =
        .ok (v.value parseDoubleLiteral, after.1 ++ 44 :: (es.text ++ 93 :: rest)) := by
      rw [skip_tree]
      exact hvalue v _ (by omega) (follows_blank after hcomma)
    have hskip : skipWhitespace (after.1 ++ 44 :: (es.text ++ 93 :: rest)) =
        44 :: (es.text ++ 93 :: rest) := (skip_blank after _).trans (skip_cons rfl)
    have hshort : (skipWhitespace (es.text ++ 93 :: rest)).length ≤ k := by
      have := skip_length (es.text ++ 93 :: rest)
      rw [List.length_append, List.length_cons] at this
      omega
    have hmore := parseElements_elements hvalue es rest (show es.depth ≤ n by omega) hshort
    refine bind_ok.mpr ⟨_, helement, ?_⟩
    dsimp only
    rw [hskip, List.head?_cons, if_pos rfl, List.tail_cons, if_neg (elements_opens es _), hmore]
    rfl

theorem parseArray_ok (hvalue : Sound parseDoubleLiteral n value) {text rest : Bytes} {v : Json ν}
    (h : parseArray value text = .ok (v, rest)) : ∃ tree : Tree, text = tree.text ++ rest ∧
      tree.value parseDoubleLiteral = v ∧ tree.depth ≤ n := by
  obtain ⟨inner, hopen, hround⟩ := bind_ok.mp h
  rw [expect_ok.mp hopen]
  obtain ⟨gap, hgap⟩ := skip_split inner
  dsimp only at hround
  by_cases hclose : (skipWhitespace inner).head? = some 93
  · rw [if_pos hclose] at hround
    obtain ⟨more, hmore⟩ := List.head?_eq_some_iff.mp hclose
    rw [hmore] at hround hgap
    cases hround
    refine ⟨.emptyArray gap, ?_, rfl, Nat.zero_le n⟩
    rw [hgap]
    simp [Tree.text]
  · rw [if_neg hclose] at hround
    obtain ⟨⟨vs, rest'⟩, helements, hv⟩ := map_ok.mp hround
    cases hv
    obtain ⟨es, htext, rfl, hdepth⟩ := parseElements_ok parseDoubleLiteral hvalue helements
    obtain ⟨es', hes', hvalues, hdepth'⟩ := elements_behind parseDoubleLiteral gap es
    refine ⟨.array es', ?_, congrArg Json.array hvalues, by rw [Tree.depth, hdepth']; exact hdepth⟩
    rw [hgap, htext]
    simp [Tree.text, hes']

theorem parseArray_array (hvalue : Complete parseDoubleLiteral n value) (es : Elements)
    (rest : Bytes) (hdepth : es.depth ≤ n) : parseArray value ((Tree.array es).text ++ rest) =
      .ok (.array (es.values parseDoubleLiteral), rest) := by
  have htext : (Tree.array es).text ++ rest = 91 :: (es.text ++ 93 :: rest) := by simp [Tree.text]
  refine bind_ok.mpr ⟨_, expect_ok.mpr htext, ?_⟩
  dsimp only
  rw [if_neg (elements_opens es _),
    parseElements_elements parseDoubleLiteral hvalue es rest hdepth (Nat.le_refl _)]
  rfl

theorem parseArray_empty (gap : Blank) (rest : Bytes) :
    parseArray value ((Tree.emptyArray gap).text ++ rest) = .ok (.array [], rest) := by
  have htext : (Tree.emptyArray gap).text ++ rest = 91 :: (gap.1 ++ 93 :: rest) := by
    simp [Tree.text]
  have hskip : skipWhitespace (gap.1 ++ 93 :: rest) = 93 :: rest :=
    (skip_blank gap _).trans (skip_cons rfl)
  refine bind_ok.mpr ⟨_, expect_ok.mpr htext, ?_⟩
  dsimp only
  rw [hskip]
  rfl

end Arrays

/-! #### Objects -/

section Objects
variable {n : ℕ} {value : Reader (Json ν)}

theorem skip_quoted (key : List Item) (rest : Bytes) :
    skipWhitespace (quoted key ++ rest) = quoted key ++ rest := skip_cons rfl

theorem parseMember_ok (hvalue : Sound parseDoubleLiteral n value) {text rest : Bytes}
    {member : Bytes × Json ν} (h : parseMember value text = .ok (member, rest)) :
    ∃ (key : List Item) (gap colonGap : Blank) (tree : Tree),
      text = quoted key ++ (gap.1 ++ 58 :: (colonGap.1 ++ (tree.text ++ rest))) ∧
        member = (contents key, tree.value parseDoubleLiteral) ∧ tree.depth + 1 ≤ n := by
  obtain ⟨⟨key, afterKey⟩, hkey, h⟩ := bind_ok.mp h
  obtain ⟨afterColon, hcolon, h⟩ := bind_ok.mp h
  obtain ⟨⟨v, last⟩, hv, h⟩ := bind_ok.mp h
  cases h
  unfold parseKey at hkey
  by_cases hquote : text.head? = some 34
  · rw [if_pos hquote] at hkey
    obtain ⟨items, rfl, rfl⟩ := parseString_ok.mp hkey
    obtain ⟨gap, hgap⟩ := skip_split afterKey
    obtain ⟨colonGap, hcolonGap⟩ := skip_split afterColon
    obtain ⟨tree, htree, rfl, hdepth⟩ := hvalue _ _ _ hv
    rw [expect_ok.mp hcolon] at hgap
    rw [htree] at hcolonGap
    exact ⟨items, gap, colonGap, tree, by rw [hgap, hcolonGap], rfl, hdepth⟩
  · rw [if_neg hquote] at hkey
    cases hkey

theorem parseMember_member (hvalue : Complete parseDoubleLiteral n value) (key : List Item)
    (gap colonGap : Blank) (tree : Tree) (hdepth : tree.depth + 1 ≤ n) {rest : Bytes}
    (hrest : Follows rest) :
    parseMember value (quoted key ++ (gap.1 ++ 58 :: (colonGap.1 ++ (tree.text ++ rest)))) =
      .ok ((contents key, tree.value parseDoubleLiteral), rest) := by
  have hquote : (quoted key ++ (gap.1 ++ 58 :: (colonGap.1 ++ (tree.text ++ rest)))).head? =
      some 34 := rfl
  have hcolon : skipWhitespace (gap.1 ++ 58 :: (colonGap.1 ++ (tree.text ++ rest))) =
      58 :: (colonGap.1 ++ (tree.text ++ rest)) := (skip_blank gap _).trans (skip_cons rfl)
  have htree : value (skipWhitespace (colonGap.1 ++ (tree.text ++ rest))) =
      .ok (tree.value parseDoubleLiteral, rest) := by
    rw [skip_blank, skip_tree]
    exact hvalue tree rest hdepth hrest
  have hkey : parseKey (quoted key ++ (gap.1 ++ 58 :: (colonGap.1 ++ (tree.text ++ rest)))) =
      .ok (contents key, gap.1 ++ 58 :: (colonGap.1 ++ (tree.text ++ rest))) := by
    rw [parseKey, if_pos hquote]
    exact parseString_ok.mpr ⟨key, rfl, rfl⟩
  refine bind_ok.mpr ⟨_, hkey, ?_⟩
  refine bind_ok.mpr ⟨_, expect_ok.mpr hcolon, ?_⟩
  exact bind_ok.mpr ⟨_, htree, rfl⟩

/-- Blanks before the members belong to the first of them. -/
theorem members_behind (gap : Blank) (ms : Members) : ∃ ms' : Members,
    ms'.text = gap.1 ++ ms.text ∧
      ms'.values parseDoubleLiteral = ms.values parseDoubleLiteral ∧ ms'.depth = ms.depth := by
  cases ms with
  | last before key keyGap colonGap v after =>
    refine ⟨.last ⟨gap.1 ++ before.1, ?_⟩ key keyGap colonGap v after,
      List.append_assoc _ _ _, rfl, rfl⟩
    exact List.forall_mem_append.mpr ⟨gap.2, before.2⟩
  | more before key keyGap colonGap v after rest =>
    refine ⟨.more ⟨gap.1 ++ before.1, ?_⟩ key keyGap colonGap v after rest,
      List.append_assoc _ _ _, rfl, rfl⟩
    exact List.forall_mem_append.mpr ⟨gap.2, before.2⟩

theorem parseMembers_ok (hvalue : Sound parseDoubleLiteral n value) {fuel : ℕ} {text rest : Bytes}
    {acc members : List (Bytes × Json ν)}
    (h : parseMembers value fuel acc text = .ok (members, rest)) :
    ∃ ms : Members, text = ms.text ++ 125 :: rest ∧ ms.depth ≤ n ∧
      (ms.values parseDoubleLiteral).foldl (fun acc m => upsert Prod.fst m acc) acc = members := by
  induction fuel generalizing text acc members with
  | zero => cases h
  | succ fuel ih =>
    obtain ⟨⟨member, more⟩, hmember, hround⟩ := bind_ok.mp h
    obtain ⟨key, gap, colonGap, tree, htext, rfl, hdepth⟩ :=
      parseMember_ok parseDoubleLiteral hvalue hmember
    obtain ⟨before, hbefore⟩ := skip_split text
    obtain ⟨after, hafter⟩ := skip_split more
    rw [htext] at hbefore
    dsimp only at hround
    by_cases hcomma : (skipWhitespace more).head? = some 44
    · rw [if_pos hcomma] at hround
      obtain ⟨next, hnext⟩ := List.head?_eq_some_iff.mp hcomma
      by_cases hclose : (skipWhitespace (skipWhitespace more).tail).head? = some 125
      · rw [if_pos hclose] at hround
        cases hround
      · rw [if_neg hclose] at hround
        obtain ⟨ms, hms, hdepth', hmembers⟩ := ih hround
        obtain ⟨nextGap, hnextGap⟩ := skip_split next
        rw [hnext, List.tail_cons] at hms
        obtain ⟨ms', hms', hvalues, hsame⟩ := members_behind parseDoubleLiteral nextGap ms
        refine ⟨.more before key gap colonGap tree after ms', ?_, ?_, ?_⟩
        · rw [hbefore, hafter, hnext, hnextGap, hms]
          simp [Members.text, hms']
        · show max (tree.depth + 1) ms'.depth ≤ n
          omega
        · rw [Members.values, List.foldl_cons, hvalues]
          exact hmembers
    · rw [if_neg hcomma] at hround
      obtain ⟨last, hlast, hmembers⟩ := map_ok.mp hround
      cases hmembers
      refine ⟨.last before key gap colonGap tree after, ?_, hdepth, rfl⟩
      rw [hbefore, hafter, expect_ok.mp hlast]
      simp [Members.text]

/-- No member is the end of the object. -/
theorem members_opens (ms : Members) (tail : Bytes) :
    (skipWhitespace (ms.text ++ tail)).head? ≠ some 125 := by
  have hfirst : ∀ (before : Blank) (key : List Item) (more : Bytes),
      (skipWhitespace (before.1 ++ (quoted key ++ more))).head? ≠ some 125 := by
    intro before key more h
    rw [skip_blank, skip_quoted] at h
    exact absurd (Option.some_inj.mp h) (by decide)
  cases ms with
  | last before key gap colonGap v after =>
    rw [Members.text, List.append_assoc, List.append_assoc]
    exact hfirst before key _
  | more before key gap colonGap v after rest =>
    rw [Members.text, List.append_assoc, List.append_assoc]
    exact hfirst before key _

theorem parseMembers_members (hvalue : Complete parseDoubleLiteral n value) :
    ∀ (ms : Members) {fuel : ℕ} (acc : List (Bytes × Json ν)) (rest : Bytes), ms.depth ≤ n →
      (skipWhitespace (ms.text ++ 125 :: rest)).length ≤ fuel →
      parseMembers value fuel acc (skipWhitespace (ms.text ++ 125 :: rest)) =
        .ok ((ms.values parseDoubleLiteral).foldl (fun acc m => upsert Prod.fst m acc) acc, rest)
  | .last before key gap colonGap v after, fuel, acc, rest, hdepth, hfuel => by
    have hsplit : (Members.last before key gap colonGap v after).text ++ 125 :: rest =
        before.1 ++ (quoted key ++ (gap.1 ++ 58 :: (colonGap.1 ++ (v.text ++
          (after.1 ++ 125 :: rest))))) := by simp [Members.text]
    have hclose : Follows (125 :: rest) := follows_cons (.inr (.inr rfl))
    rw [hsplit, skip_blank, skip_quoted] at hfuel ⊢
    simp only [List.length_append, List.length_cons] at hfuel
    obtain ⟨k, rfl⟩ := Nat.exists_eq_succ_of_ne_zero (show fuel ≠ 0 by omega)
    have hmember := parseMember_member parseDoubleLiteral hvalue key gap colonGap v hdepth
      (follows_blank after hclose)
    have hskip : skipWhitespace (after.1 ++ 125 :: rest) = 125 :: rest :=
      (skip_blank after _).trans (skip_cons rfl)
    refine bind_ok.mpr ⟨_, (congrArg _ (skip_quoted key _)).trans hmember, ?_⟩
    dsimp only
    rw [hskip, if_neg (by simp)]
    rfl
  | .more before key gap colonGap v after ms, fuel, acc, rest, hdepth, hfuel => by
    have hsplit : (Members.more before key gap colonGap v after ms).text ++ 125 :: rest =
        before.1 ++ (quoted key ++ (gap.1 ++ 58 :: (colonGap.1 ++ (v.text ++
          (after.1 ++ 44 :: (ms.text ++ 125 :: rest)))))) := by simp [Members.text]
    have hdepth : max (v.depth + 1) ms.depth ≤ n := hdepth
    have hcomma : Follows (44 :: (ms.text ++ 125 :: rest)) := follows_cons (.inl rfl)
    rw [hsplit, skip_blank, skip_quoted] at hfuel ⊢
    simp only [List.length_append, List.length_cons] at hfuel
    obtain ⟨k, rfl⟩ := Nat.exists_eq_succ_of_ne_zero (show fuel ≠ 0 by omega)
    have hmember := parseMember_member parseDoubleLiteral hvalue key gap colonGap v
      (show v.depth + 1 ≤ n by omega) (follows_blank after hcomma)
    have hskip : skipWhitespace (after.1 ++ 44 :: (ms.text ++ 125 :: rest)) =
        44 :: (ms.text ++ 125 :: rest) := (skip_blank after _).trans (skip_cons rfl)
    have hshort : (skipWhitespace (ms.text ++ 125 :: rest)).length ≤ k := by
      have := skip_length (ms.text ++ 125 :: rest)
      rw [List.length_append, List.length_cons] at this
      omega
    have hmore := parseMembers_members hvalue ms
      (upsert Prod.fst (contents key, v.value parseDoubleLiteral) acc) rest
      (show ms.depth ≤ n by omega) hshort
    refine bind_ok.mpr ⟨_, (congrArg _ (skip_quoted key _)).trans hmember, ?_⟩
    dsimp only
    rw [hskip, List.head?_cons, if_pos rfl, List.tail_cons, if_neg (members_opens ms _), hmore]
    rfl

theorem parseObject_ok (hvalue : Sound parseDoubleLiteral n value) {text rest : Bytes} {v : Json ν}
    (h : parseObject value text = .ok (v, rest)) : ∃ tree : Tree, text = tree.text ++ rest ∧
      tree.value parseDoubleLiteral = v ∧ tree.depth ≤ n := by
  obtain ⟨inner, hopen, hround⟩ := bind_ok.mp h
  rw [expect_ok.mp hopen]
  obtain ⟨gap, hgap⟩ := skip_split inner
  dsimp only at hround
  by_cases hclose : (skipWhitespace inner).head? = some 125
  · rw [if_pos hclose] at hround
    obtain ⟨more, hmore⟩ := List.head?_eq_some_iff.mp hclose
    rw [hmore] at hround hgap
    cases hround
    refine ⟨.emptyObject gap, ?_, rfl, Nat.zero_le n⟩
    rw [hgap]
    simp [Tree.text]
  · rw [if_neg hclose] at hround
    obtain ⟨⟨members, rest'⟩, hmembers, hv⟩ := map_ok.mp hround
    cases hv
    obtain ⟨ms, htext, hdepth, hvalues⟩ := parseMembers_ok parseDoubleLiteral hvalue hmembers
    obtain ⟨ms', hms', hsame, hdepth'⟩ := members_behind parseDoubleLiteral gap ms
    refine ⟨.object ms', ?_, ?_, by rw [Tree.depth, hdepth']; exact hdepth⟩
    · rw [hgap, htext]
      simp [Tree.text, hms']
    · rw [Tree.value, hsame, collapse, hvalues]

theorem parseObject_object (hvalue : Complete parseDoubleLiteral n value) (ms : Members)
    (rest : Bytes) (hdepth : ms.depth ≤ n) : parseObject value ((Tree.object ms).text ++ rest) =
      .ok (.object (collapse (ms.values parseDoubleLiteral)), rest) := by
  have htext : (Tree.object ms).text ++ rest = 123 :: (ms.text ++ 125 :: rest) := by
    simp [Tree.text]
  refine bind_ok.mpr ⟨_, expect_ok.mpr htext, ?_⟩
  dsimp only
  rw [if_neg (members_opens ms _),
    parseMembers_members parseDoubleLiteral hvalue ms [] rest hdepth (Nat.le_refl _)]
  rfl

theorem parseObject_empty (gap : Blank) (rest : Bytes) :
    parseObject value ((Tree.emptyObject gap).text ++ rest) = .ok (.object [], rest) := by
  have htext : (Tree.emptyObject gap).text ++ rest = 123 :: (gap.1 ++ 125 :: rest) := by
    simp [Tree.text]
  have hskip : skipWhitespace (gap.1 ++ 125 :: rest) = 125 :: rest :=
    (skip_blank gap _).trans (skip_cons rfl)
  refine bind_ok.mpr ⟨_, expect_ok.mpr htext, ?_⟩
  dsimp only
  rw [hskip]
  rfl

end Objects

/-! #### All values -/

theorem literal_ok {word : String} {v v' : Json ν} {text rest : Bytes}
    (h : literal word v text = .ok (v', rest)) : v = v' ∧ text = str word ++ rest := by
  unfold literal at h
  by_cases hword : (str word).isPrefixOf text = true
  · rw [if_pos hword] at h
    obtain ⟨more, rfl⟩ := List.isPrefixOf_iff_prefix.mp hword
    rw [List.drop_left] at h
    cases h
    exact ⟨rfl, rfl⟩
  · rw [if_neg hword] at h
    cases h

theorem literal_word (word : String) (v : Json ν) (rest : Bytes) :
    literal word v (str word ++ rest) = .ok (v, rest) := by
  have hword : (str word).isPrefixOf (str word ++ rest) = true :=
    List.isPrefixOf_iff_prefix.mpr (List.prefix_append _ _)
  rw [literal, if_pos hword, List.drop_left]

/-- A level of values, over the values of the level below. -/
theorem sound_parseValue (levels : ℕ) :
    Sound parseDoubleLiteral levels (parseValue parseDoubleLiteral levels) := by
  induction levels with
  | zero =>
    intro text v rest h
    cases h
  | succ levels ih =>
    intro text v rest h
    suffices hs : ∃ tree : Tree, text = tree.text ++ rest ∧
        tree.value parseDoubleLiteral = v ∧ tree.depth ≤ levels by
      obtain ⟨tree, htext, hvalue, hdepth⟩ := hs
      exact ⟨tree, htext, hvalue, Nat.succ_le_succ hdepth⟩
    cases text with
    | nil => cases h
    | cons c more =>
      unfold parseValue at h
      dsimp only at h
      by_cases h1 : c = 123
      · rw [if_pos h1] at h
        exact parseObject_ok parseDoubleLiteral ih h
      rw [if_neg h1] at h
      by_cases h2 : c = 91
      · rw [if_pos h2] at h
        exact parseArray_ok parseDoubleLiteral ih h
      rw [if_neg h2] at h
      by_cases h3 : c = 34
      · rw [if_pos h3] at h
        obtain ⟨⟨s, rest'⟩, hstring, hv⟩ := map_ok.mp h
        cases hv
        obtain ⟨items, htext, rfl⟩ := parseString_ok.mp hstring
        exact ⟨.string items, htext, rfl, Nat.zero_le _⟩
      rw [if_neg h3] at h
      by_cases h4 : c = 116
      · rw [if_pos h4] at h
        obtain ⟨rfl, htext⟩ := literal_ok h
        exact ⟨.boolean true, htext, rfl, Nat.zero_le _⟩
      rw [if_neg h4] at h
      by_cases h5 : c = 102
      · rw [if_pos h5] at h
        obtain ⟨rfl, htext⟩ := literal_ok h
        exact ⟨.boolean false, htext, rfl, Nat.zero_le _⟩
      rw [if_neg h5] at h
      by_cases h6 : c = 110
      · rw [if_pos h6] at h
        obtain ⟨rfl, htext⟩ := literal_ok h
        exact ⟨.null, htext, rfl, Nat.zero_le _⟩
      rw [if_neg h6] at h
      obtain ⟨⟨lexeme, rest'⟩, hnumber, hv⟩ := map_ok.mp h
      cases hv
      obtain ⟨n, htext, rfl⟩ := parseNumber_ok hnumber
      exact ⟨.number n, htext, rfl, Nat.zero_le _⟩

/-- A number begins with nothing that another value begins with. -/
theorem number_opens (n : Number) : ∃ c more, n.text = c :: more ∧ c ≠ 123 ∧ c ≠ 91 ∧ c ≠ 34 ∧
    c ≠ 116 ∧ c ≠ 102 ∧ c ≠ 110 := by
  obtain ⟨minus, w, f, e⟩ := n
  cases minus with
  | true => exact ⟨45, _, rfl, by decide⟩
  | false =>
    cases w with
    | zero => exact ⟨48, _, rfl, by decide⟩
    | digits first more hfirst hmore =>
      refine ⟨first, _, rfl, ?_, ?_, ?_, ?_, ?_, ?_⟩
      all_goals
        rintro rfl
        exact absurd hfirst (by decide)

theorem complete_parseValue (levels : ℕ) :
    Complete parseDoubleLiteral levels (parseValue parseDoubleLiteral levels) := by
  induction levels with
  | zero =>
    intro tree rest h
    omega
  | succ levels ih =>
    intro tree rest hdepth hrest
    have hdepth : tree.depth ≤ levels := Nat.le_of_succ_le_succ hdepth
    cases tree with
    | null => exact literal_word "null" .null rest
    | boolean value =>
      cases value with
      | true => exact literal_word "true" (.boolean true) rest
      | false => exact literal_word "false" (.boolean false) rest
    | number n =>
      have hnumber := parseNumber_number n hrest
      show parseValue parseDoubleLiteral (levels + 1) (n.text ++ rest) = _
      obtain ⟨c, more, htext, h1, h2, h3, h4, h5, h6⟩ := number_opens n
      have hcons : n.text ++ rest = c :: (more ++ rest) := by rw [htext, List.cons_append]
      rw [hcons] at hnumber ⊢
      unfold parseValue
      dsimp only
      rw [if_neg h1, if_neg h2, if_neg h3, if_neg h4, if_neg h5, if_neg h6, hnumber]
      rfl
    | string items =>
      have hstring : parseString (quoted items ++ rest) = .ok (contents items, rest) :=
        parseString_ok.mpr ⟨items, rfl, rfl⟩
      show (parseString (quoted items ++ rest)).map _ = _
      rw [hstring]
      rfl
    | emptyArray gap => exact parseArray_empty gap rest
    | array elements => exact parseArray_array parseDoubleLiteral ih elements rest hdepth
    | emptyObject gap => exact parseObject_empty gap rest
    | object members => exact parseObject_object parseDoubleLiteral ih members rest hdepth

/-- **The parser reads exactly the JSON texts of the permitted depth, as what they mean.** -/
theorem parseJson_iff (text : Bytes) (v : Json ν) : parseJson parseDoubleLiteral text = .ok v ↔
    Denotes parseDoubleLiteral kMaxJsonDepth text v := by
  constructor
  · intro h
    obtain ⟨⟨v', rest⟩, hvalue, hend⟩ := bind_ok.mp h
    obtain ⟨before, hbefore⟩ := skip_split text
    obtain ⟨after, hafter⟩ := skip_split rest
    obtain ⟨tree, htext, rfl, hdepth⟩ := sound_parseValue parseDoubleLiteral _ _ _ _ hvalue
    dsimp only at hend
    by_cases hdone : skipWhitespace rest = []
    · rw [if_pos hdone] at hend
      cases hend
      rw [hdone, List.append_nil] at hafter
      refine ⟨before, tree, after, ?_, Nat.le_of_succ_le_succ hdepth, rfl⟩
      rw [hbefore, htext, hafter]
    · rw [if_neg hdone] at hend
      cases hend
  · rintro ⟨before, tree, after, rfl, hdepth, rfl⟩
    have hend : Follows (after.1 ++ []) := follows_blank after fun c hc => nomatch hc
    have hvalue := complete_parseValue parseDoubleLiteral (kMaxJsonDepth + 1) tree (after.1 ++ [])
      (Nat.succ_le_succ hdepth) hend
    have hskip : skipWhitespace (after.1 ++ []) = [] := skip_blank after []
    rw [List.append_nil] at hvalue hskip
    refine bind_ok.mpr ⟨(tree.value parseDoubleLiteral, after.1), ?_, if_pos hskip⟩
    rw [skip_blank, skip_tree]
    exact hvalue

end Value

end PrinterDriver.Dsl.JsonTexts
