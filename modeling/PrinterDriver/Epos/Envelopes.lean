import Mathlib.Data.List.TakeWhile
import Mathlib.Tactic.SplitIfs
import PrinterDriver.Lib.XmlDocuments
import PrinterDriver.Epos.Replies

/-! # Reply envelopes

What the client reads in a document is what the document says, however it is written, as long as the
scanner recognises the tags up to the response. -/

namespace PrinterDriver.Epos.Envelopes

open PrinterDriver.Core.Types PrinterDriver.Lib.XmlDocuments PrinterDriver.Epos.Xml
  PrinterDriver.Epos.Replies

/-! ### Cuts -/

theorem cut_one {x : UInt8} : ∀ {front : Bytes} (rest : Bytes), x ∉ front →
    cut [x] (front ++ x :: rest) = some (front, rest)
  | [], rest, _ => by
    rw [List.nil_append, cut, if_pos (by simp)]
    rfl
  | c :: front, rest, h => by
    have hne : x ≠ c := fun he => h (he ▸ List.mem_cons_self ..)
    rw [List.cons_append, cut, if_neg (by simpa using hne),
      cut_one rest fun hmem => h (List.mem_cons_of_mem _ hmem)]
    rfl

theorem cut_append {x : UInt8} : ∀ {front : Bytes} (rest : Bytes), x ∉ front →
    cut [x] (front ++ rest) = (cut [x] rest).map fun r => (front ++ r.1, r.2)
  | [], rest, _ => by
    rw [List.nil_append]
    rcases cut [x] rest with _ | r <;> rfl
  | c :: front, rest, h => by
    have hne : x ≠ c := fun he => h (he ▸ List.mem_cons_self ..)
    rw [List.cons_append, cut, if_neg (by simpa using hne),
      cut_append rest fun hmem => h (List.mem_cons_of_mem _ hmem), Option.map_map]
    rfl

/-! ### Values -/

/-- What the client makes of a reference to a character. -/
def clientReference (n : ℕ) : Bytes := if 0 < n ∧ n < 128 then [UInt8.ofNat n] else [63]

/-- A value whose bytes the scanner takes as they stand. -/
def PlainPiece : Piece → Prop
  | .raw c => c ≠ 62 ∧ c ≠ 9 ∧ c ≠ 10 ∧ c ≠ 13
  | _ => True

theorem digitValue_decimal {c : UInt8} (h : isDecimalDigit c) :
    digitValue c = digitOf c ∧ digitValue c < 10 := by
  simp only [isDecimalDigit, Bool.and_eq_true, decide_eq_true_eq] at h
  have hlo := UInt8.le_iff_toNat_le.mp h.1
  have hhi := UInt8.le_iff_toNat_le.mp h.2
  have hsub : (c - 48).toNat = c.toNat - 48 := UInt8.toNat_sub_of_le _ _ h.1
  have h48 : (48 : UInt8).toNat = 48 := rfl
  have h57 : (57 : UInt8).toNat = 57 := rfl
  unfold digitValue digitOf
  rw [if_pos h, if_pos h.2, hsub]
  omega

theorem digitValue_hex {c : UInt8} (h : isHexDigit c) :
    digitValue c = digitOf c ∧ digitValue c < 16 := by
  have hall : ∀ n < 256, isHexDigit (UInt8.ofNat n) → digitValue (UInt8.ofNat n) =
      digitOf (UInt8.ofNat n) ∧ digitValue (UInt8.ofNat n) < 16 := by decide +kernel
  have := hall c.toNat (UInt8.toNat_lt c)
  rw [UInt8.ofNat_toNat] at this
  exact this h

/-- Digits are read as the number they write. -/
theorem leadingDigits_eq {base : ℕ} {digits : Bytes}
    (h : ∀ c ∈ digits, digitValue c = digitOf c ∧ digitValue c < base) :
    leadingDigits base digits = number base digits := by
  have hall : digits.takeWhile (fun c => digitValue c < base) = digits :=
    List.takeWhile_eq_self_iff.mpr fun c hc => decide_eq_true (h c hc).2
  unfold leadingDigits number
  rw [hall]
  exact List.foldl_ext _ _ _ fun n c hc => by rw [(h c hc).1]

/-- What begins with a digit has no sign. -/
theorem takeSign_digits {c : UInt8} {digits : Bytes} (h : isHexDigit c) :
    takeSign ((c :: digits).dropWhile isCSpace) = (false, c :: digits) := by
  have hall : ∀ n < 256, isHexDigit (UInt8.ofNat n) →
      isCSpace (UInt8.ofNat n) = false ∧ UInt8.ofNat n ≠ 45 ∧ UInt8.ofNat n ≠ 43 := by decide +kernel
  have hc := hall c.toNat (UInt8.toNat_lt c)
  rw [UInt8.ofNat_toNat] at hc
  obtain ⟨hspace, hminus, hplus⟩ := hc h
  rw [List.dropWhile_cons_of_neg (by rw [hspace]; exact Bool.false_ne_true)]
  unfold takeSign
  split
  next heq => exact absurd (List.cons.inj heq).1 hminus
  next heq => exact absurd (List.cons.inj heq).1 hplus
  next => rfl

theorem isHexDigit_of_decimal {c : UInt8} (h : isDecimalDigit c) : isHexDigit c := by
  unfold isHexDigit
  rw [h]
  rfl

theorem dropHexMark_digits {digits : Bytes} (h : ∀ c ∈ digits, isHexDigit c) :
    dropHexMark digits = digits := by
  unfold dropHexMark
  split
  next text =>
    have hx : isHexDigit 120 := h 120 (by simp)
    cases hx
  next text =>
    have hx : isHexDigit 88 := h 88 (by simp)
    cases hx
  next => rfl

theorem strtoull_unsigned {base n : ℕ} {digits : Bytes}
    (hsign : takeSign (digits.dropWhile isCSpace) = (false, digits))
    (hvalue : leadingDigits base (if base = 16 then dropHexMark digits else digits) = n)
    (hsmall : n < 2 ^ 64) : strtoull base digits = n := by
  unfold strtoull
  rw [hsign]
  dsimp only
  rw [hvalue, if_neg (by omega)]
  rfl

theorem strtoull_decimal {digits : Bytes} (hne : digits ≠ []) (h : ∀ c ∈ digits, isDecimalDigit c)
    (hsmall : number 10 digits < 2 ^ 64) : strtoull 10 digits = number 10 digits := by
  obtain ⟨c, rest, rfl⟩ := List.exists_cons_of_ne_nil hne
  refine strtoull_unsigned (takeSign_digits (isHexDigit_of_decimal (h c (List.mem_cons_self ..))))
    ?_ hsmall
  rw [if_neg (by decide)]
  exact leadingDigits_eq fun c hc => digitValue_decimal (h c hc)

theorem strtoull_hex {digits : Bytes} (hne : digits ≠ []) (h : ∀ c ∈ digits, isHexDigit c)
    (hsmall : number 16 digits < 2 ^ 64) : strtoull 16 digits = number 16 digits := by
  obtain ⟨c, rest, rfl⟩ := List.exists_cons_of_ne_nil hne
  refine strtoull_unsigned (takeSign_digits (h c (List.mem_cons_self ..))) ?_ hsmall
  rw [if_pos rfl, dropHexMark_digits h]
  exact leadingDigits_eq fun c hc => digitValue_hex (h c hc)

/-- A reference is decoded below 128. -/
theorem number_lt {n : ℕ} (h : IsCharacter n) : 0 < n ∧ n < 2 ^ 64 := by
  unfold IsCharacter at h
  omega

theorem numericEntity_decimal {digits : Bytes} (hne : digits ≠ [])
    (h : ∀ c ∈ digits, isDecimalDigit c) (hn : IsCharacter (number 10 digits)) :
    numericEntity (35 :: digits) = clientReference (number 10 digits) := by
  have hx : ¬((35 :: digits)[1]? = some 120 ∨ (35 :: digits)[1]? = some 88) := by
    obtain ⟨c, rest, rfl⟩ := List.exists_cons_of_ne_nil hne
    have hc := h c (List.mem_cons_self ..)
    rintro (he | he)
    · obtain rfl : c = 120 := Option.some.inj he
      cases hc
    · obtain rfl : c = 88 := Option.some.inj he
      cases hc
  unfold numericEntity
  dsimp only
  rw [if_neg hx, List.drop_succ_cons, List.drop_zero, strtoull_decimal hne h (number_lt hn).2]
  rfl

theorem numericEntity_hex {digits : Bytes} (hne : digits ≠ [])
    (h : ∀ c ∈ digits, isHexDigit c) (hn : IsCharacter (number 16 digits)) :
    numericEntity (35 :: 120 :: digits) = clientReference (number 16 digits) := by
  have hx : (35 :: 120 :: digits)[1]? = some 120 ∨ (35 :: 120 :: digits)[1]? = some 88 := .inl rfl
  unfold numericEntity
  dsimp only
  rw [if_pos hx, List.drop_succ_cons, List.drop_succ_cons, List.drop_zero,
    strtoull_hex hne h (number_lt hn).2]
  rfl

theorem decodeFrom_raw {fuel : ℕ} {c : UInt8} {text : Bytes} (h : c ≠ 38) :
    decodeFrom (fuel + 1) (c :: text) = c :: decodeFrom fuel text := if_neg h

/-- A reference is decoded, and the decoding goes on behind it. -/
theorem decodeFrom_reference {fuel : ℕ} {name rest decoded : Bytes} (hname : 59 ∉ name)
    (h : entity name = some decoded) :
    decodeFrom (fuel + 1) (38 :: name ++ [59] ++ rest) = decoded ++ decodeFrom fuel rest := by
  have hcut : cut (str ";") (name ++ 59 :: rest) = some (name, rest) := cut_one rest hname
  rw [List.append_assoc, List.cons_append, List.singleton_append]
  conv_lhs => unfold decodeFrom
  rw [if_pos rfl, hcut]
  dsimp only
  rw [h, Option.getD_some]

theorem entity_name (e : Entity) : entity e.name = some [e.char] ∧ 59 ∉ e.name := by
  cases e <;> decide

theorem entity_number {name : Bytes} : entity (35 :: name) = some (numericEntity (35 :: name)) := by
  unfold entity
  rw [if_neg, if_neg, if_neg, if_neg, if_neg,
    if_pos (show (35 :: name)[0]? = some 35 from rfl)]
  all_goals exact fun h => by cases (List.cons.inj h).1

theorem not_mem_digits {digits : Bytes} (h : ∀ c ∈ digits, isHexDigit c) : 59 ∉ digits := by
  intro hmem
  cases h 59 hmem

/-- The client decodes a value as its pieces are meant. -/
theorem decodeFrom_pieces {quote : UInt8} : ∀ (pieces : List Piece) {fuel : ℕ},
    (∀ p ∈ pieces, p.WellFormed quote ∧ PlainPiece p) →
      (pieces.flatMap Piece.write).length ≤ fuel →
        decodeFrom fuel (pieces.flatMap Piece.write) = valueOf clientReference pieces
  | [], 0, _, _ => rfl
  | [], _ + 1, _, _ => rfl
  | p :: pieces, 0, h, hfuel => by
    cases p <;> simp [Piece.write] at hfuel
  | p :: pieces, fuel + 1, h, hfuel => by
    rw [List.flatMap_cons, List.length_append] at hfuel
    rw [List.flatMap_cons]
    have hp := h p (List.mem_cons_self ..)
    have hrest : ∀ {fuel : ℕ}, (pieces.flatMap Piece.write).length ≤ fuel →
        decodeFrom fuel (pieces.flatMap Piece.write) = valueOf clientReference pieces :=
      decodeFrom_pieces pieces fun q hq => h q (List.mem_cons_of_mem _ hq)
    cases p with
    | raw c =>
      obtain ⟨⟨-, hamp, -⟩, -, htab, hline, hreturn⟩ := hp
      have hlength : (Piece.raw c).write.length = 1 := rfl
      have hblank : (if isBlank c then 32 else c) = c := by
        split_ifs with hb
        · simp only [isBlank, Bool.or_eq_true, decide_eq_true_eq] at hb
          rcases hb with ((hb | hb) | hb) | hb
          · exact hb.symm
          · exact absurd hb htab
          · exact absurd hb hreturn
          · exact absurd hb hline
        · rfl
      show decodeFrom (fuel + 1) (c :: pieces.flatMap Piece.write) = _
      unfold valueOf
      rw [decodeFrom_raw hamp, if_neg fun hc => hreturn hc.1, hblank, hrest (by omega)]
    | entity e =>
      have hname := entity_name e
      have hlength : (Piece.entity e).write.length = e.name.length + 2 := by simp [Piece.write]
      show decodeFrom (fuel + 1) (38 :: e.name ++ [59] ++ _) = _
      rw [decodeFrom_reference hname.2 hname.1, hrest (by omega)]
      rfl
    | decimal digits =>
      obtain ⟨hne, hdigits, hn⟩ := hp.1
      have hlength : (Piece.decimal digits).write.length = digits.length + 3 := by
        simp [Piece.write]
      have hmem : 59 ∉ 35 :: digits := by
        rw [List.mem_cons, not_or]
        exact ⟨by decide, not_mem_digits fun c hc => isHexDigit_of_decimal (hdigits c hc)⟩
      show decodeFrom (fuel + 1) (38 :: (35 :: digits) ++ [59] ++ _) = _
      rw [decodeFrom_reference hmem entity_number, hrest (by omega),
        numericEntity_decimal hne hdigits hn]
      rfl
    | hex digits =>
      obtain ⟨hne, hdigits, hn⟩ := hp.1
      have hlength : (Piece.hex digits).write.length = digits.length + 4 := by simp [Piece.write]
      have hmem : 59 ∉ 35 :: 120 :: digits := by
        rw [List.mem_cons, List.mem_cons, not_or, not_or]
        exact ⟨by decide, by decide, not_mem_digits hdigits⟩
      show decodeFrom (fuel + 1) (38 :: (35 :: 120 :: digits) ++ [59] ++ _) = _
      rw [decodeFrom_reference hmem entity_number, hrest (by omega),
        numericEntity_hex hne hdigits hn]
      rfl

/-! ### Names -/

/-- A byte of a written name; none of them ends the name. -/
def InName (c : UInt8) : Prop := isNameByte c ∨ c = 58

theorem inName_spec {c : UInt8} (h : InName c) : isSpace c = false ∧ c ≠ 47 ∧ c ≠ 62 ∧ c ≠ 61 := by
  have hall : ∀ n < 256, (isNameByte (UInt8.ofNat n) ∨ UInt8.ofNat n = 58) →
      isSpace (UInt8.ofNat n) = false ∧ UInt8.ofNat n ≠ 47 ∧ UInt8.ofNat n ≠ 62 ∧
        UInt8.ofNat n ≠ 61 := by decide +kernel
  have hc := hall c.toNat (UInt8.toNat_lt c)
  rw [UInt8.ofNat_toNat] at hc
  exact hc h

theorem isNameStart_spec {c : UInt8} (h : isNameStart c) : c ≠ 33 ∧ c ≠ 63 := by
  constructor
  · rintro rfl
    cases h
  · rintro rfl
    cases h

section Names
variable {n : Name} (h : n.WellFormed)
include h

theorem inName_write : ∀ c ∈ n.write, InName c := by
  intro c hc
  unfold Name.write at hc
  split_ifs at hc with hq
  · exact .inl (h.base.bytes c hc)
  · have hqualifier := h.qualifier.resolve_left hq
    rw [List.mem_append, List.mem_cons] at hc
    rcases hc with hc | hc | hc
    · exact .inl (hqualifier.bytes c hc)
    · exact .inr hc
    · exact .inl (h.base.bytes c hc)

theorem exists_start : ∃ c rest, n.write = c :: rest ∧ isNameStart c := by
  unfold Name.write
  split_ifs with hq
  · exact h.base.start
  · obtain ⟨c, rest, hc, hstart⟩ := (h.qualifier.resolve_left hq).start
    exact ⟨c, rest ++ 58 :: n.base, by rw [hc, List.cons_append], hstart⟩

theorem splitQName_write : splitQName n.write = ⟨n.qualifier, n.base⟩ := by
  have hcolon : ∀ {name : Bytes}, IsNcName name → 58 ∉ name := fun hname hmem => by
    cases hname.bytes 58 hmem
  unfold splitQName Name.write
  split_ifs with hq
  · have hcut : cut (str ":") n.base = none := by
      have := @cut_append 58 n.base [] (hcolon h.base)
      rwa [List.append_nil] at this
    rw [hcut, hq]
  · have hcut : cut (str ":") (n.qualifier ++ 58 :: n.base) = some (n.qualifier, n.base) :=
      cut_one n.base (hcolon (h.qualifier.resolve_left hq))
    rw [hcut]

end Names

/-! ### Attributes -/

/-- An attribute that the scanner recognises: nothing stands between its name and the equals sign, and its
value has no closing angle bracket and no white space but blanks. -/
structure PlainAttribute (a : Lib.XmlDocuments.Attribute) : Prop where
  adjacent : a.gapBefore = []
  value : ∀ p ∈ a.value, PlainPiece p

/-- What the scanner makes of an attribute. -/
def readAttribute (a : Lib.XmlDocuments.Attribute) : Xml.Attribute :=
  ⟨⟨a.name.qualifier, a.name.base⟩, valueOf clientReference a.value⟩

/-- The bytes that a reference is written with. -/
def InReference (c : UInt8) : Prop := isNameByte c ∨ c = 35 ∨ c = 38 ∨ c = 59

theorem inReference_spec {c : UInt8} (h : InReference c) : c ≠ 34 ∧ c ≠ 39 ∧ c ≠ 62 := by
  have hall : ∀ n < 256, (isNameByte (UInt8.ofNat n) ∨ UInt8.ofNat n = 35 ∨ UInt8.ofNat n = 38 ∨
      UInt8.ofNat n = 59) → UInt8.ofNat n ≠ 34 ∧ UInt8.ofNat n ≠ 39 ∧ UInt8.ofNat n ≠ 62 := by
    decide +kernel
  have hc := hall c.toNat (UInt8.toNat_lt c)
  rw [UInt8.ofNat_toNat] at hc
  exact hc h

theorem isNameByte_of_hex {c : UInt8} (h : isHexDigit c) : isNameByte c := by
  have hall : ∀ n < 256, isHexDigit (UInt8.ofNat n) → isNameByte (UInt8.ofNat n) := by decide +kernel
  have hc := hall c.toNat (UInt8.toNat_lt c)
  rw [UInt8.ofNat_toNat] at hc
  exact hc h

/-- References are written between an ampersand and a semicolon. -/
theorem inReference_write {name : Bytes} (h : ∀ c ∈ name, InReference c) :
    ∀ c ∈ 38 :: name ++ [59], InReference c := by
  intro c hc
  rw [List.cons_append, List.mem_cons, List.mem_append, List.mem_singleton] at hc
  rcases hc with hc | hc | hc
  · exact .inr (.inr (.inl hc))
  · exact h c hc
  · exact .inr (.inr (.inr hc))

/-- No byte of a value ends it or the tag. -/
theorem mem_value {quote c : UInt8} {pieces : List Piece} (hquote : quote = 34 ∨ quote = 39)
    (h : ∀ p ∈ pieces, p.WellFormed quote ∧ PlainPiece p) (hc : c ∈ pieces.flatMap Piece.write) :
    c ≠ quote ∧ c ≠ 62 := by
  obtain ⟨p, hp, hc⟩ := List.mem_flatMap.mp hc
  have href : InReference c → c ≠ quote ∧ c ≠ 62 := by
    intro hin
    obtain ⟨h34, h39, h62⟩ := inReference_spec hin
    rcases hquote with rfl | rfl
    · exact ⟨h34, h62⟩
    · exact ⟨h39, h62⟩
  cases p with
  | raw b =>
    obtain rfl : c = b := List.mem_singleton.mp hc
    exact ⟨(h _ hp).1.2.2, (h _ hp).2.1⟩
  | entity e =>
    have hletters : e.name.all isNameByte = true := by cases e <;> rfl
    exact href (inReference_write (fun b hb => .inl (List.all_eq_true.mp hletters b hb)) c hc)
  | decimal digits =>
    have hin : ∀ b ∈ 35 :: digits, InReference b := by
      intro b hb
      rcases List.mem_cons.mp hb with rfl | hb
      · exact .inr (.inl rfl)
      · exact .inl (isNameByte_of_hex (isHexDigit_of_decimal ((h _ hp).1.2.1 b hb)))
    exact href (inReference_write hin c hc)
  | hex digits =>
    have hin : ∀ b ∈ 35 :: 120 :: digits, InReference b := by
      intro b hb
      rcases List.mem_cons.mp hb with rfl | hb
      · exact .inr (.inl rfl)
      · rcases List.mem_cons.mp hb with rfl | hb
        · exact .inl rfl
        · exact .inl (isNameByte_of_hex ((h _ hp).1.2.1 b hb))
    exact href (inReference_write hin c hc)

/-- A front is passed over up to the first byte that is not of its kind. -/
theorem dropWhile_front {q : UInt8 → Bool} {front : Bytes} {c : UInt8} {rest : Bytes}
    (hfront : ∀ b ∈ front, q b = true) (hc : q c = false) :
    (front ++ c :: rest).dropWhile q = c :: rest := by
  rw [List.dropWhile_append_of_pos hfront, List.dropWhile_cons_of_neg (by rw [hc]; exact
    Bool.false_ne_true)]

theorem takeWhile_front {q : UInt8 → Bool} {front : Bytes} {c : UInt8} {rest : Bytes}
    (hfront : ∀ b ∈ front, q b = true) (hc : q c = false) :
    (front ++ c :: rest).takeWhile q = front := by
  rw [List.takeWhile_append_of_pos hfront, List.takeWhile_cons_of_neg (by rw [hc]; exact
    Bool.false_ne_true), List.append_nil]

/-- An attribute is read, and the reading goes on behind it. -/
theorem attributesFrom_write {a : Lib.XmlDocuments.Attribute} (h : a.WellFormed)
    (hplain : PlainAttribute a) (fuel : ℕ) (rest : Bytes) :
    attributesFrom (fuel + 1) (a.write ++ rest) =
      (readAttribute a :: (attributesFrom fuel rest).1, (attributesFrom fuel rest).2) := by
  obtain ⟨c, tail, hname, hstart⟩ := exists_start h.name
  have hin := inName_write h.name
  have hc := inName_spec (hin c (by rw [hname]; exact List.mem_cons_self ..))
  let value := a.value.flatMap Piece.write
  have hwrite : a.write ++ rest = a.before ++ c :: (tail ++ 61 :: (a.gapAfter ++
      a.quote :: (value ++ a.quote :: rest))) := by
    simp only [Lib.XmlDocuments.Attribute.write, hplain.adjacent, hname, List.append_assoc,
      List.cons_append, List.nil_append, value]
  have hbefore : ∀ b ∈ a.before, isSpace b = true := h.before
  have hafter : ∀ b ∈ a.gapAfter, isSpace b = true := h.gapAfter
  have hpieces : ∀ p ∈ a.value, p.WellFormed a.quote ∧ PlainPiece p :=
    fun p hp => ⟨h.value p hp, hplain.value p hp⟩
  have hquote : isSpace a.quote = false := by
    rcases h.quote with hq | hq <;> rw [hq] <;> rfl
  have hvalue : ∀ b ∈ value, decide (b ≠ a.quote) = true :=
    fun b hb => decide_eq_true (mem_value h.quote hpieces hb).1
  have hends : decide (a.quote ≠ a.quote) = false := decide_eq_false fun hne => hne rfl
  have hbytes : ∀ b ∈ c :: tail, (decide (b ≠ 61) && !isSpace b && decide (b ≠ 47)) = true := by
    intro b hb
    obtain ⟨hspace, hslash, -, hequals⟩ := inName_spec (hin b (by rw [hname]; exact hb))
    simp only [hspace, Bool.not_false, Bool.and_true, Bool.and_eq_true, decide_eq_true_eq]
    exact ⟨hequals, hslash⟩
  let behind := a.gapAfter ++ a.quote :: (value ++ a.quote :: rest)
  have hdrop : (c :: (tail ++ 61 :: behind)).dropWhile
      (fun b => decide (b ≠ 61) && !isSpace b && decide (b ≠ 47)) = 61 :: behind :=
    dropWhile_front hbytes rfl
  have htake : (c :: (tail ++ 61 :: behind)).takeWhile
      (fun b => decide (b ≠ 61) && !isSpace b && decide (b ≠ 47)) = c :: tail :=
    takeWhile_front hbytes rfl
  have hdecode : decodeEntities value = valueOf clientReference a.value :=
    decodeFrom_pieces a.value hpieces (Nat.le_refl _)
  rw [hwrite]
  conv_lhs => unfold attributesFrom
  rw [dropWhile_front hbefore hc.1]
  dsimp only
  rw [if_neg hc.2.1, hdrop]
  dsimp only
  rw [if_neg (by decide), dropWhile_front hafter hquote]
  dsimp only
  rw [if_neg (by rcases h.quote with hq | hq <;> rw [hq] <;> decide), htake,
    takeWhile_front hvalue hends, dropWhile_front hvalue hends, List.tail_cons,
    ← hname, splitQName_write h.name, hdecode]
  rfl

/-- The end of a tag, with or without a slash. -/
def ending (selfClosing : Bool) : Bytes := if selfClosing then [47] else []

theorem attributesFrom_ending {gap : Bytes} (h : ∀ c ∈ gap, isBlank c) (fuel : ℕ)
    (selfClosing : Bool) : attributesFrom (fuel + 1) (gap ++ ending selfClosing) =
      ([], selfClosing) := by
  have hgap : ∀ b ∈ gap, isSpace b = true := h
  unfold attributesFrom
  cases selfClosing with
  | false =>
    have hdrop : (gap ++ ending false).dropWhile isSpace = [] := by
      rw [List.dropWhile_append_of_pos hgap]
      rfl
    rw [hdrop]
  | true =>
    have hdrop : (gap ++ ending true).dropWhile isSpace = [47] := dropWhile_front hgap rfl
    rw [hdrop]
    rfl

theorem attributesFrom_tag {gap : Bytes} (h : ∀ c ∈ gap, isBlank c) (selfClosing : Bool) :
    ∀ (attributes : List Lib.XmlDocuments.Attribute) {fuel : ℕ},
      (∀ a ∈ attributes, a.WellFormed ∧ PlainAttribute a) → attributes.length < fuel →
        attributesFrom fuel (attributes.flatMap Attribute.write ++ (gap ++ ending selfClosing)) =
          (attributes.map readAttribute, selfClosing)
  | _, 0, _, hfuel => absurd hfuel (Nat.not_lt_zero _)
  | [], fuel + 1, _, _ => attributesFrom_ending h fuel selfClosing
  | a :: attributes, fuel + 1, hall, hfuel => by
    have ha := hall a (List.mem_cons_self ..)
    have hrest := attributesFrom_tag h selfClosing attributes
      (fun b hb => hall b (List.mem_cons_of_mem _ hb)) (Nat.lt_of_succ_lt_succ hfuel)
    rw [List.flatMap_cons, List.append_assoc, attributesFrom_write ha.1 ha.2, hrest]
    rfl

/-- A tag that the scanner recognises. -/
def PlainTag (t : Tag) : Prop := ∀ a ∈ t.attributes, PlainAttribute a

def readTag (t : Tag) (selfClosing : Bool) : StartTag :=
  ⟨⟨t.name.qualifier, t.name.base⟩, t.attributes.map readAttribute, selfClosing⟩

section Tags
variable {reference : ℕ → Bytes} {env : Env} {t : Tag} (h : t.WellFormed reference env)
  (hplain : PlainTag t)
include h

/-- What follows the name of a tag does not belong to it. -/
theorem behind_name (selfClosing : Bool) :
    let behind := t.attributes.flatMap Attribute.write ++ (t.gap ++ ending selfClosing)
    behind = [] ∨ ∃ c rest, behind = c :: rest ∧ (isSpace c = true ∨ c = 47) := by
  dsimp only
  rcases hattributes : t.attributes with _ | ⟨a, attributes⟩
  · rcases hgap : t.gap with _ | ⟨c, gap⟩
    · cases selfClosing with
      | false => exact .inl rfl
      | true => exact .inr ⟨47, [], rfl, .inr rfl⟩
    · have hc : isSpace c = true := h.gap c (by rw [hgap]; exact List.mem_cons_self ..)
      exact .inr ⟨c, gap ++ ending selfClosing, rfl, .inl hc⟩
  · have ha := h.attributes a (by rw [hattributes]; exact List.mem_cons_self ..)
    obtain ⟨c, before, hbefore⟩ := List.exists_cons_of_ne_nil ha.separated
    have hc : isSpace c = true := ha.before c (by rw [hbefore]; exact List.mem_cons_self ..)
    refine .inr ⟨c, ?_, ?_, .inl hc⟩
    rotate_left
    · simp only [List.flatMap_cons, Attribute.write, hbefore, List.cons_append]
      rfl

theorem length_attributes : t.attributes.length ≤ t.write.length := by
  have hone : ∀ a ∈ t.attributes, 1 ≤ a.write.length := by
    intro a ha
    have := List.length_pos_iff.mpr (h.attributes a ha).separated
    simp only [Attribute.write, List.length_append]
    omega
  have hsum : ∀ attributes : List Lib.XmlDocuments.Attribute,
      (∀ a ∈ attributes, 1 ≤ a.write.length) →
        attributes.length ≤ (attributes.flatMap Attribute.write).length := by
    intro attributes
    induction attributes with
    | nil => exact fun _ => Nat.le_refl 0
    | cons a attributes ih =>
      intro hall
      have ha := hall a (List.mem_cons_self ..)
      have hrest := ih fun b hb => hall b (List.mem_cons_of_mem _ hb)
      rw [List.flatMap_cons, List.length_append, List.length_cons]
      omega
  have := hsum t.attributes hone
  simp only [Tag.write, List.length_append]
  omega

include hplain

theorem parseStartTag_write (selfClosing : Bool) :
    parseStartTag (t.write ++ ending selfClosing) = some (readTag t selfClosing) := by
  obtain ⟨c, tail, hname, hstart⟩ := exists_start h.name
  have hin := inName_write h.name
  have hc := inName_spec (hin c (by rw [hname]; exact List.mem_cons_self ..))
  let behind := t.attributes.flatMap Attribute.write ++ (t.gap ++ ending selfClosing)
  have hwrite : t.write ++ ending selfClosing = t.name.write ++ behind := by
    simp only [Tag.write, List.append_assoc, behind]
  have hbytes : ∀ b ∈ t.name.write,
      (!isSpace b && decide (b ≠ 47) && decide (b ≠ 62)) = true := by
    intro b hb
    obtain ⟨hspace, hslash, hangle, -⟩ := inName_spec (hin b hb)
    simp only [hspace, Bool.not_false, Bool.true_and, Bool.and_eq_true, decide_eq_true_eq]
    exact ⟨hslash, hangle⟩
  have hsplit : (t.name.write ++ behind).takeWhile
        (fun b => !isSpace b && decide (b ≠ 47) && decide (b ≠ 62)) = t.name.write ∧
      (t.name.write ++ behind).dropWhile
        (fun b => !isSpace b && decide (b ≠ 47) && decide (b ≠ 62)) = behind := by
    rcases behind_name h selfClosing with hnil | ⟨d, rest, hcons, hd⟩
    · rw [show behind = [] from hnil, List.append_nil]
      exact ⟨List.takeWhile_eq_self_iff.mpr hbytes, List.dropWhile_eq_nil_iff.mpr hbytes⟩
    · rw [show behind = d :: rest from hcons]
      have hends : (!isSpace d && decide (d ≠ 47) && decide (d ≠ 62)) = false := by
        rcases hd with hd | rfl
        · rw [hd]
          rfl
        · rfl
      exact ⟨takeWhile_front hbytes hends, dropWhile_front hbytes hends⟩
  have hspaces : (t.name.write ++ behind).dropWhile isSpace = t.name.write ++ behind := by
    rw [hname, List.cons_append, List.dropWhile_cons_of_neg (by rw [hc.1]; exact Bool.false_ne_true)]
  have hne : t.name.write ≠ [] := by
    rw [hname]
    exact List.cons_ne_nil _ _
  have hlength : t.attributes.length < (t.name.write ++ behind).length + 1 := by
    have := length_attributes h
    rw [← hwrite, List.length_append]
    omega
  have hattributes := attributesFrom_tag h.gap selfClosing t.attributes
    (fun a ha => ⟨h.attributes a ha, hplain a ha⟩) hlength
  rw [hwrite]
  unfold parseStartTag
  dsimp only
  rw [hspaces, hsplit.1, hsplit.2, if_neg hne, hattributes, splitQName_write h.name]
  rfl

/-- No closing angle bracket stands in a tag. -/
theorem not_mem_tag (selfClosing : Bool) : 62 ∉ t.write ++ ending selfClosing := by
  have hblank : ∀ {text : Bytes}, (∀ c ∈ text, isBlank c = true) → 62 ∉ text := by
    intro text htext hmem
    cases htext 62 hmem
  have hname : ∀ {n : Name}, n.WellFormed → 62 ∉ n.write := by
    intro n hn hmem
    exact (inName_spec (inName_write hn 62 hmem)).2.2.1 rfl
  intro hmem
  simp only [Tag.write, List.mem_append, List.mem_flatMap] at hmem
  rcases hmem with ((hmem | ⟨a, ha, hmem⟩) | hmem) | hmem
  · exact hname h.name hmem
  · have hwf := h.attributes a ha
    have hpieces : ∀ p ∈ a.value, p.WellFormed a.quote ∧ PlainPiece p :=
      fun p hp => ⟨hwf.value p hp, (hplain a ha).value p hp⟩
    simp only [Attribute.write, List.mem_append, List.mem_cons, List.not_mem_nil, or_false] at hmem
    have hquote : (62 : UInt8) ≠ a.quote := by
      rcases hwf.quote with hq | hq <;> rw [hq] <;> decide
    rcases hmem with ((((hmem | hmem) | hmem) | hmem | hmem) | hmem | hmem) | hmem
    · exact hblank hwf.before hmem
    · exact hname hwf.name hmem
    · exact hblank hwf.gapBefore hmem
    · exact absurd hmem (by decide)
    · exact hblank hwf.gapAfter hmem
    · exact hquote hmem
    · exact (mem_value hwf.quote hpieces hmem).2 rfl
    · exact hquote hmem
  · exact hblank h.gap hmem
  · cases selfClosing with
    | false => exact List.not_mem_nil hmem
    | true => simp [ending] at hmem

end Tags

/-! ### Markup -/

theorem exists_tag_start {reference : ℕ → Bytes} {env : Env} {t : Tag}
    (h : t.WellFormed reference env) (rest : Bytes) :
    ∃ c text, t.write ++ rest = c :: text ∧ isNameStart c := by
  obtain ⟨c, tail, hname, hstart⟩ := exists_start h.name
  refine ⟨c, tail ++ t.attributes.flatMap Attribute.write ++ t.gap ++ rest, ?_, hstart⟩
  simp only [Tag.write, hname, List.cons_append]

/-- What begins like a name is the inside of a tag. -/
theorem markup_start {c : UInt8} {text inside rest : Bytes} (h : c ≠ 33 ∧ c ≠ 63)
    (hcut : cut (str ">") (c :: text) = some (inside, rest)) :
    markup (c :: text) = .tag inside rest := by
  have hhead : ∀ {d : UInt8} {pattern : Bytes}, (d :: pattern).isPrefixOf (c :: text) = true →
      d = c := fun hp => (List.cons_prefix_cons.mp (List.isPrefixOf_iff_prefix.mp hp)).1
  unfold markup
  rw [hcut, if_neg, if_neg]
  · rintro (hp | hp)
    · exact h.2 (@hhead 63 [] hp).symm
    · exact h.1 (@hhead 33 [] hp).symm
  · intro hp
    exact h.1 (@hhead 33 [45, 45] hp).symm

theorem markup_tag {reference : ℕ → Bytes} {env : Env} {t : Tag} (h : t.WellFormed reference env)
    (hplain : PlainTag t) (selfClosing : Bool) (rest : Bytes) :
    markup (t.write ++ ending selfClosing ++ 62 :: rest) =
      .tag (t.write ++ ending selfClosing) rest := by
  obtain ⟨c, text, htext, hstart⟩ := exists_tag_start h (ending selfClosing ++ 62 :: rest)
  have hcut : cut (str ">") (t.write ++ ending selfClosing ++ 62 :: rest) =
      some (t.write ++ ending selfClosing, rest) := cut_one rest (not_mem_tag h hplain selfClosing)
  rw [List.append_assoc, htext] at hcut ⊢
  exact markup_start (isNameStart_spec hstart) hcut

/-- The end tag of an element. -/
theorem markup_end {n : Name} (h : n.WellFormed) (rest : Bytes) :
    markup (47 :: n.write ++ 62 :: rest) = .tag (47 :: n.write) rest := by
  have hmem : 62 ∉ 47 :: n.write := by
    rw [List.mem_cons, not_or]
    exact ⟨by decide, fun hmem => (inName_spec (inName_write h 62 hmem)).2.2.1 rfl⟩
  have hcut : cut (str ">") (47 :: n.write ++ 62 :: rest) = some (47 :: n.write, rest) :=
    cut_one rest hmem
  exact markup_start ⟨by decide, by decide⟩ hcut

/-! ### The scan -/

/-- What is cut is the text. -/
theorem cut_eq_some {pattern : Bytes} : ∀ {text front rest : Bytes},
    cut pattern text = some (front, rest) → text = front ++ pattern ++ rest
  | [], front, rest, h => by
    unfold cut at h
    split_ifs at h with hp
    obtain ⟨rfl, rfl⟩ := Prod.mk.inj (Option.some.inj h)
    rw [hp]
    rfl
  | c :: text, front, rest, h => by
    unfold cut at h
    split_ifs at h with hp
    · obtain ⟨rfl, rfl⟩ := Prod.mk.inj (Option.some.inj h)
      obtain ⟨tail, htail⟩ := List.isPrefixOf_iff_prefix.mp hp
      rw [← htail, List.drop_left]
      rfl
    · obtain ⟨⟨front, rest⟩, hcut, he⟩ := Option.map_eq_some_iff.mp h
      obtain ⟨rfl, rfl⟩ := Prod.mk.inj he
      rw [cut_eq_some hcut]
      rfl

theorem length_of_cut {pattern text front rest : Bytes} (h : cut pattern text = some (front, rest)) :
    rest.length + pattern.length ≤ text.length := by
  have hlength := congrArg List.length (cut_eq_some h)
  rw [List.length_append, List.length_append] at hlength
  omega

/-- What follows a piece of markup is shorter. -/
theorem length_of_markup {text : Bytes} :
    (∀ rest, markup text = .skip rest → rest.length ≤ text.length) ∧
      ∀ inside rest, markup text = .tag inside rest → rest.length ≤ text.length := by
  unfold markup
  split_ifs
  · refine ⟨fun rest h => ?_, fun inside rest h => ?_⟩ <;> split at h <;> cases h
    next hcut =>
      have := length_of_cut hcut
      rw [List.length_drop] at this
      omega
  · refine ⟨fun rest h => ?_, fun inside rest h => ?_⟩ <;> split at h <;> cases h
    next hcut =>
      have := length_of_cut hcut
      rw [List.length_drop] at this
      omega
  · refine ⟨fun rest h => ?_, fun inside rest h => ?_⟩ <;> split at h <;> cases h
    next hcut =>
      have := length_of_cut hcut
      omega

/-- Fuel above the length of the text makes no difference. -/
theorem findElement_fuel {uri name : Bytes} : ∀ {n m : ℕ} {scopes : List NamespaceScope}
    {xml : Bytes}, xml.length < n → xml.length < m →
      findElement uri name n scopes xml = findElement uri name m scopes xml
  | 0, _, _, _, h, _ => absurd h (Nat.not_lt_zero _)
  | _ + 1, 0, _, _, _, h => absurd h (Nat.not_lt_zero _)
  | n + 1, m + 1, scopes, xml, hn, hm => by
    unfold findElement
    rcases hcut : cut (str "<") xml with _ | ⟨front, text⟩
    · rfl
    · dsimp only
      have hlength := length_of_cut hcut
      have hone : (str "<").length = 1 := rfl
      obtain ⟨hskip, htag⟩ := @length_of_markup text
      rcases hmarkup : markup text with rest | ⟨inside, rest⟩ | _
      · have := hskip rest hmarkup
        exact findElement_fuel (by omega) (by omega)
      · have := htag inside rest hmarkup
        have hrest : ∀ scopes, findElement uri name n scopes rest =
            findElement uri name m scopes rest :=
          fun _ => findElement_fuel (by omega) (by omega)
        split
        next heq => cases heq
        next heq => cases heq
        next heq =>
          cases heq
          exact hrest _
        next hslash heq =>
          cases heq
          simp only [hrest]
      · rfl

/-- The scan with the fuel it has. -/
def find (scopes : List NamespaceScope) (xml : Bytes) : Option StartTag :=
  findElement kEposNamespace (str "response") (xml.length + 1) scopes xml

section Scan
variable {scopes : List NamespaceScope} {xml front text rest : Bytes}

theorem find_skip (hcut : cut (str "<") xml = some (front, text)) (h : markup text = .skip rest) :
    find scopes xml = find scopes rest := by
  have hlength := length_of_cut hcut
  have hone : (str "<").length = 1 := rfl
  have := length_of_markup.1 rest h
  conv_lhs => unfold find findElement
  rw [hcut]
  dsimp only
  rw [h]
  exact findElement_fuel (by omega) (by omega)

theorem find_end {inside : Bytes} (hcut : cut (str "<") xml = some (front, text))
    (h : markup text = .tag (47 :: inside) rest) :
    find scopes xml = find (closeElement scopes (splitQName inside)) rest := by
  have hlength := length_of_cut hcut
  have hone : (str "<").length = 1 := rfl
  have := length_of_markup.2 _ rest h
  conv_lhs => unfold find findElement
  rw [hcut]
  dsimp only
  rw [h]
  exact findElement_fuel (by omega) (by omega)

theorem find_tag {inside : Bytes} {tag : StartTag} (hcut : cut (str "<") xml = some (front, text))
    (h : markup text = .tag inside rest) (hslash : ∀ r, inside ≠ 47 :: r)
    (htag : parseStartTag inside = some tag) :
    find scopes xml =
      if tag.name.base = str "response" ∧
          resolve (tag.scope :: scopes) tag.name.qualifier = kEposNamespace then some tag
      else find (if tag.selfClosing then scopes else tag.scope :: scopes) rest := by
  have hlength := length_of_cut hcut
  have hone : (str "<").length = 1 := rfl
  have := length_of_markup.2 _ rest h
  conv_lhs => unfold find findElement
  rw [hcut]
  dsimp only
  rw [h]
  split
  next heq => cases heq
  next heq => cases heq
  next heq =>
    cases heq
    exact absurd rfl (hslash _)
  next heq =>
    cases heq
    rw [htag]
    dsimp only
    split_ifs
    · rfl
    · exact findElement_fuel (by omega) (by omega)
    · exact findElement_fuel (by omega) (by omega)

/-- Text is passed over. -/
theorem find_text {chars : Bytes} (h : 60 ∉ chars) :
    find scopes (chars ++ rest) = find scopes rest := by
  have hcut : cut (str "<") (chars ++ rest) = (cut (str "<") rest).map fun r => (chars ++ r.1, r.2) :=
    cut_append rest h
  have hfuel : find scopes rest =
      findElement kEposNamespace (str "response") ((chars ++ rest).length + 1) scopes rest := by
    refine findElement_fuel (Nat.lt_succ_self _) ?_
    rw [List.length_append]
    omega
  rw [hfuel]
  unfold find findElement
  rcases hrest : cut (str "<") rest with _ | ⟨front, text⟩
  · rw [hcut, hrest]
    rfl
  · rw [hcut, hrest]
    rfl

theorem cut_open (text : Bytes) : cut (str "<") (60 :: text) = some ([], text) :=
  cut_one text List.not_mem_nil

/-- A comment ends with the first two hyphens in it. -/
theorem cut_comment : ∀ {content : Bytes} (rest : Bytes),
    ¬ascii "--" <:+: content → ¬ascii "-" <:+ content →
      cut (str "-->") (content ++ str "-->" ++ rest) = some (content, rest)
  | [], rest, _, _ => by
    have hp : (str "-->").isPrefixOf (45 :: 45 :: 62 :: rest) = true :=
      List.isPrefixOf_iff_prefix.mpr ⟨rest, rfl⟩
    show cut (str "-->") (45 :: (45 :: 62 :: rest)) = _
    unfold cut
    rw [if_pos hp]
    rfl
  | c :: content, rest, hinfix, hends => by
    have hinner : ¬ascii "--" <:+: content := fun h =>
      hinfix (h.trans (List.suffix_cons c content).isInfix)
    have hcut : cut (str "-->") (content ++ str "-->" ++ rest) = some (content, rest) := by
      by_cases hnil : content = []
      · rw [hnil]
        exact cut_comment rest (fun h => by simp [ascii] at h) (fun h => by simp [ascii] at h)
      · exact cut_comment rest hinner fun h => hends (h.trans (List.suffix_cons c content))
    have hnot : ¬(str "-->").isPrefixOf (c :: (content ++ str "-->" ++ rest)) = true := by
      intro hp
      have hmark : [45, 45, 62] <+: c :: (content ++ str "-->" ++ rest) :=
        List.isPrefixOf_iff_prefix.mp hp
      obtain ⟨rfl, hbehind⟩ := List.cons_prefix_cons.mp hmark
      rcases content with _ | ⟨d, content⟩
      · exact hends ⟨[], rfl⟩
      · rw [List.cons_append, List.cons_append] at hbehind
        obtain ⟨rfl, -⟩ := List.cons_prefix_cons.mp hbehind
        exact hinfix ⟨[], content, rfl⟩
    rw [List.cons_append, List.cons_append]
    unfold cut
    rw [if_neg hnot, hcut]
    rfl

/-- A section behind which the scanner goes on at once: no opening angle bracket stands in it behind a
closing one. -/
def PlainAside : Aside → Prop
  | .comment _ => True
  | .cdata content | .instruction content =>
    ∀ front back, content = front ++ 62 :: back → 60 ∉ back

/-- The scanner leaves a section at the first closing angle bracket. -/
theorem find_section {d : UInt8} {opening content closing : Bytes} (hd : d = 33 ∨ d = 63)
    (hnot : ¬(str "!--").isPrefixOf (d :: (opening ++ content ++ closing ++ 62 :: rest)) = true)
    (hopening : 62 ∉ opening) (hclosing : 62 ∉ closing ∧ 60 ∉ closing)
    (hplain : ∀ front back, content = front ++ 62 :: back → 60 ∉ back) :
    find scopes (60 :: d :: (opening ++ content ++ closing ++ 62 :: rest)) = find scopes rest := by
  have hmarkup : ∀ {inside behind : Bytes},
      cut (str ">") (opening ++ content ++ closing ++ 62 :: rest) = some (inside, behind) →
        markup (d :: (opening ++ content ++ closing ++ 62 :: rest)) = .skip behind := by
    intro inside behind hcut
    unfold markup
    rw [if_neg hnot, if_pos]
    · rw [List.drop_succ_cons, List.drop_zero, hcut]
    · rcases hd with rfl | rfl
      · exact .inr rfl
      · exact .inl rfl
  by_cases hmem : 62 ∈ content
  · obtain ⟨front, back, rfl, hfront⟩ := List.eq_append_cons_of_mem hmem
    have hcut : cut [62] (opening ++ (front ++ 62 :: back) ++ closing ++ 62 :: rest) =
        some (opening ++ front, back ++ closing ++ 62 :: rest) := by
      have := @cut_one 62 (opening ++ front) (back ++ closing ++ 62 :: rest) (by
        rw [List.mem_append, not_or]
        exact ⟨hopening, hfront⟩)
      simpa only [List.append_assoc, List.cons_append] using this
    rw [find_skip (cut_open _) (hmarkup hcut),
      show back ++ closing ++ 62 :: rest = (back ++ closing ++ [62]) ++ rest by simp]
    refine find_text fun hback => ?_
    rw [List.mem_append, List.mem_append, List.mem_singleton] at hback
    rcases hback with (hback | hback) | hback
    · exact hplain front back rfl hback
    · exact hclosing.2 hback
    · cases hback
  · have hcut : cut (str ">") (opening ++ content ++ closing ++ 62 :: rest) =
        some (opening ++ content ++ closing, rest) := by
      refine cut_one rest ?_
      rw [List.mem_append, List.mem_append, not_or, not_or]
      exact ⟨⟨hopening, hmem⟩, hclosing.1⟩
    exact find_skip (cut_open _) (hmarkup hcut)

theorem find_aside {a : Aside} (h : a.WellFormed) (hplain : PlainAside a) :
    find scopes (a.write ++ rest) = find scopes rest := by
  cases a with
  | comment content =>
    have hmarkup : markup (33 :: 45 :: 45 :: (content ++ str "-->" ++ rest)) = .skip rest := by
      have hp : (str "!--").isPrefixOf (33 :: 45 :: 45 :: (content ++ str "-->" ++ rest)) = true :=
        List.isPrefixOf_iff_prefix.mpr ⟨content ++ str "-->" ++ rest, rfl⟩
      unfold markup
      rw [if_pos hp]
      have hcut := cut_comment rest h.1 h.2
      rw [show (33 :: 45 :: 45 :: (content ++ str "-->" ++ rest)).drop 3 =
        content ++ str "-->" ++ rest from rfl, hcut]
    have hskip : find scopes (60 :: 33 :: 45 :: 45 :: (content ++ str "-->" ++ rest)) =
        find scopes rest := find_skip (cut_open _) hmarkup
    rw [← hskip]
    rfl
  | cdata content =>
    have hskip : find scopes (60 :: 33 :: (ascii "[CDATA[" ++ content ++ ascii "]]" ++ 62 :: rest)) =
        find scopes rest := find_section (.inl rfl) (fun hp => Bool.false_ne_true hp) (by decide)
      (by decide) hplain
    rw [← hskip]
    simp [Aside.write, ascii]
  | instruction content =>
    have hskip : find scopes (60 :: 63 :: ([] ++ content ++ ascii "?" ++ 62 :: rest)) =
        find scopes rest := find_section (.inr rfl) (fun hp => Bool.false_ne_true hp) (by decide)
      (by decide) hplain
    rw [← hskip]
    simp [Aside.write, ascii]

end Scan

/-! ### Namespaces and attributes -/

theorem scope_readTag (t : Tag) (selfClosing : Bool) : (readTag t selfClosing).scope =
    ⟨t.name.base, t.attributes.filterMap fun a =>
      a.declares.map fun p => (p, valueOf clientReference a.value)⟩ := by
  have hone : ∀ a : Lib.XmlDocuments.Attribute,
      (if (readAttribute a).name.qualifier = [] ∧ (readAttribute a).name.base = str "xmlns" then
          some ([], (readAttribute a).value)
        else if (readAttribute a).name.qualifier = str "xmlns" then
          some ((readAttribute a).name.base, (readAttribute a).value)
        else none) = a.declares.map fun p => (p, valueOf clientReference a.value) := by
    intro a
    show (if a.name.qualifier = [] ∧ a.name.base = xmlns then _
      else if a.name.qualifier = xmlns then _ else _) = _
    unfold Attribute.declares Name.declares
    split_ifs <;> rfl
  unfold StartTag.scope readTag
  simp only [List.filterMap_map]
  congr 1
  exact List.filterMap_congr fun a _ => hone a

/-- The scanner resolves prefixes as the document means them. -/
theorem resolve_readTag {scopes : List NamespaceScope} {env : Env}
    (h : ∀ p, resolve scopes p = env p) (t : Tag) (selfClosing : Bool) (p : Bytes) :
    resolve ((readTag t selfClosing).scope :: scopes) p = t.bind clientReference env p := by
  have hfind : ∀ attributes : List Lib.XmlDocuments.Attribute,
      (((attributes.filterMap fun a => a.declares.map fun q =>
        (q, valueOf clientReference a.value)).find? fun b => b.1 = p).map (·.2)) =
      (attributes.find? fun a => a.declares = some p).map fun a =>
        valueOf clientReference a.value := by
    intro attributes
    induction attributes with
    | nil => rfl
    | cons a attributes ih =>
      rcases hdeclares : a.declares with _ | q
      · rw [List.filterMap_cons_none (by rw [hdeclares]; rfl),
          List.find?_cons_of_neg (by rw [hdeclares]; simp), ih]
      · rw [List.filterMap_cons_some (by rw [hdeclares]; rfl)]
        by_cases hq : q = p
        · rw [List.find?_cons_of_pos (by simpa using hq),
            List.find?_cons_of_pos (by rw [hdeclares, hq]; simp)]
          rfl
        · rw [List.find?_cons_of_neg (by simpa using hq),
            List.find?_cons_of_neg (by rw [hdeclares]; simpa using hq), ih]
  rw [scope_readTag]
  unfold resolve Tag.bind
  rw [List.findSome?_cons, hfind]
  generalize (t.attributes.find? fun a => a.declares = some p).map (fun a =>
    valueOf clientReference a.value) = found
  rcases found with _ | uri
  · exact h p
  · rfl

/-- A response with what attributes say put over it. -/
def overlay (r : Response) (value : Bytes → Option Bytes) : Response where
  parsed := r.parsed
  success := ((value (str "success")).map fun v =>
    decide (lower v = str "true") || decide (lower v = str "1")).getD r.success
  code := ((value (str "code")).map responseCodeFrom).getD r.code
  codeText := (value (str "code")).getD r.codeText
  status := ((value (str "status")).map parseUnsigned32).getD r.status
  battery := ((value (str "battery")).map parseUnsigned32).getD r.battery
  printjobid := (value (str "printjobid")).getD r.printjobid

/-- The response that the attributes of an element say; those with a namespace are no part of it. -/
def responseOf (lookup : Option Text × Text → Option Text) : Response :=
  overlay { parsed := true } fun base => lookup (none, base)

/-- The value of the attribute of that name, without a prefix. -/
def unprefixed (attributes : List Lib.XmlDocuments.Attribute) (base : Bytes) : Option Bytes :=
  (attributes.find? fun a => a.name = ⟨[], base⟩).map fun a => valueOf clientReference a.value

theorem lookup_unprefixed (t : Tag) (env : Env) {base : Bytes} (h : base ≠ xmlns) :
    t.lookup clientReference env (none, base) = unprefixed t.attributes base := by
  unfold Tag.lookup unprefixed
  congr 2
  funext a
  rw [decide_eq_decide]
  unfold Attribute.declares Name.declares Attribute.expanded
  constructor
  · rintro ⟨-, he⟩
    obtain ⟨hq, hb⟩ := Prod.mk.inj he
    have hnil : a.name.qualifier = [] := by
      by_contra hne
      rw [if_neg hne] at hq
      cases hq
    rw [← hnil, ← hb]
  · intro he
    have hq : a.name.qualifier = [] := congrArg Name.qualifier he
    have hb : a.name.base = base := congrArg Name.base he
    have hx : ¬([] : Bytes) = xmlns := by decide
    rw [hq, hb, if_neg fun hc => h hc.2, if_neg hx, if_pos rfl]
    exact ⟨rfl, rfl⟩

theorem unprefixed_cons (a : Lib.XmlDocuments.Attribute)
    (attributes : List Lib.XmlDocuments.Attribute) (base : Bytes) :
    unprefixed (a :: attributes) base =
      if a.name = ⟨[], base⟩ then some (valueOf clientReference a.value)
      else unprefixed attributes base := by
  unfold unprefixed
  split_ifs with h
  · rw [List.find?_cons_of_pos (by simpa using h)]
    rfl
  · rw [List.find?_cons_of_neg (by simpa using h)]

/-- What has another name than the head is found behind it. -/
theorem unprefixed_of_ne {a : Lib.XmlDocuments.Attribute}
    {attributes : List Lib.XmlDocuments.Attribute} (h : ∀ b ∈ attributes, a.name ≠ b.name)
    {base : Bytes} (hname : a.name = ⟨[], base⟩) : unprefixed attributes base = none := by
  unfold unprefixed
  rw [List.find?_eq_none.mpr]
  · rfl
  · intro b hb
    rw [decide_eq_true_eq]
    exact fun he => h b hb (hname.trans he.symm)

/-- The attribute at the head is read over what was read, and no other has its name. -/
theorem overlay_cons {a : Lib.XmlDocuments.Attribute}
    {attributes : List Lib.XmlDocuments.Attribute} (h : ∀ b ∈ attributes, a.name ≠ b.name)
    (r : Response) : overlay (r.read (readAttribute a)) (unprefixed attributes) =
      overlay r (unprefixed (a :: attributes)) := by
  have hother : ∀ base, ¬(a.name.qualifier = [] ∧ a.name.base = base) →
      unprefixed (a :: attributes) base = unprefixed attributes base := by
    intro base hne
    rw [unprefixed_cons, if_neg]
    exact fun he => hne ⟨congrArg Name.qualifier he, congrArg Name.base he⟩
  have hhere : ∀ base, a.name.qualifier = [] → a.name.base = base →
      unprefixed (a :: attributes) base = some (valueOf clientReference a.value) ∧
        unprefixed attributes base = none := by
    intro base hq hb
    have hname : a.name = ⟨[], base⟩ := by rw [← hq, ← hb]
    exact ⟨by rw [unprefixed_cons, if_pos hname], unprefixed_of_ne h hname⟩
  have hapart : ∀ {base : Bytes}, a.name.base = base → ∀ base', base ≠ base' →
      unprefixed (a :: attributes) base' = unprefixed attributes base' :=
    fun hb base' hne => hother base' fun hc => hne (hb.symm.trans hc.2)
  unfold Response.read
  split_ifs with hq hsuccess hcode hstatus hbattery hjob
  · have hq' : ¬a.name.qualifier = [] := hq
    unfold overlay
    simp only [hother _ fun hc => hq' hc.1]
  · have hq' : a.name.qualifier = [] := Decidable.not_not.mp hq
    obtain ⟨hsome, hnone⟩ := hhere _ hq' hsuccess
    have hrest := hapart hsuccess
    unfold overlay
    rw [hsome, hnone, hrest (str "code") (by decide), hrest (str "status") (by decide),
      hrest (str "battery") (by decide), hrest (str "printjobid") (by decide)]
    rfl
  · have hq' : a.name.qualifier = [] := Decidable.not_not.mp hq
    obtain ⟨hsome, hnone⟩ := hhere _ hq' hcode
    have hrest := hapart hcode
    unfold overlay
    rw [hsome, hnone, hrest (str "success") (by decide), hrest (str "status") (by decide),
      hrest (str "battery") (by decide), hrest (str "printjobid") (by decide)]
    rfl
  · have hq' : a.name.qualifier = [] := Decidable.not_not.mp hq
    obtain ⟨hsome, hnone⟩ := hhere _ hq' hstatus
    have hrest := hapart hstatus
    unfold overlay
    rw [hsome, hnone, hrest (str "success") (by decide), hrest (str "code") (by decide),
      hrest (str "battery") (by decide), hrest (str "printjobid") (by decide)]
    rfl
  · have hq' : a.name.qualifier = [] := Decidable.not_not.mp hq
    obtain ⟨hsome, hnone⟩ := hhere _ hq' hbattery
    have hrest := hapart hbattery
    unfold overlay
    rw [hsome, hnone, hrest (str "success") (by decide), hrest (str "code") (by decide),
      hrest (str "status") (by decide), hrest (str "printjobid") (by decide)]
    rfl
  · have hq' : a.name.qualifier = [] := Decidable.not_not.mp hq
    obtain ⟨hsome, hnone⟩ := hhere _ hq' hjob
    have hrest := hapart hjob
    unfold overlay
    rw [hsome, hnone, hrest (str "success") (by decide), hrest (str "code") (by decide),
      hrest (str "status") (by decide), hrest (str "battery") (by decide)]
    rfl
  · unfold overlay
    rw [hother (str "success") fun hc => hsuccess hc.2, hother (str "code") fun hc => hcode hc.2,
      hother (str "status") fun hc => hstatus hc.2, hother (str "battery") fun hc => hbattery hc.2,
      hother (str "printjobid") fun hc => hjob hc.2]

/-- The attributes are read one after the other. -/
theorem foldl_read : ∀ (attributes : List Lib.XmlDocuments.Attribute) (r : Response),
    attributes.Pairwise (fun a b => a.name ≠ b.name) →
      (attributes.map readAttribute).foldl Response.read r = overlay r (unprefixed attributes)
  | [], _, _ => rfl
  | a :: attributes, r, h => by
    obtain ⟨hhead, htail⟩ := List.pairwise_cons.mp h
    rw [List.map_cons, List.foldl_cons, foldl_read attributes _ htail, overlay_cons hhead]

/-- What a scan finds, read as a response. -/
def answer : Option StartTag → Response
  | some tag => tag.attributes.foldl Response.read { parsed := true }
  | none => {}

theorem answer_readTag {reference : ℕ → Bytes} {env env' : Env} {t : Tag}
    (h : t.WellFormed reference env) (selfClosing : Bool) :
    answer (some (readTag t selfClosing)) = responseOf (t.lookup clientReference env') := by
  show (t.attributes.map readAttribute).foldl Response.read { parsed := true } = _
  rw [foldl_read t.attributes _ h.distinct]
  unfold responseOf overlay
  dsimp only
  rw [lookup_unprefixed t env' (by decide), lookup_unprefixed t env' (by decide),
    lookup_unprefixed t env' (by decide), lookup_unprefixed t env' (by decide),
    lookup_unprefixed t env' (by decide)]

/-! ### The document -/

/-- The name of the response element. -/
def target : Text × Text := (kEposNamespace, str "response")

/-- The element is the response. -/
def Named (env : Env) (t : Tag) : Prop :=
  t.name.expanded (t.bind clientReference env) = target

/-- Up to the response the scanner recognises what stands in the document. -/
def Recognised : Env → Content → Prop
  | _, .nil => True
  | env, .text _ rest => Recognised env rest
  | env, .aside a rest => PlainAside a ∧ Recognised env rest
  | env, .empty tag rest => PlainTag tag ∧ (Named env tag ∨ Recognised env rest)
  | env, .element tag inner gap rest =>
    PlainTag tag ∧ (Named env tag ∨ Recognised (tag.bind clientReference env) inner ∧
      ((inner.view clientReference (tag.bind clientReference env)).first target ≠ none ∨
        gap = [] ∧ Recognised env rest))

/-- What the response element says, or else what is read behind the content. -/
def reading (v : View) (otherwise : Response) : Response :=
  ((v.first target).map responseOf).getD otherwise

theorem reading_element (name : Text × Text) (attributes : Option Text × Text → Option Text)
    (inner rest : View) (otherwise : Response) :
    reading (.element name attributes inner rest) otherwise =
      if name = target then responseOf attributes else reading inner (reading rest otherwise) := by
  unfold reading
  conv_lhs => unfold View.first
  split_ifs
  · rfl
  · rcases inner.first target with _ | _ <;> rfl

theorem find_start {scopes : List NamespaceScope} {reference : ℕ → Bytes} {env env' : Env} {t : Tag}
    (h : t.WellFormed reference env) (hplain : PlainTag t)
    (hscopes : ∀ p, resolve scopes p = env' p) (selfClosing : Bool) (rest : Bytes) :
    (Named env' t → find scopes (60 :: (t.write ++ ending selfClosing ++ 62 :: rest)) =
      some (readTag t selfClosing)) ∧
    (¬Named env' t → find scopes (60 :: (t.write ++ ending selfClosing ++ 62 :: rest)) =
      find (if selfClosing then scopes else (readTag t selfClosing).scope :: scopes) rest) := by
  obtain ⟨c, text, htext, hstart⟩ := exists_tag_start h (ending selfClosing)
  have hslash : ∀ r, t.write ++ ending selfClosing ≠ 47 :: r := by
    intro r he
    rw [htext] at he
    rw [(List.cons.inj he).1] at hstart
    cases hstart
  have hfind := @find_tag scopes _ _ _ _ _ _ (cut_open _) (markup_tag h hplain selfClosing rest) hslash
    (parseStartTag_write h hplain selfClosing)
  have hresolve := resolve_readTag hscopes t selfClosing t.name.qualifier
  have hnamed : ((readTag t selfClosing).name.base = str "response" ∧
      resolve ((readTag t selfClosing).scope :: scopes) (readTag t selfClosing).name.qualifier =
        kEposNamespace) ↔ Named env' t := by
    show (t.name.base = str "response" ∧ resolve _ t.name.qualifier = kEposNamespace) ↔
      (t.bind clientReference env' t.name.qualifier, t.name.base) = (kEposNamespace, str "response")
    rw [hresolve, Prod.mk.injEq]
    exact And.comm
  rw [hfind]
  exact ⟨fun hn => if_pos (hnamed.mpr hn), fun hn => if_neg fun hc => hn (hnamed.mp hc)⟩

/-- The scanner finds in what is written what it says. -/
theorem find_write {reference : ℕ → Bytes} : ∀ (c : Content) {wf env : Env}
    {scopes : List NamespaceScope} (rest : Bytes), c.WellFormed reference wf →
      Recognised env c → (∀ p, resolve scopes p = env p) →
        answer (find scopes (c.write ++ rest)) =
          reading (c.view clientReference env) (answer (find scopes rest))
  | .nil, _, _, _, _, _, _, _ => rfl
  | .text chars behind, wf, env, scopes, rest, h, hr, hscopes => by
    have ih := find_write behind rest h.2 hr hscopes
    show answer (find scopes ((chars ++ behind.write) ++ rest)) = _
    rw [List.append_assoc, find_text h.1, ih]
    rfl
  | .aside a behind, wf, env, scopes, rest, h, hr, hscopes => by
    have ih := find_write behind rest h.2 hr.2 hscopes
    show answer (find scopes ((a.write ++ behind.write) ++ rest)) = _
    rw [List.append_assoc, find_aside h.1 hr.1, ih]
    rfl
  | .empty tag behind, wf, env, scopes, rest, h, hr, hscopes => by
    have hfind := find_start h.1 hr.1 hscopes true (behind.write ++ rest)
    have hwrite : (Content.empty tag behind).write ++ rest =
        60 :: (tag.write ++ ending true ++ 62 :: (behind.write ++ rest)) := by
      simp [Content.write, ending]
    rw [hwrite]
    show _ = reading (.element _ _ .nil (behind.view clientReference env)) _
    rw [reading_element]
    by_cases hnamed : Named env tag
    · have hname : tag.name.expanded (tag.bind clientReference env) = target := hnamed
      rw [hfind.1 hnamed, if_pos hname]
      exact answer_readTag h.1 true
    · have hname : ¬tag.name.expanded (tag.bind clientReference env) = target := hnamed
      rw [hfind.2 hnamed, if_neg hname, if_pos rfl]
      exact find_write behind rest h.2 (hr.2.resolve_left hnamed) hscopes
  | .element tag inner gap behind, wf, env, scopes, rest, h, hr, hscopes => by
    obtain ⟨htag, hinner, hgap, hbehind⟩ := h
    let scope := (readTag tag false).scope
    let after := 60 :: 47 :: (tag.name.write ++ gap ++ 62 :: (behind.write ++ rest))
    have hfind := find_start htag hr.1 hscopes false (inner.write ++ after)
    have hwrite : (Content.element tag inner gap behind).write ++ rest =
        60 :: (tag.write ++ ending false ++ 62 :: (inner.write ++ after)) := by
      simp [Content.write, ending, after]
    rw [hwrite]
    show _ = reading (.element _ _ (inner.view clientReference (tag.bind clientReference env))
      (behind.view clientReference env)) _
    rw [reading_element]
    by_cases hnamed : Named env tag
    · have hname : tag.name.expanded (tag.bind clientReference env) = target := hnamed
      rw [hfind.1 hnamed, if_pos hname]
      exact answer_readTag htag false
    · have hname : ¬tag.name.expanded (tag.bind clientReference env) = target := hnamed
      obtain ⟨hrinner, hleft⟩ := hr.2.resolve_left hnamed
      have ih := find_write inner after hinner hrinner (resolve_readTag hscopes tag false)
      rw [hfind.2 hnamed, if_neg hname, if_neg Bool.false_ne_true, ih]
      rcases hleft with hfound | ⟨rfl, hrbehind⟩
      · -- the response is inside, and nothing behind it is looked at
        obtain ⟨lookup, hlookup⟩ := Option.ne_none_iff_exists'.mp hfound
        unfold reading
        rw [hlookup]
        rfl
      · have hclose : find (scope :: scopes) after = find scopes (behind.write ++ rest) := by
          have hmarkup := markup_end htag.name (behind.write ++ rest)
          have hend := @find_end (scope :: scopes) _ _ _ _ _ (cut_open _) hmarkup
          have hpop : closeElement (scope :: scopes) (splitQName tag.name.write) = scopes := by
            rw [splitQName_write htag.name]
            exact if_pos rfl
          rw [hpop] at hend
          simpa [after] using hend
        rw [hclose, find_write behind rest hbehind hrbehind hscopes]

/-- No prefix stands for a namespace outside the document. -/
def outside : Env := fun _ => []

/-- What a document says to the client. -/
def said (reference : ℕ → Bytes) (c : Content) : Response :=
  reading (c.view reference outside) {}

/-- **Replies are read by what they say.** -/
theorem parseResponse_write (c : Content) (h : c.WellFormed utf8 outside)
    (hr : Recognised outside c) : parseResponse c.write = said clientReference c := by
  have hfind := @find_write _ c outside outside [] [] h hr fun _ => rfl
  rw [List.append_nil] at hfind
  show answer (find [] c.write) = _
  rw [hfind]
  rfl

/-! ### Character references -/

/-- A reference to a character that the client decodes. -/
def LowPiece : Piece → Prop
  | .decimal digits => 0 < number 10 digits ∧ number 10 digits < 128
  | .hex digits => 0 < number 16 digits ∧ number 16 digits < 128
  | _ => True

def LowTag (t : Tag) : Prop := ∀ a ∈ t.attributes, ∀ p ∈ a.value, LowPiece p

/-- Up to the response no attribute has a reference to another character. -/
def LowReferences : Env → Content → Prop
  | _, .nil => True
  | env, .text _ rest => LowReferences env rest
  | env, .aside _ rest => LowReferences env rest
  | env, .empty tag rest => LowTag tag ∧ (Named env tag ∨ LowReferences env rest)
  | env, .element tag inner _ rest =>
    LowTag tag ∧ (Named env tag ∨ LowReferences (tag.bind clientReference env) inner ∧
      ((inner.view clientReference (tag.bind clientReference env)).first target ≠ none ∨
        LowReferences env rest))

theorem utf8_eq_clientReference {n : ℕ} (hpos : 0 < n) (hlow : n < 128) :
    utf8 n = clientReference n := by
  have hall : ∀ m < 128, utf8 m = [UInt8.ofNat m] := by decide +kernel
  unfold clientReference
  rw [if_pos ⟨hpos, hlow⟩, hall n hlow]

theorem valueOf_low : ∀ {pieces : List Piece}, (∀ p ∈ pieces, LowPiece p) →
    valueOf utf8 pieces = valueOf clientReference pieces
  | [], _ => rfl
  | p :: pieces, h => by
    obtain ⟨hp, hrest⟩ := List.forall_mem_cons.mp h
    have ih := valueOf_low hrest
    cases p with
    | raw c => rw [valueOf, valueOf, ih]
    | entity e => rw [valueOf, valueOf, ih]
    | decimal digits => rw [valueOf, valueOf, ih, utf8_eq_clientReference hp.1 hp.2]
    | hex digits => rw [valueOf, valueOf, ih, utf8_eq_clientReference hp.1 hp.2]

theorem map_valueOf_low {t : Tag} (h : LowTag t) (q : Lib.XmlDocuments.Attribute → Bool) :
    (t.attributes.find? q).map (fun a => valueOf utf8 a.value) =
      (t.attributes.find? q).map fun a => valueOf clientReference a.value := by
  cases hfind : t.attributes.find? q with
  | none => rfl
  | some a => exact congrArg some (valueOf_low (h a (List.mem_of_find?_eq_some hfind)))

theorem bind_low {t : Tag} (h : LowTag t) (env : Env) :
    t.bind utf8 env = t.bind clientReference env := by
  funext p
  unfold Tag.bind
  rw [map_valueOf_low h]

theorem lookup_low {t : Tag} (h : LowTag t) (env : Env) :
    t.lookup utf8 env = t.lookup clientReference env := by
  funext name
  exact map_valueOf_low h _

/-- Such a document says the same to the client as to everyone. -/
theorem reading_low : ∀ (c : Content) {env : Env} (otherwise : Response), LowReferences env c →
    reading (c.view utf8 env) otherwise = reading (c.view clientReference env) otherwise
  | .nil, _, _, _ => rfl
  | .text _ behind, _, otherwise, h => reading_low behind otherwise h
  | .aside _ behind, _, otherwise, h => reading_low behind otherwise h
  | .empty tag behind, env, otherwise, h => by
    unfold Content.view
    rw [reading_element, reading_element, bind_low h.1, lookup_low h.1]
    split_ifs with hname
    · rfl
    · exact reading_low behind otherwise (h.2.resolve_left hname)
  | .element tag inner _ behind, env, otherwise, h => by
    unfold Content.view
    rw [reading_element, reading_element, bind_low h.1, lookup_low h.1]
    split_ifs with hname
    · rfl
    · obtain ⟨hinner, hleft⟩ := h.2.resolve_left hname
      rw [reading_low inner _ hinner]
      rcases hleft with hfound | hbehind
      · -- the response is inside, and nothing behind it is looked at
        obtain ⟨lookup, hlookup⟩ := Option.ne_none_iff_exists'.mp hfound
        unfold reading
        rw [hlookup]
        rfl
      · rw [reading_low behind otherwise hbehind]

/-! ### Other ways to write a reply -/

section Restyled
variable {ρ : Text → Text} (hρ : Renaming ρ)
include hρ

theorem unprefixed_restyled {t t' : Tag} (h : t.Restyled ρ clientReference t')
    (hdistinct : t.attributes.Pairwise fun a b => a.name ≠ b.name) (base : Bytes) :
    unprefixed t'.attributes base = unprefixed t.attributes base := by
  have hx : ¬xmlns = [] := by decide
  refine h.find_eq hdistinct (fun n => n = ⟨[], base⟩) (fun n => n = ⟨[], base⟩) (fun a _ => ?_)
    fun a _ b _ hm hn => (of_decide_eq_true hm).trans (of_decide_eq_true hn).symm
  rw [decide_eq_decide]
  unfold Attribute.renamed Name.rename
  split_ifs with hq
  · refine iff_of_false (fun he => hx (congrArg Name.qualifier he)) fun he => ?_
    exact hx (hq.symm.trans (congrArg Name.qualifier he))
  · constructor
    · intro he
      have hnil := hρ.eq_nil_iff.mp (congrArg Name.qualifier he)
      rw [← hnil, ← show a.name.base = base from congrArg Name.base he]
    · intro he
      rw [he, hρ.none]

/-- A restyled reply says the same. -/
theorem reading_restyled {reference : ℕ → Bytes} {c c' : Content}
    (h : Restyled ρ clientReference c c') : ∀ {wf env env' : Env} (otherwise : Response),
      c.WellFormed reference wf → (∀ p, env' (ρ p) = env p) →
        reading (c'.view clientReference env') otherwise =
          reading (c.view clientReference env) otherwise := by
  have htag : ∀ {t t' : Tag} {wf env env' : Env}, t.Restyled ρ clientReference t' →
      t.WellFormed reference wf → (∀ p, env' (ρ p) = env p) →
        (∀ p, t'.bind clientReference env' (ρ p) = t.bind clientReference env p) ∧
        t'.name.expanded (t'.bind clientReference env') =
          t.name.expanded (t.bind clientReference env) ∧
        responseOf (t'.lookup clientReference (t'.bind clientReference env')) =
          responseOf (t.lookup clientReference (t.bind clientReference env)) := by
    intro t t' wf env env' ht hwf henv
    have hbase : ∀ a ∈ t.attributes, a.name.base ≠ [] := by
      intro a ha
      obtain ⟨c, rest, hc, -⟩ := (hwf.attributes a ha).name.base.start
      rw [hc]
      exact List.cons_ne_nil c rest
    have hbind := ht.bind_eq hρ hwf.distinct hbase henv
    refine ⟨hbind, ?_, ?_⟩
    · unfold Name.expanded
      rw [ht.name]
      exact Prod.ext (hbind _) rfl
    · have hsame := unprefixed_restyled hρ ht hwf.distinct
      unfold responseOf overlay
      dsimp only
      rw [lookup_unprefixed t' _ (by decide), lookup_unprefixed t' _ (by decide),
        lookup_unprefixed t' _ (by decide), lookup_unprefixed t' _ (by decide),
        lookup_unprefixed t' _ (by decide), hsame, hsame, hsame, hsame, hsame,
        lookup_unprefixed t _ (by decide), lookup_unprefixed t _ (by decide),
        lookup_unprefixed t _ (by decide), lookup_unprefixed t _ (by decide),
        lookup_unprefixed t _ (by decide)]
  induction h with
  | nil => exact fun _ _ _ => rfl
  | text chars _ ih => exact fun o hwf henv => ih o hwf.2 henv
  | aside a _ ih => exact fun o hwf henv => ih o hwf.2 henv
  | newText chars _ ih => exact fun o hwf henv => ih o hwf henv
  | newAside a _ ih => exact fun o hwf henv => ih o hwf henv
  | empty ht _ ih =>
    intro wf env env' o hwf henv
    obtain ⟨-, hname, hresponse⟩ := htag ht hwf.1 henv
    unfold Content.view
    rw [reading_element, reading_element, hname, hresponse]
    split_ifs
    · rfl
    · exact ih o hwf.2 henv
  | element ht _ _ ihinner ih =>
    intro wf env env' o hwf henv
    obtain ⟨hbind, hname, hresponse⟩ := htag ht hwf.1 henv
    unfold Content.view
    rw [reading_element, reading_element, hname, hresponse]
    split_ifs
    · rfl
    · rw [ih o hwf.2.2.2 henv]
      exact ihinner _ hwf.2.1 hbind

end Restyled

/-- **Replies are read by what they say, and not by how they are written.** A reference to a character
from 128 on is read as a question mark. -/
theorem replies_read (c : Content) (hc : c.WellFormed utf8 outside) (hr : Recognised outside c) :
    parseResponse c.write = said clientReference c ∧
      (LowReferences outside c → parseResponse c.write = said utf8 c) ∧
      ∀ (ρ : Text → Text) (c' : Content), Renaming ρ → Restyled ρ clientReference c c' →
        c'.WellFormed utf8 outside → Recognised outside c' →
          parseResponse c'.write = parseResponse c.write := by
  have hread := parseResponse_write c hc hr
  refine ⟨hread, fun hlow => ?_, fun ρ c' hρ h hc' hr' => ?_⟩
  · exact hread.trans (reading_low c {} hlow).symm
  · rw [parseResponse_write c' hc' hr', hread]
    exact reading_restyled hρ h {} hc fun _ => rfl

/-! ### Short replies -/

theorem ncName (c : UInt8) (rest : Bytes) (h : isNameStart c = true)
    (hall : (c :: rest).all isNameByte = true) : IsNcName (c :: rest) :=
  ⟨⟨c, rest, rfl, h⟩, List.all_eq_true.mp hall⟩

/-- An attribute after one blank. -/
def spelled (name : Name) (gap : Bytes) (quote : UInt8) (value : List Piece) :
    Lib.XmlDocuments.Attribute := ⟨[32], name, gap, [], quote, value⟩

theorem spelled_wellFormed {name : Name} {gap : Bytes} {quote : UInt8} {value : List Piece}
    (hname : name.WellFormed) (hgap : gap.all isBlank = true) (hquote : quote = 34 ∨ quote = 39)
    (hvalue : ∀ p ∈ value, p.WellFormed quote) : (spelled name gap quote value).WellFormed where
  separated := List.cons_ne_nil 32 []
  before := List.all_eq_true.mp (rfl : [32].all isBlank = true)
  name := hname
  gapBefore := List.all_eq_true.mp hgap
  gapAfter := fun _ hc => absurd hc List.not_mem_nil
  quote := hquote
  value := hvalue

/-- Bytes that may stand in a value as they are. -/
def asWritten (quote : UInt8) (text : Bytes) : Bool :=
  text.all fun c => c ≠ 60 && c ≠ 38 && c ≠ quote && c ≠ 62 && c ≠ 9 && c ≠ 10 && c ≠ 13

theorem raw_wellFormed {quote : UInt8} {text : Bytes} (h : asWritten quote text = true) :
    ∀ p ∈ text.map Piece.raw, p.WellFormed quote ∧ PlainPiece p := by
  intro p hp
  obtain ⟨c, hc, rfl⟩ := List.mem_map.mp hp
  have hbyte := List.all_eq_true.mp h c hc
  simp only [Bool.and_eq_true, decide_eq_true_eq] at hbyte
  obtain ⟨⟨⟨⟨⟨⟨h60, h38⟩, hq⟩, h62⟩, h9⟩, h10⟩, h13⟩ := hbyte
  exact ⟨⟨h60, h38, hq⟩, h62, h9, h10, h13⟩

/-- The declaration of the namespace for a prefix. -/
def declaration (p : Bytes) (quote : UInt8) : Lib.XmlDocuments.Attribute :=
  spelled ⟨xmlns, p⟩ [] quote (kEposNamespace.map Piece.raw)

theorem declaration_wellFormed {p : Bytes} {quote : UInt8} (hp : IsNcName p)
    (hquote : quote = 34 ∨ quote = 39) :
    (declaration p quote).WellFormed ∧ PlainAttribute (declaration p quote) := by
  have hwritten : asWritten quote kEposNamespace = true := by
    rcases hquote with rfl | rfl <;> decide
  have hpieces := raw_wellFormed hwritten
  have hxmlns : IsNcName xmlns := ncName 120 (str "mlns") rfl rfl
  exact ⟨spelled_wellFormed ⟨.inr hxmlns, hp⟩ rfl hquote fun piece h => (hpieces piece h).1,
    ⟨rfl, fun piece h => (hpieces piece h).2⟩⟩

/-- A tag whose attributes have no prefix, but for a declaration in front of them. -/
theorem tag_wellFormed {n : Name} {env : Env} {declarations attributes : List Lib.XmlDocuments.Attribute}
    (hn : n.WellFormed) (hdeclared : Declared
      (Tag.bind utf8 ⟨n, declarations ++ attributes, []⟩ env) n.qualifier)
    (hone : declarations.length ≤ 1)
    (hdeclarations : ∀ a ∈ declarations, a.WellFormed ∧ a.name.qualifier = xmlns)
    (hattributes : ∀ a ∈ attributes, a.WellFormed ∧ a.name.qualifier = [])
    (hdistinct : attributes.Pairwise fun a b => a.name.base ≠ b.name.base) :
    Tag.WellFormed utf8 env ⟨n, declarations ++ attributes, []⟩ where
  name := hn
  attributes := fun a ha => (List.mem_append.mp ha).elim (fun h => (hdeclarations a h).1)
    fun h => (hattributes a h).1
  gap := fun _ hc => absurd hc List.not_mem_nil
  declared := hdeclared
  declaredAttributes := by
    intro a ha hnone
    rcases List.mem_append.mp ha with h | h
    · have hx : ¬xmlns = [] := by decide
      have hq := (hdeclarations a h).2
      simp [Attribute.declares, Name.declares, hq, hx] at hnone
    · exact .inl (hattributes a h).2
  distinct := by
    have hx : ¬xmlns = [] := by decide
    refine List.pairwise_append.mpr ⟨?_, hdistinct.imp fun hne he => hne (congrArg Name.base he), ?_⟩
    · rcases declarations with _ | ⟨a, _ | ⟨b, rest⟩⟩
      · exact .nil
      · exact List.pairwise_singleton ..
      · simp at hone
    · intro a ha b hb he
      have hq := congrArg Name.qualifier he
      rw [(hdeclarations a ha).2, (hattributes b hb).2] at hq
      exact hx hq
  apart := by
    refine List.pairwise_append.mpr ⟨?_, ?_, ?_⟩
    · rcases declarations with _ | ⟨a, _ | ⟨b, rest⟩⟩
      · exact .nil
      · exact List.pairwise_singleton ..
      · simp at hone
    · exact hdistinct.imp fun hne _ _ he => hne (congrArg Prod.snd he)
    · intro a ha b _ hnone
      have hx : ¬xmlns = [] := by decide
      have hq := (hdeclarations a ha).2
      simp [Attribute.declares, Name.declares, hq, hx] at hnone

/-- A reply of one element. -/
def reply (p : Bytes) (quote : UInt8) (attributes : List Lib.XmlDocuments.Attribute) : Content :=
  .empty ⟨⟨p, str "response"⟩, [declaration p quote] ++ attributes, []⟩ .nil

theorem reply_wellFormed {p : Bytes} {quote : UInt8} {attributes : List Lib.XmlDocuments.Attribute}
    (hp : IsNcName p) (hquote : quote = 34 ∨ quote = 39)
    (hattributes : ∀ a ∈ attributes, a.WellFormed ∧ a.name.qualifier = [])
    (hdistinct : attributes.Pairwise fun a b => a.name.base ≠ b.name.base) :
    (reply p quote attributes).WellFormed utf8 outside := by
  have hbase : IsNcName (str "response") := ncName 114 (str "esponse") rfl rfl
  have hx : ¬xmlns = [] := by decide
  refine ⟨tag_wellFormed ⟨.inr hp, hbase⟩ (.inr (.inr ?_)) (Nat.le_refl 1) ?_ hattributes hdistinct,
    trivial⟩
  · have hdeclares : (declaration p quote).declares = some p := by
      show (if xmlns = [] ∧ p = xmlns then some [] else if xmlns = xmlns then some p else none) = _
      rw [if_neg fun hc => hx hc.1, if_pos rfl]
    unfold Tag.bind
    rw [List.singleton_append, List.find?_cons_of_pos (by rw [hdeclares]; simp)]
    show valueOf utf8 (kEposNamespace.map Piece.raw) ≠ []
    decide
  · intro a ha
    obtain rfl := List.mem_singleton.mp ha
    exact ⟨(declaration_wellFormed hp hquote).1, rfl⟩

theorem ncName_e : IsNcName (str "e") := ncName 101 [] rfl rfl

theorem wellFormed_success : (⟨[], str "success"⟩ : Name).WellFormed :=
  ⟨.inl rfl, ncName 115 (str "uccess") rfl rfl⟩

theorem wellFormed_code : (⟨[], str "code"⟩ : Name).WellFormed :=
  ⟨.inl rfl, ncName 99 (str "ode") rfl rfl⟩

/-- `success="true"`, with white space before the equals sign. -/
def success (gap : Bytes) (quote : UInt8) : Lib.XmlDocuments.Attribute :=
  spelled ⟨[], str "success"⟩ gap quote ((str "true").map Piece.raw)

theorem success_wellFormed {gap : Bytes} {quote : UInt8} (hgap : gap.all isBlank = true)
    (hquote : quote = 34 ∨ quote = 39) : (success gap quote).WellFormed := by
  have hwritten : asWritten quote (str "true") = true := by
    rcases hquote with rfl | rfl <;> decide
  exact spelled_wellFormed wellFormed_success hgap hquote fun p hp => (raw_wellFormed hwritten p hp).1

def code (value : List Piece) : Lib.XmlDocuments.Attribute :=
  spelled ⟨[], str "code"⟩ [] 34 value

/-- Two prefixes change places. -/
def swapped (p : Text) : Text :=
  if p = str "e" then str "p" else if p = str "p" then str "e" else p

theorem renaming_swapped : Renaming swapped where
  injective := by
    have hinv : ∀ p, swapped (swapped p) = p := by
      intro p
      have hne : ¬str "p" = str "e" := by decide
      unfold swapped
      by_cases he : p = str "e"
      · rw [if_pos he, if_neg hne, if_pos rfl, he]
      · by_cases hp : p = str "p"
        · rw [if_neg he, if_pos hp, if_pos rfl, hp]
        · rw [if_neg he, if_neg hp, if_neg he, if_neg hp]
    intro p q h
    rw [← hinv p, ← hinv q, h]
  none := by decide
  xml := by decide
  xmlns := by decide

def accepted : List Piece := (str "EPTR_COVER_OPEN").map Piece.raw

theorem accepted_wellFormed : (code accepted).WellFormed ∧ PlainAttribute (code accepted) := by
  have hwritten : asWritten 34 (str "EPTR_COVER_OPEN") = true := by decide
  exact ⟨spelled_wellFormed wellFormed_code rfl (.inl rfl) fun p hp => (raw_wellFormed hwritten p hp).1,
    ⟨rfl, fun p hp => (raw_wellFormed hwritten p hp).2⟩⟩

theorem success_plain (quote : UInt8) (hquote : quote = 34 ∨ quote = 39) :
    PlainAttribute (success [] quote) := by
  have hwritten : asWritten quote (str "true") = true := by
    rcases hquote with rfl | rfl <;> decide
  exact ⟨rfl, fun p hp => (raw_wellFormed hwritten p hp).2⟩

theorem ncName_p : IsNcName (str "p") := ncName 112 [] rfl rfl

/-- A reply with another prefix, other quotes, its attributes in the other order and a line break before
it says the same. -/
theorem restyled_reply_read :
    parseResponse (reply (str "e") 34 [success [] 34, code accepted]).write =
      said utf8 (reply (str "e") 34 [success [] 34, code accepted]) ∧
    parseResponse (Content.text [10] (reply (str "p") 39 [code accepted, success [] 39])).write =
      parseResponse (reply (str "e") 34 [success [] 34, code accepted]).write := by
  have hpair : ∀ {quote : UInt8}, quote = 34 ∨ quote = 39 →
      ∀ a ∈ [success [] quote, code accepted], (a.WellFormed ∧ a.name.qualifier = []) ∧
        PlainAttribute a := by
    intro quote hquote
    rintro a (_ | ⟨_, _ | ⟨_, ha⟩⟩)
    · exact ⟨⟨success_wellFormed rfl hquote, rfl⟩, success_plain quote hquote⟩
    · exact ⟨⟨accepted_wellFormed.1, rfl⟩, accepted_wellFormed.2⟩
    · cases ha
  have hswap : ∀ {quote : UInt8} {a : Lib.XmlDocuments.Attribute},
      a ∈ [code accepted, success [] quote] → a ∈ [success [] quote, code accepted] :=
    fun ha => (List.Perm.swap _ _ []).mem_iff.mp ha
  have hone : ∀ {a b : Lib.XmlDocuments.Attribute}, a.name.base ≠ b.name.base →
      [a, b].Pairwise fun a b => a.name.base ≠ b.name.base := fun h =>
    .cons (fun c hc => (List.mem_singleton.mp hc) ▸ h) (List.pairwise_singleton ..)
  have hfirst : (reply (str "e") 34 [success [] 34, code accepted]).WellFormed utf8 outside :=
    reply_wellFormed ncName_e (.inl rfl) (fun a ha => (hpair (.inl rfl) a ha).1)
      (hone (by decide))
  have hsecond : (Content.text [10] (reply (str "p") 39 [code accepted, success [] 39])).WellFormed
      utf8 outside := ⟨by decide, reply_wellFormed ncName_p (.inr rfl)
    (fun a ha => (hpair (.inr rfl) a (hswap ha)).1) (hone (by decide))⟩
  have hplain : ∀ {p : Bytes} {quote : UInt8} {attributes : List Lib.XmlDocuments.Attribute},
      IsNcName p → quote = 34 ∨ quote = 39 → (∀ a ∈ attributes, PlainAttribute a) →
        PlainTag ⟨⟨p, str "response"⟩, [declaration p quote] ++ attributes, []⟩ := by
    intro p quote attributes hp hquote hall a ha
    rcases List.mem_append.mp ha with ha | ha
    · obtain rfl := List.mem_singleton.mp ha
      exact (declaration_wellFormed hp hquote).2
    · exact hall a ha
  have hrfirst : Recognised outside (reply (str "e") 34 [success [] 34, code accepted]) := by
    refine ⟨hplain ncName_e (.inl rfl) fun a ha => (hpair (.inl rfl) a ha).2, .inl ?_⟩
    unfold Named
    decide +kernel
  have hrsecond : Recognised outside (Content.text [10]
      (reply (str "p") 39 [code accepted, success [] 39])) := by
    refine ⟨hplain ncName_p (.inr rfl) fun a ha => (hpair (.inr rfl) a (hswap ha)).2, .inl ?_⟩
    unfold Named
    decide +kernel
  have hrestyled : Restyled swapped clientReference (reply (str "e") 34 [success [] 34, code accepted])
      (.text [10] (reply (str "p") 39 [code accepted, success [] 39])) := by
    refine .newText [10] (.empty ⟨by decide, ?_⟩ .nil)
    exact .cons _ (.swap _ _ [])
  have hraw : ∀ {text : Bytes}, ∀ p ∈ text.map Piece.raw, LowPiece p := by
    intro text p hp
    obtain ⟨c, -, rfl⟩ := List.mem_map.mp hp
    exact trivial
  have hlow : LowReferences outside (reply (str "e") 34 [success [] 34, code accepted]) := by
    have htag : LowTag ⟨⟨str "e", str "response"⟩,
        [declaration (str "e") 34, success [] 34, code accepted], []⟩ := by
      refine List.forall_mem_cons.mpr ⟨hraw, List.forall_mem_cons.mpr ⟨hraw, ?_⟩⟩
      exact List.forall_mem_singleton.mpr hraw
    refine ⟨htag, .inl ?_⟩
    unfold Named
    decide +kernel
  obtain ⟨-, hsaid, hsame⟩ := replies_read _ hfirst hrfirst
  exact ⟨hsaid hlow, hsame swapped _ renaming_swapped hrestyled hsecond hrsecond⟩

/-- A well-formed reply that the client reads as something else than it says. -/
def Misread (reference : ℕ → Bytes) (c : Content) : Prop :=
  c.WellFormed utf8 outside ∧ parseResponse c.write ≠ said reference c

theorem misread_of_single {reference : ℕ → Bytes} {a : Lib.XmlDocuments.Attribute}
    (ha : a.WellFormed) (hq : a.name.qualifier = [])
    (h : parseResponse (reply (str "e") 34 [a]).write ≠ said reference (reply (str "e") 34 [a])) :
    Misread reference (reply (str "e") 34 [a]) := by
  refine ⟨reply_wellFormed ncName_e (.inl rfl) (fun b hb => ?_) (List.pairwise_singleton ..), h⟩
  obtain rfl := List.mem_singleton.mp hb
  exact ⟨ha, hq⟩

/-- An element around the content. -/
def wrapped (inner : Content) : Content := .element ⟨⟨[], str "r"⟩, [] ++ [], []⟩ inner [] .nil

theorem wrapped_wellFormed {inner : Content} (h : inner.WellFormed utf8 outside) :
    (wrapped inner).WellFormed utf8 outside := by
  refine ⟨tag_wellFormed ⟨.inl rfl, ncName 114 [] rfl rfl⟩ (.inl rfl) (Nat.zero_le 1)
    (fun a ha => absurd ha List.not_mem_nil) (fun a ha => absurd ha List.not_mem_nil) .nil, h,
    fun _ hc => absurd hc List.not_mem_nil, trivial⟩

/-- The default namespace is declared in an element whose end tag has a blank, and the response behind it
has no namespace. -/
def unclosed : Content :=
  wrapped (.element ⟨⟨[], str "a"⟩,
    [] ++ [spelled ⟨[], xmlns⟩ [] 34 (kEposNamespace.map Piece.raw)], []⟩ .nil [32]
    (.empty ⟨⟨[], str "response"⟩, [] ++ [success [] 34], []⟩ .nil))

/-- A response that stands in a CDATA section. -/
def quoted : Content :=
  wrapped (.aside (.cdata (62 :: (reply (str "e") 34 [success [] 34]).write)) .nil)

theorem unclosed_wellFormed : unclosed.WellFormed utf8 outside := by
  have hwritten : asWritten 34 kEposNamespace = true := by decide
  refine wrapped_wellFormed ⟨tag_wellFormed ⟨.inl rfl, ncName 97 [] rfl rfl⟩ (.inl rfl)
    (Nat.zero_le 1) (fun a ha => absurd ha List.not_mem_nil) (fun a ha => ?_)
    (List.pairwise_singleton ..), trivial, List.all_eq_true.mp (rfl : [32].all isBlank = true),
    tag_wellFormed ⟨.inl rfl, ncName 114 (str "esponse") rfl rfl⟩ (.inl rfl)
      (Nat.zero_le 1) (fun a ha => absurd ha List.not_mem_nil) (fun a ha => ?_)
      (List.pairwise_singleton ..), trivial⟩
  · obtain rfl := List.mem_singleton.mp ha
    exact ⟨spelled_wellFormed ⟨.inl rfl, ncName 120 (str "mlns") rfl rfl⟩ rfl (.inl rfl)
      fun p hp => (raw_wellFormed hwritten p hp).1, rfl⟩
  · obtain rfl := List.mem_singleton.mp ha
    exact ⟨success_wellFormed rfl (.inl rfl), rfl⟩

/-- A character reference is decoded below 128 only. White space before an equals sign, an angle bracket in
a value, a line break in one, white space at the end of an end tag, and an angle bracket in a
CDATA section mislead the scanner. -/
theorem replies_misread :
    Misread utf8 (reply (str "e") 34 [code [.decimal (str "233")]]) ∧
    Misread clientReference (reply (str "e") 34 [success [32] 34]) ∧
    Misread clientReference (reply (str "e") 34 [code [.raw 97, .raw 62, .raw 98]]) ∧
    Misread clientReference (reply (str "e") 34 [code [.raw 97, .raw 10, .raw 98]]) ∧
    Misread clientReference unclosed ∧ Misread clientReference quoted := by
  have hcode : ∀ {value : List Piece}, (∀ p ∈ value, p.WellFormed 34) → (code value).WellFormed :=
    spelled_wellFormed wellFormed_code rfl (.inl rfl)
  have hquoted : ¬ascii "]]>" <:+: 62 :: (reply (str "e") 34 [success [] 34]).write := by
    decide +kernel
  refine ⟨misread_of_single (hcode ?_) rfl (by decide +kernel),
    misread_of_single (success_wellFormed rfl (.inl rfl)) rfl (by decide +kernel),
    misread_of_single (hcode ?_) rfl (by decide +kernel),
    misread_of_single (hcode ?_) rfl (by decide +kernel),
    ⟨unclosed_wellFormed, by decide +kernel⟩,
    ⟨wrapped_wellFormed ⟨hquoted, trivial⟩, by decide +kernel⟩⟩
  · intro p hp
    obtain rfl := List.mem_singleton.mp hp
    have hnumber : number 10 (str "233") = 233 := rfl
    refine ⟨List.cons_ne_nil _ _,
      List.all_eq_true.mp (rfl : (str "233").all isDecimalDigit = true), ?_⟩
    rw [hnumber]
    unfold IsCharacter
    omega
  · rintro p (_ | ⟨_, _ | ⟨_, _ | ⟨_, hp⟩⟩⟩)
    · exact ⟨by decide, by decide, by decide⟩
    · exact ⟨by decide, by decide, by decide⟩
    · exact ⟨by decide, by decide, by decide⟩
    · cases hp
  · rintro p (_ | ⟨_, _ | ⟨_, _ | ⟨_, hp⟩⟩⟩)
    · exact ⟨by decide, by decide, by decide⟩
    · exact ⟨by decide, by decide, by decide⟩
    · exact ⟨by decide, by decide, by decide⟩
    · cases hp

end PrinterDriver.Epos.Envelopes
