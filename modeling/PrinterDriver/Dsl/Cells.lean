import PrinterDriver.Core.CodePage
import PrinterDriver.Dsl.Text

/-! # Characters and bytes

The layout reads a text by one UTF-8 decoder and the encoder by another. The two agree: a line is
printed in one byte for each of the code points that the layout sees in it
(`length_of_transliterate`). -/

namespace PrinterDriver.Dsl.Cells

open PrinterDriver.Core.Types PrinterDriver.Core.Profile PrinterDriver.Dsl.Text
open PrinterDriver.Core.CodePage (transliterate transliterateFrom decodeUtf8 continuation)

/-! ### One sequence -/

theorem forall_byte {p : UInt8 → Prop} (h : ∀ n : Fin 256, p (UInt8.ofNat n)) (b : UInt8) : p b := by
  have := h ⟨b.toNat, b.toNat_lt⟩
  rwa [UInt8.ofNat_toNat] at this

theorem leadByte_agrees : ∀ b : UInt8, ¬b < 0x80 →
    (Core.CodePage.leadByte b).map (fun r => (r.1 + 1, r.2.toNat)) = leadByte b.toNat :=
  forall_byte (by decide +kernel)

theorem leadByte_bounds : ∀ b : UInt8, ∀ r ∈ Core.CodePage.leadByte b,
    r.1 ≤ 3 ∧ (r.2.toNat + 1) * 64 ^ r.1 ≤ 2 ^ 32 :=
  forall_byte (by decide +kernel)

theorem isTail_agrees : ∀ b : UInt8, b &&& 0xC0 ≠ 0x80 ↔ ¬b.toNat / 64 = 2 :=
  forall_byte (by decide +kernel)

theorem toNat_tail : ∀ b : UInt8, (b &&& 0x3F).toUInt32.toNat = b.toNat % 64 :=
  forall_byte (by decide +kernel)

/-- Six more bits of a code point. -/
theorem toNat_shifted {codepoint : UInt32} {b : UInt8} (h : codepoint.toNat < 2 ^ 26) :
    ((codepoint <<< 6) ||| (b &&& 0x3F).toUInt32).toNat = codepoint.toNat * 64 + b.toNat % 64 := by
  have hshift : (codepoint <<< 6).toNat = codepoint.toNat <<< 6 := by
    rw [UInt32.toNat_shiftLeft]
    refine Nat.mod_eq_of_lt ?_
    rw [Nat.shiftLeft_eq]
    exact Nat.lt_of_lt_of_le (Nat.mul_lt_mul_of_pos_right h (by decide)) (by decide)
  rw [UInt32.toNat_or, hshift, toNat_tail,
    ← Nat.shiftLeft_add_eq_or_of_lt (Nat.mod_lt b.toNat (by decide)), Nat.shiftLeft_eq]

theorem continuation_agrees {input : Bytes} : ∀ {n index : ℕ} {codepoint : UInt32},
    index + n ≤ input.length → (codepoint.toNat + 1) * 64 ^ n ≤ 2 ^ 32 →
    (continuation input n index codepoint).map (Option.map UInt32.toNat) =
      some (continuations n (input.drop index) codepoint.toNat)
  | 0, _, _, _, _ => rfl
  | n + 1, index, codepoint, hlen, hbound => by
    have hindex : index < input.length := by omega
    have hread : input[index]? = some input[index] := List.getElem?_eq_getElem hindex
    have hpow : (codepoint.toNat + 1) * 64 ≤ 2 ^ 32 := by
      have hone : 1 ≤ 64 ^ n := Nat.one_le_pow n 64 (by decide)
      rw [Nat.pow_succ, Nat.mul_comm (64 ^ n), ← Nat.mul_assoc] at hbound
      exact Nat.le_trans (Nat.le_mul_of_pos_right _ hone) hbound
    have hshift := @toNat_shifted codepoint input[index] (by omega)
    rw [List.drop_eq_getElem_cons hindex, continuations, continuation, hread, Option.bind_eq_bind,
      Option.bind_some]
    by_cases htail : input[index].toNat / 64 = 2
    · rw [if_neg (fun h => (isTail_agrees _).mp h htail), if_pos htail]
      refine (continuation_agrees (by omega) ?_).trans (by rw [hshift])
      rw [hshift]
      calc (codepoint.toNat * 64 + input[index].toNat % 64 + 1) * 64 ^ n
          ≤ ((codepoint.toNat + 1) * 64) * 64 ^ n := Nat.mul_le_mul_right _ (by omega)
        _ = (codepoint.toNat + 1) * 64 ^ (n + 1) := by rw [Nat.pow_succ, Nat.mul_assoc, Nat.mul_comm 64]
        _ ≤ 2 ^ 32 := hbound
    · rw [if_pos ((isTail_agrees _).mpr htail), if_neg htail]
      rfl

theorem isScalar_agrees (extra : ℕ) (codepoint : UInt32) :
    Core.CodePage.isScalar extra codepoint = isWellFormed (extra + 1) codepoint.toNat := by
  unfold Core.CodePage.isScalar isWellFormed isScalar
  simp only [UInt32.lt_iff_toNat_lt, UInt32.le_iff_toNat_le]
  rw [Bool.eq_iff_iff]
  simp
  omega

/-- Both decoders read the same and go on behind the same byte. -/
theorem decodeUtf8_agrees {input : Bytes} {index behind : ℕ} {r : Option UInt32} {b : UInt8}
    {rest : Bytes} (hdrop : input.drop index = b :: rest)
    (h : decodeUtf8 input index = some (r, behind)) :
    r.map UInt32.toNat = (decodeOne b rest).map Prod.fst ∧
      behind = index + ((decodeOne b rest).map Prod.snd).getD 1 := by
  have hindex : index < input.length := by
    have := congrArg List.length hdrop
    rw [List.length_drop, List.length_cons] at this
    omega
  have hcons := List.drop_eq_getElem_cons hindex
  rw [hdrop] at hcons
  obtain ⟨hb, hrest⟩ := List.cons.inj hcons
  have hread : input[index]? = some b := hb ▸ List.getElem?_eq_getElem hindex
  unfold decodeUtf8 at h
  rw [hread, Option.bind_eq_bind, Option.bind_some] at h
  by_cases hascii : b < 0x80
  · rw [if_pos hascii] at h
    cases h
    have hnat : b.toNat < 0x80 := UInt8.lt_iff_toNat_lt.mp hascii
    have hone : decodeOne b rest = some (b.toNat, 1) := by
      refine decodeOne_eq (if_pos hnat) rfl ?_
      have hscalar : isScalar b.toNat = true := isScalar_iff.mpr (.inl (by omega))
      simp [isWellFormed, hscalar]
    rw [hone]
    exact ⟨rfl, rfl⟩
  rw [if_neg hascii] at h
  have hlead := leadByte_agrees b hascii
  unfold decodeOne
  rw [← hlead]
  cases hb' : Core.CodePage.leadByte b with
  | none =>
    rw [hb'] at h
    cases h
    exact ⟨rfl, rfl⟩
  | some r =>
    obtain ⟨extra, bits⟩ := r
    rw [hb'] at h
    dsimp only at h
    rw [Option.map_some, Option.bind_eq_bind, Option.bind_some]
    dsimp only
    rw [Nat.add_sub_cancel, hrest]
    by_cases hshort : input.length ≤ index + extra
    · -- a sequence that the text cuts short
      rw [if_pos hshort] at h
      cases h
      have hnone : continuations extra (input.drop (index + 1)) bits.toNat = none := by
        by_contra hne
        obtain ⟨c, hc⟩ := Option.ne_none_iff_exists'.mp hne
        have := le_of_continuations hc
        rw [List.length_drop] at this
        omega
      rw [hnone]
      exact ⟨rfl, rfl⟩
    · rw [if_neg hshort] at h
      have hagree := continuation_agrees (show index + 1 + extra ≤ input.length by omega)
        (leadByte_bounds b (extra, bits) hb').2
      obtain ⟨tail, htail, h⟩ := Option.bind_eq_some_iff.mp h
      rw [htail, Option.map_some] at hagree
      rw [← Option.some.inj hagree]
      cases tail with
      | none =>
        cases h
        exact ⟨rfl, rfl⟩
      | some codepoint =>
        dsimp only at h
        rw [Option.map_some, Option.bind_eq_bind, Option.bind_some, ← isScalar_agrees]
        split_ifs at h ⊢
        · cases h
          exact ⟨rfl, rfl⟩
        · cases h
          exact ⟨rfl, rfl⟩

/-! ### Whole texts -/

theorem decodeFrom_cons_tail {b : UInt8} {rest : Bytes} :
    ∃ c, decodeFrom 0 (b :: rest) =
      c :: decodeFrom (((decodeOne b rest).map Prod.snd).getD 1 - 1) rest := by
  rw [decodeFrom]
  cases decodeOne b rest with
  | none => exact ⟨kReplacement, rfl⟩
  | some r => exact ⟨r.1, rfl⟩

theorem length_transliterateFrom {utf8 : Bytes} {codePage : CodePage} : ∀ {fuel index : ℕ}
    {bytes : Bytes}, utf8.length ≤ index + fuel →
    transliterateFrom utf8 codePage fuel index = some bytes →
    bytes.length = (decodeFrom 0 (utf8.drop index)).length
  | 0, index, bytes, hfuel, h => by
    cases h
    have hle : utf8.length ≤ index := hfuel
    rw [List.drop_eq_nil_of_le hle]
    rfl
  | fuel + 1, index, bytes, hfuel, h => by
    rw [transliterateFrom] at h
    by_cases hindex : index < utf8.length
    · rw [if_pos hindex] at h
      obtain ⟨⟨r, behind⟩, hone, h⟩ := Option.bind_eq_some_iff.mp h
      obtain ⟨more, hmore, h⟩ := Option.bind_eq_some_iff.mp h
      cases h
      have hdrop := List.drop_eq_getElem_cons hindex
      obtain ⟨-, hbehind⟩ := decodeUtf8_agrees hdrop hone
      obtain ⟨c, hc⟩ := @decodeFrom_cons_tail utf8[index] (utf8.drop (index + 1))
      have hpos : 1 ≤ ((decodeOne utf8[index] (utf8.drop (index + 1))).map Prod.snd).getD 1 := by
        cases h1 : decodeOne utf8[index] (utf8.drop (index + 1)) with
        | none => exact Nat.le_refl 1
        | some r => exact (decodeOne_spec h1).2
      have hnext : index + 1 + (((decodeOne utf8[index] (utf8.drop (index + 1))).map Prod.snd).getD 1 -
          1) = behind := by
        omega
      rw [hdrop, hc, decodeFrom_drop, List.drop_drop, hnext, List.length_cons, List.length_cons,
        length_transliterateFrom (by omega) hmore]
    · rw [if_neg hindex] at h
      cases h
      rw [List.drop_eq_nil_of_le (Nat.le_of_not_lt hindex)]
      rfl

/-- **A text is printed in one byte for each code point that the layout sees in it.** -/
theorem length_of_transliterate {utf8 bytes : Bytes} {codePage : CodePage}
    (h : transliterate utf8 codePage = some bytes) : bytes.length = (decode utf8).length := by
  have := length_transliterateFrom (by omega) h
  rwa [List.drop_zero] at this

/-! ### Texts that are joined and cut -/

/-- The first bytes can only continue a sequence. -/
def Tails (n : ℕ) (utf8 : Bytes) : Prop :=
  n ≤ utf8.length ∧ ∀ b ∈ utf8.take n, b.toNat / 64 = 2

theorem tails_of_continuations : ∀ {n : ℕ} {rest : Bytes} {codepoint c : ℕ},
    continuations n rest codepoint = some c → Tails n rest
  | 0, _, _, _, _ => ⟨Nat.zero_le _, by simp⟩
  | _ + 1, [], _, _, h => by cases h
  | n + 1, b :: rest, _, _, h => by
    rw [continuations] at h
    split_ifs at h with hb
    obtain ⟨hlen, hall⟩ := tails_of_continuations h
    refine ⟨Nat.succ_le_succ hlen, ?_⟩
    rw [List.take_succ_cons, List.forall_mem_cons]
    exact ⟨hb, hall⟩

theorem tails_of_decodeOne {b : UInt8} {rest : Bytes} {c length : ℕ}
    (h : decodeOne b rest = some (c, length)) : Tails (length - 1) rest := by
  unfold decodeOne at h
  obtain ⟨⟨n, bits⟩, hlead, h⟩ := Option.bind_eq_some_iff.mp h
  obtain ⟨c', hc, h⟩ := Option.bind_eq_some_iff.mp h
  split_ifs at h
  cases h
  exact tails_of_continuations hc

theorem Tails.tail {n : ℕ} {b : UInt8} {rest : Bytes} (h : Tails (n + 1) (b :: rest)) :
    b.toNat / 64 = 2 ∧ Tails n rest := by
  obtain ⟨hlen, hall⟩ := h
  rw [List.take_succ_cons, List.forall_mem_cons] at hall
  exact ⟨hall.1, Nat.le_of_succ_le_succ hlen, hall.2⟩

/-- A byte that continues no sequence reads as U+FFFD. -/
theorem decodeFrom_tail {b : UInt8} {rest : Bytes} (hb : b.toNat / 64 = 2) :
    decodeFrom 0 (b :: rest) = kReplacement :: decodeFrom 0 rest := by
  have hlead : leadByte b.toNat = none := by
    unfold leadByte
    split_ifs <;> first | rfl | omega
  have hone : decodeOne b rest = none := by
    unfold decodeOne
    rw [hlead]
    rfl
  rw [decodeFrom, hone]

/-- What is read behind a cut is read without it, or is U+FFFD. -/
theorem mem_decodeFrom_drop {c : ℕ} : ∀ {utf8 : Bytes} {n k : ℕ}, Tails n utf8 →
    c ∈ decodeFrom 0 (utf8.drop k) → c ∈ decodeFrom n utf8 ∨ c = kReplacement
  | [], _, k, _, h => by
    rw [List.drop_nil] at h
    cases h
  | b :: rest, 0, 0, _, h => .inl h
  | b :: rest, n + 1, 0, htails, h => by
    obtain ⟨hb, htails⟩ := htails.tail
    rw [List.drop_zero, decodeFrom_tail hb] at h
    rcases List.mem_cons.mp h with rfl | h
    · exact .inr rfl
    · exact @mem_decodeFrom_drop c rest n 0 htails h
  | b :: rest, n + 1, k + 1, htails, h => @mem_decodeFrom_drop c rest n k htails.tail.2 h
  | b :: rest, 0, k + 1, _, h => by
    rw [List.drop_succ_cons] at h
    rw [decodeFrom]
    cases hone : decodeOne b rest with
    | none =>
      have hmem := @mem_decodeFrom_drop c rest 0 k ⟨Nat.zero_le _, by simp⟩ h
      exact hmem.imp_left (List.mem_cons_of_mem _)
    | some r =>
      have hmem := @mem_decodeFrom_drop c rest (r.2 - 1) k (tails_of_decodeOne hone) h
      exact hmem.imp_left (List.mem_cons_of_mem _)

theorem mem_decode_drop {c k : ℕ} {utf8 : Bytes} (h : c ∈ decode (utf8.drop k)) :
    c ∈ decode utf8 ∨ c = kReplacement :=
  mem_decodeFrom_drop ⟨Nat.zero_le _, by simp⟩ h

theorem length_decodeFrom_tails : ∀ {n : ℕ} {utf8 : Bytes}, Tails n utf8 →
    (decodeFrom 0 utf8).length = n + (decodeFrom n utf8).length
  | 0, _, _ => (Nat.zero_add _).symm
  | _ + 1, [], h => absurd h.1 (Nat.not_succ_le_zero _)
  | n + 1, b :: rest, h => by
    obtain ⟨hb, htails⟩ := h.tail
    rw [decodeFrom_tail hb, List.length_cons, length_decodeFrom_tails htails, decodeFrom]
    omega

/-- A sequence that a text ends in the middle of is continued by what follows. -/
theorem continuations_join : ∀ {n : ℕ} {x y : Bytes} {codepoint c : ℕ},
    continuations n (x ++ y) codepoint = some c → x.length < n →
    Tails x.length x ∧ Tails (n - x.length) y
  | 0, _, _, _, _, _, hlen => absurd hlen (Nat.not_lt_zero _)
  | n + 1, [], _, _, _, h, _ => ⟨⟨Nat.zero_le _, by simp⟩, tails_of_continuations h⟩
  | n + 1, b :: x, y, codepoint, c, h, hlen => by
    rw [List.cons_append, continuations] at h
    split_ifs at h with hb
    obtain ⟨⟨hx, hall⟩, hy⟩ := continuations_join h (Nat.lt_of_succ_lt_succ hlen)
    refine ⟨⟨Nat.le_refl _, ?_⟩, ?_⟩
    · rw [List.length_cons, List.take_succ_cons, List.forall_mem_cons]
      exact ⟨hb, hall⟩
    · rw [List.length_cons, Nat.succ_sub_succ]
      exact hy

theorem continuations_within : ∀ {n : ℕ} {x y : Bytes} {codepoint : ℕ}, n ≤ x.length →
    continuations n (x ++ y) codepoint = continuations n x codepoint
  | 0, _, _, _, _ => rfl
  | _ + 1, [], _, _, h => absurd h (Nat.not_succ_le_zero _)
  | n + 1, b :: x, y, codepoint, h => by
    rw [List.cons_append, continuations, continuations,
      continuations_within (Nat.le_of_succ_le_succ h)]

/-- Either the first text is read as it is, or a sequence is read across the seam. -/
theorem decodeOne_join (b : UInt8) (x y : Bytes) : decodeOne b (x ++ y) = decodeOne b x ∨
    decodeOne b x = none ∧ ∃ c length, decodeOne b (x ++ y) = some (c, length) ∧
      Tails x.length x ∧ x.length < length - 1 ∧ Tails (length - 1 - x.length) y := by
  cases hlead : leadByte b.toNat with
  | none =>
    have hone : ∀ s, decodeOne b s = none := by
      intro s
      unfold decodeOne
      rw [hlead]
      rfl
    rw [hone, hone]
    exact .inl rfl
  | some r =>
    obtain ⟨n, bits⟩ := r
    have hone : ∀ s, decodeOne b s = (continuations (n - 1) s bits).bind fun c =>
        if isWellFormed n c then some (c, n) else none := by
      intro s
      unfold decodeOne
      rw [hlead]
      rfl
    by_cases hwithin : n - 1 ≤ x.length
    · left
      rw [hone, hone, continuations_within hwithin]
    have hnone : continuations (n - 1) x bits = none := by
      by_contra hne
      obtain ⟨c, hc⟩ := Option.ne_none_iff_exists'.mp hne
      exact hwithin (le_of_continuations hc)
    have hfirst : decodeOne b x = none := by
      rw [hone, hnone]
      rfl
    cases hjoin : decodeOne b (x ++ y) with
    | none => exact .inl hfirst.symm
    | some r =>
      rw [hone] at hjoin
      obtain ⟨c, hc, hwell⟩ := Option.bind_eq_some_iff.mp hjoin
      split_ifs at hwell
      cases hwell
      obtain ⟨hx, hy⟩ := continuations_join hc (Nat.lt_of_not_le hwithin)
      exact .inr ⟨hfirst, c, n, rfl, hx, Nat.lt_of_not_le hwithin, hy⟩

theorem length_decodeFrom_append (y : Bytes) : ∀ {x : Bytes} {n : ℕ}, n ≤ x.length →
    (decodeFrom n (x ++ y)).length ≤ (decodeFrom n x).length + (decodeFrom 0 y).length
  | [], n, hn => by
    obtain rfl : n = 0 := Nat.le_zero.mp hn
    exact Nat.le_add_left _ _
  | b :: x, n + 1, hn => by
    rw [List.cons_append, decodeFrom, decodeFrom]
    exact length_decodeFrom_append y (Nat.le_of_succ_le_succ hn)
  | b :: x, 0, _ => by
    rw [List.cons_append, decodeFrom, decodeFrom]
    rcases decodeOne_join b x y with hsame | ⟨hnone, c, length, hjoin, hx, hlong, hy⟩
    · rw [hsame]
      cases hone : decodeOne b x with
      | none =>
        have ih := @length_decodeFrom_append y x 0 (Nat.zero_le _)
        rw [List.length_cons, List.length_cons]
        omega
      | some r =>
        have ih := @length_decodeFrom_append y x (r.2 - 1) (le_of_decodeOne hone)
        dsimp only
        rw [List.length_cons, List.length_cons]
        omega
    · -- the sequence stands for every byte of the first text and some of the second
      have hfirst := length_decodeFrom_tails hx
      have hsecond := length_decodeFrom_tails hy
      have hskip : decodeFrom (length - 1) (x ++ y) = decodeFrom (length - 1 - x.length) y := by
        have hsplit : length - 1 = x.length + (length - 1 - x.length) := by omega
        rw [decodeFrom_drop, hsplit, List.drop_length_add_append, ← decodeFrom_drop,
          Nat.add_sub_cancel_left]
      rw [hjoin, hnone]
      dsimp only
      rw [hskip, List.length_cons, List.length_cons]
      omega

/-- Joining two texts makes no code points. -/
theorem length_decode_append (x y : Bytes) :
    (decode (x ++ y)).length ≤ (decode x).length + (decode y).length :=
  length_decodeFrom_append y (Nat.zero_le _)

end PrinterDriver.Dsl.Cells
