import Mathlib.Data.Nat.Digits.Lemmas
import PrinterDriver.Core.Types

/-! # Base64

How a document writes the bytes of pictures and of raw blocks, and reads them. The reader skips blanks and
padding wherever they stand, and drops the bits behind the last whole byte. -/

namespace PrinterDriver.Dsl.Base64

open PrinterDriver.Core.Types

def kBase64Alphabet : Bytes :=
  str "ABCDEFGHIJKLMNOPQRSTUVWXYZabcdefghijklmnopqrstuvwxyz0123456789+/"

/-- The letter of the six bits at a place of a triple. -/
def letter (triple place : ℕ) : UInt8 := kBase64Alphabet.getD (triple >>> place &&& 0x3F) 0

def base64Encode : Bytes → Bytes
  | a :: b :: c :: rest =>
    let triple := a.toNat <<< 16 ||| b.toNat <<< 8 ||| c.toNat
    [letter triple 18, letter triple 12, letter triple 6, letter triple 0] ++ base64Encode rest
  | [a, b] =>
    let triple := a.toNat <<< 16 ||| b.toNat <<< 8
    [letter triple 18, letter triple 12, letter triple 6, 61]
  | [a] =>
    let triple := a.toNat <<< 16
    [letter triple 18, letter triple 12, 61, 61]
  | [] => []

def base64Value (c : UInt8) : Option ℕ :=
  if 65 ≤ c ∧ c ≤ 90 then some (c.toNat - 65)
  else if 97 ≤ c ∧ c ≤ 122 then some (c.toNat - 97 + 26)
  else if 48 ≤ c ∧ c ≤ 57 then some (c.toNat - 48 + 52)
  else if c = 43 then some 62
  else if c = 47 then some 63
  else none

/-- Padding and blanks. -/
def isSkipped (c : UInt8) : Bool := c == 61 || c == 10 || c == 13 || c == 32 || c == 9

/-- The loop, with its buffer of 32 bits and the number of bits in it that are not written yet. -/
def decodeFrom : ℕ → ℕ → Bytes → Option Bytes
  | _, _, [] => some []
  | buffer, bits, c :: text =>
    if isSkipped c then decodeFrom buffer bits text
    else
      match base64Value c with
      | none => none
      | some value =>
        let buffer := (buffer <<< 6 ||| value) % 2 ^ 32
        let bits := bits + 6
        if 8 ≤ bits then
          (decodeFrom buffer (bits - 8) text).map
            (UInt8.ofNat (buffer >>> (bits - 8) &&& 0xFF) :: ·)
        else decodeFrom buffer bits text

def base64Decode (text : Bytes) : Option Bytes := decodeFrom 0 0 text

/-! ### Numbers -/

/-- The number that digits write, the most significant one first. -/
def number (base : ℕ) (digits : List ℕ) : ℕ := Nat.ofDigits base digits.reverse

@[simp] theorem number_nil (base : ℕ) : number base [] = 0 := rfl

theorem number_cons (base d : ℕ) (digits : List ℕ) :
    number base (d :: digits) = d * base ^ digits.length + number base digits := by
  unfold number
  rw [List.reverse_cons, Nat.ofDigits_append, Nat.ofDigits_singleton, List.length_reverse,
    Nat.mul_comm, Nat.add_comm]

theorem number_inj {base : ℕ} (hbase : 1 < base) {ds es : List ℕ} (hlength : ds.length = es.length)
    (hds : ∀ d ∈ ds, d < base) (hes : ∀ e ∈ es, e < base) (h : number base ds = number base es) :
    ds = es := by
  have hreverse : ds.reverse = es.reverse := by
    refine Nat.ofDigits_inj_of_len_eq hbase ?_ ?_ ?_ h
    · rw [List.length_reverse, List.length_reverse, hlength]
    · intro d hd
      exact hds d (List.mem_reverse.mp hd)
    · intro e he
      exact hes e (List.mem_reverse.mp he)
  exact List.reverse_injective hreverse

/-- The bytes that stand in front of a number whose last `8 * l + t` bits are `m`. -/
theorem div_split (x m l t : ℕ) :
    (x * 2 ^ (8 * l + t) + m) / 2 ^ t = x * 256 ^ l + m / 2 ^ t := by
  have hpow : x * 2 ^ (8 * l + t) = 2 ^ t * (x * 256 ^ l) := by
    rw [Nat.pow_add, Nat.pow_mul]
    ring
  rw [hpow, Nat.mul_add_div (Nat.two_pow_pos t)]

/-! ### What is read -/

/-- The six bits of each letter that counts. -/
def sextets (text : Bytes) : Option (List ℕ) :=
  (text.filter fun c => !isSkipped c).mapM base64Value

/-- The bytes that digits of six bits spell: as many as there are whole ones, the first bits of the
number. -/
structure Spells (digits : List ℕ) (bytes : Bytes) : Prop where
  length : bytes.length = 6 * digits.length / 8
  value : number 256 (bytes.map UInt8.toNat) =
    number 64 digits / 2 ^ (6 * digits.length % 8)

theorem base64Value_lt {c : UInt8} {value : ℕ} (h : base64Value c = some value) : value < 64 := by
  have hbound : ∀ a b : UInt8, a ≤ b ↔ a.toNat ≤ b.toNat := fun a b => UInt8.le_iff_toNat_le
  unfold base64Value at h
  simp only [hbound, UInt8.reduceToNat] at h
  split_ifs at h with h1 h2 h3 h4 h5 <;> · have := Option.some.inj h; omega

theorem sextets_skipped {c : UInt8} {text : Bytes} (h : isSkipped c = true) :
    sextets (c :: text) = sextets text := by
  unfold sextets
  rw [List.filter_cons, if_neg (by rw [h]; decide)]

theorem sextets_cons {c : UInt8} {text : Bytes} (h : isSkipped c = false) :
    sextets (c :: text) =
      (base64Value c).bind fun value => (sextets text).map (value :: ·) := by
  unfold sextets
  rw [List.filter_cons, if_pos (by rw [h]; decide), List.mapM_cons]
  cases base64Value c with
  | none => rfl
  | some value => cases List.mapM base64Value (text.filter fun c => !isSkipped c) <;> rfl

/-- Six bits are pushed into the buffer. -/
theorem pushed {buffer value bits : ℕ} (hvalue : value < 64) (hbits : bits < 8) :
    (buffer <<< 6 ||| value) % 2 ^ 32 % 2 ^ (bits + 6) = buffer % 2 ^ bits * 64 + value := by
  have hor : buffer <<< 6 ||| value = buffer * 64 + value := by
    rw [← Nat.shiftLeft_add_eq_or_of_lt (by omega : value < 2 ^ 6), Nat.shiftLeft_eq]
  have hdvd : 2 ^ (bits + 6) ∣ 2 ^ 32 := Nat.pow_dvd_pow 2 (by omega)
  have hpow : 2 ^ (bits + 6) = 64 * 2 ^ bits := by rw [Nat.pow_add]; omega
  have hlow : (buffer * 64 + value) % 64 = value := by omega
  have hhigh : (buffer * 64 + value) / 64 = buffer := by omega
  rw [Nat.mod_mod_of_dvd _ hdvd, hor, hpow, Nat.mod_mul, hlow, hhigh]
  omega

/-- The first eight of the bits that are waiting are a byte. -/
theorem written {buffer value bits : ℕ} (hvalue : value < 64) (hbits : bits < 8)
    (hfull : 8 ≤ bits + 6) :
    let pushed := (buffer <<< 6 ||| value) % 2 ^ 32
    let rest := bits + 6 - 8
    buffer % 2 ^ bits * 64 + value =
      (UInt8.ofNat (pushed >>> rest &&& 0xFF)).toNat * 2 ^ rest + pushed % 2 ^ rest := by
  dsimp only
  generalize hp : (buffer <<< 6 ||| value) % 2 ^ 32 = p
  have hsum := @pushed buffer value bits hvalue hbits
  rw [hp] at hsum
  have hpow : 2 ^ (bits + 6) = 2 ^ (bits + 6 - 8) * 256 := by
    rw [show bits + 6 = bits + 6 - 8 + 8 by omega, Nat.pow_add]
    rfl
  have hbyte : (UInt8.ofNat (p >>> (bits + 6 - 8) &&& 0xFF)).toNat =
      p / 2 ^ (bits + 6 - 8) % 256 := by
    rw [UInt8.toNat_ofNat', Nat.shiftRight_eq_div_pow, show 0xFF = 2 ^ 8 - 1 from rfl,
      Nat.and_two_pow_sub_one_eq_mod]
    omega
  rw [← hsum, hpow, Nat.mod_mul, hbyte, Nat.mul_comm (2 ^ (bits + 6 - 8)), Nat.add_comm]

/-- What the loop makes of the bits that are waiting and of what is left of the text. -/
theorem decodeFrom_eq_some {text : Bytes} {digits : List ℕ} (h : sextets text = some digits) :
    ∀ {buffer bits : ℕ}, bits < 8 → ∃ bytes, decodeFrom buffer bits text = some bytes ∧
      bytes.length = (bits + 6 * digits.length) / 8 ∧
      number 256 (bytes.map UInt8.toNat) =
        (buffer % 2 ^ bits * 64 ^ digits.length + number 64 digits) /
          2 ^ ((bits + 6 * digits.length) % 8) := by
  induction text generalizing digits with
  | nil =>
    intro buffer bits hbits
    have hnil : digits = [] := (Option.some.inj h).symm
    subst hnil
    have hmod : buffer % 2 ^ bits < 2 ^ bits := Nat.mod_lt _ (Nat.two_pow_pos _)
    refine ⟨[], rfl, ?_, ?_⟩
    · simp only [List.length_nil]
      omega
    · simp only [List.length_nil, List.map_nil, number_nil, Nat.mul_zero, Nat.add_zero, pow_zero,
        mul_one]
      rw [Nat.mod_eq_of_lt hbits, Nat.div_eq_of_lt hmod]
  | cons c text ih =>
    intro buffer bits hbits
    by_cases hc : isSkipped c = true
    · rw [sextets_skipped hc] at h
      rw [decodeFrom, if_pos hc]
      exact ih h hbits
    · rw [sextets_cons (by simpa using hc)] at h
      obtain ⟨value, hvalue, hrest⟩ := Option.bind_eq_some_iff.mp h
      obtain ⟨rest, hdigits, rfl⟩ := Option.map_eq_some_iff.mp hrest
      have hlt := base64Value_lt hvalue
      have hwhole : buffer % 2 ^ bits * 64 ^ (rest.length + 1) + number 64 (value :: rest) =
          (buffer % 2 ^ bits * 64 + value) * 64 ^ rest.length + number 64 rest := by
        rw [number_cons, pow_succ]
        ring
      rw [decodeFrom, if_neg hc, hvalue]
      dsimp only
      rw [List.length_cons, hwhole]
      by_cases hfull : 8 ≤ bits + 6
      · obtain ⟨bytes, hbytes, hlength, hnumber⟩ :=
          @ih rest hdigits ((buffer <<< 6 ||| value) % 2 ^ 32) (bits + 6 - 8) (by omega)
        rw [if_pos hfull, hbytes]
        refine ⟨_, rfl, ?_, ?_⟩
        · rw [List.length_cons, hlength]
          omega
        · have hsplit := @written buffer value bits hlt hbits hfull
          dsimp only at hsplit
          generalize UInt8.ofNat _ = byte at hsplit ⊢
          generalize (buffer <<< 6 ||| value) % 2 ^ 32 % _ = waiting at hsplit hnumber
          have ht : (bits + 6 * (rest.length + 1)) % 8 =
              (bits + 6 - 8 + 6 * rest.length) % 8 := by omega
          have hexp : bits + 6 - 8 + 6 * rest.length =
              8 * bytes.length + (bits + 6 - 8 + 6 * rest.length) % 8 := by omega
          have hpow : 2 ^ (bits + 6 - 8) * 64 ^ rest.length =
              2 ^ (bits + 6 - 8 + 6 * rest.length) := by
            rw [Nat.pow_add, Nat.pow_mul]
          rw [List.map_cons, number_cons, List.length_map, hnumber, hsplit, ht, Nat.add_mul,
            Nat.add_assoc, mul_assoc, hpow]
          generalize (bits + 6 - 8 + 6 * rest.length) % 8 = t at hexp ⊢
          rw [hexp, div_split]
      · obtain ⟨bytes, hbytes, hlength, hnumber⟩ :=
          @ih rest hdigits ((buffer <<< 6 ||| value) % 2 ^ 32) (bits + 6) (by omega)
        have ht : bits + 6 * (rest.length + 1) = bits + 6 + 6 * rest.length := by omega
        rw [if_neg hfull, ht]
        rw [pushed hlt hbits] at hnumber
        exact ⟨bytes, hbytes, hlength, hnumber⟩

theorem decodeFrom_eq_none {text : Bytes} (h : sextets text = none) :
    ∀ {buffer bits : ℕ}, decodeFrom buffer bits text = none := by
  induction text with
  | nil => cases h
  | cons c text ih =>
    intro buffer bits
    by_cases hc : isSkipped c = true
    · rw [sextets_skipped hc] at h
      rw [decodeFrom, if_pos hc]
      exact ih h
    · rw [sextets_cons (by simpa using hc)] at h
      rw [decodeFrom, if_neg hc]
      cases hvalue : base64Value c with
      | none => rfl
      | some value =>
        rw [hvalue, Option.bind_some, Option.map_eq_none_iff] at h
        dsimp only
        rw [ih h, ih h]
        split_ifs <;> rfl

theorem Spells.unique {digits : List ℕ} {bytes bytes' : Bytes} (h : Spells digits bytes)
    (h' : Spells digits bytes') : bytes = bytes' := by
  have hlt : ∀ bytes : Bytes, ∀ n ∈ bytes.map UInt8.toNat, n < 256 := by
    intro bytes n hn
    obtain ⟨b, -, rfl⟩ := List.mem_map.mp hn
    exact b.toNat_lt
  have hlength : (bytes.map UInt8.toNat).length = (bytes'.map UInt8.toNat).length := by
    rw [List.length_map, List.length_map, h.length, h'.length]
  have hsame := number_inj (by omega) hlength (hlt bytes) (hlt bytes') (h.value.trans h'.value.symm)
  exact List.map_injective_iff.mpr (fun _ _ => UInt8.toNat_inj.mp) hsame

/-- What is read is what the letters spell. -/
theorem base64Decode_eq_some_iff {text bytes : Bytes} : base64Decode text = some bytes ↔
    ∃ digits, sextets text = some digits ∧ Spells digits bytes := by
  unfold base64Decode
  have hread : ∀ {digits}, sextets text = some digits →
      ∃ bytes, decodeFrom 0 0 text = some bytes ∧ Spells digits bytes := by
    intro digits hdigits
    obtain ⟨bytes, hbytes, hlength, hvalue⟩ :=
      @decodeFrom_eq_some _ _ hdigits 0 0 (by omega)
    rw [Nat.zero_mod, Nat.zero_mul, Nat.zero_add, Nat.zero_add] at hvalue
    rw [Nat.zero_add] at hlength
    exact ⟨bytes, hbytes, hlength, hvalue⟩
  constructor
  · intro h
    cases hdigits : sextets text with
    | none =>
      rw [decodeFrom_eq_none hdigits] at h
      cases h
    | some digits =>
      obtain ⟨bytes', hbytes, hspells⟩ := hread hdigits
      obtain rfl := Option.some.inj (h.symm.trans hbytes)
      exact ⟨digits, rfl, hspells⟩
  · rintro ⟨digits, hdigits, hspells⟩
    obtain ⟨bytes', hbytes, hspells'⟩ := hread hdigits
    rw [hbytes, hspells'.unique hspells]

/-! ### Writing -/

theorem base64Value_letter (triple place : ℕ) :
    isSkipped (letter triple place) = false ∧
      base64Value (letter triple place) = some (triple >>> place % 64) := by
  have htable : ∀ n < 64, isSkipped (kBase64Alphabet.getD n 0) = false ∧
      base64Value (kBase64Alphabet.getD n 0) = some n := by decide +kernel
  unfold letter
  rw [show 0x3F = 2 ^ 6 - 1 from rfl, Nat.and_two_pow_sub_one_eq_mod]
  exact htable _ (Nat.mod_lt _ (by omega))

theorem sextets_letter (triple place : ℕ) (text : Bytes) :
    sextets (letter triple place :: text) =
      (sextets text).map (triple >>> place % 64 :: ·) := by
  obtain ⟨hskipped, hvalue⟩ := base64Value_letter triple place
  rw [sextets_cons hskipped, hvalue, Option.bind_some]

theorem joined (a b c : UInt8) : a.toNat <<< 16 ||| b.toNat <<< 8 ||| c.toNat =
    a.toNat * 65536 + b.toNat * 256 + c.toNat := by
  have ha := a.toNat_lt
  have hb := b.toNat_lt
  have hc := c.toNat_lt
  have hlow : b.toNat <<< 8 = b.toNat * 256 := Nat.shiftLeft_eq _ _
  have hhigh : a.toNat <<< 16 ||| b.toNat <<< 8 = (a.toNat * 256 + b.toNat) <<< 8 := by
    rw [← Nat.shiftLeft_add_eq_or_of_lt (by omega : b.toNat <<< 8 < 2 ^ 16), hlow,
      Nat.shiftLeft_eq, Nat.shiftLeft_eq]
    omega
  rw [hhigh, ← Nat.shiftLeft_add_eq_or_of_lt (by omega : c.toNat < 2 ^ 8), Nat.shiftLeft_eq]
  omega

/-- Four letters are three bytes. -/
theorem Spells.triple {digits : List ℕ} {bytes : Bytes} (h : Spells digits bytes) (a b c : UInt8) :
    let triple := a.toNat * 65536 + b.toNat * 256 + c.toNat
    Spells (triple / 262144 % 64 :: triple / 4096 % 64 :: triple / 64 % 64 :: triple % 64 :: digits)
      (a :: b :: c :: bytes) := by
  intro triple
  have ha := a.toNat_lt
  have hb := b.toNat_lt
  have hc := c.toNat_lt
  have hlength := h.length
  refine ⟨?_, ?_⟩
  · simp only [List.length_cons]
    omega
  · simp only [List.map_cons, List.length_cons, List.length_map, number_cons, h.value]
    have ht : 6 * (digits.length + 1 + 1 + 1 + 1) % 8 = 6 * digits.length % 8 := by omega
    have hdigits : triple / 262144 % 64 * 64 ^ (digits.length + 1 + 1 + 1) +
        (triple / 4096 % 64 * 64 ^ (digits.length + 1 + 1) +
          (triple / 64 % 64 * 64 ^ (digits.length + 1) +
            (triple % 64 * 64 ^ digits.length + number 64 digits))) =
        triple * 64 ^ digits.length + number 64 digits := by
      have hsum : triple = triple / 262144 % 64 * 262144 + triple / 4096 % 64 * 4096 +
          triple / 64 % 64 * 64 + triple % 64 := by omega
      conv_rhs => rw [hsum]
      ring
    have hbytes : a.toNat * 256 ^ (bytes.length + 1 + 1) + (b.toNat * 256 ^ (bytes.length + 1) +
        (c.toNat * 256 ^ bytes.length + number 64 digits / 2 ^ (6 * digits.length % 8))) =
        triple * 256 ^ bytes.length + number 64 digits / 2 ^ (6 * digits.length % 8) := by
      unfold triple
      ring
    have hexp : (64 : ℕ) ^ digits.length = 2 ^ (8 * bytes.length + 6 * digits.length % 8) := by
      rw [show 8 * bytes.length + 6 * digits.length % 8 = 6 * digits.length by omega, Nat.pow_mul]
    rw [ht, hdigits, hbytes, hexp, div_split]

/-- What is written spells the bytes. -/
theorem spells_base64Encode (bytes : Bytes) :
    ∃ digits, sextets (base64Encode bytes) = some digits ∧ Spells digits bytes := by
  induction bytes using base64Encode.induct with
  | case1 a b c rest ih =>
    obtain ⟨digits, hdigits, hspells⟩ := ih
    refine ⟨_, ?_, hspells.triple a b c⟩
    rw [base64Encode]
    simp only [List.cons_append, List.nil_append, sextets_letter, hdigits, Option.map_some,
      Nat.shiftRight_eq_div_pow, joined]
    rw [Nat.pow_zero, Nat.div_one]
  | case2 a b =>
    have ha := a.toNat_lt
    have hb := b.toNat_lt
    generalize ht : a.toNat <<< 16 ||| b.toNat <<< 8 = triple
    have htriple : triple = a.toNat * 65536 + b.toNat * 256 + (0 : UInt8).toNat := by
      rw [← joined a b 0, ← ht]
      exact (Nat.or_zero _).symm
    have hzero : (0 : UInt8).toNat = 0 := rfl
    refine ⟨[triple / 262144 % 64, triple / 4096 % 64, triple / 64 % 64], ?_, by simp, ?_⟩
    · rw [base64Encode]
      simp only [sextets_letter, ht]
      rw [sextets_skipped rfl]
      simp only [Nat.shiftRight_eq_div_pow]
      rfl
    · simp only [List.map_cons, List.map_nil, number_cons, number_nil, List.length_cons,
        List.length_nil, Nat.reduceAdd, Nat.reduceMul, Nat.reduceMod, Nat.reducePow, zero_add]
      omega
  | case3 a =>
    have ha := a.toNat_lt
    generalize ht : a.toNat <<< 16 = triple
    have htriple : triple = a.toNat * 65536 := by rw [← ht, Nat.shiftLeft_eq]
    refine ⟨[triple / 262144 % 64, triple / 4096 % 64], ?_, by simp, ?_⟩
    · rw [base64Encode]
      simp only [sextets_letter, ht]
      rw [sextets_skipped rfl, sextets_skipped rfl]
      simp only [Nat.shiftRight_eq_div_pow]
      rfl
    · simp only [List.map_cons, List.map_nil, number_cons, number_nil, List.length_cons,
        List.length_nil, Nat.reduceAdd, Nat.reduceMul, Nat.reduceMod, Nat.reducePow, zero_add]
      omega
  | case4 => exact ⟨[], rfl, rfl, rfl⟩

/-- Every list of bytes is read back from what is written of it. -/
theorem base64Decode_base64Encode (bytes : Bytes) :
    base64Decode (base64Encode bytes) = some bytes :=
  base64Decode_eq_some_iff.mpr (spells_base64Encode bytes)

theorem length_base64Encode (bytes : Bytes) :
    (base64Encode bytes).length = (bytes.length + 2) / 3 * 4 := by
  induction bytes using base64Encode.induct with
  | case1 a b c rest ih =>
    rw [base64Encode]
    simp only [List.length_append, List.length_cons, List.length_nil, ih]
    omega
  | case2 a b =>
    rw [base64Encode]
    simp
  | case3 a =>
    rw [base64Encode]
    simp
  | case4 => rfl

/-- **Base64.** What is read of a text is what its letters spell, wherever blanks and padding stand, and
nothing where it has another letter; every list of bytes reads back from the four letters that are written
for each three of them. -/
theorem base64_texts :
    (∀ text bytes, base64Decode text = some bytes ↔
      ∃ digits, sextets text = some digits ∧ Spells digits bytes) ∧
    ∀ bytes, base64Decode (base64Encode bytes) = some bytes ∧
      (base64Encode bytes).length = (bytes.length + 2) / 3 * 4 :=
  ⟨fun _ _ => base64Decode_eq_some_iff,
    fun bytes => ⟨base64Decode_base64Encode bytes, length_base64Encode bytes⟩⟩

end PrinterDriver.Dsl.Base64
