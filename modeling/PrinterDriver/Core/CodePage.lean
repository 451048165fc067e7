import PrinterDriver.Core.Profile

/-! # Code pages

How the ESC/POS encoder turns UTF-8 into the bytes of a code page. Every read of the text is checked:
`none` would be a read behind its end, which `transliterate_isSome` excludes. -/

namespace PrinterDriver.Core.CodePage

open PrinterDriver.Core.Types PrinterDriver.Core.Profile

def kUnmappedCodepointFallback : UInt8 := 0x3F

/-- IBM/DOS code page 852, the half above US-ASCII, sorted by code point. -/
def kCp852 : List (UInt32 × UInt8) :=
  [(0x00A0, 0xFF), (0x00A4, 0xCF), (0x00A7, 0xF5), (0x00A8, 0xF9), (0x00AB, 0xAE),
   (0x00AC, 0xAA), (0x00AD, 0xF0), (0x00B0, 0xF8), (0x00B4, 0xEF), (0x00B8, 0xF7),
   (0x00BB, 0xAF), (0x00C1, 0xB5), (0x00C2, 0xB6), (0x00C4, 0x8E), (0x00C7, 0x80),
   (0x00C9, 0x90), (0x00CB, 0xD3), (0x00CD, 0xD6), (0x00CE, 0xD7), (0x00D3, 0xE0),
   (0x00D4, 0xE2), (0x00D6, 0x99), (0x00D7, 0x9E), (0x00DA, 0xE9), (0x00DC, 0x9A),
   (0x00DD, 0xED), (0x00DF, 0xE1), (0x00E1, 0xA0), (0x00E2, 0x83), (0x00E4, 0x84),
   (0x00E7, 0x87), (0x00E9, 0x82), (0x00EB, 0x89), (0x00ED, 0xA1), (0x00EE, 0x8C),
   (0x00F3, 0xA2), (0x00F4, 0x93), (0x00F6, 0x94), (0x00F7, 0xF6), (0x00FA, 0xA3),
   (0x00FC, 0x81), (0x00FD, 0xEC), (0x0102, 0xC6), (0x0103, 0xC7), (0x0104, 0xA4),
   (0x0105, 0xA5), (0x0106, 0x8F), (0x0107, 0x86), (0x010C, 0xAC), (0x010D, 0x9F),
   (0x010E, 0xD2), (0x010F, 0xD4), (0x0110, 0xD1), (0x0111, 0xD0), (0x0118, 0xA8),
   (0x0119, 0xA9), (0x011A, 0xB7), (0x011B, 0xD8), (0x0139, 0x91), (0x013A, 0x92),
   (0x013D, 0x95), (0x013E, 0x96), (0x0141, 0x9D), (0x0142, 0x88), (0x0143, 0xE3),
   (0x0144, 0xE4), (0x0147, 0xD5), (0x0148, 0xE5), (0x0150, 0x8A), (0x0151, 0x8B),
   (0x0154, 0xE8), (0x0155, 0xEA), (0x0158, 0xFC), (0x0159, 0xFD), (0x015A, 0x97),
   (0x015B, 0x98), (0x015E, 0xB8), (0x015F, 0xAD), (0x0160, 0xE6), (0x0161, 0xE7),
   (0x0162, 0xDD), (0x0163, 0xEE), (0x0164, 0x9B), (0x0165, 0x9C), (0x016E, 0xDE),
   (0x016F, 0x85), (0x0170, 0xEB), (0x0171, 0xFB), (0x0179, 0x8D), (0x017A, 0xAB),
   (0x017B, 0xBD), (0x017C, 0xBE), (0x017D, 0xA6), (0x017E, 0xA7), (0x02C7, 0xF3),
   (0x02D8, 0xF4), (0x02D9, 0xFA), (0x02DB, 0xF2), (0x02DD, 0xF1), (0x2500, 0xC4),
   (0x2502, 0xB3), (0x250C, 0xDA), (0x2510, 0xBF), (0x2514, 0xC0), (0x2518, 0xD9),
   (0x251C, 0xC3), (0x2524, 0xB4), (0x252C, 0xC2), (0x2534, 0xC1), (0x253C, 0xC5),
   (0x2550, 0xCD), (0x2551, 0xBA), (0x2554, 0xC9), (0x2557, 0xBB), (0x255A, 0xC8),
   (0x255D, 0xBC), (0x2560, 0xCC), (0x2563, 0xB9), (0x2566, 0xCB), (0x2569, 0xCA),
   (0x256C, 0xCE), (0x2580, 0xDF), (0x2584, 0xDC), (0x2588, 0xDB), (0x2591, 0xB0),
   (0x2592, 0xB1), (0x2593, 0xB2), (0x25A0, 0xFE)]

def lookupCp852 (codepoint : UInt32) : Option UInt8 :=
  (kCp852.find? fun entry => entry.1 = codepoint).map Prod.snd

/-! ### UTF-8 -/

/-- How many bytes continue a sequence, and the bits of its first byte. -/
def leadByte (byte : UInt8) : Option (ℕ × UInt32) :=
  if byte &&& 0xE0 = 0xC0 then some (1, (byte &&& 0x1F).toUInt32)
  else if byte &&& 0xF0 = 0xE0 then some (2, (byte &&& 0x0F).toUInt32)
  else if byte &&& 0xF8 = 0xF0 then some (3, (byte &&& 0x07).toUInt32)
  else none

/-- The bytes that continue a sequence; the inner `none` is one that does not. -/
def continuation (input : Bytes) : ℕ → ℕ → UInt32 → Option (Option UInt32)
  | 0, _, codepoint => some (some codepoint)
  | extra + 1, index, codepoint => do
    let byte ← input[index]?
    if byte &&& 0xC0 ≠ 0x80 then return none
    else continuation input extra (index + 1) ((codepoint <<< 6) ||| (byte &&& 0x3F).toUInt32)

def isScalar (extra : ℕ) (codepoint : UInt32) : Bool :=
  let overlong := extra = 1 && codepoint < 0x80 || extra = 2 && codepoint < 0x800 ||
    extra = 3 && codepoint < 0x10000
  let surrogate := 0xD800 ≤ codepoint && codepoint ≤ 0xDFFF
  !(overlong || surrogate || 0x10FFFF < codepoint)

/-- One UTF-8 scalar, and the index behind it. A malformed sequence has no scalar and costs one
byte. -/
def decodeUtf8 (input : Bytes) (index : ℕ) : Option (Option UInt32 × ℕ) := do
  let byte ← input[index]?
  if byte < 0x80 then return (some byte.toUInt32, index + 1)
  else
    match leadByte byte with
    | none => return (none, index + 1)
    | some (extra, bits) =>
      if input.length ≤ index + extra then return (none, index + 1)
      else
        match ← continuation input extra (index + 1) bits with
        | none => return (none, index + 1)
        | some codepoint =>
          if isScalar extra codepoint then return (some codepoint, index + extra + 1)
          else return (none, index + 1)

/-! ### Transliteration -/

/-- The byte that a scalar prints as. -/
def printed (codePage : CodePage) : Option UInt32 → UInt8
  | some codepoint =>
    if codepoint < 0x80 then codepoint.toUInt8
    else if codePage = .pc852 then (lookupCp852 codepoint).getD kUnmappedCodepointFallback
    else kUnmappedCodepointFallback
  | none => kUnmappedCodepointFallback

/-- From an index on; the fuel is the number of bytes left. -/
def transliterateFrom (utf8 : Bytes) (codePage : CodePage) : ℕ → ℕ → Option Bytes
  | 0, _ => some []
  | fuel + 1, index =>
    if index < utf8.length then do
      let (codepoint, behind) ← decodeUtf8 utf8 index
      let rest ← transliterateFrom utf8 codePage fuel behind
      return printed codePage codepoint :: rest
    else some []

def transliterate (utf8 : Bytes) (codePage : CodePage) : Option Bytes :=
  transliterateFrom utf8 codePage utf8.length 0

/-! ### Reads stay inside the text -/

theorem continuation_isSome {input : Bytes} : ∀ {extra index : ℕ} {codepoint : UInt32},
    index + extra ≤ input.length → (continuation input extra index codepoint).isSome = true
  | 0, _, _, _ => rfl
  | extra + 1, index, codepoint, h => by
    have hread : input[index]? = some input[index] := List.getElem?_eq_getElem (by omega)
    unfold continuation
    rw [hread, Option.bind_eq_bind, Option.bind_some]
    split_ifs
    · rfl
    · exact continuation_isSome (by omega)

theorem decodeUtf8_eq_some {input : Bytes} {index : ℕ} (h : index < input.length) :
    ∃ codepoint behind, decodeUtf8 input index = some (codepoint, behind) ∧ index < behind := by
  have hread : input[index]? = some input[index] := List.getElem?_eq_getElem h
  unfold decodeUtf8
  rw [hread, Option.bind_eq_bind, Option.bind_some]
  split_ifs
  · exact ⟨_, _, rfl, Nat.lt_succ_self index⟩
  split
  · exact ⟨_, _, rfl, Nat.lt_succ_self index⟩
  next extra bits _ =>
    split_ifs with hshort
    · exact ⟨_, _, rfl, Nat.lt_succ_self index⟩
    have hcont : (continuation input extra (index + 1) bits).isSome = true :=
      continuation_isSome (by omega)
    obtain ⟨r, hr⟩ := Option.isSome_iff_exists.mp hcont
    rw [hr, Option.bind_eq_bind, Option.bind_some]
    cases r with
    | none => exact ⟨_, _, rfl, Nat.lt_succ_self index⟩
    | some codepoint =>
      dsimp only
      split_ifs
      · exact ⟨_, _, rfl, by omega⟩
      · exact ⟨_, _, rfl, Nat.lt_succ_self index⟩

theorem transliterateFrom_isSome {utf8 : Bytes} {codePage : CodePage} :
    ∀ {fuel index : ℕ}, (transliterateFrom utf8 codePage fuel index).isSome = true
  | 0, _ => rfl
  | fuel + 1, index => by
    unfold transliterateFrom
    split_ifs with h
    · obtain ⟨codepoint, behind, hd, _⟩ := decodeUtf8_eq_some h
      have hbehind : (transliterateFrom utf8 codePage fuel behind).isSome = true :=
        transliterateFrom_isSome
      obtain ⟨rest, hrest⟩ := Option.isSome_iff_exists.mp hbehind
      simp [hd, hrest]
    · rfl

/-- More fuel than there are bytes left changes nothing. -/
theorem transliterateFrom_fuel {utf8 : Bytes} {codePage : CodePage} : ∀ {fuel index : ℕ},
    utf8.length ≤ index + fuel →
      transliterateFrom utf8 codePage (fuel + 1) index = transliterateFrom utf8 codePage fuel index
  | 0, index, h => by
    unfold transliterateFrom
    rw [if_neg (by omega)]
  | fuel + 1, index, h => by
    rw [transliterateFrom, transliterateFrom]
    split_ifs with hlt
    · obtain ⟨codepoint, behind, hd, hbehind⟩ := decodeUtf8_eq_some hlt
      simp only [hd, Option.bind_eq_bind, Option.bind_some]
      rw [transliterateFrom_fuel (by omega)]
    · rfl

/-- Every text is transliterated. -/
theorem transliterate_isSome (utf8 : Bytes) (codePage : CodePage) :
    (transliterate utf8 codePage).isSome = true :=
  transliterateFrom_isSome

example : transliterate [0x61, 0xC5, 0x99, 0xC5] .pc852 = some [0x61, 0xFD, 0x3F] := by decide

end PrinterDriver.Core.CodePage
