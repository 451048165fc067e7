import PrinterDriver.Dsl.Documents
import Mathlib.Algebra.BigOperators.Group.List.Basic
import Mathlib.Algebra.Order.BigOperators.Group.List
import Mathlib.Algebra.Order.Group.Nat
import Mathlib.Tactic.SplitIfs
import Mathlib.Algebra.GroupWithZero.Nat

/-! # Text in columns

Text is bytes that are read as UTF-8; what is malformed reads as U+FFFD, byte by byte. A line is laid
out in columns: none for a mark that sits on the cell before it, two for the wide East Asian
characters and one for everything else. -/

namespace PrinterDriver.Dsl.Text

open PrinterDriver.Core.Types PrinterDriver.Dsl.Documents
open PrinterDriver.Dsl.Render (Align)

/-! ### Code points -/

def kReplacement : ℕ := 0xFFFD

/-- A code point that UTF-8 can carry. -/
def isScalar (codepoint : ℕ) : Bool :=
  codepoint < 0xD800 || (0xDFFF < codepoint && codepoint ≤ 0x10FFFF)

/-- The length that a lead byte announces, and its bits of the code point. -/
def leadByte (b : ℕ) : Option (ℕ × ℕ) :=
  if b < 0x80 then some (1, b)
  else if b / 32 = 6 then some (2, b % 32)
  else if b / 16 = 14 then some (3, b % 16)
  else if b / 8 = 30 then some (4, b % 8)
  else none

/-- The continuation bytes that follow, read into the code point. -/
def continuations : ℕ → Bytes → ℕ → Option ℕ
  | 0, _, codepoint => some codepoint
  | _ + 1, [], _ => none
  | n + 1, b :: rest, codepoint =>
    if b.toNat / 64 = 2 then continuations n rest (codepoint * 64 + b.toNat % 64) else none

/-- Overlong encodings and surrogates are malformed. -/
def isWellFormed (length codepoint : ℕ) : Bool :=
  !(length = 2 && codepoint < 0x80) && !(length = 3 && codepoint < 0x800) &&
    !(length = 4 && codepoint < 0x10000) && isScalar codepoint

/-- The code point that a text begins with, and its length. -/
def decodeOne (b : UInt8) (rest : Bytes) : Option (ℕ × ℕ) := do
  let (length, bits) ← leadByte b.toNat
  let codepoint ← continuations (length - 1) rest bits
  if isWellFormed length codepoint then some (codepoint, length) else none

/-- The code points, behind bytes that were read already. -/
def decodeFrom : ℕ → Bytes → List ℕ
  | _, [] => []
  | skip + 1, _ :: rest => decodeFrom skip rest
  | 0, b :: rest =>
    match decodeOne b rest with
    | none => kReplacement :: decodeFrom 0 rest
    | some (codepoint, length) => codepoint :: decodeFrom (length - 1) rest

def decode (utf8 : Bytes) : List ℕ := decodeFrom 0 utf8

def encode (codepoint : ℕ) : Bytes :=
  let codepoint := if isScalar codepoint then codepoint else kReplacement
  if codepoint < 0x80 then [UInt8.ofNat codepoint]
  else if codepoint < 0x800 then
    [UInt8.ofNat (0xC0 + codepoint / 64), UInt8.ofNat (0x80 + codepoint % 64)]
  else if codepoint < 0x10000 then
    [UInt8.ofNat (0xE0 + codepoint / 4096), UInt8.ofNat (0x80 + codepoint / 64 % 64),
      UInt8.ofNat (0x80 + codepoint % 64)]
  else
    [UInt8.ofNat (0xF0 + codepoint / 262144), UInt8.ofNat (0x80 + codepoint / 4096 % 64),
      UInt8.ofNat (0x80 + codepoint / 64 % 64), UInt8.ofNat (0x80 + codepoint % 64)]

def encodeAll (codepoints : List ℕ) : Bytes := codepoints.flatMap encode

/-! ### Columns -/

def inRanges (ranges : List (ℕ × ℕ)) (codepoint : ℕ) : Bool :=
  ranges.any fun r => r.1 ≤ codepoint && codepoint ≤ r.2

/-- Combining marks sit on the previous cell. -/
def combining : List (ℕ × ℕ) :=
  [(0x0300, 0x036F), (0x1AB0, 0x1AFF), (0x20D0, 0x20FF), (0xFE20, 0xFE2F)]

def wide : List (ℕ × ℕ) :=
  [(0x1100, 0x115F), (0x2E80, 0xA4CF), (0xAC00, 0xD7A3), (0xF900, 0xFAFF), (0xFE30, 0xFE6F),
    (0xFF00, 0xFF60), (0xFFE0, 0xFFE6)]

def columnWidth (codepoint : ℕ) : ℕ :=
  if inRanges combining codepoint then 0 else if inRanges wide codepoint then 2 else 1

def pointsWidth (codepoints : List ℕ) : ℕ := (codepoints.map columnWidth).sum

def width (utf8 : Bytes) : ℕ := pointsWidth (decode utf8)

/-- The code points that fit into the columns behind those used. -/
def fitting (columns : ℕ) : ℕ → List ℕ → List ℕ
  | _, [] => []
  | used, codepoint :: rest =>
    if columns < used + columnWidth codepoint then []
    else codepoint :: fitting columns (used + columnWidth codepoint) rest

def clip (utf8 : Bytes) (columns : ℕ) : Bytes :=
  if columns = 0 then [] else encodeAll (fitting columns 0 (decode utf8))

def ellipsize (utf8 : Bytes) (columns : ℕ) : Bytes :=
  if width utf8 ≤ columns then utf8
  else if columns ≤ 3 then clip utf8 columns
  else clip utf8 (columns - 3) ++ str "..."

def spaces (n : ℕ) : Bytes := List.replicate n 0x20

def pad (utf8 : Bytes) (columns : ℕ) (align : Align) : Bytes :=
  if columns = 0 then []
  else
    let clipped := clip utf8 columns
    let slack := columns - width clipped
    if slack = 0 then clipped
    else
      match align with
      | .left => clipped ++ spaces slack
      | .right => spaces slack ++ clipped
      | .center => spaces (slack / 2) ++ clipped ++ spaces (slack - slack / 2)

/-! ### Line breaking -/

/-- Break at the column edge. -/
def charLines (columns : ℕ) : List ℕ → Bytes → ℕ → List Bytes
  | [], current, _ => [current]
  | codepoint :: rest, current, used =>
    if columns < used + columnWidth codepoint ∧ current ≠ [] then
      current :: charLines columns rest (encode codepoint) (columnWidth codepoint)
    else charLines columns rest (current ++ encode codepoint) (used + columnWidth codepoint)

/-- The lines that a token is cut into, and what is left of it; nothing where the token ends before
the head that is cut off. A glyph wider than the line stays. -/
def hardBreak (columns : ℕ) (token : Bytes) : Option (List Bytes × Bytes) :=
  if width token ≤ columns then some ([], token)
  else if clip token columns = [] then some ([], token)
  else if token.length < (clip token columns).length then none
  else
    (hardBreak columns (token.drop (clip token columns).length)).map fun broken =>
      (clip token columns :: broken.1, broken.2)
termination_by token.length
decreasing_by
  have := List.length_pos_of_ne_nil ‹¬ clip token columns = []›
  rw [List.length_drop]
  omega

/-- Fill the lines with tokens, behind the current one. -/
def fillLines (columns : ℕ) : List Bytes → Bytes → ℕ → Option (List Bytes)
  | [], current, _ => some [current]
  | token :: tokens, current, used =>
    if token = [] then fillLines columns tokens current used
    else if columns < width token then
      (hardBreak columns token).bind fun broken =>
        (fillLines columns tokens broken.2 (width broken.2)).map fun lines =>
          (if current = [] then [] else [current]) ++ broken.1 ++ lines
    else if current = [] then fillLines columns tokens token (width token)
    else if used + 1 + width token ≤ columns then
      fillLines columns tokens (current ++ 0x20 :: token) (used + 1 + width token)
    else (fillLines columns tokens token (width token)).map (current :: ·)

/-- The spaces that a paragraph begins with. -/
def indentOf (paragraph : Bytes) : ℕ := (paragraph.takeWhile (· = 0x20)).length

/-- One paragraph; an indent is kept on every line of it. -/
def wrapParagraph (mode : Wrap) (paragraph : Bytes) (columns : ℕ) : Option (List Bytes) :=
  match mode with
  | .clip => some [clip paragraph columns]
  | .ellipsis => some [ellipsize paragraph columns]
  | .char =>
    if paragraph = [] then some [[]] else some (charLines columns (decode paragraph) [] 0)
  | .word =>
    if paragraph = [] then some [[]]
    else if 0 < indentOf paragraph ∧ indentOf paragraph < columns then
      (wrapParagraph .word (paragraph.drop (indentOf paragraph))
        (columns - indentOf paragraph)).map fun lines =>
          lines.map (spaces (indentOf paragraph) ++ ·)
    else fillLines columns (paragraph.splitOn 0x20) [] 0
termination_by paragraph.length
decreasing_by
  have := List.length_pos_of_ne_nil ‹¬ paragraph = []›
  rw [List.length_drop]
  omega

/-- The lines of a text; nothing where a range is left. -/
def wrap (utf8 : Bytes) (columns : ℕ) (mode : Wrap) : Option (List Bytes) :=
  if columns = 0 then some [[]]
  else ((utf8.splitOn 0x0A).mapM fun paragraph => wrapParagraph mode paragraph columns).map
    List.flatten

/-! ### Reading what was written -/

theorem isScalar_iff {c : ℕ} : isScalar c = true ↔ c < 0xD800 ∨ 0xDFFF < c ∧ c ≤ 0x10FFFF := by
  simp [isScalar]

theorem toNat_ofNat {n : ℕ} (h : n < 256) : (UInt8.ofNat n).toNat = n := by
  rw [UInt8.toNat_ofNat', Nat.mod_eq_of_lt (by omega)]

theorem continuations_cons {n m : ℕ} {rest : Bytes} {codepoint : ℕ} (h : m < 64) :
    continuations (n + 1) (UInt8.ofNat (0x80 + m) :: rest) codepoint =
      continuations n rest (codepoint * 64 + m) := by
  have hbyte : (UInt8.ofNat (0x80 + m)).toNat = 0x80 + m := toNat_ofNat (by omega)
  rw [continuations, if_pos (by omega), hbyte]
  congr 1
  omega

theorem decodeFrom_cons {b : UInt8} {rest : Bytes} {codepoint length : ℕ}
    (h : decodeOne b rest = some (codepoint, length)) :
    decodeFrom 0 (b :: rest) = codepoint :: decodeFrom (length - 1) rest := by
  rw [decodeFrom, h]

/-- What a lead byte and the continuation bytes behind it read as. -/
theorem decodeOne_eq {b : UInt8} {rest : Bytes} {length bits c : ℕ}
    (hlead : leadByte b.toNat = some (length, bits))
    (hrest : continuations (length - 1) rest bits = some c) (hwell : isWellFormed length c = true) :
    decodeOne b rest = some (c, length) := by
  unfold decodeOne
  simp only [Option.bind_eq_bind, hlead, Option.bind_some, hrest, hwell, if_true]

/-- A scalar is read where it was written. -/
theorem decodeOne_encode {c : ℕ} {b : UInt8} {rest tail : Bytes} (h : isScalar c = true)
    (hcons : encode c ++ rest = b :: tail) : decodeOne b tail = some (c, (encode c).length) := by
  have hscalar := isScalar_iff.mp h
  have hmod : ∀ n, n % 64 < 64 := fun n => Nat.mod_lt n (by omega)
  unfold encode at hcons ⊢
  dsimp only at hcons ⊢
  rw [if_pos h] at hcons ⊢
  split_ifs at hcons ⊢ with h1 h2 h3 <;> obtain ⟨rfl, rfl⟩ := List.cons.inj hcons
  · have hb : (UInt8.ofNat c).toNat = c := toNat_ofNat (by omega)
    have hlead : leadByte (UInt8.ofNat c).toNat = some (1, c) := by
      rw [hb]
      exact if_pos h1
    exact decodeOne_eq hlead rfl (by simp [isWellFormed, h])
  · have hb : (UInt8.ofNat (0xC0 + c / 64)).toNat = 0xC0 + c / 64 := toNat_ofNat (by omega)
    have hlead : leadByte (UInt8.ofNat (0xC0 + c / 64)).toNat = some (2, c / 64) := by
      unfold leadByte
      rw [hb, if_neg (by omega), if_pos (by omega)]
      congr 2
      omega
    refine decodeOne_eq hlead ?_ (by simp [isWellFormed, h, h1])
    change continuations 1 (UInt8.ofNat (0x80 + c % 64) :: rest) (c / 64) = some c
    rw [continuations_cons (hmod c), continuations]
    congr 1
    omega
  · have hb : (UInt8.ofNat (0xE0 + c / 4096)).toNat = 0xE0 + c / 4096 := toNat_ofNat (by omega)
    have hlead : leadByte (UInt8.ofNat (0xE0 + c / 4096)).toNat = some (3, c / 4096) := by
      unfold leadByte
      rw [hb, if_neg (by omega), if_neg (by omega), if_pos (by omega)]
      congr 2
      omega
    refine decodeOne_eq hlead ?_ (by simp [isWellFormed, h, h2])
    change continuations 2 (UInt8.ofNat (0x80 + c / 64 % 64) :: UInt8.ofNat (0x80 + c % 64) :: rest)
      (c / 4096) = some c
    rw [continuations_cons (hmod (c / 64)), continuations_cons (hmod c), continuations]
    congr 1
    omega
  · have hb : (UInt8.ofNat (0xF0 + c / 262144)).toNat = 0xF0 + c / 262144 := toNat_ofNat (by omega)
    have hlead : leadByte (UInt8.ofNat (0xF0 + c / 262144)).toNat = some (4, c / 262144) := by
      unfold leadByte
      rw [hb, if_neg (by omega), if_neg (by omega), if_neg (by omega), if_pos (by omega)]
      congr 2
      omega
    refine decodeOne_eq hlead ?_ (by simp [isWellFormed, h, h3])
    change continuations 3 (UInt8.ofNat (0x80 + c / 4096 % 64) ::
      UInt8.ofNat (0x80 + c / 64 % 64) :: UInt8.ofNat (0x80 + c % 64) :: rest) (c / 262144) = some c
    rw [continuations_cons (hmod (c / 4096)), continuations_cons (hmod (c / 64)),
      continuations_cons (hmod c), continuations]
    congr 1
    omega

theorem length_encode_pos {c : ℕ} : 0 < (encode c).length := by
  unfold encode
  dsimp only
  split_ifs <;> exact Nat.succ_pos _

theorem decodeFrom_drop : ∀ {n : ℕ} {utf8 : Bytes}, decodeFrom n utf8 = decodeFrom 0 (utf8.drop n)
  | 0, utf8 => by rw [List.drop_zero]
  | _ + 1, [] => rfl
  | n + 1, _ :: rest => by
    rw [decodeFrom, List.drop_succ_cons]
    exact decodeFrom_drop

/-- The reading goes on behind what was written. -/
theorem decodeFrom_encode {c : ℕ} {rest : Bytes} (h : isScalar c = true) :
    decodeFrom 0 (encode c ++ rest) = c :: decodeFrom 0 rest := by
  obtain ⟨b, front, hfront⟩ := List.exists_cons_of_length_pos (@length_encode_pos c)
  have hone : decodeOne b (front ++ rest) = _ :=
    decodeOne_encode h (by rw [hfront, List.cons_append])
  rw [hfront, List.cons_append, decodeFrom_cons hone, hfront, List.length_cons, Nat.add_sub_cancel,
    decodeFrom_drop, List.drop_left]

theorem decode_encodeAll : ∀ {codepoints : List ℕ}, (∀ c ∈ codepoints, isScalar c = true) →
    decode (encodeAll codepoints) = codepoints
  | [], _ => rfl
  | c :: codepoints, h => by
    have ih := decode_encodeAll fun d hd => h d (List.mem_cons_of_mem c hd)
    unfold decode encodeAll at ih ⊢
    rw [List.flatMap_cons, decodeFrom_encode (h c List.mem_cons_self), ih]

theorem length_of_leadByte {b length bits : ℕ} (h : leadByte b = some (length, bits)) :
    1 ≤ length ∧ length ≤ 4 := by
  unfold leadByte at h
  split_ifs at h <;> cases h <;> decide

theorem decodeOne_spec {b : UInt8} {rest : Bytes} {codepoint length : ℕ}
    (h : decodeOne b rest = some (codepoint, length)) : isScalar codepoint = true ∧ 1 ≤ length := by
  unfold decodeOne at h
  obtain ⟨⟨n, bits⟩, hlead, h⟩ := Option.bind_eq_some_iff.mp h
  obtain ⟨c, hc, h⟩ := Option.bind_eq_some_iff.mp h
  split_ifs at h with hwell
  cases h
  unfold isWellFormed at hwell
  rw [Bool.and_eq_true] at hwell
  exact ⟨hwell.2, (length_of_leadByte hlead).1⟩

/-- A continuation byte is its marker and six bits. -/
theorem continuations_inv {n : ℕ} {rest : Bytes} {bits c : ℕ}
    (h : continuations (n + 1) rest bits = some c) : ∃ m tail, m < 64 ∧
      rest = UInt8.ofNat (0x80 + m) :: tail ∧ continuations n tail (bits * 64 + m) = some c := by
  match rest, h with
  | b :: tail, h =>
    rw [continuations] at h
    split_ifs at h with hb
    refine ⟨b.toNat % 64, tail, Nat.mod_lt _ (by decide), ?_, h⟩
    have hback : 0x80 + b.toNat % 64 = b.toNat := by omega
    rw [hback, UInt8.ofNat_toNat]

/-- What is read was written. -/
theorem encode_of_decodeOne {b : UInt8} {rest : Bytes} {c length : ℕ}
    (h : decodeOne b rest = some (c, length)) : encode c ++ rest.drop (length - 1) = b :: rest := by
  unfold decodeOne at h
  obtain ⟨⟨n, bits⟩, hlead, h⟩ := Option.bind_eq_some_iff.mp h
  obtain ⟨c', hc, h⟩ := Option.bind_eq_some_iff.mp h
  split_ifs at h with hwell
  cases h
  simp only [isWellFormed, Bool.and_eq_true, Bool.not_eq_true', Bool.and_eq_false_iff,
    decide_eq_false_iff_not] at hwell
  obtain ⟨⟨⟨htwo, hthree⟩, hfour⟩, hscalar⟩ := hwell
  have hbyte : ∀ k, b.toNat = k → UInt8.ofNat k = b := fun k hk => by rw [← hk, UInt8.ofNat_toNat]
  have htail : ∀ k m, k % 64 = m → UInt8.ofNat (0x80 + k % 64) = UInt8.ofNat (0x80 + m) :=
    fun k m hk => by rw [hk]
  unfold encode
  dsimp only
  rw [if_pos hscalar]
  unfold leadByte at hlead
  split_ifs at hlead with l1 l2 l3 l4 <;> cases hlead
  · cases hc
    rw [if_pos l1, UInt8.ofNat_toNat]
    rfl
  · obtain ⟨x, r1, hx, rfl, h1⟩ := continuations_inv hc
    obtain rfl : b.toNat % 32 * 64 + x = c := Option.some.inj h1
    rw [if_neg (by omega), if_pos (by omega), hbyte _ (by omega), htail _ x (by omega)]
    rfl
  · obtain ⟨x, r1, hx, rfl, h1⟩ := continuations_inv hc
    obtain ⟨y, r2, hy, rfl, h2⟩ := continuations_inv h1
    obtain rfl : (b.toNat % 16 * 64 + x) * 64 + y = c := Option.some.inj h2
    rw [if_neg (by omega), if_neg (by omega), if_pos (by omega), hbyte _ (by omega),
      htail _ x (by omega), htail _ y (by omega)]
    rfl
  · obtain ⟨x, r1, hx, rfl, h1⟩ := continuations_inv hc
    obtain ⟨y, r2, hy, rfl, h2⟩ := continuations_inv h1
    obtain ⟨z, r3, hz, rfl, h3⟩ := continuations_inv h2
    obtain rfl : ((b.toNat % 8 * 64 + x) * 64 + y) * 64 + z = c := Option.some.inj h3
    rw [if_neg (by omega), if_neg (by omega), if_neg (by omega), hbyte _ (by omega),
      htail _ x (by omega), htail _ y (by omega), htail _ z (by omega)]
    rfl

/-- What is read are scalars. -/
theorem scalar_of_mem_decodeFrom : ∀ {n : ℕ} {utf8 : Bytes} {c : ℕ}, c ∈ decodeFrom n utf8 →
    isScalar c = true
  | 0, [], _, h => by cases h
  | _ + 1, [], _, h => by cases h
  | _ + 1, _ :: rest, c, h => by
    rw [decodeFrom] at h
    exact scalar_of_mem_decodeFrom h
  | 0, b :: rest, c, h => by
    rw [decodeFrom] at h
    split at h
    · rcases List.mem_cons.mp h with rfl | h
      · decide
      · exact scalar_of_mem_decodeFrom h
    · rename_i codepoint length hone
      rcases List.mem_cons.mp h with rfl | h
      · exact (decodeOne_spec hone).1
      · exact scalar_of_mem_decodeFrom h

theorem scalar_of_mem_decode {utf8 : Bytes} {c : ℕ} (h : c ∈ decode utf8) : isScalar c = true :=
  scalar_of_mem_decodeFrom h

/-! ### Text in pieces -/

theorem continuations_append {b : UInt8} {rest : Bytes} (hb : b.toNat < 0x80) :
    ∀ {n : ℕ} {front : Bytes} {codepoint : ℕ},
      continuations n (front ++ b :: rest) codepoint = continuations n front codepoint
  | 0, _, _ => rfl
  | n + 1, [], codepoint => by
    exact if_neg (show ¬ b.toNat / 64 = 2 by omega)
  | n + 1, x :: front, codepoint => by
    rw [List.cons_append, continuations, continuations, continuations_append hb]

theorem le_of_continuations : ∀ {n : ℕ} {rest : Bytes} {codepoint c : ℕ},
    continuations n rest codepoint = some c → n ≤ rest.length
  | 0, _, _, _, _ => Nat.zero_le _
  | _ + 1, [], _, _, h => by cases h
  | n + 1, _ :: rest, _, _, h => by
    rw [continuations] at h
    split_ifs at h
    exact Nat.succ_le_succ (le_of_continuations h)

/-- A sequence ends before an ASCII byte. -/
theorem decodeOne_append {a b : UInt8} {front rest : Bytes} (hb : b.toNat < 0x80) :
    decodeOne a (front ++ b :: rest) = decodeOne a front := by
  unfold decodeOne
  simp only [continuations_append hb]

theorem le_of_decodeOne {a : UInt8} {rest : Bytes} {codepoint length : ℕ}
    (h : decodeOne a rest = some (codepoint, length)) : length - 1 ≤ rest.length := by
  unfold decodeOne at h
  obtain ⟨⟨n, bits⟩, hlead, h⟩ := Option.bind_eq_some_iff.mp h
  obtain ⟨c, hc, h⟩ := Option.bind_eq_some_iff.mp h
  split_ifs at h with hwell
  cases h
  exact le_of_continuations hc

theorem decodeFrom_append {b : UInt8} {rest : Bytes} (hb : b.toNat < 0x80) :
    ∀ {front : Bytes} {n : ℕ}, n ≤ front.length →
      decodeFrom n (front ++ b :: rest) = decodeFrom n front ++ b.toNat :: decodeFrom 0 rest
  | [], n, h => by
    obtain rfl : n = 0 := Nat.le_zero.mp h
    have hlead : leadByte b.toNat = some (1, b.toNat) := if_pos hb
    have hwell : isWellFormed 1 b.toNat = true := by
      have hscalar : isScalar b.toNat = true := isScalar_iff.mpr (.inl (by omega))
      simp [isWellFormed, hscalar]
    exact decodeFrom_cons (decodeOne_eq hlead rfl hwell)
  | a :: front, n + 1, h => by
    rw [List.cons_append, decodeFrom, decodeFrom, decodeFrom_append hb (by simpa using h)]
  | a :: front, 0, _ => by
    rw [List.cons_append, decodeFrom, decodeFrom, decodeOne_append hb]
    cases hone : decodeOne a front with
    | none => rw [decodeFrom_append hb (Nat.zero_le _), List.cons_append]
    | some r =>
      obtain ⟨c, length⟩ := r
      dsimp only
      rw [decodeFrom_append hb (le_of_decodeOne hone), List.cons_append]

/-- Text reads as its pieces do, on both sides of an ASCII byte. -/
theorem decode_append {b : UInt8} (front rest : Bytes) (hb : b.toNat < 0x80) :
    decode (front ++ b :: rest) = decode front ++ b.toNat :: decode rest :=
  decodeFrom_append hb (Nat.zero_le _)

theorem decode_append_space (front rest : Bytes) :
    decode (front ++ 0x20 :: rest) = decode front ++ 0x20 :: decode rest :=
  decode_append front rest (by decide)

theorem decode_spaces_append (text : Bytes) : ∀ n,
    decode (spaces n ++ text) = List.replicate n 0x20 ++ decode text
  | 0 => rfl
  | n + 1 => by
    have hcons : spaces (n + 1) ++ text = [] ++ 0x20 :: (spaces n ++ text) := rfl
    rw [hcons, decode_append_space, decode_spaces_append text n, List.replicate_succ]
    rfl

theorem decode_append_spaces (text : Bytes) : ∀ n,
    decode (text ++ spaces n) = decode text ++ List.replicate n 0x20
  | 0 => by simp [spaces]
  | n + 1 => by
    have hcons : text ++ spaces (n + 1) = text ++ 0x20 :: spaces n := rfl
    have hspaces := decode_spaces_append [] n
    rw [List.append_nil] at hspaces
    rw [hcons, decode_append_space, hspaces, List.replicate_succ]
    simp [decode, decodeFrom]

/-! ### Well-formed text -/

def WellFormed (utf8 : Bytes) : Prop :=
  ∃ codepoints : List ℕ, (∀ c ∈ codepoints, isScalar c = true) ∧ utf8 = encodeAll codepoints

theorem wellFormed_encodeAll {codepoints : List ℕ} (h : ∀ c ∈ codepoints, isScalar c = true) :
    WellFormed (encodeAll codepoints) := ⟨codepoints, h, rfl⟩

/-- Text is well-formed just if it is written as it is read. -/
theorem wellFormed_iff_encodeAll {utf8 : Bytes} : WellFormed utf8 ↔ encodeAll (decode utf8) = utf8 := by
  constructor
  · rintro ⟨codepoints, h, rfl⟩
    rw [decode_encodeAll h]
  · intro h
    exact ⟨decode utf8, fun _ => scalar_of_mem_decode, h.symm⟩

theorem encodeAll_append {l l' : List ℕ} : encodeAll (l ++ l') = encodeAll l ++ encodeAll l' :=
  List.flatMap_append

theorem length_of_decodeOne {b : UInt8} {rest : Bytes} {codepoint length : ℕ}
    (h : decodeOne b rest = some (codepoint, length)) : length = (encode codepoint).length := by
  have hback := decodeOne_encode (decodeOne_spec h).1 (encode_of_decodeOne h)
  rw [h] at hback
  exact congrArg Prod.snd (Option.some.inj hback)

/-- What is read is written in no fewer bytes. -/
theorem length_le_encodeAll : ∀ {utf8 : Bytes} {n : ℕ},
    utf8.length ≤ n + (encodeAll (decodeFrom n utf8)).length
  | [], n => Nat.zero_le _
  | _ :: rest, n + 1 => by
    have ih := @length_le_encodeAll rest n
    rw [decodeFrom, List.length_cons]
    omega
  | b :: rest, 0 => by
    rw [decodeFrom, List.length_cons]
    cases hone : decodeOne b rest with
    | none =>
      have ih := @length_le_encodeAll rest 0
      have hpos := @length_encode_pos kReplacement
      simp only [encodeAll, List.flatMap_cons, List.length_append] at ih ⊢
      omega
    | some r =>
      obtain ⟨c, length⟩ := r
      have ih := @length_le_encodeAll rest (length - 1)
      have hle := length_of_decodeOne hone
      have hpos := (decodeOne_spec hone).2
      simp only [encodeAll, List.flatMap_cons, List.length_append] at ih ⊢
      omega

theorem encode_ascii {b : UInt8} (hb : b.toNat < 0x80) : encode b.toNat = [b] := by
  have hscalar : isScalar b.toNat = true := isScalar_iff.mpr (.inl (by omega))
  unfold encode
  dsimp only
  rw [if_pos hscalar, if_pos hb, UInt8.ofNat_toNat]

theorem wellFormed_append {b : UInt8} {front rest : Bytes} (hb : b.toNat < 0x80) :
    WellFormed (front ++ b :: rest) ↔ WellFormed front ∧ WellFormed rest := by
  have hcons : encodeAll (decode (front ++ b :: rest)) =
      encodeAll (decode front) ++ b :: encodeAll (decode rest) := by
    rw [decode_append front rest hb, encodeAll_append]
    simp [encodeAll, encode_ascii hb]
  rw [wellFormed_iff_encodeAll, wellFormed_iff_encodeAll, wellFormed_iff_encodeAll, hcons]
  constructor
  · intro h
    -- neither side is written in fewer bytes, so both are written in as many
    have hlen := congrArg List.length h
    simp only [List.length_append, List.length_cons] at hlen
    have hfront := @length_le_encodeAll front 0
    have hrest := @length_le_encodeAll rest 0
    have hinj := List.append_inj h (by unfold decode at hlen ⊢; omega)
    exact ⟨hinj.1, (List.cons.inj hinj.2).2⟩
  · rintro ⟨hfront, hrest⟩
    rw [hfront, hrest]

theorem wellFormed_spaces (n : ℕ) : WellFormed (spaces n) := by
  refine ⟨List.replicate n 0x20, fun c hc => ?_, ?_⟩
  · rw [List.eq_of_mem_replicate hc]
    decide
  · unfold encodeAll spaces
    rw [List.flatMap_replicate]
    have hspace : encode 0x20 = [0x20] := by decide
    rw [hspace]
    simp

/-- Well-formed texts read one behind the other. -/
theorem WellFormed.append {a b : Bytes} (ha : WellFormed a) (hb : WellFormed b) :
    WellFormed (a ++ b) ∧ decode (a ++ b) = decode a ++ decode b := by
  obtain ⟨points, hpoints, rfl⟩ := ha
  obtain ⟨points', hpoints', rfl⟩ := hb
  have hall : ∀ c ∈ points ++ points', isScalar c = true := by
    intro c hc
    rcases List.mem_append.mp hc with hc | hc
    · exact hpoints c hc
    · exact hpoints' c hc
  rw [← encodeAll_append]
  refine ⟨wellFormed_encodeAll hall, ?_⟩
  rw [decode_encodeAll hall, decode_encodeAll hpoints, decode_encodeAll hpoints']

/-! ### What fits -/

theorem pointsWidth_append {l l' : List ℕ} :
    pointsWidth (l ++ l') = pointsWidth l + pointsWidth l' := by
  unfold pointsWidth
  rw [List.map_append, List.sum_append]

theorem pointsWidth_replicate_space (n : ℕ) : pointsWidth (List.replicate n 0x20) = n := by
  unfold pointsWidth
  rw [List.map_replicate, List.sum_replicate]
  exact Nat.mul_one n

theorem columnWidth_le {c : ℕ} {l : List ℕ} (h : c ∈ l) : columnWidth c ≤ pointsWidth l :=
  List.single_le_sum (fun _ _ => Nat.zero_le _) _ (List.mem_map_of_mem h)

theorem prefix_of_fitting {columns : ℕ} : ∀ {l : List ℕ} {used : ℕ}, fitting columns used l <+: l
  | [], _ => List.prefix_rfl
  | c :: l, used => by
    unfold fitting
    split_ifs
    · exact List.nil_prefix
    · exact List.cons_prefix_cons.mpr ⟨rfl, prefix_of_fitting⟩

theorem pointsWidth_fitting {columns : ℕ} : ∀ {l : List ℕ} {used : ℕ}, used ≤ columns →
    used + pointsWidth (fitting columns used l) ≤ columns
  | [], _, h => h
  | c :: l, used, h => by
    unfold fitting
    split_ifs with hc
    · exact h
    · have ih := @pointsWidth_fitting columns l (used + columnWidth c) (by omega)
      unfold pointsWidth at ih ⊢
      rw [List.map_cons, List.sum_cons]
      omega

theorem fitting_of_le {columns : ℕ} : ∀ {l : List ℕ} {used : ℕ},
    used + pointsWidth l ≤ columns → fitting columns used l = l
  | [], _, _ => rfl
  | c :: l, used, h => by
    have hsum : pointsWidth (c :: l) = columnWidth c + pointsWidth l := by
      unfold pointsWidth
      rw [List.map_cons, List.sum_cons]
    rw [fitting, if_neg (by omega), fitting_of_le (by omega)]

theorem decode_clip {utf8 : Bytes} {columns : ℕ} (h : 0 < columns) :
    decode (clip utf8 columns) = fitting columns 0 (decode utf8) := by
  unfold clip
  rw [if_neg (by omega), decode_encodeAll]
  intro c hc
  exact scalar_of_mem_decode (prefix_of_fitting.subset hc)

theorem width_clip_le (utf8 : Bytes) (columns : ℕ) : width (clip utf8 columns) ≤ columns := by
  by_cases h : columns = 0
  · unfold clip
    rw [if_pos h]
    exact Nat.zero_le columns
  · unfold width
    rw [decode_clip (by omega)]
    have := @pointsWidth_fitting columns (decode utf8) 0 (Nat.zero_le columns)
    omega

theorem wellFormed_clip (utf8 : Bytes) (columns : ℕ) : WellFormed (clip utf8 columns) := by
  unfold clip
  split_ifs
  · exact ⟨[], by simp, rfl⟩
  · exact wellFormed_encodeAll fun c hc => scalar_of_mem_decode (prefix_of_fitting.subset hc)

theorem wellFormed_pad (utf8 : Bytes) (columns : ℕ) (align : Align) :
    WellFormed (pad utf8 columns align) := by
  have hclip := wellFormed_clip utf8 columns
  unfold pad
  dsimp only
  split_ifs
  · exact ⟨[], by simp, rfl⟩
  · exact hclip
  · split
    · exact (hclip.append (wellFormed_spaces _)).1
    · exact ((wellFormed_spaces _).append hclip).1
    · exact (((wellFormed_spaces _).append hclip).1.append (wellFormed_spaces _)).1

/-- What a padded text reads as. -/
theorem decode_pad (utf8 : Bytes) {columns : ℕ} (align : Align) (h : 0 < columns) :
    ∃ leading trailing, decode (pad utf8 columns align) = List.replicate leading 0x20 ++
      fitting columns 0 (decode utf8) ++ List.replicate trailing 0x20 ∧
      leading + width (clip utf8 columns) + trailing = columns := by
  have hle := width_clip_le utf8 columns
  unfold pad
  rw [if_neg (by omega)]
  dsimp only
  split_ifs with hslack
  · exact ⟨0, 0, by rw [decode_clip h]; simp, by omega⟩
  · split
    · exact ⟨0, _, by rw [decode_append_spaces, decode_clip h]; rfl, by omega⟩
    · exact ⟨columns - width (clip utf8 columns), 0,
        by rw [decode_spaces_append, decode_clip h]; simp, by omega⟩
    · exact ⟨(columns - width (clip utf8 columns)) / 2, _,
        by rw [decode_append_spaces, decode_spaces_append, decode_clip h], by omega⟩

theorem decode_pad_left (utf8 : Bytes) {columns : ℕ} (h : 0 < columns) :
    ∃ trailing, decode (pad utf8 columns .left) =
      fitting columns 0 (decode utf8) ++ List.replicate trailing 0x20 := by
  unfold pad
  rw [if_neg (by omega)]
  dsimp only
  split_ifs
  · exact ⟨0, by rw [decode_clip h]; simp⟩
  · exact ⟨_, by rw [decode_append_spaces, decode_clip h]⟩

/-- **Padding fills the columns exactly.** -/
theorem width_pad (utf8 : Bytes) (columns : ℕ) (align : Align) :
    width (pad utf8 columns align) = columns := by
  by_cases h : columns = 0
  · unfold pad
    rw [if_pos h, h]
    rfl
  · obtain ⟨leading, trailing, hdecode, hsum⟩ := decode_pad utf8 align (Nat.pos_of_ne_zero h)
    unfold width at hsum ⊢
    rw [decode_clip (Nat.pos_of_ne_zero h)] at hsum
    rw [hdecode, pointsWidth_append, pointsWidth_append, pointsWidth_replicate_space,
      pointsWidth_replicate_space]
    exact hsum

end PrinterDriver.Dsl.Text
