import PrinterDriver.Core.Encoder
import PrinterDriver.Lib.Mapping
import Mathlib.Algebra.GroupWithZero.Nat

/-! # Packing a grayscale image

The image is fitted to the width of the paper and reduced to dots. The packer reads the pixels by
the dimensions that the payload states and sets the dots in rows whose length is computed in 32
bits; an access behind the end of a buffer is `outOfBounds`. `pack_isSome_iff` says which images
are packed. -/

namespace PrinterDriver.Core.Raster

open PrinterDriver.Core.Types PrinterDriver.Core.Encoder PrinterDriver.Lib.Mapping

def kMaxRasterRows : ℕ := 0xFFFF

inductive Fault where
  | encodingError (message : Bytes)
  /-- An access outside the pixel buffer or the packed rows. -/
  | outOfBounds
  deriving DecidableEq, Repr

/-! ### Scaling -/

/-- The height that keeps the aspect ratio, in 32 bits; at least one row. -/
def fittedHeight (width height targetWidthDots : ℕ) : ℕ :=
  let rows := (height * targetWidthDots + width / 2) / width % 2 ^ 32
  if rows = 0 then 1 else rows

/-- The source cells of destination cell `i` of `n`, from the first to before the last. -/
def box (i n src : ℕ) : ℕ × ℕ :=
  let first := i * src / n
  let last := (i + 1) * src / n
  let last := if last ≤ first then first + 1 else last
  (first, if src < last then src else last)

def cells (b : ℕ × ℕ) : List ℕ := List.range' b.1 (b.2 - b.1)

/-- The mean of the pixels of a box; a read outside the buffer gives nothing. -/
def boxMean (gray : Bytes) (srcW : ℕ) (columns rows : ℕ × ℕ) : Option UInt8 := do
  let pixels ← (cells rows).mapM fun sy => (cells columns).mapM fun sx => gray[sy * srcW + sx]?
  let sum := ((pixels.flatten).map UInt8.toNat).sum
  let count := pixels.flatten.length
  return if count = 0 then 0 else UInt8.ofNat (sum / count)

def resampleGray (gray : Bytes) (srcW srcH dstW dstH : ℕ) : Option Bytes := do
  let rows ← (List.range dstH).mapM fun y =>
    (List.range dstW).mapM fun x => boxMean gray srcW (box x dstW srcW) (box y dstH srcH)
  return rows.flatten

/-! ### Dots -/

/-- The bytes of a row, in 32 bits. -/
def bytesPerRow (widthDots : ℕ) : ℕ := (widthDots + 7) % 2 ^ 32 / 8

/-- The dots of an image, row after row. -/
def positions (w h : ℕ) : List (ℕ × ℕ) :=
  (List.range h).flatMap fun y => (List.range w).map fun x => (x, y)

/-- The error of a dot goes to its neighbours on the right and below. -/
def spread (work : List ℤ) (w h x y : ℕ) (error : ℤ) : List ℤ :=
  let give (work : List ℤ) (x y : ℕ) (share : ℤ) : List ℤ :=
    work.modify (y * w + x) (· + (error * share).tdiv 16)
  let work := if x + 1 < w then give work (x + 1) y 7 else work
  if y + 1 < h then
    let work := if 0 < x then give work (x - 1) (y + 1) 3 else work
    let work := give work x (y + 1) 5
    if x + 1 < w then give work (x + 1) (y + 1) 1 else work
  else work

/-- One dot of the error diffusion, behind the black ones before it. -/
def floydSteinberg (w h : ℕ) (threshold : UInt8) (s : List ℤ × List (ℕ × ℕ))
    (dot : ℕ × ℕ) : List ℤ × List (ℕ × ℕ) :=
  let old := max 0 (min 255 (s.1.getD (dot.2 * w + dot.1) 0))
  let new : ℤ := if old < threshold.toNat then 0 else 255
  (spread s.1 w h dot.1 dot.2 (old - new), if new = 0 then s.2 ++ [dot] else s.2)

/-- The dots that are printed, in the order in which they are set: grayscale 0 is black. -/
def blackDots (r : RasterPayload) (scaled : Bytes) (w h : ℕ) : List (ℕ × ℕ) :=
  match r.binarization with
  | .fixedThreshold =>
    (positions w h).filter fun dot => scaled.getD (dot.2 * w + dot.1) 0 < r.threshold
  | .floydSteinberg =>
    ((positions w h).foldl (floydSteinberg w h r.threshold)
      (scaled.map fun v => (v.toNat : ℤ), [])).2

/-- Set a dot; behind the end of the rows there is none to set. -/
def setDot (bytesPerRow : ℕ) (packed : Bytes) (dot : ℕ × ℕ) : Option Bytes :=
  let i := dot.2 * bytesPerRow + dot.1 / 8
  if i < packed.length then
    some (packed.modify i fun b => b ||| (0x80 >>> UInt8.ofNat (dot.1 % 8)))
  else none

def binarize (r : RasterPayload) (scaled : Bytes) (w h : ℕ) : Option Bytes :=
  (blackDots r scaled w h).foldlM (setDot (bytesPerRow w))
    (List.replicate (bytesPerRow w * h) 0)

def packGrayscale (r : RasterPayload) (targetWidthDots : ℕ) : Except Fault PackedRaster :=
  if r.width = 0 ∨ r.height = 0 ∨ targetWidthDots = 0 then
    .error (.encodingError (str "grayscale raster must have non-zero width and height"))
  else
    let w := targetWidthDots
    let h := fittedHeight r.width r.height w
    if kMaxRasterRows < h then
      .error (.encodingError (str "scaled raster exceeds the 16-bit height field"))
    else
      match resampleGray r.gray r.width r.height w h with
      | none => .error .outOfBounds
      | some scaled =>
        match binarize r scaled w h with
        | none => .error .outOfBounds
        | some data => .ok ⟨w, h, bytesPerRow w, data⟩

/-! ### Which pixels are read -/

theorem box_bounds {i n src : ℕ} (hi : i < n) (hs : 0 < src) :
    (box i n src).1 < (box i n src).2 ∧ (box i n src).2 ≤ src := by
  have hfirst : i * src / n < src := by
    rw [Nat.div_lt_iff_lt_mul (by omega), Nat.mul_comm src]
    exact Nat.mul_lt_mul_of_pos_right hi hs
  unfold box
  dsimp only
  split_ifs <;> omega

/-- The last box ends with the source. -/
theorem box_last {n src : ℕ} (hn : 0 < n) (hs : 0 < src) : (box (n - 1) n src).2 = src := by
  have hlast : (n - 1 + 1) * src / n = src := by
    rw [Nat.sub_add_cancel hn, Nat.mul_div_cancel_left _ hn]
  have := (box_bounds (Nat.sub_lt hn Nat.one_pos) hs).1
  unfold box at this ⊢
  simp only [hlast] at this ⊢
  split_ifs at this ⊢ <;> omega

theorem mem_cells {b : ℕ × ℕ} {c : ℕ} : c ∈ cells b ↔ b.1 ≤ c ∧ c < b.2 := by
  unfold cells
  rw [List.mem_range'_1]
  omega

theorem isSome_boxMean {gray : Bytes} {srcW : ℕ} {columns rows : ℕ × ℕ} :
    (boxMean gray srcW columns rows).isSome = true ↔
      ∀ sy ∈ cells rows, ∀ sx ∈ cells columns, sy * srcW + sx < gray.length := by
  have hmap : (boxMean gray srcW columns rows).isSome =
      ((cells rows).mapM fun sy =>
        (cells columns).mapM fun sx => gray[sy * srcW + sx]?).isSome := by
    unfold boxMean
    cases (cells rows).mapM fun sy =>
      (cells columns).mapM fun sx => gray[sy * srcW + sx]? <;> rfl
  rw [hmap, isSome_mapM]
  simp only [isSome_mapM, isSome_getElem?]

/-- All pixels that the dimensions promise are read, and no others. -/
theorem isSome_resampleGray {gray : Bytes} {srcW srcH dstW dstH : ℕ} (hsw : 0 < srcW)
    (hsh : 0 < srcH) (hdw : 0 < dstW) (hdh : 0 < dstH) :
    (resampleGray gray srcW srcH dstW dstH).isSome = true ↔ srcW * srcH ≤ gray.length := by
  have hmap : (resampleGray gray srcW srcH dstW dstH).isSome =
      ((List.range dstH).mapM fun y => (List.range dstW).mapM fun x =>
        boxMean gray srcW (box x dstW srcW) (box y dstH srcH)).isSome := by
    unfold resampleGray
    cases (List.range dstH).mapM fun y => (List.range dstW).mapM fun x =>
      boxMean gray srcW (box x dstW srcW) (box y dstH srcH) <;> rfl
  rw [hmap, isSome_mapM]
  simp only [isSome_mapM, isSome_boxMean, List.mem_range, mem_cells]
  constructor
  · intro h
    -- the last pixel of the last box is the last pixel of the image
    have hx := box_bounds (Nat.sub_lt hdw Nat.one_pos) hsw
    have hy := box_bounds (Nat.sub_lt hdh Nat.one_pos) hsh
    rw [box_last hdw hsw] at hx
    rw [box_last hdh hsh] at hy
    have hlast := h (dstH - 1) (Nat.sub_lt hdh Nat.one_pos) (dstW - 1)
      (Nat.sub_lt hdw Nat.one_pos) (srcH - 1) (by rw [box_last hdh hsh]; omega) (srcW - 1)
      (by rw [box_last hdw hsw]; omega)
    have hrow : (srcH - 1) * srcW + srcW = srcW * srcH := by
      rw [← Nat.succ_mul, Nat.succ_eq_add_one, Nat.sub_add_cancel hsh, Nat.mul_comm]
    omega
  · intro h y hy x hx sy hsy sx hsx
    have hby := (box_bounds hy hsh).2
    have hbx := (box_bounds hx hsw).2
    calc sy * srcW + sx < sy * srcW + srcW := by omega
      _ = (sy + 1) * srcW := (Nat.succ_mul sy srcW).symm
      _ ≤ srcH * srcW := Nat.mul_le_mul_right _ (by omega)
      _ ≤ gray.length := by rw [Nat.mul_comm]; exact h

/-! ### Which dots are set -/

theorem mem_positions {w h : ℕ} {dot : ℕ × ℕ} : dot ∈ positions w h ↔ dot.1 < w ∧ dot.2 < h := by
  obtain ⟨x, y⟩ := dot
  simp [positions, and_comm]

theorem floydSteinberg_dots (w h : ℕ) (threshold : UInt8) (s : List ℤ × List (ℕ × ℕ))
    (dot : ℕ × ℕ) : (floydSteinberg w h threshold s dot).2 = s.2 ++ [dot] ∨
      (floydSteinberg w h threshold s dot).2 = s.2 := by
  unfold floydSteinberg
  dsimp only
  split
  · exact .inl rfl
  · exact .inr rfl

theorem mem_of_foldl_floydSteinberg {w h' : ℕ} {threshold : UInt8} :
    ∀ {dots : List (ℕ × ℕ)} {s : List ℤ × List (ℕ × ℕ)} {dot : ℕ × ℕ},
      dot ∈ (dots.foldl (floydSteinberg w h' threshold) s).2 → dot ∈ s.2 ∨ dot ∈ dots
  | [], _, _, h => .inl h
  | d :: dots, s, dot, h => by
    rw [List.foldl_cons] at h
    rcases mem_of_foldl_floydSteinberg h with h | h
    · rcases floydSteinberg_dots w h' threshold s d with he | he
      · rw [he] at h
        rcases List.mem_append.mp h with h | h
        · exact .inl h
        · exact .inr (List.mem_cons.mpr (.inl (List.mem_singleton.mp h)))
      · exact .inl (he ▸ h)
    · exact .inr (List.mem_cons_of_mem d h)

theorem mem_positions_of_blackDots {r : RasterPayload} {scaled : Bytes} {w h : ℕ} {dot : ℕ × ℕ}
    (hd : dot ∈ blackDots r scaled w h) : dot ∈ positions w h := by
  unfold blackDots at hd
  split at hd
  · exact List.mem_of_mem_filter hd
  · rcases mem_of_foldl_floydSteinberg hd with hd | hd
    · exact absurd hd List.not_mem_nil
    · exact hd

/-- The dots are all set if and only if they lie in the rows. -/
theorem isSome_foldlM_setDot {n : ℕ} : ∀ {dots : List (ℕ × ℕ)} {packed : Bytes},
    (dots.foldlM (setDot n) packed).isSome = true ↔
      ∀ dot ∈ dots, dot.2 * n + dot.1 / 8 < packed.length
  | [], packed => by simp
  | d :: dots, packed => by
    rw [List.foldlM_cons]
    by_cases hd : d.2 * n + d.1 / 8 < packed.length
    · have ih := @isSome_foldlM_setDot n dots
        (packed.modify (d.2 * n + d.1 / 8) fun b =>
          b ||| (0x80 >>> UInt8.ofNat (d.1 % 8)))
      rw [List.length_modify] at ih
      simpa [setDot, hd] using ih
    · simp [setDot, hd]

theorem setDot_bounds {w h n : ℕ} {dot : ℕ × ℕ} (hd : dot ∈ positions w h)
    (hn : n = (w + 7) / 8) : dot.2 * n + dot.1 / 8 < n * h := by
  obtain ⟨hx, hy⟩ := mem_positions.mp hd
  calc dot.2 * n + dot.1 / 8 < dot.2 * n + n := by omega
    _ = (dot.2 + 1) * n := (Nat.succ_mul dot.2 n).symm
    _ ≤ h * n := Nat.mul_le_mul_right _ (by omega)
    _ = n * h := Nat.mul_comm h n

/-- Rows whose byte count overflows have no bytes: any dot is then set outside them. -/
theorem isSome_binarize {r : RasterPayload} {scaled : Bytes} {w h : ℕ} (hw : w < 2 ^ 32) :
    (binarize r scaled w h).isSome = true ↔ w + 7 < 2 ^ 32 ∨ blackDots r scaled w h = [] := by
  unfold binarize
  rw [isSome_foldlM_setDot, List.length_replicate]
  by_cases hwide : w + 7 < 2 ^ 32
  · have hn : bytesPerRow w = (w + 7) / 8 := by unfold bytesPerRow; omega
    exact iff_of_true (fun dot hd => setDot_bounds (mem_positions_of_blackDots hd) hn)
      (.inl hwide)
  · have hn : bytesPerRow w = 0 := by unfold bytesPerRow; omega
    rw [or_iff_right hwide, List.eq_nil_iff_forall_not_mem, hn]
    refine forall_congr' fun dot => ?_
    simp

/-! ### The images that are packed -/

/-- No dot of the image is black on this paper. -/
def Blank (r : RasterPayload) (w : ℕ) : Prop :=
  ∀ scaled, resampleGray r.gray r.width r.height w (fittedHeight r.width r.height w) = some scaled →
    blackDots r scaled w (fittedHeight r.width r.height w) = []

/-- What an image needs, beyond dimensions and a paper width that are not zero: its scaled height
fits 16 bits, it has the pixels of its dimensions, and the bytes of a row do not overflow. -/
structure Packs (r : RasterPayload) (w : ℕ) : Prop where
  height : fittedHeight r.width r.height w ≤ kMaxRasterRows
  pixels : r.width * r.height ≤ r.gray.length
  row : w + 7 < 2 ^ 32 ∨ Blank r w

theorem pack_isSome_iff {r : RasterPayload} {w : ℕ} (hw : w < 2 ^ 32) (hwidth : 0 < r.width)
    (hheight : 0 < r.height) :
    (packGrayscale r w).toOption.isSome = true ↔ 0 < w ∧ Packs r w := by
  unfold packGrayscale
  dsimp only
  split_ifs with hzero htall
  · exact iff_of_false (by simp [Except.toOption]) fun h => by omega
  · exact iff_of_false (by simp [Except.toOption]) fun h => absurd h.2.height (by omega)
  · have hh : 0 < fittedHeight r.width r.height w := by
      unfold fittedHeight
      dsimp only
      split_ifs <;> omega
    have hread := @isSome_resampleGray r.gray r.width r.height w
      (fittedHeight r.width r.height w) hwidth hheight (by omega) hh
    cases hs : resampleGray r.gray r.width r.height w (fittedHeight r.width r.height w) with
    | none =>
      rw [hs] at hread
      exact iff_of_false (by simp [Except.toOption]) fun h => by simp [h.2.pixels] at hread
    | some scaled =>
      have hpixels : r.width * r.height ≤ r.gray.length := hread.mp (by rw [hs]; rfl)
      have hset := @isSome_binarize r scaled w (fittedHeight r.width r.height w) hw
      have hblank : Blank r w ↔ blackDots r scaled w (fittedHeight r.width r.height w) = [] :=
        ⟨fun h => h scaled hs, fun h s hs' => by rwa [← Option.some.inj (hs.symm.trans hs')]⟩
      rw [← hblank] at hset
      have hpack : Packs r w ↔ w + 7 < 2 ^ 32 ∨ Blank r w :=
        ⟨fun h => h.row, fun h => ⟨by omega, hpixels, h⟩⟩
      rw [hpack, ← hset]
      have hpos : 0 < w := by omega
      cases hb : binarize r scaled w (fittedHeight r.width r.height w) with
      | none => simp [Except.toOption, hb]
      | some data => simp [Except.toOption, hb, hpos]

theorem ok_of_toOption {r : RasterPayload} {w : ℕ} {packed : PackedRaster}
    (h : (packGrayscale r w).toOption = some packed) : packGrayscale r w = .ok packed := by
  cases hp : packGrayscale r w with
  | error fault =>
    rw [hp] at h
    cases h
  | ok packed' =>
    rw [hp] at h
    cases h
    rfl

end PrinterDriver.Core.Raster
