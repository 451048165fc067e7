import PrinterDriver.Core.Raster
import Mathlib.Algebra.BigOperators.Group.List.Basic
import Mathlib.Algebra.Order.BigOperators.Group.List
import Mathlib.Algebra.Order.Ring.Abs
import Mathlib.Algebra.Order.Ring.Int
import Mathlib.Data.List.Induction
import Mathlib.Data.List.Nodup

/-! # The arithmetic of the packer

An image keeps its aspect ratio, every box of the scaling holds pixels of the source, the errors
that the diffusion spreads stay small whatever the size of the image, and the bits behind the last
column stay white. `meets_iff` says for which images all of this holds: the scaled height is
narrowed to 32 bits before it is compared with the height field. -/

namespace PrinterDriver.Core.Dithering

open PrinterDriver.Core.Types PrinterDriver.Core.Encoder PrinterDriver.Core.Raster
open PrinterDriver.Lib.Mapping

/-! ### What the packer promises -/

/-- The rows of the scaled image, exactly. -/
def exactRows (width height targetWidthDots : ℕ) : ℕ :=
  (height * targetWidthDots + width / 2) / width

/-- The working values of the error diffusion, behind the first dots. -/
def working (r : RasterPayload) (scaled : Bytes) (w h : ℕ) (done : List (ℕ × ℕ)) : List ℤ :=
  (done.foldl (floydSteinberg w h r.threshold) (scaled.map fun v => (v.toNat : ℤ), [])).1

/-- The bit of a dot in its packed row. -/
def dotBit (packed : Bytes) (bytesPerRow x y : ℕ) : UInt8 :=
  packed.getD (y * bytesPerRow + x / 8) 0 &&& (0x80 >>> UInt8.ofNat (x % 8))

/-- A packed image whose numbers are right. -/
structure Sound (r : RasterPayload) (w : ℕ) (image : PackedRaster) : Prop where
  height : image.heightDots = max 1 (exactRows r.width r.height w)
  columns : ∀ x < w, (box x w r.width).1 < (box x w r.width).2 ∧ (box x w r.width).2 ≤ r.width
  rows : ∀ y < image.heightDots, (box y image.heightDots r.height).1 <
    (box y image.heightDots r.height).2 ∧ (box y image.heightDots r.height).2 ≤ r.height
  errors : ∀ scaled, resampleGray r.gray r.width r.height w image.heightDots = some scaled →
    ∀ done, done <+: positions w image.heightDots →
      ∀ v ∈ working r scaled w image.heightDots done, -2 ^ 31 ≤ v ∧ v < 2 ^ 31
  padding : ∀ y < image.heightDots, ∀ x, w ≤ x → x < 8 * image.bytesPerRow →
    dotBit image.data image.bytesPerRow x y = 0

/-- The packer throws, or its image is right. -/
def Meets (r : RasterPayload) (w : ℕ) : Prop :=
  (∃ message, packGrayscale r w = .error (.encodingError message)) ∨
    ∃ image, packGrayscale r w = .ok image ∧ Sound r w image

/-! ### The errors of the diffusion -/

/-- The sixteenths of its error that dot `q` gives to dot `p`. -/
def share (q p : ℕ × ℕ) : ℕ :=
  (if q.1 + 1 = p.1 ∧ q.2 = p.2 then 7 else 0) + (if q.1 = p.1 + 1 ∧ q.2 + 1 = p.2 then 3 else 0) +
    (if q.1 = p.1 ∧ q.2 + 1 = p.2 then 5 else 0) + (if q.1 + 1 = p.1 ∧ q.2 + 1 = p.2 then 1 else 0)

theorem sum_ite_le {P : ℕ × ℕ → Prop} [DecidablePred P] {c : ℕ} (hone : ∀ a b, P a → P b → a = b) :
    ∀ {dots : List (ℕ × ℕ)}, dots.Nodup → (dots.map fun q => if P q then c else 0).sum ≤ c
  | [], _ => Nat.zero_le c
  | q :: dots, hn => by
    obtain ⟨hq, hn⟩ := List.nodup_cons.mp hn
    rw [List.map_cons, List.sum_cons]
    by_cases hP : P q
    · have hrest : (dots.map fun q => if P q then c else 0).sum = 0 := by
        rw [List.sum_eq_zero_iff]
        intro n hmem
        obtain ⟨q', hq', rfl⟩ := List.mem_map.mp hmem
        have hne : ¬ P q' := fun h => hq (hone q' q h hP ▸ hq')
        rw [if_neg hne]
      rw [hrest, if_pos hP]
      omega
    · have ih := sum_ite_le (c := c) hone hn
      rw [if_neg hP]
      omega

/-- A dot is given sixteen sixteenths at most: each neighbour gives its own share once. -/
theorem sum_share_le {dots : List (ℕ × ℕ)} {p : ℕ × ℕ} (hn : dots.Nodup) :
    (dots.map fun q => share q p).sum ≤ 16 := by
  unfold share
  rw [List.sum_map_add, List.sum_map_add, List.sum_map_add]
  have h7 := @sum_ite_le (fun q => q.1 + 1 = p.1 ∧ q.2 = p.2) _ 7
    (fun a b ha hb => Prod.ext (by omega) (by omega)) dots hn
  have h3 := @sum_ite_le (fun q => q.1 = p.1 + 1 ∧ q.2 + 1 = p.2) _ 3
    (fun a b ha hb => Prod.ext (by omega) (by omega)) dots hn
  have h5 := @sum_ite_le (fun q => q.1 = p.1 ∧ q.2 + 1 = p.2) _ 5
    (fun a b ha hb => Prod.ext (by omega) (by omega)) dots hn
  have h1 := @sum_ite_le (fun q => q.1 + 1 = p.1 ∧ q.2 + 1 = p.2) _ 1
    (fun a b ha hb => Prod.ext (by omega) (by omega)) dots hn
  omega

theorem index_inj {w x y x' y' : ℕ} (hx : x < w) (hx' : x' < w) :
    y * w + x = y' * w + x' ↔ x = x' ∧ y = y' := by
  constructor
  · intro h
    have hmod := congrArg (· % w) h
    have hdiv := congrArg (· / w) h
    simp only [Nat.mul_add_mod_self_right, Nat.mod_eq_of_lt hx, Nat.mod_eq_of_lt hx'] at hmod
    have hw : 0 < w := by omega
    simp only [Nat.mul_comm _ w, Nat.mul_add_div hw, Nat.div_eq_of_lt hx, Nat.div_eq_of_lt hx',
      Nat.add_zero] at hdiv
    exact ⟨hmod, hdiv⟩
  · rintro ⟨rfl, rfl⟩
    rfl

/-- The value of a dot. -/
def valueAt (work : List ℤ) (w : ℕ) (p : ℕ × ℕ) : ℤ := work.getD (p.2 * w + p.1) 0

theorem abs_modify_sub_le {work : List ℤ} {w x y c : ℕ} {p : ℕ × ℕ} {d : ℤ} (hx : x < w)
    (hp : p.1 < w) (hd : |d| ≤ c) :
    |valueAt (work.modify (y * w + x) (· + d)) w p - valueAt work w p| ≤
      ((if x = p.1 ∧ y = p.2 then c else 0 : ℕ) : ℤ) := by
  have hindex := @index_inj w x y p.1 p.2 hx hp
  unfold valueAt
  rw [List.getD_eq_getElem?_getD, List.getD_eq_getElem?_getD, List.getElem?_modify]
  by_cases hsame : y * w + x = p.2 * w + p.1
  · rw [if_pos (hindex.mp hsame)]
    cases work[p.2 * w + p.1]? with
    | none => simp
    | some v => simpa [hsame] using hd
  · rw [if_neg fun h => hsame (hindex.mpr h)]
    simp [hsame]

theorem abs_tdiv_le {e : ℤ} {s : ℕ} (he : |e| ≤ 255) : |(e * s).tdiv 16| ≤ (16 * s : ℕ) := by
  have hmul : |e * s| ≤ 255 * s := by
    rw [abs_mul, Nat.abs_cast]
    exact Int.mul_le_mul_of_nonneg_right he (Int.natCast_nonneg s)
  rw [abs_le] at hmul ⊢
  have htrunc : (e * s).tdiv 16 = e * s / 16 ∨ e * s < 0 ∧ (e * s).tdiv 16 = e * s / 16 + 1 := by
    rw [Int.tdiv_eq_ediv]
    split_ifs
    · exact .inl (by omega)
    · exact .inr ⟨by omega, by simp⟩
  push_cast
  omega

/-- One share moves the value of its dot only, if it is given. -/
theorem abs_give_le {work : List ℤ} {w x y : ℕ} {p : ℕ × ℕ} {e : ℤ} {s : ℕ} {given : Prop}
    [Decidable given] (hx : given → x < w) (hp : p.1 < w) (he : |e| ≤ 255) :
    |valueAt (if given then work.modify (y * w + x) (· + (e * s).tdiv 16) else work) w p -
      valueAt work w p| ≤ 16 * ((if given ∧ x = p.1 ∧ y = p.2 then s else 0 : ℕ) : ℤ) := by
  by_cases hgiven : given
  · have h := @abs_modify_sub_le work w x y (16 * s) p _ (hx hgiven) hp (abs_tdiv_le he)
    rw [if_pos hgiven]
    simp only [hgiven, true_and]
    split_ifs at h ⊢
    · exact_mod_cast h
    · exact_mod_cast h
  · simp [hgiven]

/-- One dot moves the value of another by its share of the error. -/
theorem abs_spread_sub_le {work : List ℤ} {w h : ℕ} {q p : ℕ × ℕ} {e : ℤ} (hq : q.1 < w)
    (hp : p.1 < w) (he : |e| ≤ 255) :
    |valueAt (spread work w h q.1 q.2 e) w p - valueAt work w p| ≤ 16 * (share q p : ℤ) := by
  obtain ⟨right, hright⟩ : ∃ right, right = if q.1 + 1 < w then
    work.modify (q.2 * w + (q.1 + 1)) (· + (e * (7 : ℕ)).tdiv 16) else work := ⟨_, rfl⟩
  have h7 := @abs_give_le work w (q.1 + 1) q.2 p e 7 (q.1 + 1 < w) _ id hp he
  rw [← hright] at h7
  by_cases hlast : q.2 + 1 < h
  · obtain ⟨left, hleft⟩ : ∃ left, left = if 0 < q.1 then
      right.modify ((q.2 + 1) * w + (q.1 - 1)) (· + (e * (3 : ℕ)).tdiv 16) else right := ⟨_, rfl⟩
    obtain ⟨below, hbelow⟩ : ∃ below, below = if True then
      left.modify ((q.2 + 1) * w + q.1) (· + (e * (5 : ℕ)).tdiv 16) else left := ⟨_, rfl⟩
    have hspread : spread work w h q.1 q.2 e = if q.1 + 1 < w then
        below.modify ((q.2 + 1) * w + (q.1 + 1)) (· + (e * (1 : ℕ)).tdiv 16) else below := by
      rw [hbelow, hleft, hright]
      unfold spread
      simp only [if_pos hlast, if_true]
      rfl
    have h3 := @abs_give_le right w (q.1 - 1) (q.2 + 1) p e 3 (0 < q.1) _ (fun _ => by omega) hp he
    have h5 := @abs_give_le left w q.1 (q.2 + 1) p e 5 True _ (fun _ => hq) hp he
    have h1 := @abs_give_le below w (q.1 + 1) (q.2 + 1) p e 1 (q.1 + 1 < w) _ id hp he
    rw [← hleft] at h3
    rw [← hbelow] at h5
    rw [← hspread] at h1
    have htop := abs_sub_le (valueAt (spread work w h q.1 q.2 e) w p) (valueAt below w p)
      (valueAt work w p)
    have hmid := abs_sub_le (valueAt below w p) (valueAt left w p) (valueAt work w p)
    have hlow := abs_sub_le (valueAt left w p) (valueAt right w p) (valueAt work w p)
    have hshare : (if q.1 + 1 < w ∧ q.1 + 1 = p.1 ∧ q.2 = p.2 then 7 else 0) +
        (if 0 < q.1 ∧ q.1 - 1 = p.1 ∧ q.2 + 1 = p.2 then 3 else 0) +
        (if True ∧ q.1 = p.1 ∧ q.2 + 1 = p.2 then 5 else 0) +
        (if q.1 + 1 < w ∧ q.1 + 1 = p.1 ∧ q.2 + 1 = p.2 then 1 else 0) ≤ share q p := by
      unfold share
      refine Nat.add_le_add (Nat.add_le_add (Nat.add_le_add ?_ ?_) ?_) ?_ <;> split_ifs <;> omega
    omega
  · have hspread : spread work w h q.1 q.2 e = right := by
      rw [hright]
      unfold spread
      simp only [if_neg hlast]
      rfl
    have hshare : (if q.1 + 1 < w ∧ q.1 + 1 = p.1 ∧ q.2 = p.2 then 7 else 0) ≤ share q p := by
      unfold share
      split_ifs <;> omega
    rw [hspread]
    omega

/-- The error of a dot. -/
def errorOf (work : List ℤ) (w : ℕ) (threshold : UInt8) (q : ℕ × ℕ) : ℤ :=
  let old := max 0 (min 255 (valueAt work w q))
  old - if old < threshold.toNat then 0 else 255

theorem abs_errorOf_le {work : List ℤ} {w : ℕ} {threshold : UInt8} {q : ℕ × ℕ} :
    |errorOf work w threshold q| ≤ 255 := by
  unfold errorOf
  dsimp only
  rw [abs_le]
  split_ifs <;> omega

theorem working_snoc {r : RasterPayload} {scaled : Bytes} {w h : ℕ} {done : List (ℕ × ℕ)}
    {q : ℕ × ℕ} : working r scaled w h (done ++ [q]) = spread (working r scaled w h done) w h q.1 q.2
      (errorOf (working r scaled w h done) w r.threshold q) := by
  unfold working
  rw [List.foldl_append]
  rfl

/-- The value of a dot is at most its pixel and the shares that it was given. -/
theorem abs_working_sub_le {r : RasterPayload} {scaled : Bytes} {w h : ℕ} {p : ℕ × ℕ} (hp : p.1 < w)
    (done : List (ℕ × ℕ)) : (∀ q ∈ done, q.1 < w) →
    |valueAt (working r scaled w h done) w p - valueAt (working r scaled w h []) w p| ≤
      16 * ((done.map fun q => share q p).sum : ℤ) := by
  induction done using List.reverseRecOn with
  | nil => intro _; simp
  | append_singleton done q ih =>
    intro hdone
    have hrest := ih fun q' hq' => hdone q' (List.mem_append_left _ hq')
    have hgive := @abs_spread_sub_le (working r scaled w h done) w h q p _ (hdone q (by simp)) hp
      (@abs_errorOf_le (working r scaled w h done) w r.threshold q)
    rw [← working_snoc] at hgive
    have htri := abs_sub_le (valueAt (working r scaled w h (done ++ [q])) w p)
      (valueAt (working r scaled w h done) w p) (valueAt (working r scaled w h []) w p)
    rw [List.map_append, List.sum_append, List.map_singleton, List.sum_singleton, Nat.cast_add]
    omega

theorem length_spread {work : List ℤ} {w h x y : ℕ} {e : ℤ} :
    (spread work w h x y e).length = work.length := by
  unfold spread
  dsimp only
  split_ifs <;> simp only [List.length_modify]

theorem length_working {r : RasterPayload} {scaled : Bytes} {w h : ℕ} (done : List (ℕ × ℕ)) :
    (working r scaled w h done).length = scaled.length := by
  induction done using List.reverseRecOn with
  | nil => simp [working]
  | append_singleton done q ih => rw [working_snoc, length_spread, ih]

theorem nodup_positions {w h : ℕ} : (positions w h).Nodup := by
  unfold positions
  rw [List.nodup_flatMap]
  refine ⟨fun y _ => List.nodup_range.map fun a b hab => (Prod.ext_iff.mp hab).1, ?_⟩
  refine List.nodup_range.imp fun hne => ?_
  intro dot ha hb
  obtain ⟨x, -, rfl⟩ := List.mem_map.mp ha
  obtain ⟨x', -, he⟩ := List.mem_map.mp hb
  exact hne (Prod.ext_iff.mp he).2.symm

/-- **The working values stay small**, whatever the size of the image. -/
theorem working_bounds {r : RasterPayload} {scaled : Bytes} {w h : ℕ} {done : List (ℕ × ℕ)}
    (hlen : scaled.length = w * h) (hdone : done <+: positions w h) :
    ∀ v ∈ working r scaled w h done, -256 ≤ v ∧ v ≤ 511 := by
  intro v hv
  obtain ⟨i, hi, hget⟩ := List.mem_iff_getElem.mp hv
  rw [length_working, hlen] at hi
  have hw : 0 < w := Nat.pos_of_mul_pos_right (Nat.zero_lt_of_lt hi)
  have hindex : i / w * w + i % w = i := by rw [Nat.mul_comm]; exact Nat.div_add_mod i w
  have hvalue : valueAt (working r scaled w h done) w (i % w, i / w) = v := by
    unfold valueAt
    rw [hindex, ← hget, List.getD_eq_getElem?_getD, List.getElem?_eq_getElem]
    rfl
  have hstart : 0 ≤ valueAt (working r scaled w h []) w (i % w, i / w) ∧
      valueAt (working r scaled w h []) w (i % w, i / w) ≤ 255 := by
    unfold valueAt working
    rw [hindex, List.foldl_nil, List.getD_eq_getElem?_getD, List.getElem?_map]
    cases scaled[i]? with
    | none => simp
    | some b =>
      have := b.toNat_lt
      simp only [Option.map_some, Option.getD_some]
      omega
  have hshares := sum_share_le (p := (i % w, i / w)) (nodup_positions.sublist hdone.sublist)
  have hmoved := @abs_working_sub_le r scaled w h (i % w, i / w) (Nat.mod_lt i hw) done
    fun q hq => (mem_positions.mp (hdone.subset hq)).1
  rw [hvalue, abs_le] at hmoved
  omega

/-! ### The bits behind the last column -/

theorem disjoint_bits : ∀ a b : Fin 8, a ≠ b →
    ((0x80 >>> UInt8.ofNat a) &&& (0x80 >>> UInt8.ofNat b) : UInt8) = 0 := by
  decide

theorem and_of_disjoint {b m k : UInt8} (h : m &&& k = 0) : (b ||| m) &&& k = b &&& k := by
  apply UInt8.toBitVec_inj.mp
  have hbits : m.toBitVec &&& k.toBitVec = 0 := congrArg UInt8.toBitVec h
  rw [UInt8.toBitVec_and, UInt8.toBitVec_or, BitVec.and_or_distrib_right, hbits, UInt8.toBitVec_and]
  exact BitVec.or_zero

theorem dotBit_setDot {packed packed' : Bytes} {n x y : ℕ} {dot : ℕ × ℕ}
    (hset : setDot n packed dot = some packed') (hdot : dot.1 < x) (hx : x < 8 * n) :
    dotBit packed' n x y = dotBit packed n x y := by
  unfold setDot at hset
  dsimp only at hset
  split_ifs at hset with hlen
  cases hset
  have hindex := @index_inj n (dot.1 / 8) dot.2 (x / 8) y (by omega) (by omega)
  unfold dotBit
  rw [List.getD_eq_getElem?_getD, List.getD_eq_getElem?_getD, List.getElem?_modify]
  by_cases hsame : dot.2 * n + dot.1 / 8 = y * n + x / 8
  · -- another bit of the same byte
    obtain ⟨hcolumn, -⟩ := hindex.mp hsame
    have hbits := disjoint_bits ⟨dot.1 % 8, Nat.mod_lt _ (by omega)⟩ ⟨x % 8, Nat.mod_lt _ (by omega)⟩
      (by rw [Ne, Fin.mk.injEq]; omega)
    cases packed[y * n + x / 8]? with
    | none => rfl
    | some b =>
      simp only [hsame, if_true, Option.map_eq_map, Option.map_some, Option.getD_some]
      exact and_of_disjoint hbits
  · simp [hsame]

theorem dotBit_foldlM {n x y : ℕ} (hx : x < 8 * n) : ∀ {dots : List (ℕ × ℕ)} {packed data : Bytes},
    (∀ dot ∈ dots, dot.1 < x) → dots.foldlM (setDot n) packed = some data →
      dotBit data n x y = dotBit packed n x y
  | [], _, _, _, h => by rw [← Option.some.inj h]
  | dot :: dots, packed, data, hdots, h => by
    rw [List.foldlM_cons] at h
    obtain ⟨packed', hset, hrest⟩ := Option.bind_eq_some_iff.mp h
    have ih := dotBit_foldlM (y := y) hx (fun d hd => hdots d (List.mem_cons_of_mem _ hd)) hrest
    rw [ih]
    exact dotBit_setDot hset (hdots dot List.mem_cons_self) hx

/-- **The padding stays white.** -/
theorem dotBit_binarize {r : RasterPayload} {scaled data : Bytes} {w h x y : ℕ} (hx : w ≤ x)
    (hrow : x < 8 * bytesPerRow w) (hdata : binarize r scaled w h = some data) :
    dotBit data (bytesPerRow w) x y = 0 := by
  unfold binarize at hdata
  have hdots : ∀ dot ∈ blackDots r scaled w h, dot.1 < x := fun dot hd =>
    Nat.lt_of_lt_of_le (mem_positions.mp (mem_positions_of_blackDots hd)).1 hx
  rw [dotBit_foldlM hrow hdots hdata]
  unfold dotBit
  have hzero : (List.replicate (bytesPerRow w * h) (0 : UInt8)).getD (y * bytesPerRow w + x / 8) 0 =
      0 := by
    rw [List.getD_eq_getElem?_getD, List.getElem?_replicate]
    split_ifs <;> rfl
  rw [hzero]
  exact UInt8.zero_and

/-! ### The packed image -/

theorem length_resampleGray {gray scaled : Bytes} {srcW srcH dstW dstH : ℕ}
    (h : resampleGray gray srcW srcH dstW dstH = some scaled) : scaled.length = dstW * dstH := by
  unfold resampleGray at h
  obtain ⟨rows, hrows, h⟩ := Option.bind_eq_some_iff.mp h
  obtain rfl := Option.some.inj h
  have hrow : ∀ row ∈ rows, row.length = dstW := by
    intro row hrow
    obtain ⟨y, -, hy⟩ := mem_of_mapM hrows row hrow
    rw [length_of_mapM hy, List.length_range]
  rw [List.length_flatten, List.map_congr_left hrow, List.map_const', List.sum_replicate,
    length_of_mapM hrows, List.length_range]
  exact Nat.mul_comm dstH dstW

theorem packed_of_ok {r : RasterPayload} {w : ℕ} {image : PackedRaster}
    (h : packGrayscale r w = .ok image) : image.heightDots = fittedHeight r.width r.height w ∧
      image.bytesPerRow = bytesPerRow w ∧ 0 < r.width ∧ 0 < r.height ∧
        image.heightDots ≤ kMaxRasterRows ∧
        ∃ scaled, binarize r scaled w image.heightDots = some image.data := by
  unfold packGrayscale at h
  split_ifs at h with hzero
  dsimp only at h
  split_ifs at h with htall
  split at h
  · cases h
  · rename_i scaled hscaled
    split at h
    · cases h
    · rename_i data hdata
      cases h
      exact ⟨rfl, rfl, by omega, by omega, Nat.le_of_not_lt htall, scaled, hdata⟩

/-- Everything but the height is right for every image that is packed. -/
theorem sound_iff {r : RasterPayload} {w : ℕ} {image : PackedRaster}
    (h : packGrayscale r w = .ok image) :
    Sound r w image ↔ image.heightDots = max 1 (exactRows r.width r.height w) := by
  obtain ⟨hheight, hrow, hwidth, hsource, hmax, scaled, hdata⟩ := packed_of_ok h
  refine ⟨fun hs => hs.height, fun hexact => ⟨hexact, fun x hx => box_bounds hx hwidth,
    fun y hy => box_bounds hy hsource, ?_, ?_⟩⟩
  · intro scaled' hscaled done hdone v hv
    have := working_bounds (length_resampleGray hscaled) hdone v hv
    omega
  · intro y _ x hx hxrow
    rw [hrow] at hxrow ⊢
    exact dotBit_binarize hx hxrow hdata

/-! ### Which images are right -/

/-- What the arithmetic of the packer needs: an image that is refused before or after its height is
narrowed, or a height that the narrowing keeps and rows whose length does not overflow. -/
inductive Fits (r : RasterPayload) (w : ℕ) : Prop
  | empty (h : r.width = 0 ∨ r.height = 0 ∨ w = 0)
  | refused (h : kMaxRasterRows < exactRows r.width r.height w % 2 ^ 32)
  | exact (h : exactRows r.width r.height w < 2 ^ 32) (row : w + 7 < 2 ^ 32 ∨ Blank r w)

theorem fittedHeight_eq {width height w : ℕ} :
    fittedHeight width height w = max 1 (exactRows width height w % 2 ^ 32) := by
  unfold fittedHeight exactRows
  dsimp only
  split_ifs <;> omega

/-- The packer throws at empty images and at those too high for the field, and at no others. -/
theorem throws_iff {r : RasterPayload} {w : ℕ} :
    (∃ message, packGrayscale r w = .error (.encodingError message)) ↔
      (r.width = 0 ∨ r.height = 0 ∨ w = 0) ∨ kMaxRasterRows < fittedHeight r.width r.height w := by
  unfold packGrayscale
  dsimp only
  split_ifs with hzero htall
  · exact iff_of_true ⟨_, rfl⟩ (.inl hzero)
  · exact iff_of_true ⟨_, rfl⟩ (.inr htall)
  · refine iff_of_false ?_ fun h => h.elim hzero htall
    rintro ⟨message, h⟩
    split at h
    · cases h
    · split at h <;> cases h

/-- **Which images are packed right.** -/
theorem meets_iff {r : RasterPayload} {w : ℕ} (hw : w < 2 ^ 32)
    (hgray : r.gray.length = r.width * r.height) : Meets r w ↔ Fits r w := by
  have hfitted := @fittedHeight_eq r.width r.height w
  have hfield : kMaxRasterRows = 65535 := rfl
  unfold Meets
  rw [throws_iff]
  constructor
  · rintro ((hzero | htall) | ⟨image, hok, hsound⟩)
    · exact .empty hzero
    · refine .refused ?_
      omega
    · have hheight := (sound_iff hok).mp hsound
      obtain ⟨hrows, -, hwidth, hheight', hmax, -⟩ := packed_of_ok hok
      have hpacks := (pack_isSome_iff hw hwidth hheight').mp (by rw [hok]; rfl)
      exact .exact (by omega) hpacks.2.row
  · rintro (hzero | htall | ⟨hexact, hrow⟩)
    · exact .inl (.inl hzero)
    · refine .inl (.inr ?_)
      omega
    · by_cases hzero : r.width = 0 ∨ r.height = 0 ∨ w = 0
      · exact .inl (.inl hzero)
      by_cases htall : kMaxRasterRows < fittedHeight r.width r.height w
      · exact .inl (.inr htall)
      have hpacks : Packs r w := ⟨by omega, hgray.ge, hrow⟩
      obtain ⟨image, himage⟩ := Option.isSome_iff_exists.mp
        ((pack_isSome_iff hw (by omega) (by omega)).mpr ⟨by omega, hpacks⟩)
      have hok := ok_of_toOption himage
      refine .inr ⟨image, hok, (sound_iff hok).mpr ?_⟩
      obtain ⟨hrows, -⟩ := packed_of_ok hok
      rw [hrows, hfitted, Nat.mod_eq_of_lt hexact]

/-- Two columns on a paper of four dots. -/
theorem meets_twoColumns : Meets { gray := [0, 255], width := 2, height := 1 } 4 :=
  (meets_iff (by decide) (by decide)).mpr (.exact (by decide) (.inl (by decide)))

/-- A column of 65536 black pixels on a paper of as many dots: its height does not fit 32 bits. -/
def column : RasterPayload := { gray := List.replicate 65536 0, width := 1, height := 65536 }

theorem not_meets_column : ¬ Meets column 65536 := by
  have hrows : exactRows column.width column.height 65536 = 2 ^ 32 := by decide
  rintro (hthrows | ⟨image, hok, hsound⟩)
  · have hfitted := @fittedHeight_eq column.width column.height 65536
    rw [hrows] at hfitted
    rcases throws_iff.mp hthrows with hzero | htall
    · revert hzero
      decide
    · rw [hfitted] at htall
      revert htall
      decide
  · have hheight := hsound.height
    obtain ⟨-, -, -, -, hmax, -⟩ := packed_of_ok hok
    have hfield : kMaxRasterRows = 65535 := rfl
    rw [hrows] at hheight
    omega

end PrinterDriver.Core.Dithering
