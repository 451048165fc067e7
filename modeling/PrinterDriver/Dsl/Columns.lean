import PrinterDriver.Dsl.Documents
import Mathlib.Algebra.BigOperators.Group.List.Basic
import Mathlib.Algebra.Order.Group.Nat
import Mathlib.Tactic.SplitIfs
import Mathlib.Algebra.GroupWithZero.Nat

/-! # The columns of a row

The cells of a row share the columns of its line: cells of a fixed width take theirs first, and the
flexible ones are handed what is left by weight. The shares come out of what is still left and not
out of the whole, so that they are proportional only while this makes no difference (`fair_iff`). -/

namespace PrinterDriver.Dsl.Columns

open PrinterDriver.Core.Types PrinterDriver.Dsl.Documents

/-! ### The plan -/

structure ColumnPlan where
  widths : List ℕ
  truncated : Bool := false
  deriving DecidableEq, Repr

/-- The columns that a cell asks for; dots and percent count in character cells. A flexible cell
asks for none. -/
def requested (charDots : ℕ) (width : CellWidth) : Option ℕ :=
  match width.unit with
  | .flex => none
  | .chars => some width.value.toNat
  | .dots | .percent => some (if charDots = 0 then 0 else width.value.toNat / charDots)

def weight (width : CellWidth) : ℕ := (max 1 width.value).toNat

/-- What the fixed cells are granted, with nothing yet for the flexible ones, and whether all asked
for what they got. -/
def grantFixed (charDots line : ℕ) : List CellWidth → ℕ → List (Option ℕ) × Bool
  | [], _ => ([], false)
  | width :: widths, fixedTotal =>
    match requested charDots width with
    | none =>
      let rest := grantFixed charDots line widths fixedTotal
      (none :: rest.1, rest.2)
    | some n =>
      let granted := min n (line - fixedTotal)
      let rest := grantFixed charDots line widths (fixedTotal + granted)
      (some granted :: rest.1, granted < n || rest.2)

/-- The columns of a flexible cell that is not the last: the product is computed in 64 bits, and a
cell that comes to nothing gets one column if one remains. -/
def share (totalWeight remaining weight : ℕ) : ℕ :=
  let granted := if totalWeight = 0 then 0 else remaining * weight % 2 ^ 64 / totalWeight
  let granted := min granted remaining
  if granted = 0 ∧ 0 < remaining then 1 else granted

/-- The last flexible cell absorbs the rounding remainder. -/
def grantFlex (totalWeight : ℕ) : List ℕ → ℕ → List ℕ
  | [], _ => []
  | [_], remaining => [remaining]
  | weight :: weights, remaining =>
    share totalWeight remaining weight ::
      grantFlex totalWeight weights (remaining - share totalWeight remaining weight)

/-- The flexible cells take their columns in order. -/
def fill : List (Option ℕ) → List ℕ → List ℕ
  | [], _ => []
  | some n :: widths, flex => n :: fill widths flex
  | none :: widths, flex => flex.headD 0 :: fill widths flex.tail

def flexible (widths : List CellWidth) : List CellWidth := widths.filter fun w => w.unit = .flex

def planColumns (widths : List CellWidth) (line charDots : ℕ) : ColumnPlan :=
  let fixed := grantFixed charDots line widths 0
  let weights := (flexible widths).map weight
  let remaining := line - (fixed.1.filterMap id).sum
  ⟨fill fixed.1 (grantFlex (weights.sum % 2 ^ 64) weights remaining), fixed.2⟩

/-! ### What a plan promises -/

/-- The widths of the cells that satisfy a condition. -/
def widthsOf (cells : List CellWidth) (plan : ColumnPlan) (p : CellWidth → Bool) : List ℕ :=
  ((cells.zip plan.widths).filter fun c => p c.1).map Prod.snd

/-- The exact share of a weight in `whole` columns, one at least. -/
def exactShare (whole totalWeight weight : ℕ) : ℕ := max 1 (whole * weight / totalWeight)

/-- The columns that the exact shares of the first `k` weights come to. -/
def taken (whole : ℕ) (weights : List ℕ) (k : ℕ) : ℕ :=
  ((weights.take k).map (exactShare whole weights.sum)).sum

/-- The line is filled, and each flexible cell but the last has its exact share, as long as the
shares fit. -/
structure Fair (cells : List CellWidth) (line : ℕ) (plan : ColumnPlan) : Prop where
  fits : plan.widths.length = cells.length ∧ plan.widths.sum ≤ line
  fills : flexible cells ≠ [] → plan.widths.sum = line
  shares : let weights := (flexible cells).map weight
    let whole := line - (widthsOf cells plan fun w => w.unit ≠ .flex).sum
    ∀ k, k + 1 < weights.length → taken whole weights (k + 1) ≤ whole →
      (widthsOf cells plan fun w => w.unit = .flex)[k]? =
        (weights[k]?).map (exactShare whole weights.sum)

/-! ### Fixed cells -/

variable {charDots line : ℕ} {t : Bool}

theorem length_grantFixed : ∀ {widths : List CellWidth} {total : ℕ},
    (grantFixed charDots line widths total).1.length = widths.length
  | [], _ => rfl
  | width :: widths, total => by
    unfold grantFixed
    split
    · simp [length_grantFixed]
    · simp [length_grantFixed]

/-- The fixed cells are granted no more than the line has. -/
theorem sum_grantFixed : ∀ {widths : List CellWidth} {total : ℕ}, total ≤ line →
    total + ((grantFixed charDots line widths total).1.filterMap id).sum ≤ line
  | [], _, h => h
  | width :: widths, total, h => by
    unfold grantFixed
    split
    · have ih := @sum_grantFixed widths total h
      simpa using ih
    · rename_i n _
      have ih := @sum_grantFixed widths (total + min n (line - total)) (by omega)
      have hsum : ((some (min n (line - total)) ::
          (grantFixed charDots line widths (total + min n (line - total))).1).filterMap id).sum =
          min n (line - total) +
            ((grantFixed charDots line widths (total + min n (line - total))).1.filterMap id).sum :=
        rfl
      dsimp only
      omega

/-- A cell is granted nothing yet just if it is flexible. -/
theorem isNone_grantFixed : ∀ {widths : List CellWidth} {total : ℕ},
    (grantFixed charDots line widths total).1.map Option.isNone =
      widths.map fun w => decide (w.unit = .flex)
  | [], _ => rfl
  | width :: widths, total => by
    have hflex : requested charDots width = none ↔ width.unit = .flex := by
      unfold requested
      cases width.unit <;> simp
    unfold grantFixed
    split
    · rename_i hnone
      simp [isNone_grantFixed, hflex.mp hnone]
    · rename_i n hsome
      have hne : width.unit ≠ .flex := fun h => by
        rw [hflex.mpr h] at hsome
        cases hsome
      simp [isNone_grantFixed, hne]

/-- Filling changes the flexible cells only. -/
theorem fill_spec : ∀ {cells : List CellWidth} {fixed : List (Option ℕ)} {flex : List ℕ},
    fixed.map Option.isNone = cells.map (fun w => decide (w.unit = .flex)) →
    flex.length = (flexible cells).length →
    (fill fixed flex).length = cells.length ∧
    (fill fixed flex).sum = (fixed.filterMap id).sum + flex.sum ∧
    widthsOf cells ⟨fill fixed flex, t⟩ (fun w => w.unit = .flex) = flex ∧
    widthsOf cells ⟨fill fixed flex, t⟩ (fun w => w.unit ≠ .flex) = fixed.filterMap id
  | [], [], [], _, _ => by simp [fill, widthsOf]
  | [], [], _ :: _, _, h => by simp [flexible] at h
  | [], _ :: _, _, h, _ => by simp at h
  | _ :: _, [], _, h, _ => by simp at h
  | c :: cells, none :: fixed, flex, hmap, hlen => by
    rw [List.map_cons, List.map_cons, List.cons.injEq] at hmap
    have hc : c.unit = .flex := by simpa using hmap.1
    unfold flexible at hlen
    rw [List.filter_cons_of_pos (by simpa using hc)] at hlen
    obtain ⟨g, flex, rfl⟩ : ∃ g flex', flex = g :: flex' :=
      List.exists_cons_of_length_pos (by rw [hlen]; exact Nat.succ_pos _)
    obtain ⟨h1, h2, h3, h4⟩ := @fill_spec cells fixed flex hmap.2 (by simpa [flexible] using hlen)
    unfold widthsOf at h3 h4 ⊢
    simp only [fill, List.headD_cons, List.tail_cons]
    refine ⟨by simp [h1], ?_, ?_, ?_⟩
    · simp only [List.sum_cons, h2, List.filterMap_cons, id]
      omega
    · simpa [hc] using h3
    · simpa [hc] using h4
  | c :: cells, some n :: fixed, flex, hmap, hlen => by
    rw [List.map_cons, List.map_cons, List.cons.injEq] at hmap
    have hc : c.unit ≠ .flex := by simpa using hmap.1.symm
    unfold flexible at hlen
    rw [List.filter_cons_of_neg (by simpa using hc)] at hlen
    obtain ⟨h1, h2, h3, h4⟩ := @fill_spec cells fixed flex hmap.2 (by simpa [flexible] using hlen)
    unfold widthsOf at h3 h4 ⊢
    simp only [fill]
    refine ⟨by simp [h1], ?_, ?_, ?_⟩
    · simp only [List.sum_cons, h2, List.filterMap_cons, id]
      omega
    · simpa [hc] using h3
    · simpa [hc] using h4

/-! ### Flexible cells -/

variable {total : ℕ}

theorem share_le {remaining w : ℕ} : share total remaining w ≤ remaining := by
  unfold share
  dsimp only
  split_ifs <;> omega

theorem grantFlex_cons {w w' : ℕ} {weights : List ℕ} {remaining : ℕ} :
    grantFlex total (w :: w' :: weights) remaining = share total remaining w ::
      grantFlex total (w' :: weights) (remaining - share total remaining w) := rfl

theorem length_grantFlex : ∀ {weights : List ℕ} {remaining : ℕ},
    (grantFlex total weights remaining).length = weights.length
  | [], _ => rfl
  | [_], _ => rfl
  | _ :: w :: weights, _ => by
    rw [grantFlex_cons, List.length_cons, length_grantFlex]
    rfl

/-- The flexible cells take all that is left. -/
theorem sum_grantFlex : ∀ {weights : List ℕ} {remaining : ℕ}, weights ≠ [] →
    (grantFlex total weights remaining).sum = remaining
  | [], _, h => absurd rfl h
  | [_], _, _ => by simp [grantFlex]
  | w :: w' :: weights, remaining, _ => by
    have hle := @share_le total remaining w
    rw [grantFlex_cons, List.sum_cons, sum_grantFlex (List.cons_ne_nil _ _)]
    omega

/-- The shares are those of `S` just if each, out of what the shares of `S` before it leave, is. -/
theorem grantFlex_iff {S : ℕ → ℕ} {whole : ℕ} : ∀ {weights : List ℕ} {p : ℕ}, p ≤ whole →
    ((∀ k, k + 1 < weights.length → p + ((weights.take (k + 1)).map S).sum ≤ whole →
      (grantFlex total weights (whole - p))[k]? = (weights[k]?).map S) ↔
    ∀ k, k + 1 < weights.length → p + ((weights.take (k + 1)).map S).sum ≤ whole →
      ∀ w, weights[k]? = some w → share total (whole - (p + ((weights.take k).map S).sum)) w = S w)
  | [], _, _ => by simp
  | [_], _, _ => by simp
  | w :: w' :: weights, p, hp => by
    have hsum : ∀ k, p + (((w :: w' :: weights).take (k + 1)).map S).sum =
        p + S w + (((w' :: weights).take k).map S).sum := by
      intro k
      rw [List.take_succ_cons, List.map_cons, List.sum_cons, Nat.add_assoc]
    by_cases hfirst : p + S w ≤ whole ∧ share total (whole - p) w = S w
    · -- the first has its share, and the rest starts from what it leaves
      obtain ⟨hfit, hshare⟩ := hfirst
      have ih := @grantFlex_iff S whole (w' :: weights) (p + S w) hfit
      constructor
      · intro h k hk hle v hv
        cases k with
        | zero =>
          obtain rfl := Option.some.inj hv
          simpa using hshare
        | succ k =>
          rw [hsum] at hle
          have hrest := ih.mp (fun j hj hle' => ?_) k (by simpa using hk) hle v hv
          · rw [hsum]
            exact hrest
          · have := h (j + 1) (by simpa using hj) (by rw [hsum]; exact hle')
            rw [grantFlex_cons, hshare] at this
            simpa [Nat.sub_sub] using this
      · intro h k hk hle
        rw [grantFlex_cons, hshare]
        cases k with
        | zero => rfl
        | succ k =>
          rw [hsum] at hle
          have hrest := ih.mpr (fun j hj hle' v hv => ?_) k (by simpa using hk) hle
          · rw [Nat.sub_sub]
            simpa using hrest
          · have := h (j + 1) (by simpa using hj) (by rw [hsum]; exact hle') v hv
            rw [hsum] at this
            exact this
    · by_cases hfit : p + S w ≤ whole
      · -- the first has another share
        have hother : share total (whole - p) w ≠ S w := fun h => hfirst ⟨hfit, h⟩
        have hzero : p + (((w :: w' :: weights).take (0 + 1)).map S).sum ≤ whole := by
          rw [hsum]
          simpa using hfit
        refine iff_of_false (fun h => hother ?_) fun h => hother ?_
        · have := h 0 (by simp) hzero
          rw [grantFlex_cons] at this
          simpa using this
        · simpa using h 0 (by simp) hzero w rfl
      · -- no share fits
        have hnone : ∀ k, ¬ p + (((w :: w' :: weights).take (k + 1)).map S).sum ≤ whole := by
          intro k hle
          rw [hsum] at hle
          omega
        exact iff_of_true (fun k _ hle => absurd hle (hnone k)) fun k _ hle => absurd hle (hnone k)

/-! ### Which plans are fair -/

/-- The columns that are left for the flexible cells. -/
def flexColumns (cells : List CellWidth) (line charDots : ℕ) : ℕ :=
  line - ((grantFixed charDots line cells 0).1.filterMap id).sum

/-- Each flexible cell but the last, as long as the exact shares fit, has the same share in what the
shares before it leave as in the whole. -/
def Even (cells : List CellWidth) (line charDots : ℕ) : Prop :=
  let weights := (flexible cells).map weight
  let whole := flexColumns cells line charDots
  ∀ k, k + 1 < weights.length → taken whole weights (k + 1) ≤ whole →
    ∀ w, weights[k]? = some w →
      share (weights.sum % 2 ^ 64) (whole - taken whole weights k) w =
        exactShare whole weights.sum w

/-- What a plan is made of: the fixed widths, and the shares of the flexible cells. -/
theorem planColumns_spec {cells : List CellWidth} :
    let weights := (flexible cells).map weight
    let whole := flexColumns cells line charDots
    let shares := grantFlex (weights.sum % 2 ^ 64) weights whole
    let plan := planColumns cells line charDots
    plan.widths.length = cells.length ∧ plan.widths.sum = line - whole + shares.sum ∧
      widthsOf cells plan (fun w => w.unit = .flex) = shares ∧
      whole = line - (widthsOf cells plan fun w => w.unit ≠ .flex).sum ∧ whole ≤ line := by
  intro weights whole shares plan
  have hfixed := @sum_grantFixed charDots line cells 0 (Nat.zero_le line)
  obtain ⟨hlen, hsum, hflex, hother⟩ := @fill_spec (grantFixed charDots line cells 0).2 cells
    (grantFixed charDots line cells 0).1 shares isNone_grantFixed
    (by rw [length_grantFlex, List.length_map])
  have hwhole : whole = line - ((grantFixed charDots line cells 0).1.filterMap id).sum := rfl
  refine ⟨hlen, ?_, hflex, ?_, Nat.sub_le _ _⟩
  · refine hsum.trans ?_
    omega
  · exact hwhole.trans (congrArg (fun l => line - l.sum) hother.symm)

/-- A plan has a width for every cell, and they fit the line. -/
theorem planColumns_fits {cells : List CellWidth} :
    (planColumns cells line charDots).widths.length = cells.length ∧
      (planColumns cells line charDots).widths.sum ≤ line := by
  obtain ⟨hlen, hsum, -, -, hwhole⟩ := @planColumns_spec charDots line cells
  refine ⟨hlen, ?_⟩
  rw [hsum]
  by_cases hempty : (flexible cells).map weight = []
  · rw [hempty]
    simp [grantFlex]
  · rw [sum_grantFlex hempty]
    omega

/-- **Which plans are fair.** -/
theorem fair_iff {cells : List CellWidth} {line charDots : ℕ} :
    Fair cells line (planColumns cells line charDots) ↔ Even cells line charDots := by
  obtain ⟨-, hsum, hflex, hwhole, hle⟩ := @planColumns_spec charDots line cells
  obtain ⟨weights, hweights⟩ : ∃ weights, weights = (flexible cells).map weight := ⟨_, rfl⟩
  obtain ⟨whole, hwhole'⟩ : ∃ whole, whole = flexColumns cells line charDots := ⟨_, rfl⟩
  have hstep := @grantFlex_iff (weights.sum % 2 ^ 64) (exactShare whole weights.sum) whole weights 0
    (Nat.zero_le whole)
  simp only [Nat.zero_add, Nat.sub_zero] at hstep
  rw [← hweights, ← hwhole'] at hflex hsum
  rw [← hwhole'] at hwhole hle
  have heven : Even cells line charDots ↔ ∀ k, k + 1 < weights.length →
      taken whole weights (k + 1) ≤ whole → ∀ w, weights[k]? = some w →
        share (weights.sum % 2 ^ 64) (whole - taken whole weights k) w =
          exactShare whole weights.sum w := by
    unfold Even
    rw [← hweights, ← hwhole']
  rw [heven]
  refine Iff.trans ⟨fun h => ?_, fun h => ⟨planColumns_fits, fun hne => ?_, ?_⟩⟩ hstep
  · have := h.shares
    dsimp only at this
    rwa [hflex, ← hwhole, ← hweights] at this
  · rw [hsum, sum_grantFlex (by rw [hweights]; simpa using hne)]
    omega
  · dsimp only
    rw [hflex, ← hwhole, ← hweights]
    exact h

example : (planColumns [{}, {}, {}] 30 12).widths = [10, 6, 14] := by decide

/-- Three cells of one weight on thirty columns: the second has six, and ten is its share. -/
theorem not_fair_thirds : ¬ Fair [{}, {}, {}] 30 (planColumns [{}, {}, {}] 30 12) := by
  intro h
  have hsecond := h.shares 1 (by decide) (by decide)
  revert hsecond
  decide

end PrinterDriver.Dsl.Columns
