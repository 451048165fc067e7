import PrinterDriver.Core.Transcode

/-! # What bytes do to paper

A reading of a byte stream by the rules of ESC/POS: a command of the encoder has its arguments, and every
other byte stands for itself, as a character, as a movement of the paper or as nothing. A command that is
not whole yet waits. -/

namespace PrinterDriver.Core.Paper

open PrinterDriver.Core.Types PrinterDriver.Core.Transcode

inductive Mark where
  | printed (c : UInt8)
  | moved
  deriving DecidableEq, Repr

/-- A byte of its own: a line feed or a form feed moves the paper, the other control bytes do nothing. -/
def ownMark (c : UInt8) : List Mark :=
  if c = 0x0A ∨ c = 0x0C then [.moved]
  else if (0x20 ≤ c ∧ c ≤ 0x7E) ∨ 0x80 ≤ c then [.printed c]
  else []

/-! ### Commands

How many bytes of what follows belong to a command, and what it does; `none` where there is none. -/

/-- A feed does something once its last argument is there. -/
def feeds (args : Bytes) : List Mark := if args = [] then [] else [.moved]

def escArguments : Bytes → Option (ℕ × List Mark)
  | [] => some (0, [])
  | second :: args =>
    if second = 0x40 then some (1, [])
    else if second = 0x74 ∨ second = 0x61 ∨ second = 0x45 ∨ second = 0x2D then some (2, [])
    else if second = 0x64 ∨ second = 0x4A then some (2, feeds args)
    else if second = 0x70 then some (4, [])
    else none

/-- `GS V`, with a feed or without. -/
def cutArguments : Bytes → ℕ × List Mark
  | [] => (2, [])
  | mode :: units => if mode = 65 ∨ mode = 66 then (3, feeds units) else (2, [])

/-- `GS v 0`, of the length that its header states. -/
def rasterArguments : Bytes → Option (ℕ × List Mark)
  | [] => some (1, [])
  | 0x30 :: _ :: xl :: xh :: yl :: yh :: image =>
    some (7 + le16 xl xh * le16 yl yh,
      if 0 < le16 xl xh * le16 yl yh ∧ le16 xl xh * le16 yl yh ≤ image.length then [.moved] else [])
  | 0x30 :: header => some (2 + header.length, [])
  | _ => none

/-- `GS (`, of the length that its header states. -/
def extendedArguments : Bytes → ℕ × List Mark
  | _ :: pl :: ph :: _ => (4 + le16 pl ph, [])
  | header => (1 + header.length, [])

def gsArguments : Bytes → Option (ℕ × List Mark)
  | [] => some (0, [])
  | second :: args =>
    if second = 0x21 ∨ second = 0x72 ∨ second = 0x61 ∨ second = 0x49 then some (2, [])
    else if second = 0x56 then some (cutArguments args)
    else if second = 0x76 then rasterArguments args
    else if second = 0x28 then some (extendedArguments args)
    else if second = 0x67 then
      if args = [] then some (1, []) else if args.head? = some 0x32 then some (5, []) else none
    else none

/-- `DLE EOT` and `DLE ENQ`. -/
def dleArguments : Bytes → Option (ℕ × List Mark)
  | [] => some (0, [])
  | second :: _ => if second = 0x04 ∨ second = 0x05 then some (2, []) else none

def arguments (first : UInt8) (rest : Bytes) : Option (ℕ × List Mark) :=
  if first = 0x1B then escArguments rest
  else if first = 0x1D then gsArguments rest
  else if first = 0x10 then dleArguments rest
  else none

/-! ### Reading -/

/-- Every turn takes a byte, so the bytes are fuel enough. -/
def marksFrom : ℕ → Bytes → List Mark
  | 0, _ => []
  | _ + 1, [] => []
  | fuel + 1, first :: rest =>
    match arguments first rest with
    | some (n, marks) => marks ++ marksFrom fuel (rest.drop n)
    | none => ownMark first ++ marksFrom fuel rest

/-- What the stream prints and how often it moves the paper. -/
def marks (data : Bytes) : List Mark := marksFrom data.length data

theorem marksFrom_fuel : ∀ {n m : ℕ} {data : Bytes}, data.length ≤ n → data.length ≤ m →
    marksFrom n data = marksFrom m data
  | 0, 0, _, _, _ => rfl
  | 0, m + 1, [], _, _ => rfl
  | n + 1, 0, [], _, _ => rfl
  | n + 1, m + 1, [], _, _ => rfl
  | n + 1, m + 1, first :: rest, hn, hm => by
    rw [List.length_cons] at hn hm
    have hdrop : ∀ k, (rest.drop k).length ≤ rest.length := fun k => by
      rw [List.length_drop]
      omega
    unfold marksFrom
    split
    · rename_i k ms _
      have := hdrop k
      rw [@marksFrom_fuel n m (rest.drop k) (by omega) (by omega)]
    · rw [@marksFrom_fuel n m rest (by omega) (by omega)]

theorem marks_nil : marks [] = [] := rfl

theorem marks_command {first : UInt8} {rest : Bytes} {n : ℕ} {ms : List Mark}
    (h : arguments first rest = some (n, ms)) :
    marks (first :: rest) = ms ++ marks (rest.drop n) := by
  have hlen : (rest.drop n).length ≤ rest.length := by
    rw [List.length_drop]
    omega
  show marksFrom (rest.length + 1) (first :: rest) = _
  simp only [marksFrom, h]
  rw [marks, marksFrom_fuel hlen (le_refl _)]

theorem marks_own {first : UInt8} {rest : Bytes} (h : arguments first rest = none) :
    marks (first :: rest) = ownMark first ++ marks rest := by
  show marksFrom (rest.length + 1) (first :: rest) = _
  simp only [marksFrom, h]
  rfl

/-- Commands that leave the paper alone, and are whole. -/
def Whole (x : Bytes) : Prop := ∀ y, marks (x ++ y) = marks y

theorem whole_nil : Whole [] := fun _ => rfl

theorem Whole.append {x y : Bytes} (hx : Whole x) (hy : Whole y) : Whole (x ++ y) := fun z => by
  rw [List.append_assoc, hx, hy]

theorem whole_flatten {xs : List Bytes} (h : ∀ x ∈ xs, Whole x) : Whole xs.flatten := by
  induction xs with
  | nil => exact whole_nil
  | cons x xs ih =>
    rw [List.flatten_cons]
    exact (h x List.mem_cons_self).append (ih fun y hy => h y (List.mem_cons_of_mem x hy))

/-! ### Bytes that are not printable -/

/-- Every byte from `0x80` on and every form feed is the operand of a `DLE EOT` or a `DLE ENQ`. -/
def operandsOnly : Bytes → Bool
  | 0x10 :: 0x04 :: _ :: rest => operandsOnly rest
  | 0x10 :: 0x05 :: _ :: rest => operandsOnly rest
  | c :: rest => c < 0x80 && c ≠ 0x0C && operandsOnly rest
  | [] => true

/-- Neither printable nor a line feed. -/
def nonPrinting (c : UInt8) : Bool := !(c = 0x0A || (0x20 ≤ c && c ≤ 0x7E))

theorem ownMark_eq_nil {c : UInt8} (h : nonPrinting c = true) :
    ownMark c = [] ↔ c < 0x80 ∧ c ≠ 0x0C := by
  have hall : ∀ k < 256, nonPrinting (UInt8.ofNat k) = true →
      (ownMark (UInt8.ofNat k) = [] ↔ UInt8.ofNat k < 0x80 ∧ UInt8.ofNat k ≠ 0x0C) := by
    decide +kernel
  have hc := hall c.toNat c.toNat_lt
  rw [UInt8.ofNat_toNat] at hc
  exact hc h

theorem ne_of_nonPrinting {c d : UInt8} (hc : nonPrinting c = true) (hd : nonPrinting d = false) :
    c ≠ d := by
  rintro rfl
  rw [hc] at hd
  cases hd

/-- The second byte of every `ESC` and `GS` command is printable. -/
theorem no_arguments {second : UInt8} (args : Bytes) (h : nonPrinting second = true) :
    escArguments (second :: args) = none ∧ gsArguments (second :: args) = none := by
  have hne : ∀ d, nonPrinting d = false → second ≠ d := fun d hd => ne_of_nonPrinting h hd
  constructor
  · simp only [escArguments, hne 0x40 rfl, hne 0x74 rfl, hne 0x61 rfl, hne 0x45 rfl, hne 0x2D rfl,
      hne 0x64 rfl, hne 0x4A rfl, hne 0x70 rfl, or_self, if_false]
  · simp only [gsArguments, hne 0x21 rfl, hne 0x72 rfl, hne 0x61 rfl, hne 0x49 rfl, hne 0x56 rfl,
      hne 0x76 rfl, hne 0x28 rfl, hne 0x67 rfl, or_self, if_false]

/-- Among bytes that are not printable only `DLE` begins a command. -/
theorem marks_nonPrinting {c : UInt8} {rest : Bytes} (hrest : ∀ b ∈ rest, nonPrinting b = true)
    (hno : ∀ second x more, c = 0x10 → rest = second :: x :: more → second ≠ 0x04 ∧ second ≠ 0x05) :
    marks (c :: rest) = ownMark c ++ marks rest := by
  rcases rest with _ | ⟨second, more⟩
  · by_cases hlead : c = 0x1B ∨ c = 0x1D ∨ c = 0x10
    · rcases hlead with rfl | rfl | rfl <;> rfl
    · rw [not_or, not_or] at hlead
      exact marks_own (by rw [arguments, if_neg hlead.1, if_neg hlead.2.1, if_neg hlead.2.2])
  · have hsecond : nonPrinting second = true := hrest second List.mem_cons_self
    obtain ⟨hesc, hgs⟩ := no_arguments more hsecond
    by_cases hdle : c = 0x10
    · subst hdle
      by_cases hcommand : second = 0x04 ∨ second = 0x05
      · rcases more with _ | ⟨x, more⟩
        · rcases hcommand with rfl | rfl <;> rfl
        · obtain ⟨h4, h5⟩ := hno second x more rfl rfl
          exact absurd hcommand (not_or.mpr ⟨h4, h5⟩)
      · exact marks_own (show dleArguments (second :: more) = none by
          rw [dleArguments, if_neg hcommand])
    · refine marks_own ?_
      unfold arguments
      split_ifs
      · exact hesc
      · exact hgs
      · rfl

theorem marks_eq_nil_iff {data : Bytes} (h : ∀ b ∈ data, nonPrinting b = true) :
    marks data = [] ↔ operandsOnly data = true := by
  fun_induction operandsOnly data with
  | case1 x rest ih =>
    have hread : marks (0x10 :: 0x04 :: x :: rest) = marks rest :=
      @marks_command 0x10 (0x04 :: x :: rest) 2 [] rfl
    rw [hread]
    exact ih fun b hb => h b (by simp [hb])
  | case2 x rest ih =>
    have hread : marks (0x10 :: 0x05 :: x :: rest) = marks rest :=
      @marks_command 0x10 (0x05 :: x :: rest) 2 [] rfl
    rw [hread]
    exact ih fun b hb => h b (by simp [hb])
  | case3 c rest h4 h5 ih =>
    have hc : nonPrinting c = true := h c List.mem_cons_self
    have hrest : ∀ b ∈ rest, nonPrinting b = true := fun b hb => h b (List.mem_cons_of_mem c hb)
    have hno : ∀ second x more, c = 0x10 → rest = second :: x :: more →
        second ≠ 0x04 ∧ second ≠ 0x05 := by
      rintro second x more rfl rfl
      exact ⟨fun he => h4 x more rfl (by rw [he]), fun he => h5 x more rfl (by rw [he])⟩
    rw [marks_nonPrinting hrest hno, List.append_eq_nil_iff, ownMark_eq_nil hc, ih hrest,
      Bool.and_eq_true, Bool.and_eq_true, decide_eq_true_eq, decide_eq_true_eq]
  | case4 => simp [marks_nil]

theorem operandsOnly_initial {data : Bytes} (h : operandsOnly data = true) {front : Bytes}
    (hf : front <+: data) : operandsOnly front = true := by
  fun_induction operandsOnly data generalizing front with
  | case1 x rest ih =>
    rcases List.prefix_cons_iff.mp hf with rfl | ⟨f, rfl, hf1⟩
    · rfl
    · rcases List.prefix_cons_iff.mp hf1 with rfl | ⟨f, rfl, hf2⟩
      · rfl
      · rcases List.prefix_cons_iff.mp hf2 with rfl | ⟨f, rfl, hf3⟩
        · rfl
        · show operandsOnly f = true
          exact ih h hf3
  | case2 x rest ih =>
    rcases List.prefix_cons_iff.mp hf with rfl | ⟨f, rfl, hf1⟩
    · rfl
    · rcases List.prefix_cons_iff.mp hf1 with rfl | ⟨f, rfl, hf2⟩
      · rfl
      · rcases List.prefix_cons_iff.mp hf2 with rfl | ⟨f, rfl, hf3⟩
        · rfl
        · show operandsOnly f = true
          exact ih h hf3
  | case3 c rest h4 h5 ih =>
    rcases List.prefix_cons_iff.mp hf with rfl | ⟨f, rfl, hf1⟩
    · rfl
    · obtain ⟨t, rfl⟩ := hf1
      have hno4 : ∀ x more, c = 0x10 → f = 0x04 :: x :: more → False := by
        rintro x more hc rfl
        exact h4 x (more ++ t) hc rfl
      have hno5 : ∀ x more, c = 0x10 → f = 0x05 :: x :: more → False := by
        rintro x more hc rfl
        exact h5 x (more ++ t) hc rfl
      rw [Bool.and_eq_true] at h
      rw [operandsOnly.eq_3 c f hno4 hno5, Bool.and_eq_true]
      exact ⟨h.1, ih h.2 (List.prefix_append f t)⟩
  | case4 =>
    rw [List.prefix_nil.mp hf]
    rfl

end PrinterDriver.Core.Paper
