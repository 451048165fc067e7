import Mathlib.Data.List.Basic

/-! # Streams of frames of one length

A stream that is a list of frames, all of one length, read by position: position `i` lies in frame
`i / n` at offset `i % n`. -/

namespace PrinterDriver.Lib.Frames

variable {α : Type}

theorem length_flatten {n : ℕ} :
    ∀ {L : List (List α)}, (∀ l ∈ L, l.length = n) → L.flatten.length = L.length * n
  | [], _ => by simp
  | l :: L, h => by
    rw [List.flatten_cons, List.length_append, List.length_cons, h l (by simp),
      length_flatten fun l hl => h l (by simp [hl]), Nat.succ_mul, Nat.add_comm]

/-- The item at a position of the stream. -/
theorem getElem?_flatten {n : ℕ} (hn : 0 < n) :
    ∀ {L : List (List α)}, (∀ l ∈ L, l.length = n) →
      ∀ i, L.flatten[i]? = L[i / n]?.bind fun l => l[i % n]?
  | [], _, i => by simp
  | l :: L, h, i => by
    have hl : l.length = n := h l (by simp)
    rw [List.flatten_cons]
    by_cases hi : i < n
    · rw [List.getElem?_append_left (by omega), Nat.div_eq_of_lt hi, Nat.mod_eq_of_lt hi]
      rfl
    · have hd : i / n = (i - n) / n + 1 := by
        rw [Nat.div_eq_sub_div hn (by omega)]
      rw [List.getElem?_append_right (by omega), hl, hd, List.getElem?_cons_succ,
        Nat.mod_eq_sub_mod (by omega)]
      exact getElem?_flatten hn (fun l hl => h l (by simp [hl])) (i - n)

/-- The whole frame at a boundary. -/
theorem take_drop_flatten {n : ℕ} (hn : 0 < n) {L : List (List α)} (h : ∀ l ∈ L, l.length = n)
    {m : ℕ} {l : List α} (hl : L[m]? = some l) : (L.flatten.drop (m * n)).take n = l := by
  have hlen : l.length = n := h l (List.mem_of_getElem? hl)
  refine List.ext_getElem? fun i => ?_
  by_cases hi : i < n
  · rw [List.getElem?_take_of_lt hi, List.getElem?_drop, getElem?_flatten hn h,
      show (m * n + i) / n = m by rw [Nat.mul_comm, Nat.mul_add_div hn, Nat.div_eq_of_lt hi]; rfl,
      show (m * n + i) % n = i by rw [Nat.mul_comm, Nat.mul_add_mod, Nat.mod_eq_of_lt hi], hl]
    rfl
  · rw [List.getElem?_eq_none (by rw [List.length_take]; omega),
      List.getElem?_eq_none (by omega)]

/-! ### A reader

Of the first `d` items of the stream a reader that has taken the whole frames holds the rest. -/

/-- The items past the last boundary. -/
def held (n : ℕ) (L : List (List α)) (d : ℕ) : List α := (L.flatten.take d).drop (d / n * n)

variable {n : ℕ} {L : List (List α)} {d : ℕ}

theorem held_boundary (h : d % n = 0) : held n L d = [] := by
  have hd : d / n * n = d := Nat.div_mul_cancel (Nat.dvd_of_mod_eq_zero h)
  rw [held, hd]
  exact List.drop_of_length_le (List.length_take_le _ _)

theorem held_append {L' : List (List α)} (hd : d ≤ L.flatten.length) :
    held n (L ++ L') d = held n L d := by
  rw [held, held, List.flatten_append, List.take_append_of_le_length hd]

section Item
variable (hn : 0 < n) (hL : ∀ l ∈ L, l.length = n) {a : α} (ha : L.flatten[d]? = some a)
include ha

theorem held_snoc : held n L d ++ [a] = (L.flatten.take (d + 1)).drop (d / n * n) := by
  obtain ⟨hlt, rfl⟩ := List.getElem?_eq_some_iff.mp ha
  have hle := Nat.div_mul_le_self d n
  rw [held, List.take_succ_eq_append_getElem hlt, List.drop_append_of_le_length]
  rw [List.length_take]
  omega

theorem held_snoc_length : (held n L d ++ [a]).length = d % n + 1 := by
  have hlt := (List.getElem?_eq_some_iff.mp ha).1
  have := Nat.div_add_mod' d n
  rw [held_snoc ha, List.length_drop, List.length_take]
  omega

/-- Short of a boundary the item is held. -/
theorem held_succ (h : (d + 1) % n ≠ 0) : held n L (d + 1) = held n L d ++ [a] := by
  rw [held_snoc ha, held, Nat.succ_div_of_not_dvd fun hd => h (Nat.mod_eq_zero_of_dvd hd)]

include hn hL

/-- The first of the held items opens a frame. -/
theorem held_snoc_head {b : α} (h : (held n L d ++ [a])[0]? = some b) :
    ∃ l ∈ L, l[0]? = some b := by
  have hle := Nat.div_mul_le_self d n
  rw [held_snoc ha, List.getElem?_drop, List.getElem?_take_of_lt (by omega),
    getElem?_flatten hn hL, Nat.add_zero, Nat.mul_mod_left, Nat.mul_div_cancel _ hn] at h
  obtain ⟨l, hl, h0⟩ := Option.bind_eq_some_iff.mp h
  exact ⟨l, List.mem_of_getElem? hl, h0⟩

/-- At a boundary a frame is whole. -/
theorem held_snoc_frame (h : (d + 1) % n = 0) : L[d / n]? = some (held n L d ++ [a]) := by
  have hdvd := Nat.dvd_of_mod_eq_zero h
  have hd : d + 1 = d / n * n + n := by
    have := Nat.div_mul_cancel hdvd
    rw [Nat.succ_div_of_dvd hdvd, Nat.succ_mul] at this
    exact this.symm
  have hget := getElem?_flatten hn hL d
  rw [ha] at hget
  obtain ⟨l, hl, _⟩ := Option.bind_eq_some_iff.mp hget.symm
  rw [held_snoc ha, hd, List.drop_take, Nat.add_sub_cancel_left, take_drop_flatten hn hL hl, hl]

end Item

end PrinterDriver.Lib.Frames
