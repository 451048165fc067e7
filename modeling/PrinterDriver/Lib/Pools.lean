import Mathlib.Algebra.GroupWithZero.Nat
import Mathlib.Data.List.Range
import PrinterDriver.Lib.Runs

/-! # Pools of workers

Workers draw indices from one shared counter. Each works on what it drew, files the result under a
lock, and tells of it outside the lock before it draws again; where the counter has passed the last
index, the worker stops. Any number of workers interleave in every way.

However they do, each index is filed once and told of once when all have stopped (`finished`), and no run
is longer than `left` of its first state (`length_add_left`). -/

namespace PrinterDriver.Lib.Pools

open PrinterDriver.Lib.Runs

variable {β τ : Type}

/-- A worker that has nothing left to tell draws next. -/
inductive Phase (τ : Type) where
  | telling (notices : List τ)
  | busy (index : ℕ)
  | stopped
  deriving DecidableEq

structure Pool (β τ : Type) where
  next : ℕ := 0
  workers : List (Phase τ)
  /-- The results with their indices, oldest first. -/
  filed : List (ℕ × β) := []
  told : List τ := []

inductive Move (β : Type) where
  | draw (w : ℕ)
  | file (w : ℕ) (result : β)
  | tell (w : ℕ)

/-- What is to be told of a result: of its index, and of how many are filed with it. -/
abbrev Notices (β τ : Type) : Type := ℕ → β → ℕ → List τ

variable (total : ℕ) (notices : Notices β τ)

/-- The pool before anything is drawn. -/
def start (n : ℕ) : Pool β τ := { workers := List.replicate n (.telling []) }

def step : Move β → Pool β τ → Option (Pool β τ)
  | .draw w, s =>
    match s.workers[w]? with
    | some (.telling []) => some
        { s with
          next := s.next + 1
          workers := s.workers.set w (if s.next < total then .busy s.next else .stopped) }
    | _ => none
  | .file w result, s =>
    match s.workers[w]? with
    | some (.busy i) => some
        { s with
          filed := s.filed ++ [(i, result)]
          workers := s.workers.set w (.telling (notices i result (s.filed.length + 1))) }
    | _ => none
  | .tell w, s =>
    match s.workers[w]? with
    | some (.telling (n :: rest)) => some
        { s with told := s.told ++ [n], workers := s.workers.set w (.telling rest) }
    | _ => none

/-! ### What a move does -/

variable {total : ℕ} {notices : Notices β τ} {s s' : Pool β τ} {w : ℕ}

theorem draw_eq_some (h : step total notices (.draw w) s = some s') :
    s.workers[w]? = some (.telling []) ∧ s' =
      { s with
        next := s.next + 1
        workers := s.workers.set w (if s.next < total then .busy s.next else .stopped) } := by
  rw [step] at h
  split at h
  · exact ⟨‹_›, (Option.some.inj h).symm⟩
  · cases h

theorem file_eq_some {result : β} (h : step total notices (.file w result) s = some s') :
    ∃ i, s.workers[w]? = some (.busy i) ∧ s' =
      { s with
        filed := s.filed ++ [(i, result)]
        workers := s.workers.set w (.telling (notices i result (s.filed.length + 1))) } := by
  rw [step] at h
  split at h
  · exact ⟨_, ‹_›, (Option.some.inj h).symm⟩
  · cases h

theorem tell_eq_some (h : step total notices (.tell w) s = some s') :
    ∃ n rest, s.workers[w]? = some (.telling (n :: rest)) ∧ s' =
      { s with told := s.told ++ [n], workers := s.workers.set w (.telling rest) } := by
  rw [step] at h
  split at h
  · exact ⟨_, _, ‹_›, (Option.some.inj h).symm⟩
  · cases h

/-! ### The books -/

/-- The indices that a worker is at. -/
def Phase.indices : Phase τ → List ℕ
  | .busy i => [i]
  | .telling _ | .stopped => []

/-- What a worker has still to tell. -/
def Phase.owed : Phase τ → List τ
  | .telling notices => notices
  | .busy _ | .stopped => []

/-- What is to be told of all results, in the order of their filing. -/
def announced (notices : Notices β τ) (filed : List (ℕ × β)) : List τ :=
  filed.zipIdx.flatMap fun x => notices x.1.1 x.1.2 (x.2 + 1)

/-- Every index below the counter is filed or worked on, once; what was filed has been told or is owed,
once; and a worker has stopped only when nothing is left to draw. -/
structure Books (total : ℕ) (notices : Notices β τ) (s : Pool β τ) : Prop where
  drawn : (s.workers.flatMap Phase.indices ++ s.filed.map Prod.fst).Perm
    (List.range (min s.next total))
  told : (s.told ++ s.workers.flatMap Phase.owed).Perm (announced notices s.filed)
  stopped : .stopped ∈ s.workers → total ≤ s.next

/-- One worker's part of a list goes from one value to another. -/
theorem perm_set {γ : Type} (f : Phase τ → List γ) {workers : List (Phase τ)} {p : Phase τ}
    (h : workers[w]? = some p) (q : Phase τ) : ∃ others,
      (workers.flatMap f).Perm (f p ++ others) ∧ ((workers.set w q).flatMap f).Perm (f q ++ others) := by
  obtain ⟨hw, hp⟩ := List.getElem?_eq_some_iff.mp h
  obtain ⟨front, back, hlist, -, hset⟩ := @List.exists_of_set _ _ q _ hw
  rw [hp] at hlist
  refine ⟨front.flatMap f ++ back.flatMap f, ?_, ?_⟩
  · rw [hlist, List.flatMap_append, List.flatMap_cons, ← List.append_assoc, ← List.append_assoc]
    exact List.perm_append_comm.append_right _
  · rw [hset, List.flatMap_append, List.flatMap_cons, ← List.append_assoc, ← List.append_assoc]
    exact List.perm_append_comm.append_right _

theorem announced_concat (notices : Notices β τ) (filed : List (ℕ × β)) (x : ℕ × β) :
    announced notices (filed ++ [x]) =
      announced notices filed ++ notices x.1 x.2 (filed.length + 1) := by
  unfold announced
  rw [List.zipIdx_append, List.flatMap_append]
  simp

theorem Books.step {m : Move β} (h : Books total notices s)
    (hs : step total notices m s = some s') : Books total notices s' := by
  cases m with
  | draw w =>
    obtain ⟨hw, rfl⟩ := draw_eq_some hs
    let p : Phase τ := if s.next < total then .busy s.next else .stopped
    obtain ⟨others, hbefore, hafter⟩ := perm_set Phase.indices hw p
    obtain ⟨debts, hdebts, hdebts'⟩ := perm_set Phase.owed hw p
    have howed : p.owed = [] := by
      unfold p
      split_ifs <;> rfl
    refine ⟨?_, ?_, fun hover => ?_⟩
    · have hothers : (others ++ s.filed.map Prod.fst).Perm (List.range (min s.next total)) :=
        (hbefore.symm.append_right _).trans h.drawn
      refine (hafter.append_right _).trans ?_
      rw [List.append_assoc]
      by_cases hlt : s.next < total
      · have hp : p.indices = [s.next] := by simp [p, hlt, Phase.indices]
        have hmin : min (s.next + 1) total = min s.next total + 1 := by omega
        have hnext : min s.next total = s.next := by omega
        show (p.indices ++ _).Perm (List.range (min (s.next + 1) total))
        rw [hp, hmin, List.range_succ, hnext]
        rw [hnext] at hothers
        exact (List.perm_append_comm.trans (hothers.append_right _))
      · have hp : p.indices = [] := by simp [p, hlt, Phase.indices]
        have hmin : min (s.next + 1) total = min s.next total := by omega
        show (p.indices ++ _).Perm (List.range (min (s.next + 1) total))
        rw [hp, hmin]
        exact hothers
    · rw [howed] at hdebts'
      refine ((hdebts'.trans hdebts.symm).append_left _).trans h.told
    · show total ≤ s.next + 1
      rcases List.mem_or_eq_of_mem_set hover with hmem | heq
      · have := h.stopped hmem
        omega
      · by_contra hlt
        have hlt : s.next < total := by omega
        rw [if_pos hlt] at heq
        cases heq
  | file w result =>
    obtain ⟨i, hw, rfl⟩ := file_eq_some hs
    let told := notices i result (s.filed.length + 1)
    obtain ⟨others, hbefore, hafter⟩ := perm_set Phase.indices hw (.telling told)
    obtain ⟨debts, hdebts, hdebts'⟩ := perm_set Phase.owed hw (.telling told)
    refine ⟨?_, ?_, fun hover => ?_⟩
    · show ((s.workers.set w (.telling told)).flatMap Phase.indices ++
        (s.filed ++ [(i, result)]).map Prod.fst).Perm _
      rw [List.map_append, ← List.append_assoc]
      have hmoved : (others ++ s.filed.map Prod.fst ++ [i]).Perm
          ([i] ++ others ++ s.filed.map Prod.fst) := by
        rw [List.append_assoc [i]]
        exact List.perm_append_comm
      exact ((hafter.append_right _).append_right _).trans
        (hmoved.trans ((hbefore.symm.append_right _).trans h.drawn))
    · show (s.told ++ (s.workers.set w (.telling told)).flatMap Phase.owed).Perm
        (announced notices (s.filed ++ [(i, result)]))
      rw [announced_concat]
      have hsplit : (s.told ++ (told ++ debts)).Perm (s.told ++ debts ++ told) := by
        rw [List.append_assoc]
        exact List.perm_append_comm.append_left _
      exact (hdebts'.append_left _).trans (hsplit.trans
        (((hdebts.symm.append_left _).trans h.told).append_right _))
    · rcases List.mem_or_eq_of_mem_set hover with hmem | heq
      · exact h.stopped hmem
      · cases heq
  | tell w =>
    obtain ⟨n, rest, hw, rfl⟩ := tell_eq_some hs
    obtain ⟨others, hbefore, hafter⟩ := perm_set Phase.indices hw (.telling rest)
    obtain ⟨debts, hdebts, hdebts'⟩ := perm_set Phase.owed hw (.telling rest)
    refine ⟨?_, ?_, fun hover => ?_⟩
    · exact ((hafter.trans hbefore.symm).append_right _).trans h.drawn
    · show (s.told ++ [n] ++ (s.workers.set w (.telling rest)).flatMap Phase.owed).Perm _
      rw [List.append_assoc]
      exact ((hdebts'.append_left [n]).append_left _).trans
        ((hdebts.symm.append_left _).trans h.told)
    · rcases List.mem_or_eq_of_mem_set hover with hmem | heq
      · exact h.stopped hmem
      · cases heq

theorem books_start (n : ℕ) : Books total notices (start n : Pool β τ) := by
  have hindices : ∀ n, (List.replicate n (.telling [] : Phase τ)).flatMap Phase.indices = [] := by
    intro n
    rw [List.flatMap_eq_nil_iff]
    intro p hp
    rw [List.eq_of_mem_replicate hp]
    rfl
  have howed : ∀ n, (List.replicate n (.telling [] : Phase τ)).flatMap Phase.owed = [] := by
    intro n
    rw [List.flatMap_eq_nil_iff]
    intro p hp
    rw [List.eq_of_mem_replicate hp]
    rfl
  refine ⟨?_, ?_, fun hover => ?_⟩
  · simp [start, hindices]
  · simp [start, howed, announced]
  · cases List.eq_of_mem_replicate hover

/-- **The books are kept**, in every run. -/
theorem books_of_reach {G : Move β → Pool β τ → Prop} {n : ℕ}
    (h : Reach (step total notices) G (start n) s) : Books total notices s :=
  h.invariant (books_start n) fun _ _ _ hb _ hs => hb.step hs

/-- **When all workers have stopped**, each index was filed once, and each result told of once. -/
theorem Books.finished (h : Books total notices s) (hover : ∀ p ∈ s.workers, p = .stopped)
    (hsome : s.workers ≠ []) :
    (s.filed.map Prod.fst).Perm (List.range total) ∧ s.told.Perm (announced notices s.filed) := by
  obtain ⟨p, hp⟩ := List.exists_mem_of_ne_nil _ hsome
  have htotal : total ≤ s.next := h.stopped (hover p hp ▸ hp)
  have hnone : ∀ {γ : Type} (f : Phase τ → List γ), f .stopped = [] → s.workers.flatMap f = [] := by
    intro γ f hf
    rw [List.flatMap_eq_nil_iff]
    intro q hq
    rw [hover q hq, hf]
  have hdrawn := h.drawn
  have htold := h.told
  rw [hnone Phase.indices rfl, Nat.min_eq_right htotal, List.nil_append] at hdrawn
  rw [hnone Phase.owed rfl, List.append_nil] at htold
  exact ⟨hdrawn, htold⟩

/-! ### Runs end -/

/-- How many moves a worker can make before it draws again, with at most `most` notices of a result. -/
def Phase.cost (most : ℕ) : Phase τ → ℕ
  | .telling notices => notices.length + 1
  | .busy _ => most + 2
  | .stopped => 0

/-- How many moves are left. -/
def left (most total : ℕ) (s : Pool β τ) : ℕ :=
  (s.workers.map (Phase.cost most)).sum + (total - s.next) * (most + 2)

theorem sum_set {f : Phase τ → ℕ} {workers : List (Phase τ)} {p : Phase τ}
    (h : workers[w]? = some p) (q : Phase τ) :
    ((workers.set w q).map f).sum + f p = (workers.map f).sum + f q := by
  obtain ⟨hw, hp⟩ := List.getElem?_eq_some_iff.mp h
  obtain ⟨front, back, hlist, -, hset⟩ := @List.exists_of_set _ _ q _ hw
  rw [hp] at hlist
  rw [hset, hlist]
  simp only [List.map_append, List.map_cons, List.sum_append, List.sum_cons]
  omega

/-- Every move uses one up. -/
theorem left_step {most : ℕ} (hmost : ∀ i b k, (notices i b k).length ≤ most) {m : Move β}
    (hs : step total notices m s = some s') : left most total s' + 1 ≤ left most total s := by
  cases m with
  | draw w =>
    obtain ⟨hw, rfl⟩ := draw_eq_some hs
    have hsum := @sum_set _ w (Phase.cost most) _ _ hw (if s.next < total then .busy s.next else .stopped)
    have hcost : (Phase.telling [] : Phase τ).cost most = 1 := rfl
    rw [hcost] at hsum
    unfold left
    dsimp only
    by_cases hlt : s.next < total
    · have hbusy : (Phase.busy s.next : Phase τ).cost most = most + 2 := rfl
      have hleft : (total - s.next) * (most + 2) =
          (total - (s.next + 1)) * (most + 2) + (most + 2) := by
        rw [show total - s.next = total - (s.next + 1) + 1 by omega, Nat.succ_mul]
      rw [if_pos hlt] at hsum ⊢
      omega
    · have hover : (Phase.stopped : Phase τ).cost most = 0 := rfl
      have hleft : total - (s.next + 1) = total - s.next := by omega
      rw [if_neg hlt] at hsum ⊢
      rw [hleft]
      omega
  | file w result =>
    obtain ⟨i, hw, rfl⟩ := file_eq_some hs
    have hlength := hmost i result (s.filed.length + 1)
    have hsum := @sum_set _ w (Phase.cost most) _ _ hw
      (.telling (notices i result (s.filed.length + 1)))
    have hbusy : (Phase.busy i : Phase τ).cost most = most + 2 := rfl
    have htelling : (Phase.telling (notices i result (s.filed.length + 1))).cost most =
        (notices i result (s.filed.length + 1)).length + 1 := rfl
    unfold left
    dsimp only
    omega
  | tell w =>
    obtain ⟨n, rest, hw, rfl⟩ := tell_eq_some hs
    have hsum := @sum_set _ w (Phase.cost most) _ _ hw (.telling rest)
    have hbefore : (Phase.telling (n :: rest)).cost most = rest.length + 2 := rfl
    have hafter : (Phase.telling rest).cost most = rest.length + 1 := rfl
    unfold left
    dsimp only
    omega

/-- **No run is longer than what is left at its start.** -/
theorem length_add_left {most : ℕ} (hmost : ∀ i b k, (notices i b k).length ≤ most) :
    ∀ {moves : List (Move β)} {s t : Pool β τ},
      replay (step total notices) (fun _ _ => True) moves s = some t →
        moves.length + left most total t ≤ left most total s
  | [], s, t, h => by
    obtain rfl := Option.some.inj h
    simp
  | m :: moves, s, t, h => by
    rw [replay, if_pos trivial] at h
    obtain ⟨s', hs, hrest⟩ := Option.bind_eq_some_iff.mp h
    have hstep := left_step hmost hs
    have ih := length_add_left hmost hrest
    rw [List.length_cons]
    omega

theorem left_start (most n : ℕ) :
    left most total (start n : Pool β τ) = n + total * (most + 2) := by
  simp [left, start, Phase.cost]

end PrinterDriver.Lib.Pools
