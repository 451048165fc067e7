import PrinterDriver.Lib.Threads

/-! # Machines that follow another

A machine whose moves, as far as they meet a guard, are moves of another machine under a map of the
states (`Follows`). The threads run the same programs, so that every run that meets the guard is one
of the other machine (`Follows.reach`), and what is known of its runs is known of these. -/

namespace PrinterDriver.Lib.Simulations

open PrinterDriver.Lib.Programs PrinterDriver.Lib.Threads Machine

variable {E : Interface} {ι σ τ : Type} [DecidableEq ι]

/-- In the states of the invariant, the moves of `M` that meet `G` are moves of `N` that meet `H`,
under `f`, and they keep the invariant. -/
structure Follows (M : Machine E ι σ) (N : Machine E ι τ) (G : M.Guard) (H : N.Guard) (f : σ → τ)
    (I : σ → Prop) : Prop where
  serve : ∀ i c ch s a s', I s → G.serve i c ch s → M.serve i c ch s = some (a, s') →
    I s' ∧ ∃ ch', H.serve i c ch' (f s) ∧ N.serve i c ch' (f s) = some (a, f s')
  event : ∀ e s s', I s → G.event e s → M.event e s = some s' →
    I s' ∧ ∃ e', H.event e' (f s) ∧ N.event e' (f s) = some (f s')
  start : ∀ i t s p s', I s → M.start i t s = some (p, s') →
    I s' ∧ ∃ t', N.start i t' (f s) = some (p, f s')
  restart : ∀ r s s', I s → G.restart r s → M.restart r s = some s' →
    I s' ∧ ∃ r', H.restart r' (f s) ∧ N.restart r' (f s) = some (f s')

/-- The configuration of the other machine. -/
def image (f : σ → τ) (cfg : Config E ι σ) : Config E ι τ := ⟨cfg.prog, f cfg.state⟩

section Run
variable {M : Machine E ι σ} {N : Machine E ι τ} {G : M.Guard} {H : N.Guard} {f : σ → τ}
  {I : σ → Prop}

/-- A move is one of the other machine. -/
theorem Follows.step (F : Follows M N G H f I) {cfg cfg' : Config E ι σ} {m : M.Move}
    (hi : I cfg.state) (hm : G.Meets m cfg) (hs : M.step m cfg = some cfg') :
    I cfg'.state ∧ ∃ n : N.Move, H.Meets n (image f cfg) ∧
      N.step n (image f cfg) = some (image f cfg') := by
  cases m with
  | serve i ch =>
    obtain ⟨c, k, a, s', hp, ha, rfl⟩ := serve_eq_some hs
    simp only [Guard.Meets, hp] at hm
    obtain ⟨hi', ch', hg, ha'⟩ := F.serve i c ch _ a s' hi hm ha
    refine ⟨hi', .serve i ch', ?_, ?_⟩
    · simpa [Guard.Meets, image, hp] using hg
    · simp [Machine.step, image, hp, ha']
  | event e =>
    obtain ⟨s', he, rfl⟩ := Option.map_eq_some_iff.mp hs
    obtain ⟨hi', e', hg, he'⟩ := F.event e _ s' hi hm he
    exact ⟨hi', .event e', hg, by simp [Machine.step, image, he']⟩
  | start i t =>
    obtain ⟨p, s', hp, ha, rfl⟩ := start_eq_some hs
    obtain ⟨hi', t', ha'⟩ := F.start i t _ p s' hi ha
    exact ⟨hi', .start i t', trivial, by simp [Machine.step, image, hp, ha']⟩
  | restart r =>
    obtain ⟨s', hr, rfl⟩ := Option.map_eq_some_iff.mp hs
    obtain ⟨hi', r', hg, hr'⟩ := F.restart r _ s' hi hm hr
    exact ⟨hi', .restart r', hg, by simp [Machine.step, image, hr', idle]⟩

/-- **A run is one of the machine that is followed.** -/
theorem Follows.reach (F : Follows M N G H f I) {init : σ} (h0 : I init) {cfg : Config E ι σ}
    (h : Reach M G init cfg) : I cfg.state ∧ Reach N H (f init) (image f cfg) := by
  induction h with
  | init => exact ⟨h0, .init⟩
  | step m _ hm hs ih =>
    obtain ⟨hi', n, hn, hstep⟩ := F.step ih.1 hm hs
    exact ⟨hi', ih.2.step n hn hstep⟩

end Run

end PrinterDriver.Lib.Simulations
