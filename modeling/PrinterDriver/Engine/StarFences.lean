import PrinterDriver.Engine.StarEtx

/-! # Correlation bytes

A runtime numbers its `ESC GS ETX` fences with a counter of 16 bits, and every fence carries the two
bytes of its number. The counter starts at one and wraps to zero with the 65536th fence. Whatever
jobs the worker runs, and whatever the printer sends, nothing but the arming of such a fence moves the
counter. -/

namespace PrinterDriver.Engine.StarFences

open PrinterDriver.Lib.Programs PrinterDriver.Lib.Threads PrinterDriver.Core
  PrinterDriver.Core.Types PrinterDriver.Core.Profile PrinterDriver.Engine.Io
  PrinterDriver.Engine.Ops PrinterDriver.Engine.RunJob PrinterDriver.Engine.Session
open PrinterDriver.Engine.StarEtx (correlation correlation_eq_iff receipt)

/-- The two bytes of a number. -/
abbrev Pair : Type := UInt8 × UInt8

/-- The correlation bytes that a fence carries. -/
def pairOf (fence : Bytes) : Pair := (fence.getD 4 0, fence.getD 5 0)

/-- The pairs of the `ESC GS ETX` fences armed so far, oldest first. -/
structure Log where
  pairs : List Pair := []

inductive Act where
  | receive (data : Bytes)
  | disconnect

/-- Any printer: it may send any bytes at any time. -/
def anyPrinter (nonce : Bytes) : Device Log where
  hear _ c a _ w :=
    match c, a with
    | .armStarFence _ completion, fence =>
      if completion = .starEtb then w else { w with pairs := w.pairs ++ [pairOf fence] }
    | _, _ => w
  Event := Act
  act
    | .receive data, s, w => some ((s.onBytes nonce data).2, w)
    | .disconnect, s, w => some (s.onDisconnected, w)

/-- The jobs of one runtime. -/
abbrev runtime (nonce : Bytes) : Machine Worker Unit (State Log) :=
  session (anyPrinter nonce) JobRun.runJob

/-- The configurations of its runs. -/
abbrev Reached (nonce : Bytes) : Config Worker Unit (State Log) → Prop :=
  (runtime nonce).Reach (.none _) { device := {} }

/-- No pair is zero, and none occurs twice among any 65535 that follow one another. -/
def Distinguishable (pairs : List Pair) : Prop :=
  (0, 0) ∉ pairs ∧ ∀ i k p q, i < k → k < i + 65535 → pairs[i]? = some p → pairs[k]? = some q →
    p ≠ q

/-! ### The counter -/

/-- The counter is the number of fences, and their pairs are those of their numbers. -/
structure Sound (s : State Log) : Prop where
  sequence : s.io.starSequence = UInt16.ofNat s.device.pairs.length
  pairs : s.device.pairs = (List.range s.device.pairs.length).map correlation

theorem Sound.of_eq {s s' : State Log} (h : Sound s) (hio : s'.io.starSequence = s.io.starSequence)
    (hw : s'.device = s.device) : Sound s' := by
  refine ⟨?_, ?_⟩
  · rw [hio, hw]
    exact h.sequence
  · rw [hw]
    exact h.pairs

theorem pairOf_fence (n1 n2 : UInt8) : pairOf (Star.escGsEtxFence n1 n2) = (n1, n2) := rfl

/-- A fence is armed under the next number. -/
theorem Sound.armed {s : State Log} (h : Sound s) (nonce : Bytes) (part : Part)
    (completion : CompletionMechanism) :
    Sound { s with
      io := (s.io.armStarFence completion).2
      device := (anyPrinter nonce).hear s.task (.armStarFence part completion)
        (s.io.armStarFence completion).1 s.io s.device } := by
  by_cases hetb : completion = .starEtb
  · refine h.of_eq ?_ ?_
    · simp only [IoState.armStarFence, if_pos hetb]
    · simp only [anyPrinter, if_pos hetb]
  · have hnext : s.io.starSequence + 1 = UInt16.ofNat (s.device.pairs.length + 1) := by
      rw [h.sequence, UInt16.ofNat_add]
      rfl
    have hpair : pairOf (s.io.armStarFence completion).1 = correlation s.device.pairs.length := by
      simp only [IoState.armStarFence, if_neg hetb, pairOf_fence, hnext]
      rfl
    refine ⟨?_, ?_⟩
    · simp only [IoState.armStarFence, anyPrinter, if_neg hetb, List.length_append,
        List.length_singleton, hnext]
    · simp only [anyPrinter, if_neg hetb, List.length_append, List.length_singleton]
      rw [List.range_succ, List.map_append, ← h.pairs, hpair]
      rfl

/-- What the worker does under the lock does not move the counter, but for the arming of a fence. -/
theorem Sound.serve {s : State Log} {c : Call} {ch : Choice} {a : c.Answer} {io : IoState}
    (h : Sound s) (nonce : Bytes) (hs : serveIo c ch s.io = some (a, io)) :
    Sound { s with io := io, device := (anyPrinter nonce).hear s.task c a s.io s.device } := by
  cases c with
  | armStarFence part completion =>
    cases ch with
    | go =>
      obtain ⟨rfl, rfl⟩ := Prod.mk.inj (Option.some.inj hs)
      exact h.armed nonce part completion
    | _ => cases hs
  | _ => exact h.of_eq (serveIo_starSequence hs fun _ _ he => by cases he) rfl

theorem sound_of_reached {nonce : Bytes} {cfg : Config Worker Unit (State Log)}
    (h : Reached nonce cfg) : Sound cfg.state := by
  refine h.keeps ⟨rfl, rfl⟩ (fun _ c ch s a s' hs _ ha => ?_) (fun e s s' hs _ he => ?_)
    (fun _ _ s p s' hs ha => ?_) nofun
  · obtain ⟨⟨b, io⟩, hb, hr⟩ := Option.map_eq_some_iff.mp ha
    obtain ⟨rfl, rfl⟩ := Prod.mk.inj hr
    exact hs.serve nonce hb
  · rcases e with e | _
    · obtain ⟨⟨io, w⟩, hact, rfl⟩ := Option.map_eq_some_iff.mp he
      rcases e with data | _
      · obtain ⟨rfl, rfl⟩ := Prod.mk.inj (Option.some.inj hact)
        exact hs.of_eq (s.io.onBytes_starSequence nonce data) rfl
      · obtain ⟨rfl, rfl⟩ := Prod.mk.inj (Option.some.inj hact)
        exact hs.of_eq rfl rfl
    · cases he
      exact hs.of_eq rfl rfl
  · cases ha
    exact hs.of_eq rfl rfl

/-! ### The wrap -/

theorem getElem?_numbers {n i : ℕ} (h : i < n) :
    ((List.range n).map correlation)[i]? = some (correlation i) := by
  rw [List.getElem?_map, List.getElem?_range h]
  rfl

/-- The numbers of fences that are fewer than 65536 apart have different bytes. -/
theorem numbers_differ {n i k : ℕ} {p q : Pair} (hik : i < k) (hk : k < i + 65535)
    (hp : ((List.range n).map correlation)[i]? = some p)
    (hq : ((List.range n).map correlation)[k]? = some q) : p ≠ q := by
  have hkn : k < n := by
    have := (List.getElem?_eq_some_iff.mp hq).1
    rwa [List.length_map, List.length_range] at this
  rw [getElem?_numbers (by omega)] at hp
  rw [getElem?_numbers hkn] at hq
  intro he
  have := correlation_eq_iff.mp ((Option.some.inj hp).trans (he.trans (Option.some.inj hq).symm))
  omega

/-- Only the 65536th fence, and every 65536th after it, has the bytes zero. -/
theorem distinguishable_numbers (n : ℕ) :
    Distinguishable ((List.range n).map correlation) ↔ n < 65536 := by
  have hzero : correlation 65535 = (0, 0) := rfl
  constructor
  · intro h
    by_contra hn
    apply h.1
    rw [← hzero]
    exact List.mem_of_getElem? (getElem?_numbers (by omega))
  · intro hn
    refine ⟨fun hmem => ?_, fun i k p q hik hk hp hq => numbers_differ hik hk hp hq⟩
    obtain ⟨i, hi, he⟩ := List.mem_map.mp hmem
    have hlt := List.mem_range.mp hi
    have := correlation_eq_iff.mp (he.trans hzero.symm)
    omega

/-- **The correlation bytes tell fences from one another and from zero until the counter wraps.** -/
theorem distinguishable_iff (nonce : Bytes) {cfg : Config Worker Unit (State Log)}
    (h : Reached nonce cfg) :
    Distinguishable cfg.state.device.pairs ↔ cfg.state.device.pairs.length < 65536 := by
  rw [(sound_of_reached h).pairs, distinguishable_numbers, List.length_map, List.length_range]

/-- A receipt whose fence does not reach the printer. -/
def fenceLost : List Choice :=
  [.connected true, .go, .go, .go, .go, .wrote ⟨true, 0⟩, .go, .wrote ⟨false, 0⟩, .go, .go, .go]

theorem drive_fenceLost (s : State Log) :
    ∃ s', Machine.drive (runtime []) () fenceLost receipt.1.runJob s = some (.ret (), s') ∧
      s'.device.pairs = s.device.pairs ++ [pairOf (s.io.armStarFence .starEscGsEtx).1] :=
  ⟨_, rfl, rfl⟩

/-- A runtime may arm any number of fences. -/
theorem exists_armed (n : ℕ) : ∃ cfg : Config Worker Unit (State Log),
    Reached [] cfg ∧ cfg.prog () = .ret () ∧ cfg.state.device.pairs.length = n := by
  induction n with
  | zero => exact ⟨_, .init, rfl, rfl⟩
  | succ n ih =>
    obtain ⟨cfg, hreach, hidle, hlength⟩ := ih
    let begun : State Log := { cfg.state with task := cfg.state.task + 1 }
    let started : Config Worker Unit (State Log) :=
      ⟨Function.update cfg.prog () receipt.1.runJob, begun⟩
    have hstart : (runtime []).step (.start () receipt.1) cfg = some started := by
      simp only [Machine.step, hidle]
      rfl
    have hstarted := hreach.step _ (Machine.Guard.none_meets _ _) hstart
    obtain ⟨s', hdrive, hpairs⟩ := drive_fenceLost begun
    have hprog : started.prog () = receipt.1.runJob := by simp [started]
    rw [← hprog] at hdrive
    obtain ⟨cfg', hreach', hidle', hs', -⟩ := Machine.reach_of_drive hstarted hdrive
    refine ⟨cfg', hreach', hidle', ?_⟩
    rw [hs', hpairs, List.length_append, List.length_singleton, hlength]

theorem third_distinguishable : ∃ cfg : Config Worker Unit (State Log),
    Reached [] cfg ∧ cfg.state.device.pairs.length = 3 ∧
      Distinguishable cfg.state.device.pairs := by
  obtain ⟨cfg, hreach, -, hlength⟩ := exists_armed 3
  exact ⟨cfg, hreach, hlength, (distinguishable_iff [] hreach).mpr (by omega)⟩

/-- The 65536th fence carries the bytes zero. -/
theorem zero_of_wrap : ¬ ∀ (nonce : Bytes) (cfg : Config Worker Unit (State Log)),
    Reached nonce cfg → Distinguishable cfg.state.device.pairs := by
  intro hall
  obtain ⟨cfg, hreach, -, hlength⟩ := exists_armed 65536
  have hd := hall [] cfg hreach
  rw [(sound_of_reached hreach).pairs, distinguishable_numbers, hlength] at hd
  exact Nat.lt_irrefl _ hd

end PrinterDriver.Engine.StarFences
