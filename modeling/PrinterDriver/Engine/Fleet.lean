import PrinterDriver.Engine.EscposRuns
import PrinterDriver.Engine.StarRuns
import PrinterDriver.Engine.Printer
import PrinterDriver.Engine.Markers

/-! # The printers of a process and the tokens they share

Any number of workers, each with its own state under the io lock, and one `MarkerAllocator`. What the
printers send is arbitrary: any bytes may arrive at any worker at any moment. Every lease is
remembered with the number of slots drawn before it, and every worker remembers the tokens echoed
to it since its job began. -/

namespace PrinterDriver.Engine.Fleet

open PrinterDriver.Lib.Programs PrinterDriver.Lib.Threads PrinterDriver.Core.Types
  PrinterDriver.Core.Profile PrinterDriver.Core.EscposParser PrinterDriver.Engine.Io
  PrinterDriver.Engine.Ops PrinterDriver.Engine.RunJob PrinterDriver.Engine.Session
  PrinterDriver.Engine.QuietCalls PrinterDriver.Engine.Markers

open Prog

/-- A pair of tokens given to a job; `slot` slots were drawn before its own. -/
structure Lease (ι : Type) where
  printer : ι
  slot : ℕ
  pair : MarkerPair

/-- A printer's runtime. -/
structure Station (ι : Type) where
  io : IoState := {}
  /-- The job begun last; none while the worker refreshes the status. -/
  job : Option JobRun := none
  lease : Option (Lease ι) := none
  /-- The tokens of the echoes read since the job began. -/
  heard : List Bytes := []

structure State (ι : Type) where
  markers : MarkerAllocator
  drawn : ℕ := 0
  /-- Newest first. -/
  leases : List (Lease ι) := []
  stations : ι → Station ι := fun _ => {}

/-- The tokens of the echoes among the events. -/
def echoes (es : List ParsedEvent) : List Bytes :=
  es.filterMap fun
    | .gsHAck token => some token
    | _ => none

namespace Station

variable {ι : Type}

def receive (nonce : Bytes) (st : Station ι) (data : Bytes) : Station ι :=
  { st with
    io := (st.io.onBytes nonce data).2
    heard := if st.io.starMode then st.heard else st.heard ++ echoes (st.io.parser.feed data).1 }

/-- A new job has heard nothing. -/
def hear (st : Station ι) : Call → Station ι
  | .io .beginJobIo => { st with heard := [] }
  | _ => st

/-- A call that needs nothing but this runtime. -/
def serve (st : Station ι) (c : Call) (ch : Choice) : Option (c.Answer × Station ι) :=
  (serveIo c ch st.io).map fun r => (r.1, { st.hear c with io := r.2 })

end Station

inductive Event (ι : Type) where
  | receive (i : ι) (data : Bytes)
  | disconnect (i : ι)
  | stop (i : ι)

abbrev AnyTask : Type := Printer.Task fun _ => True

/-- The job of a task. -/
def taskJob : AnyTask → Option JobRun
  | .job j _ => some j
  | .refresh _ => none

section Machine
variable {ι : Type} [DecidableEq ι]

namespace State

def set (s : State ι) (i : ι) (st : Station ι) : State ι :=
  { s with stations := Function.update s.stations i st }

/-- No token pair is free when this is `none`: an exception, which ends the process. -/
def acquire (s : State ι) (i : ι) : Option (MarkerPair × State ι) :=
  s.markers.acquire.map fun r =>
    let drawn := s.drawn + (r.2.next - s.markers.next).toNat
    let lease : Lease ι := ⟨i, drawn - 1, r.1⟩
    (r.1, { s.set i { s.stations i with lease := some lease } with
      markers := r.2, drawn := drawn, leases := lease :: s.leases })

def release (s : State ι) (i : ι) (pair : MarkerPair) : State ι :=
  { s.set i { s.stations i with lease := none } with markers := s.markers.release pair }

end State

/-- The workers of a process. -/
def fleet (ι : Type) [DecidableEq ι] : Machine Worker ι (State ι) where
  Choice := Choice
  Event := Event ι
  Task := AnyTask
  Restart := Empty
  serve i
    | .acquireTokens, .go, s => s.acquire i
    | .acquireTokens, _, _ => none
    | .releaseTokens pair, .go, s => some ((), s.release i pair)
    | .releaseTokens _, _, _ => none
    | c, ch, s => ((s.stations i).serve c ch).map fun r => (r.1, s.set i r.2)
  event
    | .receive i data, s => some (s.set i ((s.stations i).receive s.markers.nonce data))
    | .disconnect i, s =>
      some (s.set i { s.stations i with io := (s.stations i).io.onDisconnected })
    | .stop i, s =>
      some (s.set i { s.stations i with io := { (s.stations i).io with stopping := true } })
  start i t s := some (t.program, s.set i { s.stations i with job := taskJob t })
  restart := nofun

/-- A process that has just started. -/
def begin (ι : Type) (nonce : Bytes) : State ι := { markers := { nonce := nonce } }

end Machine

/-! ### What the leases are -/

/-- Every lease is that of a slot drawn, no two of one slot; a held lease is in use, and shares no
token with a later one. -/
structure Sound {ι : Type} (nonce : Bytes) (s : State ι) : Prop where
  ours : s.markers.nonce = nonce
  next : s.markers.next = UInt32.ofNat s.drawn
  drawn : ∀ l ∈ s.leases, l.slot < s.drawn ∧ l.pair = pairAt nonce (UInt32.ofNat l.slot)
  ordered : s.leases.Pairwise fun l l' => l'.slot < l.slot
  held : ∀ i l, (s.stations i).lease = some l → l ∈ s.leases ∧ l.printer = i ∧
    l.pair.printToken ∈ s.markers.inUse ∧ l.pair.cutToken ∈ s.markers.inUse
  later : ∀ i l, (s.stations i).lease = some l → ∀ l' ∈ s.leases, l.slot < l'.slot →
    Apart l.pair l'.pair
  filed : ∀ i, ∀ t ∈ (s.stations i).io.gshTokens, t ∈ (s.stations i).heard

section Sound
variable {ι : Type} {nonce : Bytes} {s : State ι} {i : ι}

theorem sound_begin : Sound nonce (begin ι nonce) where
  ours := rfl
  next := rfl
  drawn := by simp [begin]
  ordered := .nil
  held := by simp [begin]
  later := by simp [begin]
  filed := by simp [begin]

/-- Leases of one slot are one lease. -/
theorem Sound.unique (h : Sound nonce s) {l l' : Lease ι} (hl : l ∈ s.leases) (hl' : l' ∈ s.leases)
    (he : l.slot = l'.slot) : l = l' := by
  have hall := List.Pairwise.forall_of_forall_of_flip (l := s.leases)
    (R := fun a b : Lease ι => a.slot = b.slot → a = b) (fun _ _ _ => rfl)
    (h.ordered.imp fun hab he => by omega) (h.ordered.imp fun hab he => by omega)
  exact hall hl hl' he

/-- The leases that two workers hold share no token. -/
theorem Sound.apart (h : Sound nonce s) {j : ι} {l l' : Lease ι} (hij : i ≠ j)
    (hl : (s.stations i).lease = some l) (hl' : (s.stations j).lease = some l') :
    Apart l.pair l'.pair := by
  obtain ⟨hm, hp, -⟩ := h.held i l hl
  obtain ⟨hm', hp', -⟩ := h.held j l' hl'
  rcases lt_trichotomy l.slot l'.slot with hlt | heq | hgt
  · exact h.later i l hl l' hm' hlt
  · exact absurd (hp.symm.trans ((congrArg Lease.printer (h.unique hm hm' heq)).trans hp')) hij
  · exact (h.later j l' hl' l hm hgt).symm

variable [DecidableEq ι]

/-- What changes at one runtime besides its lease. -/
theorem Sound.set (h : Sound nonce s) {st : Station ι} (hl : st.lease = (s.stations i).lease)
    (hf : ∀ t ∈ st.io.gshTokens, t ∈ st.heard) : Sound nonce (s.set i st) := by
  have hlease : ∀ j, ((s.set i st).stations j).lease = (s.stations j).lease := by
    intro j
    by_cases hj : j = i
    · subst hj
      simp [State.set, hl]
    · simp [State.set, hj]
  refine ⟨h.ours, h.next, h.drawn, h.ordered, fun j l hj => ?_, fun j l hj => ?_, fun j => ?_⟩
  · exact h.held j l ((hlease j).symm.trans hj)
  · exact h.later j l ((hlease j).symm.trans hj)
  · by_cases hj : j = i
    · subst hj
      simpa [State.set] using hf
    · simpa [State.set, hj] using h.filed j

/-- A lease is that of the last slot drawn, and none of its tokens was in use. -/
theorem Sound.acquire_spec (h : Sound nonce s) {pair : MarkerPair} {s' : State ι}
    (ha : s.acquire i = some (pair, s')) :
    ∃ slot, s.drawn ≤ slot ∧ pair = pairAt nonce (UInt32.ofNat slot) ∧
      pair.printToken ∉ s.markers.inUse ∧ pair.cutToken ∉ s.markers.inUse ∧
      s' = { s.set i { s.stations i with lease := some ⟨i, slot, pair⟩ } with
        markers := ⟨nonce, UInt32.ofNat (slot + 1),
          pair.printToken :: pair.cutToken :: s.markers.inUse⟩
        drawn := slot + 1
        leases := ⟨i, slot, pair⟩ :: s.leases } := by
  obtain ⟨⟨p, a⟩, hacq, he⟩ := Option.map_eq_some_iff.mp ha
  obtain ⟨k, hk, hp, ha', hfree⟩ := MarkerAllocator.acquireWithin_spec hacq
  have hspace : kTokenSequenceSpace.toNat / 2 = 4418 := rfl
  have hdraws : (a.next - s.markers.next).toNat = k + 1 := by
    rw [ha', UInt32.add_comm, UInt32.add_sub_cancel, UInt32.toNat_ofNat']
    omega
  simp only [Prod.mk.injEq] at he
  obtain ⟨rfl, rfl⟩ := he
  refine ⟨s.drawn + k, by omega, ?_, hfree.1, hfree.2, ?_⟩
  · rw [hp, h.ours, h.next, ← UInt32.ofNat_add]
  · simp only [hdraws, ← Nat.add_assoc, Nat.add_sub_cancel]
    rw [ha', h.ours, h.next, ← UInt32.ofNat_add, Nat.add_assoc s.drawn k 1]

theorem Sound.acquire (h : Sound nonce s) {pair : MarkerPair} {s' : State ι}
    (ha : s.acquire i = some (pair, s')) : Sound nonce s' := by
  obtain ⟨slot, hge, hpair, hprint, hcut, rfl⟩ := h.acquire_spec ha
  have hold : ∀ j l, (s.stations j).lease = some l → Apart l.pair pair := by
    intro j l hj
    obtain ⟨-, -, hp, hc⟩ := h.held j l hj
    exact ⟨fun he => hprint (he ▸ hp), fun he => hcut (he ▸ hp), fun he => hprint (he ▸ hc),
      fun he => hcut (he ▸ hc)⟩
  refine ⟨rfl, rfl, ?_, ?_, fun j l hj => ?_, fun j l hj l' hl' hlt => ?_, fun j => ?_⟩
  · intro l hl
    rcases List.mem_cons.mp hl with rfl | hl
    · exact ⟨Nat.lt_succ_self _, hpair⟩
    · exact ⟨by have := (h.drawn l hl).1; dsimp only; omega, (h.drawn l hl).2⟩
  · refine List.pairwise_cons.mpr ⟨fun l hl => ?_, h.ordered⟩
    have := (h.drawn l hl).1
    dsimp only
    omega
  · by_cases hji : j = i
    · subst hji
      simp only [State.set, Function.update_self, Option.some.injEq] at hj
      subst hj
      simp
    · simp only [State.set, Function.update_of_ne hji] at hj
      obtain ⟨hm, hp, hu, hc⟩ := h.held j l hj
      exact ⟨List.mem_cons_of_mem _ hm, hp, by simp [hu], by simp [hc]⟩
  · by_cases hji : j = i
    · subst hji
      simp only [State.set, Function.update_self, Option.some.injEq] at hj
      subst hj
      rcases List.mem_cons.mp hl' with rfl | hl'
      · exact absurd hlt (lt_irrefl _)
      · have := (h.drawn l' hl').1
        dsimp only at hlt
        omega
    · simp only [State.set, Function.update_of_ne hji] at hj
      rcases List.mem_cons.mp hl' with rfl | hl'
      · exact hold j l hj
      · exact h.later j l hj l' hl' hlt
  · by_cases hji : j = i
    · subst hji
      simpa [State.set] using h.filed j
    · simpa [State.set, hji] using h.filed j

/-- A worker that gives up its own tokens takes no other's. -/
theorem Sound.release (h : Sound nonce s) {l : Lease ι} (hl : (s.stations i).lease = some l) :
    Sound nonce (s.release i l.pair) := by
  have hother : ∀ j m, ((s.release i l.pair).stations j).lease = some m →
      i ≠ j ∧ (s.stations j).lease = some m := by
    intro j m hj
    by_cases hji : j = i
    · subst hji
      simp [State.release, State.set] at hj
    · simp only [State.release, State.set, Function.update_of_ne hji] at hj
      exact ⟨Ne.symm hji, hj⟩
  refine ⟨h.ours, h.next, h.drawn, h.ordered, fun j m hj => ?_, fun j m hj => ?_, fun j => ?_⟩
  · obtain ⟨hij, hm⟩ := hother j m hj
    obtain ⟨hmem, hp, hu, hc⟩ := h.held j m hm
    obtain ⟨h1, h2, h3, h4⟩ := h.apart hij hl hm
    exact ⟨hmem, hp, MarkerAllocator.mem_release hu h1.symm h3.symm,
      MarkerAllocator.mem_release hc h2.symm h4.symm⟩
  · exact h.later j m (hother j m hj).2
  · by_cases hji : j = i
    · subst hji
      simpa [State.release, State.set] using h.filed j
    · simpa [State.release, State.set, hji] using h.filed j

end Sound

end PrinterDriver.Engine.Fleet
