import Mathlib.Data.List.Range
import PrinterDriver.Lib.Runs
import PrinterDriver.Core.Types
import Mathlib.Algebra.GroupWithZero.Nat

/-! # The events of a job and their subscribers

`PrintJob::subscribe` from any number of threads against the job's `emit`, one at a time: every
critical section and every invocation of a callback is a step. -/

namespace PrinterDriver.Engine.Events

open PrinterDriver.Lib.Runs PrinterDriver.Core.Types

/-- A subscriber; `batch` is what its `subscribe` call is invoking the callback with, and `received`
what the callback was invoked with so far. -/
structure Subscriber where
  draining : Bool := true
  pending : List JobEvent := []
  batch : List JobEvent := []
  received : List JobEvent := []
  deriving DecidableEq, Repr

structure PrintJob where
  history : List JobEvent := []
  state : JobState := .queued
  confidence : ConfidenceLevel := .transportAccepted
  subscribers : List Subscriber := []
  /-- The event of the `emit` call made last. -/
  event : JobEvent := ⟨.queued, .transportAccepted, none⟩
  /-- The subscribers that it has still to call. -/
  live : List ℕ := []
  deriving DecidableEq, Repr

inductive Action where
  /-- A `subscribe` call copies the history and registers. -/
  | subscribe
  /-- The `subscribe` call of a subscriber invokes the callback. -/
  | deliver (i : ℕ)
  /-- The `subscribe` call of a subscriber takes what was parked, or goes live. -/
  | drain (i : ℕ)
  /-- An `emit` call records its event and parks it where the replay is not over. -/
  | emit (state : JobState) (confidence : ConfidenceLevel) (reason : Option FailureReason)
  /-- The `emit` call invokes the next callback. -/
  | call
  deriving DecidableEq, Repr

def Subscriber.park (e : JobEvent) (u : Subscriber) : Subscriber :=
  if u.draining then { u with pending := u.pending ++ [e] } else u

def Subscriber.hear (e : JobEvent) (u : Subscriber) : Subscriber :=
  { u with received := u.received ++ [e] }

/-- What one step of the `subscribe` call does after the registration. -/
def Subscriber.deliver (u : Subscriber) : Option Subscriber :=
  match u.batch with
  | [] => none
  | e :: rest => some ({ u with batch := rest }.hear e)

def Subscriber.drain (u : Subscriber) : Option Subscriber :=
  if u.draining = true ∧ u.batch = [] then
    if u.pending = [] then some { u with draining := false }
    else some { u with pending := [], batch := u.pending }
  else none

namespace PrintJob

/-- A step of one subscriber's call. -/
def advance (s : PrintJob) (i : ℕ) (f : Subscriber → Option Subscriber) : Option PrintJob :=
  (s.subscribers[i]?.bind f).map fun u => { s with subscribers := s.subscribers.set i u }

/-- The subscribers that an `emit` calls itself. -/
def liveOnes (s : PrintJob) : List ℕ :=
  (List.range s.subscribers.length).filter fun i =>
    s.subscribers[i]?.any fun u => !u.draining

def step : Action → PrintJob → Option PrintJob
  | .subscribe, s => some { s with subscribers := s.subscribers ++ [{ batch := s.history }] }
  | .deliver i, s => s.advance i Subscriber.deliver
  | .drain i, s => s.advance i Subscriber.drain
  | .emit state confidence reason, s =>
    if s.live = [] then
      some
        { s with
          history := s.history ++ [⟨state, confidence, reason⟩], state := state
          confidence := confidence, event := ⟨state, confidence, reason⟩, live := s.liveOnes
          subscribers := s.subscribers.map (Subscriber.park ⟨state, confidence, reason⟩) }
    else none
  | .call, s =>
    match s.live with
    | [] => none
    | i :: rest => { s with live := rest }.advance i fun u => some (u.hear s.event)

end PrintJob

/-- The steps of a job from its creation. -/
abbrev Reached : PrintJob → Prop := Reach PrintJob.step (fun _ _ => True) {}

/-! ### The invariant -/

/-- What a subscriber is still to be called with. -/
def owed (s : PrintJob) (i : ℕ) (u : Subscriber) : List JobEvent :=
  u.batch ++ u.pending ++ if i ∈ s.live then [s.event] else []

/-- A subscriber has heard the history but for what it is owed. -/
structure Fits (s : PrintJob) (i : ℕ) (u : Subscriber) : Prop where
  exact : u.received ++ owed s i u = s.history
  parked : u.draining = true → i ∉ s.live
  settled : u.draining = false → u.batch = [] ∧ u.pending = []

structure Sound (s : PrintJob) : Prop where
  fits : ∀ i u, s.subscribers[i]? = some u → Fits s i u
  nodup : s.live.Nodup
  known : ∀ i ∈ s.live, i < s.subscribers.length

theorem advance_eq_some {s s' : PrintJob} {i : ℕ} {f : Subscriber → Option Subscriber}
    (h : s.advance i f = some s') :
    ∃ u v, s.subscribers[i]? = some u ∧ f u = some v ∧
      s' = { s with subscribers := s.subscribers.set i v } := by
  obtain ⟨v, hv, rfl⟩ := Option.map_eq_some_iff.mp h
  obtain ⟨u, hu, hf⟩ := Option.bind_eq_some_iff.mp hv
  exact ⟨u, v, hu, hf, rfl⟩

theorem set_cases {us : List Subscriber} {i j : ℕ} {v w : Subscriber}
    (h : (us.set i v)[j]? = some w) : j = i ∧ w = v ∨ j ≠ i ∧ us[j]? = some w := by
  rw [List.getElem?_set] at h
  split_ifs at h with hij hlt
  · exact .inl ⟨hij.symm, (Option.some.inj h).symm⟩
  · exact .inr ⟨fun e => hij e.symm, h⟩

/-- A step of one subscriber's call concerns nobody else. -/
theorem Sound.advance {s s' : PrintJob} {i : ℕ} {f : Subscriber → Option Subscriber} (h : Sound s)
    (hs : s.advance i f = some s') (hf : ∀ u v, Fits s i u → f u = some v → Fits s i v) :
    Sound s' := by
  obtain ⟨u, v, hu, hv, rfl⟩ := advance_eq_some hs
  refine ⟨fun j w hw => ?_, h.nodup, fun j hj => by simpa using h.known j hj⟩
  rcases set_cases hw with ⟨rfl, rfl⟩ | ⟨-, hw⟩
  · have hfit := hf u w (h.fits j u hu) hv
    exact ⟨hfit.exact, hfit.parked, hfit.settled⟩
  · have hfit := h.fits j w hw
    exact ⟨hfit.exact, hfit.parked, hfit.settled⟩

theorem Fits.deliver {s : PrintJob} {i : ℕ} {u v : Subscriber} (h : Fits s i u)
    (hv : u.deliver = some v) : Fits s i v := by
  unfold Subscriber.deliver at hv
  cases hb : u.batch with
  | nil => simp [hb] at hv
  | cons e rest =>
    rw [hb] at hv
    obtain rfl := Option.some.inj hv
    refine ⟨?_, h.parked, fun hd => absurd (h.settled hd).1 (by simp [hb])⟩
    rw [← h.exact]
    simp [owed, hb, Subscriber.hear]

theorem Fits.drain {s : PrintJob} {i : ℕ} {u v : Subscriber} (h : Fits s i u)
    (hv : u.drain = some v) : Fits s i v := by
  unfold Subscriber.drain at hv
  split_ifs at hv with hd hp
  · obtain rfl := Option.some.inj hv
    exact ⟨h.exact, fun hf => by simp at hf, fun _ => ⟨hd.2, hp⟩⟩
  · obtain rfl := Option.some.inj hv
    refine ⟨?_, h.parked, fun hf => by simp [hd.1] at hf⟩
    rw [← h.exact]
    simp [owed, hd.2]

theorem mem_liveOnes {s : PrintJob} {i : ℕ} :
    i ∈ s.liveOnes ↔ ∃ u, s.subscribers[i]? = some u ∧ u.draining = false := by
  rw [PrintJob.liveOnes, List.mem_filter, List.mem_range]
  cases hu : s.subscribers[i]? with
  | none => simp
  | some u =>
    have hi : i < s.subscribers.length := (List.getElem?_eq_some_iff.mp hu).1
    simp [hi]

theorem nodup_liveOnes (s : PrintJob) : s.liveOnes.Nodup := List.nodup_range.filter _

/-- While no `emit` is under way, the next one finds every subscriber up to date. -/
theorem Fits.park {s t : PrintJob} {i : ℕ} {u : Subscriber} (h : Fits s i u) (hl : s.live = [])
    (hu : s.subscribers[i]? = some u) (ht : t.live = s.liveOnes)
    (hh : t.history = s.history ++ [t.event]) : Fits t i (u.park t.event) := by
  have hex := h.exact
  simp only [owed, hl, List.not_mem_nil, if_false, List.append_nil] at hex
  unfold Subscriber.park
  cases hd : u.draining with
  | true =>
    have hi : i ∉ t.live := fun hi => by
      obtain ⟨w, hw, hwd⟩ := mem_liveOnes.mp (ht ▸ hi)
      rw [hu] at hw
      cases hw
      exact absurd hwd (by simp [hd])
    refine ⟨?_, fun _ => hi, fun hf => by simp at hf⟩
    rw [hh, ← hex]
    simp [owed, hi]
  | false =>
    have hi : i ∈ t.live := ht ▸ mem_liveOnes.mpr ⟨u, hu, hd⟩
    refine ⟨?_, fun hf => by simp [hd] at hf, fun _ => h.settled hd⟩
    rw [hh, ← hex]
    simp [owed, hi, (h.settled hd).1, (h.settled hd).2]

theorem Sound.subscribe {s : PrintJob} (h : Sound s) :
    Sound { s with subscribers := s.subscribers ++ [{ batch := s.history }] } := by
  have hlast : s.subscribers.length ∉ s.live := fun hm => (h.known _ hm).false
  refine ⟨fun i u hu => ?_, h.nodup, fun i hi => by
    have := h.known i hi
    simp only [List.length_append, List.length_singleton]
    omega⟩
  rcases Nat.lt_or_ge i s.subscribers.length with hi | hi
  · rw [List.getElem?_append_left hi] at hu
    have hfit := h.fits i u hu
    exact ⟨hfit.exact, hfit.parked, hfit.settled⟩
  · rw [List.getElem?_append_right hi] at hu
    obtain ⟨hz, rfl⟩ : i - s.subscribers.length = 0 ∧ u = { batch := s.history } := by
      cases hd : i - s.subscribers.length with
      | zero => simpa [hd, eq_comm] using hu
      | succ n => simp [hd] at hu
    obtain rfl : i = s.subscribers.length := by omega
    exact ⟨by simp [owed, hlast], fun _ => hlast, fun hf => by simp at hf⟩

/-- The callback that `emit` invokes. -/
theorem Sound.call {s s' : PrintJob} {i : ℕ} {rest : List ℕ} (h : Sound s)
    (hl : s.live = i :: rest)
    (hs : { s with live := rest }.advance i (fun u => some (u.hear s.event)) = some s') :
    Sound s' := by
  obtain ⟨u, v, hu, hv, rfl⟩ := advance_eq_some hs
  obtain rfl := Option.some.inj hv
  have hnd := List.nodup_cons.mp (hl ▸ h.nodup)
  refine ⟨fun j w hw => ?_, hnd.2, fun j hj => by
    simpa using h.known j (by simp [hl, hj])⟩
  rcases set_cases hw with ⟨rfl, rfl⟩ | ⟨hne, hw⟩
  · have hfit := h.fits j u hu
    have hd : u.draining = false := by
      by_contra hd
      exact hfit.parked (by simpa using hd) (by simp [hl])
    obtain ⟨hb, hp⟩ := hfit.settled hd
    refine ⟨?_, fun _ => hnd.1, fun _ => ⟨hb, hp⟩⟩
    rw [← hfit.exact]
    simp [owed, hb, hp, hl, hnd.1, Subscriber.hear]
  · have hfit := h.fits j w hw
    have hmem : j ∈ rest ↔ j ∈ s.live := by simp [hl, hne]
    refine ⟨?_, fun hd hj => hfit.parked hd (hmem.mp hj), hfit.settled⟩
    rw [← hfit.exact]
    simp [owed, hmem]

theorem Sound.step {s s' : PrintJob} (h : Sound s) :
    (a : Action) → PrintJob.step a s = some s' → Sound s'
  | .subscribe, hs => by
    obtain rfl := Option.some.inj hs
    exact h.subscribe
  | .deliver i, hs => h.advance hs fun _ _ hu hv => hu.deliver hv
  | .drain i, hs => h.advance hs fun _ _ hu hv => hu.drain hv
  | .emit state confidence reason, hs => by
    simp only [PrintJob.step] at hs
    split_ifs at hs with hl
    obtain rfl := Option.some.inj hs
    refine ⟨fun i u hu => ?_, nodup_liveOnes s, fun i hi => ?_⟩
    · rw [List.getElem?_map] at hu
      obtain ⟨w, hw, rfl⟩ := Option.map_eq_some_iff.mp hu
      exact (h.fits i w hw).park hl hw rfl rfl
    · obtain ⟨u, hu, -⟩ := mem_liveOnes.mp hi
      simpa using (List.getElem?_eq_some_iff.mp hu).1
  | .call, hs => by
    simp only [PrintJob.step] at hs
    split at hs
    · cases hs
    · exact h.call ‹_› hs

theorem Sound.init : Sound {} :=
  ⟨fun i u hu => by simp at hu, List.nodup_nil, fun i hi => absurd hi List.not_mem_nil⟩

theorem sound_of_reached {s : PrintJob} (h : Reached s) : Sound s :=
  h.invariant Sound.init fun a _ _ hs _ ha => hs.step a ha

/-! ### Delivery -/

/-- The steps that deliver what there is, as opposed to a new `subscribe` or `emit`. -/
def Action.delivers : Action → Bool
  | .deliver _ | .drain _ | .call => true
  | .subscribe | .emit _ _ _ => false

/-- The steps that a subscriber's own call has left: one for each event at hand, two for each parked
one, and one to go live. -/
def Subscriber.steps (u : Subscriber) : ℕ :=
  u.batch.length + 2 * u.pending.length + u.draining.toNat

def stepsLeft (s : PrintJob) : ℕ := (s.subscribers.map Subscriber.steps).sum + s.live.length

theorem sum_set {us : List Subscriber} {i : ℕ} {u : Subscriber} (hu : us[i]? = some u)
    (v : Subscriber) :
    ((us.set i v).map Subscriber.steps).sum + u.steps =
      (us.map Subscriber.steps).sum + v.steps := by
  induction us generalizing i with
  | nil => simp at hu
  | cons w us ih =>
    cases i with
    | zero =>
      obtain rfl : w = u := by simpa using hu
      simp only [List.set_cons_zero, List.map_cons, List.sum_cons]
      omega
    | succ i =>
      have := ih (i := i) (by simpa using hu)
      simp only [List.set_cons_succ, List.map_cons, List.sum_cons]
      omega

theorem steps_deliver {u v : Subscriber} (h : u.deliver = some v) : v.steps < u.steps := by
  unfold Subscriber.deliver at h
  cases hb : u.batch with
  | nil => simp [hb] at h
  | cons e rest =>
    rw [hb] at h
    obtain rfl := Option.some.inj h
    simp [Subscriber.steps, Subscriber.hear, hb]

theorem steps_drain {u v : Subscriber} (h : u.drain = some v) : v.steps < u.steps := by
  unfold Subscriber.drain at h
  split_ifs at h with hd hp
  · obtain rfl := Option.some.inj h
    simp [Subscriber.steps, hd.1, hd.2, hp]
  · obtain rfl := Option.some.inj h
    have := List.length_pos_of_ne_nil hp
    simp only [Subscriber.steps, hd.2, List.length_nil]
    omega

/-- Delivering ends. -/
theorem stepsLeft_lt {s s' : PrintJob} {a : Action} (ha : a.delivers = true)
    (hs : PrintJob.step a s = some s') : stepsLeft s' < stepsLeft s := by
  cases a with
  | subscribe => cases ha
  | emit => cases ha
  | deliver i =>
    obtain ⟨u, v, hu, hv, rfl⟩ := advance_eq_some hs
    have hlt := steps_deliver hv
    have hsum := sum_set hu v
    simp only [stepsLeft]
    omega
  | drain i =>
    obtain ⟨u, v, hu, hv, rfl⟩ := advance_eq_some hs
    have hlt := steps_drain hv
    have hsum := sum_set hu v
    simp only [stepsLeft]
    omega
  | call =>
    simp only [PrintJob.step] at hs
    split at hs
    · cases hs
    next i rest hl =>
      obtain ⟨u, v, hu, hv, rfl⟩ := advance_eq_some hs
      obtain rfl := Option.some.inj hv
      have heq : (u.hear s.event).steps = u.steps := rfl
      have hsum := @sum_set s.subscribers _ _ hu (u.hear s.event)
      simp only [stepsLeft, hl, List.length_cons]
      omega

/-- When nothing is left to deliver, every subscriber is owed nothing. -/
theorem received_of_idle {s : PrintJob} (h : Sound s)
    (hidle : ∀ a, a.delivers = true → PrintJob.step a s = none) {u : Subscriber}
    (hu : u ∈ s.subscribers) : u.received = s.history := by
  obtain ⟨i, hi⟩ := List.getElem?_of_mem hu
  have none_of : ∀ {t : PrintJob} {f : Subscriber → Option Subscriber} {j : ℕ} {w : Subscriber},
      t.subscribers[j]? = some w → t.advance j f = none → f w = none := by
    intro t f j w hw hn
    simpa [PrintJob.advance, hw] using hn
  have hfit := h.fits i u hi
  have hbatch : u.batch = [] := by
    have hn := none_of hi (hidle (.deliver i) rfl)
    unfold Subscriber.deliver at hn
    split at hn
    · assumption
    · cases hn
  have hdone : u.draining = false := by
    have hn := none_of hi (hidle (.drain i) rfl)
    unfold Subscriber.drain at hn
    split_ifs at hn with hd hp
    simpa [hbatch] using hd
  have hlive : s.live = [] := by
    cases hl : s.live with
    | nil => rfl
    | cons j rest =>
      have hj := List.getElem?_eq_getElem (h.known j (by simp [hl]))
      have hn := hidle .call rfl
      simp only [PrintJob.step, hl] at hn
      exact absurd (none_of (t := { s with live := rest }) hj hn) (by simp)
  have hexact := hfit.exact
  simpa [owed, hbatch, (hfit.settled hdone).2, hlive] using hexact

/-- **Every subscriber hears the history of its job**, each event once and in order: at any moment a
prefix of it, and all of it when no call has a step left; the calls come to that after finitely
many steps. -/
theorem delivered {s : PrintJob} (h : Reached s) :
    (∀ u ∈ s.subscribers, u.received <+: s.history) ∧
      ((∀ a, a.delivers = true → PrintJob.step a s = none) →
        ∀ u ∈ s.subscribers, u.received = s.history) ∧
      ∀ a s', a.delivers = true → PrintJob.step a s = some s' → stepsLeft s' < stepsLeft s := by
  have hsound := sound_of_reached h
  refine ⟨fun u hu => ?_, fun hidle u hu => received_of_idle hsound hidle hu,
    fun a s' ha hs => stepsLeft_lt ha hs⟩
  obtain ⟨i, hi⟩ := List.getElem?_of_mem hu
  exact ⟨_, (hsound.fits i u hi).exact⟩

/-- Two events, one parked while the first is replayed and one heard live. -/
def threeEvents : List Action :=
  [.emit .queued .transportAccepted none, .subscribe, .emit .preflightOk .printerHealthy none,
    .deliver 0, .drain 0, .deliver 0, .drain 0, .emit .sendStarted .printerHealthy none, .call]

theorem threeEvents_delivered :
    ∃ s : PrintJob, replay PrintJob.step (fun _ _ => True) threeEvents {} = some s ∧
      s.history.length = 3 ∧ ∀ u ∈ s.subscribers, u.received = s.history := by
  have hs : (replay PrintJob.step (fun _ _ => True) threeEvents {}).map
      (fun s => s.history.length) = some 3 := by decide
  obtain ⟨s, hr, hl⟩ := Option.map_eq_some_iff.mp hs
  have h0 : (replay PrintJob.step (fun _ _ => True) threeEvents {}).map stepsLeft = some 0 := by
    decide
  rw [hr] at h0
  obtain ⟨-, hall, hlt⟩ := delivered (reach_of_replay .init hr)
  refine ⟨s, hr, hl, fun u hu => hall (fun a ha => ?_) u hu⟩
  cases hn : PrintJob.step a s with
  | none => rfl
  | some t => exact absurd (hlt a t ha hn) (by simp [Option.some.inj h0])

end PrinterDriver.Engine.Events
