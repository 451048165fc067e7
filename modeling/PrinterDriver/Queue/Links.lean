import PrinterDriver.Queue.Ledger

/-! # The queue and the links of its printers

A printer's worker connects when a task asks for it (`ensureConnected`), and tells of a link that it
had lost and got back; the transport tells of a link that is lost (`onDisconnected`). The queue holds
the jobs of a lane whose link was lost until it hears of the link again. Where every loss and every
failed attempt leaves a task that will connect (`Backed`), a lane that is held for its link alone has
one, or the news is in the inbox. -/

namespace PrinterDriver.Queue.Links

open PrinterDriver.Core.Types PrinterDriver.Lib.Runs
open PrinterDriver.Queue.PrintQueue PrinterDriver.Queue.Lanes PrinterDriver.Queue.QueueRuns
open PrinterDriver.Queue.Ledger

/-! ### Links -/

/-- The connection of one printer, and how many tasks of its worker will call `ensureConnected` or
have not returned from it; `restoring` while one has connected again and not told of it yet. -/
structure Link where
  connected : Bool := false
  hadConnection : Bool := false
  restoring : Bool := false
  tasks : ℕ := 0
  deriving DecidableEq

/-- The queue and the links of its printers. -/
structure Site where
  world : World := {}
  link : Bytes → Link := fun _ => {}

/-- What happens next. `reaches` says of which of the jobs that the move hands over the task will
call `ensureConnected`, which it does unless the payload or the profile is refused before. -/
inductive Move where
  | queue (action : Action) (reaches : Bytes → Bool)
  | task (printerId : Bytes)
  | reuse (printerId : Bytes)
  | connect (printerId : Bytes) (ok : Bool)
  | restored (printerId : Bytes)
  | lose (printerId : Bytes)

/-- The event is one of those that the connection raises. -/
def ofConnection : Action → Bool
  | .deviceEvent _ .connectionLost | .deviceEvent _ .connectionRestored => true
  | _ => false

def Link.push (link : Link) (n : ℕ) : Link := { link with tasks := link.tasks + n }

def Link.pop (link : Link) : Link := { link with tasks := link.tasks - 1 }

def Site.setLink (s : Site) (id : Bytes) (link : Link) : Site :=
  { s with link := Function.update s.link id link }

/-- A device event of a printer. -/
def Site.tell (s : Site) (id : Bytes) (e : DeviceEvent) : Site :=
  { s with world := s.world.callback (s.world.queue.deviceEvent id e) }

/-- How many of the jobs that were handed over to a printer since will connect. -/
def tasksOf (w w' : World) (reaches : Bytes → Bool) (id : Bytes) : ℕ :=
  ((w'.handed.drop w.handed.length).filter fun h => h.printerId = id ∧ reaches h.item.job).length

/-- `ensureConnected` where the link is down: one that was had before is told of afterwards. -/
def Link.connect (link : Link) (ok : Bool) : Link :=
  if ok then
    if link.hadConnection then { link with connected := true, restoring := true }
    else { link with connected := true, hadConnection := true, tasks := link.tasks - 1 }
  else link.pop

/-- The end of `ensureConnected` where it told of the link. -/
def Link.told (link : Link) : Link := { link with restoring := false, tasks := link.tasks - 1 }

def Link.lose (link : Link) : Link := { link with connected := false }

/-- The worker has a task that asks for the link. -/
def Link.asks (link : Link) : Prop := 0 < link.tasks ∧ link.restoring = false

instance (link : Link) : Decidable link.asks := inferInstanceAs (Decidable (_ ∧ _))

/-- The moves of the queue and the links; a move that is not possible gives none. -/
def siteStep (policy : QueuePolicy) : Move → Site → Option Site
  | .queue a reaches, s =>
    if ofConnection a then none
    else (step policy a s.world).map fun w' =>
      { world := w', link := fun id => (s.link id).push (tasksOf s.world w' reaches id) }
  | .task id, s => some (s.setLink id ((s.link id).push 1))
  | .reuse id, s =>
    if (s.link id).connected = true ∧ (s.link id).asks then some (s.setLink id (s.link id).pop)
    else none
  | .connect id ok, s =>
    if (s.link id).connected = false ∧ (s.link id).asks then
      some (s.setLink id ((s.link id).connect ok))
    else none
  | .restored id, s =>
    if (s.link id).restoring then
      some ((s.setLink id (s.link id).told).tell id .connectionRestored)
    else none
  | .lose id, s =>
    if (s.link id).connected then
      some ((s.setLink id (s.link id).lose).tell id .connectionLost)
    else none

/-! ### A lane that is held for its link alone -/

/-- Jobs wait on a lane that would drain if its link were not marked down. -/
structure HeldForLink (policy : QueuePolicy) (s : QueueState) (id : Bytes) : Prop where
  waiting : (s.lane id).waiting ≠ []
  down : (s.lane id).linkDown = true
  held : (s.lane id).drainable policy = false
  alone : ({ s.lane id with linkDown := false } : QueueLane).drainable policy = true

/-- Whether the link counts as lost once the inbox is applied. -/
def down (s : QueueState) (id : Bytes) : Bool := (heard s id (s.lane id)).linkDown

/-- A link is lost, and an attempt to get a lost one back fails, only while another task is there
that will connect. -/
def Backed : Move → Site → Prop
  | .lose id, s => 0 < (s.link id).tasks
  | .connect id false, s => down s.world.queue id = true → 1 < (s.link id).tasks
  | _, _ => True

instance : (m : Move) → (s : Site) → Decidable (Backed m s)
  | .lose _, _ => inferInstanceAs (Decidable (_ < _))
  | .connect _ false, _ => inferInstanceAs (Decidable (_ = _ → _ < _))
  | .connect _ true, _ | .queue _ _, _ | .task _, _ | .reuse _, _ | .restored _, _ =>
    inferInstanceAs (Decidable True)

variable {policy : QueuePolicy} {w w' : World} {a : Action} {id : Bytes} {s : Site} {q : QueueState}

/-! ### What the queue hears of a link -/

theorem foldl_hear_mono : ∀ (es : List (Bytes × DeviceEvent)) {l l' : QueueLane},
    (l.linkDown = true → l'.linkDown = true) →
    (es.foldl (fun l e => l.hear e.2) l).linkDown = true →
      (es.foldl (fun l e => l.hear e.2) l').linkDown = true
  | [], _, _, h => h
  | e :: es, l, l', h => by
    rw [List.foldl_cons, List.foldl_cons]
    refine foldl_hear_mono es ?_
    rcases e.2 <;> first | exact h | exact fun _ => rfl | exact fun hf => by cases hf

/-- A link that was marked down and no longer counts as lost was told of. -/
theorem exists_restored : ∀ (es : List (Bytes × DeviceEvent)) {l : QueueLane},
    l.linkDown = true → (es.foldl (fun l e => l.hear e.2) l).linkDown = false →
      ∃ e ∈ es, e.2 = .connectionRestored
  | [], _, h, h' => by
    rw [List.foldl_nil, h] at h'
    cases h'
  | e :: es, l, h, h' => by
    rw [List.foldl_cons] at h'
    by_cases he : e.2 = .connectionRestored
    · exact ⟨e, List.mem_cons_self, he⟩
    · have hdown : (l.hear e.2).linkDown = true := by
        rcases hk : e.2 <;> first | exact h | rfl | exact absurd hk he
      obtain ⟨e', hmem, he'⟩ := exists_restored es hdown h'
      exact ⟨e', List.mem_cons_of_mem e hmem, he'⟩

/-- With no more events in the inbox, a lane that is not marked down does not get lost. -/
theorem down_mono {q' : QueueState} (hev : q'.deviceEvents = q.deviceEvents)
    (hlane : (q'.lane id).linkDown = true → (q.lane id).linkDown = true)
    (h : down q' id = true) : down q id = true := by
  unfold down heard at *
  rw [hev] at h
  exact foldl_hear_mono _ hlane h

theorem settle_linkDown : (settle q id (q.lane id)).linkDown = down q id :=
  foldl_keeps (f := fun l c => l.complete (QueueCompletion.state c)) (g := QueueLane.linkDown)
    (fun _ _ => rfl) (endings q id) (heard q id (q.lane id))

theorem pumpLane_linkDown (now : ℕ) (l : QueueLane) :
    (pumpLane policy now l).lane.linkDown = l.linkDown := by
  rcases pumpLane_cases policy now l with ⟨_, _, -, -, -, h⟩ | ⟨-, h⟩ <;> rw [h]

/-- A pump marks as down what counts as lost. -/
theorem down_pump (h : Listed q) (now : ℕ)
    (hdown : down (q.pumpLocked policy now).2 id = true) : down q id = true := by
  obtain ⟨-, -, -, hq⟩ := pump_spec h policy now
  have hnone : (q.pumpLocked policy now).2.deviceEvents = [] := by
    rw [hq]
    rfl
  unfold down heard at hdown
  rw [hnone] at hdown
  change ((q.pumpLocked policy now).2.lane id).linkDown = true at hdown
  by_cases hid : id ∈ q.order
  · rw [pump_lane h hid] at hdown
    unfold roundOn at hdown
    rwa [pumpLane_linkDown, settle_linkDown] at hdown
  · rw [pump_lane_of_notMem h hid] at hdown
    cases hdown

theorem down_deviceEvent {id' : Bytes} {e : DeviceEvent} :
    down (q.deviceEvent id' e) id =
      if id' = id then ((heard q id (q.lane id)).hear e).linkDown else down q id := by
  unfold down heard
  change (List.foldl _ (q.lane id) (List.filter _ (q.deviceEvents ++ [(id', e)]))).linkDown = _
  rw [List.filter_append, List.foldl_append]
  by_cases h : id' = id
  · rw [if_pos h, List.filter_cons_of_pos (by simpa using h)]
    rfl
  · rw [if_neg h, List.filter_cons_of_neg (by simpa using h)]
    rfl

theorem attach_linkDown {l : QueueLane} {status : DeviceStatus}
    (h : (l.attach status).linkDown = true) : l.linkDown = true := by
  unfold QueueLane.attach at h
  by_cases hattached : l.attached = true
  · rwa [if_pos hattached] at h
  · rw [if_neg hattached] at h
    cases h

/-- A lane that is written over, marked down only if it was. -/
theorem down_setLane {q' : QueueState} {l : QueueLane} {id' : Bytes} (h : down q' id = true)
    (hev : q'.deviceEvents = q.deviceEvents) (hlanes : q'.lanes = (q.setLane id' l).lanes)
    (hl : l.linkDown = true → (q.lane id').linkDown = true) : down q id = true := by
  refine down_mono hev (fun hdown => ?_) h
  have hlane : q'.lane id = (q.setLane id' l).lane id := by
    unfold QueueState.lane
    rw [hlanes]
  rw [hlane] at hdown
  by_cases hid : id = id'
  · subst hid
    rw [setLane_lane] at hdown
    exact hl hdown
  · rwa [setLane_lane_of_ne hid] at hdown

theorem down_modify {f : QueueLane → QueueLane} {id' : Bytes}
    (hf : ∀ l, (f l).linkDown = l.linkDown) (h : down (q.modify id' f) id = true) :
    down q id = true := by
  refine down_mono (by rw [modify_eq]) (fun hdown => ?_) h
  rw [modify_lane] at hdown
  split_ifs at hdown with hid
  · rw [hf, ← hid.1] at hdown
    exact hdown
  · exact hdown

/-- No move of the queue makes a link count as lost; only the connection's own events do. -/
theorem down_step (hl : Listed w.queue) (ha : ofConnection a = false)
    (hs : step policy a w = some w') (hdown : down w'.queue id = true) :
    down w.queue id = true := by
  cases a with
  | enqueue id' status reserved priority ttlMs now =>
    rw [step] at hs
    split_ifs at hs
    obtain rfl := Option.some.inj hs
    rcases reserved with _ | job
    · exact down_setLane (l := w.queue.laneLocked id' status) hdown rfl rfl attach_linkDown
    · unfold QueueState.enqueue at hdown
      dsimp only at hdown
      split_ifs at hdown
      · exact down_setLane (l := (w.queue.laneLocked id' status).start) hdown rfl rfl attach_linkDown
      · exact down_setLane (l := w.queue.laneLocked id' status) hdown rfl rfl attach_linkDown
      · exact down_setLane (l := (w.queue.laneLocked id' status).push
          (newItem policy w.queue job priority ttlMs now)) hdown rfl rfl attach_linkDown
  | tick now =>
    obtain rfl := Option.some.inj hs
    exact down_pump hl now hdown
  | pause id' =>
    obtain rfl := Option.some.inj hs
    exact down_setLane (l := { w.queue.lane id' with paused := true }) hdown rfl rfl fun h => h
  | resume id' =>
    obtain rfl := Option.some.inj hs
    exact down_modify (f := fun lane => { lane with paused := false }) (fun _ => rfl) hdown
  | unblock id' =>
    obtain rfl := Option.some.inj hs
    exact down_modify (f := fun lane => { lane with blocked := false }) (fun _ => rfl) hdown
  | deviceEvent id' e =>
    obtain rfl := Option.some.inj hs
    change down (w.queue.deviceEvent id' e) id = true at hdown
    rw [down_deviceEvent] at hdown
    split_ifs at hdown
    · rcases e <;> first | exact hdown | cases ha
    · exact hdown
  | finish job state =>
    have hfin : w.finish job state = some w' := hs
    unfold World.finish at hfin
    split at hfin
    · cases hfin
    · split_ifs at hfin
      obtain rfl := Option.some.inj hfin
      exact hdown
  | pump now =>
    rw [step] at hs
    split_ifs at hs
    · obtain rfl := Option.some.inj hs
      exact hdown
    · obtain rfl := Option.some.inj hs
      exact down_pump hl now hdown
  | check =>
    rw [step] at hs
    split at hs
    · obtain rfl := Option.some.inj hs
      unfold World.check at hdown
      split_ifs at hdown <;> exact hdown
    · cases hs
  | wake =>
    rw [step] at hs
    split at hs
    · obtain rfl := Option.some.inj hs
      exact hdown
    · cases hs
  | stop | signal | notify =>
    rw [step] at hs
    split_ifs at hs <;> (obtain rfl := Option.some.inj hs; exact hdown)

/-! ### A link and what the queue believes of it -/

/-- A link that counts as lost has a task that will connect, was had before, and is not up unless the
news is on its way. -/
structure Tended (link : Link) (lost : Prop) : Prop where
  backed : lost → 0 < link.tasks
  up : link.connected = true → lost → link.restoring = true
  hadBefore : lost → link.hadConnection = true
  had : link.connected = true → link.hadConnection = true
  busy : link.restoring = true → 0 < link.tasks

section
variable {link : Link} {lost lost' : Prop}

theorem tended_init : Tended {} (false = true) where
  backed h := by cases h
  up h := by cases h
  hadBefore h := by cases h
  had h := by cases h
  busy h := by cases h

theorem Tended.push (h : Tended link lost) (n : ℕ) (hlost : lost' → lost) :
    Tended (link.push n) lost' where
  backed hl := Nat.lt_of_lt_of_le (h.backed (hlost hl)) (Nat.le_add_right _ _)
  up hc hl := h.up hc (hlost hl)
  hadBefore hl := h.hadBefore (hlost hl)
  had := h.had
  busy hr := Nat.lt_of_lt_of_le (h.busy hr) (Nat.le_add_right _ _)

/-- A link that is up, and of which nothing is still to be told, does not count as lost. -/
theorem Tended.reuse (h : Tended link lost) (hup : link.connected = true) (hasks : link.asks) :
    Tended link.pop lost := by
  have hidle : ¬ link.restoring = true := by
    rw [hasks.2]
    decide
  have hfound : ¬ lost := fun hl => hidle (h.up hup hl)
  exact ⟨fun hl => absurd hl hfound, fun _ hl => absurd hl hfound, fun hl => absurd hl hfound, h.had,
    fun hr => absurd hr hidle⟩

theorem Tended.connect_ok (h : Tended link lost) (hasks : link.asks) :
    Tended (link.connect true) lost := by
  unfold Link.connect
  rw [if_pos rfl]
  by_cases hhad : link.hadConnection = true
  · rw [if_pos hhad]
    exact ⟨h.backed, fun _ _ => rfl, h.hadBefore, fun _ => hhad, fun _ => hasks.1⟩
  · rw [if_neg hhad]
    have hfound : ¬ lost := fun hl => hhad (h.hadBefore hl)
    have hidle : ¬ link.restoring = true := by
      rw [hasks.2]
      decide
    exact ⟨fun hl => absurd hl hfound, fun _ hl => absurd hl hfound, fun hl => absurd hl hfound,
      fun _ => rfl, fun hr => absurd hr hidle⟩

theorem Tended.connect_failed (h : Tended link lost) (hasks : link.asks)
    (hdown : link.connected = false) (hbacked : lost → 1 < link.tasks) :
    Tended (link.connect false) lost := by
  have hidle : ¬ link.restoring = true := by
    rw [hasks.2]
    decide
  have hoff : ¬ link.connected = true := by
    rw [hdown]
    decide
  refine ⟨fun hl => ?_, fun hc => absurd hc hoff, h.hadBefore, fun hc => absurd hc hoff,
    fun hr => absurd hr hidle⟩
  have hmore := hbacked hl
  change 0 < link.tasks - 1
  omega

theorem Tended.told (h : Tended link lost) (hfound : ¬ lost') : Tended link.told lost' :=
  ⟨fun hl => absurd hl hfound, fun _ hl => absurd hl hfound, fun hl => absurd hl hfound, h.had,
    fun hr => by cases hr⟩

theorem Tended.lose (h : Tended link lost) (hup : link.connected = true)
    (hbacked : 0 < link.tasks) : Tended link.lose lost' :=
  ⟨fun _ => hbacked, (fun hc => by cases hc), fun _ => h.had hup, (fun hc => by cases hc), h.busy⟩

end

/-! ### Runs -/

/-- Every link is tended. -/
def AllTended (s : Site) : Prop := ∀ id, Tended (s.link id) (down s.world.queue id = true)

/-- One link changes, and with it at most what the queue believes of it. -/
theorem AllTended.setLink (h : AllTended s) (id : Bytes) {link : Link} {w' : World}
    (hid : Tended link (down w'.queue id = true))
    (hrest : ∀ id', id' ≠ id → down w'.queue id' = down s.world.queue id') :
    AllTended { world := w', link := Function.update s.link id link } := by
  intro id'
  by_cases he : id' = id
  · subst he
    change Tended (Function.update s.link id' link id') _
    rw [Function.update_self]
    exact hid
  · change Tended (Function.update s.link id link id') _
    rw [Function.update_of_ne he]
    change Tended (s.link id') (down w'.queue id' = true)
    rw [hrest id' he]
    exact h id'

theorem site_filed {m : Move} {s' : Site} (h : Filed policy s.world)
    (hs : siteStep policy m s = some s') : Filed policy s'.world := by
  cases m with
  | queue a reaches =>
    rw [siteStep] at hs
    split_ifs at hs
    obtain ⟨w', hw', rfl⟩ := Option.map_eq_some_iff.mp hs
    exact h.step hw'
  | task id =>
    obtain rfl := Option.some.inj hs
    exact h
  | reuse id | connect id ok =>
    rw [siteStep] at hs
    split_ifs at hs
    obtain rfl := Option.some.inj hs
    exact h
  | restored id =>
    rw [siteStep] at hs
    split_ifs at hs
    obtain rfl := Option.some.inj hs
    exact h.step (a := .deviceEvent id .connectionRestored) rfl
  | lose id =>
    rw [siteStep] at hs
    split_ifs at hs
    obtain rfl := Option.some.inj hs
    exact h.step (a := .deviceEvent id .connectionLost) rfl

/-- **The links stay tended**, if the losses and the failed attempts are backed. -/
theorem AllTended.step {m : Move} {s' : Site} (h : AllTended s) (hf : Filed policy s.world)
    (hb : Backed m s) (hs : siteStep policy m s = some s') : AllTended s' := by
  cases m with
  | queue a reaches =>
    rw [siteStep] at hs
    split_ifs at hs with ha
    obtain ⟨w', hw', rfl⟩ := Option.map_eq_some_iff.mp hs
    exact fun id => (h id).push _ (down_step hf.listed (Bool.eq_false_iff.mpr ha) hw')
  | task id =>
    obtain rfl := Option.some.inj hs
    exact h.setLink id ((h id).push 1 fun hd => hd) fun _ _ => rfl
  | reuse id =>
    rw [siteStep] at hs
    split_ifs at hs with hon
    obtain rfl := Option.some.inj hs
    exact h.setLink id ((h id).reuse hon.1 hon.2) fun _ _ => rfl
  | connect id ok =>
    rw [siteStep] at hs
    split_ifs at hs with hoff
    obtain rfl := Option.some.inj hs
    refine h.setLink id ?_ fun _ _ => rfl
    rcases ok with _ | _
    · exact (h id).connect_failed hoff.2 hoff.1 hb
    · exact (h id).connect_ok hoff.2
  | restored id =>
    rw [siteStep] at hs
    split_ifs at hs
    obtain rfl := Option.some.inj hs
    have hdown : ∀ id', down (s.world.queue.deviceEvent id .connectionRestored) id' =
        if id = id' then false else down s.world.queue id' := fun id' => down_deviceEvent
    refine h.setLink id ((h id).told ?_) fun id' he => ?_
    · change ¬ down (s.world.queue.deviceEvent id .connectionRestored) id = true
      rw [hdown, if_pos rfl]
      decide
    · exact (hdown id').trans (if_neg fun he' => he he'.symm)
  | lose id =>
    rw [siteStep] at hs
    split_ifs at hs with hon
    obtain rfl := Option.some.inj hs
    have hdown : ∀ id', down (s.world.queue.deviceEvent id .connectionLost) id' =
        if id = id' then true else down s.world.queue id' := fun id' => down_deviceEvent
    refine h.setLink id ((h id).lose hon hb) fun id' he => ?_
    exact (hdown id').trans (if_neg fun he' => he he'.symm)

theorem tended_of_reach (h : Reach (siteStep policy) Backed {} s) :
    Filed policy s.world ∧ AllTended s :=
  Reach.invariant (I := fun s => Filed policy s.world ∧ AllTended s)
    ⟨filed_init, fun _ => tended_init⟩
    (fun _ _ _ hi hb hs => ⟨site_filed hi.1 hs, hi.2.step hi.1 hb hs⟩) h

/-- **A lane that is held for its link alone is not forgotten**, where the losses and the failed
attempts are backed: a task that will connect is there, or the news that the link is back. -/
theorem held_for_link_ends (h : Reach (siteStep policy) Backed {} s)
    (hheld : HeldForLink policy s.world.queue id) :
    0 < (s.link id).tasks ∨ (id, .connectionRestored) ∈ s.world.queue.deviceEvents := by
  obtain ⟨-, htended⟩ := tended_of_reach h
  by_cases hlost : down s.world.queue id = true
  · exact .inl ((htended id).backed hlost)
  · obtain ⟨e, hmem, he⟩ := exists_restored _ hheld.down (Bool.eq_false_iff.mpr hlost)
    obtain ⟨hmem, hid⟩ := List.mem_filter.mp hmem
    refine .inr ?_
    rw [decide_eq_true_iff] at hid
    rw [← hid, ← he]
    exact hmem

/-- A ticket is in flight and another waits when the link is lost; then its job fails. `meanwhile` is
what else the worker is asked for before the loss. -/
def lostLink (meanwhile : List Move) : List Move :=
  [.queue (.enqueue (str "bar") {} (some (str "j1")) 0 0 0) fun _ => true,
   .connect (str "bar") true,
   .queue (.enqueue (str "bar") {} (some (str "j2")) 0 0 0) fun _ => true] ++ meanwhile ++
  [.lose (str "bar"), .queue (.finish (str "j1") .failedKnown) fun _ => true,
   .queue (.tick 1) fun _ => true]

/-- The state after some moves. -/
def siteAfter (moves : List Move) : Site :=
  (replay (siteStep {}) (fun _ _ => True) moves {}).getD {}

theorem held_for_link_ends_bar :
    0 < ((siteAfter (lostLink [.task (str "bar")])).link (str "bar")).tasks ∨
      (str "bar", .connectionRestored) ∈
        (siteAfter (lostLink [.task (str "bar")])).world.queue.deviceEvents := by
  have hrun : replay (siteStep {}) Backed (lostLink [.task (str "bar")]) {} =
      some (siteAfter (lostLink [.task (str "bar")])) := rfl
  exact held_for_link_ends (reach_of_replay .init hrun)
    ⟨by decide +kernel, by decide +kernel, by decide +kernel, by decide +kernel⟩

/-- Without another task nobody connects again, and the second ticket waits for good. -/
theorem wedged : ¬ ∀ (policy : QueuePolicy) (s : Site) (id : Bytes),
    Reach (siteStep policy) (fun _ _ => True) {} s → HeldForLink policy s.world.queue id →
      0 < (s.link id).tasks ∨ (id, .connectionRestored) ∈ s.world.queue.deviceEvents := by
  intro hall
  have hrun : replay (siteStep {}) (fun _ _ => True) (lostLink []) {} =
      some (siteAfter (lostLink [])) := rfl
  rcases hall {} _ (str "bar") (reach_of_replay .init hrun)
    ⟨by decide +kernel, by decide +kernel, by decide +kernel, by decide +kernel⟩ with h | h
  · exact absurd h (by decide +kernel)
  · exact absurd h (by decide +kernel)

end PrinterDriver.Queue.Links
