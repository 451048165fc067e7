import PrinterDriver.Queue.Ledger

/-! # Records that fail

The queue with the calls that throw: an `enqueue` whose append behind `reserveJob` fails, and a tick
one of whose appends fails. A pump of the queue's own thread that throws ends the process. The job
of an `enqueue` that throws is created and is nowhere (`lost_ticket`). A tick that throws at an
expired item leaves it where it waits; where no other record fails, every job is accounted for. -/

namespace PrinterDriver.Queue.FailedRecords

open PrinterDriver.Core.Types PrinterDriver.Lib.Runs
open PrinterDriver.Queue.PrintQueue PrinterDriver.Queue.Lanes PrinterDriver.Queue.QueueRuns
open PrinterDriver.Queue.Ledger

variable {policy : QueuePolicy} {w w' w₀ : World} {s : QueueState} {l : QueueLane} {now : ℕ}

/-! ### A tick that throws at an expired item -/

theorem dropDue_perm (now : ℕ) : ∀ (n : ℕ) (items : List QueueItem),
    items.Perm ((items.filter (QueueItem.due now)).take n ++ dropDue now n items)
  | 0, items => by simp [dropDue]
  | n + 1, [] => by simp [dropDue]
  | n + 1, item :: rest => by
    by_cases hdue : item.due now = true
    · have hrest := dropDue_perm now n rest
      rw [List.filter_cons_of_pos hdue, List.take_succ_cons, dropDue, if_pos hdue, List.cons_append]
      exact hrest.cons item
    · have hrest := dropDue_perm now (n + 1) rest
      rw [List.filter_cons_of_neg hdue, dropDue, if_neg hdue]
      exact (hrest.cons item).trans List.perm_middle.symm

/-- The pump of a lane whose append of the `n`th expired item fails. -/
def dropRound (now n : ℕ) (l : QueueLane) : LanePump :=
  ⟨(l.waiting.filter (QueueItem.due now)).take n, none,
    { l with waiting := dropDue now n l.waiting }⟩

theorem dropRound_worked (policy : QueuePolicy) (now n : ℕ) (l : QueueLane) :
    Worked policy now l (dropRound now n l) where
  split := by
    have hperm := dropDue_perm now n l.waiting
    unfold dropRound
    rw [Option.toList_none, List.append_nil]
    exact hperm
  inFlight := (Bool.or_false _).symm
  started _ h := absurd h (Option.some_ne_none _).symm

theorem idle_worked (policy : QueuePolicy) (now : ℕ) (l : QueueLane) :
    Worked policy now l ⟨[], none, l⟩ where
  split := .refl _
  inFlight := (Bool.or_false _).symm
  started _ h := absurd h (Option.some_ne_none _).symm

/-- What a pump did with a lane whose `n`th expiry throws, with the lanes before it, and with those
behind it. -/
def roundThrown (policy : QueuePolicy) (now : ℕ) (s : QueueState) (front : List Bytes)
    (faulty : Bytes) (n : ℕ) (id : Bytes) : LanePump :=
  if id ∈ front then roundOn policy now s id
  else if id = faulty then dropRound now n (settle s id (s.lane id))
  else ⟨[], none, settle s id (s.lane id)⟩

theorem roundThrown_worked (policy : QueuePolicy) (now : ℕ) (s : QueueState) (front : List Bytes)
    (faulty : Bytes) (n : ℕ) (id : Bytes) :
    Worked policy now (settle s id (s.lane id)) (roundThrown policy now s front faulty n id) := by
  unfold roundThrown
  split_ifs
  · exact pumpLane_worked policy now _
  · exact dropRound_worked policy now n _
  · exact idle_worked policy now _

section
variable {front back : List Bytes} {faulty id : Bytes} {n : ℕ}

theorem roundThrown_front (hid : id ∈ front) :
    roundThrown policy now s front faulty n id = roundOn policy now s id :=
  if_pos hid

theorem roundThrown_faulty (hfaulty : faulty ∉ front) :
    roundThrown policy now s front faulty n faulty =
      dropRound now n (settle s faulty (s.lane faulty)) :=
  (if_neg hfaulty).trans (if_pos rfl)

theorem roundThrown_back (hfront : id ∉ front) (hne : id ≠ faulty) :
    roundThrown policy now s front faulty n id = ⟨[], none, settle s id (s.lane id)⟩ :=
  (if_neg hfront).trans (if_neg hne)

/-- The rows of a pump that throws: the lanes behind the faulty one have none. -/
theorem flatMap_roundThrown (policy : QueuePolicy) (now : ℕ) (s : QueueState) (n : ℕ)
    (hnd : (front ++ faulty :: back).Nodup) {β : Type} (f : Bytes → LanePump → List β)
    (hf : ∀ id l, f id ⟨[], none, l⟩ = []) :
    (front ++ faulty :: back).flatMap (fun id => f id (roundThrown policy now s front faulty n id)) =
      front.flatMap (fun id => f id (roundOn policy now s id)) ++
        f faulty (dropRound now n (settle s faulty (s.lane faulty))) := by
  obtain ⟨-, hnd', hapart⟩ := List.nodup_append.mp hnd
  have hfaulty : faulty ∉ front := fun h => hapart faulty h faulty List.mem_cons_self rfl
  have hback : back.flatMap (fun id => f id (roundThrown policy now s front faulty n id)) = [] := by
    refine List.flatMap_eq_nil_iff.mpr fun id hid => ?_
    have hfront : id ∉ front := fun h => hapart id h id (List.mem_cons_of_mem faulty hid) rfl
    have hne : id ≠ faulty := fun h => (List.nodup_cons.mp hnd').1 (h ▸ hid)
    rw [roundThrown_back hfront hne, hf]
  rw [List.flatMap_append, List.flatMap_cons, hback, List.append_nil, roundThrown_faulty hfaulty,
    List.flatMap_congr fun id hid => by rw [roundThrown_front hid]]

/-- The lanes after a pump that throws. -/
theorem lanes_roundThrown (h : Listed s) (hsub : front ⊆ s.order) (hfaulty : faulty ∈ s.order)
    (hnot : faulty ∉ front) (id : Bytes) :
    (if id = faulty then some (dropRound now n (settle s faulty (s.lane faulty))).lane
      else if id ∈ front then some (roundOn policy now s id).lane
      else (s.lanes id).map (settle s id)) =
    if id ∈ s.order then some (roundThrown policy now s front faulty n id).lane else none := by
  by_cases hne : id = faulty
  · subst hne
    rw [if_pos rfl, if_pos hfaulty, roundThrown_faulty hnot]
  · rw [if_neg hne]
    by_cases hfront : id ∈ front
    · rw [if_pos hfront, if_pos (hsub hfront), roundThrown_front hfront]
    · rw [if_neg hfront]
      by_cases hid : id ∈ s.order
      · rw [if_pos hid, roundThrown_back hfront hne, h.lanes_eq hid, Option.map_some]
      · have hnone : s.lanes id = none :=
          Option.not_isSome_iff_eq_none.mp fun hsome => hid ((h.mem id).mpr hsome)
        rw [if_neg hid, hnone, Option.map_none]

end

/-- The pump of a lane that throws at an expired item. -/
theorem pumpLaneThrown_expiry {n : ℕ} {x : List QueueItem × ℕ × QueueLane}
    (hx : pumpLaneThrown policy now l (.expiry n) = some x) :
    x = ((dropRound now n l).expired, 0, (dropRound now n l).lane) := by
  rw [pumpLaneThrown] at hx
  split_ifs at hx
  exact (Option.some.inj hx).symm

/-- What a pump came to whose append of an expired item failed: the lane where it failed, those in
front of it, and those behind. -/
theorem pumpThrown_expiry {index n : ℕ} {r : Pumped × QueueState}
    (ht : s.pumpThrown policy now index (.expiry n) = some r) :
    ∃ front id back p t l, s.applyInbox.order = front ++ id :: back ∧
      front.foldl (pumpRound policy now) ({}, s.applyInbox) = (p, t) ∧ t.lanes id = some l ∧
      r = ({ p with expired := p.expired ++ (dropRound now n l).expired.map (⟨id, ·⟩) },
        (t.setLane id (dropRound now n l).lane).count (dropRound now n l).expired.length 0) := by
  unfold QueueState.pumpThrown at ht
  obtain ⟨id, hat, ht⟩ := Option.bind_eq_some_iff.mp ht
  obtain ⟨l, hlane, ht⟩ := Option.bind_eq_some_iff.mp ht
  obtain ⟨x, hx, ht⟩ := Option.bind_eq_some_iff.mp ht
  obtain rfl := pumpLaneThrown_expiry hx
  obtain ⟨hlt, rfl⟩ := List.getElem?_eq_some_iff.mp hat
  refine ⟨_, _, s.applyInbox.order.drop (index + 1), _, _, l, ?_, rfl, hlane,
    (Option.some.inj ht).symm⟩
  rw [← List.drop_eq_getElem_cons hlt, List.take_append_drop]

/-- A pump whose append of an expired item fails is a pump of the table. -/
theorem pumps_of_thrown (h : Listed s) {index n : ℕ} {r : Pumped × QueueState}
    (ht : s.pumpThrown policy now index (.expiry n) = some r) :
    ∃ work, Pumps policy now s work r := by
  obtain ⟨front, id, back, p, t, l, happ, hacc, hl, rfl⟩ := pumpThrown_expiry ht
  have hsplit : s.order = front ++ id :: back := by
    rw [← happ, applyInbox_eq]
    rfl
  have hnd : (front ++ id :: back).Nodup := hsplit ▸ h.once
  obtain ⟨hfront, -, hapart⟩ := List.nodup_append.mp hnd
  have hnot : id ∉ front := fun hid => hapart id hid id List.mem_cons_self rfl
  have hid : id ∈ s.order := hsplit ▸ List.mem_append_right _ List.mem_cons_self
  have hsub : front ⊆ s.order := hsplit ▸ List.subset_append_left _ _
  obtain ⟨he, hs, -, hq⟩ := rounds_spec h policy now hfront hsub
  rw [hacc] at he hs hq
  dsimp only at he hs hq
  have hlane : l = settle s id (s.lane id) := by
    rw [hq] at hl
    dsimp only at hl
    rw [if_neg hnot, h.lanes_eq hid] at hl
    exact (Option.some.inj hl).symm
  subst hlane
  have hrows := fun (β : Type) (f : Bytes → LanePump → List β) =>
    flatMap_roundThrown policy now s n hnd f
  rw [← hsplit] at hrows
  refine ⟨roundThrown policy now s front id n, roundThrown_worked policy now s front id n, ?_, ?_, ?_⟩
  · rw [hrows _ (fun k p => p.expired.map (Placed.mk k)) fun _ _ => rfl, he]
  · rw [hrows _ (fun k p => p.started.toList.map (Placed.mk k)) fun _ _ => rfl, hs]
    exact (List.append_nil _).symm
  · have hlanes : (t.setLane id (dropRound now n (settle s id (s.lane id))).lane).lanes = fun k =>
        if k ∈ s.order then some (roundThrown policy now s front id n k).lane else none := by
      funext k
      rw [← lanes_roundThrown h hsub hid hnot k, hq]
      exact Function.update_apply _ _ _ _
    have horder : (t.setLane id (dropRound now n (settle s id (s.lane id))).lane).order = s.order := by
      have hsome : (t.lanes id).isSome = true := by rw [hl, Option.isSome_some]
      have hkept : t.order = s.order := by
        rw [hq]
        rfl
      exact (if_pos hsome).trans hkept
    rw [hrows _ (fun _ p => p.expired) fun _ _ => rfl,
      hrows _ (fun _ p => p.started.toList) fun _ _ => rfl]
    unfold QueueState.count
    rw [hlanes, horder, hq]
    simp [QueueState.setLane, QueueState.takeInbox, dropRound, Nat.add_assoc]

/-! ### The moves -/

/-- A move whose appends succeed, or a call that throws. -/
inductive Move where
  | recorded (a : Action)
  | enqueueThrows (printerId : Bytes) (status : DeviceStatus) (job : Bytes)
  | tickThrows (now lane : ℕ) (fault : PumpFault)
  deriving DecidableEq

/-- The moves; a call that throws wakes nobody. -/
def move (policy : QueuePolicy) : Move → World → Option World
  | .recorded a, w => step policy a w
  | .enqueueThrows id status job, w =>
    if job ∈ w.created.map Ticket.job then none
    else some { w with
      queue := w.queue.enqueueThrown policy id status
      created := w.created ++ [⟨id, job⟩] }
  | .tickThrows now lane fault, w => (w.queue.pumpThrown policy now lane fault).map w.pumped

/-- The records succeed that the appends behind `reserveJob` make in `enqueue`, and the one that a start
makes in a tick. -/
def Recorded : Move → World → Prop
  | .recorded _, _ | .tickThrows _ _ (.expiry _), _ => True
  | .enqueueThrows _ _ _, _ | .tickThrows _ _ .start, _ => False

instance : ∀ a w, Decidable (Recorded a w)
  | .recorded _, _ | .tickThrows _ _ (.expiry _), _ => isTrue trivial
  | .enqueueThrows _ _ _, _ | .tickThrows _ _ .start, _ => isFalse not_false

/-! ### The books -/

/-- A move whose records succeed is a move of the queue, or a pump that throws at an expired item. -/
theorem move_cases {a : Move} (hg : Recorded a w) (h : move policy a w = some w') :
    (∃ b, step policy b w = some w') ∨ ∃ now lane n r,
      w.queue.pumpThrown policy now lane (.expiry n) = some r ∧ w' = w.pumped r := by
  rcases a with b | ⟨id, status, job⟩ | ⟨now, lane, n | _⟩
  · exact .inl ⟨b, h⟩
  · exact absurd hg not_false
  · obtain ⟨r, hr, he⟩ := Option.map_eq_some_iff.mp h
    exact .inr ⟨now, lane, n, r, hr, he.symm⟩
  · exact absurd hg not_false

/-- The books are right, and the lanes in flight. -/
theorem sound_move {a : Move} (hi : Filed policy w ∧ Busy w) (hg : Recorded a w)
    (h : move policy a w = some w') : Filed policy w' ∧ Busy w' := by
  rcases move_cases hg h with ⟨b, hs⟩ | ⟨now, lane, n, r, hr, rfl⟩
  · exact ⟨hi.1.step hs, hi.2.step hi.1 hs⟩
  · obtain ⟨work, hp⟩ := pumps_of_thrown hi.1.listed hr
    exact ⟨hi.1.pumped hp w.thread, hi.2.pumped hi.1 hp w.thread⟩

theorem sound_run (hi : Filed policy w ∧ Busy w) (h : Reach (move policy) Recorded w w') :
    Filed policy w' ∧ Busy w' :=
  Reach.invariant (I := fun w => Filed policy w ∧ Busy w) hi
    (fun _ _ _ hi hg hs => sound_move hi hg hs) h

/-- A job that expired stays expired. -/
theorem expired_step {b : Action} (hs : step policy b w = some w') : w.expired ⊆ w'.expired := by
  rcases step_moved hs with @⟨_, hq, -, -⟩ | @⟨_, _, _, _, _, _, -, -, rfl⟩ |
    @⟨_, _, _, _, _, _, -, -, rfl⟩ | @⟨_, _, _, _, _, _, -, -, -, rfl⟩ | @⟨_, _, _, -, rfl⟩ |
    @⟨_, _, -, -, rfl⟩
  · exact hq.expired ▸ List.Subset.refl _
  · exact List.Subset.refl _
  · exact List.Subset.refl _
  · exact List.Subset.refl _
  · exact List.subset_append_left _ _
  · exact List.Subset.refl _

theorem expired_run (h : Reach (move policy) Recorded w w') : w.expired ⊆ w'.expired := by
  induction h with
  | init => exact List.Subset.refl _
  | step a _ hg hs ih =>
    rcases move_cases hg hs with ⟨b, hb⟩ | ⟨now, lane, n, r, -, rfl⟩
    · exact fun _ ht => expired_step hb (ih ht)
    · exact fun _ ht => List.mem_append_left _ (ih ht)

/-- What a pump starts is fresh. -/
theorem pumps_timely {work : Bytes → LanePump} {r : Pumped × QueueState}
    (hp : Pumps policy now s work r) {x : Placed} (hx : x ∈ r.1.started) : x.item.due now = false :=
  ((hp.worked x.printerId).started x.item (pumps_started_mem hp hx).2.2).2

/-- What the books say in a state and in a later one. Every job that the queue created waits on its
lane, was handed over, expired or was refused; the counters are the sizes of these; no lane is too
deep; of the jobs of a lane that were handed over one at most is unfinished; none is handed over
twice, none after it expired, and none whose deadline has passed, also where the tick throws. -/
structure Accounted (policy : QueuePolicy) (w w' : World) : Prop where
  filed : (filed w).Perm w.created
  once : (w.created.map Ticket.job).Nodup
  expired : w.queue.expired = w.expired.length
  overflowed : w.queue.overflowed = w.overflowed.length
  drained : w.queue.drained = w.handed.length
  depth : policy.maxDepth ≠ 0 → ∀ id, (w.queue.lane id).waiting.length ≤ policy.maxDepth
  one : ∀ id, (unfinished w id).length ≤ 1
  handedOnce : (w.handed.map (·.item.job)).Nodup
  notExpired : ∀ t ∈ w.expired, ∀ x ∈ w'.handed, x.item.job ≠ t.job
  timely : ∀ now, ∀ x ∈ (w.queue.pumpLocked policy now).1.started, x.item.due now = false
  timelyThrown : ∀ now lane n r, w.queue.pumpThrown policy now lane (.expiry n) = some r →
    ∀ x ∈ r.1.started, x.item.due now = false

/-- **Every job that the queue created is in one place**, in every state of every run whose records
succeed, but for those of expired items. -/
theorem accounted_for (h : Reach (move policy) Recorded {} w)
    (hlater : Reach (move policy) Recorded w w') : Accounted policy w w' := by
  obtain ⟨hf, hb⟩ := sound_run ⟨filed_init, busy_init⟩ h
  have hf' := (sound_run ⟨hf, hb⟩ hlater).1
  refine ⟨hf.accounted, hf.once, hf.expired, hf.overflowed, hf.drained, hf.depth, fun id => ?_,
    hf.handed_nodup, fun t ht x hx => ?_, fun now x hx => ?_, fun now lane n r hr x hx => ?_⟩
  · have hone := hb.one id
    have hle : (w.queue.lane id).inFlight.toNat ≤ 1 := Bool.toNat_le _
    omega
  · exact hf'.expired_not_handed (expired_run hlater ht) hx
  · exact pumps_timely (pump_pumps hf.listed policy now) hx
  · obtain ⟨work, hp⟩ := pumps_of_thrown hf.listed hr
    exact pumps_timely hp hx

/-- One ticket starts, two wait; when the first is done one of them has expired, which a tick fails to
record and the next records. -/
def threeTickets : List Move :=
  [.recorded (.enqueue (str "bar") {} (some (str "j1")) 0 0 0),
   .recorded (.enqueue (str "bar") {} (some (str "j2")) 0 0 0),
   .recorded (.enqueue (str "bar") {} (some (str "j3")) 0 5 0),
   .recorded (.finish (str "j1") .doneSoftware),
   .tickThrows 10000000 0 (.expiry 0),
   .recorded (.tick 10000000)]

theorem accounted_for_threeTickets : ∃ w : World, w.handed.length = 2 ∧ w.expired.length = 1 ∧
    w.queue.drained = w.handed.length ∧ (filed w).Perm w.created := by
  have hrun : replay (move {}) Recorded threeTickets {} = some _ := rfl
  have hall := accounted_for (reach_of_replay .init hrun) .init
  exact ⟨_, rfl, rfl, hall.drained, hall.filed⟩

/-- A printer that was last heard to be offline. -/
def offlineStatus : DeviceStatus := { observed := true, online := some false }

/-- The printer is offline and the append of HeldOffline fails. -/
theorem lost_ticket : ¬ ∀ (policy : QueuePolicy) (w : World),
    Reach (move policy) (fun _ _ => True) {} w → Accounted policy w w := by
  intro hall
  have hrun : replay (move {}) (fun _ _ => True)
      [.enqueueThrows (str "bar") offlineStatus (str "j1")] {} = some _ := rfl
  have hfiled := (hall {} _ (reach_of_replay .init hrun)).filed
  exact absurd hfiled.length_eq (by decide)

end PrinterDriver.Queue.FailedRecords
