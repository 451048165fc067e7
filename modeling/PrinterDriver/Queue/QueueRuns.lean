import PrinterDriver.Queue.Lanes
import PrinterDriver.Lib.Runs
import Mathlib.Tactic.Common

/-! # What a move does to the jobs of the queue

A move of the queue and what is around it does one of six things to the jobs (`Moved`): it leaves
them alone, or it starts, refuses or holds a new one, pumps the lanes, or ends one. -/

namespace PrinterDriver.Queue.QueueRuns

open PrinterDriver.Core.Types PrinterDriver.Lib.Runs
open PrinterDriver.Queue.PrintQueue PrinterDriver.Queue.Lanes

variable {policy : QueuePolicy} {w w' : World} {id job : Bytes}

/-! ### The moves -/

/-- What waits, what is in flight, the counts and the ends in the inbox are as they were. -/
structure Calm (s t : QueueState) : Prop where
  nextSeq : t.nextSeq = s.nextSeq
  expired : t.expired = s.expired
  overflowed : t.overflowed = s.overflowed
  drained : t.drained = s.drained
  completions : t.completions = s.completions
  lane : ∀ id, (t.lane id).waiting = (s.lane id).waiting ∧ (t.lane id).inFlight = (s.lane id).inFlight
  listed : Listed s → Listed t
  waiting : Listed s → (waiting t).Perm (waiting s)

/-- The jobs are as they were. -/
structure Quiet (w w' : World) : Prop where
  created : w'.created = w.created
  handed : w'.handed = w.handed
  expired : w'.expired = w.expired
  overflowed : w'.overflowed = w.overflowed
  ended : w'.ended = w.ended
  calm : Calm w.queue w'.queue

/-- The move creates a job. -/
def creates : Action → Bool
  | .enqueue _ _ (some _) _ _ _ => true
  | _ => false

/-- What a move does to the jobs. -/
inductive Moved (policy : QueuePolicy) (w w' : World) : Action → Prop
  | quiet {a : Action} (hq : Quiet w w') (hc : creates a = false)
      (hb : ∀ id, a ≠ .unblock id → (w.queue.lane id).blocked = true →
        (w'.queue.lane id).blocked = true) : Moved policy w w' a
  | started {id : Bytes} {status : DeviceStatus} {job : Bytes} {priority : ℤ} {ttlMs now : ℕ}
      (hnew : job ∉ w.created.map Ticket.job)
      (hdrain : (w.queue.laneLocked id status).drainable policy = true)
      (hw : w' = { w with
        queue := (w.queue.setLane id (w.queue.laneLocked id status).start).count 0 1
        created := w.created ++ [⟨id, job⟩]
        handed := w.handed ++ [⟨id, { job, priority, seq := w.queue.nextSeq }⟩] }) :
      Moved policy w w' (.enqueue id status (some job) priority ttlMs now)
  | overflowed {id : Bytes} {status : DeviceStatus} {job : Bytes} {priority : ℤ} {ttlMs now : ℕ}
      (hnew : job ∉ w.created.map Ticket.job)
      (hdrain : (w.queue.laneLocked id status).drainable policy = false)
      (hw : w' = { w with
        queue := (w.queue.setLane id (w.queue.laneLocked id status)).refuse
        created := w.created ++ [⟨id, job⟩]
        overflowed := w.overflowed ++ [⟨id, job⟩] }) :
      Moved policy w w' (.enqueue id status (some job) priority ttlMs now)
  | held {id : Bytes} {status : DeviceStatus} {job : Bytes} {priority : ℤ} {ttlMs now : ℕ}
      (hnew : job ∉ w.created.map Ticket.job)
      (hdrain : (w.queue.laneLocked id status).drainable policy = false)
      (hroom : policy.maxDepth ≠ 0 →
        (w.queue.laneLocked id status).waiting.length < policy.maxDepth)
      (hw : w' = { w with
        queue := (w.queue.setLane id ((w.queue.laneLocked id status).push
          (newItem policy w.queue job priority ttlMs now))).accept.signal
        created := w.created ++ [⟨id, job⟩]
        thread := w.thread.notify }) :
      Moved policy w w' (.enqueue id status (some job) priority ttlMs now)
  | pumped {a : Action} {now : ℕ} (thread : Phase) (ha : a = .tick now ∨ a = .pump now)
      (hw : w' = (w.pumped (w.queue.pumpLocked policy now)).goTo thread) :
      Moved policy w w' a
  | finished {h : Placed} {state : JobState} (hmem : h ∈ w.handed)
      (hopen : w.ended h.item.job = none)
      (hw : w' = { w with
        queue := w.queue.completion h.printerId state
        ended := Function.update w.ended h.item.job (some state)
        notifies := w.notifies + 1 }) :
      Moved policy w w' (.finish h.item.job state)

section
variable (s : QueueState) (l : QueueLane) (status : DeviceStatus)

theorem attach_waiting : (l.attach status).waiting = l.waiting := by
  unfold QueueLane.attach
  split_ifs <;> rfl

theorem attach_inFlight : (l.attach status).inFlight = l.inFlight := by
  unfold QueueLane.attach
  split_ifs <;> rfl

theorem attach_blocked : (l.attach status).blocked = l.blocked := by
  unfold QueueLane.attach
  split_ifs <;> rfl

theorem laneLocked_waiting : (s.laneLocked id status).waiting = (s.lane id).waiting :=
  attach_waiting _ _

theorem laneLocked_inFlight : (s.laneLocked id status).inFlight = (s.lane id).inFlight :=
  attach_inFlight _ _

theorem laneLocked_blocked : (s.laneLocked id status).blocked = (s.lane id).blocked :=
  attach_blocked _ _

/-- A move of the inbox. -/
theorem calm_inbox (events : List (Bytes × DeviceEvent)) (pending : Bool) :
    Calm s { s with deviceEvents := events, pending := pending } where
  nextSeq := rfl
  expired := rfl
  overflowed := rfl
  drained := rfl
  completions := rfl
  lane _ := ⟨rfl, rfl⟩
  listed h := ⟨h.once, h.mem⟩
  waiting _ := .refl _

/-- A lane whose flags are written over. -/
theorem calm_setLane (hwait : l.waiting = (s.lane id).waiting)
    (hfly : l.inFlight = (s.lane id).inFlight) : Calm s (s.setLane id l) where
  nextSeq := rfl
  expired := rfl
  overflowed := rfl
  drained := rfl
  completions := rfl
  lane id' := by
    by_cases h : id' = id
    · subst h
      rw [setLane_lane]
      exact ⟨hwait, hfly⟩
    · rw [setLane_lane_of_ne h]
      exact ⟨rfl, rfl⟩
  listed h := h.setLane id l
  waiting h := by
    have hnil : l.waiting = (s.lane id).waiting ++ [] := hwait.trans (List.append_nil _).symm
    have hperm := waiting_setLane h hnil
    rwa [List.map_nil, List.append_nil] at hperm

theorem calm_modify (id : Bytes) {f : QueueLane → QueueLane} (hwait : ∀ l, (f l).waiting = l.waiting)
    (hfly : ∀ l, (f l).inFlight = l.inFlight) : Calm s (s.modify id f) := by
  rcases hs : s.lanes id with _ | l
  · have hsame : s.modify id f = s := by
      unfold QueueState.modify
      rw [hs]
    rw [hsame]
    exact calm_inbox s s.deviceEvents s.pending
  · have hlane : s.lane id = l := by
      unfold QueueState.lane
      rw [hs, Option.getD_some]
    have hset : s.modify id f = s.setLane id (f l) := by
      unfold QueueState.modify
      rw [hs]
    rw [hset]
    exact calm_setLane s (f l) (by rw [hwait, hlane]) (by rw [hfly, hlane])

end

/-- A move that changes the flags of lanes, the inbox or the threads alone. -/
theorem quiet_of {t : QueueState} (h : Calm w.queue t) (thread : Phase) (stopping : Bool)
    (signals notifies : ℕ) : Quiet w { w with
      queue := t
      thread := thread
      stopping := stopping
      signals := signals
      notifies := notifies } where
  created := rfl
  handed := rfl
  expired := rfl
  overflowed := rfl
  ended := rfl
  calm := h

theorem enqueue_moved {status : DeviceStatus} {priority : ℤ} {ttlMs now : ℕ}
    (hnew : job ∉ w.created.map Ticket.job) :
    let r := w.queue.enqueue policy id status (some job) priority ttlMs now
    Moved policy w (w.record r.2 id job priority r.1)
      (.enqueue id status (some job) priority ttlMs now) := by
  by_cases hdrain : (w.queue.laneLocked id status).drainable policy = true
  · have he : w.queue.enqueue policy id status (some job) priority ttlMs now =
        (.started, (w.queue.setLane id (w.queue.laneLocked id status).start).count 0 1) :=
      if_pos hdrain
    rw [he]
    exact .started hnew hdrain rfl
  · by_cases hfull : policy.maxDepth ≠ 0 ∧
        policy.maxDepth ≤ (w.queue.laneLocked id status).waiting.length
    · have he : w.queue.enqueue policy id status (some job) priority ttlMs now =
          (.overflowed, (w.queue.setLane id (w.queue.laneLocked id status)).refuse) :=
        (if_neg hdrain).trans (if_pos hfull)
      rw [he]
      exact .overflowed hnew (Bool.eq_false_iff.mpr hdrain) rfl
    · have he : w.queue.enqueue policy id status (some job) priority ttlMs now =
          (.held (newItem policy w.queue job priority ttlMs now),
            (w.queue.setLane id ((w.queue.laneLocked id status).push
              (newItem policy w.queue job priority ttlMs now))).accept.signal) :=
        (if_neg hdrain).trans (if_neg hfull)
      rw [he]
      refine .held hnew (Bool.eq_false_iff.mpr hdrain) (fun h0 => ?_) rfl
      by_contra hle
      exact hfull ⟨h0, Nat.le_of_not_lt hle⟩

/-- A change of a lane blocks no fewer lanes, if it is none of the blocks. -/
theorem modify_blocked {s : QueueState} {f : QueueLane → QueueLane} {id' : Bytes}
    (hf : id' = id → ∀ l, (f l).blocked = l.blocked) (h : (s.lane id').blocked = true) :
    ((s.modify id f).lane id').blocked = true := by
  rw [modify_lane]
  split_ifs with hid
  · rw [hf hid.1, ← hid.1]
    exact h
  · exact h

/-- **What the moves do to the jobs.** -/
theorem step_moved {a : Action} (h : step policy a w = some w') : Moved policy w w' a := by
  cases a with
  | enqueue id status reserved priority ttlMs now =>
    rw [step] at h
    split_ifs at h with hold
    obtain rfl := Option.some.inj h
    rcases reserved with _ | job
    · refine .quiet (quiet_of (calm_setLane w.queue _ (laneLocked_waiting _ _)
        (laneLocked_inFlight _ _)) w.thread w.stopping w.signals w.notifies) rfl fun id' _ hb => ?_
      change ((w.queue.setLane id (w.queue.laneLocked id status)).lane id').blocked = true
      by_cases hid : id' = id
      · subst hid
        rw [setLane_lane, laneLocked_blocked]
        exact hb
      · rw [setLane_lane_of_ne hid]
        exact hb
    · exact enqueue_moved fun hj => hold ⟨job, rfl, hj⟩
  | tick now =>
    obtain rfl := Option.some.inj h
    exact .pumped w.thread (.inl rfl) rfl
  | pause id =>
    obtain rfl := Option.some.inj h
    have hcalm : Calm w.queue (w.queue.pause id) := calm_setLane w.queue _ rfl rfl
    refine .quiet (quiet_of hcalm w.thread w.stopping w.signals w.notifies) rfl fun id' _ hb => ?_
    change ((w.queue.setLane id { w.queue.lane id with paused := true }).lane id').blocked = true
    by_cases hid : id' = id
    · subst hid
      rw [setLane_lane]
      exact hb
    · rw [setLane_lane_of_ne hid]
      exact hb
  | resume id =>
    obtain rfl := Option.some.inj h
    have hcalm : Calm w.queue (w.queue.resume id) :=
      calm_modify w.queue id (fun _ => rfl) fun _ => rfl
    exact .quiet (quiet_of hcalm w.thread w.stopping _ w.notifies) rfl fun id' _ hb =>
      modify_blocked (fun _ _ => rfl) hb
  | unblock id =>
    obtain rfl := Option.some.inj h
    have hcalm : Calm w.queue (w.queue.unblock id) :=
      calm_modify w.queue id (fun _ => rfl) fun _ => rfl
    refine .quiet (quiet_of hcalm w.thread w.stopping _ w.notifies) rfl fun id' hne hb =>
      modify_blocked (fun hid => ?_) hb
    exact absurd (congrArg Action.unblock hid.symm) hne
  | stop =>
    rw [step] at h
    split_ifs at h
    · obtain rfl := Option.some.inj h
      exact .quiet (quiet_of (calm_inbox w.queue w.queue.deviceEvents w.queue.pending) w.thread
        w.stopping w.signals w.notifies) rfl fun _ _ hb => hb
    obtain rfl := Option.some.inj h
    exact .quiet (quiet_of (calm_inbox w.queue w.queue.deviceEvents w.queue.pending) w.thread true
      (w.signals + 1) w.notifies) rfl fun _ _ hb => hb
  | signal =>
    rw [step] at h
    split_ifs at h
    obtain rfl := Option.some.inj h
    exact .quiet (quiet_of (calm_inbox w.queue w.queue.deviceEvents true) w.thread w.stopping
      (w.signals - 1) (w.notifies + 1)) rfl fun _ _ hb => hb
  | notify =>
    rw [step] at h
    split_ifs at h
    obtain rfl := Option.some.inj h
    exact .quiet (quiet_of (calm_inbox w.queue w.queue.deviceEvents w.queue.pending) w.thread.notify
      w.stopping w.signals (w.notifies - 1)) rfl fun _ _ hb => hb
  | deviceEvent id e =>
    obtain rfl := Option.some.inj h
    exact .quiet (quiet_of (calm_inbox w.queue (w.queue.deviceEvents ++ [(id, e)]) true) w.thread
      w.stopping w.signals (w.notifies + 1)) rfl fun _ _ hb => hb
  | finish job state =>
    have hf : w.finish job state = some w' := h
    unfold World.finish at hf
    rcases hfind : w.handed.find? (fun h => h.item.job = job) with _ | x
    · rw [hfind] at hf
      cases hf
    · rw [hfind] at hf
      dsimp only at hf
      split_ifs at hf with hopen
      obtain rfl := Option.some.inj hf
      have hjob : x.item.job = job := by simpa using List.find?_some hfind
      subst hjob
      exact .finished (List.mem_of_find?_eq_some hfind) hopen.2 rfl
  | pump now =>
    rw [step] at h
    split_ifs at h with htop hstop
    · obtain rfl := Option.some.inj h
      exact .quiet (quiet_of (calm_inbox w.queue w.queue.deviceEvents w.queue.pending) .returned
        w.stopping w.signals w.notifies) rfl fun _ _ hb => hb
    · obtain rfl := Option.some.inj h
      exact .pumped _ (.inr rfl) rfl
  | check =>
    rw [step] at h
    rcases hth : w.thread with _ | next | ⟨next, heard⟩ | _ <;> rw [hth] at h <;> try cases h
    unfold World.check
    split_ifs
    · exact .quiet (quiet_of (calm_inbox w.queue w.queue.deviceEvents false) .top w.stopping
        w.signals w.notifies) rfl fun _ _ hb => hb
    · exact .quiet (quiet_of (calm_inbox w.queue w.queue.deviceEvents w.queue.pending) .returned
        w.stopping w.signals w.notifies) rfl fun _ _ hb => hb
    · exact .quiet (quiet_of (calm_inbox w.queue w.queue.deviceEvents w.queue.pending)
        (.waiting next false) w.stopping w.signals w.notifies) rfl fun _ _ hb => hb
  | wake =>
    rw [step] at h
    rcases hth : w.thread with _ | next | ⟨next, heard⟩ | _ <;> rw [hth] at h <;> try cases h
    exact .quiet (quiet_of (calm_inbox w.queue w.queue.deviceEvents false) .top w.stopping
      w.signals w.notifies) rfl fun _ _ hb => hb

end PrinterDriver.Queue.QueueRuns
