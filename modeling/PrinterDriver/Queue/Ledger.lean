import PrinterDriver.Queue.QueueRuns

/-! # The books of the queue

Every job that the queue created waits, was handed over, expired or was refused, and the counters say
how many (`Filed`). A lane is in flight exactly while one job of it is unfinished, or its end is in
the inbox (`Busy`). -/

namespace PrinterDriver.Queue.Ledger

open PrinterDriver.Core.Types PrinterDriver.Lib.Runs
open PrinterDriver.Queue.PrintQueue PrinterDriver.Queue.Lanes PrinterDriver.Queue.QueueRuns

variable {policy : QueuePolicy} {w w' : World} {a : Action} {id job : Bytes}

/-! ### Where the jobs are -/

/-- The jobs by what became of them: they wait, were handed over, expired, or were refused. -/
def filed (w : World) : List Ticket :=
  (waiting w.queue).map Placed.ticket ++ w.handed.map Placed.ticket ++ w.expired ++ w.overflowed

/-- Every job is filed once, the counters count, and no lane is too deep. -/
structure Filed (policy : QueuePolicy) (w : World) : Prop where
  listed : Listed w.queue
  accounted : (filed w).Perm w.created
  once : (w.created.map Ticket.job).Nodup
  expired : w.queue.expired = w.expired.length
  overflowed : w.queue.overflowed = w.overflowed.length
  drained : w.queue.drained = w.handed.length
  depth : policy.maxDepth ≠ 0 → ∀ id, (w.queue.lane id).waiting.length ≤ policy.maxDepth

theorem filed_init : Filed policy {} where
  listed := listed_init
  accounted := .refl _
  once := List.nodup_nil
  expired := rfl
  overflowed := rfl
  drained := rfl
  depth _ _ := Nat.zero_le _

/-- A new job is filed where the jobs that were filed are, and it. -/
theorem accounted_append {filed' : List Ticket} {t : Ticket} (h : (filed w).Perm w.created)
    (h' : filed'.Perm (filed w ++ [t])) : filed'.Perm (w.created ++ [t]) :=
  h'.trans (List.Perm.append_right _ h)

theorem once_append {t : Ticket} (h : (w.created.map Ticket.job).Nodup)
    (hnew : t.job ∉ w.created.map Ticket.job) : ((w.created ++ [t]).map Ticket.job).Nodup := by
  rw [List.map_append, List.map_singleton]
  refine List.nodup_append.mpr ⟨h, List.nodup_singleton _, fun x hx y hy => ?_⟩
  rw [List.mem_singleton] at hy
  rintro rfl
  exact hnew (hy ▸ hx)

/-- Lanes of which one is written over stay within their depth if it does. -/
theorem depth_setLane {s : QueueState} {l : QueueLane} {n : ℕ}
    (h : ∀ id, (s.lane id).waiting.length ≤ n) (hl : l.waiting.length ≤ n) (id' : Bytes) :
    ((s.setLane id l).lane id').waiting.length ≤ n := by
  by_cases hid : id' = id
  · subst hid
    rw [setLane_lane]
    exact hl
  · rw [setLane_lane_of_ne hid]
    exact h id'

theorem worked_waiting_length {now : ℕ} {l : QueueLane} {p : LanePump} (hw : Worked policy now l p) :
    p.lane.waiting.length ≤ l.waiting.length := by
  have hsplit := hw.split.length_eq
  rw [List.length_append] at hsplit
  omega

theorem Listed.of_eq {s t : QueueState} (h : Listed s) (horder : t.order = s.order)
    (hlanes : t.lanes = s.lanes) : Listed t where
  once := horder ▸ h.once
  mem id := by rw [horder, hlanes, h.mem]

/-- The tickets of a lane that is written over with some items more waiting. -/
theorem tickets_setLane {s : QueueState} {l : QueueLane} (h : Listed s) {extra : List QueueItem}
    (hl : l.waiting = (s.lane id).waiting ++ extra) :
    ((waiting (s.setLane id l)).map Placed.ticket).Perm
      ((waiting s).map Placed.ticket ++ extra.map fun item => ⟨id, item.job⟩) := by
  have hperm := (waiting_setLane h hl).map Placed.ticket
  rw [List.map_append, List.map_map] at hperm
  exact hperm

theorem Filed.started (h : Filed policy w) {status : DeviceStatus} {priority : ℤ}
    (hnew : job ∉ w.created.map Ticket.job) : Filed policy { w with
      queue := (w.queue.setLane id (w.queue.laneLocked id status).start).count 0 1
      created := w.created ++ [⟨id, job⟩]
      handed := w.handed ++ [⟨id, { job, priority, seq := w.queue.nextSeq }⟩] } := by
  have hwait : (w.queue.laneLocked id status).start.waiting = (w.queue.lane id).waiting ++ [] :=
    (laneLocked_waiting _ _).trans (List.append_nil _).symm
  have hperm := tickets_setLane h.listed hwait
  refine ⟨Listed.of_eq (h.listed.setLane id _) rfl rfl, accounted_append h.accounted ?_,
    once_append h.once hnew, h.expired, h.overflowed, ?_, fun h0 => ?_⟩
  · refine List.perm_iff_count.mpr fun t => ?_
    have hcount := hperm.count_eq t
    unfold filed
    change List.count t ((waiting (w.queue.setLane id _)).map Placed.ticket ++
      (w.handed ++ [_]).map Placed.ticket ++ w.expired ++ w.overflowed) = _
    simp only [List.map_append, List.count_append, List.map_nil, List.count_nil] at hcount ⊢
    have hticket : List.map Placed.ticket [⟨id, { job, priority, seq := w.queue.nextSeq }⟩] =
      [⟨id, job⟩] := rfl
    rw [hticket]
    omega
  · have hlen := h.drained
    change w.queue.drained + 1 = _
    rw [List.length_append, List.length_singleton, hlen]
  · refine depth_setLane (h.depth h0) ?_
    rw [hwait, List.append_nil]
    exact h.depth h0 id

theorem Filed.refused (h : Filed policy w) {status : DeviceStatus}
    (hnew : job ∉ w.created.map Ticket.job) : Filed policy { w with
      queue := (w.queue.setLane id (w.queue.laneLocked id status)).refuse
      created := w.created ++ [⟨id, job⟩]
      overflowed := w.overflowed ++ [⟨id, job⟩] } := by
  have hwait : (w.queue.laneLocked id status).waiting = (w.queue.lane id).waiting ++ [] :=
    (laneLocked_waiting _ _).trans (List.append_nil _).symm
  have hperm := tickets_setLane h.listed hwait
  refine ⟨Listed.of_eq (h.listed.setLane id _) rfl rfl, accounted_append h.accounted ?_,
    once_append h.once hnew, h.expired, ?_, h.drained, fun h0 => ?_⟩
  · refine List.perm_iff_count.mpr fun t => ?_
    have hcount := hperm.count_eq t
    unfold filed
    change List.count t ((waiting (w.queue.setLane id _)).map Placed.ticket ++
      w.handed.map Placed.ticket ++ w.expired ++ (w.overflowed ++ [⟨id, job⟩])) = _
    simp only [List.count_append, List.map_nil, List.count_nil] at hcount ⊢
    omega
  · have hlen := h.overflowed
    change w.queue.overflowed + 1 = _
    rw [List.length_append, List.length_singleton, hlen]
  · refine depth_setLane (h.depth h0) ?_
    rw [hwait, List.append_nil]
    exact h.depth h0 id

theorem Filed.held (h : Filed policy w) {status : DeviceStatus} {priority : ℤ} {ttlMs now : ℕ}
    (hnew : job ∉ w.created.map Ticket.job)
    (hroom : policy.maxDepth ≠ 0 →
      (w.queue.laneLocked id status).waiting.length < policy.maxDepth) : Filed policy { w with
      queue := (w.queue.setLane id ((w.queue.laneLocked id status).push
        (newItem policy w.queue job priority ttlMs now))).accept.signal
      created := w.created ++ [⟨id, job⟩]
      thread := w.thread.notify } := by
  have hwait : ((w.queue.laneLocked id status).push
      (newItem policy w.queue job priority ttlMs now)).waiting =
      (w.queue.lane id).waiting ++ [newItem policy w.queue job priority ttlMs now] :=
    congrArg (· ++ [newItem policy w.queue job priority ttlMs now]) (laneLocked_waiting _ _)
  have hperm := tickets_setLane h.listed hwait
  refine ⟨Listed.of_eq (h.listed.setLane id _) rfl rfl, accounted_append h.accounted ?_,
    once_append h.once hnew, h.expired, h.overflowed, h.drained, fun h0 => ?_⟩
  · refine List.perm_iff_count.mpr fun t => ?_
    have hcount := hperm.count_eq t
    unfold filed
    change List.count t ((waiting (w.queue.setLane id _)).map Placed.ticket ++
      w.handed.map Placed.ticket ++ w.expired ++ w.overflowed) = _
    simp only [List.count_append, List.map_singleton] at hcount ⊢
    have hjob : (newItem policy w.queue job priority ttlMs now).job = job := rfl
    rw [hjob] at hcount
    omega
  · refine depth_setLane (h.depth h0) ?_
    rw [hwait, List.length_append, List.length_singleton, ← laneLocked_waiting w.queue status]
    exact hroom h0

section
variable {now : ℕ} {work : Bytes → LanePump} {r : Pumped × QueueState}

theorem Filed.pumped (h : Filed policy w) (hp : Pumps policy now w.queue work r) (thread : Phase) :
    Filed policy ((w.pumped r).goTo thread) := by
  have hperm := hp.waiting.map Placed.ticket
  refine ⟨hp.listed h.listed, ?_, h.once, ?_, ?_, ?_, fun h0 id => ?_⟩
  · refine List.Perm.trans (List.perm_iff_count.mpr fun t => ?_) h.accounted
    have hcount := hperm.count_eq t
    unfold filed
    change List.count t ((waiting r.2).map Placed.ticket ++ (w.handed ++ r.1.started).map Placed.ticket ++
      (w.expired ++ r.1.expired.map Placed.ticket) ++ w.overflowed) = _
    simp only [List.map_append, List.count_append] at hcount ⊢
    omega
  · have hlen := h.expired
    change r.2.expired = (w.expired ++ r.1.expired.map Placed.ticket).length
    rw [hp.queue, hp.expired, List.length_append, List.length_map, ← hlen]
    simp only [List.length_flatMap, List.length_map]
  · have hlen := h.overflowed
    change r.2.overflowed = w.overflowed.length
    rw [hp.queue]
    exact hlen
  · have hlen := h.drained
    change r.2.drained = (w.handed ++ r.1.started).length
    rw [hp.queue, hp.started, List.length_append, ← hlen]
    simp only [List.length_flatMap, List.length_map]
  · change (r.2.lane id).waiting.length ≤ policy.maxDepth
    by_cases hid : id ∈ w.queue.order
    · have hle := worked_waiting_length (hp.worked id)
      rw [settle_waiting] at hle
      rw [hp.lane hid]
      exact Nat.le_trans hle (h.depth h0 id)
    · rw [hp.lane_of_notMem hid]
      exact Nat.zero_le _

end

theorem Filed.quiet (h : Filed policy w) (hq : Quiet w w') : Filed policy w' := by
  refine ⟨hq.calm.listed h.listed, ?_, ?_, ?_, ?_, ?_, fun h0 id => ?_⟩
  · have hperm := (hq.calm.waiting h.listed).map Placed.ticket
    unfold filed
    rw [hq.handed, hq.expired, hq.overflowed, hq.created]
    exact (((hperm.append_right _).append_right _).append_right _).trans h.accounted
  · rw [hq.created]
    exact h.once
  · rw [hq.calm.expired, hq.expired]
    exact h.expired
  · rw [hq.calm.overflowed, hq.overflowed]
    exact h.overflowed
  · rw [hq.calm.drained, hq.handed]
    exact h.drained
  · rw [(hq.calm.lane id).1]
    exact h.depth h0 id

theorem Filed.step (h : Filed policy w) (hs : step policy a w = some w') : Filed policy w' := by
  rcases step_moved hs with @⟨_, hq, -, -⟩ |
    @⟨id, status, job, priority, ttlMs, now, hnew, -, rfl⟩ |
    @⟨id, status, job, priority, ttlMs, now, hnew, -, rfl⟩ |
    @⟨id, status, job, priority, ttlMs, now, hnew, -, hroom, rfl⟩ |
    @⟨_, now, thread, -, rfl⟩ | @⟨x, state, -, -, rfl⟩
  · exact h.quiet hq
  · exact h.started hnew
  · exact h.refused hnew
  · exact h.held hnew hroom
  · exact h.pumped (pump_pumps h.listed policy now) thread
  · exact ⟨Listed.of_eq h.listed rfl rfl, h.accounted, h.once, h.expired, h.overflowed, h.drained,
      h.depth⟩

/-! ### No job is filed twice -/

theorem Filed.jobs_nodup (h : Filed policy w) : ((filed w).map Ticket.job).Nodup :=
  (h.accounted.map Ticket.job).nodup_iff.mpr h.once

theorem Filed.handed_nodup (h : Filed policy w) : (w.handed.map (·.item.job)).Nodup := by
  have hn := h.jobs_nodup
  unfold filed at hn
  rw [List.map_append, List.map_append, List.map_append, List.append_assoc,
    List.append_assoc] at hn
  have hmid := (List.nodup_append.mp (List.nodup_append.mp hn).2.1).1
  rwa [List.map_map] at hmid

/-- A job that waits was not handed over. -/
theorem Filed.waiting_not_handed (h : Filed policy w) {x y : Placed} (hx : x ∈ waiting w.queue)
    (hy : y ∈ w.handed) : x.item.job ≠ y.item.job := by
  have hn := h.jobs_nodup
  unfold filed at hn
  rw [List.map_append, List.map_append, List.map_append, List.append_assoc,
    List.append_assoc] at hn
  refine (List.nodup_append.mp hn).2.2 _ ?_ _ (List.mem_append_left _ ?_)
  · exact List.mem_map.mpr ⟨x.ticket, List.mem_map_of_mem hx, rfl⟩
  · exact List.mem_map.mpr ⟨y.ticket, List.mem_map_of_mem hy, rfl⟩

/-- A job that expired was not handed over. -/
theorem Filed.expired_not_handed (h : Filed policy w) {t : Ticket} {y : Placed} (ht : t ∈ w.expired)
    (hy : y ∈ w.handed) : y.item.job ≠ t.job := by
  have hn := h.jobs_nodup
  unfold filed at hn
  rw [List.map_append, List.map_append, List.map_append] at hn
  refine (List.nodup_append.mp (List.nodup_append.mp hn).1).2.2 _ (List.mem_append_right _ ?_) _
    (List.mem_map_of_mem ht)
  exact List.mem_map.mpr ⟨y.ticket, List.mem_map_of_mem hy, rfl⟩

theorem Filed.handed_created (h : Filed policy w) {y : Placed} (hy : y ∈ w.handed) :
    y.item.job ∈ w.created.map Ticket.job := by
  have hmem : y.ticket ∈ filed w :=
    List.mem_append_left _ (List.mem_append_left _ (List.mem_append_right _
      (List.mem_map_of_mem hy)))
  exact List.mem_map.mpr ⟨y.ticket, h.accounted.subset hmem, rfl⟩

/-! ### One job in flight -/

/-- The jobs of a lane that were handed over and have not ended. -/
def unfinished (w : World) (id : Bytes) : List Placed :=
  w.handed.filter fun h => h.printerId = id ∧ w.ended h.item.job = none

/-- A lane is in flight while a job of it is unfinished, or its end is in the inbox; only jobs that
were handed over have ended. -/
structure Busy (w : World) : Prop where
  one : ∀ id, (unfinished w id).length + (endings w.queue id).length =
    (w.queue.lane id).inFlight.toNat
  ended : ∀ job, w.ended job ≠ none → ∃ h ∈ w.handed, h.item.job = job

theorem busy_init : Busy {} where
  one _ := rfl
  ended _ h := absurd rfl h

theorem not_ended (hb : Busy w) (h : Filed policy w) (hnew : job ∉ w.created.map Ticket.job) :
    w.ended job = none := by
  by_contra hne
  obtain ⟨y, hy, rfl⟩ := hb.ended job hne
  exact hnew (h.handed_created hy)

theorem waiting_not_ended (hb : Busy w) (h : Filed policy w) {x : Placed}
    (hx : x ∈ waiting w.queue) : w.ended x.item.job = none := by
  by_contra hne
  obtain ⟨y, hy, he⟩ := hb.ended _ hne
  exact h.waiting_not_handed hx hy he.symm

theorem drainable_inFlight {l : QueueLane} (h : l.drainable policy = true) : l.inFlight = false := by
  unfold QueueLane.drainable at h
  simp only [Bool.and_eq_true, Bool.not_eq_true', Bool.or_eq_false_iff] at h
  exact h.1.2

theorem drainable_blocked {l : QueueLane} (h : l.drainable policy = true) : l.blocked = false := by
  unfold QueueLane.drainable at h
  simp only [Bool.and_eq_true, Bool.not_eq_true', Bool.or_eq_false_iff] at h
  exact h.1.1.2

/-- The entries of one key in a list that is spread over keys. -/
theorem filter_flatMap {β : Type} {keys : List Bytes} {f : Bytes → List β} {key : β → Bytes}
    (hnd : keys.Nodup) (hf : ∀ k, ∀ x ∈ f k, key x = k) (hid : id ∈ keys) :
    (keys.flatMap f).filter (key · = id) = f id := by
  induction keys with
  | nil => exact absurd hid List.not_mem_nil
  | cons k keys ih =>
    obtain ⟨hk, hnd'⟩ := List.nodup_cons.mp hnd
    rw [List.flatMap_cons, List.filter_append]
    by_cases heq : k = id
    · subst heq
      have hself : (f k).filter (key · = k) = f k :=
        List.filter_eq_self.mpr fun x hx => decide_eq_true (hf k x hx)
      have hrest : (keys.flatMap f).filter (key · = k) = [] := by
        rw [List.filter_eq_nil_iff]
        intro x hx hxk
        obtain ⟨k', hk', hx'⟩ := List.mem_flatMap.mp hx
        rw [decide_eq_true_iff, hf k' x hx'] at hxk
        exact hk (hxk ▸ hk')
      rw [hself, hrest, List.append_nil]
    · have hnone : (f k).filter (key · = id) = [] := by
        rw [List.filter_eq_nil_iff]
        intro x hx hxk
        rw [decide_eq_true_iff, hf k x hx] at hxk
        exact heq hxk
      have hid' : id ∈ keys := by
        rcases List.mem_cons.mp hid with h | h
        · exact absurd h.symm heq
        · exact h
      rw [hnone, List.nil_append]
      exact ih hnd' hid'

/-- The lane flags of one lane that is written over, and of the others. -/
theorem inFlight_setLane {s : QueueState} {l : QueueLane} (id' : Bytes) :
    ((s.setLane id l).lane id').inFlight =
      if id' = id then l.inFlight else (s.lane id').inFlight := by
  by_cases hid : id' = id
  · rw [if_pos hid, hid, setLane_lane]
  · rw [if_neg hid, setLane_lane_of_ne hid]

/-- One more job is handed over. -/
theorem unfinished_append (handed : List Placed) {ended : Bytes → Option JobState} {x : Placed}
    (hopen : ended x.item.job = none) (id : Bytes) :
    ((handed ++ [x]).filter fun h => h.printerId = id ∧ ended h.item.job = none).length =
      (handed.filter fun h => h.printerId = id ∧ ended h.item.job = none).length +
        if id = x.printerId then 1 else 0 := by
  rw [List.filter_append, List.length_append, List.filter_singleton]
  by_cases h : id = x.printerId
  · rw [if_pos h]
    simp [h, hopen]
  · have h' : ¬ x.printerId = id := fun he => h he.symm
    rw [if_neg h]
    simp [h']

theorem Busy.quiet (hb : Busy w) (hq : Quiet w w') : Busy w' := by
  refine ⟨fun id => ?_, ?_⟩
  · have hone := hb.one id
    unfold unfinished endings at *
    rw [hq.handed, hq.ended, hq.calm.completions, (hq.calm.lane id).2]
    exact hone
  · rw [hq.ended, hq.handed]
    exact hb.ended

theorem Busy.started (hb : Busy w) (h : Filed policy w) {status : DeviceStatus} {priority : ℤ}
    (hnew : job ∉ w.created.map Ticket.job)
    (hdrain : (w.queue.laneLocked id status).drainable policy = true) : Busy { w with
      queue := (w.queue.setLane id (w.queue.laneLocked id status).start).count 0 1
      created := w.created ++ [⟨id, job⟩]
      handed := w.handed ++ [⟨id, { job, priority, seq := w.queue.nextSeq }⟩] } := by
  refine ⟨fun id' => ?_, fun j hj => ?_⟩
  · have hone := hb.one id'
    have hopen := not_ended hb h hnew
    have hfly : (w.queue.lane id).inFlight = false :=
      (laneLocked_inFlight _ _).symm.trans (drainable_inFlight hdrain)
    have hlen := unfinished_append w.handed
      (x := ⟨id, { job, priority, seq := w.queue.nextSeq }⟩) hopen id'
    have hlane : ((w.queue.setLane id (w.queue.laneLocked id status).start).lane id').inFlight =
        if id' = id then true else (w.queue.lane id').inFlight := inFlight_setLane id'
    change List.length (List.filter _ (w.handed ++ [_])) + (endings w.queue id').length =
      (((w.queue.setLane id (w.queue.laneLocked id status).start).lane id').inFlight).toNat
    rw [hlen, hlane]
    unfold unfinished at hone
    by_cases hid : id' = id
    · subst hid
      rw [hfly, Bool.toNat_false] at hone
      rw [if_pos rfl, if_pos rfl, Bool.toNat_true]
      omega
    · rw [if_neg hid, if_neg hid, ← hone]
      rfl
  · obtain ⟨y, hy, he⟩ := hb.ended j hj
    exact ⟨y, List.mem_append_left _ hy, he⟩

/-- A lane that is written over, with no job more in flight. -/
theorem Busy.setLane (hb : Busy w) {l : QueueLane} (hl : l.inFlight = (w.queue.lane id).inFlight)
    (hhanded : w'.handed = w.handed) (hended : w'.ended = w.ended)
    (hcomp : w'.queue.completions = w.queue.completions)
    (hlane : ∀ id', w'.queue.lane id' = (w.queue.setLane id l).lane id') : Busy w' := by
  refine ⟨fun id' => ?_, ?_⟩
  · have hone := hb.one id'
    unfold unfinished endings at *
    rw [hhanded, hended, hcomp, hlane, inFlight_setLane, hone]
    split_ifs with hid
    · rw [hl, hid]
    · rfl
  · rw [hended, hhanded]
    exact hb.ended

section
variable {now : ℕ} {work : Bytes → LanePump} {r : Pumped × QueueState}

/-- The jobs of a lane that a pump starts. -/
theorem pumps_started_filter {s : QueueState} (h : Listed s) (hp : Pumps policy now s work r)
    (hid : id ∈ s.order) :
    r.1.started.filter (·.printerId = id) = (work id).started.toList.map (⟨id, ·⟩) := by
  rw [hp.started]
  refine filter_flatMap h.once (fun k x hx => ?_) hid
  obtain ⟨item, -, rfl⟩ := List.mem_map.mp hx
  rfl

/-- A job that a pump starts on a lane waited there. -/
theorem pumps_started_mem {s : QueueState} (hp : Pumps policy now s work r) {x : Placed}
    (hx : x ∈ r.1.started) :
    x ∈ waiting s ∧ x.printerId ∈ s.order ∧ (work x.printerId).started = some x.item := by
  refine ⟨hp.waiting.symm.subset (List.mem_append_left _ (List.mem_append_right _ hx)), ?_⟩
  rw [hp.started] at hx
  obtain ⟨id, hid, hx⟩ := List.mem_flatMap.mp hx
  obtain ⟨item, hitem, rfl⟩ := List.mem_map.mp hx
  exact ⟨hid, Option.mem_toList.mp hitem⟩

/-- The pump adds the jobs that it starts on a lane to the unfinished ones. -/
theorem unfinished_pumped (hb : Busy w) (h : Filed policy w) (hp : Pumps policy now w.queue work r)
    (thread : Phase) :
    unfinished ((w.pumped r).goTo thread) id =
      unfinished w id ++ r.1.started.filter (·.printerId = id) := by
  have hopen : r.1.started.filter (fun x => x.printerId = id ∧ w.ended x.item.job = none) =
      r.1.started.filter (·.printerId = id) := by
    refine List.filter_congr fun x hx => ?_
    have hx' := waiting_not_ended hb h (pumps_started_mem hp hx).1
    simp only [hx', and_true]
  rw [← hopen]
  exact List.filter_append _ _

theorem Busy.pumped (hb : Busy w) (h : Filed policy w) (hp : Pumps policy now w.queue work r)
    (thread : Phase) : Busy ((w.pumped r).goTo thread) := by
  refine ⟨fun id => ?_, fun j hj => ?_⟩
  · have hone := hb.one id
    have hend : endings r.2 id = [] := by
      unfold endings
      rw [hp.queue]
      rfl
    rw [unfinished_pumped hb h hp thread, List.length_append]
    change _ + _ + (endings r.2 id).length = (r.2.lane id).inFlight.toNat
    rw [hend, List.length_nil, Nat.add_zero]
    by_cases hid : id ∈ w.queue.order
    · have hworked := hp.worked id
      rw [pumps_started_filter h.listed hp hid, hp.lane hid, List.length_map]
      have hle : (w.queue.lane id).inFlight.toNat ≤ 1 := Bool.toNat_le _
      have hfly := settle_inFlight w.queue id (w.queue.lane id)
      rw [hworked.inFlight]
      rcases hst : (work id).started with _ | item
      · rw [Option.toList_none, List.length_nil, Option.isSome_none, Bool.or_false, hfly]
        rcases hends : endings w.queue id with _ | ⟨c, cs⟩
        · rw [hends, List.length_nil] at hone
          rw [List.isEmpty_nil, Bool.and_true]
          exact hone
        · rw [hends, List.length_cons] at hone
          rw [List.isEmpty_cons, Bool.and_false, Bool.toNat_false]
          omega
      · have hidle := drainable_inFlight (hworked.started item hst).1
        rw [Option.toList_some, List.length_singleton, Option.isSome_some, Bool.or_true,
          Bool.toNat_true]
        rw [hfly] at hidle
        rcases hends : endings w.queue id with _ | ⟨c, cs⟩
        · rw [hends, List.isEmpty_nil, Bool.and_true] at hidle
          rw [hends, List.length_nil, hidle, Bool.toNat_false] at hone
          omega
        · rw [hends, List.length_cons] at hone
          omega
    · have hnone : r.1.started.filter (·.printerId = id) = [] := by
        rw [List.filter_eq_nil_iff]
        intro x hx hxid
        rw [decide_eq_true_iff] at hxid
        exact hid (hxid ▸ (pumps_started_mem hp hx).2.1)
      rw [h.listed.lane_eq hid] at hone
      change _ = 0 at hone
      rw [hnone, hp.lane_of_notMem hid, List.length_nil]
      change _ = 0
      omega
  · obtain ⟨y, hy, he⟩ := hb.ended j hj
    exact ⟨y, List.mem_append_left _ hy, he⟩

end

/-- The end of a job takes it from the unfinished ones. -/
theorem unfinished_finished (h : Filed policy w) {x : Placed} (hmem : x ∈ w.handed)
    (hopen : w.ended x.item.job = none) (state : JobState) (id : Bytes) :
    (w.handed.filter fun y => y.printerId = id ∧
      Function.update w.ended x.item.job (some state) y.item.job = none).length +
        (if id = x.printerId then 1 else 0) = (unfinished w id).length := by
  have hsame : ∀ y ∈ w.handed, y.item.job = x.item.job → y = x := fun y hy he =>
    List.inj_on_of_nodup_map h.handed_nodup hy hmem he
  have hfilter : (w.handed.filter fun y => y.printerId = id ∧
      Function.update w.ended x.item.job (some state) y.item.job = none) =
      (unfinished w id).filter (· != x) := by
    unfold unfinished
    rw [List.filter_filter]
    refine List.filter_congr fun y hy => ?_
    by_cases hyx : y = x
    · subst hyx
      simp
    · have hjob : y.item.job ≠ x.item.job := fun he => hyx (hsame y hy he)
      simp [Function.update_of_ne hjob, hyx]
  have hnd : (unfinished w id).Nodup :=
    (List.Nodup.of_map _ h.handed_nodup).filter _
  rw [hfilter, ← hnd.erase_eq_filter]
  by_cases hid : id = x.printerId
  · have hx : x ∈ unfinished w id := List.mem_filter.mpr ⟨hmem, by simp [hid, hopen]⟩
    have hpos := List.length_pos_of_mem hx
    rw [if_pos hid, List.length_erase_of_mem hx]
    omega
  · have hx : x ∉ unfinished w id := fun hx => by
      have hid' := (List.mem_filter.mp hx).2
      simp only [decide_eq_true_eq] at hid'
      exact hid hid'.1.symm
    rw [if_neg hid, List.erase_of_not_mem hx, Nat.add_zero]

theorem Busy.finished (hb : Busy w) (h : Filed policy w) {x : Placed} (hmem : x ∈ w.handed)
    (hopen : w.ended x.item.job = none) (state : JobState) : Busy { w with
      queue := w.queue.completion x.printerId state
      ended := Function.update w.ended x.item.job (some state)
      notifies := w.notifies + 1 } := by
  refine ⟨fun id => ?_, fun j hj => ?_⟩
  · have hone := hb.one id
    have hlen := unfinished_finished h hmem hopen state id
    have hend : (endings (w.queue.completion x.printerId state) id).length =
        (endings w.queue id).length + if id = x.printerId then 1 else 0 := by
      change (List.filter _ (w.queue.completions ++ [_])).length = _
      rw [List.filter_append, List.length_append, List.filter_singleton]
      by_cases hid : id = x.printerId
      · rw [if_pos hid]
        simp [endings, hid]
      · have hid' : ¬ x.printerId = id := fun he => hid he.symm
        rw [if_neg hid]
        simp [endings, hid']
    change List.length (List.filter _ w.handed) +
      (endings (w.queue.completion x.printerId state) id).length = (w.queue.lane id).inFlight.toNat
    rw [hend, ← hone, ← hlen]
    dsimp only
    omega
  · by_cases hjx : j = x.item.job
    · exact ⟨x, hmem, hjx.symm⟩
    · have hkept : Function.update w.ended x.item.job (some state) j = w.ended j :=
        Function.update_of_ne hjx _ _
      have hj' : w.ended j ≠ none := fun hnone => hj (hkept.trans hnone)
      exact hb.ended j hj'

theorem Busy.step (hb : Busy w) (h : Filed policy w) (hs : step policy a w = some w') : Busy w' := by
  rcases step_moved hs with @⟨_, hq, -, -⟩ |
    @⟨id, status, job, priority, ttlMs, now, hnew, hdrain, rfl⟩ |
    @⟨id, status, job, priority, ttlMs, now, -, -, rfl⟩ |
    @⟨id, status, job, priority, ttlMs, now, -, -, -, rfl⟩ |
    @⟨_, now, thread, -, rfl⟩ | @⟨x, state, hmem, hopen, rfl⟩
  · exact hb.quiet hq
  · exact hb.started h hnew hdrain
  · exact hb.setLane (laneLocked_inFlight _ _) rfl rfl rfl fun _ => rfl
  · exact hb.setLane (l := (w.queue.laneLocked id status).push
      (newItem policy w.queue job priority ttlMs now)) (laneLocked_inFlight _ _) rfl rfl rfl
      fun _ => rfl
  · exact hb.pumped h (pump_pumps h.listed policy now) thread
  · exact hb.finished h hmem hopen state

/-! ### Runs -/

/-- The states of the runs of the queue, the engine's callbacks and the other threads, in any
order. -/
def Reachable (policy : QueuePolicy) (w : World) : Prop :=
  Reach (step policy) (fun _ _ => True) {} w

theorem sound_of_reachable (h : Reachable policy w) : Filed policy w ∧ Busy w :=
  Reach.invariant (I := fun w => Filed policy w ∧ Busy w) ⟨filed_init, busy_init⟩
    (fun _ _ _ hi _ hs => ⟨hi.1.step hs, hi.2.step hi.1 hs⟩) h

theorem Reachable.step (h : Reachable policy w) (hs : step policy a w = some w') :
    Reachable policy w' :=
  Reach.step a h trivial hs

end PrinterDriver.Queue.Ledger
