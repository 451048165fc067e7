import PrinterDriver.Queue.Ledger

/-! # The queue's own thread

The thread pumps, looks at the inbox flag under the inbox lock, and waits until the deadline that its
pump found. While nothing is owed to it, what it left when it went to wait still holds (`Rested`):
the inbox is empty, nothing waits on a lane that drains, and no deadline is earlier than its
wake-up. A tick of another thread between the pump and the look clears the flag, and with it the
news of an earlier deadline (`Timely`). -/

namespace PrinterDriver.Queue.QueueThread

open PrinterDriver.Core.Types PrinterDriver.Lib.Runs
open PrinterDriver.Queue.PrintQueue PrinterDriver.Queue.Lanes PrinterDriver.Queue.QueueRuns
open PrinterDriver.Queue.Ledger

variable {policy : QueuePolicy} {w w' : World} {a : Action} {id job : Bytes} {next : Option ℕ}
  {s t : QueueState}

/-! ### Wake-ups -/

/-- A wake-up at `next` is at or before a deadline. -/
def Covers (next : Option ℕ) (deadline : ℕ) : Prop := ∃ n, next = some n ∧ n ≤ deadline

theorem earlier_covers {item : QueueItem} {d : ℕ}
    (h : Covers next d ∨ item.deadline = some d) : Covers (earlier next item) d := by
  unfold earlier
  rcases hitem : item.deadline with _ | e
  · rcases h with h | h
    · exact h
    · rw [hitem] at h
      cases h
  · rcases hnext : next with _ | n
    · rcases h with ⟨m, hm, -⟩ | h
      · rw [hnext] at hm
        cases hm
      · rw [hitem] at h
        exact ⟨e, rfl, Nat.le_of_eq (Option.some.inj h)⟩
    · dsimp only
      split_ifs with hlt
      · refine ⟨e, rfl, ?_⟩
        rcases h with ⟨m, hm, hle⟩ | h
        · rw [hnext] at hm
          obtain rfl := Option.some.inj hm
          omega
        · rw [hitem] at h
          exact Nat.le_of_eq (Option.some.inj h)
      · refine ⟨n, rfl, ?_⟩
        rcases h with ⟨m, hm, hle⟩ | h
        · rw [hnext] at hm
          obtain rfl := Option.some.inj hm
          exact hle
        · rw [hitem] at h
          obtain rfl := Option.some.inj h
          omega

theorem foldl_earlier_covers : ∀ (items : List QueueItem) {next : Option ℕ} {d : ℕ},
    (Covers next d ∨ ∃ item ∈ items, item.deadline = some d) →
      Covers (items.foldl earlier next) d
  | [], _, _, h => by
    rcases h with h | ⟨_, hmem, -⟩
    · exact h
    · exact absurd hmem List.not_mem_nil
  | item :: items, next, d, h => by
    rw [List.foldl_cons]
    refine foldl_earlier_covers items ?_
    rcases h with h | ⟨x, hx, hd⟩
    · exact .inl (earlier_covers (.inl h))
    · rcases List.mem_cons.mp hx with rfl | hx
      · exact .inl (earlier_covers (.inr hd))
      · exact .inr ⟨x, hx, hd⟩

theorem foldl_lanes_covers (items : Bytes → List QueueItem) : ∀ (ids : List Bytes) {next : Option ℕ}
    {d : ℕ}, (Covers next d ∨ ∃ id ∈ ids, ∃ item ∈ items id, item.deadline = some d) →
      Covers (ids.foldl (fun next id => (items id).foldl earlier next) next) d
  | [], _, _, h => by
    rcases h with h | ⟨_, hmem, -⟩
    · exact h
    · exact absurd hmem List.not_mem_nil
  | id :: ids, next, d, h => by
    rw [List.foldl_cons]
    refine foldl_lanes_covers items ids ?_
    rcases h with h | ⟨id', hid, item, hitem, hd⟩
    · exact .inl (foldl_earlier_covers _ (.inl h))
    · rcases List.mem_cons.mp hid with rfl | hid
      · exact .inl (foldl_earlier_covers _ (.inr ⟨item, hitem, hd⟩))
      · exact .inr ⟨id', hid, item, hitem, hd⟩

/-! ### At rest -/

/-- Nothing waits on a lane that drains. -/
def Drained (policy : QueuePolicy) (s : QueueState) : Prop :=
  ∀ id, (s.lane id).drainable policy = true → (s.lane id).waiting = []

/-- A wake-up at `next` is early enough for all that waits. -/
def InTime (next : Option ℕ) (s : QueueState) : Prop :=
  ∀ id, ∀ item ∈ (s.lane id).waiting, ∀ d, item.deadline = some d → Covers next d

/-- The inbox is empty, nothing waits on a lane that drains, and the wake-up is early enough. -/
structure Rested (policy : QueuePolicy) (next : Option ℕ) (s : QueueState) : Prop where
  completions : s.completions = []
  deviceEvents : s.deviceEvents = []
  drained : Drained policy s
  inTime : InTime next s

/-- A pump empties the inbox and leaves nothing on a lane that drains. -/
theorem pump_drained (h : Listed s) (policy : QueuePolicy) (now : ℕ) :
    (s.pumpLocked policy now).2.completions = [] ∧ (s.pumpLocked policy now).2.deviceEvents = [] ∧
      (s.pumpLocked policy now).2.pending = false ∧ Drained policy (s.pumpLocked policy now).2 := by
  obtain ⟨-, -, -, hq⟩ := pump_spec h policy now
  refine ⟨by rw [hq]; rfl, by rw [hq]; rfl, by rw [hq]; rfl, fun id hdrain => ?_⟩
  by_cases hid : id ∈ s.order
  · rw [pump_lane h hid] at hdrain ⊢
    exact pumpLane_rest hdrain
  · rw [pump_lane_of_notMem h hid]

/-- A pump finds the earliest deadline of what it leaves. -/
theorem pump_inTime (h : Listed s) (now : ℕ) :
    InTime (s.pumpLocked policy now).1.next (s.pumpLocked policy now).2 := by
  obtain ⟨-, -, hn, -⟩ := pump_spec h policy now
  intro id item hitem d hd
  rw [hn]
  refine foldl_lanes_covers (fun id => (roundOn policy now s id).lane.waiting) s.order
    (.inr ⟨id, ?_, item, ?_, hd⟩)
  · by_contra hid
    rw [pump_lane_of_notMem h hid] at hitem
    exact absurd hitem List.not_mem_nil
  · by_cases hid : id ∈ s.order
    · rwa [pump_lane h hid] at hitem
    · rw [pump_lane_of_notMem h hid] at hitem
      exact absurd hitem List.not_mem_nil

/-- What a pump leaves waited before, and was not due. -/
theorem pump_leaves (h : Listed s) {now : ℕ} {item : QueueItem}
    (hitem : item ∈ ((s.pumpLocked policy now).2.lane id).waiting) :
    item ∈ (s.lane id).waiting ∧ item.due now = false := by
  by_cases hid : id ∈ s.order
  · rw [pump_lane h hid] at hitem
    have hfresh : item ∈ fresh now (settle s id (s.lane id)) := by
      unfold roundOn at hitem
      rcases pumpLane_cases policy now (settle s id (s.lane id)) with ⟨_, _, -, -, -, he⟩ | ⟨-, he⟩
      · rw [he] at hitem
        exact List.mem_of_mem_eraseIdx hitem
      · rw [he] at hitem
        exact hitem
    obtain ⟨hmem, hdue⟩ := List.mem_filter.mp hfresh
    rw [settle_waiting] at hmem
    exact ⟨hmem, by simpa using hdue⟩
  · rw [pump_lane_of_notMem h hid] at hitem
    exact absurd hitem List.not_mem_nil

/-! ### Lanes without their printer -/

/-- Nothing waits on a lane whose printer is not known. -/
def Attached (s : QueueState) : Prop :=
  ∀ id, (s.lane id).attached = false → (s.lane id).waiting = []

theorem laneLocked_attached (status : DeviceStatus) : (s.laneLocked id status).attached = true := by
  unfold QueueState.laneLocked QueueLane.attach
  by_cases h : (s.lane id).attached = true
  · rw [if_pos h, h]
  · rw [if_neg h]

theorem Attached.setLane (h : Attached s) {l : QueueLane}
    (hl : l.attached = false → l.waiting = []) : Attached (s.setLane id l) := by
  intro id'
  by_cases hid : id' = id
  · subst hid
    rw [setLane_lane]
    exact hl
  · rw [setLane_lane_of_ne hid]
    exact h id'

theorem Attached.modify (h : Attached s) {f : QueueLane → QueueLane}
    (hattached : ∀ l, (f l).attached = l.attached) (hwait : ∀ l, (f l).waiting = l.waiting) :
    Attached (s.modify id f) := by
  intro id'
  rw [modify_lane]
  split_ifs with hid
  · rw [hattached, hwait]
    exact h id
  · exact h id'

theorem Attached.pump (h : Attached s) (hl : Listed s) (policy : QueuePolicy) (now : ℕ) :
    Attached (s.pumpLocked policy now).2 := by
  intro id hattached
  rw [List.eq_nil_iff_forall_not_mem]
  intro item hitem
  have hwait := (pump_leaves hl hitem).1
  by_cases hid : id ∈ s.order
  · rw [pump_lane hl hid] at hattached
    unfold roundOn at hattached
    rw [pumpLane_attached, settle_attached] at hattached
    rw [h id hattached] at hwait
    exact absurd hwait List.not_mem_nil
  · rw [hl.lane_eq hid] at hwait
    exact absurd hwait List.not_mem_nil

theorem Attached.step (h : Attached w.queue) (hl : Listed w.queue)
    (hs : step policy a w = some w') : Attached w'.queue := by
  cases a with
  | enqueue id status reserved priority ttlMs now =>
    rw [step] at hs
    split_ifs at hs
    obtain rfl := Option.some.inj hs
    rcases reserved with _ | job
    · exact h.setLane fun hf => absurd hf (by rw [laneLocked_attached]; decide)
    · unfold QueueState.enqueue
      dsimp only
      split_ifs
      · exact h.setLane (l := (w.queue.laneLocked id status).start) fun hf =>
          absurd ((laneLocked_attached status).symm.trans hf) (by decide)
      · exact h.setLane (l := w.queue.laneLocked id status) fun hf =>
          absurd ((laneLocked_attached status).symm.trans hf) (by decide)
      · exact h.setLane (l := (w.queue.laneLocked id status).push
          (newItem policy w.queue job priority ttlMs now)) fun hf =>
          absurd ((laneLocked_attached status).symm.trans hf) (by decide)
  | tick now =>
    obtain rfl := Option.some.inj hs
    exact h.pump hl policy now
  | pause id =>
    obtain rfl := Option.some.inj hs
    exact h.setLane (h id)
  | resume id =>
    obtain rfl := Option.some.inj hs
    exact h.modify (fun _ => rfl) fun _ => rfl
  | unblock id =>
    obtain rfl := Option.some.inj hs
    exact h.modify (fun _ => rfl) fun _ => rfl
  | deviceEvent id e =>
    obtain rfl := Option.some.inj hs
    exact h
  | finish job state =>
    have hf : w.finish job state = some w' := hs
    unfold World.finish at hf
    split at hf
    · cases hf
    · split_ifs at hf
      obtain rfl := Option.some.inj hf
      exact h
  | pump now =>
    rw [step] at hs
    split_ifs at hs
    · obtain rfl := Option.some.inj hs
      exact h
    · obtain rfl := Option.some.inj hs
      exact h.pump hl policy now
  | check =>
    rw [step] at hs
    split at hs
    · obtain rfl := Option.some.inj hs
      unfold World.check
      split_ifs
      · exact h
      · exact h
      · exact h
    · cases hs
  | wake =>
    rw [step] at hs
    split at hs
    · obtain rfl := Option.some.inj hs
      exact h
    · cases hs
  | stop | signal | notify =>
    rw [step] at hs
    split_ifs at hs <;> (obtain rfl := Option.some.inj hs; exact h)

/-! ### The watch -/

/-- What the thread owes itself: between its pump and its look, and in its wait, it is at rest unless
news of more is on its way. -/
def Watchful (policy : QueuePolicy) (w : World) : Prop :=
  match w.thread with
  | .pumped next => w.queue.pending = true ∨ 0 < w.signals ∨ Rested policy next w.queue
  | .waiting next false => 0 < w.signals ∨ 0 < w.notifies ∨ Rested policy next w.queue
  | _ => True

/-- The job that a tick would start on a lane. -/
def Picks (policy : QueuePolicy) (now : ℕ) (s : QueueState) (id : Bytes) (item : QueueItem) : Prop :=
  (settle s id (s.lane id)).drainable policy = true ∧
    (selectLocked policy (fresh now (settle s id (s.lane id)))).map Prod.snd = some item

/-- A tick that comes between the thread's pump and its look, and clears the flag, leaves no job
waiting whose deadline is earlier than the wake-up that the thread has in hand. -/
def Timely (policy : QueuePolicy) : Action → World → Prop
  | .tick now, w => ∀ next, w.thread = .pumped next → w.queue.pending = true → w.signals = 0 →
      ∀ id, ∀ item ∈ (w.queue.lane id).waiting, ∀ d, item.deadline = some d → now < d →
        ¬ Picks policy now w.queue id item → Covers next d
  | _, _ => True

/-- A lane is written over, and what waits on it if it drains is nothing. -/
theorem Rested.setLane (h : Rested policy next s) {l : QueueLane}
    (hdrain : l.drainable policy = true → l.waiting = [])
    (hwait : l.waiting = (s.lane id).waiting) : Rested policy next (s.setLane id l) := by
  refine ⟨h.completions, h.deviceEvents, fun id' => ?_, fun id' => ?_⟩
  · by_cases hid : id' = id
    · subst hid
      rw [setLane_lane]
      exact hdrain
    · rw [setLane_lane_of_ne hid]
      exact h.drained id'
  · by_cases hid : id' = id
    · subst hid
      rw [setLane_lane, hwait]
      exact h.inTime id'
    · rw [setLane_lane_of_ne hid]
      exact h.inTime id'

/-- What waits on the lane of an enqueue, where it drains, is nothing. -/
theorem laneLocked_drained (h : Drained policy s) (ha : Attached s) {status : DeviceStatus}
    (hdrain : (s.laneLocked id status).drainable policy = true) :
    (s.laneLocked id status).waiting = [] := by
  rw [laneLocked_waiting]
  by_cases hattached : (s.lane id).attached = true
  · have hsame : s.laneLocked id status = s.lane id := if_pos hattached
    rw [hsame] at hdrain
    exact h id hdrain
  · exact ha id (Bool.eq_false_iff.mpr hattached)

theorem start_not_drainable {l : QueueLane} : l.start.drainable policy = false := by
  simp [QueueLane.drainable, QueueLane.start]

/-- A tick leaves the thread at rest if it was, or if the tick is timely. -/
theorem Rested.tick (hl : Listed s) (hin : InTime next s) (now : ℕ) :
    Rested policy next (s.pumpLocked policy now).2 := by
  obtain ⟨hc, he, -, hd⟩ := pump_drained hl policy now
  exact ⟨hc, he, hd, fun id item hitem => hin id item (pump_leaves hl hitem).1⟩

/-- What a tick leaves waiting it did not pick. -/
theorem not_picked (h : Filed policy w) {now : ℕ} {item : QueueItem}
    (hitem : item ∈ ((w.queue.pumpLocked policy now).2.lane id).waiting) :
    ¬ Picks policy now w.queue id item := by
  rintro ⟨hdrain, hsel⟩
  obtain ⟨⟨index, picked⟩, hat, he⟩ := Option.map_eq_some_iff.mp hsel
  dsimp only at he
  subst he
  have hid : id ∈ w.queue.order := by
    by_contra hid
    rw [pump_lane_of_notMem h.listed hid] at hitem
    exact absurd hitem List.not_mem_nil
  have hstarted : (roundOn policy now w.queue id).started = some picked := by
    have hd : ((settle w.queue id (w.queue.lane id)).expire now).drainable policy = true := hdrain
    have hs : selectLocked policy ((settle w.queue id (w.queue.lane id)).expire now).waiting =
        some (index, picked) := hat
    unfold roundOn pumpLane
    dsimp only
    rw [if_pos hd, hs]
  obtain ⟨-, hst, -, -⟩ := pump_spec h.listed policy now
  have hmem : (⟨id, picked⟩ : Placed) ∈ (w.queue.pumpLocked policy now).1.started := by
    rw [hst]
    refine List.mem_flatMap.mpr ⟨id, hid, List.mem_map.mpr ⟨picked, ?_, rfl⟩⟩
    rw [hstarted]
    exact List.mem_singleton_self _
  have hf := h.pumped (pump_pumps h.listed policy now) w.thread
  have hwait : (⟨id, picked⟩ : Placed) ∈ waiting (w.queue.pumpLocked policy now).2 :=
    (mem_waiting hf.listed).mpr hitem
  exact hf.waiting_not_handed hwait (List.mem_append_right _ hmem) rfl

theorem Watchful.tick (h : Watchful policy w) (hf : Filed policy w) {now : ℕ}
    (ht : Timely policy (.tick now) w) :
    Watchful policy (w.pumped (w.queue.pumpLocked policy now)) := by
  unfold Watchful at *
  change match w.thread with
    | .pumped next => _
    | .waiting next false => _
    | _ => True
  rcases hth : w.thread with _ | next | ⟨next, _ | _⟩ | _
  · trivial
  · rw [hth] at h
    dsimp only at h ⊢
    by_cases hsig : w.signals = 0
    · refine .inr (.inr ?_)
      obtain ⟨hc, he, -, hd⟩ := pump_drained hf.listed policy now
      refine ⟨hc, he, hd, fun id item hitem d hdl => ?_⟩
      obtain ⟨hwait, hdue⟩ := pump_leaves hf.listed hitem
      rcases h with hp | hs | hr
      · refine ht next hth hp hsig id item hwait d hdl ?_ (not_picked hf hitem)
        unfold QueueItem.due at hdue
        rw [hdl] at hdue
        simpa using hdue
      · omega
      · exact hr.inTime id item hwait d hdl
    · exact .inr (.inl (Nat.pos_of_ne_zero hsig))
  · rw [hth] at h
    dsimp only at h ⊢
    rcases h with hs | hn | hr
    · exact .inl hs
    · exact .inr (.inl hn)
    · exact .inr (.inr (Rested.tick hf.listed hr.inTime now))
  · trivial
  · trivial

/-- What the thread owes itself where the queue changes, and what is owed to it does not shrink. -/
theorem Watchful.keep (h : Watchful policy w) (hth : w'.thread = w.thread)
    (hpend : w.queue.pending = true → w'.queue.pending = true)
    (hsig : w.signals ≤ w'.signals) (hnot : w.notifies ≤ w'.notifies)
    (hrest : ∀ next, Rested policy next w.queue → Rested policy next w'.queue) :
    Watchful policy w' := by
  unfold Watchful at *
  rw [hth]
  rcases hw : w.thread with _ | next | ⟨next, _ | _⟩ | _
  · trivial
  · rw [hw] at h
    rcases h with hp | hs | hr
    · exact .inl (hpend hp)
    · exact .inr (.inl (Nat.lt_of_lt_of_le hs hsig))
    · exact .inr (.inr (hrest next hr))
  · rw [hw] at h
    rcases h with hs | hn | hr
    · exact .inl (Nat.lt_of_lt_of_le hs hsig)
    · exact .inr (.inl (Nat.lt_of_lt_of_le hn hnot))
    · exact .inr (.inr (hrest next hr))
  · trivial
  · trivial

/-- A change that is in the flag, and of which a notification is owed. -/
theorem watchful_of_news (hpend : w'.queue.pending = true) (hnot : 0 < w'.notifies) :
    Watchful policy w' := by
  unfold Watchful
  split
  · exact .inl hpend
  · exact .inr (.inl hnot)
  · trivial

/-- A change of which a signal is owed. -/
theorem watchful_of_signal (hsig : 0 < w'.signals) : Watchful policy w' := by
  unfold Watchful
  split
  · exact .inr (.inl hsig)
  · exact .inl hsig
  · trivial

/-- A held job is in the flag, and the thread is notified in its wait. -/
theorem watchful_of_held (thread : Phase) (hth : w'.thread = thread.notify)
    (hpend : w'.queue.pending = true) : Watchful policy w' := by
  unfold Watchful
  rw [hth]
  rcases thread with _ | next | ⟨next, _⟩ | _
  · trivial
  · exact .inl hpend
  · trivial
  · trivial

theorem Watchful.enqueue (h : Watchful policy w) (ha : Attached w.queue) {status : DeviceStatus}
    {reserved : Option Bytes} {priority : ℤ} {ttlMs now : ℕ}
    (hs : step policy (.enqueue id status reserved priority ttlMs now) w = some w') :
    Watchful policy w' := by
  have hlane : ∀ next, Rested policy next w.queue →
      Rested policy next (w.queue.setLane id (w.queue.laneLocked id status)) := fun next hr =>
    hr.setLane (laneLocked_drained hr.drained ha) (laneLocked_waiting _ _)
  rw [step] at hs
  split_ifs at hs
  obtain rfl := Option.some.inj hs
  rcases reserved with _ | job
  · exact h.keep rfl (fun hp => hp) (Nat.le_refl _) (Nat.le_refl _) hlane
  · unfold QueueState.enqueue
    dsimp only
    by_cases hdrain : (w.queue.laneLocked id status).drainable policy = true
    · rw [if_pos hdrain]
      have hwait : (w.queue.laneLocked id status).start.waiting = (w.queue.lane id).waiting :=
        laneLocked_waiting w.queue status
      refine h.keep rfl (fun hp => hp) (Nat.le_refl _) (Nat.le_refl _) fun next hr => ?_
      have hset := hr.setLane (l := (w.queue.laneLocked id status).start)
        (fun hd => absurd hd (by rw [start_not_drainable]; decide))
        hwait
      exact ⟨hset.completions, hset.deviceEvents, hset.drained, hset.inTime⟩
    · rw [if_neg hdrain]
      split_ifs
      · refine h.keep rfl (fun hp => hp) (Nat.le_refl _) (Nat.le_refl _) fun next hr => ?_
        have hset := hlane next hr
        exact ⟨hset.completions, hset.deviceEvents, hset.drained, hset.inTime⟩
      · exact watchful_of_held w.thread rfl rfl

/-- A control of a lane: where there is such a lane a signal is owed, else nothing changes. -/
theorem Watchful.control (h : Watchful policy w) {f : QueueLane → QueueLane} :
    Watchful policy (w.control id (w.queue.modify id f)) := by
  rcases hid : w.queue.lanes id with _ | l
  · have hsame : w.queue.modify id f = w.queue := by
      unfold QueueState.modify
      rw [hid]
    rw [hsame]
    exact h.keep rfl (fun hp => hp) (Nat.le_add_right _ _) (Nat.le_refl _) fun _ hr => hr
  · refine watchful_of_signal ?_
    change 0 < w.signals + if (w.queue.lanes id).isSome then 1 else 0
    rw [hid]
    exact Nat.succ_pos _

/-- **The watch is kept** by every move, if the ticks are timely. -/
theorem Watchful.step (h : Watchful policy w) (hf : Filed policy w) (ha : Attached w.queue)
    (ht : Timely policy a w) (hs : step policy a w = some w') : Watchful policy w' := by
  cases a with
  | enqueue id status reserved priority ttlMs now => exact h.enqueue ha hs
  | tick now =>
    obtain rfl := Option.some.inj hs
    exact h.tick hf ht
  | pause id =>
    obtain rfl := Option.some.inj hs
    refine h.keep rfl (fun hp => hp) (Nat.le_refl _) (Nat.le_refl _) fun next hr =>
      hr.setLane (fun hd => ?_) rfl
    simp [QueueLane.drainable] at hd
  | resume id =>
    obtain rfl := Option.some.inj hs
    exact h.control
  | unblock id =>
    obtain rfl := Option.some.inj hs
    exact h.control
  | stop =>
    rw [PrintQueue.step] at hs
    split_ifs at hs
    · obtain rfl := Option.some.inj hs
      exact h
    · obtain rfl := Option.some.inj hs
      exact watchful_of_signal (Nat.succ_pos _)
  | signal =>
    rw [PrintQueue.step] at hs
    split_ifs at hs
    obtain rfl := Option.some.inj hs
    exact watchful_of_news rfl (Nat.succ_pos _)
  | notify =>
    rw [PrintQueue.step] at hs
    split_ifs at hs with hn
    obtain rfl := Option.some.inj hs
    unfold Watchful at *
    rcases hth : w.thread with _ | next | ⟨next, _⟩ | _
    · trivial
    · rw [hth] at h
      exact h
    · trivial
    · trivial
  | deviceEvent id e =>
    obtain rfl := Option.some.inj hs
    exact watchful_of_news rfl (Nat.succ_pos _)
  | finish job state =>
    have hfin : w.finish job state = some w' := hs
    unfold World.finish at hfin
    split at hfin
    · cases hfin
    · split_ifs at hfin
      obtain rfl := Option.some.inj hfin
      exact watchful_of_news rfl (Nat.succ_pos _)
  | pump now =>
    rw [PrintQueue.step] at hs
    split_ifs at hs
    · obtain rfl := Option.some.inj hs
      trivial
    · obtain rfl := Option.some.inj hs
      obtain ⟨hc, he, -, hd⟩ := pump_drained hf.listed policy now
      exact .inr (.inr ⟨hc, he, hd, pump_inTime hf.listed now⟩)
  | check =>
    rw [PrintQueue.step] at hs
    rcases hth : w.thread with _ | next | ⟨next, _⟩ | _
    · rw [hth] at hs
      cases hs
    · rw [hth] at hs
      obtain rfl := Option.some.inj hs
      unfold Watchful at h
      rw [hth] at h
      unfold World.check
      by_cases hp : w.queue.pending = true
      · rw [if_pos hp]
        trivial
      · rw [if_neg hp]
        split_ifs
        · trivial
        · rcases h with h | h | h
          · exact absurd h hp
          · exact .inl h
          · exact .inr (.inr h)
    · rw [hth] at hs
      cases hs
    · rw [hth] at hs
      cases hs
  | wake =>
    rw [PrintQueue.step] at hs
    split at hs
    · obtain rfl := Option.some.inj hs
      trivial
    · cases hs

/-! ### Runs -/

theorem watchful_of_reach (h : Reach (step policy) (Timely policy) {} w) :
    Filed policy w ∧ Attached w.queue ∧ Watchful policy w :=
  Reach.invariant (I := fun w => Filed policy w ∧ Attached w.queue ∧ Watchful policy w)
    ⟨filed_init, fun _ _ => rfl, trivial⟩
    (fun _ _ _ hi ht hs => ⟨hi.1.step hs, hi.2.1.step hi.1.listed hs,
      hi.2.2.step hi.1 hi.2.1 ht hs⟩) h

/-- **The thread never oversleeps while the ticks are timely.** Where it is in its wait and nothing
is owed to it, the inbox is empty, nothing waits on a lane that drains, and it wakes up at or before
the deadline of every job that waits. -/
theorem rests_while_timely (h : Reach (step policy) (Timely policy) {} w)
    (hth : w.thread = .waiting next false) (hsig : w.signals = 0) (hnot : w.notifies = 0) :
    Rested policy next w.queue := by
  obtain ⟨-, -, hwatch⟩ := watchful_of_reach h
  unfold Watchful at hwatch
  rw [hth] at hwatch
  rcases hwatch with hs | hn | hr
  · omega
  · omega
  · exact hr

/-- One ticket in flight, one held with a deadline; the thread pumps, another thread ticks, and the
thread goes to wait. -/
def asleep : World :=
  (replay (step {}) (fun _ _ => True)
    [.enqueue (str "bar") {} (some (str "j1")) 0 0 0,
     .enqueue (str "bar") {} (some (str "j2")) 0 5 0, .pump 0, .tick 1, .check] {}).getD {}

theorem rests_asleep : Rested {} (some 5000000) asleep.queue :=
  rests_while_timely
    (((((Reach.init.step (.enqueue (str "bar") {} (some (str "j1")) 0 0 0) trivial rfl).step
      (.enqueue (str "bar") {} (some (str "j2")) 0 5 0) trivial rfl).step
      (.pump 0) trivial rfl).step (.tick 1) (fun _ _ hp => by cases hp) rfl).step
      .check trivial rfl) rfl rfl rfl

/-- The second ticket is held after the thread has pumped, and the other thread's tick clears the
flag: the thread goes to wait without a wake-up, and the ticket has a deadline. -/
theorem oversleeps : ¬ ∀ (policy : QueuePolicy) (w : World) (next : Option ℕ),
    Reachable policy w → w.thread = .waiting next false → w.signals = 0 → w.notifies = 0 →
      Rested policy next w.queue := by
  intro hall
  have hrun : replay (step {}) (fun _ _ => True)
      [.enqueue (str "bar") {} (some (str "j1")) 0 0 0, .pump 0,
       .enqueue (str "bar") {} (some (str "j2")) 0 5 0, .tick 1, .check] {} = some _ := rfl
  have hrest := hall {} _ none (reach_of_replay .init hrun) rfl rfl rfl
  obtain ⟨n, hn, -⟩ := hrest.inTime (str "bar") (newItem {} {} (str "j2") 0 5 0)
    (by decide +kernel) 5000000 rfl
  cases hn

end PrinterDriver.Queue.QueueThread
