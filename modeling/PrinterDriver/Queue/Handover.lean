import PrinterDriver.Queue.Ledger

/-! # What the queue hands over, and when

A lane whose job ended Unknown is in doubt until it is unblocked (`Doubt`): nothing is handed over on
it. The pump takes the waiting jobs in order; an enqueue that starts its job at once looks at the
flags of the lane alone, and overtakes what waits there unless what waits yields to it (`Polite`). -/

namespace PrinterDriver.Queue.Handover

open PrinterDriver.Core.Types PrinterDriver.Lib.Runs
open PrinterDriver.Queue.PrintQueue PrinterDriver.Queue.Lanes PrinterDriver.Queue.QueueRuns
open PrinterDriver.Queue.Ledger

variable {policy : QueuePolicy} {w w' : World} {a : Action} {id job : Bytes}

/-! ### Doubt -/

/-- A job of the lane ended Unknown: the lane is blocked, or the news of it is in the inbox. -/
def Doubt (w : World) (id : Bytes) : Prop :=
  (w.queue.lane id).blocked = true ∨
    (w.queue.lane id).inFlight = true ∧ ∃ c ∈ endings w.queue id, c.state = .unknown

/-- A lane in doubt does not drain, before the inbox is applied or after. -/
theorem Doubt.not_drainable {l : QueueLane} (h : Doubt w id)
    (hb : l.blocked = (w.queue.lane id).blocked) (hf : l.inFlight = (w.queue.lane id).inFlight) :
    l.drainable policy ≠ true := by
  intro hd
  rcases h with h | ⟨h, -⟩
  · have hfree := drainable_blocked hd
    rw [hb, h] at hfree
    cases hfree
  · have hidle := drainable_inFlight hd
    rw [hf, h] at hidle
    cases hidle

theorem Doubt.settled (h : Doubt w id) :
    (settle w.queue id (w.queue.lane id)).blocked = true := by
  rw [settle_blocked, Bool.or_eq_true]
  rcases h with h | ⟨-, c, hc, hu⟩
  · exact .inl h
  · exact .inr (List.any_eq_true.mpr ⟨c, hc, decide_eq_true hu⟩)

/-- There is a lane that is in doubt. -/
theorem Doubt.mem (h : Doubt w id) (hl : Listed w.queue) : id ∈ w.queue.order := by
  by_contra hid
  unfold Doubt at h
  rw [hl.lane_eq hid] at h
  rcases h with h | ⟨h, -⟩
  · cases h
  · cases h

/-- The jobs that were handed over on a lane. -/
def handedOn (w : World) (id : Bytes) : List Placed := w.handed.filter (·.printerId = id)

/-- A lane that is written over with its flags as they were is in doubt as it was. -/
theorem Doubt.setLane (h : Doubt w id) {id' : Bytes} {l : QueueLane}
    (hb : l.blocked = (w.queue.lane id').blocked) (hf : l.inFlight = (w.queue.lane id').inFlight)
    (hcomp : w'.queue.completions = w.queue.completions)
    (hlane : ∀ i, w'.queue.lane i = (w.queue.setLane id' l).lane i) : Doubt w' id := by
  unfold Doubt endings at *
  rw [hcomp, hlane]
  by_cases hid : id = id'
  · subst hid
    rw [setLane_lane, hb, hf]
    exact h
  · rw [setLane_lane_of_ne hid]
    exact h

/-- **Doubt stays**, and nothing is handed over, until the lane is unblocked. -/
theorem Doubt.step (h : Doubt w id) (hf : Filed policy w) (ha : a ≠ .unblock id)
    (hs : step policy a w = some w') : Doubt w' id ∧ handedOn w' id = handedOn w id := by
  rcases step_moved hs with @⟨_, hq, -, hb⟩ |
    @⟨id', status, job, priority, ttlMs, now, hnew, hdrain, rfl⟩ |
    @⟨id', status, job, priority, ttlMs, now, -, -, rfl⟩ |
    @⟨id', status, job, priority, ttlMs, now, -, -, -, rfl⟩ |
    @⟨_, now, thread, -, rfl⟩ | @⟨x, state, hmem, hopen, rfl⟩
  · refine ⟨?_, ?_⟩
    · rcases h with h | ⟨h, hc⟩
      · exact .inl (hb id ha h)
      · refine .inr ⟨(hq.calm.lane id).2.trans h, ?_⟩
        unfold endings at *
        rw [hq.calm.completions]
        exact hc
    · unfold handedOn
      rw [hq.handed]
  · have hid : id ≠ id' := by
      rintro rfl
      exact h.not_drainable (laneLocked_blocked _ _) (laneLocked_inFlight _ _) hdrain
    refine ⟨?_, ?_⟩
    · have hlane : (w.queue.setLane id' (w.queue.laneLocked id' status).start).lane id =
          w.queue.lane id := setLane_lane_of_ne hid
      unfold Doubt endings at *
      change ((w.queue.setLane id' _).lane id).blocked = true ∨
        ((w.queue.setLane id' _).lane id).inFlight = true ∧ _
      rw [hlane]
      exact h
    · have hid' : ¬ id' = id := fun he => hid he.symm
      unfold handedOn
      rw [List.filter_append, List.filter_singleton]
      simp [hid']
  · exact ⟨h.setLane (laneLocked_blocked _ _) (laneLocked_inFlight _ _) rfl fun _ => rfl, rfl⟩
  · exact ⟨h.setLane (l := (w.queue.laneLocked id' status).push
      (newItem policy w.queue job priority ttlMs now)) (laneLocked_blocked _ _)
      (laneLocked_inFlight _ _) rfl fun _ => rfl, rfl⟩
  · have hid := h.mem hf.listed
    have hblocked : (roundOn policy now w.queue id).lane.blocked = true :=
      (pumpLane_blocked policy now _).trans h.settled
    have hnone : (roundOn policy now w.queue id).started = none := by
      rcases hst : (roundOn policy now w.queue id).started with _ | item
      · rfl
      · have hfree := drainable_blocked (pumpLane_started hst).1
        rw [h.settled] at hfree
        cases hfree
    refine ⟨.inl ?_, ?_⟩
    · change ((w.queue.pumpLocked policy now).2.lane id).blocked = true
      rw [pump_lane hf.listed hid]
      exact hblocked
    · have hstarted := pumps_started_filter hf.listed (pump_pumps hf.listed policy now) hid
      rw [hnone] at hstarted
      change List.filter _ (w.handed ++ (w.queue.pumpLocked policy now).1.started) = _
      rw [List.filter_append, hstarted]
      exact List.append_nil _
  · refine ⟨?_, rfl⟩
    rcases h with h | ⟨h, c, hc, hu⟩
    · exact .inl h
    · refine .inr ⟨h, c, ?_, hu⟩
      unfold endings at *
      change c ∈ List.filter _ (w.queue.completions ++ [_])
      rw [List.filter_append]
      exact List.mem_append_left _ hc

/-- A job that ends Unknown puts its lane in doubt. -/
theorem doubt_of_finish (h : Reachable policy w) {x : Placed} (hmem : x ∈ w.handed)
    (hs : step policy (.finish x.item.job .unknown) w = some w') :
    Doubt w' x.printerId ∧ w'.handed = w.handed := by
  obtain ⟨hf, -⟩ := sound_of_reachable h
  have hb' := (sound_of_reachable (h.step hs)).2
  have hfin : w.finish x.item.job .unknown = some w' := hs
  unfold World.finish at hfin
  rcases hfind : w.handed.find? (fun y => y.item.job = x.item.job) with _ | y
  · rw [hfind] at hfin
    cases hfin
  · rw [hfind] at hfin
    dsimp only at hfin
    split_ifs at hfin
    obtain rfl := Option.some.inj hfin
    have hjob : y.item.job = x.item.job := by simpa using List.find?_some hfind
    have hyx : y = x :=
      List.inj_on_of_nodup_map hf.handed_nodup (List.mem_of_find?_eq_some hfind) hmem hjob
    subst hyx
    have hend : (⟨y.printerId, .unknown⟩ : QueueCompletion) ∈
        endings (w.queue.completion y.printerId .unknown) y.printerId :=
      List.mem_filter.mpr ⟨List.mem_append_right _ (List.mem_singleton_self _), by simp⟩
    refine ⟨.inr ⟨?_, _, hend, rfl⟩, rfl⟩
    have hone := hb'.one y.printerId
    have hpos := List.length_pos_of_mem hend
    by_contra hidle
    rw [Bool.not_eq_true] at hidle
    rw [hidle, Bool.toNat_false] at hone
    change _ + (endings (w.queue.completion y.printerId .unknown) y.printerId).length = 0 at hone
    omega

/-- **The queue stops on doubt.** Once a job that it handed over on a lane has ended Unknown, nothing
is handed over on that lane until it is unblocked. -/
theorem stops_on_doubt (h : Reachable policy w) {x : Placed} (hmem : x ∈ w.handed) {w₁ w₂ : World}
    (hs : step policy (.finish x.item.job .unknown) w = some w₁)
    (hrun : Reach (step policy) (fun a _ => a ≠ .unblock x.printerId) w₁ w₂) :
    handedOn w₂ x.printerId = handedOn w x.printerId := by
  obtain ⟨hdoubt, hhanded⟩ := doubt_of_finish h hmem hs
  have hsame : handedOn w₁ x.printerId = handedOn w x.printerId := by
    unfold handedOn
    rw [hhanded]
  have hall := Reach.invariant
    (I := fun w₂ => Reachable policy w₂ ∧ Doubt w₂ x.printerId ∧
      handedOn w₂ x.printerId = handedOn w x.printerId)
    ⟨h.step hs, hdoubt, hsame⟩ (fun a v v' hi hg hv => by
      obtain ⟨hr, hd, he⟩ := hi
      obtain ⟨hd', he'⟩ := hd.step (sound_of_reachable hr).1 hg hv
      exact ⟨hr.step hv, hd', he'.trans he⟩) hrun
  exact hall.2.2

/-- Two tickets: the first is handed over, the second waits. -/
def twoTickets : World :=
  (replay (step {}) (fun _ _ => True)
    [.enqueue (str "bar") {} (some (str "j1")) 0 0 0,
     .enqueue (str "bar") {} (some (str "j2")) 0 0 0] {}).getD {}

/-- The first of them ended Unknown. -/
def firstUnknown : World := (step {} (.finish (str "j1") .unknown) twoTickets).getD {}

theorem stops_on_doubt_bar : ∃ w₂ : World, w₂.created.length = 3 ∧
    handedOn w₂ (str "bar") = handedOn twoTickets (str "bar") := by
  have hrun : replay (step {}) (fun _ _ => True)
      [.enqueue (str "bar") {} (some (str "j1")) 0 0 0,
       .enqueue (str "bar") {} (some (str "j2")) 0 0 0] {} = some twoTickets := rfl
  have hstep : step {} (.finish (str "j1") .unknown) twoTickets = some firstUnknown := rfl
  have hlater : replay (step {}) (fun a _ => a ≠ .unblock (str "bar"))
      [.tick 1, .resume (str "bar"), .enqueue (str "bar") {} (some (str "j3")) 0 0 1, .tick 2]
      firstUnknown = some _ := rfl
  exact ⟨_, rfl, stops_on_doubt (x := ⟨str "bar", { job := str "j1" }⟩)
    (reach_of_replay .init hrun) List.mem_cons_self hstep (reach_of_replay .init hlater)⟩

end PrinterDriver.Queue.Handover
