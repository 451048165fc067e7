import PrinterDriver.Queue.Ledger

/-! # The order of the hand-overs

Jobs rank by their acceptance (`Ranked`): the sequence numbers of the waiting jobs follow it. The
pump takes the waiting jobs in order. An enqueue that starts its job at once looks at the flags of
the lane alone, and overtakes what waits there unless it yields (`Polite`). -/

namespace PrinterDriver.Queue.Order

open PrinterDriver.Core.Types PrinterDriver.Lib.Runs
open PrinterDriver.Queue.PrintQueue PrinterDriver.Queue.Lanes PrinterDriver.Queue.QueueRuns
open PrinterDriver.Queue.Ledger

variable {policy : QueuePolicy} {w w' : World} {a : Action} {id job : Bytes}

/-! ### The order that the policy asks for -/

/-- One job was accepted before another. -/
def Earlier (created : List Ticket) (x y : Placed) : Prop :=
  created.idxOf x.ticket < created.idxOf y.ticket

/-- One job comes before another: in the order of acceptance, or by priority first. -/
def Before (policy : QueuePolicy) (created : List Ticket) (x y : Placed) : Prop :=
  match policy.drainOrder with
  | .fifo => Earlier created x y
  | .priority => y.item.priority < x.item.priority ∨
      x.item.priority = y.item.priority ∧ Earlier created x y

/-- No job that still waits on the lane of a job that the move handed over comes before it. -/
def InOrder (policy : QueuePolicy) (w w' : World) : Prop :=
  ∀ h ∈ w'.handed, h ∉ w.handed → ∀ x ∈ waiting w'.queue, x.printerId = h.printerId →
    ¬ Before policy w'.created x h

/-- A waiting job yields to a new one only by its priority. -/
def Yields (policy : QueuePolicy) (priority : ℤ) (item : QueueItem) : Prop :=
  policy.drainOrder = .priority ∧ item.priority < priority

/-- What waits on the lane yields to a job that is started at once. -/
def Polite (policy : QueuePolicy) : Action → World → Prop
  | .enqueue id status (some _) priority _ _, w =>
    (w.queue.laneLocked id status).drainable policy = true →
      ∀ item ∈ (w.queue.lane id).waiting, Yields policy priority item
  | _, _ => True

/-! ### Sequence numbers -/

/-- The sequence numbers of what waits follow the acceptance. -/
structure Ranked (w : World) : Prop where
  below : ∀ x ∈ waiting w.queue, x.item.seq < w.queue.nextSeq
  earlier : ∀ x ∈ waiting w.queue, ∀ y ∈ waiting w.queue, x.item.seq < y.item.seq →
    Earlier w.created x y
  inj : ∀ x ∈ waiting w.queue, ∀ y ∈ waiting w.queue, x.item.seq = y.item.seq → x = y

theorem ranked_init : Ranked {} where
  below _ h := absurd h List.not_mem_nil
  earlier _ h := absurd h List.not_mem_nil
  inj _ h := absurd h List.not_mem_nil

theorem waiting_created (h : Filed policy w) {x : Placed} (hx : x ∈ waiting w.queue) :
    x.ticket ∈ w.created :=
  h.accounted.subset (List.mem_append_left _ (List.mem_append_left _ (List.mem_append_left _
    (List.mem_map_of_mem hx))))

theorem earlier_append {created extra : List Ticket} {x y : Placed} (hx : x.ticket ∈ created)
    (hy : y.ticket ∈ created) : Earlier (created ++ extra) x y ↔ Earlier created x y := by
  unfold Earlier
  rw [List.idxOf_append_of_mem hx, List.idxOf_append_of_mem hy]

/-- A job that was accepted comes before a new one. -/
theorem earlier_new {created : List Ticket} {x y : Placed} (hx : x.ticket ∈ created)
    (hy : y.ticket ∉ created) : Earlier (created ++ [y.ticket]) x y := by
  unfold Earlier
  rw [List.idxOf_append_of_mem hx, List.idxOf_append_of_notMem hy]
  have hlt := List.idxOf_lt_length_iff.mpr hx
  omega

/-- Fewer jobs wait, and they rank as they did. -/
theorem Ranked.fewer (h : Ranked w) (hf : Filed policy w) {extra : List Ticket}
    (hwait : waiting w'.queue ⊆ waiting w.queue) (hseq : w'.queue.nextSeq = w.queue.nextSeq)
    (hcreated : w'.created = w.created ++ extra) : Ranked w' where
  below x hx := hseq ▸ h.below x (hwait hx)
  earlier x hx y hy hlt := by
    rw [hcreated, earlier_append (waiting_created hf (hwait hx)) (waiting_created hf (hwait hy))]
    exact h.earlier x (hwait hx) y (hwait hy) hlt
  inj x hx y hy he := h.inj x (hwait hx) y (hwait hy) he

/-- One more job waits, with the next number. -/
theorem Ranked.more (h : Ranked w) (hf : Filed policy w) {x : Placed}
    (hnew : x.ticket ∉ w.created) (hx : x.item.seq = w.queue.nextSeq)
    (hwait : ∀ y, y ∈ waiting w'.queue → y ∈ waiting w.queue ∨ y = x)
    (hseq : w'.queue.nextSeq = w.queue.nextSeq + 1) (hcreated : w'.created = w.created ++ [x.ticket]) :
    Ranked w' := by
  refine ⟨fun y hy => ?_, fun y hy z hz hlt => ?_, fun y hy z hz he => ?_⟩
  · rcases hwait y hy with hy | rfl
    · have hlt := h.below y hy
      omega
    · omega
  · rw [hcreated]
    rcases hwait y hy with hy | rfl
    · rcases hwait z hz with hz | rfl
      · rw [earlier_append (waiting_created hf hy) (waiting_created hf hz)]
        exact h.earlier y hy z hz hlt
      · exact earlier_new (waiting_created hf hy) hnew
    · rcases hwait z hz with hz | rfl
      · have hbelow := h.below z hz
        omega
      · omega
  · rcases hwait y hy with hy | rfl
    · rcases hwait z hz with hz | rfl
      · exact h.inj y hy z hz he
      · have hlt := h.below y hy
        omega
    · rcases hwait z hz with hz | rfl
      · have hlt := h.below z hz
        omega
      · rfl

theorem ticket_new {t : Ticket} (hnew : t.job ∉ w.created.map Ticket.job) : t ∉ w.created :=
  fun ht => hnew (List.mem_map_of_mem ht)

theorem mem_waiting_setLane {s : QueueState} {l : QueueLane} (h : Listed s) {extra : List QueueItem}
    (hl : l.waiting = (s.lane id).waiting ++ extra) {x : Placed} :
    x ∈ waiting (s.setLane id l) ↔ x ∈ waiting s ∨ x ∈ extra.map (Placed.mk id) := by
  rw [(waiting_setLane h hl).mem_iff, List.mem_append]

theorem Ranked.step (h : Ranked w) (hf : Filed policy w) (hs : step policy a w = some w') :
    Ranked w' := by
  rcases step_moved hs with @⟨_, hq, -, -⟩ |
    @⟨id, status, job, priority, ttlMs, now, hnew, hdrain, rfl⟩ |
    @⟨id, status, job, priority, ttlMs, now, -, -, rfl⟩ |
    @⟨id, status, job, priority, ttlMs, now, hnew, -, -, rfl⟩ |
    @⟨_, now, thread, -, rfl⟩ | @⟨x, state, hmem, hopen, rfl⟩
  · exact h.fewer hf (hq.calm.waiting hf.listed).subset hq.calm.nextSeq
      (hq.created.trans (List.append_nil _).symm)
  · have hwait : (w.queue.laneLocked id status).start.waiting = (w.queue.lane id).waiting ++ [] :=
      (laneLocked_waiting _ _).trans (List.append_nil _).symm
    refine h.fewer hf (fun x hx => ?_) rfl rfl
    rcases (mem_waiting_setLane hf.listed hwait).mp hx with hx | hx
    · exact hx
    · exact absurd hx List.not_mem_nil
  · have hwait : (w.queue.laneLocked id status).waiting = (w.queue.lane id).waiting ++ [] :=
      (laneLocked_waiting _ _).trans (List.append_nil _).symm
    refine h.fewer hf (fun x hx => ?_) rfl rfl
    rcases (mem_waiting_setLane hf.listed hwait).mp hx with hx | hx
    · exact hx
    · exact absurd hx List.not_mem_nil
  · have hwait : ((w.queue.laneLocked id status).push
        (newItem policy w.queue job priority ttlMs now)).waiting =
        (w.queue.lane id).waiting ++ [newItem policy w.queue job priority ttlMs now] :=
      congrArg (· ++ [newItem policy w.queue job priority ttlMs now]) (laneLocked_waiting _ _)
    refine h.more hf (x := ⟨id, newItem policy w.queue job priority ttlMs now⟩) (ticket_new hnew)
      rfl (fun y hy => ?_) rfl rfl
    rcases (mem_waiting_setLane hf.listed hwait).mp hy with hy | hy
    · exact .inl hy
    · exact .inr (List.mem_singleton.mp hy)
  · obtain ⟨-, -, -, hq⟩ := pump_spec hf.listed policy now
    refine h.fewer hf (fun x hx => ?_) ?_ (List.append_nil _).symm
    · exact (pump_pumps hf.listed policy now).waiting.symm.subset (List.mem_append_right _ hx)
    · change (w.queue.pumpLocked policy now).2.nextSeq = _
      rw [hq]
      rfl
  · exact h.fewer hf (List.Subset.refl _) rfl (List.append_nil _).symm

/-! ### What a move hands over -/

/-- A waiting job that the selection puts behind another one comes after it. -/
theorem not_before_of_not_precedes (h : Ranked w) {x y : Placed} (hx : x ∈ waiting w.queue)
    (hy : y ∈ waiting w.queue) (hp : ¬ precedes policy x.item y.item) :
    ¬ Before policy w.created x y := by
  have hlate : ¬ x.item.seq < y.item.seq → ¬ Earlier w.created x y := by
    intro hseq hearlier
    rcases Nat.lt_or_ge y.item.seq x.item.seq with hlt | hge
    · have hback := h.earlier y hy x hx hlt
      unfold Earlier at hearlier hback
      omega
    · obtain rfl := h.inj x hx y hy (by omega)
      exact absurd hearlier (Nat.lt_irrefl _)
  unfold precedes at hp
  unfold Before
  rcases hd : policy.drainOrder
  · rw [hd, if_neg (fun hc => by cases hc.1)] at hp
    exact hlate hp
  · rw [hd] at hp
    rintro (hlt | ⟨heq, hearlier⟩)
    · rw [if_pos ⟨rfl, by omega⟩] at hp
      exact hp hlt
    · rw [if_neg fun hc => hc.2 heq] at hp
      exact hlate hp hearlier

/-- The pump hands over in order. -/
theorem pump_in_order (h : Ranked w) (hf : Filed policy w) (now : ℕ) (thread : Phase) :
    InOrder policy w ((w.pumped (w.queue.pumpLocked policy now)).goTo thread) := by
  intro y hy hynew x hx hxy
  change y ∈ w.handed ++ (w.queue.pumpLocked policy now).1.started at hy
  change x ∈ waiting (w.queue.pumpLocked policy now).2 at hx
  change ¬ Before policy w.created x y
  have hstarted : y ∈ (w.queue.pumpLocked policy now).1.started := by
    rcases List.mem_append.mp hy with hy | hy
    · exact absurd hy hynew
    · exact hy
  obtain ⟨hywait, hlane, hround⟩ := pumps_started_mem (pump_pumps hf.listed policy now) hstarted
  have hxwait : x ∈ waiting w.queue :=
    (pump_pumps hf.listed policy now).waiting.symm.subset (List.mem_append_right _ hx)
  refine not_before_of_not_precedes h hxwait hywait ?_
  have hitem := (mem_waiting ((pump_pumps hf.listed policy now).listed hf.listed)).mp hx
  rw [hxy, pump_lane hf.listed hlane] at hitem
  exact (pumpLane_started hround).2.2 x.item hitem

/-- What waits comes before a new job unless it yields. -/
theorem before_new_iff {created : List Ticket} {x y : Placed} (hx : x.ticket ∈ created)
    (hy : y.ticket ∉ created) :
    ¬ Before policy (created ++ [y.ticket]) x y ↔ Yields policy y.item.priority x.item := by
  have hearlier := earlier_new hx hy
  unfold Before Yields
  rcases policy.drainOrder
  · simp [hearlier]
  · simp only [hearlier, and_true, true_and]
    omega

/-- A job that is started at once is handed over in order just if what waits yields. -/
theorem started_in_order_iff (hf : Filed policy w) {status : DeviceStatus} {priority : ℤ}
    (hnew : job ∉ w.created.map Ticket.job) :
    InOrder policy w { w with
      queue := (w.queue.setLane id (w.queue.laneLocked id status).start).count 0 1
      created := w.created ++ [⟨id, job⟩]
      handed := w.handed ++ [⟨id, { job, priority, seq := w.queue.nextSeq }⟩] } ↔
    ∀ item ∈ (w.queue.lane id).waiting, Yields policy priority item := by
  have hwait : (w.queue.laneLocked id status).start.waiting = (w.queue.lane id).waiting ++ [] :=
    (laneLocked_waiting _ _).trans (List.append_nil _).symm
  have hmem : ∀ x : Placed, x ∈ waiting (w.queue.setLane id (w.queue.laneLocked id status).start) ↔
      x ∈ waiting w.queue := by
    intro x
    rw [mem_waiting_setLane hf.listed hwait]
    exact or_iff_left List.not_mem_nil
  constructor
  · intro h item hitem
    have hx : (⟨id, item⟩ : Placed) ∈ waiting w.queue := (mem_waiting hf.listed).mpr hitem
    have hnothanded : (⟨id, { job, priority, seq := w.queue.nextSeq }⟩ : Placed) ∉ w.handed :=
      fun hy => hnew (hf.handed_created hy)
    exact (before_new_iff (waiting_created hf hx)
      (y := ⟨id, { job, priority, seq := w.queue.nextSeq }⟩) (ticket_new hnew)).mp
      (h _ (List.mem_append_right _ (List.mem_singleton_self _)) hnothanded _ ((hmem _).mpr hx) rfl)
  · intro h y hy hynew x hx hxy
    have hx' := (hmem x).mp hx
    rcases List.mem_append.mp hy with hy | hy
    · exact absurd hy hynew
    · obtain rfl := List.mem_singleton.mp hy
      have hitem := (mem_waiting hf.listed).mp hx'
      rw [hxy] at hitem
      exact (before_new_iff (waiting_created hf hx')
        (y := ⟨id, { job, priority, seq := w.queue.nextSeq }⟩) (ticket_new hnew)).mpr
        (h x.item hitem)

theorem in_order_of_same (h : w'.handed = w.handed) : InOrder policy w w' :=
  fun _ hy hynew => absurd (h ▸ hy) hynew

/-- A move hands over in order just if it is polite. -/
theorem in_order_iff (h : Ranked w) (hf : Filed policy w) (hs : step policy a w = some w') :
    InOrder policy w w' ↔ Polite policy a w := by
  rcases step_moved hs with @⟨_, hq, hc, -⟩ |
    @⟨id, status, job, priority, ttlMs, now, hnew, hdrain, rfl⟩ |
    @⟨id, status, job, priority, ttlMs, now, -, hdrain, rfl⟩ |
    @⟨id, status, job, priority, ttlMs, now, -, hdrain, -, rfl⟩ |
    @⟨_, now, thread, ha, rfl⟩ | @⟨x, state, hmem, hopen, rfl⟩
  · refine iff_of_true (in_order_of_same hq.handed) ?_
    unfold Polite
    split
    · cases hc
    · trivial
  · rw [started_in_order_iff hf hnew]
    exact ⟨fun hy _ => hy, fun hy => hy hdrain⟩
  · refine iff_of_true (in_order_of_same rfl) fun hd => ?_
    rw [hdrain] at hd
    cases hd
  · refine iff_of_true (in_order_of_same rfl) fun hd => ?_
    rw [hdrain] at hd
    cases hd
  · refine iff_of_true (pump_in_order h hf now thread) ?_
    rcases ha with rfl | rfl <;> trivial
  · exact iff_of_true (in_order_of_same rfl) trivial

/-! ### Runs -/

/-- **The hand-overs of a run are in order just if its enqueues are polite.** -/
theorem run_in_order_iff (policy : QueuePolicy) (actions : List Action) :
    Along (step policy) (fun _ w w' => InOrder policy w w') actions {} ↔
      Along (step policy) (fun a w _ => Polite policy a w) actions {} := by
  refine along_congr (I := fun w => Filed policy w ∧ Ranked w) (fun a w w' hi hs _ => ?_)
    (fun a w w' hi hs => ?_) actions {} ⟨filed_init, ranked_init⟩
  · exact ⟨hi.1.step hs, hi.2.step hi.1 hs⟩
  · exact in_order_iff hi.2 hi.1 hs

/-- A lane is paused while its job ends, and resumed; before the pump comes round a third ticket is
enqueued. -/
def resumed : World :=
  (replay (step {}) (fun _ _ => True)
    [.enqueue (str "bar") {} (some (str "j1")) 0 0 0,
     .enqueue (str "bar") {} (some (str "j2")) 0 0 0,
     .pause (str "bar"), .finish (str "j1") .doneSoftware, .tick 1, .resume (str "bar")] {}).getD {}

/-- The third ticket is handed over before the second, which waits. -/
theorem overtaken : ¬ ∀ (policy : QueuePolicy) (w w' : World) (a : Action), Reachable policy w →
    step policy a w = some w' → InOrder policy w w' := by
  intro hall
  have hrun : replay (step {}) (fun _ _ => True)
      [.enqueue (str "bar") {} (some (str "j1")) 0 0 0,
       .enqueue (str "bar") {} (some (str "j2")) 0 0 0,
       .pause (str "bar"), .finish (str "j1") .doneSoftware, .tick 1, .resume (str "bar")] {} =
      some resumed := rfl
  have hstep : step {} (.enqueue (str "bar") {} (some (str "j3")) 0 0 1) resumed = some _ := rfl
  have hbefore := hall {} resumed _ _ (reach_of_replay .init hrun) hstep
    ⟨str "bar", { job := str "j3", seq := 1 }⟩ (by decide +kernel) (by decide +kernel)
    ⟨str "bar", { job := str "j2" }⟩ (by decide +kernel) rfl
  exact hbefore (show Earlier _ _ _ by
    unfold Earlier
    decide +kernel)

end PrinterDriver.Queue.Order
