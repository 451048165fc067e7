import PrinterDriver.Queue.PrintQueue
import Mathlib.Data.List.Nodup
import Mathlib.Data.List.Perm.Basic
import Mathlib.Data.List.Basic
import Mathlib.Tactic.SplitIfs

/-! # The lanes under the inbox and the pump

What the folds of `applyInbox` and `pumpLocked` come to on one lane: `settle` is the inbox on a lane,
`roundOn` is the pump on it. The table lists its lanes once each (`Listed`), so that a pump runs one
round on every lane and no round sees another's work (`pump_lanes`, `pump_started`,
`pump_expired`). -/

namespace PrinterDriver.Queue.Lanes

open PrinterDriver.Core.Types PrinterDriver.Queue.PrintQueue

variable {policy : QueuePolicy} {s : QueueState} {l : QueueLane} {id id' : Bytes} {now : ℕ}

/-! ### The table of the lanes -/

/-- The order lists the lanes that there are, each once. -/
structure Listed (s : QueueState) : Prop where
  once : s.order.Nodup
  mem : ∀ id, id ∈ s.order ↔ (s.lanes id).isSome = true

theorem listed_init : Listed {} where
  once := List.nodup_nil
  mem id := by simp

theorem Listed.lanes_eq (h : Listed s) (hid : id ∈ s.order) : s.lanes id = some (s.lane id) := by
  obtain ⟨l, hl⟩ := Option.isSome_iff_exists.mp ((h.mem id).mp hid)
  unfold QueueState.lane
  rw [hl, Option.getD_some]

theorem Listed.lane_eq (h : Listed s) (hid : id ∉ s.order) : s.lane id = {} := by
  have hnone : s.lanes id = none := by
    rw [← Option.not_isSome_iff_eq_none, ← h.mem id]
    exact hid
  unfold QueueState.lane
  rw [hnone, Option.getD_none]

@[simp] theorem setLane_lane : (s.setLane id l).lane id = l := by
  have h : (s.setLane id l).lanes id = some l := Function.update_self _ _ _
  unfold QueueState.lane
  rw [h, Option.getD_some]

theorem setLane_lane_of_ne (h : id' ≠ id) : (s.setLane id l).lane id' = s.lane id' := by
  have h' : (s.setLane id l).lanes id' = s.lanes id' := Function.update_of_ne h _ _
  unfold QueueState.lane
  rw [h']

theorem Listed.setLane (h : Listed s) (id : Bytes) (l : QueueLane) : Listed (s.setLane id l) := by
  have hmem : ∀ id', id' ∈ (s.setLane id l).order ↔ id' ∈ s.order ∨ id' = id := by
    intro id'
    unfold QueueState.setLane
    dsimp only
    split_ifs with hs
    · have hid := (h.mem id).mpr hs
      constructor
      · exact .inl
      · rintro (h' | rfl)
        · exact h'
        · exact hid
    · rw [List.mem_append, List.mem_singleton]
  refine ⟨?_, fun id' => ?_⟩
  · unfold QueueState.setLane
    dsimp only
    split_ifs with hs
    · exact h.once
    · have hid : id ∉ s.order := fun hid => hs ((h.mem id).mp hid)
      exact List.nodup_append.mpr ⟨h.once, List.nodup_singleton id, fun a ha b hb => by
        rw [List.mem_singleton] at hb
        rintro rfl
        exact hid (hb ▸ ha)⟩
  · rw [hmem]
    by_cases hid : id' = id
    · subst hid
      simp [QueueState.setLane]
    · have hlane : (s.setLane id l).lanes id' = s.lanes id' := Function.update_of_ne hid _ _
      rw [hlane, h.mem]
      exact or_iff_left hid

/-- A change of a lane that is there touches the table alone. -/
theorem modify_eq (s : QueueState) (id : Bytes) (f : QueueLane → QueueLane) :
    s.modify id f = { s with
      lanes := fun id' => if id' = id then (s.lanes id').map f else s.lanes id' } := by
  unfold QueueState.modify
  rcases hs : s.lanes id with _ | l
  · have hlanes : (fun id' => if id' = id then (s.lanes id').map f else s.lanes id') = s.lanes := by
      funext id'
      split_ifs with h
      · rw [h, hs, Option.map_none]
      · rfl
    rw [hlanes]
  · have hlanes : (fun id' => if id' = id then (s.lanes id').map f else s.lanes id') =
        Function.update s.lanes id (some (f l)) := by
      funext id'
      by_cases h : id' = id
      · subst h
        rw [if_pos rfl, Function.update_self, hs, Option.map_some]
      · rw [if_neg h, Function.update_of_ne h]
    unfold QueueState.setLane
    rw [hlanes, hs]
    rfl

theorem modify_lane (f : QueueLane → QueueLane) :
    (s.modify id f).lane id' = if id' = id ∧ (s.lanes id).isSome then f (s.lane id) else s.lane id' := by
  rw [modify_eq]
  unfold QueueState.lane
  dsimp only
  by_cases h : id' = id
  · subst h
    rcases s.lanes id' with _ | l <;> simp
  · rw [if_neg h, if_neg fun h' => h h'.1]

theorem Listed.modify (h : Listed s) (id : Bytes) (f : QueueLane → QueueLane) :
    Listed (s.modify id f) := by
  rw [modify_eq]
  refine ⟨h.once, fun id' => ?_⟩
  rw [h.mem]
  dsimp only
  split_ifs
  · rw [Option.isSome_map]
  · rfl

/-! ### The inbox -/

/-- The ends of jobs of a lane that are in the inbox. -/
def endings (s : QueueState) (id : Bytes) : List QueueCompletion :=
  s.completions.filter (·.printerId = id)

/-- What the device events in the inbox say about a lane. -/
def heard (s : QueueState) (id : Bytes) (l : QueueLane) : QueueLane :=
  (s.deviceEvents.filter (·.1 = id)).foldl (fun l e => l.hear e.2) l

/-- The inbox on a lane. -/
def settle (s : QueueState) (id : Bytes) (l : QueueLane) : QueueLane :=
  (endings s id).foldl (fun l c => l.complete c.state) (heard s id l)

/-- A fold of changes is, on each lane, the fold of its own changes. -/
theorem foldl_modify {β : Type} (key : β → Bytes) (f : β → QueueLane → QueueLane) :
    ∀ (xs : List β) (s : QueueState),
      xs.foldl (fun t x => t.modify (key x) (f x)) s = { s with
        lanes := fun id => (s.lanes id).map fun l =>
          (xs.filter (key · = id)).foldl (fun l x => f x l) l }
  | [], s => by simp
  | x :: xs, s => by
    rw [List.foldl_cons, foldl_modify key f xs, modify_eq]
    congr 1
    funext id
    dsimp only
    by_cases h : id = key x
    · subst h
      rw [if_pos rfl, Option.map_map, List.filter_cons_of_pos (by simp)]
      rfl
    · have h' : ¬ key x = id := fun h' => h h'.symm
      rw [if_neg h, List.filter_cons_of_neg (by simpa using h')]

theorem applyInbox_eq (s : QueueState) : s.applyInbox = { s.takeInbox with
    lanes := fun id => (s.lanes id).map (settle s id) } := by
  unfold QueueState.applyInbox
  rw [foldl_modify (fun e : Bytes × DeviceEvent => e.1) (fun e l => l.hear e.2),
    foldl_modify QueueCompletion.printerId (fun c l => l.complete c.state)]
  congr 1
  funext id
  rw [Option.map_map]
  rfl

section
variable (s : QueueState) (id : Bytes) (l : QueueLane)

@[simp] theorem hear_waiting (e : DeviceEvent) : (l.hear e).waiting = l.waiting := by
  cases e <;> rfl
@[simp] theorem hear_attached (e : DeviceEvent) : (l.hear e).attached = l.attached := by
  cases e <;> rfl
@[simp] theorem hear_blocked (e : DeviceEvent) : (l.hear e).blocked = l.blocked := by
  cases e <;> rfl
@[simp] theorem hear_inFlight (e : DeviceEvent) : (l.hear e).inFlight = l.inFlight := by
  cases e <;> rfl

/-- What a field keeps under every change, it keeps under a fold of them. -/
theorem foldl_keeps {β γ : Type} {f : QueueLane → β → QueueLane} {g : QueueLane → γ}
    (h : ∀ l x, g (f l x) = g l) : ∀ (xs : List β) (l : QueueLane), g (xs.foldl f l) = g l
  | [], _ => rfl
  | x :: xs, l => by rw [List.foldl_cons, foldl_keeps h xs, h]

/-- What a field keeps under device events and ends of jobs, it keeps under the inbox. -/
theorem settle_keeps {γ : Type} {g : QueueLane → γ} (hc : ∀ l state, g (l.complete state) = g l)
    (he : ∀ l e, g (l.hear e) = g l) : g (settle s id l) = g l := by
  have hends := foldl_keeps (f := fun l c => l.complete (QueueCompletion.state c)) (g := g)
    (fun l c => hc l c.state) (endings s id) (heard s id l)
  have hevents := foldl_keeps (f := fun l (e : Bytes × DeviceEvent) => l.hear e.2) (g := g)
    (fun l e => he l e.2) (s.deviceEvents.filter (·.1 = id)) l
  exact hends.trans hevents

theorem settle_waiting : (settle s id l).waiting = l.waiting :=
  settle_keeps s id l (fun _ _ => rfl) hear_waiting

theorem settle_attached : (settle s id l).attached = l.attached :=
  settle_keeps s id l (fun _ _ => rfl) hear_attached

theorem foldl_complete : ∀ (cs : List QueueCompletion) (l : QueueLane),
    (cs.foldl (fun l c => l.complete c.state) l).inFlight = (l.inFlight && cs.isEmpty) ∧
      (cs.foldl (fun l c => l.complete c.state) l).blocked =
        (l.blocked || cs.any (·.state = .unknown))
  | [], l => by simp
  | c :: cs, l => by
    obtain ⟨hf, hb⟩ := foldl_complete cs (l.complete c.state)
    rw [List.foldl_cons, hf, hb]
    simp [QueueLane.complete, Bool.or_assoc]

/-- The inbox frees a lane where a job of it ended. -/
theorem settle_inFlight : (settle s id l).inFlight = (l.inFlight && (endings s id).isEmpty) := by
  have he := foldl_keeps (f := fun l (e : Bytes × DeviceEvent) => l.hear e.2)
    (g := QueueLane.inFlight) (fun l e => hear_inFlight l e.2) (s.deviceEvents.filter (·.1 = id)) l
  unfold settle
  rw [(foldl_complete _ _).1]
  exact congrArg (· && (endings s id).isEmpty) he

/-- The inbox blocks a lane where a job of it ended Unknown. -/
theorem settle_blocked :
    (settle s id l).blocked = (l.blocked || (endings s id).any (·.state = .unknown)) := by
  have he := foldl_keeps (f := fun l (e : Bytes × DeviceEvent) => l.hear e.2)
    (g := QueueLane.blocked) (fun l e => hear_blocked l e.2) (s.deviceEvents.filter (·.1 = id)) l
  unfold settle
  rw [(foldl_complete _ _).2]
  exact congrArg (· || (endings s id).any (·.state = .unknown)) he

end

/-! ### The selection -/

theorem precedes_trans {x y z : QueueItem} (hxy : precedes policy x y) (hyz : precedes policy y z) :
    precedes policy x z := by
  unfold precedes at *
  by_cases hd : policy.drainOrder = .priority
  · simp only [hd, true_and] at *
    split_ifs at * <;> omega
  · simp only [hd, false_and, if_false] at *
    omega

theorem not_precedes_trans {x y z : QueueItem} (hxy : ¬ precedes policy x y)
    (hyz : ¬ precedes policy y z) : ¬ precedes policy x z := by
  unfold precedes at *
  by_cases hd : policy.drainOrder = .priority
  · simp only [hd, true_and] at *
    split_ifs at * <;> omega
  · simp only [hd, false_and, if_false] at *
    omega

theorem not_precedes_self (x : QueueItem) : ¬ precedes policy x x := by
  unfold precedes
  split_ifs <;> omega

/-- No item of the list comes before the one that the scan keeps. -/
theorem selectFrom_best (policy : QueuePolicy) :
    ∀ (rest : List QueueItem) (best : ℕ × QueueItem) (i : ℕ),
    let r := selectFrom policy best i rest
    (r = best ∨ ∃ k, rest[k]? = some r.2 ∧ r.1 = i + k) ∧
      ¬ precedes policy best.2 r.2 ∧ ∀ x ∈ rest, ¬ precedes policy x r.2
  | [], best, i => by
    exact ⟨.inl rfl, not_precedes_self best.2, fun x hx => absurd hx List.not_mem_nil⟩
  | candidate :: rest, best, i => by
    obtain ⟨hmem, hkept, hrest⟩ := selectFrom_best policy rest
      (if precedes policy candidate best.2 then (i, candidate) else best) (i + 1)
    rw [selectFrom]
    by_cases hp : precedes policy candidate best.2
    · rw [if_pos hp] at hmem hkept hrest ⊢
      refine ⟨.inr ?_, fun h => hkept (precedes_trans hp h), fun x hx => ?_⟩
      · rcases hmem with h | ⟨k, hk, hi⟩
        · exact ⟨0, by rw [h, List.getElem?_cons_zero], by rw [h]; rfl⟩
        · refine ⟨k + 1, by rw [List.getElem?_cons_succ, hk], ?_⟩
          rw [hi]
          omega
      · rcases List.mem_cons.mp hx with rfl | hx
        · exact hkept
        · exact hrest x hx
    · rw [if_neg hp] at hmem hkept hrest ⊢
      refine ⟨?_, hkept, fun x hx => ?_⟩
      · rcases hmem with h | ⟨k, hk, hi⟩
        · exact .inl h
        · refine .inr ⟨k + 1, by rw [List.getElem?_cons_succ, hk], ?_⟩
          rw [hi]
          omega
      · rcases List.mem_cons.mp hx with rfl | hx
        · exact not_precedes_trans hp hkept
        · exact hrest x hx

/-- The item that is selected, at its index; no other comes before it. -/
theorem selectLocked_best {items : List QueueItem} {index : ℕ} {picked : QueueItem}
    (h : selectLocked policy items = some (index, picked)) :
    items[index]? = some picked ∧ ∀ x ∈ items, ¬ precedes policy x picked := by
  rcases items with _ | ⟨item, rest⟩
  · simp [selectLocked] at h
  · obtain ⟨hmem, hkept, hrest⟩ := selectFrom_best policy rest (0, item) 1
    have hr : selectFrom policy (0, item) 1 rest = (index, picked) := Option.some.inj h
    rw [hr] at hmem hkept hrest
    refine ⟨?_, fun x hx => ?_⟩
    · rcases hmem with he | ⟨k, hk, hi⟩
      · obtain ⟨rfl, rfl⟩ := Prod.mk.inj he
        rfl
      · have hi' : index = k + 1 := by
          dsimp only at hi
          omega
        rw [hi', List.getElem?_cons_succ, hk]
    · rcases List.mem_cons.mp hx with rfl | hx
      · exact hkept
      · exact hrest x hx

theorem selectLocked_eq_none {items : List QueueItem} :
    selectLocked policy items = none ↔ items = [] := by
  rcases items with _ | ⟨item, rest⟩
  · simp [selectLocked]
  · simp [selectLocked]

/-! ### The pump on one lane -/

/-- What waits on a lane once the stale items are out. -/
def fresh (now : ℕ) (l : QueueLane) : List QueueItem := l.waiting.filter fun item => !item.due now

/-- What the pump does with a lane: it starts the best of the fresh items, or nothing. -/
theorem pumpLane_cases (policy : QueuePolicy) (now : ℕ) (l : QueueLane) :
    (∃ index picked, l.drainable policy = true ∧ (fresh now l)[index]? = some picked ∧
      (∀ x ∈ fresh now l, ¬ precedes policy x picked) ∧
      pumpLane policy now l = ⟨l.waiting.filter (QueueItem.due now), some picked,
        { l with waiting := (fresh now l).eraseIdx index, inFlight := true }⟩) ∨
    ((l.drainable policy = false ∨ fresh now l = []) ∧
      pumpLane policy now l = ⟨l.waiting.filter (QueueItem.due now), none,
        { l with waiting := fresh now l }⟩) := by
  have hdrain : (l.expire now).drainable policy = l.drainable policy := rfl
  have hfresh : (l.expire now).waiting = fresh now l := rfl
  unfold pumpLane
  dsimp only
  rw [hdrain, hfresh]
  by_cases hd : l.drainable policy = true
  · rw [if_pos hd]
    rcases hsel : selectLocked policy (fresh now l) with _ | ⟨index, picked⟩
    · exact .inr ⟨.inr (selectLocked_eq_none.mp hsel), rfl⟩
    · obtain ⟨hat, hbest⟩ := selectLocked_best hsel
      exact .inl ⟨index, picked, hd, hat, hbest, rfl⟩
  · rw [if_neg hd]
    exact .inr ⟨.inl (Bool.eq_false_iff.mpr hd), rfl⟩

section
variable (policy : QueuePolicy) (now : ℕ) (l : QueueLane)

theorem pumpLane_attached : (pumpLane policy now l).lane.attached = l.attached := by
  rcases pumpLane_cases policy now l with ⟨_, _, -, -, -, h⟩ | ⟨-, h⟩ <;> rw [h]

theorem pumpLane_blocked : (pumpLane policy now l).lane.blocked = l.blocked := by
  rcases pumpLane_cases policy now l with ⟨_, _, -, -, -, h⟩ | ⟨-, h⟩ <;> rw [h]

/-- Every item that waited expired, was started, or waits. -/
theorem pumpLane_split : l.waiting.Perm ((pumpLane policy now l).expired ++
    (pumpLane policy now l).started.toList ++ (pumpLane policy now l).lane.waiting) := by
  have hsplit : l.waiting.Perm (l.waiting.filter (QueueItem.due now) ++ fresh now l) :=
    (List.filter_append_perm _ _).symm
  rcases pumpLane_cases policy now l with ⟨index, picked, -, hat, -, h⟩ | ⟨-, h⟩
  · rw [h]
    have hcons : (picked :: (fresh now l).eraseIdx index).Perm (fresh now l) := by
      obtain ⟨hlt, rfl⟩ := List.getElem?_eq_some_iff.mp hat
      exact List.getElem_cons_eraseIdx_perm hlt
    dsimp only
    rw [List.append_assoc]
    exact hsplit.trans (List.Perm.append_left _ hcons.symm)
  · rw [h]
    dsimp only
    rw [Option.toList_none, List.append_nil]
    exact hsplit

/-- A started item was fresh, and puts the lane in flight. -/
theorem pumpLane_inFlight : (pumpLane policy now l).lane.inFlight =
    (l.inFlight || (pumpLane policy now l).started.isSome) := by
  rcases pumpLane_cases policy now l with ⟨_, _, -, -, -, h⟩ | ⟨-, h⟩
  · rw [h]
    simp
  · rw [h]
    simp

end

theorem pumpLane_started {picked : QueueItem} (h : (pumpLane policy now l).started = some picked) :
    l.drainable policy = true ∧ picked.due now = false ∧
      ∀ x ∈ (pumpLane policy now l).lane.waiting, ¬ precedes policy x picked := by
  rcases pumpLane_cases policy now l with ⟨index, picked', hd, hat, hbest, he⟩ | ⟨-, he⟩
  · rw [he] at h ⊢
    obtain rfl := Option.some.inj h
    have hmem : picked' ∈ fresh now l := List.mem_of_getElem? hat
    refine ⟨hd, ?_, fun x hx => hbest x (List.mem_of_mem_eraseIdx hx)⟩
    simpa using (List.mem_filter.mp hmem).2
  · rw [he] at h
    cases h

/-- After the pump nothing waits on a lane that drains. -/
theorem pumpLane_rest (h : (pumpLane policy now l).lane.drainable policy = true) :
    (pumpLane policy now l).lane.waiting = [] := by
  rcases pumpLane_cases policy now l with ⟨_, _, -, -, -, he⟩ | ⟨hor, he⟩
  · rw [he] at h
    simp [QueueLane.drainable] at h
  · rw [he] at h ⊢
    rcases hor with hd | hnil
    · have hd' : l.drainable policy = true := h
      rw [hd] at hd'
      cases hd'
    · exact hnil

/-- What a pump may do with a lane: every item that waited expired, was started or waits, the lane
is in flight if it was or an item was started, and a fresh item is started on a lane that drains. -/
structure Worked (policy : QueuePolicy) (now : ℕ) (l : QueueLane) (p : LanePump) : Prop where
  split : l.waiting.Perm (p.expired ++ p.started.toList ++ p.lane.waiting)
  inFlight : p.lane.inFlight = (l.inFlight || p.started.isSome)
  started : ∀ picked, p.started = some picked → l.drainable policy = true ∧ picked.due now = false

theorem pumpLane_worked (policy : QueuePolicy) (now : ℕ) (l : QueueLane) :
    Worked policy now l (pumpLane policy now l) where
  split := pumpLane_split policy now l
  inFlight := pumpLane_inFlight policy now l
  started _ h := ⟨(pumpLane_started h).1, (pumpLane_started h).2.1⟩

/-! ### The pump on the table -/

/-- The pump's round on a lane, once the inbox is applied. -/
def roundOn (policy : QueuePolicy) (now : ℕ) (s : QueueState) (id : Bytes) : LanePump :=
  pumpLane policy now (settle s id (s.lane id))

/-- A pump of lanes that are there, each once, pumps every one of them as it stood. -/
theorem foldl_pumpRound (policy : QueuePolicy) (now : ℕ) (work : Bytes → LanePump) :
    ∀ (ids : List Bytes) (p : Pumped) (s : QueueState), ids.Nodup →
    (∀ id ∈ ids, (s.lanes id).map (pumpLane policy now) = some (work id)) →
    let r := ids.foldl (pumpRound policy now) (p, s)
    r.1.expired = p.expired ++ ids.flatMap (fun id => (work id).expired.map (⟨id, ·⟩)) ∧
    r.1.started = p.started ++ ids.flatMap (fun id => (work id).started.toList.map (⟨id, ·⟩)) ∧
    r.1.next = ids.foldl (fun next id => (work id).lane.waiting.foldl earlier next) p.next ∧
    r.2 = { s with
      lanes := fun id => if id ∈ ids then some (work id).lane else s.lanes id
      expired := s.expired + (ids.flatMap fun id => (work id).expired).length
      drained := s.drained + (ids.flatMap fun id => (work id).started.toList).length }
  | [], p, s, _, _ => by simp
  | id :: ids, p, s, hnd, hwork => by
    obtain ⟨hid, hnd'⟩ := List.nodup_cons.mp hnd
    obtain ⟨l, hl, hw⟩ := Option.map_eq_some_iff.mp (hwork id List.mem_cons_self)
    have hround : pumpRound policy now (p, s) id =
        ({ expired := p.expired ++ (work id).expired.map (⟨id, ·⟩)
           started := p.started ++ (work id).started.toList.map (⟨id, ·⟩)
           next := (work id).lane.waiting.foldl earlier p.next },
          (s.setLane id (work id).lane).count (work id).expired.length
            (work id).started.toList.length) := by
      unfold pumpRound
      rw [← hw]
      simp only [hl]
    have hkeep : ∀ id' ∈ ids, (((s.setLane id (work id).lane).count (work id).expired.length
        (work id).started.toList.length).lanes id').map (pumpLane policy now) = some (work id') := by
      intro id' hid'
      have hne : id' ≠ id := fun h => hid (h ▸ hid')
      have hlane : (s.setLane id (work id).lane).lanes id' = s.lanes id' :=
        Function.update_of_ne hne _ _
      exact (congrArg (Option.map (pumpLane policy now)) hlane).trans
        (hwork id' (List.mem_cons_of_mem id hid'))
    obtain ⟨he, hs, hn, hq⟩ := foldl_pumpRound policy now work ids _ _ hnd' hkeep
    rw [List.foldl_cons, hround]
    dsimp only at he hs hn hq ⊢
    refine ⟨?_, ?_, ?_, ?_⟩
    · rw [he, List.flatMap_cons, List.append_assoc]
    · rw [hs, List.flatMap_cons, List.append_assoc]
    · rw [hn, List.foldl_cons]
    · rw [hq, List.flatMap_cons, List.flatMap_cons, List.length_append, List.length_append]
      have hlanes : (fun id' => if id' ∈ ids then some (work id').lane
          else (s.setLane id (work id).lane).lanes id') =
          fun id' => if id' ∈ id :: ids then some (work id').lane else s.lanes id' := by
        funext id'
        by_cases h : id' = id
        · subst h
          rw [if_neg hid, if_pos List.mem_cons_self]
          exact Function.update_self _ _ _
        · have hlane : (s.setLane id (work id).lane).lanes id' = s.lanes id' :=
            Function.update_of_ne h _ _
          rw [hlane]
          simp only [List.mem_cons, h, false_or]
      unfold QueueState.count QueueState.setLane at hlanes ⊢
      dsimp only at hlanes ⊢
      rw [hlanes, hl]
      simp only [Option.isSome_some, if_true, Nat.add_assoc]

/-- What the rounds of some lanes come to, behind the inbox. -/
theorem rounds_spec (h : Listed s) (policy : QueuePolicy) (now : ℕ) {ids : List Bytes}
    (hnd : ids.Nodup) (hsub : ids ⊆ s.order) :
    let r := ids.foldl (pumpRound policy now) ({}, s.applyInbox)
    r.1.expired = ids.flatMap (fun id => (roundOn policy now s id).expired.map (⟨id, ·⟩)) ∧
    r.1.started = ids.flatMap (fun id => (roundOn policy now s id).started.toList.map (⟨id, ·⟩)) ∧
    r.1.next =
      ids.foldl (fun next id => (roundOn policy now s id).lane.waiting.foldl earlier next) none ∧
    r.2 = { s.takeInbox with
      lanes := fun id =>
        if id ∈ ids then some (roundOn policy now s id).lane else (s.lanes id).map (settle s id)
      expired := s.expired + (ids.flatMap fun id => (roundOn policy now s id).expired).length
      drained := s.drained +
        (ids.flatMap fun id => (roundOn policy now s id).started.toList).length } := by
  have hwork : ∀ id ∈ ids,
      (s.applyInbox.lanes id).map (pumpLane policy now) = some (roundOn policy now s id) := by
    intro id hid
    rw [applyInbox_eq]
    dsimp only
    rw [h.lanes_eq (hsub hid)]
    rfl
  obtain ⟨he, hs, hn, hq⟩ :=
    foldl_pumpRound policy now (roundOn policy now s) ids {} s.applyInbox hnd hwork
  refine ⟨he, hs, hn, hq.trans ?_⟩
  rw [applyInbox_eq]
  rfl

/-- What a pump of the whole table does, lane by lane. -/
theorem pump_spec (h : Listed s) (policy : QueuePolicy) (now : ℕ) :
    let r := s.pumpLocked policy now
    r.1.expired = s.order.flatMap (fun id => (roundOn policy now s id).expired.map (⟨id, ·⟩)) ∧
    r.1.started = s.order.flatMap (fun id => (roundOn policy now s id).started.toList.map (⟨id, ·⟩)) ∧
    r.1.next =
      s.order.foldl (fun next id => (roundOn policy now s id).lane.waiting.foldl earlier next) none ∧
    r.2 = { s.takeInbox with
      lanes := fun id => if id ∈ s.order then some (roundOn policy now s id).lane else none
      expired := s.expired + (s.order.flatMap fun id => (roundOn policy now s id).expired).length
      drained := s.drained +
        (s.order.flatMap fun id => (roundOn policy now s id).started.toList).length } := by
  obtain ⟨he, hs, hn, hq⟩ := rounds_spec h policy now h.once (List.Subset.refl _)
  have horder : s.applyInbox.order = s.order := by
    rw [applyInbox_eq]
    rfl
  unfold QueueState.pumpLocked
  rw [horder]
  refine ⟨he, hs, hn, hq.trans ?_⟩
  have hrest : (fun id => if id ∈ s.order then some (roundOn policy now s id).lane
      else (s.lanes id).map (settle s id)) =
      fun id => if id ∈ s.order then some (roundOn policy now s id).lane else none := by
    funext id
    split_ifs with hid
    · rfl
    · rw [Option.not_isSome_iff_eq_none.mp fun hsome => hid ((h.mem id).mpr hsome), Option.map_none]
  rw [hrest]

/-- A pump of the table that did this with each lane, as the inbox left it. -/
structure Pumps (policy : QueuePolicy) (now : ℕ) (s : QueueState) (work : Bytes → LanePump)
    (r : Pumped × QueueState) : Prop where
  worked : ∀ id, Worked policy now (settle s id (s.lane id)) (work id)
  expired : r.1.expired = s.order.flatMap fun id => (work id).expired.map (⟨id, ·⟩)
  started : r.1.started = s.order.flatMap fun id => (work id).started.toList.map (⟨id, ·⟩)
  queue : r.2 = { s.takeInbox with
      lanes := fun id => if id ∈ s.order then some (work id).lane else none
      expired := s.expired + (s.order.flatMap fun id => (work id).expired).length
      drained := s.drained + (s.order.flatMap fun id => (work id).started.toList).length }

theorem pump_pumps (h : Listed s) (policy : QueuePolicy) (now : ℕ) :
    Pumps policy now s (roundOn policy now s) (s.pumpLocked policy now) := by
  obtain ⟨he, hs, -, hq⟩ := pump_spec h policy now
  exact ⟨fun id => pumpLane_worked policy now _, he, hs, hq⟩

section
variable {work : Bytes → LanePump} {r : Pumped × QueueState}

theorem Pumps.lane (hp : Pumps policy now s work r) (hid : id ∈ s.order) :
    r.2.lane id = (work id).lane := by
  unfold QueueState.lane
  rw [hp.queue]
  dsimp only
  rw [if_pos hid, Option.getD_some]

theorem Pumps.lane_of_notMem (hp : Pumps policy now s work r) (hid : id ∉ s.order) :
    r.2.lane id = {} := by
  unfold QueueState.lane
  rw [hp.queue]
  dsimp only
  rw [if_neg hid, Option.getD_none]

theorem Pumps.listed (hp : Pumps policy now s work r) (h : Listed s) : Listed r.2 := by
  rw [hp.queue]
  refine ⟨h.once, fun id => ?_⟩
  dsimp only [QueueState.takeInbox]
  split_ifs with hid
  · simp [hid]
  · simp [hid]

end

theorem pump_lane (h : Listed s) (hid : id ∈ s.order) :
    (s.pumpLocked policy now).2.lane id = (roundOn policy now s id).lane :=
  (pump_pumps h policy now).lane hid

theorem pump_lane_of_notMem (h : Listed s) (hid : id ∉ s.order) :
    (s.pumpLocked policy now).2.lane id = {} :=
  (pump_pumps h policy now).lane_of_notMem hid

/-! ### What waits -/

/-- The jobs that wait, lane by lane. -/
def waiting (s : QueueState) : List Placed :=
  s.order.flatMap fun id => (s.lane id).waiting.map (⟨id, ·⟩)

theorem mem_waiting (h : Listed s) {x : Placed} :
    x ∈ waiting s ↔ x.item ∈ (s.lane x.printerId).waiting := by
  unfold waiting
  simp only [List.mem_flatMap, List.mem_map]
  constructor
  · rintro ⟨id, -, item, hitem, rfl⟩
    exact hitem
  · intro hx
    by_cases hid : x.printerId ∈ s.order
    · exact ⟨x.printerId, hid, x.item, hx, rfl⟩
    · rw [h.lane_eq hid] at hx
      exact absurd hx List.not_mem_nil

/-- One row of a spread list is replaced. -/
theorem flatMap_replace {κ β : Type} {keys : List κ} {k : κ} {f g : κ → List β} {extra : List β}
    (hnd : keys.Nodup) (hk : k ∈ keys) (hrest : ∀ k' ∈ keys, k' ≠ k → g k' = f k')
    (hrow : g k = f k ++ extra) : (keys.flatMap g).Perm (keys.flatMap f ++ extra) := by
  induction keys with
  | nil => exact absurd hk List.not_mem_nil
  | cons k' keys ih =>
    obtain ⟨hk', hnd'⟩ := List.nodup_cons.mp hnd
    rw [List.flatMap_cons, List.flatMap_cons]
    by_cases heq : k' = k
    · subst heq
      have hsame : keys.flatMap g = keys.flatMap f := by
        unfold List.flatMap
        congr 1
        exact List.map_congr_left fun x hx =>
          hrest x (List.mem_cons_of_mem k' hx) fun h => hk' (h ▸ hx)
      rw [hrow, hsame, List.append_assoc, List.append_assoc]
      exact List.Perm.append_left _ List.perm_append_comm
    · rw [hrest k' List.mem_cons_self heq, List.append_assoc]
      refine List.Perm.append_left _ (ih hnd' ?_ fun x hx => hrest x (List.mem_cons_of_mem k' hx))
      rcases List.mem_cons.mp hk with h | h
      · exact absurd h.symm heq
      · exact h

/-- A lane that is written over with some items more waiting. -/
theorem waiting_setLane (h : Listed s) {extra : List QueueItem}
    (hl : l.waiting = (s.lane id).waiting ++ extra) :
    (waiting (s.setLane id l)).Perm (waiting s ++ extra.map (⟨id, ·⟩)) := by
  have hrest : ∀ id', id' ≠ id → ((s.setLane id l).lane id').waiting.map (Placed.mk id') =
      (s.lane id').waiting.map (Placed.mk id') := fun id' hne => by rw [setLane_lane_of_ne hne]
  have hrow : ((s.setLane id l).lane id).waiting.map (Placed.mk id) =
      (s.lane id).waiting.map (Placed.mk id) ++ extra.map (Placed.mk id) := by
    rw [setLane_lane, hl, List.map_append]
  unfold waiting
  by_cases hid : id ∈ s.order
  · have horder : (s.setLane id l).order = s.order := if_pos ((h.mem id).mp hid)
    rw [horder]
    exact flatMap_replace h.once hid (fun id' _ hne => hrest id' hne) hrow
  · have horder : (s.setLane id l).order = s.order ++ [id] :=
      if_neg fun hsome => hid ((h.mem id).mpr hsome)
    have hsame : s.order.flatMap (fun id' => ((s.setLane id l).lane id').waiting.map (Placed.mk id'))
        = s.order.flatMap fun id' => (s.lane id').waiting.map (Placed.mk id') := by
      unfold List.flatMap
      congr 1
      exact List.map_congr_left fun id' hid' => hrest id' fun h' => hid (h' ▸ hid')
    rw [horder, List.flatMap_append, hsame, List.flatMap_singleton, hrow, h.lane_eq hid]
    exact List.Perm.refl _

/-- What waited before a pump expired, was started, or waits after it. -/
theorem Pumps.waiting {work : Bytes → LanePump} {r : Pumped × QueueState}
    (hp : Pumps policy now s work r) :
    (waiting s).Perm (r.1.expired ++ r.1.started ++ Lanes.waiting r.2) := by
  have horder : r.2.order = s.order := by rw [hp.queue]; rfl
  have hafter : Lanes.waiting r.2 =
      s.order.flatMap fun id => (work id).lane.waiting.map (⟨id, ·⟩) := by
    unfold Lanes.waiting
    rw [horder]
    exact List.flatMap_congr fun id hid => by rw [hp.lane hid]
  have hrow : ∀ id ∈ s.order, ((s.lane id).waiting.map (Placed.mk id)).Perm
      ((work id).expired.map (⟨id, ·⟩) ++ (work id).started.toList.map (⟨id, ·⟩) ++
        (work id).lane.waiting.map (⟨id, ·⟩)) := by
    intro id _
    rw [← List.map_append, ← List.map_append]
    refine List.Perm.map _ ?_
    rw [← settle_waiting s id (s.lane id)]
    exact (hp.worked id).split
  rw [hp.expired, hp.started, hafter]
  refine (List.Perm.flatMap_left s.order hrow).trans ?_
  refine (List.flatMap_append_perm s.order _ _).symm.trans ?_
  exact List.Perm.append_right _ (List.flatMap_append_perm s.order _ _).symm

end PrinterDriver.Queue.Lanes
