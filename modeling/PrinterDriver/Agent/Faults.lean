import PrinterDriver.Agent.CloudPrnt

/-! # Faults of a polling printer

A poll carries one status code, and the server publishes what changes. An observer who replays the
events keeps a fault until its clearing event. `paired_iff` says which sequences of codes leave no
fault standing: a fault that another one displaces before the recovery is cleared only where the same
recovery is published later. -/

namespace PrinterDriver.Agent.Faults

open PrinterDriver.Core.Types PrinterDriver.Agent.CloudPrnt

/-! ### Events and the observer -/

/-- The events that one poll after the other publishes. -/
def observeAll : Printer → List ℕ → List DeviceEvent × Printer
  | p, [] => ([], p)
  | p, code :: codes =>
    ((p.observe code).1 ++ (observeAll (p.observe code).2 codes).1,
      (observeAll (p.observe code).2 codes).2)

/-- The conditions that a status code can publish. -/
def isFault : DeviceEvent → Bool
  | .paperOut | .paperNearEnd | .coverOpen | .recoverableError => true
  | _ => false

/-- Every published fault has its clearing event behind it. -/
def Paired : List DeviceEvent → Prop
  | [] => True
  | e :: es => (isFault e = true → recovery e ∈ es) ∧ Paired es

/-- The faults that stand after an event. -/
def replay (standing : List DeviceEvent) (e : DeviceEvent) : List DeviceEvent :=
  if isFault e then e :: standing else standing.filter fun f => recovery f ≠ e

section Observer

theorem recovery_clears (f : DeviceEvent) : isFault (recovery f) = false := by
  cases f <;> rfl

/-- Nothing stands in the end exactly if every fault is cleared behind it. -/
theorem foldl_replay : ∀ {es standing : List DeviceEvent},
    es.foldl replay standing = [] ↔ (∀ f ∈ standing, recovery f ∈ es) ∧ Paired es
  | [], standing => by
    rw [List.foldl_nil, List.eq_nil_iff_forall_not_mem]
    exact ⟨fun h => ⟨fun f hf => absurd hf (h f), trivial⟩,
      fun h f hf => List.not_mem_nil (h.1 f hf)⟩
  | e :: es, standing => by
    rw [List.foldl_cons, foldl_replay, Paired]
    unfold replay
    cases he : isFault e with
    | true =>
      have hne : ∀ f, recovery f ≠ e := by
        rintro f rfl
        rw [recovery_clears] at he
        cases he
      rw [if_pos rfl]
      constructor
      · rintro ⟨hall, hes⟩
        refine ⟨fun f hf => List.mem_cons_of_mem _ (hall f (List.mem_cons_of_mem _ hf)), ?_, hes⟩
        exact fun _ => hall e List.mem_cons_self
      · rintro ⟨hall, hself, hes⟩
        refine ⟨fun f hf => ?_, hes⟩
        rcases List.mem_cons.mp hf with rfl | hf
        · exact hself rfl
        · exact (List.mem_cons.mp (hall f hf)).resolve_left (hne f)
    | false =>
      rw [if_neg Bool.false_ne_true]
      constructor
      · rintro ⟨hall, hes⟩
        refine ⟨fun f hf => ?_, (fun h => nomatch h), hes⟩
        by_cases hr : recovery f = e
        · rw [hr]
          exact List.mem_cons_self
        · exact List.mem_cons_of_mem _ (hall f (List.mem_filter.mpr ⟨hf, by simpa using hr⟩))
      · rintro ⟨hall, -, hes⟩
        refine ⟨fun f hf => ?_, hes⟩
        obtain ⟨hf, hr⟩ := List.mem_filter.mp hf
        exact (List.mem_cons.mp (hall f hf)).resolve_left (by simpa using hr)

end Observer

/-! ### What the codes publish -/

/-- The events of the codes, given the fault that is in force. -/
def published : Option DeviceEvent → List ℕ → List DeviceEvent
  | _, [] => []
  | fault, code :: codes =>
    (faultAfter fault code).1 ++ published (faultAfter fault code).2 codes

/-- A healthy code comes, and no fault before it. -/
def Recovers (codes : List ℕ) : Prop :=
  ∃ quiet code after, codes = quiet ++ code :: after ∧
    (∀ c ∈ quiet, cloudPrntDeviceEvent c = none) ∧ healthy code = true

/-- Some fault with this clearing event is the last one before a healthy code. -/
def Clears (clearing : DeviceEvent) (codes : List ℕ) : Prop :=
  ∃ before code after f, codes = before ++ code :: after ∧ cloudPrntDeviceEvent code = some f ∧
    recovery f = clearing ∧ Recovers after

/-- From each fault on, it or a later one with the same clearing event is the last fault before a
healthy code. -/
def Undisplaced (codes : List ℕ) : Prop :=
  ∀ before code after f, codes = before ++ code :: after → cloudPrntDeviceEvent code = some f →
    Clears (recovery f) (code :: after)

section Published
variable {fault : Option DeviceEvent} {code : ℕ} {codes : List ℕ} {clearing f : DeviceEvent}

theorem event_of_healthy (h : healthy code = true) : cloudPrntDeviceEvent code = none := by
  simp only [healthy, Bool.or_eq_true, decide_eq_true_eq] at h
  rcases h with ((rfl | rfl) | rfl) | rfl <;> rfl

theorem recovers_cons : Recovers (code :: codes) ↔
    healthy code = true ∨ cloudPrntDeviceEvent code = none ∧ Recovers codes := by
  constructor
  · rintro ⟨quiet, c, after, he, hquiet, hc⟩
    cases quiet with
    | nil =>
      cases he
      exact .inl hc
    | cons q quiet =>
      cases he
      exact .inr ⟨hquiet _ List.mem_cons_self,
        quiet, c, after, rfl, fun d hd => hquiet d (List.mem_cons_of_mem _ hd), hc⟩
  · rintro (hc | ⟨hnone, quiet, c, after, rfl, hquiet, hc⟩)
    · exact ⟨[], code, codes, rfl, fun _ h => absurd h List.not_mem_nil, hc⟩
    · refine ⟨code :: quiet, c, after, rfl, fun d hd => ?_, hc⟩
      rcases List.mem_cons.mp hd with rfl | hd
      · exact hnone
      · exact hquiet d hd

theorem clears_cons : Clears clearing (code :: codes) ↔
    (∃ f, cloudPrntDeviceEvent code = some f ∧ recovery f = clearing ∧ Recovers codes) ∨
      Clears clearing codes := by
  constructor
  · rintro ⟨before, c, after, f, he, hf, hr, hrec⟩
    cases before with
    | nil =>
      cases he
      exact .inl ⟨f, hf, hr, hrec⟩
    | cons b before =>
      cases he
      exact .inr ⟨before, c, after, f, rfl, hf, hr, hrec⟩
  · rintro (⟨f, hf, hr, hrec⟩ | ⟨before, c, after, f, rfl, hf, hr, hrec⟩)
    · exact ⟨[], code, codes, f, rfl, hf, hr, hrec⟩
    · exact ⟨code :: before, c, after, f, rfl, hf, hr, hrec⟩

theorem undisplaced_cons : Undisplaced (code :: codes) ↔
    (∀ f, cloudPrntDeviceEvent code = some f → Clears (recovery f) (code :: codes)) ∧
      Undisplaced codes := by
  constructor
  · intro h
    refine ⟨fun f hf => h [] code codes f rfl hf, fun before c after f he hf => ?_⟩
    exact h (code :: before) c after f (by rw [he]; rfl) hf
  · rintro ⟨hfirst, hrest⟩ before c after f he hf
    cases before with
    | nil =>
      cases he
      exact hfirst f hf
    | cons b before =>
      cases he
      exact hrest before c after f rfl hf

/-- The table names faults only. -/
theorem isFault_of_event (h : cloudPrntDeviceEvent code = some f) : isFault f = true := by
  obtain ⟨row, hrow, hevent⟩ := Option.bind_eq_some_iff.mp h
  have hall : (kCodes.all fun row => (row.event.map isFault).getD true) = true := by decide
  have hfault : (row.event.map isFault).getD true = true :=
    List.all_eq_true.mp hall row (List.mem_of_find?_eq_some hrow)
  rw [hevent] at hfault
  exact hfault

/-- A fault is published when it is new, and its recovery with the next healthy code. -/
theorem faultAfter_cases (fault : Option DeviceEvent) (code : ℕ) :
    (∃ f, cloudPrntDeviceEvent code = some f ∧ fault = some f ∧
      faultAfter fault code = ([], some f)) ∨
    (∃ f, cloudPrntDeviceEvent code = some f ∧ fault ≠ some f ∧
      faultAfter fault code = ([f], some f)) ∨
    (∃ f, healthy code = true ∧ fault = some f ∧
      faultAfter fault code = ([recovery f], none)) ∨
    (cloudPrntDeviceEvent code = none ∧ (healthy code = true → fault = none) ∧
      faultAfter fault code = ([], fault)) := by
  unfold faultAfter
  cases hevent : cloudPrntDeviceEvent code with
  | some f =>
    dsimp only
    by_cases hf : fault = some f
    · exact .inl ⟨f, rfl, hf, by rw [if_pos hf, hf]⟩
    · exact .inr (.inl ⟨f, rfl, hf, if_neg hf⟩)
  | none =>
    cases fault with
    | none => exact .inr (.inr (.inr ⟨rfl, fun _ => rfl, rfl⟩))
    | some f =>
      dsimp only
      by_cases hh : healthy code = true
      · exact .inr (.inr (.inl ⟨f, hh, rfl, if_pos hh⟩))
      · exact .inr (.inr (.inr ⟨rfl, fun h => absurd h hh, if_neg hh⟩))

/-- **When a clearing event is published**: with the first healthy code after a fault that it
clears, unless another fault comes before. -/
theorem mem_published (hc : isFault clearing = false) : ∀ {codes : List ℕ}
    {fault : Option DeviceEvent}, clearing ∈ published fault codes ↔
      (∃ f, fault = some f ∧ recovery f = clearing ∧ Recovers codes) ∨ Clears clearing codes
  | [], fault => by
    refine iff_of_false List.not_mem_nil ?_
    rintro (⟨f, -, -, quiet, code, after, he, -⟩ | ⟨before, code, after, f, he, -⟩)
    · simp at he
    · simp at he
  | code :: codes, fault => by
    rw [published, List.mem_append, mem_published hc, clears_cons, recovers_cons]
    rcases faultAfter_cases fault code with ⟨f, hf, hfault, hs⟩ | ⟨f, hf, hfault, hs⟩ |
      ⟨f, hh, hfault, hs⟩ | ⟨hnone, hh, hs⟩
    · rw [hs, hfault, hf]
      have hsick : ¬ healthy code = true := fun h => by
        rw [event_of_healthy h] at hf
        cases hf
      simp [hsick]
    · have hne : ¬ clearing = f := by
        rintro rfl
        rw [isFault_of_event hf] at hc
        cases hc
      have hsick : ¬ healthy code = true := fun h => by
        rw [event_of_healthy h] at hf
        cases hf
      rw [hs, hf]
      simp [hsick, hne]
    · rw [hs, hfault, event_of_healthy hh]
      simp [hh, eq_comm]
    · rw [hs, hnone]
      by_cases hhealthy : healthy code = true
      · rw [hh hhealthy]
        simp
      · simp [hhealthy]

/-- Where the fault in force is cleared, the others are exactly if no fault is displaced. -/
theorem paired_published : ∀ {codes : List ℕ} {fault : Option DeviceEvent},
    (∀ f, fault = some f → recovery f ∈ published fault codes) →
      (Paired (published fault codes) ↔ Undisplaced codes)
  | [], _, _ => by
    refine iff_of_true trivial ?_
    intro before code after f he
    simp at he
  | code :: codes, fault, hforce => by
    rw [undisplaced_cons]
    rw [published] at hforce ⊢
    rcases faultAfter_cases fault code with ⟨f, hf, hfault, hs⟩ | ⟨f, hf, hfault, hs⟩ |
      ⟨f, hh, hfault, hs⟩ | ⟨hnone, hh, hs⟩
    · rw [hs, List.nil_append] at hforce ⊢
      have hin : recovery f ∈ published (some f) codes := hforce f hfault
      have hrest : ∀ g, some f = some g → recovery g ∈ published (some f) codes := by
        rintro g hg
        cases hg
        exact hin
      rw [paired_published hrest]
      refine (and_iff_right fun g hg => ?_).symm
      rw [hf] at hg
      cases hg
      rw [clears_cons]
      rcases (mem_published (recovery_clears f)).mp hin with ⟨g, hg, hr, hrec⟩ | hlater
      · cases hg
        exact .inl ⟨f, hf, rfl, hrec⟩
      · exact .inr hlater
    · rw [hs] at hforce ⊢
      have hiff : recovery f ∈ published (some f) codes ↔ Clears (recovery f) (code :: codes) := by
        rw [mem_published (recovery_clears f), clears_cons, hf]
      show (isFault f = true → recovery f ∈ published (some f) codes) ∧
        Paired (published (some f) codes) ↔ _
      have hfirst : (isFault f = true → recovery f ∈ published (some f) codes) ↔
          ∀ g, cloudPrntDeviceEvent code = some g → Clears (recovery g) (code :: codes) := by
        rw [hiff, hf]
        constructor
        · intro h g hg
          cases hg
          exact h (isFault_of_event hf)
        · intro h _
          exact h f rfl
      rw [← hfirst]
      refine and_congr_right fun hin => paired_published ?_
      intro g hg
      cases hg
      exact hin (isFault_of_event hf)
    · rw [hs]
      show (isFault (recovery f) = true → _) ∧ Paired (published none codes) ↔ _
      have hrest : Paired (published none codes) ↔ Undisplaced codes :=
        paired_published fun g hg => nomatch hg
      rw [recovery_clears, hrest, event_of_healthy hh]
      simp
    · rw [hs, List.nil_append] at hforce ⊢
      rw [paired_published hforce, hnone]
      simp

/-- What the polls publish, but for the announcement of the printer. -/
theorem observeAll_published : ∀ {codes : List ℕ} {p : Printer}, p.announced = true →
    (observeAll p codes).1 = published p.fault codes
  | [], _, _ => rfl
  | code :: codes, p, hp => by
    have hrest : (observeAll (p.observe code).2 codes).1 =
        published (faultAfter p.fault code).2 codes := observeAll_published rfl
    have hfirst : (p.observe code).1 = (faultAfter p.fault code).1 := by
      unfold Printer.observe
      dsimp only
      rw [hp]
      rfl
    rw [observeAll, published, hfirst, hrest]

/-- The announcement is no fault and stands before all others. -/
theorem paired_observeAll (spec : CloudPrntSpec) (codes : List ℕ) :
    Paired (observeAll spec.route codes).1 ↔ Paired (published none codes) := by
  cases codes with
  | nil => exact Iff.rfl
  | cons code codes =>
    have hrest : (observeAll (spec.route.observe code).2 codes).1 =
        published (faultAfter none code).2 codes := observeAll_published rfl
    have hfirst : (spec.route.observe code).1 = .online :: (faultAfter none code).1 := rfl
    rw [observeAll, published, hfirst, hrest, List.cons_append, Paired]
    exact and_iff_right fun h => nomatch h

/-- **When fault events are paired with recovery**, over every sequence of codes: exactly if from each
fault code on some fault with the same clearing event is the last one before a healthy code. An
observer who replays the events then ends with no fault standing, and only then. -/
theorem paired_iff (spec : CloudPrntSpec) (codes : List ℕ) :
    (Paired (observeAll spec.route codes).1 ↔ Undisplaced codes) ∧
      ((observeAll spec.route codes).1.foldl replay [] = [] ↔ Undisplaced codes) := by
  have hpaired : Paired (observeAll spec.route codes).1 ↔ Undisplaced codes :=
    (paired_observeAll spec codes).trans (paired_published fun f hf => nomatch hf)
  refine ⟨hpaired, ?_⟩
  rw [foldl_replay, hpaired]
  exact and_iff_right fun f hf => absurd hf List.not_mem_nil

/-- Paper out, then cover open, then healthy: the paper is never reported back. -/
theorem displaced_fault :
    (observeAll (CloudPrntSpec.route ⟨str "kitchen", [], [], 32, 256⟩) [410, 420, 200]).1 =
        [.online, .paperOut, .coverOpen, .coverClosed] ∧
      ¬ Paired (observeAll (CloudPrntSpec.route ⟨str "kitchen", [], [], 32, 256⟩)
        [410, 420, 200]).1 ∧
      (observeAll (CloudPrntSpec.route ⟨str "kitchen", [], [], 32, 256⟩)
        [410, 420, 200]).1.foldl replay [] = [.paperOut] := by
  have hevents : (observeAll (CloudPrntSpec.route ⟨str "kitchen", [], [], 32, 256⟩)
      [410, 420, 200]).1 = [.online, .paperOut, .coverOpen, .coverClosed] := by decide +kernel
  rw [hevents]
  refine ⟨rfl, fun h => ?_, by decide⟩
  have hback : recovery .paperOut ∈ [DeviceEvent.coverOpen, .coverClosed] := h.2.1 rfl
  revert hback
  decide

end Published

end PrinterDriver.Agent.Faults
