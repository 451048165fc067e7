import PrinterDriver.Engine.Driver

/-! # The moves of the driver

What each move leaves alone, and that the calls of every job come in the order of `Admits` and
`Orders`, whatever the other jobs do (`driver_guarded`). -/

namespace PrinterDriver.Engine.DriverRuns

open PrinterDriver.Lib.Programs PrinterDriver.Lib.Threads PrinterDriver.Core.Types
  PrinterDriver.Core.Profile PrinterDriver.Core.Journal PrinterDriver.Core.Store
  PrinterDriver.Core.StoreRuns PrinterDriver.Core.Crashes PrinterDriver.Engine.Ops
  PrinterDriver.Engine.RunJob PrinterDriver.Engine.Lifecycle PrinterDriver.Engine.Leasing
  PrinterDriver.Engine.Markers PrinterDriver.Engine.Stages PrinterDriver.Engine.Driver
  PrinterDriver.Engine.QuietCalls

open Prog State

/-! ### What a call changes -/

section Register
variable (s : State) (token id : Bytes)

@[simp] theorem registerToken_store : (s.registerToken token id).store = s.store := by
  unfold registerToken; split_ifs <;> rfl

@[simp] theorem registerToken_prior : (s.registerToken token id).prior = s.prior := by
  unfold registerToken; split_ifs <;> rfl

@[simp] theorem registerToken_jobs : (s.registerToken token id).jobs = s.jobs := by
  unfold registerToken; split_ifs <;> rfl

@[simp] theorem registerToken_byKey : (s.registerToken token id).byKey = s.byKey := by
  unfold registerToken; split_ifs <;> rfl

@[simp] theorem registerToken_markers : (s.registerToken token id).markers = s.markers := by
  unfold registerToken; split_ifs <;> rfl

@[simp] theorem registerToken_trails : (s.registerToken token id).trails = s.trails := by
  unfold registerToken; split_ifs <;> rfl

@[simp] theorem registerToken_leases : (s.registerToken token id).leases = s.leases := by
  unfold registerToken; split_ifs <;> rfl

end Register

section Serve
variable {s s' : State} {op : StoreOp} {c : Call} {ch : Choice} {a : c.Answer} {i : Bytes}

theorem commit_eq_some : s.commit op = some s' ↔ op.Admitted s.store ∧
    s' = { s with store := (op.apply s.store none).2, prior := some (s.store, op) } := by
  unfold commit
  by_cases ha : op.Admitted s.store
  · rw [apply_ok ha]
    simp [ha, eq_comm]
  · obtain ⟨error, he⟩ := apply_refused ha none
    rw [he]
    simp [ha]

/-- The job that a call is about. -/
def about : Call → Option Bytes
  | .recordState id _ _ _ _ | .recordTokens id _ | .emit id _ | .finish id _ | .setTokens id _
  | .registerTokens id _ => some id
  | _ => none

/-- What an operation on a job leaves of a job. -/
structure SameJob (p p' : Job) : Prop where
  phase : p'.phase = p.phase
  key : p'.key = p.key
  attempt : p'.attempt = p.attempt
  printerId : p'.printerId = p.printerId

/-- What a call changes besides the journal, the index of the tokens and the job it is about. -/
structure Served (s s' : State) (c : Call) : Prop where
  trails : s'.trails = s.trails
  leases : s'.leases = s.leases
  byKey : s'.byKey = s.byKey
  others : ∀ i, about c ≠ some i → s'.jobs i = s.jobs i
  same : ∀ i p, s.jobs i = some p → ∃ p', s'.jobs i = some p' ∧ SameJob p p'
  absent : ∀ i, s.jobs i = none → s'.jobs i = none
  ids : s'.store.ids = s.store.ids

/-- The records of an operation on a job that exists. -/
theorem ids_apply (ha : op.Admitted s.store) (hop : ∀ now record, op ≠ .createJob now record) :
    (op.apply s.store none).2.ids = s.store.ids := by
  cases op with
  | createJob now record => exact absurd rfl (hop now record)
  | recordState now id st c rs ev =>
    rw [apply_ok ha]
    exact s.store.ids_change (keeps_setState.onlyAt id)
  | recordTokens id p c =>
    rw [apply_ok ha]
    exact s.store.ids_change (keeps_setTokens.onlyAt id)

theorem served_commit (h : s.commit op = some s') (hop : ∀ now record, op ≠ .createJob now record) :
    Served s s' c := by
  obtain ⟨ha, rfl⟩ := commit_eq_some.mp h
  exact ⟨rfl, rfl, rfl, fun _ _ => rfl, fun i p hp => ⟨p, hp, rfl, rfl, rfl, rfl⟩, fun _ hn => hn,
    ids_apply ha hop⟩

theorem served_change {id : Bytes} {f : Job → Job} (hc : about c = some id)
    (hf : ∀ p, SameJob p (f p)) : Served s (s.change id f) c where
  trails := rfl
  leases := rfl
  byKey := rfl
  others i hi := by
    have hne : i ≠ id := fun he => hi (he ▸ hc)
    simp [change, hne]
  same i p hp := by
    by_cases hi : i = id
    · subst hi
      exact ⟨f p, by simp [change, hp], hf p⟩
    · exact ⟨p, by simp [change, hi, hp], rfl, rfl, rfl, rfl⟩
  absent i hn := by
    by_cases hi : i = id
    · subst hi
      simp [change, hn]
    · simp [change, hi, hn]
  ids := rfl

theorem served_same (h : s'.trails = s.trails ∧ s'.leases = s.leases ∧ s'.byKey = s.byKey ∧
    s'.jobs = s.jobs ∧ s'.store = s.store) : Served s s' c where
  trails := h.1
  leases := h.2.1
  byKey := h.2.2.1
  others i _ := by rw [h.2.2.2.1]
  same i p hp := ⟨p, by rw [h.2.2.2.1, hp], rfl, rfl, rfl, rfl⟩
  absent i hn := by rw [h.2.2.2.1, hn]
  ids := by rw [h.2.2.2.2]

theorem serve_served (h : s.serve c ch = some (a, s')) : Served s s' c := by
  cases c with
  | recordState id st cf rs ev =>
    obtain ⟨u, hu, he⟩ := Option.map_eq_some_iff.mp h
    obtain rfl := (Prod.mk.inj he).2
    exact served_commit hu fun _ _ => by simp
  | recordTokens id pair =>
    obtain ⟨u, hu, he⟩ := Option.map_eq_some_iff.mp h
    obtain rfl := (Prod.mk.inj he).2
    exact served_commit hu fun _ _ => by simp
  | emit id event =>
    cases h
    exact served_change rfl fun _ => ⟨rfl, rfl, rfl, rfl⟩
  | finish id result =>
    cases h
    exact served_change rfl fun _ => ⟨rfl, rfl, rfl, rfl⟩
  | setTokens id pair =>
    cases h
    exact served_change rfl fun _ => ⟨rfl, rfl, rfl, rfl⟩
  | registerTokens id pair =>
    cases h
    exact served_same (by simp)
  | acquireTokens =>
    obtain ⟨u, hu, he⟩ := Option.map_eq_some_iff.mp h
    obtain rfl := (Prod.mk.inj he).2
    exact served_same (by simp)
  | releaseTokens pair =>
    cases h
    exact served_same (by simp)
  | _ =>
    obtain ⟨u, hu, he⟩ := Option.map_eq_some_iff.mp h
    obtain rfl := (Prod.mk.inj he).2
    exact served_same (by simp)

end Serve

/-! ### What an event changes -/

section Step
variable {s s' : State}

/-- A new job. -/
structure Minted (s s' : State) (d : Draw) (key printerId : Bytes) (attempt : UInt32)
    (payload : Option Payload) (phase : Phase) : Prop where
  fresh : d.id ∉ s.store.ids
  eq : ∃ record : JobRecord, record.id = d.id ∧ record.key = key ∧ record.printerId = printerId ∧
    record.attempt = attempt ∧ record.printToken = [] ∧ record.cutToken = [] ∧
    s' =
      { s with
        store := (StoreOp.apply s.store none (.createJob d.now record)).2
        prior := some (s.store, .createJob d.now record)
        jobs := Function.update s.jobs d.id (some
          { key := key, printerId := printerId, attempt := attempt, phase := phase
            history := [⟨.queued, .transportAccepted, none⟩] })
        byKey := Function.update s.byKey key (some
          { job := d.id, printerId := printerId, payload := payload, attempt := attempt })
        trails := Function.update s.trails d.id (Trail.new d.id) }

theorem mint_eq_some {d : Draw} {key printerId : Bytes} {attempt : UInt32} {kind : PayloadKind}
    {bytes : UInt64} {payload : Option Payload} {phase : Phase}
    (h : s.mint d key printerId attempt kind bytes payload phase = some s') :
    Minted s s' d key printerId attempt payload phase := by
  obtain ⟨u, hu, rfl⟩ := Option.map_eq_some_iff.mp h
  obtain ⟨ha, rfl⟩ := commit_eq_some.mp hu
  exact ⟨ha, _, rfl, rfl, rfl, rfl, rfl, rfl, rfl⟩

/-- What an event does: nothing, or a new job, or the work of a reserved one. -/
inductive Stepped (s : State) : Event → State → Prop
  | same (e : Event) : Stepped s e s
  | submit {r : Submission} {d : Draw} {attempt : UInt32} {w : Payload} {s' : State}
      (hv : s.decideSubmit r = .create attempt (some w))
      (hauto : r.options.key = [] → s.byKey (effectiveKey r.options.key d) = none)
      (h : Minted s s' d (effectiveKey r.options.key d) r.printerId attempt (some w)
        (.queued ⟨w, r.options, attempt, r.banner⟩)) : Stepped s (.submit r d) s'
  | reserve {printerId key : Bytes} {kind : PayloadKind} {bytes : UInt64} {d : Draw} {s' : State}
      (hv : s.decideReserve key = .create 1 none)
      (hauto : key = [] → s.byKey (effectiveKey key d) = none)
      (h : Minted s s' d (effectiveKey key d) printerId 1 none .reserved) :
      Stepped s (.reserve printerId key kind bytes d) s'
  | submitReserved {id : Bytes} {payload : Payload} {options : JobOptions} {p : Job}
      (hp : s.jobs id = some p) (hr : p.isTerminal = false)
      (hphase : p.phase = .reserved ∨ p.phase = .held) :
      Stepped s (.submitReserved id payload options)
        { s with
          jobs := (s.change id (Job.setPhase (.queued ⟨payload, options, 1, false⟩))).jobs
          byKey := Function.update s.byKey p.key
            ((s.byKey p.key).map (JobEntry.setPayload payload)) }

theorem decideReserve_create {key : Bytes} {attempt : UInt32} {payload : Option Payload}
    (h : s.decideReserve key = .create attempt payload) : attempt = 1 ∧ payload = none := by
  unfold decideReserve at h
  split at h
  · cases h
  · cases h
    exact ⟨rfl, rfl⟩

theorem step_stepped {e : Event} (h : s.step e = some s') : Stepped s e s' := by
  have free : ∀ {key : Bytes} {d : Draw},
      ¬(key = [] ∧ (s.byKey (effectiveKey key d)).isSome = true) →
      key = [] → s.byKey (effectiveKey key d) = none := fun hn hk =>
    Option.not_isSome_iff_eq_none.mp fun hs => hn ⟨hk, hs⟩
  cases e with
  | submit r d =>
    simp only [step] at h
    split at h
    next attempt payload hv =>
      split_ifs at h with hauto
      obtain ⟨w, rfl, hm⟩ := Option.bind_eq_some_iff.mp h
      exact .submit hv (free hauto) (mint_eq_some hm)
    next =>
      cases h
      exact .same _
  | reserve printerId key kind bytes d =>
    simp only [step] at h
    split at h
    next attempt payload hv =>
      split_ifs at h with hauto
      obtain ⟨rfl, rfl⟩ := decideReserve_create hv
      exact .reserve hv (free hauto) (mint_eq_some h)
    next =>
      cases h
      exact .same _
  | submitReserved id payload options =>
    obtain ⟨p, hp, h⟩ := Option.bind_eq_some_iff.mp h
    split_ifs at h with ht hphase
    · cases h
      exact .same _
    · cases h
      exact .submitReserved hp (by simpa using ht) hphase

/-- The work that the thread of a job begins, with its program. -/
inductive Began (s : State) (i : Bytes) (p : Job) : Work → Prog Worker Unit → State → Prop
  | run (j : JobRun) (t : Task) (hphase : p.phase = .queued t) (hfits : t.Fits i p j) :
      Began s i p (.run j) j.runJob
        { s with
          jobs := (s.change i (Job.setPhase .taken)).jobs
          trails := Function.update s.trails i ((s.trails i).begin j) }
  | hold (hphase : p.phase = .reserved) :
      Began s i p .hold (advance i .heldOffline .transportAccepted .none)
        (s.change i (Job.setPhase .held))
  | giveUp (reason : FailureReason) (hphase : p.phase.givenUp reason = true) :
      Began s i p (.giveUp reason) (terminate i .failedKnown (JobResult.failed reason))
        (s.change i (Job.setPhase .taken))

theorem begin_began {i : Bytes} {w : Work} {q : Prog Worker Unit}
    (h : s.begin i w = some (q, s')) : ∃ p, s.jobs i = some p ∧ Began s i p w q s' := by
  obtain ⟨p, hp, h⟩ := Option.bind_eq_some_iff.mp h
  refine ⟨p, hp, ?_⟩
  cases w with
  | run j =>
    dsimp only at h
    split at h
    next t hphase =>
      split_ifs at h with hfits
      cases h
      exact .run j t hphase hfits
    next => cases h
  | hold =>
    dsimp only at h
    split_ifs at h with hphase
    cases h
    exact .hold hphase
  | giveUp reason =>
    dsimp only at h
    split_ifs at h with hphase
    cases h
    exact .giveUp reason hphase

/-- Whatever a thread begins, its job enters a phase, and every trail is where it was. -/
theorem begin_outline {i : Bytes} {w : Work} {q : Prog Worker Unit}
    (h : s.begin i w = some (q, s')) : ∃ p phase trails, s.jobs i = some p ∧
      p.phase ≠ .reloaded ∧ phase ≠ .reloaded ∧
      s' = { s.change i (Job.setPhase phase) with trails := trails } ∧
      (∀ j, (trails j).progress = (s.trails j).progress ∧ (trails j).tokens = (s.trails j).tokens) ∧
      ∀ j, j ≠ i → trails j = s.trails j := by
  obtain ⟨p, hp, hb⟩ := begin_began h
  cases hb with
  | run j t hphase hfits =>
    refine ⟨p, .taken, _, hp, by simp [hphase], by simp, rfl, fun k => ?_, fun k hk => ?_⟩
    · by_cases hk : k = i
      · rw [hk, Function.update_self]
        exact ⟨rfl, rfl⟩
      · rw [Function.update_of_ne hk]
        exact ⟨rfl, rfl⟩
    · rw [Function.update_of_ne hk]
  | hold hphase =>
    exact ⟨p, .held, s.trails, hp, by simp [hphase], by simp, rfl, fun _ => ⟨rfl, rfl⟩,
      fun _ _ => rfl⟩
  | giveUp reason hphase =>
    refine ⟨p, .taken, s.trails, hp, ?_, by simp, rfl, fun _ => ⟨rfl, rfl⟩, fun _ _ => rfl⟩
    intro he
    simp [he, Phase.givenUp] at hphase

end Step

/-! ### The calls of every job -/

/-- The jobs are those of the store. -/
def Known (s : State) : Prop := ∀ i, (s.jobs i).isSome = true ↔ i ∈ s.store.ids

/-- A job that no worker has taken. -/
structure Untouched (i : Bytes) (t : Trail) : Prop where
  run : t.run.id = i
  fresh : Fresh t.run t.progress
  unleased : t.tokens = .unleased

def contract : Machine.Contract Worker Bytes State where
  inv := Known
  rest i s := ∀ p, s.jobs i = some p → p.phase ≠ .taken → p.phase ≠ .reloaded →
    Untouched i (s.trails i) ∧ (p.phase = .reserved → (s.trails i).progress.state = .queued)
  allowed i c s := (∃ p, s.jobs i = some p ∧ p.phase ≠ .reloaded) ∧ (s.trails i).run.id = i ∧
    Admits (s.trails i).run c (s.trails i).progress ∧ Orders c (s.trails i).tokens

theorem about_of_admits {j : JobRun} {c : Call} {g : Progress} {id : Bytes} (h : Admits j c g)
    (hc : about c = some id) : id = j.id := by
  cases c with
  | recordState => cases hc; exact h.2.1
  | recordTokens => cases hc; exact h.2
  | emit => cases hc; exact h.2.1
  | finish => cases hc; exact h.2.1
  | setTokens => cases hc; exact h.2
  | registerTokens => cases hc; exact h.2
  | _ => cases hc

section Moves
variable {s s' : State} {G : driver.Guard} {i : Bytes}

theorem serveAs_eq_some {c : Call} {ch : Choice} {a : c.Answer} :
    s.serveAs i c ch = some (a, s') ↔
      ∃ u, serve { s with prior := none } c ch = some (a, u) ∧ s' = u.note i ⟨c, a⟩ := by
  unfold serveAs
  rw [Option.map_eq_some_iff]
  constructor
  · rintro ⟨⟨b, u⟩, hu, he⟩
    cases he
    exact ⟨u, hu, rfl⟩
  · rintro ⟨u, hu, rfl⟩
    exact ⟨(a, u), hu, rfl⟩

@[simp]
theorem note_trails_self {c : Call} {a : c.Answer} :
    (s.note i ⟨c, a⟩).trails i = (s.trails i).note ⟨c, a⟩ := by
  simp [note]

theorem note_trails_of_ne {j : Bytes} (h : i ≠ j) {c : Call} {a : c.Answer} :
    (s.note j ⟨c, a⟩).trails i = s.trails i := by
  simp [note, h]

/-- What a submission of a reserved job makes of it. -/
def Handed (p p' : Job) : Prop :=
  p' = p ∨ (p.phase = .reserved ∨ p.phase = .held) ∧ ∃ t, p' = p.setPhase (.queued t)

theorem Minted.ne {d : Draw} {key printerId : Bytes} {attempt : UInt32} {payload : Option Payload}
    {phase : Phase} {p : Job} (h : Minted s s' d key printerId attempt payload phase)
    (hk : Known s) (hp : s.jobs i = some p) : i ≠ d.id := by
  rintro rfl
  exact h.fresh ((hk d.id).mp (by simp [hp]))

theorem Stepped.keeps {e : Event} (h : Stepped s e s') (hk : Known s) {p : Job}
    (hp : s.jobs i = some p) :
    s'.trails i = s.trails i ∧ ∃ p', s'.jobs i = some p' ∧ Handed p p' := by
  cases h with
  | same => exact ⟨rfl, p, hp, .inl rfl⟩
  | submit hv hauto h =>
    have hne := h.ne hk hp
    obtain ⟨record, -, -, -, -, -, -, rfl⟩ := h.eq
    exact ⟨by simp [hne], p, by simp [hne, hp], .inl rfl⟩
  | reserve hv hauto h =>
    have hne := h.ne hk hp
    obtain ⟨record, -, -, -, -, -, -, rfl⟩ := h.eq
    exact ⟨by simp [hne], p, by simp [hne, hp], .inl rfl⟩
  | @submitReserved id payload options q hq hr hphase =>
    refine ⟨rfl, ?_⟩
    by_cases hi : i = id
    · subst hi
      obtain rfl : p = q := Option.some.inj (hp.symm.trans hq)
      exact ⟨_, by simp [change, hp], .inr ⟨hphase, ⟨payload, options, 1, false⟩, rfl⟩⟩
    · exact ⟨p, by simp [change, hi, hp], .inl rfl⟩

/-- The thread of another job begins. -/
theorem begin_others {j : Bytes} {w : Work} {q : Prog Worker Unit} (h : s.begin j w = some (q, s'))
    (hi : i ≠ j) : s'.trails i = s.trails i ∧ s'.jobs i = s.jobs i := by
  obtain ⟨p, phase, trails, -, -, -, rfl, -, htrails⟩ := begin_outline h
  refine ⟨htrails i hi, ?_⟩
  show (s.change j _).jobs i = s.jobs i
  simp [change, hi]

/-- What the other jobs leave of a job. -/
theorem others_keep (h : driver.Others G contract i s s') {p : Job} (hp : s.jobs i = some p) :
    s'.trails i = s.trails i ∧ ∃ p', s'.jobs i = some p' ∧ Handed p p' := by
  cases h with
  | event e hi hg h => exact (step_stepped h).keeps (s := { s with prior := none }) hi hp
  | serve j hj c ch a hi hg ha h =>
    obtain ⟨u, hu, rfl⟩ := serveAs_eq_some.mp h
    have hserved := serve_served hu
    have hne : about c ≠ some i := fun hc => hj (by rw [← ha.2.1, about_of_admits ha.2.2.1 hc])
    refine ⟨?_, p, (hserved.others i hne).trans hp, .inl rfl⟩
    rw [note_trails_of_ne (Ne.symm hj), hserved.trails]
  | start j hj w q hi h =>
    obtain ⟨ht, hjobs⟩ := begin_others (s := { s with prior := none }) h (Ne.symm hj)
    exact ⟨ht, p, hjobs.trans hp, .inl rfl⟩

end Moves

/-! ### The jobs of the store -/

section Known
variable {s s' : State} {i : Bytes}

theorem Known.serve {c : Call} {ch : Choice} {a : c.Answer} (h : Known s)
    (hs : s.serveAs i c ch = some (a, s')) : Known s' := by
  obtain ⟨u, hu, rfl⟩ := serveAs_eq_some.mp hs
  have hserved := serve_served hu
  intro id
  change (u.jobs id).isSome = true ↔ id ∈ u.store.ids
  rw [hserved.ids, ← h id]
  cases hp : s.jobs id with
  | none => rw [hserved.absent id hp]
  | some p =>
    obtain ⟨p', hp', -⟩ := hserved.same id p hp
    rw [hp']
    simp

theorem ids_createJob {store : JobStore} {now : UInt64} {record : JobRecord}
    (h : record.id ∉ store.ids) :
    (StoreOp.apply store none (.createJob now record)).2.ids = store.ids ++ [record.id] := by
  rw [show StoreOp.apply store none (.createJob now record) = _ from apply_ok h]
  change List.map _ (Records.replay _ _).jobs = _
  rw [StoreOp.entries, Records.jobs_replay_snapshot (r := record.fresh now) h, List.map_append]
  rfl

theorem Minted.known {d : Draw} {key printerId : Bytes} {attempt : UInt32}
    {payload : Option Payload} {phase : Phase}
    (h : Minted s s' d key printerId attempt payload phase) (hk : Known s) : Known s' := by
  obtain ⟨record, hid, -, -, -, -, -, rfl⟩ := h.eq
  intro id
  have hids := @ids_createJob s.store d.now record (hid ▸ h.fresh)
  change (Function.update s.jobs d.id _ id).isSome = true ↔ id ∈ (StoreOp.apply _ _ _).2.ids
  rw [hids, List.mem_append, List.mem_singleton, hid, ← hk id]
  by_cases he : id = d.id
  · simp [he]
  · simp [he]

theorem Known.step {e : Event} (hk : Known s) (h : Stepped s e s') : Known s' := by
  cases h with
  | same => exact hk
  | submit hv hauto h => exact h.known hk
  | reserve hv hauto h => exact h.known hk
  | @submitReserved id payload options p hp hr hphase =>
    intro j
    refine Iff.trans ?_ (hk j)
    by_cases hj : j = id
    · subst hj
      simp [change]
    · simp [change, hj]

theorem Known.change {f : Job → Job} (hk : Known s) : Known (s.change i f) := by
  intro j
  refine Iff.trans ?_ (hk j)
  by_cases hj : j = i
  · subst hj
    simp [State.change]
  · simp [State.change, hj]

theorem Known.begin {w : Work} {q : Prog Worker Unit} (hk : Known s)
    (h : s.begin i w = some (q, s')) : Known s' := by
  obtain ⟨p, phase, trails, -, -, -, rfl, -, -⟩ := begin_outline h
  exact hk.change (i := i) (f := Job.setPhase phase)

end Known

/-! ### What is opened -/

section Opened
variable {s : State} {r : JobRecord} {i : Bytes}

theorem enter_jobs : (s.enter r).jobs = Function.update s.jobs r.id (some (reloadedJob r)) := by
  simp [State.enter]

theorem enter_byKey : (s.enter r).byKey = Function.update s.byKey r.key (some (entryOf r)) := by
  simp [State.enter]

theorem foldl_enter_jobs : ∀ {rs : List JobRecord} {s : State}, (rs.map JobRecord.id).Nodup →
    (rs.foldl State.enter s).jobs i =
      ((rs.find? fun r => r.id = i).map reloadedJob).or (s.jobs i)
  | [], s, _ => by simp
  | r :: rs, s, h => by
    obtain ⟨hr, h⟩ := List.nodup_cons.mp h
    rw [List.foldl_cons, foldl_enter_jobs h, enter_jobs]
    by_cases hi : r.id = i
    · have hn : rs.find? (fun t => t.id = i) = none := by
        rw [List.find?_eq_none]
        intro t ht he
        exact hr (List.mem_map.mpr ⟨t, ht, by simpa [hi] using he⟩)
      simp [hi, hn]
    · simp [hi, Ne.symm hi]

/-- What entering records leaves alone. -/
theorem foldl_enter_rest : ∀ (rs : List JobRecord) (s : State),
    (rs.foldl State.enter s).store = s.store ∧ (rs.foldl State.enter s).prior = s.prior ∧
      (rs.foldl State.enter s).markers = s.markers ∧
      (rs.foldl State.enter s).trails = s.trails ∧ (rs.foldl State.enter s).leases = s.leases
  | [], _ => ⟨rfl, rfl, rfl, rfl, rfl⟩
  | r :: rs, s => by
    have := foldl_enter_rest rs (s.enter r)
    simpa [State.enter] using this

variable {store : JobStore} {nonce : Bytes} {trails : Bytes → Trail}
  {leases : List (Bytes × MarkerPair)}

@[simp] theorem opened_store : (opened store nonce trails leases).store = store :=
  (foldl_enter_rest _ _).1

@[simp] theorem opened_prior : (opened store nonce trails leases).prior = none :=
  (foldl_enter_rest _ _).2.1

@[simp] theorem opened_markers : (opened store nonce trails leases).markers = { nonce := nonce } :=
  (foldl_enter_rest _ _).2.2.1

@[simp] theorem opened_trails : (opened store nonce trails leases).trails = trails :=
  (foldl_enter_rest _ _).2.2.2.1

@[simp] theorem opened_leases : (opened store nonce trails leases).leases = leases :=
  (foldl_enter_rest _ _).2.2.2.2

/-- The jobs of a new process are those of its store. -/
theorem opened_jobs :
    (opened store nonce trails leases).jobs i = (store.find? i).map reloadedJob := by
  rw [opened, foldl_enter_jobs store.nodup]
  simp [Records.find?]

theorem known_opened : Known (opened store nonce trails leases) := by
  intro id
  rw [opened_jobs, opened_store, Option.isSome_map]
  exact find?_isSome

end Opened

/-! ### The order of the calls -/

section Order
variable {s s' : State} {i : Bytes} {G : driver.Guard} {r : JobRun}

/-- What is remembered of a run. -/
def view (i : Bytes) (s : State) : Progress × Tokens :=
  ((s.trails i).progress, (s.trails i).tokens)

/-- The two logs of a run. -/
abbrev logs (r : JobRun) : World Worker (Progress × Tokens) :=
  observe (fun u x => (u.1.post x, u.2.post x)) fun c u => Admits r c u.1 ∧ Orders c u.2

/-- The thread of a job is at work on it. -/
structure Working (i : Bytes) (r : JobRun) (S : Phase → Prop) (s : State) : Prop where
  job : ∃ p, s.jobs i = some p ∧ S p.phase
  run : (s.trails i).run = r
  id : r.id = i

variable {S : Phase → Prop}

theorem Working.others (hS : ∀ t, S .reserved ∨ S .held → S (.queued t)) (h : Working i r S s)
    (ho : driver.Others G contract i s s') : Working i r S s' ∧ view i s' = view i s := by
  obtain ⟨p, hp, hs⟩ := h.job
  obtain ⟨ht, p', hp', rfl | ⟨hphase, t, rfl⟩⟩ := others_keep ho hp
  · exact ⟨⟨⟨_, hp', hs⟩, by rw [ht, h.run], h.id⟩, by rw [view, ht]; rfl⟩
  · have hs' : S .reserved ∨ S .held := by
      rcases hphase with e | e
      · exact .inl (e ▸ hs)
      · exact .inr (e ▸ hs)
    refine ⟨⟨⟨_, hp', hS t hs'⟩, by rw [ht, h.run], h.id⟩, ?_⟩
    rw [view, ht]
    rfl

theorem Working.serve (h : Working i r S s) {c : Call} {ch : Choice} {a : c.Answer}
    (hs : s.serveAs i c ch = some (a, s')) : Working i r S s' ∧
      view i s' = ((view i s).1.post ⟨c, a⟩, (view i s).2.post ⟨c, a⟩) := by
  obtain ⟨u, hu, rfl⟩ := serveAs_eq_some.mp hs
  have hserved := serve_served hu
  obtain ⟨p, hp, hphase⟩ := h.job
  obtain ⟨p', hp', hsame⟩ := hserved.same i p hp
  have ht : u.trails i = s.trails i := congrFun hserved.trails i
  refine ⟨⟨⟨p', hp', hsame.phase ▸ hphase⟩, ?_, h.id⟩, ?_⟩
  · rw [note_trails_self, ht]
    exact h.run
  · rw [view, note_trails_self, ht]
    rfl

/-- What is safe to the two logs is safe in the driver. -/
theorem safe_working (hS : ∀ t, S .reserved ∨ S .held → S (.queued t))
    (hlive : ∀ phase, S phase → phase ≠ .reloaded) {p : Prog Worker Unit}
    {Q : Unit → Progress × Tokens → Prop} (h : Working i r S s)
    (hp : Safe (logs r) Q p (view i s)) :
    Safe (driver.world G contract i) (fun a s => Working i r S s ∧ Q a (view i s)) p s := by
  have hanswers : ∀ (c : Call) (s : State) (a : c.Answer) (s' : State), Working i r S s →
      (Admits r c (view i s).1 ∧ Orders c (view i s).2) →
      (driver.world G contract i).answers c s a s' →
      Working i r S s' ∧ view i s' = ((view i s).1.post ⟨c, a⟩, (view i s).2.post ⟨c, a⟩) :=
    fun c s a s' h _ ⟨_, ch, _, hs⟩ => h.serve hs
  have hallowed : ∀ (c : Call) (s : State), Working i r S s →
      (Admits r c (view i s).1 ∧ Orders c (view i s).2) →
      (driver.world G contract i).allowed c s := by
    intro c s h hc
    obtain ⟨p, hp, hphase⟩ := h.job
    refine ⟨⟨p, hp, hlive _ hphase⟩, by rw [h.run, h.id], ?_, hc.2⟩
    rw [h.run]
    exact hc.1
  exact Safe.simulate (fun s s' h ho => h.others hS ho) hanswers hallowed h hp

/-- A job given up before a worker takes it. -/
theorem safe_giveUp (h : Untouched i ⟨r, (view i s).1, (view i s).2⟩) {reason : FailureReason} :
    Safe (logs r) (fun _ _ => True)
      (terminate i .failedKnown (JobResult.failed reason)) (view i s) := by
  have hfresh := h.fresh.unsent
  have hid : r.id = i := h.run
  have hfollows := follows_terminal (isTerminal_of_isUnsent hfresh.1.state)
    (show JobState.isTerminal .failedKnown = true from rfl)
  have hreached : (r.reached .transportAccepted).rank ≤ ConfidenceLevel.transportAccepted.rank := by
    rw [rank_reached]
    exact Nat.min_le_left _ _
  have hadmits : Admits r (.recordState r.id .failedKnown .transportAccepted reason
      ⟨.eTransportOnly, .transportOnly, str "none"⟩) (view i s).1 :=
    hfresh.1.admits hfollows hreached (Nat.zero_le _)
      (fun ha => absurd (ha.symm.trans hfresh.2) (by decide))
  subst hid
  have hterminate : Safe (log r) (fun _ _ => True)
      (terminate r.id .failedKnown (JobResult.failed reason)) (view r.id s).1 :=
    safe_terminate hadmits rfl (by simp [JobResult.failed]) fun _ _ => trivial
  have htokens : Safe tokenLog (fun _ _ => True)
      (terminate r.id .failedKnown (JobResult.failed reason)) (view r.id s).2 :=
    safe_inner (.inl h.unleased) (terminate_only (fun _ _ => trivial) (fun _ _ => trivial) trivial)
      fun _ => trivial
  exact (Safe.pair hterminate htokens).mono fun _ _ _ => trivial

/-- A job that the queue holds is as fresh as before. -/
theorem safe_hold (h : Untouched i ⟨r, (view i s).1, (view i s).2⟩)
    (hq : (view i s).1.state = .queued) :
    Safe (logs r) (fun _ u => Untouched i ⟨r, u.1, u.2⟩)
      (advance i .heldOffline .transportAccepted .none) (view i s) := by
  have hfresh := h.fresh.unsent
  have hid : r.id = i := h.run
  have hreached : (r.reached .transportAccepted).rank ≤ ConfidenceLevel.transportAccepted.rank := by
    rw [rank_reached]
    exact Nat.min_le_left _ _
  have hadmits : Admits r (.recordState r.id .heldOffline .transportAccepted .none {})
      (view i s).1 :=
    hfresh.1.admits (by rw [hq]; rfl) hreached (Nat.zero_le _) fun _ => by decide
  subst hid
  have hadvance : Safe (log r) (fun _ g => Fresh r g)
      (advance r.id .heldOffline .transportAccepted .none) (view r.id s).1 :=
    safe_advance hadmits ⟨.inr rfl, rfl, h.fresh.published, h.fresh.accepted, h.fresh.running,
      h.fresh.fault⟩
  have htokens : Safe tokenLog (fun _ t => t = .unleased)
      (advance r.id .heldOffline .transportAccepted .none) (view r.id s).2 :=
    safe_inner (.inl h.unleased) (advance_only (fun _ _ => trivial) trivial) fun _ => h.unleased
  refine (Safe.pair hadvance htokens).mono fun _ u hu => ⟨rfl, hu.1, hu.2⟩

end Order

/-! ### The rule for the driver -/

section Rule
variable {s s' : State} {i : Bytes} {G : driver.Guard}

theorem untouched_new (i : Bytes) : Untouched i (Trail.new i) :=
  ⟨rfl, ⟨.inl rfl, rfl, rfl, rfl, rfl, rfl⟩, rfl⟩

/-- A job that is new. -/
theorem Minted.rest {d : Draw} {key printerId : Bytes} {attempt : UInt32}
    {payload : Option Payload} {phase : Phase} (h : Minted s s' d key printerId attempt payload phase)
    (hr : contract.rest i s) : contract.rest i s' := by
  obtain ⟨record, -, -, -, -, -, -, rfl⟩ := h.eq
  intro p hp ht hl
  by_cases hi : i = d.id
  · subst hi
    simp only [Function.update_self]
    exact ⟨untouched_new d.id, fun _ => rfl⟩
  · simp only [Function.update_of_ne hi] at hp ⊢
    exact hr p hp ht hl

theorem stable_rest : Stable (driver.world G contract i) (contract.rest i) := by
  intro s s' hr ho
  cases hp : s.jobs i with
  | some q =>
    obtain ⟨ht, q', hq', hq⟩ := others_keep ho hp
    intro p hp' htaken hlive
    rw [ht]
    obtain rfl : q' = p := Option.some.inj (hq'.symm.trans hp')
    rcases hq with rfl | ⟨hphase, t, rfl⟩
    · exact hr _ hp htaken hlive
    · have := hr q hp (by rcases hphase with e | e <;> simp [e])
        (by rcases hphase with e | e <;> simp [e])
      exact ⟨this.1, fun he => by cases he⟩
  | none =>
    cases ho with
    | event e hi hg h =>
      have h := step_stepped (s := { s with prior := none }) h
      cases h with
      | same => exact hr
      | submit hv hauto h => exact h.rest hr
      | reserve hv hauto h => exact h.rest hr
      | @submitReserved id payload options p hp' =>
        intro q hq
        by_cases hi : i = id
        · subst hi
          simp [hp] at hp'
        · simp [change, hi, hp] at hq
    | serve j hj c ch a hi hg ha h =>
      obtain ⟨u, hu, rfl⟩ := serveAs_eq_some.mp h
      have := (serve_served hu).absent i hp
      intro q hq
      cases this.symm.trans hq
    | start j hj w q hi h =>
      have := (begin_others (s := { s with prior := none }) h (Ne.symm hj)).2
      intro q hq
      cases (this.trans hp).symm.trans hq

theorem safe_ret_rest (hr : contract.rest i s) :
    Safe (driver.world G contract i) (fun _ => contract.rest i) (.ret ()) s :=
  Triple.ret stable_rest (fun _ h => h) s hr

theorem rest_opened {store : JobStore} {nonce : Bytes} {trails : Bytes → Trail}
    {leases : List (Bytes × MarkerPair)} : contract.rest i (opened store nonce trails leases) := by
  intro p hp ht hl
  rw [opened_jobs] at hp
  obtain ⟨r, -, rfl⟩ := Option.map_eq_some_iff.mp hp
  exact absurd rfl hl

/-- The program of a thread that begins. -/
theorem safe_begin {w : Work} {q : Prog Worker Unit} (hr : contract.rest i s)
    (h : s.begin i w = some (q, s')) :
    Safe (driver.world G contract i) (fun _ => contract.rest i) q s' := by
  obtain ⟨p, hp, hb⟩ := begin_began h
  have htaken : ∀ t, Phase.reserved = .taken ∨ Phase.held = .taken → Phase.queued t = .taken :=
    fun _ h => by simp at h
  have hover : ∀ {r : JobRun} {s : State}, Working i r (· = .taken) s → contract.rest i s := by
    rintro r s ⟨⟨p, hp, hphase⟩, -, -⟩ p' hp' ht
    obtain rfl : p = p' := Option.some.inj (hp.symm.trans hp')
    exact absurd hphase ht
  cases hb with
  | run j t hphase hfits =>
    obtain ⟨hu, -⟩ := hr p hp (by simp [hphase]) (by simp [hphase])
    have hw : Working i j (· = .taken)
        { s with
          jobs := (s.change i (Job.setPhase .taken)).jobs
          trails := Function.update s.trails i ((s.trails i).begin j) } :=
      ⟨⟨p.setPhase .taken, by simp [change, hp], rfl⟩, by simp [Trail.begin], hfits.1⟩
    have hfresh : Fresh j (s.trails i).progress :=
      ⟨hu.fresh.state, hu.fresh.confidence, hu.fresh.published, hu.fresh.accepted,
        hu.fresh.running, hu.fresh.fault⟩
    have hsafe := Safe.pair (runJob_progress hfresh) (@runJob_tokens j)
    have hview : Safe (logs j) (fun _ u => u.1.finished = true ∧ True) j.runJob
        (view i { s with
          jobs := (s.change i (Job.setPhase .taken)).jobs
          trails := Function.update s.trails i ((s.trails i).begin j) }) := by
      simpa [view, Trail.begin, hu.unleased] using hsafe
    exact (safe_working htaken (by simp) hw hview).mono fun _ _ h => hover h.1
  | hold hphase =>
    obtain ⟨hu, hq⟩ := hr p hp (by simp [hphase]) (by simp [hphase])
    have hw : Working i (s.trails i).run (fun ph => ph = .held ∨ ∃ t, ph = .queued t)
        (s.change i (Job.setPhase .held)) :=
      ⟨⟨p.setPhase .held, by simp [change, hp], .inl rfl⟩, rfl, hu.run⟩
    refine (safe_working (fun t _ => .inr ⟨t, rfl⟩) (by rintro _ (rfl | ⟨t, rfl⟩) <;> simp) hw
      (safe_hold hu (hq hphase))).mono ?_
    rintro - s ⟨⟨⟨p, hp, hphase⟩, hrun, -⟩, hu⟩ p' hp' - -
    obtain rfl : p = p' := Option.some.inj (hp.symm.trans hp')
    refine ⟨?_, fun he => by rw [he] at hphase; simp at hphase⟩
    exact ⟨by rw [hrun]; exact hu.run, by rw [hrun]; exact hu.fresh, hu.unleased⟩
  | giveUp reason hphase =>
    obtain ⟨hu, -⟩ := hr p hp (by rintro e; simp [e, Phase.givenUp] at hphase)
      (by rintro e; simp [e, Phase.givenUp] at hphase)
    have hw : Working i (s.trails i).run (· = .taken)
        (s.change i (Job.setPhase .taken)) :=
      ⟨⟨p.setPhase .taken, by simp [change, hp], rfl⟩, rfl, hu.run⟩
    exact (safe_working htaken (by simp) hw (safe_giveUp hu)).mono fun _ _ h => hover h.1

/-- **The calls of every job**, whatever the other jobs do. -/
theorem driver_guarded : driver.Guarded (.none _) contract where
  serve i c ch s a s' hk _ _ h := hk.serve h
  event e s s' hk _ h := Known.step (s := { s with prior := none }) hk (step_stepped h)
  start i w s q s' hk h := Known.begin (s := { s with prior := none }) hk h
  restart r s s' _ _ h := by
    obtain ⟨file, -, rfl⟩ := Option.map_eq_some_iff.mp h
    exact ⟨known_opened, fun i => safe_ret_rest rest_opened⟩
  program i w s q s' _ hr h := safe_begin (s := { s with prior := none }) hr h

end Rule

end PrinterDriver.Engine.DriverRuns
