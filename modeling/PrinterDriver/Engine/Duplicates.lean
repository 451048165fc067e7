import PrinterDriver.Engine.CrashSafety

/-! # Duplicate prevention

A key that is only ever printed, never reprinted, has one job whose payload any byte was taken of, as
long as no cutter status read of its jobs tells of a fault: then the job would be `FailedKnown` with
the ticket on the paper, and `submit` starts it again (`jammed_twice`). Nor may an append fail in a
process that goes on: the line behind it is glued to what it left in the file, and a restart has lost
the job (`glued_twice`). -/

namespace PrinterDriver.Engine.Duplicates

open PrinterDriver.Lib.Programs PrinterDriver.Lib.Threads PrinterDriver.Lib.Simulations
  PrinterDriver.Core.Types PrinterDriver.Core.EscposParser PrinterDriver.Core.Journal
  PrinterDriver.Core.Store
  PrinterDriver.Core.StoreRuns PrinterDriver.Core.Crashes PrinterDriver.Engine.Ops
  PrinterDriver.Engine.RunJob PrinterDriver.Engine.Lifecycle PrinterDriver.Engine.Driver
  PrinterDriver.Engine.DriverRuns PrinterDriver.Engine.Keys PrinterDriver.Engine.Bookkeeping
  PrinterDriver.Engine.Retries PrinterDriver.Engine.CrashSafety PrinterDriver.Engine.OpenDriver

open Machine State

/-! ### The runs -/

/-- The answer to a cutter status that tells of a fault. -/
def readsFault : (c : Call) → c.Answer → Bool
  | .awaitRealtime .cutterStatus _, a => List.any (Prod.snd a) fun e => e.flags.cutterError.getD false
  | _, _ => false

def isOf (s : State) (key i : Bytes) : Bool := (s.jobs i).any fun p => p.key = key

def reprints (key : Bytes) : Event → Bool
  | .submit r _ => r.reprint && r.options.key = key
  | _ => false

/-- The key is not reprinted. -/
def onlyPrinted (key : Bytes) : driver.Guard where
  event e _ := reprints key e = false

/-- The key is not reprinted, and no cutter status of its jobs tells of a fault. -/
def faultless (key : Bytes) : driver.Guard where
  serve i c ch s := (isOf s key i && (ch.answer c).any (readsFault c)) = false
  event e _ := reprints key e = false

/-- Once a byte of the key's payload was taken, a print of the key returns the job it was taken of, and
no other job of the key writes payload. -/
structure PrintedOnce (cfg : Config Worker Bytes State) (key : Bytes) : Prop where
  existing : ∀ i p, cfg.state.jobs i = some p → p.key = key →
    (cfg.state.trails i).progress.accepted = true → ∀ printerId payload options,
      options.key = key →
        cfg.state.decideSubmit (print printerId payload options) = .existing i
  writes : ∀ i p, cfg.state.jobs i = some p → p.key = key →
    (cfg.state.trails i).progress.accepted = true → ∀ j q data k, cfg.state.jobs j = some q →
      q.key = key → cfg.prog j = .call (.write .payload data) k → j = i

/-! ### Jobs that are over -/

/-- A job that is over is told what its record says. -/
theorem record_of_over {s : State} {i : Bytes} {p : Job} (hb : Kept s) (hi : Inherited s)
    (hp : s.jobs i = some p) (ht : p.isTerminal = true) :
    ∃ r, s.store.find? i = some r ∧ r.state = p.state ∧ r.isTerminal = true := by
  by_cases hphase : p.phase = .reloaded
  · obtain ⟨r, hr, hterminal, rfl⟩ := hi i p hp hphase
    exact ⟨r, hr, rfl, hterminal⟩
  · have hbooks := hb i p hp hphase
    obtain ⟨r, hr, hsays⟩ := hbooks.record
    rw [hbooks.finished] at ht
    obtain ⟨hpub, hterminal⟩ := hbooks.ended ht
    have hlast := hbooks.last
    unfold ledger at hlast
    rw [if_pos hpub] at hlast
    have hstate : p.state = (s.trails i).progress.state := by
      rw [Job.state, hlast]
      rfl
    refine ⟨r, hr, hsays.state.trans hstate.symm, ?_⟩
    rw [JobRecord.isTerminal, hsays.state]
    exact hterminal

theorem failedAndFinished_iff {s : State} {i : Bytes} : s.failedAndFinished i = true ↔
    ∃ p, s.jobs i = some p ∧ p.isTerminal = true ∧ p.state = .failedKnown := by
  simp [failedAndFinished, Option.any_eq_true]

/-- A job of an earlier process whose payload was taken has not failed, and neither has one of this
process. -/
theorem not_failed_of_accepted {s : State} {i : Bytes} {p : Job} (hb : Kept s) (hi : Inherited s)
    (hs : Survives s) (hp : s.jobs i = some p) (ha : (s.trails i).progress.accepted = true)
    (hfault : (s.trails i).progress.cutterFault = false) : s.failedAndFinished i = false := by
  by_contra hn
  have hfailed : s.failedAndFinished i = true := Bool.not_eq_false _ ▸ hn
  obtain ⟨q, hq, hterminal, hstate⟩ := failedAndFinished_iff.mp hfailed
  obtain rfl := Option.some.inj (hp.symm.trans hq)
  obtain ⟨r, hr, hrstate, -⟩ := record_of_over hb hi hp hterminal
  have hsent := hs.sent i
  obtain ⟨t, ht, hreloads⟩ := hs.store i (hsent.accepted ha)
  obtain rfl := Option.some.inj (hr.symm.trans ht)
  have hr' : r.state = .failedKnown := hrstate.trans hstate
  have hprogress : (s.trails i).progress.state = .failedKnown := by
    rcases hreloads with h | ⟨-, h⟩ | ⟨h, -⟩
    · rw [hr'] at h
      cases h
    · rw [← h, hr']
    · rw [JobRecord.isTerminal, hr'] at h
      cases h
  rw [hsent.fault ha hprogress] at hfault
  cases hfault

/-! ### The invariant -/

/-- The store before the append that is under way has the jobs that are over, as they are. -/
def Settled (s : State) : Prop :=
  ∀ store op, s.prior = some (store, op) → ∀ i p, s.jobs i = some p → p.isTerminal = true →
    (∃ r, store.find? i = some r ∧ r.state = p.state ∧ r.isTerminal = true) ∧
      ∀ now state confidence reason evidence,
        op ≠ .recordState now i state confidence reason evidence

/-- All jobs of the key but the newest are over and printed nothing. -/
structure Single (key : Bytes) (s : State) : Prop where
  newest : ∀ i p, s.jobs i = some p → p.key = key →
    s.store.idByKey key = some i ∨ s.failedAndFinished i = true
  fault : ∀ i p, s.jobs i = some p → p.key = key → (s.trails i).progress.cutterFault = false
  prior : ∀ store now record, s.prior = some (store, .createJob now record) → record.key = key →
    ∀ i p, s.jobs i = some p → p.key = key → i ≠ record.id → s.failedAndFinished i = true

section Moves
variable {s s' : State} {i key : Bytes}

/-- A job that is over makes no call that shows. -/
theorem jobUpdate_of_over {r : JobRun} {g : Progress} {c : Call} {p : Job} (hc : Admits r c g)
    (hf : g.finished = true) : jobUpdate c p = p ∧ ∀ now t, recordUpdate now c t = t := by
  obtain ⟨pair, rfl⟩ := releases_of_admits hc hf
  exact ⟨rfl, fun _ _ => rfl⟩

theorem over_serve {c : Call} {ch : Choice} {a : c.Answer} (hb : Kept s)
    (hc : contract.allowed i c s) (hs : s.serveAs i c ch = some (a, s')) {j : Bytes} {p : Job}
    (hp : s.jobs j = some p) (ht : p.isTerminal = true) : s'.jobs j = some p := by
  obtain ⟨u, hu, rfl⟩ := serveAs_eq_some.mp hs
  obtain ⟨⟨q, hq, hlive⟩, hid, hadmits, -⟩ := hc
  change u.jobs j = some p
  by_cases hj : j = i
  · subst hj
    obtain rfl := Option.some.inj (hp.symm.trans hq)
    have hf : (s.trails j).progress.finished = true := (hb j p hp hlive).finished ▸ ht
    rw [(serve_self hid hadmits hu).1]
    change (s.jobs j).map _ = _
    rw [hp, Option.map_some, (jobUpdate_of_over hadmits hf).1]
  · rw [(serve_others hid hadmits hu hj).1]
    exact hp

theorem failedAndFinished_of_jobs {j : Bytes} (h : s.failedAndFinished j = true)
    (hjobs : ∀ p, s.jobs j = some p → p.isTerminal = true →
      ∃ p', s'.jobs j = some p' ∧ p'.history = p.history ∧ p'.result = p.result) :
    s'.failedAndFinished j = true := by
  obtain ⟨p, hp, ht, hstate⟩ := failedAndFinished_iff.mp h
  obtain ⟨p', hp', hhistory, hresult⟩ := hjobs p hp ht
  refine failedAndFinished_iff.mpr ⟨p', hp', ?_, ?_⟩
  · rw [Job.isTerminal, hresult]
    exact ht
  · rw [Job.state, hhistory]
    exact hstate

theorem Settled.serve {c : Call} {ch : Choice} {a : c.Answer} (hb : Kept s) (hi : Inherited s)
    (hc : contract.allowed i c s) (hs : s.serveAs i c ch = some (a, s')) : Settled s' := by
  intro store op hprior j p hp ht
  have hserved := hs
  obtain ⟨u, hu, rfl⟩ := serveAs_eq_some.mp hs
  obtain ⟨rfl, hop⟩ := serve_prior rfl hu hprior
  obtain ⟨⟨q, hq, hlive⟩, hid, hadmits, -⟩ := hc
  have hjobs : s.jobs j = some p := by
    by_cases hj : j = i
    · subst hj
      have hu' := (serve_self hid hadmits hu).1
      change u.jobs j = some p at hp
      rw [hu', Option.map_eq_some_iff] at hp
      obtain ⟨p', hp', rfl⟩ := hp
      rcases hop with ⟨id, st, cf, rs, ev, rfl, rfl⟩ | ⟨id, pair, rfl, rfl⟩
      · exact hp'
      · exact hp'
    · exact (serve_others hid hadmits hu hj).1.symm.trans hp
  refine ⟨record_of_over hb hi hjobs ht, fun now state confidence reason evidence he => ?_⟩
  rcases hop with ⟨id, st, cf, rs, ev, rfl, rfl⟩ | ⟨id, pair, rfl, rfl⟩
  · obtain rfl : id = j := by cases he; rfl
    obtain rfl : id = i := hadmits.2.1.trans hid
    have hphase : p.phase ≠ .reloaded := by
      rw [Option.some.inj (hjobs.symm.trans hq)]
      exact hlive
    have hf : (s.trails id).progress.finished = true := (hb id p hjobs hphase).finished ▸ ht
    rw [hadmits.1] at hf
    cases hf
  · cases he

theorem settled_minted {d : Draw} {k printerId : Bytes} {attempt : UInt32}
    {payload : Option Payload} {phase : Phase} (hb : Kept s) (hi : Inherited s)
    (hm : Minted s s' d k printerId attempt payload phase) : Settled s' := by
  obtain ⟨record, hid, -, -, -, -, -, rfl⟩ := hm.eq
  intro store op hprior j p hp ht
  obtain ⟨rfl, rfl⟩ := Prod.mk.inj (Option.some.inj hprior)
  refine ⟨?_, fun _ _ _ _ _ he => by cases he⟩
  by_cases hj : j = d.id
  · subst hj
    simp only [Function.update_self, Option.some.injEq] at hp
    rw [← hp] at ht
    cases ht
  · simp only [Function.update_of_ne hj] at hp
    exact record_of_over hb hi hp ht

theorem settled_of_none (h : s.prior = none) : Settled s := by
  intro store op hprior
  rw [h] at hprior
  cases hprior

theorem begin_prior {w : Work} {q : Prog Worker Unit} (hnone : s.prior = none)
    (hs : s.begin i w = some (q, s')) : s'.prior = none := by
  obtain ⟨p, phase, trails, -, -, -, rfl, -, -⟩ := begin_outline hs
  exact hnone

theorem settled_step {e : Event} (hb : Kept s) (hi : Inherited s) (hnone : s.prior = none)
    (hs : Stepped s e s') : Settled s' := by
  cases hs with
  | same => exact settled_of_none hnone
  | submit hv hauto hm => exact settled_minted hb hi hm
  | reserve hv hauto hm => exact settled_minted hb hi hm
  | submitReserved hq hr hphase => exact settled_of_none hnone

/-! ### A restart -/

/-- **A job that is over** is in the next process what it was. -/
theorem over_reopened (hl : Lasting s) (hb : Kept s) (hi : Inherited s) (hsettled : Settled s)
    {cut : Option ℕ} {file : Bytes} (hfile : s.remains cut = some file) {now : Bytes → UInt64}
    {p : Job} (hp : s.jobs i = some p) (ht : p.isTerminal = true) :
    ∃ r, (JobStore.open now file).find? i = some r ∧ r.state = p.state := by
  have hrecover : ∀ {r : JobRecord} {at' : UInt64}, r.isTerminal = true → r.recover at' = r :=
    fun h => if_pos h
  cases cut with
  | none =>
    obtain ⟨r, hr, hstate, hterminal⟩ := record_of_over hb hi hp ht
    refine ⟨_, find?_reopened hl hfile hr, ?_⟩
    rw [hrecover (r := r.forget) hterminal]
    exact hstate
  | some n =>
    obtain ⟨store, op, hprior, hfind⟩ := find?_reopened_cut hl hfile
    obtain ⟨⟨r, hr, hstate, hterminal⟩, hop⟩ := hsettled store op hprior i p hp ht
    obtain ⟨t, hafter, ht⟩ := hfind r hr
    have hsame : t.state = r.state := by
      cases hafter with
      | same => rfl
      | state he =>
        have hid : r.forget.id = i := show r.id = i from id_of_find? hr
        rw [hid] at he
        exact absurd he (hop _ _ _ _ _)
      | tokens he => rfl
    refine ⟨_, ht, ?_⟩
    rw [hrecover (show t.isTerminal = true by rw [JobRecord.isTerminal, hsame]; exact hterminal),
      hsame, hstate]

end Moves

/-! ### One job of a key -/

section Single
variable {s s' : State} {i key : Bytes}

/-- A call makes no job, and a job that is over stays so. -/
theorem Single.serve {c : Call} {ch : Choice} {a : c.Answer} (h : Single key s) (hb : Kept s)
    (hc : contract.allowed i c s) (hg : (faultless key).serve i c ch s)
    (hs : s.serveAs i c ch = some (a, s')) : Single key s' := by
  have hfailed : ∀ {j : Bytes}, s.failedAndFinished j = true → s'.failedAndFinished j = true :=
    fun hj => failedAndFinished_of_jobs hj fun p hp ht =>
      ⟨p, over_serve hb hc hs hp ht, rfl, rfl⟩
  obtain ⟨u, hu, rfl⟩ := serveAs_eq_some.mp hs
  obtain ⟨-, hid, hadmits, -⟩ := hc
  have hserved := serve_served hu
  have hold : ∀ {j : Bytes} {p : Job}, u.jobs j = some p → p.key = key →
      ∃ q, s.jobs j = some q ∧ q.key = key := by
    intro j p hp hpkey
    cases hq : s.jobs j with
    | none =>
      rw [hserved.absent j hq] at hp
      cases hp
    | some q =>
      obtain ⟨p', hp', hsame⟩ := hserved.same j q hq
      obtain rfl := Option.some.inj (hp.symm.trans hp')
      exact ⟨q, rfl, hsame.key.symm.trans hpkey⟩
  refine ⟨fun j p hp hpkey => ?_, fun j p hp hpkey => ?_, fun store now record hprior => ?_⟩
  · obtain ⟨q, hq, hqkey⟩ := hold hp hpkey
    rcases h.newest j q hq hqkey with hn | hf
    · left
      change u.store.idByKey key = some j
      rw [(serve_sameKeys hu).idByKey]
      exact hn
    · exact .inr (hfailed hf)
  · obtain ⟨q, hq, hqkey⟩ := hold hp hpkey
    have hqfault := h.fault j q hq hqkey
    by_cases hj : j = i
    · subst hj
      rw [note_trails_self, hserved.trails]
      have hof : isOf s key j = true := by
        rw [isOf, hq]
        exact decide_eq_true hqkey
      have hread : (ch.answer c).any (readsFault c) = false := by
        have hg' : (isOf s key j && (ch.answer c).any (readsFault c)) = false := hg
        rw [hof] at hg'
        exact hg'
      change ((s.trails j).progress.post ⟨c, a⟩).cutterFault = false
      cases c with
      | write part data => cases part <;> exact hqfault
      | awaitRealtime part count =>
        cases part with
        | cutterStatus =>
          obtain ⟨b, hb, he⟩ := Option.map_eq_some_iff.mp hu
          obtain rfl : b = a := congrArg Prod.fst he
          have hb' : ch.answer (.awaitRealtime .cutterStatus count) = some b := hb
          rw [hb'] at hread
          exact hread
        | _ => exact hqfault
      | _ => exact hqfault
    · rw [note_trails_of_ne hj, hserved.trails]
      exact hqfault
  · obtain ⟨-, ⟨id, st, cf, rs, ev, -, he⟩ | ⟨id, pair, -, he⟩⟩ := serve_prior rfl hu hprior
    · cases he
    · cases he

/-- All jobs of the key are over and printed nothing. -/
theorem allFailed_of_newest (hi : Indexed s) (h : Single key s)
    (hnew : ∀ e, s.byKey key = some e → s.failedAndFinished e.job = true) : AllFailed s key := by
  intro j p hp hpkey
  rcases h.newest j p hp hpkey with hn | hf
  · obtain ⟨-, e, he⟩ := hi.entry hp
    rw [hpkey] at he
    have hjob := hi.newest key
    rw [he, hn] at hjob
    have hej : e.job = j := Option.some.inj hjob
    rw [← hej]
    exact hnew e he
  · exact hf

/-- A print creates a job only when the newest has failed. -/
theorem failed_of_submit {r : Submission} {d : Draw} {attempt : UInt32} {w : Payload}
    (hv : s.decideSubmit r = .create attempt (some w))
    (hauto : r.options.key = [] → s.byKey (effectiveKey r.options.key d) = none)
    (hg : reprints key (.submit r d) = false) (hkey : effectiveKey r.options.key d = key)
    {e : JobEntry} (he : s.byKey key = some e) : s.failedAndFinished e.job = true := by
  by_cases hnil : r.options.key = []
  · have hn := hauto hnil
    rw [hkey, he] at hn
    cases hn
  · have hrkey : r.options.key = key := by
      unfold effectiveKey at hkey
      rw [if_neg hnil] at hkey
      exact hkey
    have hreprint : r.reprint = false := by
      have hg' : (r.reprint && decide (r.options.key = key)) = false := hg
      rw [decide_eq_true hrkey, Bool.and_true] at hg'
      exact hg'
    have hlookup : s.lookup r.options.key = some e := by
      rw [lookup_eq_byKey hnil, hrkey, he]
    by_contra hn
    have hlive : s.failedAndFinished e.job = false := Bool.not_eq_true _ ▸ hn
    unfold decideSubmit at hv
    rw [hlookup] at hv
    dsimp only at hv
    rw [hreprint, hlive] at hv
    cases hv

/-- A reservation creates a job only when there is none. -/
theorem none_of_reserve {k : Bytes} {d : Draw} (hv : s.decideReserve k = .create 1 none)
    (hauto : k = [] → s.byKey (effectiveKey k d) = none) (hkey : effectiveKey k d = key) :
    s.byKey key = none := by
  by_cases hnil : k = []
  · rw [← hkey]
    exact hauto hnil
  · have hkk : k = key := by
      unfold effectiveKey at hkey
      rw [if_neg hnil] at hkey
      exact hkey
    unfold decideReserve at hv
    split at hv
    · cases hv
    next hn =>
      rw [← hkk, ← lookup_eq_byKey hnil]
      exact hn

theorem Single.minted {d : Draw} {k printerId : Bytes} {attempt : UInt32}
    {payload : Option Payload} {phase : Phase} (h : Single key s) (hi : Indexed s')
    (hall : k = key → AllFailed s key)
    (hm : Minted s s' d k printerId attempt payload phase) : Single key s' := by
  obtain ⟨record, hid, hrkey, -, -, -, -, rfl⟩ := hm.eq
  have hnewest := hi.newest key
  have hfresh : record.id ∉ s.store.ids := hid ▸ hm.fresh
  have hfailed : ∀ {j : Bytes}, j ≠ d.id → s.failedAndFinished j = true →
      State.failedAndFinished { s with
        store := (StoreOp.apply s.store none (.createJob d.now record)).2
        prior := some (s.store, .createJob d.now record)
        jobs := Function.update s.jobs d.id (some
          { key := k, printerId := printerId, attempt := attempt, phase := phase
            history := [⟨.queued, .transportAccepted, none⟩] })
        byKey := Function.update s.byKey k (some
          { job := d.id, printerId := printerId, payload := payload, attempt := attempt })
        trails := Function.update s.trails d.id (Trail.new d.id) } j = true := by
    intro j hj hf
    refine failedAndFinished_of_jobs hf fun p hp _ => ⟨p, ?_, rfl, rfl⟩
    exact (Function.update_of_ne hj _ _).trans hp
  refine ⟨fun j p hp hpkey => ?_, fun j p hp hpkey => ?_, fun store now t hprior htkey j p hp hpkey
    hj => ?_⟩
  · by_cases hj : j = d.id
    · subst hj
      simp only [Function.update_self, Option.some.injEq] at hp
      have hk : k = key := by rw [← hpkey, ← hp]
      subst hk
      left
      rw [← hnewest]
      dsimp only
      rw [Function.update_self]
      rfl
    · have hold : s.jobs j = some p := (Function.update_of_ne hj _ _).symm.trans hp
      by_cases hk : k = key
      · exact .inr (hfailed hj (hall hk j p hold hpkey))
      · rcases h.newest j p hold hpkey with hn | hf
        · left
          change ((StoreOp.createJob d.now record).apply s.store none).2.idByKey key = some j
          rw [jobs_createJob (show (record.fresh d.now).forget.id ∉ s.store.ids from hfresh)]
          change (if record.key = [] then s.store.idByKey
            else Function.update s.store.idByKey record.key (some record.id)) key = some j
          split_ifs
          · exact hn
          · rw [Function.update_of_ne (by rw [hrkey]; exact Ne.symm hk)]
            exact hn
        · exact .inr (hfailed hj hf)
  · change (Function.update s.trails d.id (Trail.new d.id) j).progress.cutterFault = false
    by_cases hj : j = d.id
    · rw [hj, Function.update_self]
      rfl
    · have hold : s.jobs j = some p := (Function.update_of_ne hj _ _).symm.trans hp
      rw [Function.update_of_ne hj]
      exact h.fault j p hold hpkey
  · obtain ⟨rfl, he⟩ := Prod.mk.inj (Option.some.inj hprior)
    obtain ⟨rfl, rfl⟩ := StoreOp.createJob.inj he
    have hj' : j ≠ d.id := hid ▸ hj
    have hold : s.jobs j = some p := (Function.update_of_ne hj' _ _).symm.trans hp
    exact hfailed hj' (hall (hrkey.symm.trans htkey) j p hold hpkey)

/-- A move of the phases. -/
theorem Single.setPhase {phase : Phase} (h : Single key s) (hnone : s'.prior = none)
    (hstore : s'.store = s.store)
    (hfault : ∀ j, (s'.trails j).progress.cutterFault = (s.trails j).progress.cutterFault)
    (hjobs : s'.jobs = (s.change i (Job.setPhase phase)).jobs) : Single key s' := by
  have hold : ∀ {j : Bytes} {p : Job}, s'.jobs j = some p → p.key = key →
      ∃ q, s.jobs j = some q ∧ q.key = key := by
    intro j p hp hpkey
    rw [hjobs, change_jobs] at hp
    split_ifs at hp with hj
    · obtain ⟨q, hq, rfl⟩ := Option.map_eq_some_iff.mp hp
      exact ⟨q, hq, hpkey⟩
    · exact ⟨p, hp, hpkey⟩
  have hfailed : ∀ {j : Bytes}, s.failedAndFinished j = true → s'.failedAndFinished j = true := by
    intro j hf
    refine failedAndFinished_of_jobs hf fun p hp _ => ?_
    rw [hjobs, change_jobs, hp]
    split_ifs
    · exact ⟨_, rfl, rfl, rfl⟩
    · exact ⟨p, rfl, rfl, rfl⟩
  refine ⟨fun j p hp hpkey => ?_, fun j p hp hpkey => ?_, fun store now record hprior => ?_⟩
  · obtain ⟨q, hq, hqkey⟩ := hold hp hpkey
    rw [hstore]
    exact (h.newest j q hq hqkey).imp_right hfailed
  · obtain ⟨q, hq, hqkey⟩ := hold hp hpkey
    rw [hfault]
    exact h.fault j q hq hqkey
  · rw [hnone] at hprior
    cases hprior

theorem Single.step {e : Event} (h : Single key s) (hi : Indexed s) (hnone : s.prior = none)
    (hg : reprints key e = false) (hs : Stepped s e s') : Single key s' := by
  have hi' : Indexed s' := hi.step hnone hs
  cases hs with
  | same => exact h
  | submit hv hauto hm =>
    exact h.minted hi' (fun hk => allFailed_of_newest hi h fun e he =>
      failed_of_submit hv hauto hg hk he) hm
  | reserve hv hauto hm =>
    refine h.minted hi' (fun hk => allFailed_of_newest hi h fun e he => ?_) hm
    rw [none_of_reserve hv hauto hk] at he
    cases he
  | submitReserved hq hr hphase => exact h.setPhase hnone rfl (fun _ => rfl) rfl

theorem Single.begin {w : Work} {q : Prog Worker Unit} (h : Single key s) (hnone : s.prior = none)
    (hs : s.begin i w = some (q, s')) : Single key s' := by
  obtain ⟨p, phase, trails, -, -, -, rfl, hprogress, -⟩ := begin_outline hs
  exact h.setPhase hnone rfl (fun j => congrArg Progress.cutterFault (hprogress j).1) rfl

/-- The newest job of the key is the newest in the next process too, if it is there. -/
theorem Single.restart {r : Restart} (h : Single key s) (hk : Known s) (hi : Indexed s)
    (hb : Kept s) (hin : Inherited s) (hsettled : Settled s) (hs : driver.restart r s = some s') :
    Single key s' := by
  obtain ⟨file, hfile, rfl⟩ := Option.map_eq_some_iff.mp hs
  have hl := hi.lasting
  have hold : ∀ {j : Bytes} {p : Job},
      (opened (JobStore.open r.now file) s.markers.nonce s.trails s.leases).jobs j = some p →
        p.key = key → j ∈ (JobStore.open r.now file).ids ∧ ∃ q, s.jobs j = some q ∧ q.key = key := by
    intro j p hp hpkey
    rw [opened_jobs] at hp
    obtain ⟨t, ht, rfl⟩ := Option.map_eq_some_iff.mp hp
    refine ⟨find?_isSome.mp (by rw [ht]; rfl), ?_⟩
    obtain ⟨u, htu, hsource⟩ := reopened hl hfile (mem_of_find? ht)
    obtain ⟨old, hold, hid, hokey, -⟩ := hsource.record hl
    have htid : t.id = j := id_of_find? ht
    have hrecover : (u.recover (r.now u.id)).id = u.id := (keeps_recover r.now u).1
    have hoid : old.id = j := by rw [hid, ← htid, htu, hrecover]
    obtain ⟨q, hq⟩ := Option.isSome_iff_exists.mp
      ((hk j).mpr (hoid ▸ List.mem_map_of_mem hold))
    obtain ⟨v, hv, hvkey⟩ := hi.record j q hq
    have hvo : v = old := by
      have hfind := find?_of_mem hold
      rw [hoid, hv] at hfind
      exact Option.some.inj hfind
    refine ⟨q, hq, ?_⟩
    have htukey : t.key = u.key := by rw [htu, key_recover]
    rw [← hvkey, hvo, hokey, ← htukey]
    exact hpkey
  have hfailed : ∀ {j : Bytes}, s.failedAndFinished j = true →
      (opened (JobStore.open r.now file) s.markers.nonce s.trails s.leases).failedAndFinished j =
        true := by
    intro j hf
    obtain ⟨p, hp, ht, hstate⟩ := failedAndFinished_iff.mp hf
    obtain ⟨t, hopen, htstate⟩ : ∃ t, (JobStore.open r.now file).find? j = some t ∧
        t.state = p.state := over_reopened hl hb hin hsettled hfile hp ht
    refine failedAndFinished_iff.mpr ⟨reloadedJob t, ?_, rfl, htstate.trans hstate⟩
    rw [opened_jobs, hopen]
    rfl
  refine ⟨fun j p hp hpkey => ?_, fun j p hp hpkey => ?_, fun store now record hprior => ?_⟩
  · obtain ⟨hmem, q, hq, hqkey⟩ := hold hp hpkey
    rcases h.newest j q hq hqkey with hn | hf
    · rw [opened_store]
      rcases @idByKey_reopened s hl r.cut file hfile r.now with
        he | ⟨store, at', t, hprior, hgone, he⟩
      · rw [he]
        exact .inl hn
      · by_cases htkey : t.key = key
        · have hne : j ≠ t.id := by
            rintro rfl
            exact hgone hmem
          exact .inr (hfailed (h.prior store at' t hprior htkey j q hq hqkey hne))
        · left
          obtain ⟨-, ha, hstore⟩ := hl.prior _ _ hprior
          have hadd : s.store.idByKey = if t.key = [] then store.idByKey
              else Function.update store.idByKey t.key (some t.id) := by
            rw [← hstore, jobs_createJob (show (t.fresh at').forget.id ∉ store.ids from ha)]
            rfl
          rw [he, ← hn, hadd]
          split_ifs
          · rfl
          · rw [Function.update_of_ne (Ne.symm htkey)]
    · exact .inr (hfailed hf)
  · obtain ⟨-, q, hq, hqkey⟩ := hold hp hpkey
    rw [opened_trails]
    exact h.fault j q hq hqkey
  · rw [opened_prior] at hprior
    cases hprior

end Single

/-! ### In every run -/

section Runs
variable {G : driver.Guard} {nonce key : Bytes} {cfg : Config Worker Bytes State}

theorem settled_of_reached (h : Reached G nonce cfg) : Settled cfg.state := by
  refine driver_guarded.further known_opened (fun i => safe_ret_rest rest_opened)
    (J := fun s => Kept s ∧ Inherited s) (fun h => ⟨kept_of_reached h, inherited_of_reached h⟩)
    (settled_of_none opened_prior) (fun i c ch s a s' hj _ hc _ hs => Settled.serve hj.1 hj.2 hc hs)
    (fun e s s' hj _ _ hs =>
      settled_step (s := { s with prior := none }) hj.1 hj.2 rfl (step_stepped hs))
    (fun i w s q s' _ _ _ hs =>
      settled_of_none (begin_prior (s := { s with prior := none }) rfl hs))
    (fun r s s' _ _ _ hs => ?_) h
  obtain ⟨file, -, rfl⟩ := Option.map_eq_some_iff.mp hs
  exact settled_of_none opened_prior

theorem single_of_reached (h : Reached (faultless key) nonce cfg) : Single key cfg.state := by
  have hfirst : Single key (first nonce) := by
    refine ⟨fun i p hp => ?_, fun i p hp => ?_, fun store now record hprior => ?_⟩
    · cases hp
    · cases hp
    · cases hprior
  have hclear : ∀ {s : State}, Single key s → Single key { s with prior := none } :=
    fun h => ⟨h.newest, h.fault, fun _ _ _ hprior => by cases hprior⟩
  exact driver_guarded.further known_opened (fun i => safe_ret_rest rest_opened)
    (J := fun s => (Known s ∧ Indexed s) ∧ Kept s ∧ Inherited s ∧ Settled s)
    (fun h => ⟨indexed_of_reached h, kept_of_reached h, inherited_of_reached h,
      settled_of_reached h⟩) hfirst
    (fun i c ch s a s' hj hi hc hg hs => hi.serve hj.2.1 hc hg hs)
    (fun e s s' hj hi hg hs => (hclear hi).step hj.1.2.clear rfl hg (step_stepped hs))
    (fun i w s q s' _ hi _ hs => (hclear hi).begin rfl hs)
    (fun r s s' hj hi _ hs => hi.restart hj.1.1 hj.1.2 hj.2.1 hj.2.2.1 hj.2.2.2 hs) h

theorem printedOnce_of_reached (h : Reached (faultless key) nonce cfg) (hkey : key ≠ []) :
    PrintedOnce cfg key := by
  obtain ⟨-, hi⟩ := indexed_of_reached h
  have hb := kept_of_reached h
  have hsingle := single_of_reached h
  have hnewest : ∀ i p, cfg.state.jobs i = some p → p.key = key →
      (cfg.state.trails i).progress.accepted = true →
        cfg.state.store.idByKey key = some i ∧ cfg.state.failedAndFinished i = false := by
    intro i p hp hpkey ha
    have hlive := not_failed_of_accepted hb (inherited_of_reached h) (survives_of_reached h) hp ha
      (hsingle.fault i p hp hpkey)
    rcases hsingle.newest i p hp hpkey with hn | hf
    · exact ⟨hn, hlive⟩
    · rw [hlive] at hf
      cases hf
  refine ⟨fun i p hp hpkey ha printerId payload options hokey => ?_,
    fun i p hp hpkey ha j q data k hq hqkey hc => ?_⟩
  · obtain ⟨hn, hlive⟩ := hnewest i p hp hpkey ha
    obtain ⟨-, e, he⟩ := hi.entry hp
    rw [hpkey] at he
    have hjob := hi.newest key
    rw [he, hn] at hjob
    have hej : e.job = i := Option.some.inj hjob
    have hlookup : cfg.state.lookup options.key = some e := by
      rw [hokey, lookup_eq_byKey hkey, he]
    rw [decideSubmit_of_live hlookup (by rw [hej]; exact hlive), hej]
  · obtain ⟨hn, -⟩ := hnewest i p hp hpkey ha
    have hgood := driver_guarded.good known_opened (fun i => safe_ret_rest rest_opened) h
    have hallowed : contract.allowed j (.write .payload data) cfg.state := (hc ▸ hgood.2 j).allowed
    obtain ⟨⟨q', hq', hlive⟩, -, hadmits, -⟩ := hallowed
    obtain rfl := Option.some.inj (hq.symm.trans hq')
    have hrunning : (cfg.state.trails j).progress.finished = false := hadmits.1
    rcases hsingle.newest j q hq hqkey with hj | hf
    · rw [hn] at hj
      exact (Option.some.inj hj).symm
    · obtain ⟨q'', hq'', hterminal, -⟩ := failedAndFinished_iff.mp hf
      obtain rfl := Option.some.inj (hq.symm.trans hq'')
      rw [(hb j q hq hlive).finished, hrunning] at hterminal
      cases hterminal

end Runs

instance {key i : Bytes} {c : Call} {ch : driver.Choice} {s : State} :
    Decidable ((onlyPrinted key).serve i c ch s) := .isTrue trivial

instance {key : Bytes} {e : driver.Event} {s : State} : Decidable ((onlyPrinted key).event e s) :=
  inferInstanceAs (Decidable (reprints key e = false))

instance {key : Bytes} {r : driver.Restart} {s : State} : Decidable ((onlyPrinted key).restart r s) :=
  .isTrue trivial

instance {key i : Bytes} {c : Call} {ch : driver.Choice} {s : State} :
    Decidable ((faultless key).serve i c ch s) :=
  inferInstanceAs (Decidable ((isOf s key i && (ch.answer c).any (readsFault c)) = false))

instance {key : Bytes} {e : driver.Event} {s : State} : Decidable ((faultless key).event e s) :=
  inferInstanceAs (Decidable (reprints key e = false))

instance {key : Bytes} {r : driver.Restart} {s : State} : Decidable ((faultless key).restart r s) :=
  .isTrue trivial

/-- A printer that prints and then jams. -/
def jammed : (c : Call) → Option c.Answer
  | .await _ _ => some .signalled
  | .awaitRealtime _ _ => some (.signalled, [.realtimeStatus .errorCause 0x1A])
  | c => obliging c

def cutOptions : JobOptions := { key := str "K", preflight := .skip }

/-- A ticket that is cut, on a printer with the `GS ( H` fence. -/
def cutRun : JobRun :=
  { idleRun (str "1") with
    key := str "K", payload := .raw [65], options := cutOptions
    profile := { completion := .gsParenH } }

def cutterJams : List driver.Move :=
  [.event (.submit (print (str "kitchen") (.raw [65]) cutOptions) ⟨0, str "1", []⟩),
    .start (str "1") (.run cutRun)] ++
  List.replicate 28 (.serve (str "1") { answer := jammed })

/-- As in `regular (faultless key)`, but an append may fail in a process that goes on. -/
def losing (key : Bytes) : openDriver.Guard where
  serve i c ch s := (faultless key).serve i c ch s.base
  event
    | .base e, s => HandedOnce e s.base ∧ (faultless key).event e s.base
    | .appendFails _ _, _ => True

instance {key i : Bytes} {c : Call} {ch : openDriver.Choice} {s : OpenState} :
    Decidable ((losing key).serve i c ch s) :=
  inferInstanceAs (Decidable ((isOf s.base key i && (ch.answer c).any (readsFault c)) = false))

instance {key : Bytes} : ∀ {e : openDriver.Event} {s : OpenState}, Decidable ((losing key).event e s)
  | .base e, s => inferInstanceAs (Decidable (HandedOnce e s.base ∧ reprints key e = false))
  | .appendFails _ _, _ => .isTrue trivial

instance {key : Bytes} {r : openDriver.Restart} {s : OpenState} :
    Decidable ((losing key).restart r s) := .isTrue trivial

/-- The append of another ticket fails after a byte, the ticket is printed, and a process starts. -/
def lineGlued : List openDriver.Move :=
  .event (.appendFails (.createJob 0
    { id := str "0", key := str "J", printerId := str "kitchen", attempt := 1, payloadKind := .raw,
      payloadBytes := 1 }) 1) ::
  ticketPrinted.map openMove ++ [.restart {}]

/-- The ticket is on the paper, and a print of its key finds no job. -/
theorem glued_twice : ¬∀ (nonce key : Bytes) (cfg : Config Worker Bytes OpenState),
    OpenReached (losing key) nonce cfg → key ≠ [] → ∀ i,
      (cfg.state.base.trails i).run.key = key →
      (cfg.state.base.trails i).progress.accepted = true → ∀ printerId payload options,
        options.key = key →
          (cfg.state.base.decideSubmit (print printerId payload options)).creates = false := by
  intro hall
  have hreturned := hall (str "Q7") (str "K") (openAfter lineGlued)
    (openReached_after (by decide +kernel)) (by decide) (str "1") (by decide +kernel)
    (by decide +kernel) (str "kitchen") (.raw [65]) ticketOptions rfl
  have hcreates : ((openAfter lineGlued).state.base.decideSubmit
      (print (str "kitchen") (.raw [65]) ticketOptions)).creates = true := by decide +kernel
  rw [hreturned] at hcreates
  cases hcreates

end PrinterDriver.Engine.Duplicates
