import Mathlib.Data.List.Chain
import PrinterDriver.Engine.Keys

/-! # The books of a job

What the store, the job and its progress say of one another, in every run: the record is the state
recorded last, and the events published, with one that is recorded and not yet published, are a chain
of states in which the confidence rises (`Books`). -/

namespace PrinterDriver.Engine.Bookkeeping

open PrinterDriver.Lib.Programs PrinterDriver.Lib.Threads PrinterDriver.Core.Types
  PrinterDriver.Core.Profile PrinterDriver.Core.Journal PrinterDriver.Core.Store
  PrinterDriver.Core.StoreRuns PrinterDriver.Core.Crashes PrinterDriver.Engine.Ops
  PrinterDriver.Engine.RunJob PrinterDriver.Engine.Lifecycle PrinterDriver.Engine.Driver
  PrinterDriver.Engine.DriverRuns PrinterDriver.Engine.Keys

open State

/-! ### What a call makes of a job and of its record -/

def jobUpdate : Call → Job → Job
  | .emit _ event, p => { p with history := p.history ++ [event] }
  | .finish _ result, p => { p with result := some result }
  | .setTokens _ pair, p => { p with printToken := pair.printToken, cutToken := pair.cutToken }
  | _, p => p

def recordUpdate (now : UInt64) : Call → JobRecord → JobRecord
  | .recordState _ state confidence reason evidence, r =>
    r.setState state confidence reason now evidence
  | .recordTokens _ pair, r => r.setTokens pair.printToken pair.cutToken
  | _, r => r

section Serve
variable {s s' : State} {c : Call} {ch : Choice} {a : c.Answer}

theorem change_jobs {id : Bytes} {f : Job → Job} (j : Bytes) :
    (s.change id f).jobs j = if id = j then (s.jobs j).map f else s.jobs j := by
  by_cases hj : id = j
  · subst hj
    simp [State.change]
  · simp [State.change, hj, Ne.symm hj]

/-- The jobs after a call. -/
theorem serve_jobs (h : s.serve c ch = some (a, s')) (j : Bytes) :
    s'.jobs j = if about c = some j then (s.jobs j).map (jobUpdate c) else s.jobs j := by
  have hsame : ∀ {u : State}, u.jobs = s.jobs → (∀ p, jobUpdate c p = p) →
      u.jobs j = if about c = some j then (s.jobs j).map (jobUpdate c) else s.jobs j := by
    intro u hu hc
    have hid : jobUpdate c = id := funext hc
    rw [hu, hid, Option.map_id, id, ite_self]
  cases c with
  | recordState id st cf rs ev =>
    obtain ⟨u, hu, he⟩ := Option.map_eq_some_iff.mp h
    obtain rfl := (Prod.mk.inj he).2
    obtain ⟨-, rfl⟩ := commit_eq_some.mp hu
    exact hsame rfl fun _ => rfl
  | recordTokens id pair =>
    obtain ⟨u, hu, he⟩ := Option.map_eq_some_iff.mp h
    obtain rfl := (Prod.mk.inj he).2
    obtain ⟨-, rfl⟩ := commit_eq_some.mp hu
    exact hsame rfl fun _ => rfl
  | emit | finish | setTokens =>
    cases h
    rw [change_jobs]
    simp only [about, Option.some.injEq]
    rfl
  | registerTokens id pair =>
    cases h
    exact hsame (by simp) fun _ => rfl
  | releaseTokens pair =>
    cases h
    exact hsame rfl fun _ => rfl
  | _ =>
    obtain ⟨u, hu, he⟩ := Option.map_eq_some_iff.mp h
    obtain rfl := (Prod.mk.inj he).2
    exact hsame rfl fun _ => rfl

/-- A record after a change of one. -/
theorem find?_onlyAt {store store' : JobStore} {id : Bytes} {f : JobRecord → JobRecord}
    (hf : Keeps f) (h : store'.toRecords = store.change (onlyAt id f) (hf.onlyAt id)) (j : Bytes) :
    store'.find? j = if id = j then (store.find? j).map f else store.find? j := by
  rw [h, find?_change]
  cases hr : store.find? j with
  | none => simp
  | some r =>
    have hid := id_of_find? hr
    simp only [Option.map_some, onlyAt, hid, eq_comm]
    split_ifs <;> rfl

/-- The records after a call. -/
theorem serve_find (h : s.serve c ch = some (a, s')) (j : Bytes) :
    s'.store.find? j = if about c = some j then (s.store.find? j).map (recordUpdate ch.now c)
      else s.store.find? j := by
  have hsame : ∀ {u : State}, u.store = s.store → (∀ r, recordUpdate ch.now c r = r) →
      u.store.find? j = if about c = some j then (s.store.find? j).map (recordUpdate ch.now c)
        else s.store.find? j := by
    intro u hu hc
    have hid : recordUpdate ch.now c = id := funext hc
    rw [hu, hid, Option.map_id, id, ite_self]
  cases c with
  | recordState id st cf rs ev =>
    obtain ⟨u, hu, he⟩ := Option.map_eq_some_iff.mp h
    obtain rfl := (Prod.mk.inj he).2
    obtain ⟨ha, rfl⟩ := commit_eq_some.mp hu
    simp only [about, Option.some.injEq]
    exact find?_onlyAt keeps_setState (by rw [apply_ok ha]; rfl) j
  | recordTokens id pair =>
    obtain ⟨u, hu, he⟩ := Option.map_eq_some_iff.mp h
    obtain rfl := (Prod.mk.inj he).2
    obtain ⟨ha, rfl⟩ := commit_eq_some.mp hu
    simp only [about, Option.some.injEq]
    exact find?_onlyAt keeps_setTokens (by rw [apply_ok ha]; rfl) j
  | emit | finish | setTokens | releaseTokens =>
    cases h
    exact hsame rfl fun _ => rfl
  | registerTokens id pair =>
    cases h
    exact hsame (by simp) fun _ => rfl
  | _ =>
    obtain ⟨u, hu, he⟩ := Option.map_eq_some_iff.mp h
    obtain rfl := (Prod.mk.inj he).2
    exact hsame rfl fun _ => rfl

end Serve

/-! ### The books -/

/-- What the progress of a job says of it. -/
def standing (g : Progress) : JobEvent := ⟨g.state, g.confidence, g.reason.published⟩

/-- The record says the same. -/
structure Says (g : Progress) (r : JobRecord) : Prop where
  state : r.state = g.state
  confidence : r.confidence = g.confidence
  reason : r.reason = g.reason

/-- A job that handed bytes to the transport has left the states before it, and one whose bytes were
taken fails for its cutter only. -/
structure Sent (g : Progress) : Prop where
  handed : g.handed = true → isUnsent g.state = false
  accepted : g.accepted = true → g.handed = true
  fault : g.accepted = true → g.state = .failedKnown → g.cutterFault = true

def Next (a b : JobEvent) : Prop :=
  follows a.state b.state = true ∧ a.confidence.rank ≤ b.confidence.rank

/-- The events published, and the one that is recorded and not yet published. -/
def ledger (p : Job) (g : Progress) : List JobEvent :=
  if g.published then p.history else p.history ++ [standing g]

/-- The record of a job, the job, and what it has done. -/
structure Books (found : Option JobRecord) (p : Job) (t : Trail) : Prop where
  record : ∃ r, found = some r ∧ Says t.progress r
  finished : p.isTerminal = t.progress.finished
  ended : t.progress.finished = true →
    t.progress.published = true ∧ t.progress.state.isTerminal = true
  sent : Sent t.progress
  begins : p.history.head?.map JobEvent.state = some .queued
  chain : (ledger p t.progress).IsChain Next
  last : (ledger p t.progress).getLast? = some (standing t.progress)
  top : ∀ e ∈ ledger p t.progress, e.confidence.rank ≤ t.progress.confidence.rank
  ceiling : t.progress.confidence.rank ≤ t.run.ceiling.rank

section Post
variable {found : Option JobRecord} {p : Job} {t : Trail} {g : Progress} {j : JobRun} {c : Call}
  {a : c.Answer}

theorem isUnsent_of_follows {x y : JobState} (h : follows x y = true) (hy : isUnsent y = true) :
    isUnsent x = true := by
  cases y with
  | queued => cases x <;> cases h
  | heldOffline | preflightOk => cases x <;> first | rfl | exact absurd h (by decide)
  | _ => cases hy

theorem accepted_ne_nil {r : TransportResult} {data : Bytes} (h : r.accepted data ≠ []) :
    data ≠ [] := by
  rintro rfl
  unfold TransportResult.accepted at h
  split_ifs at h <;> simp at h

theorem Sent.post (h : Sent g) (hc : Admits j c g) : Sent (g.post ⟨c, a⟩) := by
  cases c with
  | recordState id state confidence reason evidence =>
    obtain ⟨-, -, -, hf, -, -, hfault⟩ := hc
    refine ⟨fun hh => ?_, h.accepted, fun ha hs => (hfault ha).mp hs⟩
    have hold := h.handed hh
    by_contra hn
    have hunsent : isUnsent state = true := Bool.not_eq_false _ ▸ hn
    rw [isUnsent_of_follows hf hunsent] at hold
    cases hold
  | write part data =>
    cases part with
    | payload =>
      have hs : g.state = .sendStarted := hc.2.2
      refine ⟨fun _ => ?_, fun ha => ?_, fun _ hk => ?_⟩
      · change isUnsent g.state = false
        rw [hs]
        rfl
      · simp only [Progress.post, Bool.or_eq_true, decide_eq_true_eq] at ha ⊢
        rcases ha with ha | ha
        · exact .inl (h.accepted ha)
        · exact .inr (accepted_ne_nil ha)
      · have hk' : g.state = .failedKnown := hk
        rw [hs] at hk'
        cases hk'
    | _ => exact h
  | awaitRealtime part count =>
    cases part with
    | cutterStatus =>
      have hs : g.state = .cutCommandProcessed := hc.2
      refine ⟨h.handed, h.accepted, fun _ hk => ?_⟩
      have hk' : g.state = .failedKnown := hk
      rw [hs] at hk'
      cases hk'
    | _ => exact h
  | emit | finish => exact ⟨h.handed, h.accepted, h.fault⟩
  | _ => exact h

/-- Nothing is recorded, published or ended. -/
structure Still (g g' : Progress) : Prop where
  state : g'.state = g.state
  confidence : g'.confidence = g.confidence
  reason : g'.reason = g.reason
  published : g'.published = g.published
  finished : g'.finished = g.finished

theorem Still.refl (g : Progress) : Still g g := ⟨rfl, rfl, rfl, rfl, rfl⟩

/-- The books of a job that stands where it stood. -/
theorem Books.same {found' : Option JobRecord} {p' : Job} {t' : Trail} (h : Books found p t)
    (hrecord : ∃ r, found' = some r ∧ Says t.progress r) (hhistory : p'.history = p.history)
    (hresult : p'.result = p.result) (hg : Still t.progress t'.progress) (hs : Sent t'.progress)
    (hceiling : t'.progress.confidence.rank ≤ t'.run.ceiling.rank) : Books found' p' t' := by
  have hstanding : standing t'.progress = standing t.progress := by
    unfold standing
    rw [hg.state, hg.confidence, hg.reason]
  have hledger : ledger p' t'.progress = ledger p t.progress := by
    unfold ledger
    rw [hg.published, hhistory, hstanding]
  obtain ⟨r, hr, hsays⟩ := hrecord
  constructor
  · exact ⟨r, hr, by rw [hg.state, hsays.state], by rw [hg.confidence, hsays.confidence],
      by rw [hg.reason, hsays.reason]⟩
  · rw [Job.isTerminal, hresult, hg.finished]
    exact h.finished
  · rw [hg.finished, hg.published, hg.state]
    exact h.ended
  · exact hs
  · rw [hhistory]
    exact h.begins
  · rw [hledger]
    exact h.chain
  · rw [hledger, hstanding]
    exact h.last
  · rw [hledger, hg.confidence]
    exact h.top
  · exact hceiling

/-- A call that records nothing, publishes nothing and ends nothing. -/
def isAside : Call → Bool
  | .recordState _ _ _ _ _ | .emit _ _ | .finish _ _ => false
  | _ => true

theorem still_post (hc : isAside c = true) : Still g (g.post ⟨c, a⟩) := by
  cases c with
  | recordState | emit | finish => cases hc
  | write part data => cases part <;> exact ⟨rfl, rfl, rfl, rfl, rfl⟩
  | awaitRealtime part count => cases part <;> exact ⟨rfl, rfl, rfl, rfl, rfl⟩
  | _ => exact .refl _

theorem jobUpdate_aside (hc : isAside c = true) :
    (jobUpdate c p).history = p.history ∧ (jobUpdate c p).result = p.result := by
  cases c with
  | recordState | emit | finish => cases hc
  | _ => exact ⟨rfl, rfl⟩

theorem recordUpdate_aside {now : UInt64} {r : JobRecord} (hc : isAside c = true)
    (h : Says g r) : Says g (recordUpdate now c r) := by
  cases c with
  | recordState | emit | finish => cases hc
  | _ => exact ⟨h.state, h.confidence, h.reason⟩

/-- A job is at the end of its ledger. -/
theorem getLast_append_standing {L : List JobEvent} {e : JobEvent} :
    (L ++ [e]).getLast? = some e := by
  rw [List.getLast?_append, List.getLast?_singleton]
  rfl

/-- **The books after a call of the job.** -/
theorem Books.post {now : UInt64} (h : Books found p t) (hc : Admits t.run c t.progress) :
    Books (found.map (recordUpdate now c)) (jobUpdate c p) (t.note ⟨c, a⟩) := by
  obtain ⟨r, rfl, hsays⟩ := h.record
  have hsent : Sent (t.note ⟨c, a⟩).progress := h.sent.post hc
  by_cases haside : isAside c = true
  · have hstill : Still t.progress (t.note ⟨c, a⟩).progress := still_post haside
    refine h.same ⟨_, rfl, recordUpdate_aside haside hsays⟩ (jobUpdate_aside haside).1
      (jobUpdate_aside haside).2 hstill hsent ?_
    rw [hstill.confidence]
    exact h.ceiling
  cases c with
  | recordState id state confidence reason evidence =>
    obtain ⟨hrun, -, hpub, hf, hconf, hceiling, -⟩ := hc
    have hold : ledger p t.progress = p.history := by
      unfold ledger
      rw [if_pos hpub]
    have hlast : p.history.getLast? = some (standing t.progress) := hold ▸ h.last
    constructor
    · exact ⟨_, rfl, rfl, rfl, rfl⟩
    · exact h.finished
    · intro hfin
      rw [show t.progress.finished = true from hfin] at hrun
      cases hrun
    · exact hsent
    · exact h.begins
    · change (p.history ++ [_]).IsChain Next
      refine List.IsChain.append (hold ▸ h.chain) (List.isChain_singleton _) fun x hx y hy => ?_
      rw [hlast] at hx
      obtain rfl := Option.some.inj hx
      obtain rfl := Option.some.inj hy
      exact ⟨hf, hconf⟩
    · exact getLast_append_standing
    · intro e he
      change e ∈ p.history ++ [_] at he
      rcases List.mem_append.mp he with he | he
      · exact Nat.le_trans (h.top e (hold.symm ▸ he)) hconf
      · rw [List.mem_singleton.mp he]
        exact Nat.le_refl _
    · exact hceiling
  | emit id event =>
    obtain ⟨hrun, -, hpub, rfl⟩ := hc
    have hledger : ledger p t.progress = p.history ++ [standing t.progress] := by
      unfold ledger
      rw [hpub]
      rfl
    have hnew : ledger (jobUpdate (.emit id (standing t.progress)) p)
        (t.note ⟨.emit id (standing t.progress), a⟩).progress = ledger p t.progress := by
      rw [hledger]
      rfl
    have hkept : standing (t.note ⟨.emit id (standing t.progress), a⟩).progress =
        standing t.progress := rfl
    constructor
    · exact ⟨r, rfl, hsays.state, hsays.confidence, hsays.reason⟩
    · exact h.finished
    · intro hfin
      rw [show t.progress.finished = true from hfin] at hrun
      cases hrun
    · exact hsent
    · have hne : p.history ≠ [] := by
        intro hn
        have hbegins := h.begins
        rw [hn] at hbegins
        cases hbegins
      change (p.history ++ [_]).head?.map JobEvent.state = _
      rw [List.head?_append_of_ne_nil _ hne]
      exact h.begins
    · exact hnew.symm ▸ h.chain
    · exact (congrArg List.getLast? hnew).trans h.last
    · exact hnew.symm ▸ h.top
    · exact h.ceiling
  | finish id result =>
    obtain ⟨-, -, hpub, hstate, -⟩ := hc
    exact ⟨⟨r, rfl, hsays.state, hsays.confidence, hsays.reason⟩, rfl, fun _ => ⟨hpub, hstate⟩,
      hsent, h.begins, h.chain, h.last, h.top, h.ceiling⟩
  | _ => exact absurd rfl haside

end Post

/-! ### The books in every run -/

/-- The books of the jobs that the process itself created. -/
def Kept (s : State) : Prop :=
  ∀ i p, s.jobs i = some p → p.phase ≠ .reloaded → Books (s.store.find? i) p (s.trails i)

section Moves
variable {s s' : State} {i : Bytes}

theorem update_of_about {c : Call} {now : UInt64} (h : about c = none) :
    jobUpdate c = id ∧ recordUpdate now c = id := by
  cases c with
  | recordState | recordTokens | emit | finish | setTokens => cases h
  | _ => exact ⟨rfl, rfl⟩

/-- What a call of a job makes of the job and its record. -/
theorem serve_self {r : JobRun} {g : Progress} {c : Call} {ch : Choice} {a : c.Answer}
    (hid : r.id = i) (hc : Admits r c g) (h : s.serve c ch = some (a, s')) :
    s'.jobs i = (s.jobs i).map (jobUpdate c) ∧
      s'.store.find? i = (s.store.find? i).map (recordUpdate ch.now c) := by
  rw [serve_jobs h, serve_find h]
  cases ha : about c with
  | none =>
    obtain ⟨hjob, hrecord⟩ := @update_of_about c ch.now ha
    rw [hjob, hrecord, Option.map_id, Option.map_id, if_neg (by simp), if_neg (by simp)]
    exact ⟨rfl, rfl⟩
  | some id =>
    obtain rfl : id = i := (about_of_admits hc ha).trans hid
    rw [if_pos rfl, if_pos rfl]
    exact ⟨rfl, rfl⟩

/-- What a call of a job leaves of the others. -/
theorem serve_others {r : JobRun} {g : Progress} {c : Call} {ch : Choice} {a : c.Answer}
    (hid : r.id = i) (hc : Admits r c g) (h : s.serve c ch = some (a, s')) {j : Bytes}
    (hj : j ≠ i) : s'.jobs j = s.jobs j ∧ s'.store.find? j = s.store.find? j := by
  have hne : about c ≠ some j := fun ha => hj ((about_of_admits hc ha).trans hid)
  rw [serve_jobs h, serve_find h, if_neg hne, if_neg hne]
  exact ⟨rfl, rfl⟩

theorem jobUpdate_phase {c : Call} {p : Job} : (jobUpdate c p).phase = p.phase := by
  cases c <;> rfl

theorem Kept.serve {c : Call} {ch : Choice} {a : c.Answer} (h : Kept s)
    (hc : contract.allowed i c s) (hs : s.serveAs i c ch = some (a, s')) : Kept s' := by
  obtain ⟨u, hu, rfl⟩ := serveAs_eq_some.mp hs
  obtain ⟨-, hid, hadmits, -⟩ := hc
  have htrails : u.trails = s.trails := (serve_served hu).trails
  intro j p hp hlive
  by_cases hj : j = i
  · subst hj
    obtain ⟨hjobs, hfind⟩ := serve_self hid hadmits hu
    change u.jobs j = some p at hp
    rw [hjobs, Option.map_eq_some_iff] at hp
    obtain ⟨q, hq, rfl⟩ := hp
    rw [note_trails_self, htrails]
    change Books (u.store.find? j) _ _
    rw [hfind]
    exact (h j q hq (jobUpdate_phase (c := c) ▸ hlive)).post hadmits
  · obtain ⟨hjobs, hfind⟩ := serve_others hid hadmits hu hj
    change u.jobs j = some p at hp
    rw [note_trails_of_ne hj, htrails]
    change Books (u.store.find? j) _ _
    rw [hfind]
    exact h j p (hjobs ▸ hp) hlive

/-- The books of a new job. -/
theorem books_new {d : Draw} {record : JobRecord} {p : Job} (hresult : p.result = none)
    (hhistory : p.history = [⟨.queued, .transportAccepted, none⟩]) :
    Books (some (record.fresh d.now).forget) p (Trail.new d.id) := by
  have hledger : ledger p (Trail.new d.id).progress = [⟨.queued, .transportAccepted, none⟩] :=
    hhistory
  have hover : p.isTerminal = false := by
    rw [Job.isTerminal, hresult]
    rfl
  constructor
  · exact ⟨_, rfl, rfl, rfl, rfl⟩
  · exact hover
  · intro hf
    cases hf
  · refine ⟨fun hf => ?_, fun hf => ?_, fun hf => ?_⟩ <;> cases hf
  · rw [hhistory]
    rfl
  · rw [hledger]
    exact List.isChain_singleton _
  · rw [hledger]
    rfl
  · rw [hledger]
    intro e he
    rw [List.mem_singleton.mp he]
    exact Nat.zero_le _
  · exact Nat.zero_le _

/-- A record of a job that is not the new one. -/
theorem find?_createJob {store : JobStore} {now : UInt64} {record : JobRecord}
    (h : record.id ∉ store.ids) (j : Bytes) :
    ((StoreOp.createJob now record).apply store none).2.find? j =
      if record.id = j then some (record.fresh now).forget else store.find? j := by
  rw [jobs_createJob (show (record.fresh now).forget.id ∉ store.ids from h), find?_add]
  rfl

theorem Kept.minted {d : Draw} {key printerId : Bytes} {attempt : UInt32}
    {payload : Option Payload} {phase : Phase} (h : Kept s)
    (hm : Minted s s' d key printerId attempt payload phase) : Kept s' := by
  obtain ⟨record, hid, -, -, -, -, -, rfl⟩ := hm.eq
  have hnew : record.id ∉ s.store.ids := hid ▸ hm.fresh
  intro j p hp hlive
  change Books (((StoreOp.createJob d.now record).apply s.store none).2.find? j) p
    (Function.update s.trails d.id (Trail.new d.id) j)
  rw [find?_createJob hnew, hid]
  by_cases hj : d.id = j
  · subst hj
    simp only [Function.update_self, Option.some.injEq] at hp
    rw [if_pos rfl, Function.update_self]
    exact books_new (by rw [← hp]) (by rw [← hp])
  · simp only [Function.update_of_ne (Ne.symm hj)] at hp
    rw [if_neg hj, Function.update_of_ne (Ne.symm hj)]
    exact h j p hp hlive

/-- A job whose phase changes. -/
theorem Kept.setPhase {phase : Phase} (h : Kept s)
    (hi : ∀ p, s.jobs i = some p → p.phase ≠ .reloaded)
    {j : Bytes} {p : Job} (hp : (s.change i (Job.setPhase phase)).jobs j = some p)
    (hlive : p.phase ≠ .reloaded) : Books (s.store.find? j) p (s.trails j) := by
  rw [change_jobs] at hp
  split_ifs at hp with hj
  · subst hj
    obtain ⟨q, hq, rfl⟩ := Option.map_eq_some_iff.mp hp
    have hb := h i q hq (hi q hq)
    exact hb.same hb.record rfl rfl (.refl _) hb.sent hb.ceiling
  · exact h j p hp hlive

theorem Kept.step {e : Event} (h : Kept s) (hs : Stepped s e s') : Kept s' := by
  cases hs with
  | same => exact h
  | submit hv hauto hm => exact h.minted hm
  | reserve hv hauto hm => exact h.minted hm
  | @submitReserved id payload options q hq hr hphase =>
    intro j p hp hlive
    refine h.setPhase (fun p hp => ?_) hp hlive
    obtain rfl := Option.some.inj (hq.symm.trans hp)
    rcases hphase with he | he <;> rw [he] <;> simp

/-- Any run will do for a job that was just queued. -/
theorem Books.begin {found : Option JobRecord} {p : Job} {t : Trail} {j : JobRun}
    (h : Books found p t) (hc : t.progress.confidence = .transportAccepted) :
    Books found p (t.begin j) := by
  refine h.same h.record rfl rfl (.refl _) h.sent ?_
  change t.progress.confidence.rank ≤ _
  rw [hc]
  exact Nat.zero_le _

theorem Kept.begin {w : Work} {q : Prog Worker Unit} (h : Kept s) (hr : contract.rest i s)
    (hs : s.begin i w = some (q, s')) : Kept s' := by
  obtain ⟨p, hp, hb⟩ := begin_began hs
  have hlive : p.phase ≠ .reloaded → ∀ q, s.jobs i = some q → q.phase ≠ .reloaded := by
    intro hne q hq
    rwa [← Option.some.inj (hp.symm.trans hq)]
  cases hb with
  | run r t hphase hfits =>
    obtain ⟨hu, -⟩ := hr p hp (by simp [hphase]) (by simp [hphase])
    intro j p' hp' hl
    have hb : Books (s.store.find? j) p' (s.trails j) :=
      h.setPhase (hlive (by simp [hphase])) hp' hl
    change Books (s.store.find? j) p' (Function.update s.trails i _ j)
    by_cases hj : j = i
    · subst hj
      rw [Function.update_self]
      exact hb.begin hu.fresh.confidence
    · rw [Function.update_of_ne hj]
      exact hb
  | hold hphase => exact fun j p' hp' hl => h.setPhase (hlive (by simp [hphase])) hp' hl
  | giveUp reason hphase =>
    refine fun j p' hp' hl => h.setPhase (hlive fun he => ?_) hp' hl
    simp [he, Phase.givenUp] at hphase

theorem kept_opened {store : JobStore} {nonce : Bytes} {trails : Bytes → Trail}
    {leases : List (Bytes × MarkerPair)} : Kept (opened store nonce trails leases) := by
  intro i p hp hlive
  rw [opened_jobs] at hp
  obtain ⟨r, -, rfl⟩ := Option.map_eq_some_iff.mp hp
  exact absurd rfl hlive

/-! ### Jobs of earlier processes -/

/-- A job of an earlier process is what its record says, and is over. -/
def Inherited (s : State) : Prop :=
  ∀ i p, s.jobs i = some p → p.phase = .reloaded →
    ∃ r, s.store.find? i = some r ∧ r.isTerminal = true ∧ p = reloadedJob r

theorem Inherited.serve {c : Call} {ch : Choice} {a : c.Answer} (h : Inherited s)
    (hc : contract.allowed i c s) (hs : s.serveAs i c ch = some (a, s')) : Inherited s' := by
  obtain ⟨u, hu, rfl⟩ := serveAs_eq_some.mp hs
  obtain ⟨⟨q, hq, hlive⟩, hid, hadmits, -⟩ := hc
  intro j p hp hphase
  change u.jobs j = some p at hp
  change ∃ r, u.store.find? j = some r ∧ _
  by_cases hj : j = i
  · subst hj
    obtain ⟨hjobs, -⟩ := serve_self hid hadmits hu
    rw [hjobs, Option.map_eq_some_iff] at hp
    obtain ⟨q', hq', rfl⟩ := hp
    rw [Option.some.inj (hq'.symm.trans hq), jobUpdate_phase] at hphase
    exact absurd hphase hlive
  · obtain ⟨hjobs, hfind⟩ := serve_others hid hadmits hu hj
    rw [hfind]
    exact h j p (hjobs ▸ hp) hphase

theorem Inherited.minted {d : Draw} {key printerId : Bytes} {attempt : UInt32}
    {payload : Option Payload} {phase : Phase} (h : Inherited s) (hnew : phase ≠ .reloaded)
    (hm : Minted s s' d key printerId attempt payload phase) : Inherited s' := by
  obtain ⟨record, hid, -, -, -, -, -, rfl⟩ := hm.eq
  have hfresh : record.id ∉ s.store.ids := hid ▸ hm.fresh
  intro j p hp hphase
  change ∃ r, ((StoreOp.createJob d.now record).apply s.store none).2.find? j = some r ∧ _
  rw [find?_createJob hfresh, hid]
  by_cases hj : d.id = j
  · subst hj
    simp only [Function.update_self, Option.some.injEq] at hp
    rw [← hp] at hphase
    exact absurd hphase hnew
  · simp only [Function.update_of_ne (Ne.symm hj)] at hp
    rw [if_neg hj]
    exact h j p hp hphase

theorem Inherited.setPhase {phase : Phase} (h : Inherited s) (hnew : phase ≠ .reloaded) {j : Bytes}
    {p : Job} (hp : (s.change i (Job.setPhase phase)).jobs j = some p)
    (hphase : p.phase = .reloaded) :
    ∃ r, s.store.find? j = some r ∧ r.isTerminal = true ∧ p = reloadedJob r := by
  rw [change_jobs] at hp
  split_ifs at hp with hj
  · obtain ⟨q, hq, rfl⟩ := Option.map_eq_some_iff.mp hp
    exact absurd hphase hnew
  · exact h j p hp hphase

theorem Inherited.step {e : Event} (h : Inherited s) (hs : Stepped s e s') : Inherited s' := by
  cases hs with
  | same => exact h
  | submit hv hauto hm => exact h.minted (by simp) hm
  | reserve hv hauto hm => exact h.minted (by simp) hm
  | submitReserved hq hr hphase => exact fun j p hp hl => h.setPhase (by simp) hp hl

theorem Inherited.begin {w : Work} {q : Prog Worker Unit} (h : Inherited s)
    (hs : s.begin i w = some (q, s')) : Inherited s' := by
  obtain ⟨p, phase, trails, -, -, hphase, rfl, -, -⟩ := begin_outline hs
  exact fun j p' hp' hl => h.setPhase hphase hp' hl

theorem inherited_opened {now : Bytes → UInt64} {file nonce : Bytes} {trails : Bytes → Trail}
    {leases : List (Bytes × MarkerPair)} :
    Inherited (opened (JobStore.open now file) nonce trails leases) := by
  intro i p hp _
  rw [opened_jobs] at hp
  rw [opened_store]
  obtain ⟨r, hr, rfl⟩ := Option.map_eq_some_iff.mp hp
  exact ⟨r, hr, Records.terminal_recover _ _ r (mem_of_find? hr), rfl⟩

/-- **The jobs of earlier processes**, in every run. -/
theorem inherited_of_reached {G : driver.Guard} {nonce : Bytes} {cfg : Config Worker Bytes State}
    (h : Reached G nonce cfg) : Inherited cfg.state :=
  (driver_guarded.invariant known_opened (fun i => safe_ret_rest rest_opened)
    (I := Inherited) inherited_opened
    (fun i c ch s a s' _ hi hc _ hs => hi.serve hc hs)
    (fun e s s' _ hi _ hs => Inherited.step (s := { s with prior := none }) hi (step_stepped hs))
    (fun i w s q s' _ hi _ hs => Inherited.begin (s := { s with prior := none }) hi hs)
    (fun r s s' _ _ _ hs => by
      obtain ⟨file, -, rfl⟩ := Option.map_eq_some_iff.mp hs
      exact inherited_opened) h).2

/-- **The books**, in every run. -/
theorem kept_of_reached {G : driver.Guard} {nonce : Bytes} {cfg : Config Worker Bytes State}
    (h : Reached G nonce cfg) : Kept cfg.state :=
  (driver_guarded.invariant known_opened (fun i => safe_ret_rest rest_opened)
    (I := Kept) kept_opened
    (fun i c ch s a s' _ hi hc _ hs => hi.serve hc hs)
    (fun e s s' _ hi _ hs => Kept.step (s := { s with prior := none }) hi (step_stepped hs))
    (fun i w s q s' _ hi hr hs => Kept.begin (s := { s with prior := none }) hi hr hs)
    (fun r s s' _ _ _ hs => by
      obtain ⟨file, -, rfl⟩ := Option.map_eq_some_iff.mp hs
      exact kept_opened) h).2

end Moves

end PrinterDriver.Engine.Bookkeeping
