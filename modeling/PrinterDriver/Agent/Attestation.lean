import PrinterDriver.Agent.Evidence
import PrinterDriver.Engine.Duplicates
import PrinterDriver.Engine.Histories

/-! # What the evidence document is worth

The document is derived from the recorded state and confidence alone. `Honest` compares it with the
calls that the job made, in this process or an earlier one; `honest_iff_not_jammed` says when it
stands the comparison. -/

namespace PrinterDriver.Agent.Attestation

open PrinterDriver.Lib.Programs PrinterDriver.Lib.Threads PrinterDriver.Lib.Simulations
  PrinterDriver.Lib.Recording
  PrinterDriver.Core.Types PrinterDriver.Core.Profile PrinterDriver.Core.Journal
  PrinterDriver.Core.Store PrinterDriver.Core.StoreRuns PrinterDriver.Core.Crashes
  PrinterDriver.Engine.Ops PrinterDriver.Engine.RunJob PrinterDriver.Engine.Lifecycle
  PrinterDriver.Engine.Testimonies PrinterDriver.Engine.Driver PrinterDriver.Engine.DriverRuns
  PrinterDriver.Engine.Keys PrinterDriver.Engine.Retries PrinterDriver.Engine.Bookkeeping
  PrinterDriver.Engine.CrashSafety PrinterDriver.Engine.Histories PrinterDriver.Engine.OpenDriver
  PrinterDriver.Agent.Evidence

open PrinterDriver.Engine.Duplicates (cutterJams)

open PrinterDriver.Agent.Jobs (findJob)

open Machine

/-- The document is one that the agent answers a request with. -/
def Served (s : State) (owned : Printers) (doc : Document) : Prop :=
  (∃ reference, getJob s owned reference = some doc) ∨
    ∃ id deduped, jobDocument s owned id deduped = some doc

/-- What the document says of a job is borne out by the calls of the job, and its outcome is the result
of the engine: the one delivered to the job's waiters, and the one that the job's handle has. -/
structure Honest (s : State) (calls : Calls Worker) (doc : Document) : Prop where
  transport : doc.evidence.transportAccepted = false → ¬PayloadAccepted calls
  fence : doc.evidence.fenceResponse = true → FenceAnswered calls
  delivered : ∀ result, Delivered calls result → doc.outcome = some result.outcome
  shown : ∀ p result, s.jobs doc.job = some p → p.result = some result →
    doc.outcome = some result.outcome

/-- The journal has a job as `FailedKnown` whose cutter reported a fault behind the cut. -/
def Jammed (s : State) (calls : Calls Worker) (id : Bytes) : Prop :=
  (∃ r, s.store.findById id = some r ∧ r.state = .failedKnown) ∧ CutterFaultRead calls

/-! ### The mappings -/

theorem fenceCameBack_iff {c : ConfidenceLevel} : fenceCameBack c = true ↔ Claims c := by
  cases c <;> decide

theorem recordOutcome_eq (state : JobState) : recordOutcome state = outcomeOf state := by
  cases state <;> rfl

theorem bytesLeftTheHost_iff {state : JobState} (h : state.isTerminal = true) :
    bytesLeftTheHost state = false ↔ state = .failedKnown := by
  cases state with
  | doneSoftware | physicallyVerified | failedKnown | unknown => decide
  | _ => cases h

theorem outcome_reloadedResult (r : JobRecord) :
    (reloadedResult r).outcome = outcomeOf r.state := by
  unfold reloadedResult
  cases r.state <;> rfl

section Documents
variable {s : State} {h : History} {owned : Printers} {doc : Document}

/-- A document is about a record of the store, and about no handle or that of the record's job. -/
theorem served_record (hk : Known s) (hd : Served s owned doc) :
    ∃ r job deduped, s.store.find? r.id = some r ∧ doc = evidenceJson owned r job deduped ∧
      (job = none ∨ job = s.jobs r.id) := by
  have habsent : ∀ {id : Bytes}, s.store.find? id = none → s.jobs id = none := by
    intro id hn
    rw [← Option.not_isSome_iff_eq_none, hk id]
    exact find?_eq_none.mp hn
  have hfound : ∀ {id : Bytes} {r : JobRecord}, s.store.find? id = some r →
      s.store.find? r.id = some r := fun hr => by rw [id_of_find? hr]; exact hr
  rcases hd with ⟨reference, hd⟩ | ⟨id, deduped, hd⟩
  · obtain ⟨r, hr, rfl⟩ := Option.map_eq_some_iff.mp hd
    generalize (findJob s reference).or (jobByToken s reference) = job at hr ⊢
    have hother : ∀ {o : Option Bytes}, (o.bind s.store.findById = none) →
        o.bind s.jobs = none := by
      intro o ho
      cases o with
      | none => rfl
      | some id => exact habsent ho
    cases hrecord : job.bind s.store.findById with
    | some t =>
      rw [hrecord] at hr
      obtain rfl : t = r := Option.some.inj hr
      obtain ⟨id, rfl, hid⟩ := Option.bind_eq_some_iff.mp hrecord
      have hsame : t.id = id := id_of_find? hid
      exact ⟨t, s.jobs id, false, hfound hid, rfl, .inr (by rw [hsame])⟩
    | none =>
      rw [hrecord, Option.none_or] at hr
      rw [hother hrecord]
      refine ⟨r, none, false, ?_, rfl, .inl rfl⟩
      cases hid : s.store.findById reference with
      | some t =>
        rw [hid] at hr
        obtain rfl : t = r := Option.some.inj hr
        exact hfound hid
      | none =>
        rw [hid, Option.none_or] at hr
        obtain ⟨id, -, hid⟩ := Option.bind_eq_some_iff.mp hr
        exact hfound hid
  · obtain ⟨r, hr, rfl⟩ := Option.map_eq_some_iff.mp hd
    have hsame : r.id = id := id_of_find? hr
    exact ⟨r, s.jobs id, deduped, hfound hr, rfl, .inr (by rw [hsame])⟩

/-- The result of a handle is that of the record. -/
theorem outcome_of_result (hh : Heard (s, h)) (hinherited : Inherited s)
    {r : JobRecord} {p : Job} {result : JobResult} (hr : s.store.find? r.id = some r)
    (hp : s.jobs r.id = some p) (hres : p.result = some result) :
    result.outcome = outcomeOf r.state := by
  by_cases hl : p.phase = .reloaded
  · obtain ⟨t, ht, -, rfl⟩ := hinherited r.id p hp hl
    obtain rfl := Option.some.inj (hr.symm.trans ht)
    obtain rfl := Option.some.inj hres
    exact outcome_reloadedResult r
  · have hdelivered : Delivered (h r.id) result := hh.result r.id p result hp hl hres
    exact ((hh.store.vouched r.id r hr).result result hdelivered).2

/-- What a document of a job that is over shows for its outcome. -/
theorem outcomeShown_eq (hh : Heard (s, h)) (hinherited : Inherited s)
    {r : JobRecord} {job : Option Job} (hr : s.store.find? r.id = some r)
    (hjob : job = none ∨ job = s.jobs r.id) (ht : r.isTerminal = true) :
    outcomeShown r job = some (outcomeOf r.state) := by
  unfold outcomeShown
  cases hres : job.bind Job.result with
  | none =>
    dsimp only
    rw [if_pos ht, recordOutcome_eq]
  | some result =>
    obtain ⟨p, rfl, hres⟩ := Option.bind_eq_some_iff.mp hres
    have hp : s.jobs r.id = some p := (hjob.resolve_left (by simp)).symm
    exact congrArg some (outcome_of_result hh hinherited hr hp hres)

/-- A payload that was accepted is denied only of a job that jammed. -/
theorem accepted_iff_jammed (hh : Heard (s, h)) (hs : Survives s) {r : JobRecord}
    (hr : s.store.find? r.id = some r) (hf : r.state = .failedKnown) :
    PayloadAccepted (h r.id) ↔ CutterFaultRead (h r.id) := by
  refine ⟨fun ha => ?_, hh.asked r.id⟩
  have hprogress : (s.trails r.id).progress = progressOf (h r.id) := hh.progress r.id
  have haccepted : (s.trails r.id).progress.accepted = true := by
    rw [hprogress]
    exact accepted_progressOf.mpr ha
  have hsent : Sent (s.trails r.id).progress := hs.sent r.id
  obtain ⟨t, ht, hreloads⟩ := hs.store r.id (hsent.accepted haccepted)
  obtain rfl := Option.some.inj (hr.symm.trans ht)
  have hstate : (s.trails r.id).progress.state = .failedKnown := by
    rcases hreloads with hu | ⟨-, hsame⟩ | ⟨hterminal, -⟩
    · rw [hf] at hu
      cases hu
    · rw [← hsame, hf]
    · rw [JobRecord.isTerminal, hf] at hterminal
      cases hterminal
  refine faultRead_of_cutterFault ?_
  rw [← hprogress]
  exact hsent.fault haccepted hstate

end Documents

/-! ### In every run -/

section Runs
variable {nonce : Bytes} {cfg : Config Worker Bytes (State × History)} {owned : Printers}
  {doc : Document}

theorem honest_iff_of_remembered (h : Remembered nonce cfg) (hd : Served cfg.state.1 owned doc)
    (ht : doc.terminal = true) : Honest cfg.state.1 (cfg.state.2 doc.job) doc ↔
      ¬Jammed cfg.state.1 (cfg.state.2 doc.job) doc.job := by
  have hreach : Reached (.none _) nonce (forget cfg) := reach_fst h
  have hh : Heard (cfg.state.1, cfg.state.2) := heard_of_remembered h
  have hk : Known cfg.state.1 := (indexed_of_reached hreach).1
  have hinherited : Inherited cfg.state.1 := inherited_of_reached hreach
  have hsurvives : Survives cfg.state.1 := survives_of_reached hreach
  obtain ⟨r, job, deduped, hr, rfl, hjob⟩ := served_record hk hd
  have hterminal : r.isTerminal = true := ht
  have houtcome := outcomeShown_eq hh hinherited hr hjob hterminal
  have hvouched : Vouched (cfg.state.2 r.id) r := hh.store.vouched r.id r hr
  have htransport : (bytesLeftTheHost r.state = false → ¬PayloadAccepted (cfg.state.2 r.id)) ↔
      ¬Jammed cfg.state.1 (cfg.state.2 r.id) r.id := by
    rw [bytesLeftTheHost_iff hterminal]
    constructor
    · rintro hnone ⟨⟨t, ht, hf⟩, hfault⟩
      obtain rfl := Option.some.inj (hr.symm.trans ht)
      exact hnone hf (hh.asked r.id hfault)
    · intro hnone hf ha
      exact hnone ⟨⟨r, hr, hf⟩, (accepted_iff_jammed hh hsurvives hr hf).mp ha⟩
  constructor
  · intro hhonest
    exact htransport.mp hhonest.transport
  · intro hnone
    refine ⟨htransport.mpr hnone, fun hf => ?_, fun result hres => ?_, fun p result hp hres => ?_⟩
    · exact hvouched.fence (fenceCameBack_iff.mp hf)
    · rw [(hvouched.result result hres).2]
      exact houtcome
    · rw [outcome_of_result hh hinherited hr hp hres]
      exact houtcome

end Runs

/-- **When the document is honest.** In every run that hands every job over once, the document of a
job that is over is borne out by what happened to the job, unless its cutter reported a fault and the
journal has it as `FailedKnown`. -/
theorem honest_iff_not_jammed {nonce : Bytes} {cfg : Config Worker Bytes (OpenState × History)}
    {owned : Printers} {doc : Document} (h : OpenRemembered (regular (.none _)) nonce cfg)
    (hd : Served cfg.state.1.base owned doc) (ht : doc.terminal = true) :
    Honest cfg.state.1.base (cfg.state.2 doc.job) doc ↔
      ¬Jammed cfg.state.1.base (cfg.state.2 doc.job) doc.job := by
  have hfollow := follows_recorded (follows_driver (.none driver))
  have hremembered : Remembered nonce (image (Prod.map OpenState.base id) cfg) :=
    (hfollow.reach (fun _ => rfl) h).2
  exact honest_iff_of_remembered hremembered hd ht

/-! ### Two tickets -/

/-- Where a list of moves leads, with its memory. -/
def remembered (moves : List driver.Move) : Config Worker Bytes (OpenState × History) :=
  (replay (.none (recorded openDriver)) (moves.map fun m => recordMove (openMove m))
    (idle (openFirst (str "Q7"), fun _ => []))).getD (idle (openFirst (str "Q7"), fun _ => []))

theorem reach_remembered {moves : List driver.Move}
    (h : (replay (remembering (regular (.none _))) (moves.map fun m => recordMove (openMove m))
      (idle (openFirst (str "Q7"), fun _ => []))).isSome = true) :
    OpenRemembered (regular (.none _)) (str "Q7") (remembered moves) :=
  reach_of_isSome h

def noPrinters : Printers := fun _ => none

instance (calls : Calls Worker) : Decidable (PayloadAccepted calls) :=
  inferInstanceAs (Decidable (∃ x ∈ calls, _))

instance (calls : Calls Worker) : Decidable (CutterFaultRead calls) :=
  inferInstanceAs (Decidable (∃ x ∈ calls, _))

/-- The ticket that jammed behind its cut is on the paper, and its document denies it. -/
theorem jammed_denied : ¬∀ (nonce : Bytes) (cfg : Config Worker Bytes (OpenState × History))
    (owned : Printers) (doc : Document), OpenRemembered (regular (.none _)) nonce cfg →
      Served cfg.state.1.base owned doc → doc.terminal = true →
        Honest cfg.state.1.base (cfg.state.2 doc.job) doc := by
  intro hall
  have hshown : ((getJob (remembered cutterJams).state.1.base noPrinters (str "K")).map
      fun doc => (doc.job, doc.terminal, doc.evidence.transportAccepted)) =
        some (str "1", true, false) := by decide +kernel
  obtain ⟨doc, hdoc, he⟩ := Option.map_eq_some_iff.mp hshown
  obtain ⟨hjob, hrest⟩ := Prod.mk.inj he
  obtain ⟨hterminal, hdenied⟩ := Prod.mk.inj hrest
  have hhonest := hall (str "Q7") (remembered cutterJams) noPrinters doc
    (reach_remembered (by decide +kernel)) (.inl ⟨str "K", hdoc⟩) hterminal
  refine hhonest.transport hdenied ?_
  rw [hjob]
  decide +kernel

/-- A ticket that was printed without a fence. -/
theorem honest_printed : ∃ doc, getJob (remembered ticketPrinted).state.1.base noPrinters
      (str "K") = some doc ∧
    Honest (remembered ticketPrinted).state.1.base ((remembered ticketPrinted).state.2 doc.job)
      doc := by
  have hshown : ((getJob (remembered ticketPrinted).state.1.base noPrinters (str "K")).map
      fun doc => (doc.job, doc.terminal)) = some (str "1", true) := by decide +kernel
  obtain ⟨doc, hdoc, he⟩ := Option.map_eq_some_iff.mp hshown
  obtain ⟨hjob, hterminal⟩ := Prod.mk.inj he
  refine ⟨doc, hdoc, (honest_iff_not_jammed (reach_remembered (by decide +kernel))
    (.inl ⟨str "K", hdoc⟩) hterminal).mpr ?_⟩
  rintro ⟨-, hfault⟩
  rw [hjob] at hfault
  revert hfault
  decide +kernel

end PrinterDriver.Agent.Attestation
