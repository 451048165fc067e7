import PrinterDriver.Agent.CloudPrnt
import PrinterDriver.Engine.Retries

/-! # The job endpoint

`POST /jobs` of the agent looks a key up before it builds anything, and so do `submit` and `reserve`
of the engine. `FollowsRule` says what all three should do with a key; `entryPaths_iff` says when they
do. -/

namespace PrinterDriver.Agent.Jobs

open PrinterDriver.Lib.Threads PrinterDriver.Core.Types PrinterDriver.Core.Store
  PrinterDriver.Agent.CloudPrnt
  PrinterDriver.Engine.Ops PrinterDriver.Engine.RunJob PrinterDriver.Engine.Driver
  PrinterDriver.Engine.DriverRuns PrinterDriver.Engine.Keys PrinterDriver.Engine.Retries

open State

def trimmed (text : Bytes) : Bytes := (text.dropWhile isSpace).rdropWhile isSpace

def findJob (s : State) (key : Bytes) : Option Bytes := (s.byKey key).map JobEntry.job

/-- The request names a printer; `built` is its payload, if it has one that can be built. -/
structure JobRequest where
  printerId : Bytes
  key : Bytes
  built : Option Payload
  options : JobOptions

/-- A printer prints the payload; a request without one is refused. -/
def printBuilt (s : State) (r : JobRequest) : Verdict :=
  match r.built with
  | some payload =>
    s.decideSubmit (print r.printerId payload { r.options with key := trimmed r.key })
  | none => .nothing

def postJobs (s : State) (r : JobRequest) : Verdict :=
  if trimmed r.key = [] then printBuilt s r
  else
    match findJob s (trimmed r.key) with
    | some id => if (s.store.findById id).isSome then .existing id else printBuilt s r
    | none => printBuilt s r

/-- A new attempt if there is no job under the key, or one that is over and printed nothing; else the
job. -/
def FollowsRule (s : State) (key : Bytes) (v : Verdict) : Prop :=
  match s.lookup key with
  | some e => if s.failedAndFinished e.job then v.creates = true else v = .existing e.job
  | none => v.creates = true

/-- The three entry paths on one key. -/
structure EntryPaths (s : State) (printerId key : Bytes) (payload : Payload)
    (options : JobOptions) : Prop where
  submit : FollowsRule s key (s.decideSubmit (print printerId payload { options with key := key }))
  reserve : FollowsRule s key (s.decideReserve key)
  post : FollowsRule s key (postJobs s ⟨printerId, key, some payload, options⟩)

section Rule
variable {s : State} {printerId key : Bytes} {payload : Payload} {options : JobOptions}

/-- A key that has no job. -/
theorem followsRule_of_none {v : Verdict} (h : s.lookup key = none) :
    FollowsRule s key v ↔ v.creates = true := by
  unfold FollowsRule
  rw [h]

theorem followsRule_of_live {v : Verdict} {e : JobEntry} (h : s.lookup key = some e)
    (hf : s.failedAndFinished e.job = false) : FollowsRule s key v ↔ v = .existing e.job := by
  unfold FollowsRule
  rw [h]
  dsimp only
  rw [hf]
  rfl

theorem followsRule_of_failed {v : Verdict} {e : JobEntry} (h : s.lookup key = some e)
    (hf : s.failedAndFinished e.job = true) : FollowsRule s key v ↔ v.creates = true := by
  unfold FollowsRule
  rw [h]
  dsimp only
  rw [hf, if_pos rfl]

/-- A print follows the rule. -/
theorem followsRule_submit :
    FollowsRule s key (s.decideSubmit (print printerId payload { options with key := key })) := by
  cases he : s.lookup key with
  | none =>
    rw [followsRule_of_none he, decideSubmit_of_none he]
    rfl
  | some e =>
    cases hf : s.failedAndFinished e.job with
    | true =>
      rw [followsRule_of_failed he hf, decideSubmit_of_failed he hf]
      rfl
    | false => rw [followsRule_of_live he hf, decideSubmit_of_live he hf]

theorem followsRule_reserve_of_none (h : s.lookup key = none) :
    FollowsRule s key (s.decideReserve key) := by
  rw [followsRule_of_none h, decideReserve, h]
  rfl

/-- A reservation returns whatever job there is. -/
theorem decideReserve_of_some {e : JobEntry} (h : s.lookup key = some e) :
    s.decideReserve key = .existing e.job := by
  unfold decideReserve
  rw [h]

/-- A reservation follows the rule unless the job has failed. -/
theorem followsRule_reserve_iff :
    FollowsRule s key (s.decideReserve key) ↔ newestFailed s key = false := by
  unfold newestFailed
  cases he : s.lookup key with
  | none => exact iff_of_true (followsRule_reserve_of_none he) rfl
  | some e =>
    rw [Option.any_some]
    cases hf : s.failedAndFinished e.job with
    | true =>
      rw [followsRule_of_failed he hf, decideReserve_of_some he]
      simp [Verdict.creates]
    | false =>
      rw [followsRule_of_live he hf, decideReserve_of_some he]
      simp

end Rule

section Post
variable {s : State} {printerId key : Bytes} {payload : Payload} {options : JobOptions}

/-- An unknown key is printed under the trimmed key. -/
theorem postJobs_of_none (h : s.lookup (trimmed key) = none) :
    (postJobs s ⟨printerId, key, some payload, options⟩).creates = true := by
  have hprint : (printBuilt s ⟨printerId, key, some payload, options⟩).creates = true := by
    change (s.decideSubmit (print printerId payload { options with key := trimmed key })).creates = _
    rw [decideSubmit_of_none h]
    rfl
  unfold postJobs
  by_cases hkey : trimmed key = []
  · rw [if_pos hkey]
    exact hprint
  · have hfind : findJob s (trimmed key) = none := by
      rw [findJob, ← lookup_eq_byKey hkey, h]
      rfl
    rw [if_neg hkey, hfind]
    exact hprint

/-- The endpoint returns whatever job there is. -/
theorem postJobs_of_some (hk : Known s) (hi : Indexed s) {e : JobEntry}
    (h : s.lookup (trimmed key) = some e) :
    postJobs s ⟨printerId, key, some payload, options⟩ = .existing e.job := by
  have hkey : trimmed key ≠ [] := by
    intro hnil
    rw [hnil] at h
    cases h
  have hentry : s.byKey (trimmed key) = some e := by rw [← lookup_eq_byKey hkey, h]
  have hfind : findJob s (trimmed key) = some e.job := by
    rw [findJob, hentry]
    rfl
  obtain ⟨-, p, hp, -⟩ := hi.holder hk hentry
  have hrecord : (s.store.findById e.job).isSome = true := by
    obtain ⟨r, hr, -⟩ := hi.record e.job p hp
    rw [JobStore.findById, hr]
    rfl
  unfold postJobs
  rw [if_neg hkey, hfind]
  dsimp only
  rw [if_pos hrecord]

/-- Two keys do not have one job. -/
theorem key_of_lookup (hk : Known s) (hi : Indexed s) {a b : Bytes} {e f : JobEntry}
    (ha : s.lookup a = some e) (hb : s.lookup b = some f) (h : e.job = f.job) : a = b := by
  have hne : ∀ {k : Bytes} {g : JobEntry}, s.lookup k = some g → k ≠ [] := by
    rintro k g hg rfl
    cases hg
  obtain ⟨-, p, hp, hpkey⟩ := hi.holder hk ((lookup_eq_byKey (hne ha)) ▸ ha)
  obtain ⟨-, q, hq, hqkey⟩ := hi.holder hk ((lookup_eq_byKey (hne hb)) ▸ hb)
  rw [h, hq] at hp
  rw [← hpkey, ← hqkey, Option.some.inj hp]

end Post

section Runs
variable {nonce : Bytes} {cfg : Config Worker Bytes State} {printerId key : Bytes}
  {payload : Payload} {options : JobOptions}

/-- **One rule for a key.** In every run the three entry paths follow it if and only if the key's job,
if there is one, has not failed, and the key is not one that the endpoint changes (or has no job,
neither as it is nor as the endpoint reads it). -/
theorem entryPaths_iff (h : Reached (.none _) nonce cfg) :
    EntryPaths cfg.state printerId key payload options ↔
      newestFailed cfg.state key = false ∧ (trimmed key = key ∨
        cfg.state.lookup key = none ∧ cfg.state.lookup (trimmed key) = none) := by
  obtain ⟨hk, hi⟩ := indexed_of_reached h
  have hpaths : EntryPaths cfg.state printerId key payload options ↔
      newestFailed cfg.state key = false ∧
        FollowsRule cfg.state key (postJobs cfg.state ⟨printerId, key, some payload, options⟩) :=
    ⟨fun hp => ⟨followsRule_reserve_iff.mp hp.reserve, hp.post⟩,
      fun hp => ⟨followsRule_submit, followsRule_reserve_iff.mpr hp.1, hp.2⟩⟩
  rw [hpaths]
  refine and_congr_right fun hlive => ?_
  cases he : cfg.state.lookup key with
  | none =>
    rw [followsRule_of_none he]
    cases ht : cfg.state.lookup (trimmed key) with
    | none => exact iff_of_true (postJobs_of_none ht) (.inr ⟨rfl, rfl⟩)
    | some f =>
      rw [postJobs_of_some hk hi ht]
      refine iff_of_false (by simp [Verdict.creates]) ?_
      rintro (hkey | ⟨-, hn⟩)
      · rw [hkey, he] at ht
        cases ht
      · cases hn
  | some e =>
    have hf : cfg.state.failedAndFinished e.job = false := by
      unfold newestFailed at hlive
      rw [he] at hlive
      exact hlive
    rw [followsRule_of_live he hf]
    constructor
    · intro hpost
      left
      cases ht : cfg.state.lookup (trimmed key) with
      | none =>
        have hcreates : (postJobs cfg.state ⟨printerId, key, some payload, options⟩).creates = true :=
          postJobs_of_none ht
        rw [hpost] at hcreates
        cases hcreates
      | some f =>
        rw [postJobs_of_some hk hi ht] at hpost
        exact key_of_lookup hk hi ht he (Verdict.existing.inj hpost)
    · rintro (hkey | ⟨hn, -⟩)
      · exact postJobs_of_some hk hi (hkey.symm ▸ he)
      · cases hn

/-- A ticket that finds no printer. -/
def ticketFails : List driver.Move :=
  [.event (.submit ticket ⟨0, str "1", []⟩), .start (str "1") (.run (ticketRun (str "1") 1 false))] ++
  List.replicate 4 (.serve (str "1") { answer := unplugged })

/-- The paths part at a ticket that failed. -/
theorem entryPaths_part : ¬∀ (nonce : Bytes) (cfg : Config Worker Bytes State)
    (printerId key : Bytes) (payload : Payload) (options : JobOptions),
    Reached (.none _) nonce cfg → EntryPaths cfg.state printerId key payload options := by
  intro hall
  have hpaths := hall (str "Q7") (after ticketFails) (str "kitchen") (str "K") (.raw [65]) {}
    (reached_after (by decide +kernel))
  have hreserve := followsRule_reserve_iff.mp hpaths.reserve
  have hfailed : newestFailed (after ticketFails).state (str "K") = true := by decide +kernel
  rw [hfailed] at hreserve
  cases hreserve

/-- A ticket that was printed. -/
theorem entryPaths_printed :
    EntryPaths (after ticketPrinted).state (str "kitchen") (str "K") (.raw [65]) {} :=
  (entryPaths_iff (reached_after (by decide +kernel))).mpr
    ⟨by decide +kernel, .inl (by decide +kernel)⟩

end Runs

end PrinterDriver.Agent.Jobs
