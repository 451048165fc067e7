import PrinterDriver.Engine.Bookkeeping
import PrinterDriver.Engine.OpenDriver
import PrinterDriver.Engine.Retries

/-! # What a crash leaves of a job

A job that handed payload bytes to the transport is reloaded as `Unknown` or as the terminal state that
was recorded for it, or was being recorded when the process died (`Reloads`). One that is handed over
again records the states of its second run over its end (`second_run_denies`). -/

namespace PrinterDriver.Engine.CrashSafety

open PrinterDriver.Lib.Programs PrinterDriver.Lib.Threads PrinterDriver.Lib.Simulations
  PrinterDriver.Core.Types PrinterDriver.Core.Journal PrinterDriver.Core.Store PrinterDriver.Core.StoreRuns
  PrinterDriver.Core.Crashes PrinterDriver.Engine.Ops PrinterDriver.Engine.RunJob
  PrinterDriver.Engine.Lifecycle PrinterDriver.Engine.Driver PrinterDriver.Engine.DriverRuns
  PrinterDriver.Engine.Keys PrinterDriver.Engine.Bookkeeping PrinterDriver.Engine.Retries
  PrinterDriver.Engine.OpenDriver

open Machine State

/-- A record whose recovery says no more than its job did. -/
def Reloads (g : Progress) (r : JobRecord) : Prop :=
  r.state = .unknown ∨ r.isTerminal = true ∧ r.state = g.state ∨
    r.isTerminal = false ∧ isUnsent r.state = false

/-- A recovered record that says no more than its job did. -/
def Recovered (g : Progress) (r : JobRecord) : Prop :=
  r.isTerminal = true ∧ (r.state = .unknown ∨ r.state = g.state)

section Record
variable {g g' : Progress} {r t : JobRecord} {op : StoreOp}

theorem reloads_of_state (hs : r.state = g.state) (hsent : isUnsent g.state = false) :
    Reloads g r := by
  by_cases ht : r.isTerminal = true
  · exact .inr (.inl ⟨ht, hs⟩)
  · exact .inr (.inr ⟨Bool.not_eq_true _ ▸ ht, hs ▸ hsent⟩)

theorem recovered_of_terminal (hr : r.isTerminal = true) (h : Reloads g r) : Recovered g r := by
  rcases h with h | ⟨-, h⟩ | ⟨h, -⟩
  · exact ⟨hr, .inl h⟩
  · exact ⟨hr, .inr h⟩
  · rw [hr] at h
    cases h

theorem reloadedState_eq_unknown {x : JobState} (ht : x.isTerminal = false)
    (hx : isUnsent x = false) : reloadedState x = .unknown := by
  cases x with
  | queued | heldOffline | preflightOk => cases hx
  | sendStarted | bytesSent | printConfirmed | cutCommandProcessed => rfl
  | doneSoftware | physicallyVerified | failedKnown | unknown => cases ht

theorem recovered_recover {now : UInt64} (h : Reloads g r) : Recovered g (r.recover now) := by
  unfold JobRecord.recover
  split_ifs with ht
  · exact recovered_of_terminal ht h
  · rcases h with h | ⟨h, -⟩ | ⟨hterminal, hunsent⟩
    · refine absurd ?_ ht
      rw [JobRecord.isTerminal, h]
      rfl
    · exact absurd h ht
    · have hstate := reloadedState_eq_unknown hterminal hunsent
      refine ⟨?_, .inl hstate⟩
      rw [JobRecord.isTerminal]
      exact congrArg JobState.isTerminal hstate

/-- A part of an append about the job. -/
theorem reloads_after (h : Reloads g r) (hsent : isUnsent g.state = false)
    (hop : ∀ now state confidence reason evidence,
      op = .recordState now r.id state confidence reason evidence → state = g.state)
    (hafter : After op r.forget t) : Reloads g t := by
  cases hafter with
  | same => exact h
  | state hstate => exact reloads_of_state (hop _ _ _ _ _ hstate) hsent
  | tokens htokens => exact h

end Record

/-! ### The invariant -/

/-- The record of a job, in a store. -/
def Holds (store : JobStore) (id : Bytes) (g : Progress) : Prop :=
  ∃ r, store.find? id = some r ∧ Reloads g r

/-- What handed jobs are in the file, also before the append that is under way. -/
structure Survives (s : State) : Prop where
  sent : ∀ i, Sent (s.trails i).progress
  store : ∀ i, (s.trails i).progress.handed = true → Holds s.store i (s.trails i).progress
  prior : ∀ store op, s.prior = some (store, op) → ∀ i, (s.trails i).progress.handed = true →
    Holds store i (s.trails i).progress ∧ ∀ now state confidence reason evidence,
      op = .recordState now i state confidence reason evidence →
        state = (s.trails i).progress.state

section Moves
variable {s s' : State} {i : Bytes}

/-- The append of a call. -/
theorem serve_prior {c : Call} {ch : Choice} {a : c.Answer} (hnone : s.prior = none)
    (h : s.serve c ch = some (a, s')) {store : JobStore} {op : StoreOp}
    (hp : s'.prior = some (store, op)) : store = s.store ∧
      ((∃ id state confidence reason evidence,
        c = .recordState id state confidence reason evidence ∧
          op = .recordState ch.now id state confidence reason evidence) ∨
        ∃ id pair, c = .recordTokens id pair ∧
          op = .recordTokens id pair.printToken pair.cutToken) := by
  cases c with
  | recordState id st cf rs ev =>
    obtain ⟨u, hu, he⟩ := Option.map_eq_some_iff.mp h
    obtain rfl := (Prod.mk.inj he).2
    obtain ⟨-, rfl⟩ := commit_eq_some.mp hu
    obtain ⟨rfl, rfl⟩ := Prod.mk.inj (Option.some.inj hp)
    exact ⟨rfl, .inl ⟨id, st, cf, rs, ev, rfl, rfl⟩⟩
  | recordTokens id pair =>
    obtain ⟨u, hu, he⟩ := Option.map_eq_some_iff.mp h
    obtain rfl := (Prod.mk.inj he).2
    obtain ⟨-, rfl⟩ := commit_eq_some.mp hu
    obtain ⟨rfl, rfl⟩ := Prod.mk.inj (Option.some.inj hp)
    exact ⟨rfl, .inr ⟨id, pair, rfl, rfl⟩⟩
  | emit | finish | setTokens | releaseTokens =>
    cases h
    change s.prior = _ at hp
    rw [hnone] at hp
    cases hp
  | registerTokens id pair =>
    cases h
    rw [registerToken_prior, registerToken_prior, hnone] at hp
    cases hp
  | _ =>
    obtain ⟨u, hu, he⟩ := Option.map_eq_some_iff.mp h
    obtain rfl := (Prod.mk.inj he).2
    rw [hnone] at hp
    cases hp

/-- The record of a live job whose bytes were handed over. -/
theorem Books.holds {found : Option JobRecord} {p : Job} {t : Trail} (h : Books found p t)
    (hh : t.progress.handed = true) : ∃ r, found = some r ∧ Reloads t.progress r := by
  obtain ⟨r, hr, hsays⟩ := h.record
  exact ⟨r, hr, reloads_of_state hsays.state (h.sent.handed hh)⟩

theorem Survives.serve {c : Call} {ch : Choice} {a : c.Answer} (h : Survives s) (hb : Kept s)
    (hc : contract.allowed i c s) (hs : s.serveAs i c ch = some (a, s')) : Survives s' := by
  have hb' : Kept s' := hb.serve hc hs
  obtain ⟨u, hu, rfl⟩ := serveAs_eq_some.mp hs
  obtain ⟨⟨q, hq, hlive⟩, hid, hadmits, -⟩ := hc
  have htrails : u.trails = s.trails := (serve_served hu).trails
  have hself : (u.note i ⟨c, a⟩).trails i = (s.trails i).note ⟨c, a⟩ := by
    rw [note_trails_self, htrails]
  have hothers : ∀ {j : Bytes}, j ≠ i → (u.note i ⟨c, a⟩).trails j = s.trails j := by
    intro j hj
    rw [note_trails_of_ne hj, htrails]
  obtain ⟨r, hr, hsays⟩ := (hb i q hq hlive).record
  have hsent : Sent ((s.trails i).note ⟨c, a⟩).progress := (h.sent i).post hadmits
  refine ⟨fun j => ?_, fun j hh => ?_, fun store op hp j hh => ?_⟩
  · by_cases hj : j = i
    · rw [hj, hself]
      exact hsent
    · rw [hothers hj]
      exact h.sent j
  · by_cases hj : j = i
    · subst hj
      obtain ⟨hjobs, -⟩ := serve_self hid hadmits hu
      have hq' : (u.note j ⟨c, a⟩).jobs j = some (jobUpdate c q) := by
        change u.jobs j = _
        rw [hjobs, hq]
        rfl
      exact Books.holds (hb' j _ hq' (by rw [jobUpdate_phase]; exact hlive)) hh
    · rw [hothers hj] at hh ⊢
      change Holds u.store j _
      unfold Holds
      rw [(serve_others hid hadmits hu hj).2]
      exact h.store j hh
  · obtain ⟨rfl, hop⟩ := serve_prior rfl hu hp
    by_cases hj : j = i
    · subst hj
      rw [hself] at hh ⊢
      rcases hop with ⟨id, st, cf, rs, ev, rfl, rfl⟩ | ⟨id, pair, rfl, rfl⟩
      · have hnext := hadmits.2.2.2.1
        have hold : isUnsent (s.trails j).progress.state = false := (h.sent j).handed hh
        refine ⟨⟨r, hr, .inr (.inr ⟨?_, hsays.state ▸ hold⟩)⟩, ?_⟩
        · rw [JobRecord.isTerminal, hsays.state]
          exact isTerminal_of_follows hnext
        · intro now state confidence reason evidence he
          cases he
          rfl
      · have hold : isUnsent (s.trails j).progress.state = false := (h.sent j).handed hh
        exact ⟨⟨r, hr, reloads_of_state hsays.state hold⟩, fun _ _ _ _ _ he => by cases he⟩
    · rw [hothers hj] at hh ⊢
      refine ⟨h.store j hh, fun now state confidence reason evidence he => ?_⟩
      rcases hop with ⟨id, st, cf, rs, ev, rfl, rfl⟩ | ⟨id, pair, rfl, rfl⟩
      · obtain rfl : id = j := by cases he; rfl
        exact absurd (hadmits.2.1.trans hid) hj
      · cases he

theorem Survives.same (h : Survives s) (hstore : s'.store = s.store) (hprior : s'.prior = none)
    (hprogress : ∀ j, (s'.trails j).progress = (s.trails j).progress) : Survives s' := by
  refine ⟨fun j => ?_, fun j hh => ?_, fun store op hp => ?_⟩
  · rw [hprogress]
    exact h.sent j
  · rw [hprogress] at hh ⊢
    rw [hstore]
    exact h.store j hh
  · rw [hprior] at hp
    cases hp

theorem Survives.minted {d : Draw} {key printerId : Bytes} {attempt : UInt32}
    {payload : Option Payload} {phase : Phase} (h : Survives s)
    (hm : Minted s s' d key printerId attempt payload phase) : Survives s' := by
  obtain ⟨record, hid, -, -, -, -, -, rfl⟩ := hm.eq
  have hfresh : record.id ∉ s.store.ids := hid ▸ hm.fresh
  have hold : ∀ {j : Bytes},
      (Function.update s.trails d.id (Trail.new d.id) j).progress.handed = true →
      j ≠ d.id ∧ (s.trails j).progress.handed = true := by
    intro j hh
    by_cases hj : j = d.id
    · rw [hj, Function.update_self] at hh
      cases hh
    · rw [Function.update_of_ne hj] at hh
      exact ⟨hj, hh⟩
  refine ⟨fun j => ?_, fun j hh => ?_, fun store op hp j hh => ?_⟩
  · change Sent (Function.update s.trails d.id (Trail.new d.id) j).progress
    by_cases hj : j = d.id
    · rw [hj, Function.update_self]
      refine ⟨fun hf => ?_, fun hf => ?_, fun hf => ?_⟩ <;> cases hf
    · rw [Function.update_of_ne hj]
      exact h.sent j
  · obtain ⟨hj, hh⟩ := hold hh
    change Holds ((StoreOp.createJob d.now record).apply s.store none).2 j
      (Function.update s.trails d.id (Trail.new d.id) j).progress
    unfold Holds
    rw [find?_createJob hfresh, hid, if_neg (Ne.symm hj), Function.update_of_ne hj]
    exact h.store j hh
  · obtain ⟨hj, hh⟩ := hold hh
    obtain ⟨rfl, rfl⟩ := Prod.mk.inj (Option.some.inj hp)
    change Holds s.store j (Function.update s.trails d.id (Trail.new d.id) j).progress ∧ _
    rw [Function.update_of_ne hj]
    exact ⟨h.store j hh, fun _ _ _ _ _ he => by cases he⟩

theorem Survives.step {e : Event} (h : Survives s) (hnone : s.prior = none) (hs : Stepped s e s') :
    Survives s' := by
  cases hs with
  | same => exact h
  | submit hv hauto hm => exact h.minted hm
  | reserve hv hauto hm => exact h.minted hm
  | submitReserved hq hr hphase => exact h.same rfl hnone fun _ => rfl

theorem Survives.begin {w : Work} {q : Prog Worker Unit} (h : Survives s) (hnone : s.prior = none)
    (hs : s.begin i w = some (q, s')) : Survives s' := by
  obtain ⟨p, phase, trails, -, -, -, rfl, hprogress, -⟩ := begin_outline hs
  exact h.same rfl hnone fun j => (hprogress j).1

/-- **What the next process finds** of a job whose bytes were handed over. -/
theorem Survives.reopened (h : Survives s) (hl : Lasting s) {cut : Option ℕ} {file : Bytes}
    (hfile : s.remains cut = some file) {now : Bytes → UInt64}
    (hh : (s.trails i).progress.handed = true) :
    ∃ r, (JobStore.open now file).find? i = some r ∧ Recovered (s.trails i).progress r := by
  cases cut with
  | none =>
    obtain ⟨r, hr, hreloads⟩ := h.store i hh
    exact ⟨_, find?_reopened hl hfile hr, recovered_recover (r := r.forget) hreloads⟩
  | some n =>
    obtain ⟨store, op, hprior, hfind⟩ := find?_reopened_cut hl hfile
    obtain ⟨⟨r, hr, hreloads⟩, hop⟩ := h.prior store op hprior i hh
    obtain ⟨t, hafter, ht⟩ := hfind r hr
    have hid : r.id = i := id_of_find? hr
    refine ⟨_, ht, recovered_recover (reloads_after hreloads ((h.sent i).handed hh) ?_ hafter)⟩
    rw [hid]
    exact hop

theorem survives_opened {now : Bytes → UInt64} {file nonce : Bytes} {trails : Bytes → Trail}
    {leases : List (Bytes × MarkerPair)} (hsent : ∀ i, Sent (trails i).progress)
    (h : ∀ i, (trails i).progress.handed = true →
      ∃ r, (JobStore.open now file).find? i = some r ∧ Recovered (trails i).progress r) :
    Survives (opened (JobStore.open now file) nonce trails leases) := by
  refine ⟨fun i => ?_, fun i hh => ?_, fun store op hp => ?_⟩
  · rw [opened_trails]
    exact hsent i
  · rw [opened_trails] at hh ⊢
    rw [opened_store]
    obtain ⟨r, hr, hterminal, hstate⟩ := h i hh
    refine ⟨r, hr, ?_⟩
    rcases hstate with hu | hg
    · exact .inl hu
    · exact .inr (.inl ⟨hterminal, hg⟩)
  · rw [opened_prior] at hp
    cases hp

/-- What handed jobs are in the file, in every run. -/
theorem survives_of_reached {G : driver.Guard} {nonce : Bytes} {cfg : Config Worker Bytes State}
    (h : Reached G nonce cfg) : Survives cfg.state := by
  have hfirst : Survives (first nonce) := by
    refine survives_opened (fun i => ?_) fun i hh => ?_
    · refine ⟨fun hf => ?_, fun hf => ?_, fun hf => ?_⟩ <;> cases hf
    · cases hh
  have hclear : ∀ {s : State}, Survives s → Survives { s with prior := none } :=
    fun h => h.same rfl rfl fun _ => rfl
  refine driver_guarded.further known_opened (fun i => safe_ret_rest rest_opened)
    (J := fun s => Indexed s ∧ Kept s) (fun h => ⟨(indexed_of_reached h).2, kept_of_reached h⟩)
    hfirst (fun i c ch s a s' hj hi hc _ hs => hi.serve hj.2 hc hs)
    (fun e s s' _ hi _ hs => (hclear hi).step rfl (step_stepped hs))
    (fun i w s q s' _ hi _ hs => (hclear hi).begin rfl hs) (fun r s s' hj hi _ hs => ?_) h
  obtain ⟨file, hfile, rfl⟩ := Option.map_eq_some_iff.mp hs
  exact survives_opened hi.sent fun i hh => hi.reopened hj.1.lasting hfile hh

end Moves

/-! ### Crashes -/

section Crash
variable {nonce : Bytes} {cfg : Config Worker Bytes OpenState} {s' : OpenState} {r : Restart}
  {i : Bytes}

/-- What the next process says of a job, where the last one left its calls at `g`: it is over, and is
`Unknown` or in the state that was recorded last or was being recorded; `FailedKnown` only if that is
what was recorded. -/
def ReloadsSafely (s : State) (i : Bytes) (g : Progress) : Prop :=
  ∃ p t, s.jobs i = some p ∧ s.store.find? i = some t ∧ p.state = t.state ∧
    p.state.isTerminal = true ∧ (p.state = .unknown ∨ p.state = g.state) ∧
    (p.state = .failedKnown → g.state = .failedKnown)

/-- **Crash safety**, of a job that handed payload bytes to the transport, in every run that hands
every job over once. -/
theorem crash_safe (h : OpenReached (regular (.none _)) nonce cfg)
    (hr : openDriver.restart r cfg.state = some s')
    (hh : (cfg.state.base.trails i).progress.handed = true) :
    ReloadsSafely s'.base i (cfg.state.base.trails i).progress := by
  have hreached := (reached_of_regular h).2
  obtain ⟨u, hu, rfl⟩ := Option.map_eq_some_iff.mp hr
  obtain ⟨file, hfile, rfl⟩ := Option.map_eq_some_iff.mp hu
  obtain ⟨t, ht, hterminal, hstate⟩ :
      ∃ t, (JobStore.open r.now file).find? i = some t ∧
        Recovered (cfg.state.base.trails i).progress t :=
    (survives_of_reached hreached).reopened (indexed_of_reached hreached).2.lasting hfile hh
  refine ⟨reloadedJob t, t, by rw [opened_jobs, ht]; rfl, by rw [opened_store]; exact ht, rfl,
    hterminal, hstate, fun hf => ?_⟩
  have hf' : t.state = .failedKnown := hf
  rcases hstate with hu | hg
  · rw [hu] at hf'
    cases hf'
  · rw [← hg, hf']

end Crash

/-- The payload is handed over, and the process dies in the middle of the next append. -/
def diesAfterPayload : List openDriver.Move :=
  [.event (.base (.submit ticket ⟨0, str "1", []⟩)),
    .start (str "1") (.run (ticketRun (str "1") 1 false))] ++
  List.replicate 7 (.serve (str "1") { answer := obliging })

/-- The next process after a list of moves. -/
def reopenedAfter (r : Restart) (moves : List openDriver.Move) : OpenState :=
  (openDriver.restart r (openAfter moves).state).getD (openFirst (str "Q7"))

theorem restart_after {r : Restart} {moves : List openDriver.Move}
    (h : (openDriver.restart r (openAfter moves).state).isSome = true) :
    openDriver.restart r (openAfter moves).state = some (reopenedAfter r moves) :=
  (Option.some_get h).symm.trans (congrArg some (Option.get_eq_getD _))

theorem crash_safe_ticket : ReloadsSafely (reopenedAfter { cut := some 9 } diesAfterPayload).base
    (str "1") ((openAfter diesAfterPayload).state.base.trails (str "1")).progress :=
  crash_safe (openReached_after (by decide +kernel)) (restart_after (by decide +kernel))
    (by decide +kernel)

/-! ### A job that is handed over twice -/

/-- A printer that is asked for its status and is well. -/
def healthy : (c : Call) → Option c.Answer
  | .awaitRealtime _ _ => some (.signalled, [.realtimeStatus .printerStatus 0x12])
  | c => obliging c

def checkedOptions : JobOptions := { key := str "K", cut := .none }

/-- A ticket behind a preflight. -/
def checkedRun : JobRun :=
  { idleRun (str "1") with
    key := str "K", payload := .raw [65], options := checkedOptions
    profile := { completion := .none, status := { dleEot := true } } }

/-- A ticket is reserved and handed over twice; it is printed, and begun again up to the record of
its preflight. -/
def runsAgain : List openDriver.Move :=
  [.event (.base (.reserve (str "kitchen") (str "K") .raw 1 ⟨0, str "1", []⟩)),
    .event (.base (.submitReserved (str "1") (.raw [65]) checkedOptions)),
    .event (.base (.submitReserved (str "1") (.raw [65]) checkedOptions)),
    .start (str "1") (.run checkedRun)] ++
  List.replicate 17 (.serve (str "1") { answer := healthy }) ++
  [.start (str "1") (.run checkedRun)] ++
  List.replicate 8 (.serve (str "1") { answer := healthy })

/-- The ticket is on the paper, and the next process has it as failed. -/
theorem second_run_denies : ¬∀ (nonce : Bytes) (cfg : Config Worker Bytes OpenState) (r : Restart)
    (s' : OpenState) (i : Bytes), OpenReached lossless nonce cfg →
      openDriver.restart r cfg.state = some s' →
      (cfg.state.base.trails i).progress.handed = true →
        ReloadsSafely s'.base i (cfg.state.base.trails i).progress := by
  intro hall
  have hsafe := hall (str "Q7") (openAfter runsAgain) {} (reopenedAfter {} runsAgain) (str "1")
    (openReached_after (by decide +kernel)) (restart_after (by decide +kernel)) (by decide +kernel)
  obtain ⟨p, t, hp, -, -, -, -, hfailed⟩ := hsafe
  have hdenied : ((reopenedAfter {} runsAgain).base.jobs (str "1")).any
      (fun p => p.state = .failedKnown) = true ∧
      ((openAfter runsAgain).state.base.trails (str "1")).progress.state ≠ .failedKnown := by
    decide +kernel
  obtain ⟨q, hq, hstate⟩ := (Option.any_eq_true _ _).mp hdenied.1
  obtain rfl := Option.some.inj (hp.symm.trans hq)
  exact hdenied.2 (hfailed (of_decide_eq_true hstate))

end PrinterDriver.Engine.CrashSafety
