import PrinterDriver.Engine.Bookkeeping
import PrinterDriver.Engine.OpenDriver
import PrinterDriver.Engine.Retries

/-! # What is published of a job

The events of a job come in the order of its states and its confidence only rises (`Sequence`); and
what a move publishes is what the store holds of the job after it (`Published`), in every run that
hands every job over once. A job that is handed over twice ends twice (`ends_twice`). -/

namespace PrinterDriver.Engine.Publications

open PrinterDriver.Lib.Programs PrinterDriver.Lib.Threads PrinterDriver.Lib.Simulations
  PrinterDriver.Core.Types PrinterDriver.Core.Profile PrinterDriver.Core.Journal
  PrinterDriver.Core.Store
  PrinterDriver.Core.StoreRuns PrinterDriver.Core.Crashes PrinterDriver.Engine.Ops
  PrinterDriver.Engine.RunJob PrinterDriver.Engine.Lifecycle PrinterDriver.Engine.Driver
  PrinterDriver.Engine.DriverRuns PrinterDriver.Engine.Keys PrinterDriver.Engine.Bookkeeping
  PrinterDriver.Engine.Retries PrinterDriver.Engine.OpenDriver

open Machine State

/-- The events of a job under a ceiling of the confidence. -/
structure Sequence (events : List JobEvent) (ceiling : ConfidenceLevel) : Prop where
  begins : events.head?.map JobEvent.state = some .queued
  order : events.IsChain fun a b => follows a.state b.state = true
  once : ∀ front e back, events = front ++ e :: back → e.state.isTerminal = true → back = []
  rises : events.Pairwise fun a b => a.confidence.rank ≤ b.confidence.rank
  below : ∀ e ∈ events, e.confidence.rank ≤ ceiling.rank

/-- What a move publishes of a job: nothing, or one event, which is what the store then holds of it. A
new job and one of an earlier process have no events before. -/
inductive Published (before : Option Job) (after : Job) (found : Option JobRecord) : Prop
  | nothing (p : Job) (hp : before = some p) (h : after.history = p.history)
  | event (r : JobRecord) (hr : found = some r) (old : List JobEvent)
      (hold : old = [] ∨ ∃ p, before = some p ∧ p.history = old)
      (h : after.history = old ++ [eventOf r])

/-! ### The sequence -/

section Sequence
variable {found : Option JobRecord} {p : Job} {t : Trail}

theorem history_prefix_ledger : p.history <+: ledger p t.progress := by
  unfold ledger
  split_ifs
  · exact List.prefix_rfl
  · exact List.prefix_append _ _

theorem sequence_of_books (h : Books found p t) : Sequence p.history t.run.ceiling := by
  have hchain : p.history.IsChain Next := h.chain.prefix history_prefix_ledger
  have hrises : p.history.IsChain fun a b => a.confidence.rank ≤ b.confidence.rank :=
    hchain.imp fun _ _ hn => hn.2
  refine ⟨h.begins, hchain.imp fun _ _ hn => hn.1, ?_, ?_, fun e he => ?_⟩
  · rintro front e back he hterminal
    cases back with
    | nil => rfl
    | cons f back =>
      rw [he] at hchain
      have hnext : Next e f := (List.isChain_cons_cons.mp hchain.right_of_append).1
      rw [isTerminal_of_follows hnext.1] at hterminal
      cases hterminal
  · have htrans : Trans (fun a b : JobEvent => a.confidence.rank ≤ b.confidence.rank)
        (fun a b : JobEvent => a.confidence.rank ≤ b.confidence.rank)
        (fun a b : JobEvent => a.confidence.rank ≤ b.confidence.rank) :=
      ⟨fun hab hbc => Nat.le_trans hab hbc⟩
    exact hrises.pairwise
  · exact Nat.le_trans (h.top e (history_prefix_ledger.subset he)) h.ceiling

end Sequence

/-! ### What a move publishes -/

section Moves
variable {s s' : State} {i : Bytes}

theorem eventOf_eq_standing {g : Progress} {r : JobRecord} (h : Says g r) : eventOf r = standing g := by
  unfold eventOf standing
  rw [h.state, h.confidence, h.reason]

theorem published_serve {c : Call} {ch : Choice} {a : c.Answer} (hb : Kept s)
    (hc : contract.allowed i c s) (hs : s.serveAs i c ch = some (a, s')) {j : Bytes} {p' : Job}
    (hp' : s'.jobs j = some p') : Published (s.jobs j) p' (s'.store.find? j) := by
  obtain ⟨u, hu, rfl⟩ := serveAs_eq_some.mp hs
  obtain ⟨⟨q, hq, hlive⟩, hid, hadmits, -⟩ := hc
  change u.jobs j = some p' at hp'
  change Published _ _ (u.store.find? j)
  by_cases hj : j = i
  · subst hj
    obtain ⟨hjobs, hfind⟩ := serve_self hid hadmits hu
    rw [hjobs, hq] at hp'
    obtain rfl := Option.some.inj hp'
    rw [hfind]
    by_cases hemit : ∃ id event, c = .emit id event
    · obtain ⟨id, event, rfl⟩ := hemit
      obtain ⟨-, -, -, rfl⟩ := hadmits
      obtain ⟨r, hr, hsays⟩ := (hb j q hq hlive).record
      change s.store.find? j = some r at hr
      refine .event r (by rw [hr]; rfl) q.history (.inr ⟨q, hq, rfl⟩) ?_
      rw [eventOf_eq_standing hsays]
      rfl
    · refine .nothing q hq ?_
      cases c with
      | emit id event => exact absurd ⟨id, event, rfl⟩ hemit
      | _ => rfl
  · obtain ⟨hjobs, hfind⟩ := serve_others hid hadmits hu hj
    exact .nothing p' (hjobs ▸ hp') rfl

theorem published_step {e : Event} (hk : Known s) (hs : Stepped s e s') {j : Bytes} {p' : Job}
    (hp' : s'.jobs j = some p') : Published (s.jobs j) p' (s'.store.find? j) := by
  cases hp : s.jobs j with
  | some p =>
    obtain ⟨-, q, hq, hhanded⟩ := hs.keeps hk hp
    obtain rfl := Option.some.inj (hq.symm.trans hp')
    refine .nothing p rfl ?_
    rcases hhanded with rfl | ⟨-, t, rfl⟩
    · rfl
    · rfl
  | none =>
    have hminted : ∀ {d : Draw} {key printerId : Bytes} {attempt : UInt32}
        {payload : Option Payload} {phase : Phase},
        Minted s s' d key printerId attempt payload phase →
          Published none p' (s'.store.find? j) := by
      intro d key printerId attempt payload phase hm
      obtain ⟨record, hid, -, -, -, -, -, rfl⟩ := hm.eq
      have hfresh : record.id ∉ s.store.ids := hid ▸ hm.fresh
      change Published none p'
        (((StoreOp.createJob d.now record).apply s.store none).2.find? j)
      rw [find?_createJob hfresh, hid]
      by_cases hj : d.id = j
      · subst hj
        simp only [Function.update_self, Option.some.injEq] at hp'
        rw [if_pos rfl]
        refine .event _ rfl [] (.inl rfl) ?_
        rw [← hp']
        rfl
      · simp only [Function.update_of_ne (Ne.symm hj), hp] at hp'
        cases hp'
    cases hs with
    | same =>
      rw [hp] at hp'
      cases hp'
    | submit hv hauto hm => exact hminted hm
    | reserve hv hauto hm => exact hminted hm
    | @submitReserved id payload options q hq hr hphase =>
      change (s.change id _).jobs j = some p' at hp'
      rw [change_jobs, hp] at hp'
      split_ifs at hp'
      cases hp'

theorem published_begin {w : Work} {q : Prog Worker Unit} (hs : s.begin i w = some (q, s'))
    {j : Bytes} {p' : Job} (hp' : s'.jobs j = some p') :
    Published (s.jobs j) p' (s'.store.find? j) := by
  obtain ⟨p, phase, trails, -, -, -, rfl, -, -⟩ := begin_outline hs
  change (s.change i (Job.setPhase phase)).jobs j = some p' at hp'
  rw [change_jobs] at hp'
  split_ifs at hp' with hj
  · obtain ⟨p, hp, rfl⟩ := Option.map_eq_some_iff.mp hp'
    exact .nothing p hp rfl
  · exact .nothing p' hp' rfl

theorem published_restart {r : Restart} (hs : driver.restart r s = some s') {j : Bytes} {p' : Job}
    (hp' : s'.jobs j = some p') : Published (s.jobs j) p' (s'.store.find? j) := by
  obtain ⟨file, -, rfl⟩ := Option.map_eq_some_iff.mp hs
  rw [opened_jobs] at hp'
  obtain ⟨t, ht, rfl⟩ := Option.map_eq_some_iff.mp hp'
  rw [opened_store]
  exact .event t ht [] (.inl rfl) rfl

end Moves

/-! ### In every run -/

/-- The events of the jobs, and what the next move publishes, whatever it is. -/
structure Told (cfg : Config Worker Bytes OpenState) : Prop where
  sequence : ∀ i p, cfg.state.base.jobs i = some p → p.phase ≠ .reloaded →
    Sequence p.history (cfg.state.base.trails i).run.ceiling
  reloaded : ∀ i p, cfg.state.base.jobs i = some p → p.phase = .reloaded →
    ∃ r, cfg.state.base.store.find? i = some r ∧ r.isTerminal = true ∧ p.history = [eventOf r]
  published : ∀ m cfg', openDriver.step m cfg = some cfg' → ∀ i p',
    cfg'.state.base.jobs i = some p' →
      Published (cfg.state.base.jobs i) p' (cfg'.state.base.store.find? i)

section Runs
variable {nonce : Bytes} {cfg cfg' : Config Worker Bytes OpenState}

/-- A task that is pushed for a job that has one publishes nothing, nor does an append that fails. -/
theorem published_open {s s' : OpenState} {e : OpenEvent} (hk : Known s.base)
    (h : s.event e = some s') {i : Bytes} {p' : Job} (hp' : s'.base.jobs i = some p') :
    Published (s.base.jobs i) p' (s'.base.store.find? i) := by
  have hbase : ∀ {e : Event}, (driver.event e s.base).map (fun t => { s with base := t }) = some s' →
      Published (s.base.jobs i) p' (s'.base.store.find? i) := by
    intro e hm
    obtain ⟨t, ht, rfl⟩ := Option.map_eq_some_iff.mp hm
    exact published_step (s := { s.base with prior := none }) hk (step_stepped ht) hp'
  cases e with
  | appendFails op n =>
    obtain rfl := Option.some.inj h
    exact .nothing p' hp' rfl
  | base e =>
    cases e with
    | submit r d => exact hbase h
    | reserve printerId key kind bytes d => exact hbase h
    | submitReserved id payload options =>
      obtain ⟨p, -, h⟩ := Option.bind_eq_some_iff.mp h
      split_ifs at h with hfirst
      · exact hbase h
      · obtain rfl := Option.some.inj h
        exact .nothing p' hp' rfl

/-- **What is published**, in every run that hands every job over once. -/
theorem told_of_reached (h : OpenReached (regular (.none _)) nonce cfg) : Told cfg := by
  obtain ⟨hsingle, hreached⟩ := reached_of_regular h
  have hb := kept_of_reached hreached
  have hk : Known cfg.state.base := (indexed_of_reached hreached).1
  refine ⟨fun i p hp hlive => sequence_of_books (hb i p hp hlive), fun i p hp hphase => ?_, ?_⟩
  · obtain ⟨r, hr, hterminal, rfl⟩ := inherited_of_reached hreached i p hp hphase
    exact ⟨r, hr, hterminal, rfl⟩
  · intro m cfg' hs i p' hp'
    cases m with
    | serve j ch =>
      obtain ⟨c, k, a, s', hc, ha, rfl⟩ := serve_eq_some hs
      obtain ⟨⟨b, t⟩, ht, he⟩ := Option.map_eq_some_iff.mp ha
      obtain ⟨rfl, rfl⟩ := Prod.mk.inj he
      have hallowed : contract.allowed j c cfg.state.base :=
        driver_guarded.allowed known_opened (fun i => safe_ret_rest rest_opened) hreached hc
      exact published_serve hb hallowed ht hp'
    | event e =>
      obtain ⟨s', he, rfl⟩ := Option.map_eq_some_iff.mp hs
      exact published_open hk he hp'
    | start j t =>
      obtain ⟨q, s', hq, ha, rfl⟩ := start_eq_some hs
      have hbegin := (start_of_single hsingle ha).1
      exact published_begin (s := { cfg.state.base with prior := none }) hbegin hp'
    | restart r =>
      obtain ⟨s', hr, rfl⟩ := Option.map_eq_some_iff.mp hs
      obtain ⟨t, ht, rfl⟩ := Option.map_eq_some_iff.mp hr
      exact published_restart ht hp'

end Runs

/-- Of a ticket that was printed. -/
theorem told_printed : Told (openAfter (ticketPrinted.map openMove)) :=
  told_of_reached (openReached_after (by decide +kernel))

/-! ### A job that is handed over twice -/

/-- A ticket is reserved and handed over twice, and printed twice. -/
def printedTwice : List openDriver.Move :=
  [.event (.base (.reserve (str "kitchen") (str "K") .raw 1 ⟨0, str "1", []⟩)),
    .event (.base (.submitReserved (str "1") (.raw [65]) ticketOptions)),
    .event (.base (.submitReserved (str "1") (.raw [65]) ticketOptions))] ++
  (List.replicate 2 (.start (str "1") (.run (ticketRun (str "1") 1 false)) ::
    List.replicate 11 (.serve (str "1") { answer := obliging }))).flatten

/-- It is done, and goes on to be sent. -/
theorem ends_twice : ¬∀ (nonce : Bytes) (cfg : Config Worker Bytes OpenState),
    OpenReached lossless nonce cfg → Told cfg := by
  intro hall
  have htold := hall (str "Q7") (openAfter printedTwice) (openReached_after (by decide +kernel))
  have hshown : ((openAfter printedTwice).state.base.jobs (str "1")).any (fun p =>
      p.phase ≠ .reloaded ∧ p.history.map JobEvent.state =
        [.queued, .sendStarted, .bytesSent, .doneSoftware, .sendStarted, .bytesSent,
          .doneSoftware]) = true := by decide +kernel
  obtain ⟨p, hp, hboth⟩ := (Option.any_eq_true _ _).mp hshown
  obtain ⟨hlive, hstates⟩ := of_decide_eq_true hboth
  have hsequence := (htold.sequence _ p hp hlive).order
  have horder : (p.history.map JobEvent.state).IsChain fun a b => follows a b = true :=
    List.isChain_map _ |>.mpr hsequence
  rw [hstates] at horder
  revert horder
  decide

end PrinterDriver.Engine.Publications
