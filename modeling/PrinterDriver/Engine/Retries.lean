import PrinterDriver.Engine.Keys

/-! # Printing a key again

`submit` looks at the newest job of a key. A key may have several: those that failed and were tried
again, and the copies that `forceReprint` made of it, whatever became of the first. -/

namespace PrinterDriver.Engine.Retries

open PrinterDriver.Lib.Threads PrinterDriver.Core.Types PrinterDriver.Engine.Ops
  PrinterDriver.Engine.RunJob PrinterDriver.Engine.Driver PrinterDriver.Engine.DriverRuns
  PrinterDriver.Engine.Keys

open Machine State

/-- `Printer::print`. -/
def print (printerId : Bytes) (payload : Payload) (options : JobOptions) : Submission where
  printerId := printerId
  payload := some payload
  options := options

/-- The newest job of the key is over and printed nothing. -/
def newestFailed (s : State) (key : Bytes) : Bool :=
  (s.lookup key).any fun e => s.failedAndFinished e.job

/-- Every job of the key is over and printed nothing. -/
def AllFailed (s : State) (key : Bytes) : Prop :=
  ∀ i p, s.jobs i = some p → p.key = key → s.failedAndFinished i = true

/-- Only a key whose jobs have all failed is printed again; otherwise a job of the key is returned,
and nothing changes. -/
structure RetriesFailed (s : State) (r : Submission) : Prop where
  creates : (s.decideSubmit r).creates = true ↔ AllFailed s r.options.key
  created : (s.decideSubmit r).creates = true → ∀ d s', driver.event (.submit r d) s = some s' →
    s.jobs d.id = none ∧ ∃ p, s'.jobs d.id = some p ∧ p.key = r.options.key
  existing : (s.decideSubmit r).creates = false →
    ∃ i p, s.decideSubmit r = .existing i ∧ s.jobs i = some p ∧ p.key = r.options.key ∧
      ∀ d, driver.event (.submit r d) s = some { s with prior := none }

section Decide
variable {s : State} {printerId : Bytes} {payload : Payload} {options : JobOptions}

theorem lookup_eq_byKey {key : Bytes} (h : key ≠ []) : s.lookup key = s.byKey key := if_neg h

theorem decideSubmit_of_none (h : s.lookup options.key = none) :
    s.decideSubmit (print printerId payload options) = .create 1 (some payload) := by
  unfold decideSubmit
  rw [show (print printerId payload options).options.key = options.key from rfl, h]
  rfl

theorem decideSubmit_of_failed {e : JobEntry} (h : s.lookup options.key = some e)
    (hf : s.failedAndFinished e.job = true) :
    s.decideSubmit (print printerId payload options) = .create (e.attempt + 1) (some payload) := by
  unfold decideSubmit
  rw [show (print printerId payload options).options.key = options.key from rfl, h]
  dsimp only
  rw [hf]
  rfl

theorem decideSubmit_of_live {e : JobEntry} (h : s.lookup options.key = some e)
    (hf : s.failedAndFinished e.job = false) :
    s.decideSubmit (print printerId payload options) = .existing e.job := by
  unfold decideSubmit
  rw [show (print printerId payload options).options.key = options.key from rfl, h]
  dsimp only
  rw [hf]
  rfl

/-- A submission that creates makes a job that is new. -/
theorem created_of_creates {r : Submission} {d : Draw} {s' : State} (hk : Known s)
    (hkey : r.options.key ≠ []) (hc : (s.decideSubmit r).creates = true)
    (h : driver.event (.submit r d) s = some s') :
    s.jobs d.id = none ∧ ∃ p, s'.jobs d.id = some p ∧ p.key = r.options.key := by
  have hdecide : { s with prior := none }.decideSubmit r = s.decideSubmit r := rfl
  change State.step { s with prior := none } (.submit r d) = some s' at h
  simp only [State.step, hdecide] at h
  split at h
  next attempt payload hv =>
    split_ifs at h
    obtain ⟨w, -, hm⟩ := Option.bind_eq_some_iff.mp h
    have hminted := mint_eq_some hm
    have hfresh : d.id ∉ s.store.ids := hminted.fresh
    obtain ⟨record, -, -, -, -, -, -, rfl⟩ := hminted.eq
    refine ⟨?_, _, Function.update_self .., if_neg hkey⟩
    by_contra hne
    exact hfresh ((hk d.id).mp (Option.isSome_iff_ne_none.mpr hne))
  next hv =>
    cases he : s.decideSubmit r with
    | create attempt payload => exact absurd he (hv attempt payload)
    | existing i => rw [he] at hc; cases hc
    | nothing => rw [he] at hc; cases hc

/-- A submission that returns a job changes nothing. -/
theorem event_of_existing {r : Submission} {d : Draw} {i : Bytes}
    (h : s.decideSubmit r = .existing i) :
    driver.event (.submit r d) s = some { s with prior := none } := by
  have hdecide : { s with prior := none }.decideSubmit r = .existing i := h
  change State.step { s with prior := none } (.submit r d) = _
  simp only [State.step, hdecide]

end Decide

section Runs
variable {nonce : Bytes} {cfg : Config Worker Bytes State} {printerId : Bytes}
  {payload : Payload} {options : JobOptions}

/-- **Printing a key again.** In every run, a print of a key does what it should if and only if the
newest job of the key does not stand for others that did not fail. -/
theorem retriesFailed_iff (h : Reached (.none _) nonce cfg) (hkey : options.key ≠ []) :
    RetriesFailed cfg.state (print printerId payload options) ↔
      (newestFailed cfg.state options.key = true → AllFailed cfg.state options.key) := by
  obtain ⟨hk, hi⟩ := indexed_of_reached h
  have hlookup := @lookup_eq_byKey cfg.state options.key hkey
  have hcreated : (cfg.state.decideSubmit (print printerId payload options)).creates = true →
      ∀ d s', driver.event (.submit (print printerId payload options) d) cfg.state = some s' →
        cfg.state.jobs d.id = none ∧ ∃ p, s'.jobs d.id = some p ∧ p.key = options.key :=
    fun hc _ _ hs => created_of_creates hk hkey hc hs
  unfold newestFailed
  cases he : cfg.state.lookup options.key with
  | none =>
    have hdecide : cfg.state.decideSubmit (print printerId payload options) =
        .create 1 (some payload) := decideSubmit_of_none he
    have hall : AllFailed cfg.state options.key := by
      intro i p hp hpkey
      obtain ⟨-, e, hentry⟩ := hi.entry hp
      rw [hpkey, ← hlookup, he] at hentry
      cases hentry
    refine iff_of_true ⟨⟨fun _ => hall, fun _ => ?_⟩, hcreated, fun hc => ?_⟩ fun _ => hall
    · rw [hdecide]
      rfl
    · rw [hdecide] at hc
      cases hc
  | some e =>
    rw [Option.any_some]
    cases hf : cfg.state.failedAndFinished e.job with
    | true =>
      have hdecide : cfg.state.decideSubmit (print printerId payload options) =
          .create (e.attempt + 1) (some payload) := decideSubmit_of_failed he hf
      have hc : (cfg.state.decideSubmit (print printerId payload options)).creates = true := by
        rw [hdecide]
        rfl
      constructor
      · intro hr _
        exact hr.creates.mp hc
      · intro hall
        refine ⟨⟨fun _ => hall rfl, fun _ => hc⟩, hcreated, fun hn => ?_⟩
        rw [hc] at hn
        cases hn
    | false =>
      have hdecide : cfg.state.decideSubmit (print printerId payload options) =
          .existing e.job := decideSubmit_of_live he hf
      obtain ⟨-, p, hp, hpkey⟩ := hi.holder hk (hlookup ▸ he)
      refine iff_of_true ⟨⟨fun hc => ?_, fun hall => ?_⟩, hcreated, fun _ => ?_⟩ fun hn => ?_
      · rw [hdecide] at hc
        cases hc
      · rw [hall e.job p hp hpkey] at hf
        cases hf
      · exact ⟨e.job, p, hdecide, hp, hpkey, fun d => event_of_existing hdecide⟩
      · cases hn

end Runs

/-! ### A reprint that fails -/

/-- A printer that takes everything. -/
def obliging : (c : Call) → Option c.Answer
  | .ensureConnected => some true
  | .io _ => some ()
  | .write _ data => some ⟨true, data.length⟩
  | _ => none

/-- A printer that is gone. -/
def unplugged : (c : Call) → Option c.Answer
  | .ensureConnected => some false
  | _ => none

def ticketOptions : JobOptions := { key := str "K", preflight := .skip, cut := .none }

def ticket : Submission := print (str "kitchen") (.raw [65]) ticketOptions

/-- An attempt of the ticket on a printer without a completion mechanism. -/
def ticketRun (id : Bytes) (attempt : ℕ) (banner : Bool) : JobRun :=
  { idleRun id with
    key := str "K", payload := .raw [65], options := ticketOptions, attempt := attempt
    banner := banner, profile := { completion := .none } }

/-- The ticket is printed. -/
def ticketPrinted : List driver.Move :=
  [.event (.submit ticket ⟨0, str "1", []⟩), .start (str "1") (.run (ticketRun (str "1") 1 false))] ++
  List.replicate 11 (.serve (str "1") { answer := obliging })

/-- Its reprint finds no printer. -/
def reprintFails : List driver.Move :=
  [.event (.submit { ticket with payload := none, reprint := true, banner := true } ⟨0, str "2", []⟩),
    .start (str "2") (.run (ticketRun (str "2") 2 true))] ++
  List.replicate 4 (.serve (str "2") { answer := unplugged })

def after (moves : List driver.Move) : Config Worker Bytes State :=
  (replay (.none driver) moves (idle (first (str "Q7")))).getD (idle (first (str "Q7")))

theorem reached_after {G : driver.Guard} [∀ m cfg, Decidable (G.Meets m cfg)]
    {moves : List driver.Move} (h : (replay G moves (idle (first (str "Q7")))).isSome = true) :
    Reached G (str "Q7") (after moves) :=
  reach_of_isSome h

/-- A printed ticket is printed again. -/
theorem retries_printed : ¬∀ (nonce : Bytes) (cfg : Config Worker Bytes State) (printerId : Bytes)
    (payload : Payload) (options : JobOptions), Reached (.none _) nonce cfg → options.key ≠ [] →
      RetriesFailed cfg.state (print printerId payload options) := by
  intro hall
  have hr := hall (str "Q7") (after (ticketPrinted ++ reprintFails)) (str "kitchen") (.raw [65])
    ticketOptions (reached_after (by decide +kernel)) (by decide)
  have hcreates : ((after (ticketPrinted ++ reprintFails)).state.decideSubmit ticket).creates = true :=
    by decide +kernel
  have hdone : ((after (ticketPrinted ++ reprintFails)).state.jobs (str "1")).any
      (fun p => p.key = str "K") = true ∧
      (after (ticketPrinted ++ reprintFails)).state.failedAndFinished (str "1") = false := by
    decide +kernel
  obtain ⟨p, hp, hpkey⟩ := (Option.any_eq_true _ _).mp hdone.1
  have hfailed := hr.creates.mp hcreates (str "1") p hp (of_decide_eq_true hpkey)
  rw [hdone.2] at hfailed
  cases hfailed

/-- A printed ticket that was not printed again. -/
theorem retriesFailed_printed : RetriesFailed (after ticketPrinted).state
    (print (str "kitchen") (.raw [65]) ticketOptions) := by
  refine (retriesFailed_iff (reached_after (by decide +kernel))
    (by decide)).mpr fun h => ?_
  have hlive : newestFailed (after ticketPrinted).state ticketOptions.key = false := by
    decide +kernel
  rw [hlive] at h
  cases h

end PrinterDriver.Engine.Retries
