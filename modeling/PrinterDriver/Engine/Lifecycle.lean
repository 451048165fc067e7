import PrinterDriver.Engine.RunJob

/-! # The progress of a job

What one run of a job records, publishes and hands to the transport, in the order it may do so. A
`Progress` reads the calls of the run; `Admits` says which call may come when. `runStages_progress`
says of both engines that they make no other, and that a job that is over has been finished once. -/

namespace PrinterDriver.Engine.Lifecycle

open PrinterDriver.Lib.Programs PrinterDriver.Core.Types PrinterDriver.Core.Profile
  PrinterDriver.Core.EscposParser PrinterDriver.Engine.Io PrinterDriver.Engine.Ops
  PrinterDriver.Engine.RunJob

open Prog

/-- A state before the first payload byte. -/
def isUnsent : JobState → Bool
  | .queued | .heldOffline | .preflightOk => true
  | _ => false

/-- The states that may be recorded after a state. -/
def follows : JobState → JobState → Bool
  | s, .preflightOk => s = .queued || s = .heldOffline
  | s, .sendStarted => isUnsent s
  | s, .bytesSent => s = .sendStarted
  | s, .printConfirmed => s = .bytesSent
  | s, .cutCommandProcessed => s = .printConfirmed
  | s, .heldOffline => s = .queued
  | _, .queued => false
  | s, .doneSoftware | s, .physicallyVerified | s, .failedKnown | s, .unknown => !s.isTerminal

/-- The state recorded last and whether it was published; what the transport was handed and took of
the payload; whether the cutter's fault bit was read after the cut; whether the job is over. -/
structure Progress where
  state : JobState := .queued
  confidence : ConfidenceLevel := .transportAccepted
  reason : FailureReason := .none
  published : Bool := true
  handed : Bool := false
  accepted : Bool := false
  cutterFault : Bool := false
  finished : Bool := false
  deriving DecidableEq, Repr

namespace Progress

def post (g : Progress) : (Σ c : Call, c.Answer) → Progress
  | ⟨.recordState _ state confidence reason _, _⟩ =>
    { g with state := state, confidence := confidence, reason := reason, published := false }
  | ⟨.emit _ _, _⟩ => { g with published := true }
  | ⟨.finish _ _, _⟩ => { g with finished := true }
  | ⟨.write .payload data, result⟩ =>
    { g with
      handed := g.handed || data ≠ []
      accepted := g.accepted || TransportResult.accepted result data ≠ [] }
  | ⟨.awaitRealtime .cutterStatus _, answer⟩ =>
    { g with
      cutterFault := List.any (Prod.snd answer) fun a => a.flags.cutterError.getD false }
  | _ => g

end Progress

/-- Persist first, then publish; the payload only once `SendStarted` is published; nothing after the
end but the release of the lease. -/
def Admits (j : JobRun) (c : Call) (g : Progress) : Prop :=
  match c with
  | .releaseTokens _ => True
  | .recordState id state confidence _ _ =>
    g.finished = false ∧ id = j.id ∧ g.published = true ∧ follows g.state state = true ∧
      g.confidence.rank ≤ confidence.rank ∧ confidence.rank ≤ j.ceiling.rank ∧
      (g.accepted = true → (state = .failedKnown ↔ g.cutterFault = true))
  | .emit id event =>
    g.finished = false ∧ id = j.id ∧ g.published = false ∧
      event = ⟨g.state, g.confidence, g.reason.published⟩
  | .finish id result =>
    g.finished = false ∧ id = j.id ∧ g.published = true ∧ g.state.isTerminal = true ∧
      (result.outcome = .failed ↔ g.state = .failedKnown)
  | .write .payload _ => g.finished = false ∧ g.published = true ∧ g.state = .sendStarted
  | .awaitRealtime .cutterStatus _ => g.finished = false ∧ g.state = .cutCommandProcessed
  | .setTokens id _ | .recordTokens id _ | .registerTokens id _ => g.finished = false ∧ id = j.id
  | _ => g.finished = false

abbrev log (j : JobRun) : World Worker Progress := observe Progress.post (Admits j)

/-! ### Calls that end a job -/

def isFinish : Call → Bool
  | .finish _ _ => true
  | _ => false

theorem isTerminal_of_follows {x y : JobState} (h : follows x y = true) : x.isTerminal = false := by
  cases x <;> first | rfl | (cases y <;> exact absurd h (by decide))

theorem finished_post (g : Progress) (c : Call) (a : c.Answer) :
    (g.post ⟨c, a⟩).finished = (g.finished || isFinish c) := by
  cases c with
  | write part data => cases part <;> simp [Progress.post, isFinish]
  | awaitRealtime part count => cases part <;> simp [Progress.post, isFinish]
  | _ => simp [Progress.post, isFinish]

theorem isTerminal_of_finish {j : JobRun} {g : Progress} {c : Call} (h : Admits j c g)
    (hc : isFinish c = true) (a : c.Answer) : (g.post ⟨c, a⟩).state.isTerminal = true := by
  cases c with
  | finish id result => exact h.2.2.2.1
  | _ => exact absurd hc (by simp [isFinish])

/-- Once a job is over only its lease is released. -/
theorem releases_of_admits {j : JobRun} {g : Progress} {c : Call} (h : Admits j c g)
    (hf : g.finished = true) : ∃ pair, c = .releaseTokens pair := by
  cases c with
  | releaseTokens pair => exact ⟨pair, rfl⟩
  | write part data => cases part <;> simp [Admits, hf] at h
  | awaitRealtime part count => cases part <;> simp [Admits, hf] at h
  | _ => simp [Admits, hf] at h

/-! ### Programs that record -/

section Programs
variable {j : JobRun} {g : Progress}

theorem safe_advance {Q : Unit → Progress → Prop} {state : JobState}
    {confidence : ConfidenceLevel} {reason : FailureReason} {evidence : JobEvidence}
    (h : Admits j (.recordState j.id state confidence reason evidence) g)
    (hQ : Q () { g with state := state, confidence := confidence, reason := reason }) :
    Safe (log j) Q (advance j.id state confidence reason evidence) g := by
  have hg : { g with state := state, confidence := confidence, reason := reason } =
      { g with
        state := state, confidence := confidence, reason := reason, published := true } := by
    rw [h.2.2.1]
  simp only [advance, perform, call_bind, ret_bind, safe_observe_call, safe_observe_ret,
    Progress.post]
  exact ⟨h, fun _ => ⟨⟨h.1, rfl, rfl, rfl⟩, fun _ => hg ▸ hQ⟩⟩

/-- The last thing a job does. -/
theorem safe_terminate {Q : Unit → Progress → Prop} {state : JobState} {outcome : JobResult}
    (h : Admits j (.recordState j.id state outcome.confidence outcome.reason
      ⟨outcome.grade, outcome.authority, outcome.method⟩) g) (ht : state.isTerminal = true)
    (ho : outcome.outcome = .failed ↔ state = .failedKnown)
    (hQ : ∀ g', g'.finished = true → Q () g') :
    Safe (log j) Q (terminate j.id state outcome) g := by
  refine Safe.bind (safe_advance h ?_)
  simp only [perform, safe_observe_call, safe_observe_ret, Progress.post]
  exact ⟨⟨h.1, rfl, h.2.2.1, ht, ho⟩, fun _ => hQ _ rfl⟩

/-- A call that the log does not look at. -/
theorem safe_aside {α : Type} {Q : α → Progress → Prop} {call : Call}
    {f : call.Answer → Prog Worker α} (h : Admits j call g) (hpost : ∀ a, g.post ⟨call, a⟩ = g)
    (hf : ∀ a, Safe (log j) Q (f a) g) :
    Safe (log j) Q ((perform (E := Worker) call : Prog Worker call.Answer) >>= f) g := by
  simp only [perform, call_bind, ret_bind, safe_observe_call]
  exact ⟨h, fun a => by rw [hpost]; exact hf a⟩

/-- Writes of other parts do not show. -/
theorem safe_sendAside {Q : TransportResult → Progress → Prop} {part : Part} {data : Bytes}
    (hpart : part ≠ .payload) (h : g.finished = false) (hQ : ∀ r, Q r g) :
    Safe (log j) Q (sendPaced j.profile part data) g := by
  have hadm : ∀ d, Admits j (.write part d) g := fun d =>
    by cases part <;> first | exact h | exact absurd rfl hpart
  have hpost : ∀ d r, g.post ⟨.write part d, r⟩ = g := fun d r => by
    cases part <;> first | rfl | exact absurd rfl hpart
  have hchunks : ∀ (cs : List Bytes) (offset : ℕ), Safe (log j) Q (sendChunks part cs offset) g := by
    intro cs
    induction cs with
    | nil => exact fun offset => safe_observe_ret.mpr (hQ _)
    | cons c cs ih =>
      intro offset
      refine safe_aside (hadm c) (hpost c) fun r => ?_
      split_ifs
      · exact ih _
      · exact safe_observe_ret.mpr (hQ _)
  unfold sendPaced
  split_ifs
  · simp only [perform, safe_observe_call, safe_observe_ret]
    exact ⟨hadm data, fun r => by rw [hpost]; exact hQ r⟩
  · exact hchunks _ 0

/-- The payload: what is known of it afterwards is whether any byte was accepted. -/
theorem safe_sendWire {Q : TransportResult → Progress → Prop} {wire : Bytes}
    (h : g.finished = false) (hp : g.published = true) (hs : g.state = .sendStarted)
    (ha : g.accepted = false)
    (hQ : ∀ r handed accepted, (TransportResult.ok r = false → TransportResult.bytesWritten r = 0 →
      accepted = false) → Q r { g with handed := handed, accepted := accepted }) :
    Safe (log j) Q (sendPaced j.profile .payload wire) g := by
  have hchunks : ∀ (cs : List Bytes) (offset : ℕ) (handed accepted : Bool),
      (∀ c ∈ cs, c ≠ []) → (offset = 0 → accepted = false) →
      Safe (log j) Q (sendChunks .payload cs offset)
        { g with handed := handed, accepted := accepted } := by
    intro cs
    induction cs with
    | nil => exact fun offset handed accepted _ ho => safe_observe_ret.mpr (hQ _ _ _ (by simp))
    | cons c cs ih =>
      intro offset handed accepted hc ho
      simp only [sendChunks, perform, call_bind, ret_bind, safe_observe_call]
      refine ⟨⟨h, hp, hs⟩, fun (r : TransportResult) => ?_⟩
      simp only [Progress.post]
      split_ifs with hr
      · refine ih _ _ _ (fun d hd => hc d (List.mem_cons_of_mem _ hd)) fun h0 => ?_
        have := List.length_pos_of_ne_nil (hc c (by simp))
        omega
      · refine safe_observe_ret.mpr (hQ _ _ _ fun _ hw => ?_)
        have hz : offset = 0 ∧ r.bytesWritten = 0 := by simpa using hw
        simp [ho hz.1, TransportResult.accepted, hr, hz.2]
  unfold sendPaced
  split_ifs
  · simp only [perform, safe_observe_call, safe_observe_ret, Progress.post]
    refine ⟨⟨h, hp, hs⟩, fun (r : TransportResult) => hQ r _ _ fun hr hw => ?_⟩
    simp [ha, TransportResult.accepted, hr, hw]
  · have hg : g = { g with handed := g.handed, accepted := g.accepted } := rfl
    rw [hg]
    exact hchunks _ 0 _ _ (chunks_ne_nil _ _ _) fun _ => ha

end Programs

/-! ### Stages -/

/-- The job is in one of the states `S`, with a confidence of at most `c`. -/
structure At (j : JobRun) (S : JobState → Prop) (c : ConfidenceLevel) (g : Progress) : Prop where
  state : S g.state
  published : g.published = true
  running : g.finished = false
  below : g.confidence.rank ≤ (j.reached c).rank
  fault : g.cutterFault = false

/-- What a stage leaves: `P` of the confidence if it goes on, and a finished job if not. -/
def Stage (P : ConfidenceLevel → Progress → Prop) : Option ConfidenceLevel → Progress → Prop
  | some c, g => P c g
  | none, g => g.finished = true

/-- Nothing of the payload has been accepted. -/
def Unsent (j : JobRun) (c : ConfidenceLevel) (g : Progress) : Prop :=
  At j (fun s => isUnsent s = true) c g ∧ g.accepted = false

section Stages
variable {j : JobRun} {g : Progress} {S : JobState → Prop} {c : ConfidenceLevel}
  {P : ConfidenceLevel → Progress → Prop}

theorem rank_reached (c : ConfidenceLevel) : (j.reached c).rank = min c.rank j.ceiling.rank :=
  ConfidenceLevel.rank_clampTo c j.ceiling

theorem At.mono {S' : JobState → Prop} (h : At j S c g) (hS : S g.state → S' g.state) :
    At j S' c g := ⟨hS h.state, h.published, h.running, h.below, h.fault⟩

theorem reached_le_raise (c d : ConfidenceLevel) :
    (j.reached c).rank ≤ (j.reached (c.raise d)).rank := by
  rw [rank_reached, rank_reached, ConfidenceLevel.rank_raise]
  omega

/-- A record of this stage. -/
theorem At.admits (h : At j S c g) {state : JobState} {confidence : ConfidenceLevel}
    {reason : FailureReason} {evidence : JobEvidence} (hf : follows g.state state = true)
    (hc : (j.reached c).rank ≤ confidence.rank) (hle : confidence.rank ≤ j.ceiling.rank)
    (hfail : g.accepted = true → state ≠ .failedKnown) :
    Admits j (.recordState j.id state confidence reason evidence) g :=
  ⟨h.running, rfl, h.published, hf, h.below.trans hc, hle, fun ha => by
    simp [hfail ha, h.fault]⟩

theorem reached_le (c : ConfidenceLevel) : (j.reached c).rank ≤ j.ceiling.rank := by
  rw [rank_reached]
  omega

theorem follows_terminal {s t : JobState} (hs : s.isTerminal = false) (ht : t.isTerminal = true) :
    follows s t = true := by
  cases t <;> first | (simp [follows, hs]; done) | exact absurd ht (by decide)

theorem safe_failKnown (h : At j S c g) (hs : g.state.isTerminal = false)
    (ha : g.accepted = false) {reason : FailureReason} {evidence : JobEvidence} :
    Safe (log j) (Stage P) (j.failKnown reason c evidence) g :=
  Safe.bind (safe_terminate (h.admits (follows_terminal hs rfl) le_rfl (reached_le c)
    fun h => by simp [ha] at h) rfl (by simp [JobResult.failed, JobResult.attested])
    fun _ hg => safe_observe_ret.mpr hg)

theorem safe_failUnknown (h : At j S c g) (hs : g.state.isTerminal = false)
    {reason : FailureReason} : Safe (log j) (Stage P) (j.failUnknown reason c) g :=
  Safe.bind (safe_terminate (h.admits (follows_terminal hs rfl) le_rfl (reached_le c)
    fun _ => by decide) rfl (by simp [JobResult.attested]) fun _ hg => safe_observe_ret.mpr hg)

theorem safe_succeed (h : At j S c g) (hs : g.state.isTerminal = false) {d : ConfidenceLevel}
    (hd : (j.reached c).rank ≤ d.rank) (hle : d.rank ≤ j.ceiling.rank) {evidence : JobEvidence} :
    Safe (log j) (Stage P) (j.succeed d evidence) g :=
  Safe.bind (safe_terminate (h.admits (follows_terminal hs rfl) hd hle fun _ => by decide) rfl
    (by simp [JobResult.done, JobResult.attested]) fun _ hg => safe_observe_ret.mpr hg)

theorem safe_next {P' : ConfidenceLevel → Progress → Prop}
    {stage : ConfidenceLevel → Prog Worker (Option ConfidenceLevel)}
    (h : ∀ c g, P c g → Safe (log j) (Stage P') (stage c) g) :
    ∀ {o : Option ConfidenceLevel} {g : Progress}, Stage P o g →
      Safe (log j) (Stage P') (JobRun.next stage o) g
  | some c, g, ho => h c g ho
  | none, _, ho => safe_observe_ret.mpr ho

end Stages

/-! ### The ESC/POS engine -/

section Escpos
variable {j : JobRun} {g : Progress} {c : ConfidenceLevel}

theorem isTerminal_of_isUnsent {s : JobState} (h : isUnsent s = true) : s.isTerminal = false := by
  cases s <;> first | rfl | exact absurd h (by decide)

theorem Unsent.failKnown (h : Unsent j c g) {reason : FailureReason} {evidence : JobEvidence}
    {P : ConfidenceLevel → Progress → Prop} :
    Safe (log j) (Stage P) (j.failKnown reason c evidence) g :=
  safe_failKnown h.1 (isTerminal_of_isUnsent h.1.state) h.2

theorem safe_preflight (h : Unsent j c g) (hq : g.state = .queued ∨ g.state = .heldOffline) :
    Safe (log j) (Stage (Unsent j)) (j.preflight c) g := by
  unfold JobRun.preflight
  split_ifs
  · refine safe_aside h.1.running (fun _ => rfl) fun _ => ?_
    refine Safe.bind (safe_sendAside (by decide) h.1.running fun sent => ?_)
    split_ifs
    · exact h.failKnown
    refine safe_aside h.1.running (fun _ => rfl) fun (outcome, answers) => ?_
    dsimp only
    split
    · exact h.failKnown
    refine safe_aside h.1.running (fun _ => rfl) fun _ => ?_
    split
    · exact h.failKnown
    split
    · exact safe_observe_ret.mpr h
    · have hf : follows g.state .preflightOk = true := by
        rcases hq with hq | hq <;> rw [hq] <;> rfl
      exact Safe.bind (safe_advance
        (h.1.admits hf (reached_le_raise c _) (reached_le _) fun _ => by decide)
        (safe_observe_ret.mpr ⟨⟨rfl, h.1.published, h.1.running, le_rfl, h.1.fault⟩, h.2⟩))
  · exact safe_observe_ret.mpr h

theorem safe_sendPayload {wire : Bytes} (h : Unsent j c g) :
    Safe (log j) (Stage (At j (· = .sendStarted))) (j.sendPayload wire c) g := by
  have hf : follows g.state .sendStarted = true := h.1.state
  refine Safe.bind (safe_advance (h.1.admits hf le_rfl (reached_le c) fun _ => by decide) ?_)
  refine Safe.bind (safe_sendWire h.1.running h.1.published rfl h.2 fun sent handed accepted ha => ?_)
  have hat : At j (· = .sendStarted) c
      { g with
        state := .sendStarted, confidence := j.reached c, reason := .none, handed := handed
        accepted := accepted } := ⟨rfl, h.1.published, h.1.running, le_rfl, h.1.fault⟩
  split_ifs with hok hw
  · exact safe_observe_ret.mpr hat
  · exact safe_failKnown hat rfl (ha (by simpa using hok) hw)
  · exact safe_failUnknown hat rfl

theorem safe_armPrintFence {Q : Part × Bytes → Progress → Prop} {token : Bytes}
    (h : g.finished = false) (hQ : ∀ part fence, part ≠ .payload → Q (part, fence) g) :
    Safe (log j) Q (j.armPrintFence token) g := by
  have huncaught : ∀ {α : Type} {R : α → Progress → Prop},
      Safe (log j) R (uncaught : Prog Worker α) g := fun {_ _} =>
    safe_observe_call.mpr ⟨h, fun e => e.elim⟩
  unfold JobRun.armPrintFence
  split
  · exact safe_aside h (fun _ => rfl) fun _ =>
      safe_observe_ret.mpr (hQ _ _ (by decide))
  split
  · split
    · exact safe_observe_ret.mpr (hQ _ _ (by decide))
    · exact huncaught
  · exact safe_aside h (fun _ => rfl) fun _ =>
      safe_observe_ret.mpr (hQ _ _ (by decide))
  all_goals
    split_ifs
    · exact safe_observe_ret.mpr (hQ _ _ (by decide))
    · split
      · exact safe_observe_ret.mpr (hQ _ _ (by decide))
      · exact huncaught

theorem safe_sendFence {Q : TransportResult → Progress → Prop} {part : Part} {fence : Bytes}
    (hpart : part ≠ .payload) (h : g.finished = false) (hQ : ∀ r, Q r g) :
    Safe (log j) Q (JobRun.sendFence j.profile part fence) g := by
  unfold JobRun.sendFence
  split_ifs
  · exact safe_observe_ret.mpr (hQ _)
  · exact safe_sendAside hpart h hQ

/-- Without a fence there is nothing to be confident of. -/
theorem reached_of_none (h : j.profile.completion = .none) (c d : ConfidenceLevel) :
    (j.reached c).rank ≤ (j.reached d).rank := by
  have hc : j.ceiling.rank = 0 := by
    simp [JobRun.ceiling, CapabilityProfile.maxConfidence, h, ConfidenceLevel.rank]
  rw [rank_reached, hc]
  omega

theorem safe_sendPrintFence {token : Bytes} (h : At j (· = .sendStarted) c g) :
    Safe (log j) (Stage (At j (· = .bytesSent))) (j.sendPrintFence token c) g := by
  have hs : g.state.isTerminal = false := by rw [h.state]; rfl
  refine Safe.bind (safe_armPrintFence h.running fun part fence hpart => ?_)
  refine Safe.bind (safe_sendFence hpart h.running fun sent => ?_)
  split_ifs with hok hnone
  · exact safe_failUnknown h hs
  all_goals
    refine Safe.bind (safe_advance (h.admits (by rw [h.state]; rfl) le_rfl (reached_le c)
      fun _ => by decide) ?_)
    have hat : At j (· = .bytesSent) c
        { g with state := .bytesSent, confidence := j.reached c, reason := .none } :=
      ⟨rfl, h.published, h.running, le_rfl, h.fault⟩
  · exact safe_succeed hat rfl (reached_of_none hnone _ _) (reached_le _)
  · exact safe_observe_ret.mpr hat

/-- A fence that was answered: the confidence rises and the next state is recorded. -/
theorem safe_answered {S : JobState → Prop} (h : At j S c g) {state : JobState}
    {d : ConfidenceLevel} (hf : follows g.state state = true) (hne : state ≠ .failedKnown)
    {Q : Unit → Progress → Prop}
    (hQ : ∀ g', At j (· = state) (c.raise d) g' → Q () g') :
    Safe (log j) Q (advance j.id state (j.reached (c.raise d)) .none) g :=
  safe_advance (h.admits hf (reached_le_raise c d) (reached_le _) fun _ => hne)
    (hQ _ ⟨rfl, h.published, h.running, le_rfl, h.fault⟩)

theorem safe_awaitPrintFence {token : Bytes} (h : At j (· = .bytesSent) c g) :
    Safe (log j) (Stage (At j (· = .printConfirmed))) (j.awaitPrintFence token c) g := by
  refine safe_aside h.running (fun _ => rfl) fun ack => ?_
  split_ifs with hack hcut
  · exact safe_failUnknown h (by rw [h.state]; rfl)
  all_goals
    refine Safe.bind (safe_answered h (by rw [h.state]; rfl) (by decide) fun g' hat => ?_)
  · exact safe_succeed hat (by rw [hat.state]; rfl) le_rfl (reached_le _)
  · exact safe_observe_ret.mpr hat

theorem safe_armCut {Q : Bytes → Progress → Prop} {token : Bytes} (h : g.finished = false)
    (hQ : ∀ wire, Q wire g) : Safe (log j) Q (j.armCut token) g := by
  unfold JobRun.armCut
  split
  · exact safe_observe_call.mpr ⟨h, fun e => e.elim⟩
  split
  · exact safe_aside h (fun _ => rfl) fun _ => safe_observe_ret.mpr (hQ _)
  · unfold JobRun.expectCutFence
    split_ifs
    · exact safe_aside h (fun _ => rfl) fun _ => safe_observe_ret.mpr (hQ _)
    · exact safe_observe_ret.mpr (hQ _)

theorem safe_sendCut {token : Bytes} (h : At j (· = .printConfirmed) c g) :
    Safe (log j) (Stage (At j (· = .cutCommandProcessed))) (j.sendCut token c) g := by
  have hs : g.state.isTerminal = false := by rw [h.state]; rfl
  refine Safe.bind (safe_armCut h.running fun wire => ?_)
  refine Safe.bind (safe_sendAside (by decide) h.running fun sent => ?_)
  split
  · exact safe_failUnknown h hs
  refine safe_aside h.running (fun _ => rfl) fun ack => ?_
  split
  · exact safe_failUnknown h hs
  refine Safe.bind (safe_answered h (by rw [h.state]; rfl) (by decide) fun g' hat => ?_)
  split_ifs
  · exact safe_succeed hat (by rw [hat.state]; rfl) le_rfl (reached_le _)
  · exact safe_observe_ret.mpr hat

theorem safe_readCutterStatus {Q : List ParsedEvent → Progress → Prop} {sent : TransportResult}
    (h : g.finished = false)
    (hs : g.state = .cutCommandProcessed) (hg : g.cutterFault = false) (hQ : ∀ answers fault,
      answers.any (fun a => a.flags.cutterError.getD false) = fault →
        Q answers { g with cutterFault := fault }) :
    Safe (log j) Q (JobRun.readCutterStatus sent) g := by
  unfold JobRun.readCutterStatus
  split_ifs
  · simp only [perform, call_bind, ret_bind, safe_observe_call, pure_eq, safe_observe_ret]
    exact ⟨⟨h, hs⟩, fun answer => hQ _ _ rfl⟩
  · exact safe_observe_ret.mpr (hQ [] g.cutterFault (by simp [hg]))

theorem safe_cutterStatus (h : At j (· = .cutCommandProcessed) c g) :
    Safe (log j) (Stage fun _ _ => False) (j.cutterStatus c) g := by
  have hs : g.state.isTerminal = false := by rw [h.state]; rfl
  refine safe_aside h.running (fun _ => rfl) fun _ => ?_
  refine safe_aside h.running (fun _ => rfl) fun _ => ?_
  refine Safe.bind (safe_sendAside (by decide) h.running fun sent => ?_)
  refine Safe.bind (safe_readCutterStatus h.running h.state h.fault fun answers fault hf => ?_)
  split_ifs with hfault hnil
  · refine Safe.bind (safe_terminate ⟨h.running, rfl, h.published, follows_terminal hs rfl, h.below,
      reached_le c, fun _ => by simp [← hf, hfault]⟩ rfl
      (by simp [JobResult.failed, JobResult.attested]) fun _ hg => safe_observe_ret.mpr hg)
  all_goals
    have hat : At j (· = .cutCommandProcessed) c { g with cutterFault := fault } :=
      ⟨h.state, h.published, h.running, h.below, by simpa [hf] using hfault⟩
  · exact safe_succeed hat hs le_rfl (reached_le _)
  · exact safe_succeed hat hs (reached_le_raise c _) (reached_le _)

theorem safe_leaseTokens {Q : Option MarkerPair → Progress → Prop} (h : g.finished = false)
    (hQ : ∀ lease, Q lease g) : Safe (log j) Q j.leaseTokens g := by
  unfold JobRun.leaseTokens
  split_ifs
  · exact safe_observe_ret.mpr (hQ none)
  · refine safe_aside h (fun _ => rfl) fun pair => ?_
    refine safe_aside ⟨h, rfl⟩ (fun _ => rfl) fun _ => ?_
    refine safe_aside ⟨h, rfl⟩ (fun _ => rfl) fun _ => ?_
    refine safe_aside ⟨h, rfl⟩ (fun _ => rfl) fun _ => ?_
    exact safe_observe_ret.mpr (hQ (some pair))

theorem safe_printStages {lease : Option MarkerPair} (h : Unsent j c g) :
    Safe (log j) (Stage fun _ _ => False) (j.printStages lease c) g := by
  unfold JobRun.printStages
  dsimp only
  cases j.buildPayload ((lease.map MarkerPair.printToken).getD []) with
  | none => exact safe_observe_call.mpr ⟨h.1.running, fun e => e.elim⟩
  | some wire =>
    refine Safe.bind ((safe_sendPayload h).mono fun o g ho => ?_)
    refine Safe.bind ((safe_next (fun c g h => safe_sendPrintFence h) ho).mono fun o g ho => ?_)
    refine Safe.bind ((safe_next (fun c g h => safe_awaitPrintFence h) ho).mono fun o g ho => ?_)
    refine Safe.bind ((safe_next (fun c g h => safe_sendCut h) ho).mono fun o g ho => ?_)
    exact safe_next (fun c g h => safe_cutterStatus h) ho

theorem safe_leased (h : Unsent j c g) :
    Safe (log j) (Stage fun _ _ => False) (j.leased c) g := by
  refine Safe.bind (safe_leaseTokens h.1.running fun lease => ?_)
  refine Safe.bind ((safe_printStages h).mono fun o g ho => ?_)
  cases o with
  | some _ => exact ho.elim
  | none =>
    cases lease with
    | none => exact safe_observe_ret.mpr ho
    | some pair => exact safe_aside trivial (fun _ => rfl) fun _ => safe_observe_ret.mpr ho

/-- A job that a worker has just taken from its queue. -/
structure Fresh (j : JobRun) (g : Progress) : Prop where
  state : g.state = .queued ∨ g.state = .heldOffline
  confidence : g.confidence = .transportAccepted
  published : g.published = true
  accepted : g.accepted = false
  running : g.finished = false
  fault : g.cutterFault = false

theorem Fresh.unsent (h : Fresh j g) : Unsent j .transportAccepted g := by
  have hs : isUnsent g.state = true := by rcases h.state with hs | hs <;> rw [hs] <;> rfl
  exact ⟨⟨hs, h.published, h.running, by simp [h.confidence, ConfidenceLevel.rank], h.fault⟩, h.accepted⟩

theorem safe_runEscposJob (h : Fresh j g) :
    Safe (log j) (Stage fun _ _ => False) j.runEscposJob g := by
  refine safe_aside h.running (fun _ => rfl) fun connected => ?_
  split
  · exact h.unsent.failKnown
  refine safe_aside h.running (fun _ => rfl) fun _ => safe_aside h.running (fun _ => rfl) fun _ => ?_
  refine Safe.bind ((safe_preflight h.unsent h.state).mono fun o g ho => ?_)
  exact safe_next (fun c g h => safe_leased h) ho

end Escpos

/-! ### The Star engine -/

section Star
variable {j : JobRun} {g : Progress} {c : ConfidenceLevel}

theorem safe_starPreamble (h : Unsent j c g) :
    Safe (log j) (Stage (Unsent j)) (j.starPreamble c) g := by
  unfold JobRun.starPreamble
  split_ifs
  · refine Safe.bind (safe_sendAside (by decide) h.1.running fun sent => ?_)
    split_ifs
    · exact h.failKnown
    · exact safe_aside h.1.running (fun _ => rfl) fun _ => safe_observe_ret.mpr h
  · exact safe_observe_ret.mpr h

theorem safe_sendStarPayload (h : Unsent j c g) :
    Safe (log j) (Stage (At j (· = .sendStarted))) (j.sendStarPayload c) g := by
  unfold JobRun.sendStarPayload
  cases j.buildStarPayload with
  | none => exact safe_observe_call.mpr ⟨h.1.running, fun e => e.elim⟩
  | some wire => exact safe_sendPayload h

theorem safe_sendStarCut {Q : Unit → Progress → Prop} (h : g.finished = false) (hQ : Q () g) :
    Safe (log j) Q j.sendStarCut g := by
  unfold JobRun.sendStarCut
  split_ifs
  · exact safe_observe_ret.mpr hQ
  · exact Safe.bind (safe_sendAside (by decide) h fun _ => safe_observe_ret.mpr hQ)

theorem safe_starUnfenced (hn : j.profile.completion = .none) (h : At j (· = .sendStarted) c g) :
    Safe (log j) (Stage fun _ _ => False) (j.starUnfenced c) g := by
  refine Safe.bind (safe_sendStarCut h.running ?_)
  refine Safe.bind (safe_advance (h.admits (by rw [h.state]; rfl) le_rfl (reached_le c)
    fun _ => by decide) ?_)
  have hat : At j (· = .bytesSent) c
      { g with state := .bytesSent, confidence := j.reached c, reason := .none } :=
    ⟨rfl, h.published, h.running, le_rfl, h.fault⟩
  exact safe_succeed hat rfl (reached_of_none hn _ _) (reached_le _)

theorem safe_starPrintFence (h : At j (· = .sendStarted) c g) :
    Safe (log j) (Stage (At j (· = .printConfirmed))) (j.starPrintFence c) g := by
  refine safe_aside h.running (fun _ => rfl) fun fence => ?_
  refine Safe.bind (safe_sendAside (by decide) h.running fun sent => ?_)
  split
  · exact safe_failUnknown h (by rw [h.state]; rfl)
  refine Safe.bind (safe_advance (h.admits (by rw [h.state]; rfl) le_rfl (reached_le c)
    fun _ => by decide) ?_)
  have hat : At j (· = .bytesSent) c
      { g with state := .bytesSent, confidence := j.reached c, reason := .none } :=
    ⟨rfl, h.published, h.running, le_rfl, h.fault⟩
  refine safe_aside hat.running (fun _ => rfl) fun ack => ?_
  split
  · exact safe_failUnknown hat rfl
  refine Safe.bind (safe_answered hat rfl (by decide) fun g' hat' => ?_)
  split_ifs
  · exact safe_succeed hat' (by rw [hat'.state]; rfl) le_rfl (reached_le _)
  · exact safe_observe_ret.mpr hat'

theorem safe_starCutFence (h : At j (· = .printConfirmed) c g) :
    Safe (log j) (Stage fun _ _ => False) (j.starCutFence c) g := by
  have hs : g.state.isTerminal = false := by rw [h.state]; rfl
  refine safe_aside h.running (fun _ => rfl) fun fence => ?_
  refine Safe.bind (safe_sendAside (by decide) h.running fun sent => ?_)
  split
  · exact safe_failUnknown h hs
  refine safe_aside h.running (fun _ => rfl) fun ack => ?_
  split
  · exact safe_failUnknown h hs
  refine Safe.bind (safe_answered h (by rw [h.state]; rfl) (by decide) fun g' hat => ?_)
  exact safe_succeed hat (by rw [hat.state]; rfl) le_rfl (reached_le _)

theorem safe_runStarJob (h : Fresh j g) :
    Safe (log j) (Stage fun _ _ => False) j.runStarJob g := by
  refine safe_aside h.running (fun _ => rfl) fun connected => ?_
  split
  · exact h.unsent.failKnown
  refine safe_aside h.running (fun _ => rfl) fun _ => safe_aside h.running (fun _ => rfl) fun _ => ?_
  refine Safe.bind ((safe_starPreamble h.unsent).mono fun o g ho => ?_)
  refine Safe.bind ((safe_next (fun c g h => safe_sendStarPayload h) ho).mono fun o g ho => ?_)
  split_ifs with hn
  · exact safe_next (fun c g h => safe_starUnfenced hn h) ho
  · refine Safe.bind ((safe_next (fun c g h => safe_starPrintFence h) ho).mono fun o g ho => ?_)
    exact safe_next (fun c g h => safe_starCutFence h) ho

end Star

/-- **The progress of a job.** A run of either engine records, publishes and sends only as `Admits`
says, and when it returns the job has been finished. -/
theorem runJob_progress {j : JobRun} {g : Progress} (h : Fresh j g) :
    Safe (log j) (fun _ g => g.finished = true) j.runJob g := by
  have hstages : Safe (log j) (Stage fun _ _ => False) j.runStages g := by
    unfold JobRun.runStages
    split_ifs
    · exact safe_runEscposJob h
    · exact safe_runStarJob h
    · exact h.unsent.failKnown
  refine Safe.bind (hstages.mono fun o g ho => ?_)
  cases o with
  | some _ => exact ho.elim
  | none => exact safe_observe_ret.mpr ho

end PrinterDriver.Engine.Lifecycle
