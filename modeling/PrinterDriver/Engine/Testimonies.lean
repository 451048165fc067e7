import PrinterDriver.Engine.Lifecycle
import PrinterDriver.Engine.QuietCalls

/-! # What a job may say of itself

A job records a confidence of `PrintConfirmed` or more only once a fence of it was answered, looks at
the cutter only once the payload was accepted, and ends with the outcome of the state it recorded
(`runJob_testimony`), whatever it did before. A `Testimony` reads this off the calls. -/

namespace PrinterDriver.Engine.Testimonies

open PrinterDriver.Lib.Programs PrinterDriver.Core.Types PrinterDriver.Core.Profile
  PrinterDriver.Engine.Io PrinterDriver.Engine.Ops PrinterDriver.Engine.RunJob
  PrinterDriver.Engine.QuietCalls

open Prog

/-- The outcome of a recorded state. -/
def outcomeOf : JobState → JobOutcome
  | .doneSoftware | .physicallyVerified => .done
  | .failedKnown => .failed
  | _ => .unknown

/-- The state recorded last; whether the wait for a fence was signalled; whether a byte of the payload
was accepted. -/
structure Testimony where
  state : JobState := .queued
  fenced : Bool := false
  accepted : Bool := false

namespace Testimony

def post (v : Testimony) : (Σ c : Call, c.Answer) → Testimony
  | ⟨.recordState _ state _ _ _, _⟩ => { v with state := state }
  | ⟨.await _ _, ack⟩ => { v with fenced := v.fenced || decide (ack = WaitOutcome.signalled) }
  | ⟨.write .payload data, result⟩ =>
    { v with accepted := v.accepted || decide (TransportResult.accepted result data ≠ []) }
  | _ => v

end Testimony

/-- A confidence that only a fence gives. -/
def Claims (confidence : ConfidenceLevel) : Prop :=
  ConfidenceLevel.printConfirmed.rank ≤ confidence.rank

instance (confidence : ConfidenceLevel) : Decidable (Claims confidence) :=
  inferInstanceAs (Decidable (_ ≤ _))

/-- What a job may say when. -/
def Permits (c : Call) (v : Testimony) : Prop :=
  match c with
  | .recordState _ _ confidence _ _ => Claims confidence → v.fenced = true
  | .finish _ result => result.outcome = outcomeOf v.state
  | .awaitRealtime .cutterStatus _ => v.accepted = true
  | _ => True

abbrev testimony : World Worker Testimony := observe Testimony.post Permits

section Programs
variable {j : JobRun} {v : Testimony} {c : ConfidenceLevel}

/-- A program of calls that say nothing and change nothing. -/
theorem safe_only {α : Type} {Q : α → Testimony → Prop} {p : Prog Worker α}
    (hp : p.Only fun c => Permits c v ∧ ∀ a, v.post ⟨c, a⟩ = v) (hQ : ∀ a, Q a v) :
    Safe testimony Q p v := by
  induction p with
  | ret a => exact safe_observe_ret.mpr (hQ a)
  | call c k ih =>
    obtain ⟨⟨hc, hpost⟩, hk⟩ := hp
    refine safe_observe_call.mpr ⟨hc, fun a => ?_⟩
    rw [hpost a]
    exact ih a (hk a)

/-- A call that says nothing and changes nothing. -/
theorem safe_aside {α : Type} {Q : α → Testimony → Prop} {call : Call}
    {f : call.Answer → Prog Worker α} (h : Permits call v) (hpost : ∀ a, v.post ⟨call, a⟩ = v)
    (hf : ∀ a, Safe testimony Q (f a) v) :
    Safe testimony Q ((perform (E := Worker) call : Prog Worker call.Answer) >>= f) v := by
  simp only [perform, call_bind, ret_bind, safe_observe_call]
  exact ⟨h, fun a => by rw [hpost]; exact hf a⟩

theorem safe_advance {Q : Unit → Testimony → Prop} {id : Bytes} {state : JobState}
    {reason : FailureReason} {evidence : JobEvidence} (h : Claims c → v.fenced = true)
    (hQ : Q () { v with state := state }) :
    Safe testimony Q (advance id state c reason evidence) v := by
  simp only [advance, perform, call_bind, ret_bind, safe_observe_call, safe_observe_ret,
    Testimony.post]
  exact ⟨h, fun _ => ⟨trivial, fun _ => hQ⟩⟩

/-- The outcome is that of the state. -/
theorem safe_terminate {Q : Unit → Testimony → Prop} {id : Bytes} {state : JobState}
    {outcome : JobResult} (h : Claims outcome.confidence → v.fenced = true)
    (ho : outcome.outcome = outcomeOf state) (hQ : Q () { v with state := state }) :
    Safe testimony Q (terminate id state outcome) v := by
  refine Safe.bind (safe_advance h ?_)
  simp only [perform, safe_observe_call, safe_observe_ret, Testimony.post]
  exact ⟨ho, fun _ => hQ⟩

/-- Writes of other parts do not show. -/
theorem safe_sendAside {Q : TransportResult → Testimony → Prop} {part : Part} {data : Bytes}
    (hpart : part ≠ .payload) (hQ : ∀ r, Q r v) :
    Safe testimony Q (sendPaced j.profile part data) v := by
  refine safe_only (sendPaced_only fun d => ⟨trivial, fun r => ?_⟩) hQ
  cases part with
  | payload => exact absurd rfl hpart
  | _ => rfl

theorem safe_sendChunks {Q : TransportResult → Testimony → Prop} (chunks : List Bytes) :
    ∀ (offset : ℕ) (w : Testimony), (∀ chunk ∈ chunks, chunk ≠ []) → w.fenced = v.fenced →
      w.state = v.state →
      (∀ (r : TransportResult) (u : Testimony), u.fenced = v.fenced → u.state = v.state →
        (r.ok = true → (chunks ≠ [] ∨ w.accepted = true) → u.accepted = true) → Q r u) →
      Safe testimony Q (sendChunks .payload chunks offset) w := by
  induction chunks with
  | nil =>
    intro offset w _ hf hs hQ
    exact safe_observe_ret.mpr (hQ _ w hf hs fun _ h => h.resolve_left fun hn => hn rfl)
  | cons chunk rest ih =>
    intro offset w hne hf hs hQ
    simp only [sendChunks, perform, call_bind, ret_bind, safe_observe_call]
    refine ⟨trivial, fun (r : TransportResult) => ?_⟩
    split_ifs with hr
    · refine ih _ _ (fun d hd => hne d (List.mem_cons_of_mem _ hd)) hf hs fun r' u huf hus hu => ?_
      refine hQ r' u huf hus fun hok _ => hu hok (.inr ?_)
      have htaken : TransportResult.accepted r chunk ≠ [] := by
        rw [TransportResult.accepted, if_pos hr]
        exact hne chunk List.mem_cons_self
      change (w.accepted || decide (TransportResult.accepted r chunk ≠ [])) = true
      rw [decide_eq_true htaken, Bool.or_true]
    · exact safe_observe_ret.mpr (hQ _ _ hf hs fun hok => absurd hok Bool.false_ne_true)

theorem chunks_ne (n : ℕ) {data : Bytes} (h : data ≠ []) : chunks n data.length data ≠ [] := by
  cases data with
  | nil => exact absurd rfl h
  | cons b rest => exact List.cons_ne_nil _ _

/-- A payload that was sent was accepted, if there was any. -/
theorem safe_sendWire {Q : TransportResult → Testimony → Prop} {wire : Bytes}
    (hQ : ∀ (r : TransportResult) (u : Testimony), u.fenced = v.fenced → u.state = v.state →
      (r.ok = true → wire ≠ [] → u.accepted = true) → Q r u) :
    Safe testimony Q (sendPaced j.profile .payload wire) v := by
  unfold sendPaced
  split_ifs
  · simp only [perform, safe_observe_call, safe_observe_ret]
    refine ⟨trivial, fun (r : TransportResult) => hQ r _ rfl rfl fun hr hw => ?_⟩
    have htaken : TransportResult.accepted r wire ≠ [] := by
      rw [TransportResult.accepted, if_pos hr]
      exact hw
    change (v.accepted || decide (TransportResult.accepted r wire ≠ [])) = true
    rw [decide_eq_true htaken, Bool.or_true]
  · exact safe_sendChunks _ 0 v (chunks_ne_nil _ _ _) rfl rfl fun r u hf hs hu =>
      hQ r u hf hs fun hr hw => hu hr (.inl (chunks_ne _ hw))

end Programs

/-! ### Stages -/

/-- What a stage leaves: the confidence is earned, and `P` if it goes on. -/
def Earned (P : Testimony → Prop) : Option ConfidenceLevel → Testimony → Prop
  | some c, v => (Claims c → v.fenced = true) ∧ P v
  | none, _ => True

/-- A byte of the payload was accepted. -/
def Taken (v : Testimony) : Prop := v.accepted = true

section Stages
variable {j : JobRun} {v : Testimony} {c : ConfidenceLevel} {P R : Testimony → Prop}

theorem earned_reached (h : Claims c → v.fenced = true) :
    Claims (j.reached c) → v.fenced = true := by
  intro hc
  refine h (le_trans hc ?_)
  rw [JobRun.reached, ConfidenceLevel.rank_clampTo]
  exact min_le_left _ _

theorem safe_failKnown {reason : FailureReason} {evidence : JobEvidence}
    (h : Claims c → v.fenced = true) :
    Safe testimony (Earned P) (j.failKnown reason c evidence) v :=
  Safe.bind (safe_terminate (earned_reached h) rfl (safe_observe_ret.mpr trivial))

theorem safe_failUnknown {reason : FailureReason} (h : Claims c → v.fenced = true) :
    Safe testimony (Earned P) (j.failUnknown reason c) v :=
  Safe.bind (safe_terminate (earned_reached h) rfl (safe_observe_ret.mpr trivial))

theorem safe_succeed {evidence : JobEvidence} (h : Claims c → v.fenced = true) :
    Safe testimony (Earned P) (j.succeed c evidence) v :=
  Safe.bind (safe_terminate h rfl (safe_observe_ret.mpr trivial))

theorem safe_next {stage : ConfidenceLevel → Prog Worker (Option ConfidenceLevel)}
    (hs : ∀ (c : ConfidenceLevel) (v : Testimony), (Claims c → v.fenced = true) → P v →
      Safe testimony (Earned R) (stage c) v) :
    ∀ {o : Option ConfidenceLevel} {v : Testimony}, Earned P o v →
      Safe testimony (Earned R) (JobRun.next stage o) v
  | some c, v, h => hs c v h.1 h.2
  | none, _, _ => safe_observe_ret.mpr trivial

theorem safe_uncaught {α : Type} {Q : α → Testimony → Prop} :
    Safe testimony Q (uncaught : Prog Worker α) v :=
  safe_observe_call.mpr ⟨trivial, fun e => e.elim⟩

/-- A signalled wait earns what is claimed next. -/
theorem safe_await {α : Type} {Q : α → Testimony → Prop} {part : Part} {w : Wait}
    {f : WaitOutcome → Prog Worker α} (hP : ∀ b, P v → P { v with fenced := b }) (hv : P v)
    (hf : ∀ (ack : WaitOutcome) (u : Testimony), (v.fenced = true → u.fenced = true) →
      (ack = .signalled → u.fenced = true) → P u → Safe testimony Q (f ack) u) :
    Safe testimony Q ((perform (E := Worker) (.await part w) : Prog Worker WaitOutcome) >>= f) v := by
  simp only [perform, call_bind, ret_bind, safe_observe_call]
  refine ⟨trivial, fun (ack : WaitOutcome) => hf ack _ (fun h => ?_) (fun h => ?_) (hP _ hv)⟩
  · change (v.fenced || decide (ack = WaitOutcome.signalled)) = true
    rw [h, Bool.true_or]
  · change (v.fenced || decide (ack = WaitOutcome.signalled)) = true
    rw [decide_eq_true h, Bool.or_true]

end Stages

/-! ### The ESC/POS engine -/

section Escpos
variable {j : JobRun} {v : Testimony} {c : ConfidenceLevel} {token : Bytes}

theorem not_claims_raise (h : Claims c → v.fenced = true) :
    Claims (c.raise .printerHealthy) → v.fenced = true := by
  intro hc
  refine h ?_
  unfold Claims at hc ⊢
  rw [ConfidenceLevel.rank_raise] at hc
  simp only [ConfidenceLevel.rank] at hc ⊢
  omega

theorem safe_preflight (h : Claims c → v.fenced = true) :
    Safe testimony (Earned fun _ => True) (j.preflight c) v := by
  unfold JobRun.preflight
  split_ifs
  · refine safe_aside trivial (fun _ => rfl) fun _ => ?_
    refine Safe.bind (safe_sendAside (by decide) fun sent => ?_)
    split_ifs
    · exact safe_failKnown h
    refine safe_aside trivial (fun _ => rfl) fun (outcome, answers) => ?_
    dsimp only
    split
    · exact safe_failKnown h
    refine safe_aside trivial (fun _ => rfl) fun _ => ?_
    split
    · exact safe_failKnown h
    split
    · exact safe_observe_ret.mpr ⟨h, trivial⟩
    · exact Safe.bind (safe_advance (earned_reached (not_claims_raise h))
        (safe_observe_ret.mpr ⟨not_claims_raise h, trivial⟩))
  · exact safe_observe_ret.mpr ⟨h, trivial⟩

theorem safe_sendPayload {wire : Bytes} (h : Claims c → v.fenced = true) :
    Safe testimony (Earned fun v => wire ≠ [] → Taken v) (j.sendPayload wire c) v := by
  refine Safe.bind (safe_advance (earned_reached h) ?_)
  refine Safe.bind (safe_sendWire fun sent u hf _ hu => ?_)
  have hc : Claims c → u.fenced = true := fun hc => hf.trans (h hc)
  split_ifs with hok hz
  · exact safe_observe_ret.mpr ⟨hc, hu hok⟩
  · exact safe_failKnown hc
  · exact safe_failUnknown hc

theorem safe_armPrintFence {Q : Part × Bytes → Testimony → Prop}
    (hQ : ∀ part fence, part ≠ .payload → Q (part, fence) v) :
    Safe testimony Q (j.armPrintFence token) v := by
  unfold JobRun.armPrintFence
  split
  · exact safe_aside trivial (fun _ => rfl) fun _ => safe_observe_ret.mpr (hQ _ _ (by decide))
  split
  · split
    · exact safe_observe_ret.mpr (hQ _ _ (by decide))
    · exact safe_uncaught
  · exact safe_aside trivial (fun _ => rfl) fun _ => safe_observe_ret.mpr (hQ _ _ (by decide))
  all_goals
    split_ifs
    · exact safe_observe_ret.mpr (hQ _ _ (by decide))
    · split
      · exact safe_observe_ret.mpr (hQ _ _ (by decide))
      · exact safe_uncaught

theorem safe_sendFence {Q : TransportResult → Testimony → Prop} {part : Part} {fence : Bytes}
    (hpart : part ≠ .payload) (hQ : ∀ r, Q r v) :
    Safe testimony Q (JobRun.sendFence j.profile part fence) v := by
  unfold JobRun.sendFence
  split_ifs
  · exact safe_observe_ret.mpr (hQ _)
  · exact safe_sendAside hpart hQ

/-- Without a fence nothing is claimed. -/
theorem not_claims_transport (ceiling : ConfidenceLevel) :
    ¬Claims (ConfidenceLevel.transportAccepted.clampTo ceiling) := by
  unfold Claims
  rw [ConfidenceLevel.rank_clampTo]
  simp only [ConfidenceLevel.rank]
  omega

theorem safe_sendPrintFence (h : Claims c → v.fenced = true) (ht : Taken v) :
    Safe testimony (Earned Taken) (j.sendPrintFence token c) v := by
  refine Safe.bind (safe_armPrintFence fun part fence hpart => ?_)
  refine Safe.bind (safe_sendFence hpart fun sent => ?_)
  split_ifs with hok hnone
  · exact safe_failUnknown h
  all_goals refine Safe.bind (safe_advance (earned_reached h) ?_)
  · exact safe_succeed fun hc => absurd hc (not_claims_transport _)
  · exact safe_observe_ret.mpr ⟨h, ht⟩

theorem safe_awaitPrintFence (h : Claims c → v.fenced = true) (ht : Taken v) :
    Safe testimony (Earned Taken) (j.awaitPrintFence token c) v := by
  refine safe_await (P := Taken) (fun _ h => h) ht fun ack u hkeep hack hu => ?_
  have hc : Claims c → u.fenced = true := fun hc => hkeep (h hc)
  split_ifs with hne hcut
  · exact safe_failUnknown hc
  all_goals
    have hf : u.fenced = true := hack (not_not.mp hne)
    refine Safe.bind (safe_advance (fun _ => hf) ?_)
  · exact safe_succeed fun _ => hf
  · exact safe_observe_ret.mpr ⟨fun _ => hf, hu⟩

theorem safe_armCut {Q : Bytes → Testimony → Prop} (hQ : ∀ wire, Q wire v) :
    Safe testimony Q (j.armCut token) v := by
  unfold JobRun.armCut
  split
  · exact safe_uncaught
  split
  · exact safe_aside trivial (fun _ => rfl) fun _ => safe_observe_ret.mpr (hQ _)
  · unfold JobRun.expectCutFence
    split_ifs
    · exact safe_aside trivial (fun _ => rfl) fun _ => safe_observe_ret.mpr (hQ _)
    · exact safe_observe_ret.mpr (hQ _)

theorem safe_sendCut (h : Claims c → v.fenced = true) (ht : Taken v) :
    Safe testimony (Earned fun v => v.fenced = true ∧ Taken v) (j.sendCut token c) v := by
  refine Safe.bind (safe_armCut fun wire => ?_)
  refine Safe.bind (safe_sendAside (by decide) fun sent => ?_)
  split
  · exact safe_failUnknown h
  refine safe_await (P := Taken) (fun _ h => h) ht fun ack u hkeep hack hu => ?_
  split
  · exact safe_failUnknown fun hc => hkeep (h hc)
  next hne =>
    have hf : u.fenced = true := hack (not_not.mp hne)
    refine Safe.bind (safe_advance (fun _ => hf) ?_)
    split_ifs
    · exact safe_succeed fun _ => hf
    · exact safe_observe_ret.mpr ⟨fun _ => hf, hf, hu⟩

/-- The cutter is asked of a job whose payload was accepted. -/
theorem safe_cutterStatus (hf : v.fenced = true) (ht : Taken v) :
    Safe testimony (Earned fun _ => True) (j.cutterStatus c) v := by
  refine safe_aside trivial (fun _ => rfl) fun _ => ?_
  refine safe_aside trivial (fun _ => rfl) fun _ => ?_
  refine Safe.bind (safe_sendAside (by decide) fun sent => ?_)
  have hread : Safe testimony (fun _ u => u = v) (JobRun.readCutterStatus sent) v := by
    unfold JobRun.readCutterStatus
    split_ifs
    · exact safe_aside ht (fun _ => rfl) fun _ => safe_observe_ret.mpr rfl
    · exact safe_observe_ret.mpr rfl
  refine Safe.bind (hread.mono ?_)
  rintro answers u rfl
  split_ifs
  · exact safe_failKnown fun _ => hf
  · exact safe_succeed fun _ => hf
  · exact safe_succeed fun _ => hf

theorem safe_leaseTokens {Q : Option MarkerPair → Testimony → Prop} (hQ : ∀ lease, Q lease v) :
    Safe testimony Q j.leaseTokens v := by
  unfold JobRun.leaseTokens
  split_ifs
  · exact safe_observe_ret.mpr (hQ none)
  · refine safe_aside trivial (fun _ => rfl) fun pair => ?_
    refine safe_aside trivial (fun _ => rfl) fun _ => ?_
    refine safe_aside trivial (fun _ => rfl) fun _ => ?_
    refine safe_aside trivial (fun _ => rfl) fun _ => ?_
    exact safe_observe_ret.mpr (hQ (some pair))

/-- A payload ends with the feed behind it. -/
theorem buildPayload_ne_nil {wire : Bytes} (h : j.buildPayload token = some wire) : wire ≠ [] := by
  obtain ⟨body, -, h⟩ := Option.bind_eq_some_iff.mp h
  obtain ⟨signed, -, h⟩ := Option.bind_eq_some_iff.mp h
  obtain rfl := Option.some.inj h
  exact List.append_ne_nil_of_right_ne_nil _ (List.cons_ne_nil _ _)

theorem safe_printStages {lease : Option MarkerPair} (h : Claims c → v.fenced = true) :
    Safe testimony (Earned fun _ => True) (j.printStages lease c) v := by
  unfold JobRun.printStages
  dsimp only
  cases hb : j.buildPayload ((lease.map MarkerPair.printToken).getD []) with
  | none => exact safe_uncaught
  | some wire =>
    refine Safe.bind ((safe_sendPayload h).mono fun o v ho => ?_)
    refine Safe.bind ((safe_next (fun c v h ht =>
      safe_sendPrintFence h (ht (buildPayload_ne_nil hb))) ho).mono fun o v ho => ?_)
    refine Safe.bind ((safe_next (fun c v h ht => safe_awaitPrintFence h ht) ho).mono
      fun o v ho => ?_)
    refine Safe.bind ((safe_next (fun c v h ht => safe_sendCut h ht) ho).mono fun o v ho => ?_)
    exact safe_next (fun c v _ ht => safe_cutterStatus ht.1 ht.2) ho

theorem safe_leased (h : Claims c → v.fenced = true) :
    Safe testimony (Earned fun _ => True) (j.leased c) v := by
  refine Safe.bind (safe_leaseTokens fun lease => ?_)
  refine Safe.bind ((safe_printStages h).mono fun o v ho => ?_)
  cases lease with
  | none => exact safe_observe_ret.mpr ho
  | some pair => exact safe_aside trivial (fun _ => rfl) fun _ => safe_observe_ret.mpr ho

theorem not_claims_begun : Claims .transportAccepted → v.fenced = true := by
  intro h
  exact absurd h (by decide)

theorem safe_runEscposJob : Safe testimony (Earned fun _ => True) j.runEscposJob v := by
  refine safe_aside trivial (fun _ => rfl) fun connected => ?_
  split
  · exact safe_failKnown not_claims_begun
  refine safe_aside trivial (fun _ => rfl) fun _ => safe_aside trivial (fun _ => rfl) fun _ => ?_
  refine Safe.bind ((safe_preflight not_claims_begun).mono fun o v ho => ?_)
  exact safe_next (fun c v h _ => safe_leased h) ho

end Escpos

/-! ### The Star engine -/

section Star
variable {j : JobRun} {v : Testimony} {c : ConfidenceLevel}

theorem safe_starPreamble (h : Claims c → v.fenced = true) :
    Safe testimony (Earned fun _ => True) (j.starPreamble c) v := by
  unfold JobRun.starPreamble
  split_ifs
  · refine Safe.bind (safe_sendAside (by decide) fun sent => ?_)
    split_ifs
    · exact safe_failKnown h
    · exact safe_aside trivial (fun _ => rfl) fun _ => safe_observe_ret.mpr ⟨h, trivial⟩
  · exact safe_observe_ret.mpr ⟨h, trivial⟩

theorem safe_sendStarPayload (h : Claims c → v.fenced = true) :
    Safe testimony (Earned fun _ => True) (j.sendStarPayload c) v := by
  unfold JobRun.sendStarPayload
  cases j.buildStarPayload with
  | none => exact safe_uncaught
  | some wire =>
    refine (safe_sendPayload h).mono fun o v ho => ?_
    cases o with
    | none => trivial
    | some c => exact ⟨ho.1, trivial⟩

theorem safe_starUnfenced (h : Claims c → v.fenced = true) :
    Safe testimony (Earned fun _ => True) (j.starUnfenced c) v := by
  have hcut : Safe testimony (fun _ u => u = v) j.sendStarCut v := by
    unfold JobRun.sendStarCut
    split_ifs
    · exact safe_observe_ret.mpr rfl
    · exact Safe.bind (safe_sendAside (by decide) fun _ => safe_observe_ret.mpr rfl)
  refine Safe.bind (hcut.mono ?_)
  rintro - u rfl
  refine Safe.bind (safe_advance (earned_reached h) ?_)
  exact safe_succeed fun hc => absurd hc (not_claims_transport _)

theorem safe_starPrintFence (h : Claims c → v.fenced = true) :
    Safe testimony (Earned fun _ => True) (j.starPrintFence c) v := by
  refine safe_aside trivial (fun _ => rfl) fun fence => ?_
  refine Safe.bind (safe_sendAside (by decide) fun sent => ?_)
  split
  · exact safe_failUnknown h
  refine Safe.bind (safe_advance (earned_reached h) ?_)
  refine safe_await (P := fun _ => True) (fun _ h => h) trivial fun ack u hkeep hack _ => ?_
  split
  · exact safe_failUnknown fun hc => hkeep (h hc)
  next hne =>
    have hf : u.fenced = true := hack (not_not.mp hne)
    refine Safe.bind (safe_advance (fun _ => hf) ?_)
    split_ifs
    · exact safe_succeed fun _ => hf
    · exact safe_observe_ret.mpr ⟨fun _ => hf, trivial⟩

theorem safe_starCutFence (h : Claims c → v.fenced = true) :
    Safe testimony (Earned fun _ => True) (j.starCutFence c) v := by
  refine safe_aside trivial (fun _ => rfl) fun fence => ?_
  refine Safe.bind (safe_sendAside (by decide) fun sent => ?_)
  split
  · exact safe_failUnknown h
  refine safe_await (P := fun _ => True) (fun _ h => h) trivial fun ack u hkeep hack _ => ?_
  split
  · exact safe_failUnknown fun hc => hkeep (h hc)
  next hne =>
    have hf : u.fenced = true := hack (not_not.mp hne)
    refine Safe.bind (safe_advance (fun _ => hf) ?_)
    exact safe_succeed fun _ => hf

theorem safe_runStarJob : Safe testimony (Earned fun _ => True) j.runStarJob v := by
  refine safe_aside trivial (fun _ => rfl) fun connected => ?_
  split
  · exact safe_failKnown not_claims_begun
  refine safe_aside trivial (fun _ => rfl) fun _ => safe_aside trivial (fun _ => rfl) fun _ => ?_
  refine Safe.bind ((safe_starPreamble not_claims_begun).mono fun o v ho => ?_)
  refine Safe.bind ((safe_next (fun c v h _ => safe_sendStarPayload h) ho).mono fun o v ho => ?_)
  split_ifs
  · exact safe_next (fun c v h _ => safe_starUnfenced h) ho
  · refine Safe.bind ((safe_next (fun c v h _ => safe_starPrintFence h) ho).mono
      fun o v ho => ?_)
    exact safe_next (fun c v h _ => safe_starCutFence h) ho

end Star

/-- **What a job says of itself**, whatever it did before. -/
theorem runJob_testimony {j : JobRun} {v : Testimony} :
    Safe testimony (fun _ _ => True) j.runJob v := by
  have hstages : Safe testimony (Earned fun _ => True) j.runStages v := by
    unfold JobRun.runStages
    split_ifs
    · exact safe_runEscposJob
    · exact safe_runStarJob
    · exact safe_failKnown not_claims_begun
  exact Safe.bind (hstages.mono fun _ _ _ => safe_observe_ret.mpr trivial)

end PrinterDriver.Engine.Testimonies
