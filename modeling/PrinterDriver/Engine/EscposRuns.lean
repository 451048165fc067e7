import PrinterDriver.Engine.QuietCalls

/-! # The outline of an ESC/POS job

What a proof about the answers an ESC/POS job waits for has to say: what holds while it may ask
(`Ready`, and `Held` under the tokens it leased), while real-time status is expected and after it was read, and
while a fence is armed and after it is confirmed. `EscposOutline.triple_runEscposJob` is the rest
of the proof. -/

namespace PrinterDriver.Engine.EscposRuns

open PrinterDriver.Lib.Programs PrinterDriver.Core.Types PrinterDriver.Core.Profile
  PrinterDriver.Core.EscposParser PrinterDriver.Core PrinterDriver.Core.Encoder
  PrinterDriver.Engine.Io PrinterDriver.Engine.Ops PrinterDriver.Engine.RunJob
  PrinterDriver.Engine.QuietCalls

open Prog

variable {σ : Type} {W : World Worker σ} {j : JobRun}

def printToken (lease : Option MarkerPair) : Bytes := (lease.map MarkerPair.printToken).getD []

def cutToken (lease : Option MarkerPair) : Bytes := (lease.map MarkerPair.cutToken).getD []

/-! ### Arming a fence

Where an assertion does not look at what is expected, arming a fence of any mechanism keeps it. -/

section Arming
variable {P : σ → Prop} (hP : Kept W P) {token : Bytes}
  (hcustom : ∀ part, Triple W P (perform (E := Worker) (.io (.armCustomFence part))) fun _ => P)
  (hqueued : ∀ part, Triple W P (perform (E := Worker) (.io (.expectQueued part))) fun _ => P)
include hP hcustom hqueued

theorem triple_armPrintFence (hj : (j.profile.drivableByEscposEngine || j.custom.isSome) = true) :
    Triple W P (j.armPrintFence token)
      fun x s => P s ∧ (j.profile.completion ≠ .none → x.1 = .printFence) := by
  have hret : ∀ x : Part × Bytes, (j.profile.completion ≠ .none → x.1 = .printFence) →
      Triple W P (pure x) fun x s => P s ∧ (j.profile.completion ≠ .none → x.1 = .printFence) :=
    fun x hx => Triple.ret hP.1 fun _ h => ⟨h, hx⟩
  unfold JobRun.armPrintFence
  cases hc : j.custom with
  | some m => exact Triple.bind (hcustom _) fun _ => hret _ fun _ => rfl
  | none =>
    have hescpos : isDrivableByEscposEngine j.profile.completion = true := by
      simp only [hc, Option.isSome_none, Bool.or_false,
        CapabilityProfile.drivableByEscposEngine, Bool.and_eq_true] at hj
      exact hj.2
    dsimp only
    split
    · split
      · exact hret _ fun _ => rfl
      · exact triple_uncaught hP
    · exact Triple.bind (hqueued _) fun _ => hret _ fun _ => rfl
    next h => rw [h] at hescpos; cases hescpos
    next h => rw [h] at hescpos; cases hescpos
    next h => rw [h] at hescpos; cases hescpos
    next h => rw [h] at hescpos; cases hescpos
    next h => rw [h] at hescpos; cases hescpos
    next h =>
      split
      · exact hret _ fun hn => absurd h hn
      · split
        · exact hret _ fun hn => absurd h hn
        · exact triple_uncaught hP

theorem triple_armCut : Triple W P (j.armCut token) fun _ => P := by
  unfold JobRun.armCut JobRun.expectCutFence
  split
  · exact triple_uncaught hP
  · split
    · exact Triple.bind (hcustom _) fun _ => Triple.ret hP.1 fun _ h => h
    · refine Triple.bind (R := fun _ => P) ?_ fun _ => Triple.ret hP.1 fun _ h => h
      split
      · exact hqueued _
      · exact Triple.ret hP.1 fun _ h => h

end Arming

/-! ### The outline -/

/-- The assertions of an outline. `Over` is what is left of a lease when the job has ended. -/
structure Assertions (σ : Type) where
  Idle : σ → Prop
  Begun : σ → Prop
  Ready : σ → Prop
  Held : Option MarkerPair → σ → Prop
  Over : Option MarkerPair → σ → Prop
  Asked : Part → Option MarkerPair → σ → Prop
  Read : Part → Option MarkerPair → List ParsedEvent → σ → Prop
  Cleared : List ParsedEvent → σ → Prop
  Armed : Part → Option MarkerPair → σ → Prop
  Confirmed : Part → Option MarkerPair → σ → Prop

/-- What the calls of an ESC/POS job make of the assertions. -/
structure EscposOutline (W : World Worker σ) (j : JobRun) (A : Assertions σ) : Prop where
  idle : Kept W A.Idle
  ready : Kept W A.Ready
  held : ∀ lease, Kept W (A.Held lease)
  ends : ∀ lease, Kept W (A.Over lease)
  asked : ∀ part lease, part ≠ .refresh → Kept W (A.Asked part lease)
  read : ∀ part lease answers, Kept W (A.Read part lease answers)
  cleared : ∀ answers, Kept W (A.Cleared answers)
  armed : ∀ part lease, Kept W (A.Armed part lease)
  connect : Triple W A.Idle (perform (E := Worker) .ensureConnected) fun _ => A.Idle
  begun : Triple W A.Idle (perform (E := Worker) (.io .beginJobIo)) fun _ => A.Begun
  custom : Triple W A.Begun
    (perform (E := Worker) (.io (.setCustomMethod j.custom))) fun _ => A.Ready
  askPreflight : Triple W A.Ready
    (perform (E := Worker) (.io (.expectRealtime .preflight JobRun.kPreflightKinds)))
    fun _ => A.Asked .preflight none
  readPreflight : Triple W (A.Asked .preflight none)
    (perform (E := Worker) (.awaitRealtime .preflight 4)) fun r => A.Read .preflight none r.2
  clearPreflight : ∀ answers, Triple W (A.Read .preflight none answers)
    (perform (E := Worker) (.io .clearRealtime)) fun _ => A.Cleared answers
  refuse : ∀ answers reason c, Plain c →
    JobRun.refusal (JobRun.mergeAnswers answers) = some reason →
    Triple W (A.Cleared answers) (terminate j.id .failedKnown
      ((JobResult.failed reason (j.reached c)).attested statusEvidence)) fun _ => A.Idle
  healthy : ∀ answers c, Plain c → answers ≠ [] →
    JobRun.refusal (JobRun.mergeAnswers answers) = none →
    Triple W (A.Cleared answers) (advance j.id .preflightOk c .none) fun _ => A.Ready
  unread : ∀ s, A.Cleared [] s → A.Ready s
  lease : Triple W A.Ready j.leaseTokens A.Held
  release : ∀ lease, Triple W (A.Over lease) (JobRun.releaseTokens lease) fun _ => A.Idle
  armPrint : ∀ lease, Triple W (A.Held lease) (j.armPrintFence (printToken lease))
    fun x s => A.Armed x.1 lease s ∧ (j.profile.completion ≠ .none → x.1 = .printFence)
  awaitPrint : ∀ lease, Triple W (A.Armed .printFence lease)
    (perform (E := Worker) (.await .printFence (j.fenceWait (printToken lease))))
    fun ack s => if ack = .signalled then A.Confirmed .printFence lease s else A.Over lease s
  printConfirmed : ∀ lease c, Plain c → Triple W (A.Confirmed .printFence lease)
    (advance j.id .printConfirmed c .none) fun _ => A.Held lease
  armCut : ∀ lease, Triple W (A.Held lease) (j.armCut (cutToken lease)) fun _ => A.Armed .cut lease
  awaitCut : ∀ lease, Triple W (A.Armed .cut lease)
    (perform (E := Worker) (.await .cut (j.fenceWait (cutToken lease))))
    fun ack s => if ack = .signalled then A.Confirmed .cut lease s else A.Over lease s
  cutConfirmed : ∀ lease c, Plain c → Triple W (A.Confirmed .cut lease)
    (advance j.id .cutCommandProcessed c .none) fun _ => A.Held lease
  clearCutter : ∀ lease, Triple W (A.Held lease)
    (perform (E := Worker) (.io .clearRealtime)) fun _ => A.Held lease
  askCutter : ∀ lease, Triple W (A.Held lease)
    (perform (E := Worker) (.io (.expectRealtime .cutterStatus [.errorCause])))
    fun _ => A.Asked .cutterStatus lease
  readCutter : ∀ lease, Triple W (A.Asked .cutterStatus lease)
    (perform (E := Worker) (.awaitRealtime .cutterStatus 1))
    fun r => A.Read .cutterStatus lease r.2
  unasked : ∀ lease s, A.Asked .cutterStatus lease s → A.Read .cutterStatus lease [] s
  fault : ∀ lease answers c, Plain c →
    (answers.any fun answer => answer.flags.cutterError.getD false) = true →
    Triple W (A.Read .cutterStatus lease answers) (terminate j.id .failedKnown
      ((JobResult.failed .cutterFault (j.reached c)).attested statusEvidence))
      fun _ => A.Over lease
  faultFree : ∀ lease answers (c : ConfidenceLevel), answers ≠ [] →
    (answers.any fun answer => answer.flags.cutterError.getD false) = false →
    Triple W (A.Read .cutterStatus lease answers) (terminate j.id .doneSoftware
      ((JobResult.done (j.reached (c.raise .cutFaultFree))).attested j.profile.evidence))
      fun _ => A.Over lease
  overIdle : ∀ s, A.Over none s → A.Idle s
  heldOver : ∀ lease s, A.Held lease s → A.Over lease s
  askedOver : ∀ part lease s, A.Asked part lease s → A.Over lease s
  readOver : ∀ part lease answers s, A.Read part lease answers s → A.Over lease s
  armedOver : ∀ part lease s, A.Armed part lease s → A.Over lease s

namespace EscposOutline

variable {A : Assertions σ} (O : EscposOutline W j A)

include O

theorem triple_preflight {c : ConfidenceLevel} (hc : Plain c) :
    Triple W A.Ready (j.preflight c) (Onward A.Idle A.Ready) := by
  unfold JobRun.preflight
  split
  · refine Triple.bind O.askPreflight fun _ => ?_
    refine Triple.bind ((O.asked .preflight none (by decide)).2 sendPaced_quiet) fun sent => ?_
    split
    · exact (triple_failKnown O.idle hc rfl).pre fun s h => O.overIdle s (O.askedOver _ _ s h)
    · refine Triple.bind O.readPreflight fun ⟨outcome, answers⟩ => ?_
      dsimp only
      split
      · exact (triple_failKnown O.idle hc rfl).pre fun s h =>
          O.overIdle s (O.readOver _ _ _ s h)
      · refine Triple.bind (O.clearPreflight answers) fun _ => ?_
        split
        next reason hr =>
          exact Triple.bind (O.refuse answers reason c hc hr) fun _ => Triple.ret O.idle.1 fun _ h => h
        next hr =>
          split
          next ha =>
            subst ha
            exact Triple.ret (O.cleared _).1 fun s h => ⟨hc, O.unread s h⟩
          next ha =>
            have hraise := plain_raise hc (d := .printerHealthy) (by decide)
            refine Triple.bind (O.healthy answers _ (plain_reached hraise) ha hr) fun _ => ?_
            exact Triple.ret O.ready.1 fun _ h => ⟨hraise, h⟩
  · exact Triple.ret O.ready.1 fun _ h => ⟨hc, h⟩

variable {lease : Option MarkerPair}

theorem triple_sendPrintFence {c : ConfidenceLevel} (hc : Plain c) :
    Triple W (A.Held lease) (j.sendPrintFence (printToken lease) c)
      (Onward (A.Over lease) (A.Armed .printFence lease)) := by
  refine Triple.bind (O.armPrint lease) fun ⟨part, fence⟩ => ?_
  by_cases hp : j.profile.completion ≠ .none → part = .printFence
  · have hsend : Triple W (A.Armed part lease) (JobRun.sendFence j.profile part fence)
        fun _ => A.Armed part lease := by
      unfold JobRun.sendFence
      split
      · exact Triple.ret (O.armed _ _).1 fun _ h => h
      · exact (O.armed _ _).2 sendPaced_quiet
    refine (Triple.bind hsend fun sent => ?_).pre fun _ h => h.1
    split
    · exact (triple_failUnknown (O.ends lease) hc rfl).pre (O.armedOver _ _)
    · refine Triple.bind ((O.armed _ _).2 (advance_quiet
        (decides_plain (plain_reached hc) rfl (by simp)))) fun _ => ?_
      split
      · exact (triple_succeed (O.ends lease) (plain_reached (by decide))).pre (O.armedOver _ _)
      next hn =>
        obtain rfl := hp hn
        exact Triple.ret (O.armed _ _).1 fun _ h => ⟨hc, h⟩
  · exact Triple.absurd fun s h => hp h.2

/-- An unsignalled wait ends the job; a signalled one goes on from what it confirms. -/
theorem triple_await {part : Part} {w : Wait} {p : Prog Worker (Option ConfidenceLevel)}
    {c : ConfidenceLevel} {R : σ → Prop} (hc : Plain c)
    (hw : Triple W (A.Armed part lease) (perform (E := Worker) (.await part w))
      fun ack s => if ack = .signalled then A.Confirmed part lease s else A.Over lease s)
    (hp : Triple W (A.Confirmed part lease) p (Onward (A.Over lease) R)) :
    Triple W (A.Armed part lease)
      ((perform (E := Worker) (.await part w) : Prog Worker WaitOutcome) >>= fun ack =>
        if ack ≠ .signalled then j.failUnknown (JobRun.waitReason ack) c else p)
      (Onward (A.Over lease) R) := by
  refine Triple.bind hw fun ack => ?_
  by_cases h : ack = .signalled
  · simpa only [h, if_true, ne_eq, not_true_eq_false, if_false] using hp
  · simp only [h, ne_eq, not_false_eq_true, if_true, if_false]
    exact triple_failUnknown (O.ends lease) hc (isStatusReason_waitReason _)

theorem triple_awaitPrintFence {c : ConfidenceLevel} (hc : Plain c) :
    Triple W (A.Armed .printFence lease) (j.awaitPrintFence (printToken lease) c)
      (Onward (A.Over lease) (A.Held lease)) := by
  have hconf : Plain (c.raise .printConfirmed) := plain_raise hc (by decide)
  refine O.triple_await hc (O.awaitPrint lease)
    (Triple.bind (O.printConfirmed lease _ (plain_reached hconf)) fun _ => ?_)
  split
  · exact (triple_succeed (O.ends lease) (plain_reached hconf)).pre (O.heldOver _)
  · exact Triple.ret (O.held lease).1 fun _ h => ⟨hconf, h⟩

theorem triple_sendCut {c : ConfidenceLevel} (hc : Plain c) :
    Triple W (A.Held lease) (j.sendCut (cutToken lease) c)
      (Onward (A.Over lease) (A.Held lease)) := by
  have hconf : Plain (c.raise .cutProcessed) := plain_raise hc (by decide)
  refine Triple.bind (O.armCut lease) fun wire => ?_
  refine Triple.bind ((O.armed .cut lease).2 sendPaced_quiet) fun sent => ?_
  split
  · exact (triple_failUnknown (O.ends lease) hc rfl).pre (O.armedOver _ _)
  · refine O.triple_await hc (O.awaitCut lease)
      (Triple.bind (O.cutConfirmed lease _ (plain_reached hconf)) fun _ => ?_)
    split
    · exact (triple_succeed (O.ends lease) (plain_reached hconf)).pre (O.heldOver _)
    · exact Triple.ret (O.held lease).1 fun _ h => ⟨hconf, h⟩

theorem triple_readCutterStatus {sent : TransportResult} :
    Triple W (A.Asked .cutterStatus lease) (JobRun.readCutterStatus sent)
      (A.Read .cutterStatus lease) := by
  unfold JobRun.readCutterStatus
  split
  · exact Triple.bind (O.readCutter lease) fun ⟨_, answers⟩ =>
      Triple.ret (O.read _ _ answers).1 fun _ h => h
  · exact Triple.ret (O.asked _ _ (by decide)).1 (O.unasked lease)

theorem triple_cutterStatus {c : ConfidenceLevel} (hc : Plain c) :
    Triple W (A.Held lease) (j.cutterStatus c) (Onward (A.Over lease) (A.Held lease)) := by
  refine Triple.bind (O.clearCutter lease) fun _ => Triple.bind (O.askCutter lease) fun _ => ?_
  refine Triple.bind ((O.asked _ _ (by decide)).2 sendPaced_quiet) fun sent => ?_
  refine Triple.bind O.triple_readCutterStatus fun answers => ?_
  split
  next ha =>
    exact Triple.bind (O.fault lease answers c hc ha) fun _ =>
      Triple.ret (O.ends lease).1 fun _ h => h
  next ha =>
    by_cases hn : answers = []
    · simp only [hn, if_true]
      exact (triple_succeed (O.ends lease) (plain_reached hc)).pre (O.readOver _ _ _)
    · simp only [hn, if_false]
      exact Triple.bind (O.faultFree lease answers c hn (by simpa using ha)) fun _ =>
        Triple.ret (O.ends lease).1 fun _ h => h

theorem triple_printStages {c : ConfidenceLevel} (hc : Plain c) :
    Triple W (A.Held lease) (j.printStages lease c) fun _ => A.Over lease := by
  have hstop : ∀ {R : σ → Prop} s, A.Over lease s → Onward (A.Over lease) R none s :=
    fun _ h => h
  unfold JobRun.printStages
  dsimp only
  split
  · exact triple_uncaught (O.held lease)
  · refine Triple.bind ((triple_sendPayload (O.held lease) hc).conseq (fun _ h => h)
      (Onward.mono (O.heldOver lease) fun _ h => h)) fun c => ?_
    refine Triple.bind (triple_next (fun c => O.triple_sendPrintFence) (O.ends lease).1 hstop)
      fun c => ?_
    refine Triple.bind (triple_next (fun c => O.triple_awaitPrintFence) (O.ends lease).1 hstop)
      fun c => ?_
    refine Triple.bind (triple_next (fun c => O.triple_sendCut) (O.ends lease).1 hstop)
      fun c => ?_
    exact (triple_next (fun c => O.triple_cutterStatus) (O.ends lease).1 hstop).conseq
      (fun _ h => h) fun o s h => (h.mono (fun _ h => h) (O.heldOver lease)).ended

theorem triple_leased {c : ConfidenceLevel} (hc : Plain c) :
    Triple W A.Ready (j.leased c) fun _ => A.Idle := by
  refine Triple.bind O.lease fun lease => ?_
  refine Triple.bind (O.triple_printStages hc) fun c => ?_
  exact Triple.bind (O.release lease) fun _ => Triple.ret O.idle.1 fun _ h => h

/-- **An ESC/POS job under the outline.** -/
theorem triple_runEscposJob : Triple W A.Idle j.runEscposJob fun _ => A.Idle := by
  have hplain : Plain .transportAccepted := by decide
  refine Triple.bind O.connect fun up => ?_
  split
  · exact (triple_failKnown (R := A.Idle) O.idle hplain rfl).conseq (fun _ h => h) Onward.ended
  · refine Triple.bind O.begun fun _ => Triple.bind O.custom fun _ => ?_
    refine Triple.bind (O.triple_preflight hplain) fun c => ?_
    exact triple_next (fun c => O.triple_leased) O.idle.1 fun _ h => h

end EscposOutline

end PrinterDriver.Engine.EscposRuns
