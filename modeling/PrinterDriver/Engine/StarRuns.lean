import PrinterDriver.Engine.QuietCalls

/-! # The outline of a Star job

What a proof about the fences of a Star job has to say: what holds when the job may arm a fence, what
holds while a fence is armed, and what its confirmation gives. `StarOutline.triple_runStarJob` is
the rest of the proof, which is the same for both kinds of Star fence. -/

namespace PrinterDriver.Engine.StarRuns

open PrinterDriver.Lib.Programs PrinterDriver.Core.Types PrinterDriver.Core.Profile
  PrinterDriver.Engine.Io PrinterDriver.Engine.Ops PrinterDriver.Engine.RunJob
  PrinterDriver.Engine.QuietCalls

open Prog

variable {σ : Type} {W : World Worker σ} {j : JobRun}

/-- The assertions of a Star job on a fenced profile and what its other calls make of them. -/
structure StarOutline (W : World Worker σ) (j : JobRun) (Idle Begun Ready : σ → Prop)
    (Armed Confirmed : Part → σ → Prop) : Prop where
  idle : Kept W Idle
  ready : Kept W Ready
  armed : ∀ part, Kept W (Armed part)
  connect : Triple W Idle (perform (E := Worker) .ensureConnected) fun _ => Idle
  begun : Triple W Idle (perform (E := Worker) (.io .beginJobIo)) fun _ => Begun
  enter : Triple W Begun
    (perform (E := Worker) (.io (.enterStarMode j.profile.star.asbBlockBytes))) fun _ => Ready
  zero : j.profile.completion = .starEtb →
    Triple W Ready (perform (E := Worker) (.io .zeroStarCounter)) fun _ => Ready
  arm : ∀ part, Triple W Ready
    (perform (E := Worker) (.armStarFence part j.profile.completion)) fun _ => Armed part
  await : ∀ part, Triple W (Armed part) (perform (E := Worker) (.await part .star))
    fun ack s => if ack = .signalled then Confirmed part s else Ready s
  printConfirmed : ∀ c, Plain c → Triple W (Confirmed .printFence)
    (advance j.id .printConfirmed c .none) fun _ => Ready
  cutConfirmed : ∀ c, Plain c → Triple W (Confirmed .cut)
    (advance j.id .cutCommandProcessed c .none) fun _ => Ready
  disarmed : ∀ part s, Armed part s → Idle s
  ends : ∀ s, Ready s → Idle s

namespace StarOutline

variable {Idle Begun Ready : σ → Prop} {Armed Confirmed : Part → σ → Prop}
  (O : StarOutline W j Idle Begun Ready Armed Confirmed)

include O

theorem triple_starPreamble {c : ConfidenceLevel} (hc : Plain c) :
    Triple W Ready (j.starPreamble c) (Onward Idle Ready) := by
  unfold JobRun.starPreamble
  split
  next he =>
    refine Triple.bind (O.ready.2 sendPaced_quiet) fun sent => ?_
    split
    · exact (triple_failKnown O.idle hc rfl).pre O.ends
    · exact Triple.bind (O.zero he) fun _ => Triple.ret O.ready.1 fun _ h => ⟨hc, h⟩
  · exact Triple.ret O.ready.1 fun _ h => ⟨hc, h⟩

/-- An unsignalled wait ends the job; a signalled one goes on from what it confirms. -/
theorem triple_await {part : Part} {p : Prog Worker (Option ConfidenceLevel)}
    {c : ConfidenceLevel} (hc : Plain c)
    (hp : Triple W (Confirmed part) p (Onward Idle Ready)) :
    Triple W (Armed part)
      ((perform (E := Worker) (.await part .star) : Prog Worker WaitOutcome) >>= fun ack =>
        if ack ≠ .signalled then j.failUnknown (JobRun.waitReason ack) c else p)
      (Onward Idle Ready) := by
  refine Triple.bind (O.await part) fun ack => ?_
  by_cases h : ack = .signalled
  · simpa only [h, if_true, ne_eq, not_true_eq_false, if_false] using hp
  · simp only [h, ne_eq, not_false_eq_true, if_true, if_false]
    exact (triple_failUnknown O.idle hc (isStatusReason_waitReason _)).pre O.ends

theorem triple_starPrintFence {c : ConfidenceLevel} (hc : Plain c) :
    Triple W Ready (j.starPrintFence c) (Onward Idle Ready) := by
  have hconf : Plain (c.raise .printConfirmed) := plain_raise hc (by decide)
  refine Triple.bind (O.arm .printFence) fun fence => ?_
  refine Triple.bind ((O.armed .printFence).2 sendPaced_quiet) fun sent => ?_
  split
  · exact (triple_failUnknown O.idle hc rfl).pre fun _ => O.disarmed _ _
  · refine Triple.bind ((O.armed _).2 (advance_quiet
      (decides_plain (plain_reached hc) rfl (by simp)))) fun _ => O.triple_await hc ?_
    refine Triple.bind (O.printConfirmed _ (plain_reached hconf)) fun _ => ?_
    split
    · exact (triple_succeed O.idle (plain_reached hconf)).pre O.ends
    · exact Triple.ret O.ready.1 fun _ h => ⟨hconf, h⟩

theorem triple_starCutFence {c : ConfidenceLevel} (hc : Plain c) :
    Triple W Ready (j.starCutFence c) (Onward Idle Ready) := by
  have hconf : Plain (c.raise .cutProcessed) := plain_raise hc (by decide)
  refine Triple.bind (O.arm .cut) fun fence => ?_
  refine Triple.bind ((O.armed .cut).2 sendPaced_quiet) fun sent => ?_
  split
  · exact (triple_failUnknown O.idle hc rfl).pre fun _ => O.disarmed _ _
  · refine O.triple_await hc (Triple.bind (O.cutConfirmed _ (plain_reached hconf)) fun _ => ?_)
    exact (triple_succeed O.idle (plain_reached hconf)).pre O.ends

theorem triple_starUnfenced {c : ConfidenceLevel} (hc : Plain c) :
    Triple W Ready (j.starUnfenced c) (Onward Idle Ready) := by
  have hcut : Triple W Ready j.sendStarCut fun _ => Ready := by
    unfold JobRun.sendStarCut
    split
    · exact Triple.ret O.ready.1 fun _ h => h
    · exact Triple.bind (O.ready.2 sendPaced_quiet) fun _ => Triple.ret O.ready.1 fun _ h => h
  refine Triple.bind hcut fun _ => ?_
  refine Triple.bind (O.ready.2 (advance_quiet (decides_plain (plain_reached hc) rfl (by simp))))
    fun _ => ?_
  exact (triple_succeed O.idle (plain_reached (by decide))).pre O.ends

/-- **A Star job under the outline.** -/
theorem triple_runStarJob : Triple W Idle j.runStarJob fun _ => Idle := by
  have hstop : ∀ s, Idle s → Onward Idle Ready none s := fun _ h => h
  have hplain : Plain .transportAccepted := by decide
  have hdone : ∀ o s, Onward Idle Ready o s → Idle s :=
    fun o s h => (h.mono (fun _ h => h) O.ends).ended
  refine Triple.bind O.connect fun up => ?_
  split
  · exact (triple_failKnown (R := Idle) O.idle hplain rfl).conseq (fun _ h => h) Onward.ended
  · refine Triple.bind O.begun fun _ => Triple.bind O.enter fun _ => ?_
    refine Triple.bind (O.triple_starPreamble hplain) fun c => ?_
    refine Triple.bind (triple_next (fun c hc => ?_) O.idle.1 hstop) fun c => ?_
    · exact (triple_sendStarPayload O.ready hc).conseq (fun _ h => h)
        (Onward.mono O.ends fun _ h => h)
    · split
      · exact (triple_next (fun c => O.triple_starUnfenced) O.idle.1 hstop).conseq (fun _ h => h)
          hdone
      · refine Triple.bind (triple_next (fun c => O.triple_starPrintFence) O.idle.1 hstop)
          fun c => ?_
        exact (triple_next (fun c => O.triple_starCutFence) O.idle.1 hstop).conseq (fun _ h => h)
          hdone

/-- The whole job, also when the driver refuses it. -/
theorem triple_runJob (h : (j.profile.drivableByEscposEngine || j.custom.isSome) = false) :
    Triple W Idle j.runJob fun _ => Idle := by
  unfold JobRun.runJob JobRun.runStages
  rw [if_neg (by simp [h])]
  refine Triple.bind (R := fun _ => Idle) ?_ fun _ => Triple.ret O.idle.1 fun _ h => h
  split
  · exact O.triple_runStarJob
  · exact O.idle.2 (failKnown_quiet (by decide) rfl)

end StarOutline

/-- The ESC/POS engine speaks no Star fence. -/
theorem not_escpos_of_star
    (hc : j.profile.completion = .starEtb ∨ j.profile.completion = .starEscGsEtx) :
    (j.profile.drivableByEscposEngine || j.custom.isSome) = false := by
  rcases hc with h | h <;>
    simp [CapabilityProfile.drivableByEscposEngine, isDrivableByEscposEngine, JobRun.custom, h]

end PrinterDriver.Engine.StarRuns
