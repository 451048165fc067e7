import PrinterDriver.Engine.Session

/-! # Quiet calls

The calls that leave the state under the io lock alone and record nothing that rests on an answer of
the printer: writes, publications, and the other records. What the device
makes of them aside, a stage that makes only quiet calls keeps every assertion. -/

namespace PrinterDriver.Engine.QuietCalls

open PrinterDriver.Lib.Programs PrinterDriver.Lib.Threads PrinterDriver.Core.Types
  PrinterDriver.Core.Profile PrinterDriver.Engine.Io PrinterDriver.Engine.Ops
  PrinterDriver.Engine.RunJob PrinterDriver.Engine.Session

open Prog

/-- The reasons that a real-time answer gives. -/
def isStatusReason : FailureReason → Bool
  | .preflightCoverOpen | .preflightPaperOut | .preflightHardwareError | .cutterFault => true
  | _ => false

/-- A record that rests on an answer: a confirmed fence, a healthy printer, a refusal or a fault, a
cutter without one. -/
def decides (state : JobState) (confidence : ConfidenceLevel) (reason : FailureReason) : Bool :=
  match state with
  | .printConfirmed | .cutCommandProcessed | .preflightOk => true
  | _ => isStatusReason reason || ConfidenceLevel.cutProcessed.rank < confidence.rank

/-- The calls that leave the state under the io lock alone. -/
def Local : Call → Prop
  | .ensureConnected | .io _ | .armStarFence _ _ | .await _ _ | .awaitRealtime _ _ => False
  | _ => True

/-- Of these, the ones that take no tokens and record nothing that rests on an answer. -/
def Quiet : Call → Prop
  | .ensureConnected | .io _ | .armStarFence _ _ | .await _ _ | .awaitRealtime _ _ => False
  | .acquireTokens | .releaseTokens _ => False
  | .recordState _ state confidence reason _ => decides state confidence reason = false
  | _ => True

theorem Quiet.isLocal {c : Call} (h : Quiet c) : Local c := by
  cases c <;> trivial

/-- A confidence that needs no status of the cutter. -/
abbrev Plain (c : ConfidenceLevel) : Prop := c.rank ≤ ConfidenceLevel.cutProcessed.rank

theorem plain_raise {c d : ConfidenceLevel} (hc : Plain c) (hd : Plain d) : Plain (c.raise d) := by
  unfold Plain
  rw [ConfidenceLevel.rank_raise]
  exact max_le hc hd

theorem plain_reached {j : JobRun} {c : ConfidenceLevel} (hc : Plain c) : Plain (j.reached c) := by
  unfold Plain JobRun.reached
  rw [ConfidenceLevel.rank_clampTo]
  exact le_trans (min_le_left _ _) hc

theorem decides_plain {state : JobState} {c : ConfidenceLevel} {r : FailureReason} (hc : Plain c)
    (hr : isStatusReason r = false)
    (hs : state ≠ .printConfirmed ∧ state ≠ .cutCommandProcessed ∧ state ≠ .preflightOk) :
    decides state c r = false := by
  cases state <;> simp_all [decides]

theorem serveIo_local {c : Call} (hc : Local c) {ch : Choice} {s io : IoState} {a : c.Answer}
    (h : serveIo c ch s = some (a, io)) : io = s := by
  cases c <;> cases ch <;> first | cases h; rfl | exact hc.elim | cases h

section Programs
variable {j : JobRun} {part : Part}

section Records
variable {S : Call → Prop} {id : Bytes} {state : JobState} {confidence : ConfidenceLevel}
  {reason : FailureReason} {evidence : JobEvidence} (he : ∀ id event, S (.emit id event))
include he

theorem advance_only (hr : S (.recordState id state confidence reason evidence)) :
    (advance id state confidence reason evidence).Only S :=
  ⟨hr, fun _ => ⟨he _ _, fun _ => trivial⟩⟩

variable (hf : ∀ id result, S (.finish id result))
include hf

theorem terminate_only {outcome : JobResult}
    (hr : S (.recordState id state outcome.confidence outcome.reason
      ⟨outcome.grade, outcome.authority, outcome.method⟩)) : (terminate id state outcome).Only S :=
  (advance_only he hr).bind fun _ => Only.perform (hf _ _)

end Records

section Writes
variable {S : Call → Prop} (h : ∀ data, S (.write part data))
include h

theorem sendChunks_only : ∀ (cs : List Bytes) (offset : ℕ), (sendChunks part cs offset).Only S
  | [], _ => trivial
  | c :: cs, offset => by
    refine ⟨h c, fun (r : TransportResult) => ?_⟩
    show (if r.ok then _ else _ : Prog Worker TransportResult).Only S
    split
    · exact sendChunks_only cs _
    · trivial

/-- Sending only writes. -/
theorem sendPaced_only {profile : CapabilityProfile} {data : Bytes} :
    (sendPaced profile part data).Only S := by
  unfold sendPaced
  split
  · exact Only.perform (h data)
  · exact sendChunks_only h _ _

end Writes

theorem sendPaced_quiet {profile : CapabilityProfile} {data : Bytes} :
    (sendPaced profile part data).Only Quiet := sendPaced_only fun _ => trivial

theorem advance_quiet {id : Bytes} {state : JobState} {confidence : ConfidenceLevel}
    {reason : FailureReason} {evidence : JobEvidence}
    (h : decides state confidence reason = false) :
    (advance id state confidence reason evidence).Only Quiet :=
  ⟨h, fun _ => ⟨trivial, fun _ => trivial⟩⟩

theorem terminate_quiet {id : Bytes} {state : JobState} {outcome : JobResult}
    (h : decides state outcome.confidence outcome.reason = false) :
    (terminate id state outcome).Only Quiet :=
  (advance_quiet h).bind fun _ => Only.perform trivial

section Exits
variable {reason : FailureReason} {c : ConfidenceLevel} {evidence : JobEvidence}
  (hc : Plain c)
include hc

theorem failKnown_quiet (hr : isStatusReason reason = false) :
    (j.failKnown reason c evidence).Only Quiet :=
  (terminate_quiet (decides_plain (plain_reached hc) hr (by simp))).bind fun _ => trivial

end Exits

theorem isStatusReason_waitReason (ack : WaitOutcome) :
    isStatusReason (JobRun.waitReason ack) = false := by
  unfold JobRun.waitReason
  split <;> rfl

theorem uncaught_quiet {α : Type} : (uncaught : Prog Worker α).Only Quiet :=
  ⟨trivial, fun e => Empty.elim e⟩

/-- The calls that record no state. -/
def Unrecorded : Call → Prop
  | .recordState _ _ _ _ _ => False
  | _ => True

theorem leaseTokens_only : j.leaseTokens.Only fun c => Local c ∧ Unrecorded c := by
  unfold JobRun.leaseTokens
  split
  · trivial
  · exact ⟨⟨trivial, trivial⟩, fun _ => ⟨⟨trivial, trivial⟩, fun _ => ⟨⟨trivial, trivial⟩,
      fun _ => ⟨⟨trivial, trivial⟩, fun _ => trivial⟩⟩⟩⟩

theorem releaseTokens_only {lease : Option MarkerPair} :
    (JobRun.releaseTokens lease).Only fun c => Local c ∧ Unrecorded c := by
  cases lease with
  | none => trivial
  | some pair => exact ⟨⟨trivial, trivial⟩, fun _ => trivial⟩

/-- The calls of a refresh. -/
def Asking : Call → Prop
  | .ensureConnected | .io _ | .write _ _ | .awaitRealtime _ _ => True
  | _ => False

theorem Asking.unrecorded {c : Call} (h : Asking c) : Unrecorded c := by
  cases c <;> trivial

/-- A refresh publishes and records nothing. -/
theorem refreshStatus_only {profile : CapabilityProfile} :
    (refreshStatus profile).Only Asking := by
  refine ⟨trivial, fun (connected : Bool) => ?_⟩
  show (if connected then _ else _ : Prog Worker Unit).Only Asking
  split
  · refine ⟨trivial, fun _ => ⟨trivial, fun _ => (sendPaced_only fun _ => trivial).bind fun sent => ?_⟩⟩
    refine Only.bind ?_ fun _ => Only.perform trivial
    unfold awaitRefresh
    split
    · exact ⟨trivial, fun _ => trivial⟩
    · trivial
  · trivial

end Programs

section Session
variable {δ : Type} {D : Device δ} {τ : Type} {program : τ → Prog Worker Unit} {G : (session D program).Guard}
  {C : Machine.Contract Worker Unit (State δ)} {P : State δ → Prop} {α : Type}

/-- The rule for programs of local calls that are all allowed. -/
theorem triple_local {p : Prog Worker α}
    (hp : p.Only fun c => Local c ∧ ∀ s, P s → C.allowed () c s)
    (hP : Stable (world D program G C) P)
    (hh : ∀ s c a, Local c → C.inv s → P s →
      P { s with device := D.hear s.task c a s.io s.device }) :
    Triple (world D program G C) P p fun _ => P :=
  triple_only hp hP (fun _ s hc => hc.2 s) fun s c ch a io hl hi _ hs h => by
    rw [serveIo_local hl.1 h]
    exact hh s c a hl.1 hi hs

/-- The rule for quiet programs. -/
theorem triple_quiet {p : Prog Worker α} (hp : p.Only Quiet)
    (hP : Stable (world D program G C) P) (hc : ∀ c s, Quiet c → P s → C.allowed () c s)
    (hh : ∀ s c a, Local c → C.inv s → P s →
      P { s with device := D.hear s.task c a s.io s.device }) :
    Triple (world D program G C) P p fun _ => P :=
  triple_local (hp.mono fun c hq => ⟨hq.isLocal, fun s => hc c s hq⟩) hP hh

end Session

/-! ### The outcome of a stage -/

section Stages
variable {σ : Type} {W : World Worker σ} {j : JobRun} {P R : σ → Prop}

/-- What quiet programs keep. -/
def Kept (W : World Worker σ) (P : σ → Prop) : Prop :=
  Stable W P ∧ ∀ {α : Type} {p : Prog Worker α}, p.Only Quiet → Triple W P p fun _ => P

/-- `R` when the job goes on, with a plain confidence; `P` when it is over. -/
def Onward (P R : σ → Prop) : Option ConfidenceLevel → σ → Prop
  | some c, s => Plain c ∧ R s
  | none, s => P s

theorem Onward.mono {P P' R R' : σ → Prop} (hP : ∀ s, P s → P' s) (hR : ∀ s, R s → R' s)
    (o : Option ConfidenceLevel) (s : σ) (h : Onward P R o s) : Onward P' R' o s := by
  cases o with
  | some c => exact ⟨h.1, hR s h.2⟩
  | none => exact hP s h

theorem Onward.ended {P : σ → Prop} (o : Option ConfidenceLevel) (s : σ) (h : Onward P P o s) :
    P s := by
  cases o with
  | some c => exact h.2
  | none => exact h

theorem triple_uncaught {α : Type} {Q : α → σ → Prop} (h : Kept W P) :
    Triple W P (uncaught : Prog Worker α) Q := fun s hs t ht =>
  ⟨(h.2 (p := (uncaught : Prog Worker Unit)) uncaught_quiet s hs t ht).1, fun e => Empty.elim e⟩

/-- A stage runs only when the one before it has not ended the job. -/
theorem triple_next {Q : Option ConfidenceLevel → σ → Prop}
    {stage : ConfidenceLevel → Prog Worker (Option ConfidenceLevel)} {o : Option ConfidenceLevel}
    (hs : ∀ c, Plain c → Triple W R (stage c) Q) (hP : Stable W P) (hQ : ∀ s, P s → Q none s) :
    Triple W (Onward P R o) (JobRun.next stage o) Q := by
  cases o with
  | some c => exact fun s h => hs c h.1 s h.2
  | none => exact Triple.ret hP hQ

section Exits
variable {reason : FailureReason} {c : ConfidenceLevel} {evidence : JobEvidence}

theorem triple_failUnknown (h : Kept W P) (hc : Plain c) (hr : isStatusReason reason = false) :
    Triple W P (j.failUnknown reason c) (Onward P R) :=
  Triple.bind (h.2 (terminate_quiet (decides_plain (plain_reached hc) hr (by simp)))) fun _ =>
    Triple.ret h.1 fun _ hs => hs

theorem triple_failKnown (h : Kept W P) (hc : Plain c) (hr : isStatusReason reason = false) :
    Triple W P (j.failKnown reason c evidence) (Onward P R) :=
  Triple.bind (h.2 (terminate_quiet (decides_plain (plain_reached hc) hr (by simp)))) fun _ =>
    Triple.ret h.1 fun _ hs => hs

theorem triple_succeed (h : Kept W P) (hc : Plain c) :
    Triple W P (j.succeed c evidence) (Onward P R) :=
  Triple.bind (h.2 (terminate_quiet (decides_plain hc rfl (by simp)))) fun _ =>
    Triple.ret h.1 fun _ hs => hs

theorem triple_sendPayload (h : Kept W P) {wire : Bytes} (hc : Plain c) :
    Triple W P (j.sendPayload wire c) (Onward P P) := by
  refine Triple.bind (h.2 (advance_quiet (decides_plain (plain_reached hc) rfl (by simp))))
    fun _ => Triple.bind (h.2 sendPaced_quiet) fun sent => ?_
  split
  · exact Triple.ret h.1 fun _ hs => ⟨hc, hs⟩
  · split
    · exact triple_failKnown h hc rfl
    · exact triple_failUnknown h hc rfl

theorem triple_sendStarPayload (h : Kept W P) (hc : Plain c) :
    Triple W P (j.sendStarPayload c) (Onward P P) := by
  unfold JobRun.sendStarPayload
  split
  · exact triple_uncaught h
  · exact triple_sendPayload h hc

end Exits

end Stages

end PrinterDriver.Engine.QuietCalls
