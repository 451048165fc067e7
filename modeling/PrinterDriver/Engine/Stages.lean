import PrinterDriver.Engine.QuietCalls

/-! # The calls inside the stages

Between the lease of a job's tokens and their release, and in a job that leases none, a stage makes
no call about tokens; it throws only where the bytes that it sends cannot be built. -/

namespace PrinterDriver.Engine.Stages

open PrinterDriver.Lib.Programs PrinterDriver.Core.Types PrinterDriver.Core.Profile
  PrinterDriver.Core.EscposParser PrinterDriver.Core.Encoder PrinterDriver.Engine.Io
  PrinterDriver.Engine.Ops PrinterDriver.Engine.RunJob PrinterDriver.Engine.QuietCalls

open Prog

/-- The calls that are not about tokens; `u` says whether an exception is one of them. -/
def Inner (u : Prop) : Call → Prop
  | .uncaught => u
  | .acquireTokens | .setTokens _ _ | .recordTokens _ _ | .registerTokens _ _
  | .releaseTokens _ => False
  | _ => True

/-- The reasons a preflight refuses a job with. -/
def isRefusal : FailureReason → Bool
  | .preflightCoverOpen | .preflightPaperOut | .preflightHardwareError => true
  | _ => false

/-- Of these, the ones behind the preflight: its answers are not awaited again, and nothing is
recorded with one of its reasons. -/
def Later (u : Prop) : Call → Prop
  | .uncaught => u
  | .acquireTokens | .setTokens _ _ | .recordTokens _ _ | .registerTokens _ _
  | .releaseTokens _ => False
  | .awaitRealtime part _ => part ≠ .preflight
  | .recordState _ _ _ reason _ => isRefusal reason = false
  | _ => True

theorem Later.inner {u : Prop} (call : Call) (h : Later u call) : Inner u call := by
  cases call <;> first | exact h | trivial

variable {u : Prop} {j : JobRun} {c : ConfidenceLevel} {token : Bytes}

/-- The fence of a cut fails only on a token that is no token. -/
theorem buildCut_isSome {token : Bytes}
    (h : j.profile.completion = .gsParenH → isValidProcessIdToken token = true) :
    ∃ wire, j.buildCut token = some wire := by
  unfold JobRun.buildCut
  dsimp only
  split
  next hp => simp [EscposEncoder.processId, processIdMarker, h hp]
  all_goals exact ⟨_, rfl⟩



theorem uncaught_later {α : Type} (h : u) : (uncaught : Prog Worker α).Only (Later u) :=
  ⟨h, fun e => Empty.elim e⟩

theorem failKnown_later {reason : FailureReason} {evidence : JobEvidence}
    (h : isRefusal reason = false) : (j.failKnown reason c evidence).Only (Later u) := by
  refine Only.bind (terminate_only ?_ ?_ ?_) fun _ => trivial
  exacts [fun _ _ => trivial, fun _ _ => trivial, h]

theorem failKnown_inner {reason : FailureReason} {evidence : JobEvidence} :
    (j.failKnown reason c evidence).Only (Inner u) :=
  (terminate_only (fun _ _ => trivial) (fun _ _ => trivial) trivial).bind fun _ => trivial

theorem failUnknown_later {reason : FailureReason} (h : isRefusal reason = false) :
    (j.failUnknown reason c).Only (Later u) := by
  refine Only.bind (terminate_only ?_ ?_ ?_) fun _ => trivial
  exacts [fun _ _ => trivial, fun _ _ => trivial, h]

theorem isRefusal_waitReason (ack : WaitOutcome) : isRefusal (JobRun.waitReason ack) = false := by
  unfold JobRun.waitReason
  split <;> rfl

theorem succeed_later {evidence : JobEvidence} : (j.succeed c evidence).Only (Later u) := by
  refine Only.bind (terminate_only ?_ ?_ ?_) fun _ => trivial
  exacts [fun _ _ => trivial, fun _ _ => trivial, rfl]

theorem advance_later {state : JobState} : (advance j.id state c .none).Only (Later u) :=
  advance_only (S := Later u) (fun _ _ => trivial) rfl

theorem sendPaced_later {part : Part} {data : Bytes} :
    (sendPaced j.profile part data).Only (Later u) := sendPaced_only fun _ => trivial

theorem next_later {stage : ConfidenceLevel → Prog Worker (Option ConfidenceLevel)}
    (h : ∀ c, (stage c).Only (Later u)) : ∀ c, (JobRun.next stage c).Only (Later u)
  | some c => h c
  | none => trivial

theorem preflight_inner : (j.preflight c).Only (Inner u) := by
  unfold JobRun.preflight
  split
  · refine Only.bind (Only.perform trivial) fun _ => ?_
    refine Only.bind (sendPaced_only fun _ => trivial) fun sent => ?_
    split
    · exact failKnown_inner
    · refine Only.bind (Only.perform trivial) fun ⟨outcome, answers⟩ => ?_
      dsimp only
      split
      · exact failKnown_inner
      · refine Only.bind (Only.perform trivial) fun _ => ?_
        split
        · exact failKnown_inner
        · split
          · trivial
          · exact (advance_only (fun _ _ => trivial) trivial).bind fun _ => trivial
  · trivial

theorem sendPayload_later {wire : Bytes} : (j.sendPayload wire c).Only (Later u) := by
  refine advance_later.bind fun _ => sendPaced_later.bind fun sent => ?_
  split
  · trivial
  · split
    · exact failKnown_later rfl
    · exact failUnknown_later rfl

/-- A fence throws only on a token that is no token. -/
theorem armPrintFence_later
    (h : u ∨ (j.profile.completion = .gsParenH → isValidProcessIdToken token = true)) :
    (j.armPrintFence token).Only (Later u) := by
  unfold JobRun.armPrintFence
  split
  · exact Only.bind (Only.perform trivial) fun _ => trivial
  · split
    next hp =>
      cases hm : processIdMarker token with
      | some marker => trivial
      | none =>
        exact uncaught_later (h.resolve_right fun hv => by simp [processIdMarker, hv hp] at hm)
    next => exact Only.bind (Only.perform trivial) fun _ => trivial
    all_goals
      split
      · trivial
      · cases hb : j.buildCut token with
        | some wire => trivial
        | none =>
          refine uncaught_later (h.resolve_right fun hv => ?_)
          obtain ⟨wire, hwire⟩ := buildCut_isSome hv
          rw [hwire] at hb
          cases hb

theorem sendFence_later {part : Part} {fence : Bytes} :
    (JobRun.sendFence j.profile part fence).Only (Later u) := by
  unfold JobRun.sendFence
  split
  · trivial
  · exact sendPaced_later

theorem sendPrintFence_later
    (h : u ∨ (j.profile.completion = .gsParenH → isValidProcessIdToken token = true)) :
    (j.sendPrintFence token c).Only (Later u) := by
  refine (armPrintFence_later h).bind fun _ => sendFence_later.bind fun sent => ?_
  split
  · exact failUnknown_later rfl
  · refine advance_later.bind fun _ => ?_
    split
    · exact succeed_later
    · trivial

theorem awaitPrintFence_later : (j.awaitPrintFence token c).Only (Later u) := by
  refine Only.bind (Only.perform trivial) fun ack => ?_
  dsimp only
  split
  · exact failUnknown_later (isRefusal_waitReason ack)
  · refine advance_later.bind fun _ => ?_
    split
    · exact succeed_later
    · trivial

theorem armCut_later
    (h : u ∨ (j.profile.completion = .gsParenH → isValidProcessIdToken token = true)) :
    (j.armCut token).Only (Later u) := by
  unfold JobRun.armCut
  cases hb : j.buildCut token with
  | none =>
    refine uncaught_later (h.resolve_right fun hv => ?_)
    obtain ⟨wire, hwire⟩ := buildCut_isSome hv
    rw [hwire] at hb
    cases hb
  | some wire =>
    dsimp only
    split
    · exact Only.bind (Only.perform trivial) fun _ => trivial
    · refine Only.bind ?_ fun _ => trivial
      unfold JobRun.expectCutFence
      split
      · exact Only.perform trivial
      · trivial

theorem sendCut_later
    (h : u ∨ (j.profile.completion = .gsParenH → isValidProcessIdToken token = true)) :
    (j.sendCut token c).Only (Later u) := by
  refine (armCut_later h).bind fun _ => sendPaced_later.bind fun sent => ?_
  split
  · exact failUnknown_later rfl
  · refine Only.bind (Only.perform trivial) fun ack => ?_
    split
    · exact failUnknown_later (isRefusal_waitReason ack)
    · refine advance_later.bind fun _ => ?_
      split
      · exact succeed_later
      · trivial

theorem cutterStatus_later : (j.cutterStatus c).Only (Later u) := by
  refine Only.bind (Only.perform trivial) fun _ => Only.bind (Only.perform trivial) fun _ =>
    sendPaced_later.bind fun sent => Only.bind ?_ fun answers => ?_
  · unfold JobRun.readCutterStatus
    split
    · exact Only.bind (Only.perform (nofun : Part.cutterStatus ≠ .preflight)) fun _ => trivial
    · trivial
  · split
    · exact failKnown_later rfl
    · exact succeed_later

theorem starPreamble_later : (j.starPreamble c).Only (Later u) := by
  unfold JobRun.starPreamble
  split
  · refine sendPaced_later.bind fun sent => ?_
    split
    · exact failKnown_later rfl
    · exact Only.bind (Only.perform trivial) fun _ => trivial
  · trivial

theorem starUnfenced_later : (j.starUnfenced c).Only (Later u) := by
  refine Only.bind ?_ fun _ => advance_later.bind fun _ => succeed_later
  unfold JobRun.sendStarCut
  split
  · trivial
  · exact sendPaced_later.bind fun _ => trivial

theorem starPrintFence_later : (j.starPrintFence c).Only (Later u) := by
  refine Only.bind (Only.perform trivial) fun _ => sendPaced_later.bind fun sent => ?_
  split
  · exact failUnknown_later rfl
  · refine advance_later.bind fun _ => Only.bind (Only.perform trivial) fun ack => ?_
    split
    · exact failUnknown_later (isRefusal_waitReason ack)
    · refine advance_later.bind fun _ => ?_
      split
      · exact succeed_later
      · trivial

theorem starCutFence_later : (j.starCutFence c).Only (Later u) := by
  refine Only.bind (Only.perform trivial) fun _ => sendPaced_later.bind fun sent => ?_
  split
  · exact failUnknown_later rfl
  · refine Only.bind (Only.perform trivial) fun ack => ?_
    split
    · exact failUnknown_later (isRefusal_waitReason ack)
    · exact advance_later.bind fun _ => succeed_later

theorem printStages_later {lease : Option MarkerPair}
    (hbuilt : u ∨ (j.buildPayload ((lease.map MarkerPair.printToken).getD [])).isSome = true)
    (htokens : u ∨ (j.profile.completion = .gsParenH →
      isValidProcessIdToken ((lease.map MarkerPair.printToken).getD []) = true ∧
        isValidProcessIdToken ((lease.map MarkerPair.cutToken).getD []) = true)) :
    (j.printStages lease c).Only (Later u) := by
  unfold JobRun.printStages
  dsimp only
  cases hb : j.buildPayload ((lease.map MarkerPair.printToken).getD []) with
  | none => exact uncaught_later (hbuilt.resolve_right (by simp [hb]))
  | some wire =>
    exact sendPayload_later.bind fun _ =>
      (next_later (fun _ => sendPrintFence_later (htokens.imp_right fun h hp => (h hp).1)) _).bind
        fun _ => (next_later (fun _ => awaitPrintFence_later) _).bind fun _ =>
      (next_later (fun _ => sendCut_later (htokens.imp_right fun h hp => (h hp).2)) _).bind
        fun _ => next_later (fun _ => cutterStatus_later) _

theorem printStages_inner {lease : Option MarkerPair}
    (hbuilt : u ∨ (j.buildPayload ((lease.map MarkerPair.printToken).getD [])).isSome = true)
    (htokens : u ∨ (j.profile.completion = .gsParenH →
      isValidProcessIdToken ((lease.map MarkerPair.printToken).getD []) = true ∧
        isValidProcessIdToken ((lease.map MarkerPair.cutToken).getD []) = true)) :
    (j.printStages lease c).Only (Inner u) := (printStages_later hbuilt htokens).mono Later.inner

theorem runStarJob_later (hbuilt : u ∨ j.buildStarPayload.isSome = true) :
    j.runStarJob.Only (Later u) := by
  refine Only.bind (Only.perform trivial) fun connected => ?_
  split
  · exact failKnown_later rfl
  · refine Only.bind (Only.perform trivial) fun _ => Only.bind (Only.perform trivial) fun _ =>
      starPreamble_later.bind fun _ => Only.bind (next_later (fun _ => ?_) _) fun _ => ?_
    · unfold JobRun.sendStarPayload
      cases hb : j.buildStarPayload with
      | none => exact uncaught_later (hbuilt.resolve_right (by simp [hb]))
      | some wire => exact sendPayload_later
    · split
      · exact next_later (fun _ => starUnfenced_later) _
      · exact (next_later (fun _ => starPrintFence_later) _).bind fun _ =>
          next_later (fun _ => starCutFence_later) _

theorem runStarJob_inner (hbuilt : u ∨ j.buildStarPayload.isSome = true) :
    j.runStarJob.Only (Inner u) := (runStarJob_later hbuilt).mono Later.inner

end PrinterDriver.Engine.Stages
