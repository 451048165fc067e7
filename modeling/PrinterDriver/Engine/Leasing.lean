import PrinterDriver.Engine.Stages

/-! # The tokens of a run

What one run of a job does with completion marker tokens, in the order it may do so: they are leased,
filed and registered before the first byte of the payload, and given back when the job is over. -/

namespace PrinterDriver.Engine.Leasing

open PrinterDriver.Lib.Programs PrinterDriver.Core.Types PrinterDriver.Engine.Ops
  PrinterDriver.Engine.RunJob PrinterDriver.Engine.QuietCalls PrinterDriver.Engine.Stages

open Prog

/-- How far a run is with its tokens. -/
inductive Tokens where
  | unleased
  | leased (pair : MarkerPair)
  | held (pair : MarkerPair)
  | filed (pair : MarkerPair)
  | registered (pair : MarkerPair)
  | released (pair : MarkerPair)
  deriving DecidableEq, Repr

namespace Tokens

def post (t : Tokens) : (Σ c : Call, c.Answer) → Tokens
  | ⟨.acquireTokens, pair⟩ => .leased pair
  | ⟨.setTokens _ pair, _⟩ => .held pair
  | ⟨.recordTokens _ pair, _⟩ => .filed pair
  | ⟨.registerTokens _ pair, _⟩ => .registered pair
  | ⟨.releaseTokens pair, _⟩ => .released pair
  | _ => t

/-- The tokens with which the payload may be sent. -/
def Settled (t : Tokens) : Prop := t = .unleased ∨ ∃ pair, t = .registered pair

end Tokens

/-- One step after the other, and the payload behind them. -/
def Orders (c : Call) (t : Tokens) : Prop :=
  match c with
  | .acquireTokens => t = .unleased
  | .setTokens _ pair => t = .leased pair
  | .recordTokens _ pair => t = .held pair
  | .registerTokens _ pair => t = .filed pair
  | .releaseTokens pair => t = .registered pair
  | .write .payload _ => t.Settled
  | _ => True

abbrev tokenLog : World Worker Tokens := observe Tokens.post Orders

variable {α : Type} {j : JobRun} {t : Tokens}

theorem post_inner {c : Call} (h : Inner True c) (a : c.Answer) : t.post ⟨c, a⟩ = t := by
  cases c <;> first | exact h.elim | rfl

theorem orders_inner {c : Call} (h : Inner True c) (ht : t.Settled) : Orders c t := by
  cases c with
  | write part data => cases part <;> first | exact ht | trivial
  | _ => trivial

/-- A stage that makes no call about tokens leaves them as they are. -/
theorem safe_inner {Q : α → Tokens → Prop} (ht : t.Settled) :
    ∀ {p : Prog Worker α}, p.Only (Inner True) → (∀ a, Q a t) → Safe tokenLog Q p t
  | .ret a, _, hQ => safe_observe_ret.mpr (hQ a)
  | .call c k, h, hQ => by
    refine safe_observe_call.mpr ⟨orders_inner h.1 ht, fun a => ?_⟩
    rw [post_inner h.1]
    exact safe_inner ht (h.2 a) hQ

/-- What a lease leaves behind: nothing, or tokens that are registered. -/
def Given : Option MarkerPair → Tokens → Prop
  | none, t => t = .unleased
  | some pair, t => t = .registered pair

theorem Given.settled {lease : Option MarkerPair} (h : Given lease t) : t.Settled := by
  cases lease with
  | none => exact .inl h
  | some pair => exact .inr ⟨pair, h⟩

theorem safe_leaseTokens : Safe tokenLog Given j.leaseTokens .unleased := by
  unfold JobRun.leaseTokens
  split_ifs
  · exact safe_observe_ret.mpr rfl
  · simp only [perform, call_bind, ret_bind, safe_observe_call, pure_eq, safe_observe_ret]
    exact ⟨rfl, fun pair => ⟨rfl, fun _ => ⟨rfl, fun _ => ⟨rfl, fun _ => rfl⟩⟩⟩⟩

theorem safe_releaseTokens {lease : Option MarkerPair} (h : Given lease t) :
    Safe tokenLog (fun _ _ => True) (JobRun.releaseTokens lease) t := by
  cases lease with
  | none => exact safe_observe_ret.mpr trivial
  | some pair => exact safe_observe_call.mpr ⟨h, fun _ => safe_observe_ret.mpr trivial⟩

theorem safe_leased {c : ConfidenceLevel} :
    Safe tokenLog (fun _ _ => True) (j.leased c) .unleased := by
  refine Safe.bind (safe_leaseTokens.mono fun lease t h => ?_)
  refine Safe.bind (safe_inner h.settled (printStages_inner (.inl trivial) (.inl trivial))
    fun _ => ?_)
  exact Safe.bind ((safe_releaseTokens h).mono fun _ _ _ => safe_observe_ret.mpr trivial)

theorem safe_runEscposJob : Safe tokenLog (fun _ _ => True) j.runEscposJob .unleased := by
  refine safe_observe_call.mpr ⟨trivial, fun (connected : Bool) => ?_⟩
  change Safe tokenLog _ (if !connected then _ else _) _
  split
  · exact safe_inner (.inl rfl) failKnown_inner fun _ => trivial
  · refine safe_observe_call.mpr ⟨trivial, fun _ => safe_observe_call.mpr ⟨trivial, fun _ => ?_⟩⟩
    change Safe tokenLog _ (j.preflight .transportAccepted >>= fun c => JobRun.next j.leased c) _
    refine Safe.bind (safe_inner (.inl rfl) preflight_inner fun c => ?_)
    cases c with
    | none => exact safe_observe_ret.mpr trivial
    | some c => exact safe_leased

/-- **The tokens of a run**, in the order of `Orders`. -/
theorem runJob_tokens : Safe tokenLog (fun _ _ => True) j.runJob .unleased := by
  have hret : ∀ (c : Option ConfidenceLevel) (t : Tokens), True →
      Safe tokenLog (fun _ _ => True) (.ret () : Prog Worker Unit) t :=
    fun _ _ _ => safe_observe_ret.mpr trivial
  refine Safe.bind (Safe.mono hret ?_)
  unfold JobRun.runStages
  split_ifs
  · exact safe_runEscposJob
  · exact safe_inner (.inl rfl) (runStarJob_inner (.inl trivial)) fun _ => trivial
  · exact safe_inner (.inl rfl) failKnown_inner fun _ => trivial

end PrinterDriver.Engine.Leasing
