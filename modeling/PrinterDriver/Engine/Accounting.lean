import PrinterDriver.Engine.RunJob
import Mathlib.Data.List.Infix

/-! # The bytes of a job

What a run of one job hands to the transport. A `Ledger` reads a run of the job: the payload, fence
and cut bytes the transport accepted, in order, and the states recorded. `built` is what the engine
built for the job out of the tokens and the fences the run gave it.

`runStages_fits` says of every moment of every run that the accepted bytes are a prefix of what was
built, that no cut leaves before `PrintConfirmed` when there is a fence to wait for, and that
`BytesSent` comes after payload and fence. The last exit is the exception: the unfenced Star cut is
written without a look at what the transport says of it. -/

namespace PrinterDriver.Engine.Accounting

open PrinterDriver.Lib.Programs PrinterDriver.Core.Types PrinterDriver.Core.Profile
  PrinterDriver.Core.Encoder PrinterDriver.Engine.Io PrinterDriver.Engine.Ops
  PrinterDriver.Engine.RunJob

open Prog

/-- A call and its answer. -/
abbrev Entry : Type := Σ c : Call, c.Answer

structure Ledger where
  accepted : Bytes := []
  cutAccepted : Bytes := []
  cutRefused : Bool := false
  states : List JobState := []
  tokens : Option MarkerPair := none
  fences : List Bytes := []
  deriving DecidableEq, Repr

namespace Ledger

/-- Bytes of a part were accepted; `ok` is what the transport said. -/
def send (L : Ledger) (part : Part) (data : Bytes) (ok : Bool) : Ledger :=
  match part with
  | .payload | .printFence => { L with accepted := L.accepted ++ data }
  | .cut =>
    { L with
      accepted := L.accepted ++ data, cutAccepted := L.cutAccepted ++ data
      cutRefused := L.cutRefused || !ok }
  | .preamble | .preflight | .cutterStatus | .refresh | .drawer => L

def post (L : Ledger) : Entry → Ledger
  | ⟨.write part data, result⟩ =>
    L.send part (TransportResult.accepted result data) (TransportResult.ok result)
  | ⟨.recordState _ state _ _ _, _⟩ => { L with states := L.states ++ [state] }
  | ⟨.acquireTokens, pair⟩ => { L with tokens := some pair }
  | ⟨.armStarFence _ _, fence⟩ => { L with fences := L.fences.concat fence }
  | _ => L

end Ledger

/-- The ledger of a run. -/
def ledger (t : List Entry) : Ledger := t.foldl Ledger.post {}

end PrinterDriver.Engine.Accounting

namespace PrinterDriver.Engine.RunJob.JobRun

open PrinterDriver.Core.Types PrinterDriver.Core.Encoder PrinterDriver.Engine.Ops
  PrinterDriver.Engine.Accounting

variable (j : JobRun)

/-- The Star engine runs the job. -/
def runsOnStar : Bool :=
  !(j.profile.drivableByEscposEngine || j.custom.isSome) && j.profile.drivableByStarEngine

def printToken (lease : Option MarkerPair) : Bytes := (lease.map MarkerPair.printToken).getD []

def cutToken (lease : Option MarkerPair) : Bytes := (lease.map MarkerPair.cutToken).getD []

def builtPayload (lease : Option MarkerPair) : Bytes :=
  (if j.runsOnStar then j.buildStarPayload else j.buildPayload (printToken lease)).getD []

def builtPrintFence (lease : Option MarkerPair) (fences : List Bytes) : Bytes :=
  if j.runsOnStar then fences[0]?.getD []
  else
    match j.custom with
    | some m => m.fenceBytes (printToken lease)
    | none =>
      match j.profile.completion with
      | .gsParenH => (processIdMarker (printToken lease)).getD []
      | .gsR1 => gsPaperStatus
      | _ => []

/-- The cut with its fence. -/
def builtCut (lease : Option MarkerPair) (fences : List Bytes) : Bytes :=
  if j.cut = .none then []
  else if j.runsOnStar then j.starCut ++ fences[1]?.getD []
  else
    match j.custom with
    | some m => (j.buildCut (cutToken lease)).getD [] ++ m.fenceBytes (cutToken lease)
    | none => (j.buildCut (cutToken lease)).getD []

/-- Everything the engine built for the job, in the order it writes it. -/
def built (lease : Option MarkerPair) (fences : List Bytes) : Bytes :=
  j.builtPayload lease ++ j.builtPrintFence lease fences ++ j.builtCut lease fences

end PrinterDriver.Engine.RunJob.JobRun

namespace PrinterDriver.Engine.Accounting

open PrinterDriver.Lib.Programs PrinterDriver.Core.Types PrinterDriver.Core.Profile
  PrinterDriver.Core.Encoder PrinterDriver.Engine.Io PrinterDriver.Engine.Ops
  PrinterDriver.Engine.RunJob

open Prog

/-- The Star engine, no fence, and a cut that the transport refused before it was whole. -/
def CutLost (j : JobRun) (L : Ledger) : Prop :=
  j.runsOnStar ∧ j.profile.completion = .none ∧ L.cutRefused ∧ L.cutAccepted ≠ j.starCut

instance (j : JobRun) (L : Ledger) : Decidable (CutLost j L) := inferInstanceAs (Decidable (_ ∧ _))

/-- What must hold when a call is made. -/
def Fits (j : JobRun) (c : Call) (L : Ledger) : Prop :=
  L.accepted <+: j.built L.tokens L.fences ∧
    match c with
    | .write .cut _ => j.profile.completion ≠ .none → .printConfirmed ∈ L.states
    | .recordState _ .bytesSent _ _ _ => 
        j.builtPayload L.tokens ++ j.builtPrintFence L.tokens L.fences <+: L.accepted
    | .uncaught => .doneSoftware ∉ L.states ∧ ¬ CutLost j L
    | _ => True

/-- What must hold when the job is over. -/
def Settled (j : JobRun) (L : Ledger) : Prop :=
  L.accepted <+: j.built L.tokens L.fences ∧
    ((.doneSoftware ∈ L.states → L.accepted = j.built L.tokens L.fences) ↔ ¬ CutLost j L)

/-- The observer of a job's bytes. -/
abbrev books (j : JobRun) : World Worker Ledger := observe Ledger.post (Fits j)

/-! ### The ledger -/

section Ledger
variable {j : JobRun} {L : Ledger} {part : Part} {data : Bytes} {ok : Bool}

@[simp] theorem send_tokens : (L.send part data ok).tokens = L.tokens := by
  cases part <;> rfl

@[simp] theorem send_fences : (L.send part data ok).fences = L.fences := by
  cases part <;> rfl

@[simp] theorem send_states : (L.send part data ok).states = L.states := by
  cases part <;> rfl

theorem send_nil : L.send part [] true = L := by
  cases part <;> simp [Ledger.send]

theorem send_send {data' : Bytes} {ok' : Bool} :
    (L.send part data true).send part data' ok' = L.send part (data ++ data') ok' := by
  cases part <;> simp [Ledger.send]

end Ledger

/-! ### Programs that write and record -/

section Programs
variable {j : JobRun} {L : Ledger}

/-- Writing chunk after chunk writes a prefix, and all of it if the transport says so. -/
theorem safe_sendChunks {Q : TransportResult → Ledger → Prop} {part : Part} {data : Bytes}
    (hw : ∀ acc ok d, acc <+: data → Fits j (.write part d) (L.send part acc ok))
    (hQ : ∀ r acc, acc <+: data → (r.ok = true → acc = data) → Q r (L.send part acc r.ok)) :
    ∀ (cs : List Bytes) (sent : Bytes) (offset : ℕ), sent ++ cs.flatten = data →
      Safe (books j) Q (sendChunks part cs offset) (L.send part sent true)
  | [], sent, offset, h => by
    have hsent : sent = data := by simpa using h
    simpa [sendChunks, hsent] using hQ ⟨true, offset⟩ data (List.prefix_refl _) fun _ => rfl
  | c :: cs, sent, offset, h => by
    have hpre : sent <+: data := ⟨_, h⟩
    simp only [sendChunks, perform, call_bind, ret_bind, safe_observe_call]
    refine ⟨hw sent true c hpre, fun (r : TransportResult) => ?_⟩
    have hpost : (L.send part sent true).post ⟨.write part c, r⟩ =
        L.send part (sent ++ r.accepted c) r.ok := by
      simp only [Ledger.post, send_send]
    rw [hpost]
    by_cases hr : r.ok = true
    · simp only [hr, if_true, TransportResult.accepted]
      exact safe_sendChunks hw hQ cs (sent ++ c) _ (by simpa using h)
    · have hr' : r.ok = false := by simpa using hr
      simp only [hr', Bool.false_eq_true, if_false, pure_eq, safe_observe_ret,
        TransportResult.accepted]
      refine hQ ⟨false, _⟩ _ ?_ (by simp)
      have hc : c.take r.bytesWritten <+: c := List.take_prefix _ _
      rw [← h, List.flatten_cons]
      exact (List.prefix_append_right_inj sent).mpr (hc.trans (List.prefix_append _ _))

theorem safe_sendPaced {Q : TransportResult → Ledger → Prop} {part : Part} {data : Bytes}
    (hw : ∀ acc ok d, acc <+: data → Fits j (.write part d) (L.send part acc ok))
    (hQ : ∀ r acc, acc <+: data → (r.ok = true → acc = data) → Q r (L.send part acc r.ok)) :
    Safe (books j) Q (sendPaced j.profile part data) L := by
  unfold sendPaced
  split_ifs with hn
  · simp only [perform, safe_observe_call, safe_observe_ret]
    refine ⟨by simpa [send_nil] using hw [] true data List.nil_prefix, fun (r : TransportResult) => ?_⟩
    refine hQ r _ ?_ fun hr => by simp [TransportResult.accepted, hr]
    unfold TransportResult.accepted
    split_ifs
    exacts [List.prefix_refl _, List.take_prefix _ _]
  · simpa [send_nil] using
      safe_sendChunks hw hQ (chunks j.profile.chunkBytes data.length data) [] 0
        (by simp [chunks_flatten])

theorem safe_advance {Q : Unit → Ledger → Prop} {id : Bytes} {state : JobState}
    {confidence : ConfidenceLevel} {reason : FailureReason} {evidence : JobEvidence}
    (hfit : Fits j (.recordState id state confidence reason evidence) L)
    (hQ : Q () { L with states := L.states ++ [state] }) :
    Safe (books j) Q (advance id state confidence reason evidence) L := by
  simp only [advance, perform, call_bind, ret_bind, safe_observe_call, safe_observe_ret,
    Ledger.post]
  exact ⟨hfit, fun _ => ⟨⟨hfit.1, trivial⟩, fun _ => hQ⟩⟩

theorem safe_terminate {Q : Unit → Ledger → Prop} {id : Bytes} {state : JobState}
    {outcome : JobResult} (hstate : state ≠ .bytesSent)
    (hfit : L.accepted <+: j.built L.tokens L.fences)
    (hQ : Q () { L with states := L.states ++ [state] }) :
    Safe (books j) Q (terminate id state outcome) L := by
  refine Safe.bind (safe_advance ⟨hfit, ?_⟩ ?_)
  · cases state <;> trivial
  · simp only [perform, safe_observe_call, safe_observe_ret, Ledger.post]
    exact ⟨⟨hfit, trivial⟩, fun _ => hQ⟩

end Programs

/-! ### Stages

Between two stages the job is not over and what was accepted so far is known. -/

structure Upto (j : JobRun) (lease : Option MarkerPair) (fences : List Bytes) (bytes : Bytes)
    (L : Ledger) : Prop where
  tokens : L.tokens = lease
  armed : L.fences = fences
  accepted : L.accepted = bytes
  fits : bytes <+: j.built lease fences
  running : .doneSoftware ∉ L.states
  kept : (∀ L, ¬ CutLost j L) ∨ (L.cutRefused = false ∧ L.cutAccepted = [])

/-- What a stage leaves: `P` if it goes on, and a settled job if not. -/
def Stage (j : JobRun) (P : Ledger → Prop) : Option ConfidenceLevel → Ledger → Prop
  | some _, L => P L
  | none, L => Settled j L

@[simp] theorem stage_some {j : JobRun} {P : Ledger → Prop} {c : ConfidenceLevel} {L : Ledger} :
    Stage j P (some c) L ↔ P L := Iff.rfl

section Stages
variable {j : JobRun} {L : Ledger} {P : Ledger → Prop} {lease : Option MarkerPair}
  {fences : List Bytes} {bytes : Bytes} {c : ConfidenceLevel}

theorem Upto.fit (h : Upto j lease fences bytes L) :
    L.accepted <+: j.built L.tokens L.fences := by
  rw [h.accepted, h.tokens, h.armed]
  exact h.fits

theorem Upto.states (h : Upto j lease fences bytes L) (st : List JobState) (hst : .doneSoftware ∉ st) :
    Upto j lease fences bytes { L with states := L.states ++ st } where
  tokens := h.tokens
  armed := h.armed
  accepted := h.accepted
  fits := h.fits
  running := by simp [h.running, hst]
  kept := h.kept

theorem Upto.notLost (h : Upto j lease fences bytes L) : ¬ CutLost j L := by
  rcases h.kept with hk | ⟨hr, _⟩
  · exact hk L
  · simp [CutLost, hr]

theorem Upto.settled (h : Upto j lease fences bytes L) : Settled j L :=
  ⟨h.fit, fun _ => h.notLost, fun _ hd => absurd hd h.running⟩

theorem safe_failKnown (h : Upto j lease fences bytes L) {reason : FailureReason}
    {evidence : JobEvidence} :
    Safe (books j) (Stage j P) (j.failKnown reason c evidence) L :=
  Safe.bind (safe_terminate (by decide) h.fit
    (safe_observe_ret.mpr (h.states [.failedKnown] (by decide)).settled))

theorem safe_failUnknown (h : Upto j lease fences bytes L) {reason : FailureReason} :
    Safe (books j) (Stage j P) (j.failUnknown reason c) L :=
  Safe.bind (safe_terminate (by decide) h.fit
    (safe_observe_ret.mpr (h.states [.unknown] (by decide)).settled))

theorem safe_succeed (h : Upto j lease fences bytes L) (hb : bytes = j.built lease fences)
    {evidence : JobEvidence} :
    Safe (books j) (Stage j P) (j.succeed c evidence) L :=
  Safe.bind (safe_terminate (by decide) h.fit (safe_observe_ret.mpr
    ⟨h.fit, fun _ => h.notLost, fun _ _ => by simp [h.accepted, h.tokens, h.armed, hb]⟩))

theorem safe_next {P' : Ledger → Prop}
    {stage : ConfidenceLevel → Prog Worker (Option ConfidenceLevel)}
    (h : ∀ c L, P L → Safe (books j) (Stage j P') (stage c) L) :
    ∀ {o : Option ConfidenceLevel} {L : Ledger}, Stage j P o L →
      Safe (books j) (Stage j P') (JobRun.next stage o) L
  | some c, L, ho => h c L ho
  | none, _, ho => safe_observe_ret.mpr ho

/-- Writes that are no part of the job. -/
theorem safe_sendAside {Q : TransportResult → Ledger → Prop} {data : Bytes} (part : Part)
    (hpart : part ≠ .payload ∧ part ≠ .printFence ∧ part ≠ .cut) (h : Upto j lease fences bytes L)
    (hQ : ∀ r, Q r L) : Safe (books j) Q (sendPaced j.profile part data) L := by
  have hsend : ∀ acc ok, L.send part acc ok = L := by
    obtain ⟨h1, h2, h3⟩ := hpart
    intro acc ok
    cases part <;> first | rfl | contradiction
  refine safe_sendPaced (fun acc ok d _ => ?_) fun r acc _ _ => by
    rw [hsend]
    exact hQ r
  rw [hsend]
  refine ⟨h.fit, ?_⟩
  cases part <;> trivial

/-- The next piece of the job is written. -/
theorem safe_sendPiece {Q : TransportResult → Ledger → Prop} {part : Part} {data : Bytes}
    (h : Upto j lease fences bytes L) (hfit : bytes ++ data <+: j.built lease fences)
    (hcut : part = .cut → j.profile.completion ≠ .none → .printConfirmed ∈ L.states)
    (hQ : ∀ r acc, acc <+: data → (r.ok = true → acc = data) → Q r (L.send part acc r.ok)) :
    Safe (books j) Q (sendPaced j.profile part data) L := by
  refine safe_sendPaced (fun acc ok d hacc => ⟨?_, ?_⟩) hQ
  · have hacc' : L.accepted ++ acc <+: j.built L.tokens L.fences := by
      rw [h.accepted, h.tokens, h.armed]
      exact ((List.prefix_append_right_inj bytes).mpr hacc).trans hfit
    cases part <;> first | exact hacc' | exact h.fit
  · cases part <;> first | trivial | simpa using hcut rfl

/-- Writing a piece of the job that is not the cut. -/
theorem Upto.send {part : Part} {data acc : Bytes} {ok : Bool} (h : Upto j lease fences bytes L)
    (hpart : part = .payload ∨ part = .printFence) (hfit : bytes ++ data <+: j.built lease fences)
    (hacc : acc <+: data) : Upto j lease fences (bytes ++ acc) (L.send part acc ok) where
  tokens := by simpa using h.tokens
  armed := by simpa using h.armed
  accepted := by rcases hpart with rfl | rfl <;> simp [Ledger.send, h.accepted]
  fits := ((List.prefix_append_right_inj bytes).mpr hacc).trans hfit
  running := by simpa using h.running
  kept := by rcases hpart with rfl | rfl <;> exact h.kept

end Stages

/-! ### The ESC/POS stages -/

/-- Neither engine refuses the job. -/
def OnEscpos (j : JobRun) : Prop := (j.profile.drivableByEscposEngine || j.custom.isSome) = true

section Escpos
variable {j : JobRun} {L : Ledger} {lease : Option MarkerPair} {c : ConfidenceLevel}

/-- A call that the ledger does not look at. -/
theorem safe_aside {α : Type} {Q : α → Ledger → Prop} {call : Call}
    {f : call.Answer → Prog Worker α} {fences : List Bytes} {bytes : Bytes}
    (h : Upto j lease fences bytes L)
    (hfit : Fits j call L = (L.accepted <+: j.built L.tokens L.fences ∧ True))
    (hpost : ∀ a, L.post ⟨call, a⟩ = L) (hf : ∀ a, Safe (books j) Q (f a) L) :
    Safe (books j) Q ((perform (E := Worker) call : Prog Worker call.Answer) >>= f) L := by
  simp only [perform, call_bind, ret_bind, safe_observe_call]
  refine ⟨by rw [hfit]; exact ⟨h.fit, trivial⟩, fun a => ?_⟩
  rw [hpost]
  exact hf a

theorem safe_preflight (h : Upto j none [] [] L) :
    Safe (books j) (Stage j (Upto j none [] [])) (j.preflight c) L := by
  unfold JobRun.preflight
  split_ifs
  · refine safe_aside h rfl (fun _ => rfl) fun _ => ?_
    refine Safe.bind (safe_sendAside .preflight (by decide) h fun sent => ?_)
    split_ifs
    · exact safe_failKnown h
    refine safe_aside h rfl (fun _ => rfl) fun (outcome, answers) => ?_
    dsimp only
    split
    · exact safe_failKnown h
    refine safe_aside h rfl (fun _ => rfl) fun _ => ?_
    split
    · exact safe_failKnown h
    split
    · exact safe_observe_ret.mpr h
    · exact Safe.bind (safe_advance ⟨h.fit, trivial⟩
        (safe_observe_ret.mpr (h.states [.preflightOk] (by decide))))
  · exact safe_observe_ret.mpr h

theorem safe_sendPayload {fences : List Bytes} {wire : Bytes} (h : Upto j lease fences [] L)
    (hwire : wire = j.builtPayload lease) :
    Safe (books j) (Stage j (Upto j lease fences wire)) (j.sendPayload wire c) L := by
  have hfit : wire <+: j.built lease fences := by
    rw [hwire, JobRun.built, List.append_assoc]
    exact List.prefix_append _ _
  refine Safe.bind (safe_advance ⟨h.fit, trivial⟩ ?_)
  have h' := h.states [.sendStarted] (by decide)
  refine Safe.bind (safe_sendPiece h' hfit (by simp) fun sent acc hacc hok => ?_)
  have hsent := @Upto.send _ _ _ _ _ _ _ _ sent.ok h' (.inl rfl) hfit hacc
  split_ifs with hs
  · exact safe_observe_ret.mpr (by simpa [hok hs, hs] using hsent)
  · exact safe_failKnown hsent
  · exact safe_failUnknown hsent

theorem OnEscpos.notStar (hj : OnEscpos j) : j.runsOnStar = false := by
  unfold OnEscpos at hj
  simp [JobRun.runsOnStar, hj]

theorem OnEscpos.kept (hj : OnEscpos j) (L : Ledger) : ¬ CutLost j L := by
  simp [CutLost, hj.notStar]

/-- Without a registered method the fence is one of the engine's own. -/
theorem OnEscpos.fences (hj : OnEscpos j) (hc : j.custom = none) :
    j.profile.completion = .gsParenH ∨ j.profile.completion = .gsR1 ∨
      j.profile.completion = .none := by
  simp only [OnEscpos, hc, Option.isSome_none, Bool.or_false,
    CapabilityProfile.drivableByEscposEngine, Bool.and_eq_true] at hj
  revert hj
  cases j.profile.completion <;> simp [isDrivableByEscposEngine]

theorem completion_of_custom {m : CompletionMethod} (hc : j.custom = some m) :
    j.profile.completion = .vendorIdle := by
  unfold JobRun.custom at hc
  split_ifs at hc with h
  exact h.1

theorem buildCut_token (h : j.profile.completion ≠ .gsParenH) (token token' : Bytes) :
    j.buildCut token = j.buildCut token' := by
  unfold JobRun.buildCut
  cases hc : j.profile.completion <;> first | rfl | exact absurd hc h

/-- What goes out behind the payload: the print fence, or the cut when there is no fence. -/
def PrintFenceBuilt (j : JobRun) (lease : Option MarkerPair) (part : Part) (fence : Bytes) : Prop :=
  (j.profile.completion ≠ .none ∧ part = .printFence ∧ fence = j.builtPrintFence lease []) ∨
    (j.profile.completion = .none ∧ part = .cut ∧ j.builtPrintFence lease [] = [] ∧
      fence = j.builtCut lease [])

theorem safe_uncaught {α : Type} {Q : α → Ledger → Prop} {fences : List Bytes} {bytes : Bytes}
    (h : Upto j lease fences bytes L) : Safe (books j) Q uncaught L := by
  simp only [uncaught, safe_observe_call]
  exact ⟨⟨h.fit, h.running, h.notLost⟩, fun e => Empty.elim e⟩

theorem safe_armPrintFence {Q : Part × Bytes → Ledger → Prop} {bytes : Bytes} (hj : OnEscpos j)
    (h : Upto j lease [] bytes L)
    (hQ : ∀ part fence, PrintFenceBuilt j lease part fence → Q (part, fence) L) :
    Safe (books j) Q (j.armPrintFence (JobRun.printToken lease)) L := by
  unfold JobRun.armPrintFence
  cases hm : j.custom with
  | some m =>
    refine safe_aside h rfl (fun _ => rfl) fun _ => safe_observe_ret.mpr (hQ _ _ (.inl ⟨?_, rfl, ?_⟩))
    · simp [completion_of_custom hm]
    · simp [JobRun.builtPrintFence, hj.notStar, hm]
  | none =>
    have hb := hj.fences hm
    cases hc : j.profile.completion with
    | gsParenH =>
      dsimp only
      cases hp : processIdMarker (JobRun.printToken lease) with
      | none => exact safe_uncaught h
      | some marker =>
        exact safe_observe_ret.mpr (hQ _ _ (.inl ⟨by simp [hc], rfl,
          by simp [JobRun.builtPrintFence, hj.notStar, hm, hc, hp]⟩))
    | gsR1 =>
      exact safe_aside h rfl (fun _ => rfl) fun _ => safe_observe_ret.mpr
        (hQ _ _ (.inl ⟨by simp [hc], rfl, by simp [JobRun.builtPrintFence, hj.notStar, hm, hc]⟩))
    | none =>
      have hfence : j.builtPrintFence lease [] = [] := by
        simp [JobRun.builtPrintFence, hj.notStar, hm, hc]
      dsimp only
      split
      · rename_i hcut
        exact safe_observe_ret.mpr (hQ _ _ (.inr ⟨hc, rfl, hfence, by simp [JobRun.builtCut, hcut]⟩))
      · rename_i hcut
        cases hbc : j.buildCut (JobRun.printToken lease) with
        | none => exact safe_uncaught h
        | some bytes =>
          refine safe_observe_ret.mpr (hQ _ _ (.inr ⟨hc, rfl, hfence, ?_⟩))
          rw [buildCut_token (by simp [hc]) _ (JobRun.cutToken lease)] at hbc
          simp [JobRun.builtCut, hcut, hj.notStar, hm, hbc]
    | vendorIdle | eposJobId | starCheckedBlock | starEtb | starEscGsEtx => simp [hc] at hb

/-- Nothing to write is written in full. -/
theorem safe_sendFence {Q : TransportResult → Ledger → Prop} {part : Part} {data : Bytes}
    {fences : List Bytes} {bytes : Bytes} (h : Upto j lease fences bytes L)
    (hfit : bytes ++ data <+: j.built lease fences)
    (hcut : part = .cut → j.profile.completion ≠ .none → .printConfirmed ∈ L.states)
    (hQ : ∀ r acc, acc <+: data → (r.ok = true → acc = data) → Q r (L.send part acc r.ok)) :
    Safe (books j) Q (JobRun.sendFence j.profile part data) L := by
  unfold JobRun.sendFence
  split_ifs with hd
  · have := hQ ⟨true, 0⟩ [] List.nil_prefix fun _ => hd.symm
    rw [send_nil] at this
    exact safe_observe_ret.mpr this
  · exact safe_sendPiece h hfit hcut hQ

/-- Writing a piece of a job that cannot lose its cut. -/
theorem Upto.sendKept {fences : List Bytes} {bytes data acc : Bytes} {part : Part} {ok : Bool}
    (h : Upto j lease fences bytes L) (hpart : part = .payload ∨ part = .printFence ∨ part = .cut)
    (hfit : bytes ++ data <+: j.built lease fences) (hacc : acc <+: data) (hk : ∀ L, ¬ CutLost j L) :
    Upto j lease fences (bytes ++ acc) (L.send part acc ok) where
  tokens := by simpa using h.tokens
  armed := by simpa using h.armed
  accepted := by rcases hpart with rfl | rfl | rfl <;> simp [Ledger.send, h.accepted]
  fits := ((List.prefix_append_right_inj bytes).mpr hacc).trans hfit
  running := by simpa using h.running
  kept := .inl hk

theorem safe_sendPrintFence (hj : OnEscpos j) (h : Upto j lease [] (j.builtPayload lease) L) :
    Safe (books j)
      (Stage j fun L => Upto j lease [] (j.builtPayload lease ++ j.builtPrintFence lease []) L ∧
        j.profile.completion ≠ .none)
      (j.sendPrintFence (JobRun.printToken lease) c) L := by
  refine Safe.bind (safe_armPrintFence hj h fun part fence hf => ?_)
  have hfit : j.builtPayload lease ++ fence <+: j.built lease [] := by
    rcases hf with ⟨_, _, rfl⟩ | ⟨_, _, he, rfl⟩
    · exact List.prefix_append _ _
    · simp [JobRun.built, he]
  have hcut : part = .cut → j.profile.completion ≠ .none → .printConfirmed ∈ L.states := by
    rcases hf with ⟨_, rfl, _⟩ | ⟨hn, _⟩
    · simp
    · exact fun _ hc => absurd hn hc
  refine Safe.bind (safe_sendFence h hfit hcut fun sent acc hacc hok => ?_)
  have hpart : part = .payload ∨ part = .printFence ∨ part = .cut := by
    rcases hf with ⟨_, rfl, _⟩ | ⟨_, rfl, _⟩ <;> simp
  have hsent : Upto j lease [] _ (L.send part acc sent.ok) := h.sendKept hpart hfit hacc hj.kept
  split
  · exact safe_failUnknown hsent
  rename_i hs
  have hacc : acc = fence := hok (by simpa using hs)
  subst hacc
  refine Safe.bind (safe_advance ⟨hsent.fit, ?_⟩ ?_)
  · show j.builtPayload (L.send part acc sent.ok).tokens ++
      j.builtPrintFence (L.send part acc sent.ok).tokens (L.send part acc sent.ok).fences <+: _
    rw [hsent.tokens, hsent.armed, hsent.accepted]
    rcases hf with ⟨_, _, rfl⟩ | ⟨_, _, he, rfl⟩
    · exact List.prefix_refl _
    · rw [he, List.append_nil]
      exact List.prefix_append _ _
  have h' := hsent.states [.bytesSent] (by decide)
  rcases hf with ⟨hn, rfl, rfl⟩ | ⟨hn, rfl, he, rfl⟩
  · rw [if_neg hn]
    exact safe_observe_ret.mpr ⟨h', hn⟩
  · rw [if_pos hn]
    exact safe_succeed h' (by simp [JobRun.built, he])

theorem safe_awaitPrintFence
    (h : Upto j lease [] (j.builtPayload lease ++ j.builtPrintFence lease []) L) :
    Safe (books j)
      (Stage j fun L => Upto j lease [] (j.builtPayload lease ++ j.builtPrintFence lease []) L ∧
        .printConfirmed ∈ L.states ∧ j.cut ≠ .none)
      (j.awaitPrintFence (JobRun.printToken lease) c) L := by
  refine safe_aside h rfl (fun _ => rfl) fun ack => ?_
  split
  · exact safe_failUnknown h
  refine Safe.bind (safe_advance ⟨h.fit, trivial⟩ ?_)
  have h' := h.states [.printConfirmed] (by decide)
  split
  · rename_i hcut
    exact safe_succeed h' (by simp [JobRun.built, JobRun.builtCut, hcut])
  · rename_i hcut
    exact safe_observe_ret.mpr ⟨h', by simp, hcut⟩

theorem safe_armCut {Q : Bytes → Ledger → Prop} {bytes : Bytes} (hj : OnEscpos j)
    (hcut : j.cut ≠ .none) (h : Upto j lease [] bytes L) (hQ : Q (j.builtCut lease []) L) :
    Safe (books j) Q (j.armCut (JobRun.cutToken lease)) L := by
  unfold JobRun.armCut
  cases hb : j.buildCut (JobRun.cutToken lease) with
  | none => exact safe_uncaught h
  | some wire =>
    dsimp only
    cases hm : j.custom with
    | some m =>
      refine safe_aside h rfl (fun _ => rfl) fun _ => safe_observe_ret.mpr ?_
      simpa [JobRun.builtCut, hcut, hj.notStar, hm, hb] using hQ
    | none =>
      have hw : Q wire L := by simpa [JobRun.builtCut, hcut, hj.notStar, hm, hb] using hQ
      dsimp only [JobRun.expectCutFence]
      split
      · exact safe_aside h rfl (fun _ => rfl) fun _ => safe_observe_ret.mpr hw
      · exact safe_observe_ret.mpr hw

theorem safe_sendCut (hj : OnEscpos j)
    (h : Upto j lease [] (j.builtPayload lease ++ j.builtPrintFence lease []) L)
    (hp : .printConfirmed ∈ L.states) (hcut : j.cut ≠ .none) :
    Safe (books j) (Stage j (Upto j lease [] (j.built lease [])))
      (j.sendCut (JobRun.cutToken lease) c) L := by
  refine Safe.bind (safe_armCut hj hcut h ?_)
  refine Safe.bind (safe_sendPiece h (List.prefix_refl _) (fun _ _ => hp)
    fun sent acc hacc hok => ?_)
  have hsent : Upto j lease [] _ (L.send .cut acc sent.ok) :=
    h.sendKept (.inr (.inr rfl)) (List.prefix_refl _) hacc hj.kept
  split
  · exact safe_failUnknown hsent
  rename_i hs
  have hacc : acc = j.builtCut lease [] := hok (by simpa using hs)
  subst hacc
  refine safe_aside hsent rfl (fun _ => rfl) fun ack => ?_
  split
  · exact safe_failUnknown hsent
  refine Safe.bind (safe_advance ⟨hsent.fit, trivial⟩ ?_)
  have h' := hsent.states [.cutCommandProcessed] (by decide)
  split
  · exact safe_succeed h' rfl
  · exact safe_observe_ret.mpr h'

theorem safe_cutterStatus (h : Upto j lease [] (j.built lease []) L) :
    Safe (books j) (Stage j fun _ => False) (j.cutterStatus c) L := by
  refine safe_aside h rfl (fun _ => rfl) fun _ => safe_aside h rfl (fun _ => rfl) fun _ => ?_
  refine Safe.bind (safe_sendAside .cutterStatus (by decide) h fun sent => ?_)
  have hread : ∀ Q : List Core.EscposParser.ParsedEvent → Ledger → Prop, (∀ a, Q a L) →
      Safe (books j) Q (JobRun.readCutterStatus sent) L := by
    intro Q hQ
    unfold JobRun.readCutterStatus
    split
    · exact safe_aside h rfl (fun _ => rfl) fun (_, answers) => safe_observe_ret.mpr (hQ answers)
    · exact safe_observe_ret.mpr (hQ [])
  refine Safe.bind (hread _ fun answers => ?_)
  split
  · exact safe_failKnown h
  · exact safe_succeed h rfl

theorem safe_printStages (hj : OnEscpos j) (h : Upto j lease [] [] L) :
    Safe (books j) (Stage j fun _ => False) (j.printStages lease c) L := by
  unfold JobRun.printStages
  dsimp only
  cases hb : j.buildPayload ((lease.map MarkerPair.printToken).getD []) with
  | none => exact safe_uncaught h
  | some wire =>
    have hwire : wire = j.builtPayload lease := by
      simp [JobRun.builtPayload, hj.notStar, JobRun.printToken, hb]
    subst hwire
    refine Safe.bind ((safe_sendPayload h rfl).mono fun c1 L1 h1 => ?_)
    refine Safe.bind ((safe_next (fun c L => safe_sendPrintFence hj) h1).mono fun c2 L2 h2 => ?_)
    refine Safe.bind ((safe_next (fun c L h => safe_awaitPrintFence h.1) h2).mono
      fun c3 L3 h3 => ?_)
    refine Safe.bind ((safe_next (fun c L h => safe_sendCut hj h.1 h.2.1 h.2.2) h3).mono
      fun c4 L4 h4 => ?_)
    exact safe_next (fun c L h => safe_cutterStatus h) h4

theorem safe_leaseTokens {Q : Option MarkerPair → Ledger → Prop} (hj : OnEscpos j)
    (h : Upto j none [] [] L) (hQ : ∀ lease L, Upto j lease [] [] L → Q lease L) :
    Safe (books j) Q j.leaseTokens L := by
  unfold JobRun.leaseTokens
  split
  · exact safe_observe_ret.mpr (hQ none L h)
  simp only [perform, call_bind, ret_bind, safe_observe_call]
  refine ⟨⟨h.fit, trivial⟩, fun (pair : MarkerPair) => ?_⟩
  have h' : Upto j (some pair) [] [] { L with tokens := some pair } :=
    ⟨rfl, h.armed, h.accepted, List.nil_prefix, h.running, .inl hj.kept⟩
  refine ⟨⟨h'.fit, trivial⟩, fun _ => ⟨⟨h'.fit, trivial⟩, fun _ => ⟨⟨h'.fit, trivial⟩, fun _ => ?_⟩⟩⟩
  exact safe_observe_ret.mpr (hQ _ _ h')

/-- The release of a lease is after the end of the job. -/
theorem safe_releaseTokens {Q : Unit → Ledger → Prop} (h : Settled j L) (hQ : Q () L) :
    Safe (books j) Q (JobRun.releaseTokens lease) L := by
  cases lease with
  | none => exact safe_observe_ret.mpr hQ
  | some pair =>
    simp only [JobRun.releaseTokens, perform, safe_observe_call, safe_observe_ret]
    exact ⟨⟨h.1, trivial⟩, fun _ => hQ⟩

theorem safe_leased (hj : OnEscpos j) (h : Upto j none [] [] L) :
    Safe (books j) (Stage j fun _ => False) (j.leased c) L := by
  refine Safe.bind (safe_leaseTokens hj h fun lease L1 h1 => ?_)
  refine Safe.bind ((safe_printStages hj h1).mono fun c2 L2 h2 => ?_)
  cases c2 with
  | some _ => exact h2.elim
  | none => exact Safe.bind (safe_releaseTokens h2 (safe_observe_ret.mpr h2))

theorem safe_runEscposJob (hj : OnEscpos j) (h : Upto j none [] [] L) :
    Safe (books j) (Stage j fun _ => False) j.runEscposJob L := by
  refine safe_aside h rfl (fun _ => rfl) fun connected => ?_
  split
  · exact safe_failKnown h
  refine safe_aside h rfl (fun _ => rfl) fun _ => safe_aside h rfl (fun _ => rfl) fun _ => ?_
  refine Safe.bind ((safe_preflight h).mono fun c1 L1 h1 => ?_)
  exact safe_next (fun c L h => safe_leased hj h) h1

end Escpos

/-! ### The Star stages -/

section Star
variable {j : JobRun} {L : Ledger} {c : ConfidenceLevel}

/-- A fence is armed: what was built grows by it. -/
theorem safe_armStarFence {α : Type} {Q : α → Ledger → Prop} {fences : List Bytes} {bytes : Bytes}
    {part : Part} {f : Bytes → Prog Worker α} (h : Upto j none fences bytes L)
    (hfit : ∀ fence, bytes <+: j.built none (fences.concat fence))
    (hf : ∀ fence L', Upto j none (fences.concat fence) bytes L' → L'.states = L.states →
      Safe (books j) Q (f fence) L') :
    Safe (books j) Q
      ((perform (E := Worker) (.armStarFence part j.profile.completion) : Prog Worker Bytes) >>= f)
      L := by
  simp only [perform, call_bind, ret_bind, safe_observe_call]
  refine ⟨⟨h.fit, trivial⟩, fun (fence : Bytes) => hf fence _ ?_ rfl⟩
  exact ⟨h.tokens, by simp [Ledger.post, h.armed], h.accepted, hfit fence, h.running, h.kept⟩

theorem safe_starPreamble (h : Upto j none [] [] L) :
    Safe (books j) (Stage j (Upto j none [] [])) (j.starPreamble c) L := by
  unfold JobRun.starPreamble
  split
  · refine Safe.bind (safe_sendAside .preamble (by decide) h fun sent => ?_)
    split
    · exact safe_failKnown h
    · exact safe_aside h rfl (fun _ => rfl) fun _ => safe_observe_ret.mpr h
  · exact safe_observe_ret.mpr h

theorem safe_sendStarPayload (hj : j.runsOnStar = true) (h : Upto j none [] [] L) :
    Safe (books j) (Stage j (Upto j none [] (j.builtPayload none))) (j.sendStarPayload c) L := by
  unfold JobRun.sendStarPayload
  cases hb : j.buildStarPayload with
  | none => exact safe_uncaught h
  | some wire =>
    have hwire : wire = j.builtPayload none := by simp [JobRun.builtPayload, hj, hb]
    subst hwire
    exact safe_sendPayload h rfl

/-- The end of an unfenced job: it is done, whatever became of its cut. -/
theorem safe_starDone {e : JobEvidence} (ht : L.tokens = none) (hf : L.fences = [])
    (hfit : L.accepted <+: j.built none [])
    (hsent : j.builtPayload none ++ j.builtPrintFence none [] <+: L.accepted)
    (hiff : L.accepted = j.built none [] ↔ ¬ CutLost j L) :
    Safe (books j) (Stage j fun _ => False) (do
      advance j.id .bytesSent (j.reached c) .none
      j.succeed (j.reached .transportAccepted) e) L := by
  have hfit' : L.accepted <+: j.built L.tokens L.fences := by rwa [ht, hf]
  refine Safe.bind (safe_advance ⟨hfit', by simpa [ht, hf] using hsent⟩ ?_)
  refine Safe.bind (safe_terminate (by decide) hfit' (safe_observe_ret.mpr ⟨hfit', ?_⟩))
  simp only [List.mem_append, List.mem_singleton, or_true, true_imp_iff, ht, hf]
  exact hiff

theorem safe_starUnfenced (hj : j.runsOnStar = true) (hn : j.profile.completion = .none)
    (h : Upto j none [] (j.builtPayload none) L) :
    Safe (books j) (Stage j fun _ => False) (j.starUnfenced c) L := by
  have hfence : j.builtPrintFence none [] = [] := by simp [JobRun.builtPrintFence, hj]
  have hbuilt : j.built none [] = j.builtPayload none ++ j.builtCut none [] := by
    simp [JobRun.built, hfence]
  have hcut0 : L.cutRefused = false ∧ L.cutAccepted = [] :=
    h.kept.resolve_left fun hk => hk { cutRefused := true } ⟨hj, hn, rfl, by
      simp [JobRun.starCut, StarEncoder.cut, StarEncoder.raw]⟩
  unfold JobRun.starUnfenced JobRun.sendStarCut
  split
  · rename_i hcut
    have hall : j.built none [] = j.builtPayload none := by
      simp [hbuilt, JobRun.builtCut, hcut]
    refine safe_starDone h.tokens h.armed (h.accepted ▸ h.fits) ?_ ?_
    · rw [hfence, List.append_nil, h.accepted]
    · simp [h.accepted, hall, h.notLost]
  · rename_i hcut
    have hall : j.built none [] = j.builtPayload none ++ j.starCut := by
      simp [hbuilt, JobRun.builtCut, hcut, hj]
    have hfit : j.builtPayload none ++ j.starCut <+: j.built none [] := hall ▸ List.prefix_refl _
    refine Safe.bind (Safe.bind (safe_sendPiece h hfit (fun _ hc => absurd hn hc)
      fun sent acc hacc hok => safe_observe_ret.mpr ?_))
    refine safe_starDone h.tokens h.armed ?_ ?_ ?_
    · simpa [Ledger.send, h.accepted, hall] using hacc
    · simp [Ledger.send, h.accepted, hfence]
    · -- what the transport said and what it accepted decide together
      have hlost : CutLost j (L.send .cut acc sent.ok) ↔ sent.ok = false ∧ acc ≠ j.starCut := by
        simp [CutLost, Ledger.send, hj, hn, hcut0.1, hcut0.2]
      rw [hlost, hall]
      simp only [Ledger.send, h.accepted, List.append_cancel_left_eq]
      by_cases hs : sent.ok = true
      · simp [hs, hok hs]
      · simp [hs]

/-- What was sent before the cut of a fenced Star job. -/
theorem star_fence (hj : j.runsOnStar = true) (fence : Bytes) (fences : List Bytes) :
    j.builtPrintFence none (fence :: fences) = fence := by
  simp [JobRun.builtPrintFence, hj]

theorem notLost_of_fence (hn : j.profile.completion ≠ .none) (L : Ledger) : ¬ CutLost j L :=
  fun h => hn h.2.1

theorem safe_starPrintFence (hj : j.runsOnStar = true)
    (h : Upto j none [] (j.builtPayload none) L) :
    Safe (books j)
      (Stage j fun L => ∃ fence, Upto j none [fence] (j.builtPayload none ++ fence) L ∧
        .printConfirmed ∈ L.states ∧ j.cut ≠ .none)
      (j.starPrintFence c) L := by
  have hfit : ∀ fence fences, j.builtPayload none ++ fence <+: j.built none (fence :: fences) := by
    intro fence fences
    rw [JobRun.built, star_fence hj]
    exact List.prefix_append _ _
  refine safe_armStarFence h (fun fence => (List.prefix_append _ _).trans (hfit fence []))
    fun fence L1 h1 _ => ?_
  change Upto j none [fence] (j.builtPayload none) L1 at h1
  refine Safe.bind (safe_sendPiece h1 (hfit fence []) (by simp) fun sent acc hacc hok => ?_)
  have hsent : Upto j none [fence] _ (L1.send .printFence acc sent.ok) :=
    h1.send (.inr rfl) (hfit fence []) hacc
  split
  · exact safe_failUnknown hsent
  rename_i hs
  have hacc : acc = fence := hok (by simpa using hs)
  subst hacc
  refine Safe.bind (safe_advance ⟨hsent.fit, ?_⟩ ?_)
  · show j.builtPayload _ ++ j.builtPrintFence _ _ <+: _
    rw [hsent.tokens, hsent.armed, hsent.accepted, star_fence hj]
  have h2 := hsent.states [.bytesSent] (by decide)
  refine safe_aside h2 rfl (fun _ => rfl) fun ack => ?_
  split
  · exact safe_failUnknown h2
  refine Safe.bind (safe_advance ⟨h2.fit, trivial⟩ ?_)
  have h3 := h2.states [.printConfirmed] (by decide)
  split
  · rename_i hcut
    exact safe_succeed h3 (by simp [JobRun.built, star_fence hj, JobRun.builtCut, hcut])
  · rename_i hcut
    exact safe_observe_ret.mpr ⟨acc, h3, by simp, hcut⟩

theorem safe_starCutFence (hj : j.runsOnStar = true) (hn : j.profile.completion ≠ .none)
    {fence : Bytes} (h : Upto j none [fence] (j.builtPayload none ++ fence) L)
    (hp : .printConfirmed ∈ L.states) (hcut : j.cut ≠ .none) :
    Safe (books j) (Stage j fun _ => False) (j.starCutFence c) L := by
  have hall : ∀ fence', j.built none [fence, fence'] =
      j.builtPayload none ++ fence ++ (j.starCut ++ fence') := by
    intro fence'
    simp [JobRun.built, star_fence hj, JobRun.builtCut, hcut, hj]
  refine safe_armStarFence h (fun fence' => ?_) fun fence' L1 h1 hst => ?_
  · show _ <+: j.built none [fence, fence']
    rw [hall]
    exact List.prefix_append _ _
  change Upto j none [fence, fence'] (j.builtPayload none ++ fence) L1 at h1
  have hfit : j.builtPayload none ++ fence ++ (j.starCut ++ fence') <+:
      j.built none [fence, fence'] := hall fence' ▸ List.prefix_refl _
  refine Safe.bind (safe_sendPiece h1 hfit (fun _ _ => hst ▸ hp) fun sent acc hacc hok => ?_)
  have hsent : Upto j none [fence, fence'] _ (L1.send .cut acc sent.ok) :=
    h1.sendKept (.inr (.inr rfl)) hfit hacc (notLost_of_fence hn)
  split
  · exact safe_failUnknown hsent
  rename_i hs
  have hacc : acc = j.starCut ++ fence' := hok (by simpa using hs)
  subst hacc
  refine safe_aside hsent rfl (fun _ => rfl) fun ack => ?_
  split
  · exact safe_failUnknown hsent
  refine Safe.bind (safe_advance ⟨hsent.fit, trivial⟩ ?_)
  exact safe_succeed (hsent.states [.cutCommandProcessed] (by decide)) (hall fence').symm

theorem safe_runStarJob (hj : j.runsOnStar = true) (h : Upto j none [] [] L) :
    Safe (books j) (Stage j fun _ => False) j.runStarJob L := by
  refine safe_aside h rfl (fun _ => rfl) fun connected => ?_
  split
  · exact safe_failKnown h
  refine safe_aside h rfl (fun _ => rfl) fun _ => safe_aside h rfl (fun _ => rfl) fun _ => ?_
  refine Safe.bind ((safe_starPreamble h).mono fun c1 L1 h1 => ?_)
  refine Safe.bind ((safe_next (fun c L => safe_sendStarPayload hj) h1).mono fun c2 L2 h2 => ?_)
  split
  · rename_i hn
    exact safe_next (fun c L => safe_starUnfenced hj hn) h2
  · rename_i hn
    refine Safe.bind ((safe_next (fun c L => safe_starPrintFence hj) h2).mono
      fun c3 L3 h3 => ?_)
    exact safe_next (fun c L ⟨fence, h, hp, hcut⟩ => safe_starCutFence hj hn h hp hcut) h3

end Star

/-! ### The job -/

/-- **Every call fits, and a job that is over is settled.** -/
theorem safe_runJob (j : JobRun) : Safe (books j) (fun _ => Settled j) j.runJob {} := by
  have h : Upto j none [] [] {} := by
    refine ⟨rfl, rfl, rfl, List.nil_prefix, by simp, .inr ⟨rfl, rfl⟩⟩
  have hstages : Safe (books j) (Stage j fun _ => False) j.runStages {} := by
    unfold JobRun.runStages
    split
    · rename_i hj
      exact safe_runEscposJob hj h
    · rename_i hj
      split
      · rename_i hs
        exact safe_runStarJob (by simp [JobRun.runsOnStar, hs, hj]) h
      · exact safe_failKnown h
  refine Safe.bind (hstages.mono fun c L hL => safe_observe_ret.mpr ?_)
  cases c with
  | some _ => exact hL.elim
  | none => exact hL

/-- What the bytes of a run must satisfy. -/
structure Accounted (j : JobRun) (t : List Entry) : Prop where
  /-- What the transport accepted is a prefix of what was built. -/
  inOrder : (ledger t).accepted <+: j.built (ledger t).tokens (ledger t).fences
  /-- With a completion fence, every write of the cut comes after `PrintConfirmed`. -/
  cutLast : ∀ before data result after, t = before ++ ⟨.write .cut data, result⟩ :: after →
    j.profile.completion ≠ .none → .printConfirmed ∈ (ledger before).states
  /-- `BytesSent` comes after the payload and the print fence. -/
  bytesSent : ∀ before id confidence reason evidence answer after,
    t = before ++ ⟨.recordState id .bytesSent confidence reason evidence, answer⟩ :: after →
      j.builtPayload (ledger before).tokens ++
        j.builtPrintFence (ledger before).tokens (ledger before).fences <+:
          (ledger before).accepted
  /-- A job is done only when everything built for it was accepted. -/
  done : .doneSoftware ∈ (ledger t).states →
    (ledger t).accepted = j.built (ledger t).tokens (ledger t).fences

/-- The job has ended, or an exception has left its worker. -/
def Over (q : Prog Worker Unit) : Prop := q = .ret () ∨ ∃ k, q = .call .uncaught k

/-- **The bytes of a job are accounted for, unless an unfenced Star cut was lost.** -/
theorem accounted_iff {j : JobRun} {t : List Entry} {q : Prog Worker Unit}
    (h : Trace j.runJob t q) (hq : Over q) : Accounted j t ↔ ¬ CutLost j (ledger t) := by
  have hbefore : ∀ {u : List Entry} {p : Prog Worker Unit}, Trace j.runJob u p →
      Safe (books j) (fun _ => Settled j) p (ledger u) :=
    fun hu => Safe.trace hu (safe_runJob j)
  have hfit : (ledger t).accepted <+: j.built (ledger t).tokens (ledger t).fences := by
    rcases hq with rfl | ⟨k, rfl⟩
    · exact (hbefore h).ret.1
    · exact (hbefore h).allowed.1
  have hdone : (.doneSoftware ∈ (ledger t).states →
      (ledger t).accepted = j.built (ledger t).tokens (ledger t).fences) ↔
        ¬ CutLost j (ledger t) := by
    rcases hq with rfl | ⟨k, rfl⟩
    · exact (hbefore h).ret.2
    · have hu := (hbefore h).allowed.2
      exact ⟨fun _ => hu.2, fun _ hd => absurd hd hu.1⟩
  refine ⟨fun hacc => hdone.mp hacc.done, fun hl => ⟨hfit, ?_, ?_, hdone.mpr hl⟩⟩
  · rintro before data result after rfl hn
    obtain ⟨k, hk, _⟩ := h.split
    exact (hbefore hk).allowed.2 hn
  · rintro before id confidence reason evidence answer after rfl
    obtain ⟨k, hk, _⟩ := h.split
    exact (hbefore hk).allowed.2

/-! ### A cut that the transport refuses -/

/-- A raw receipt with a full cut for a Star printer without a completion fence. -/
def unfencedJob : JobRun where
  id := str "job"
  key := str "order"
  payload := .raw (str "hi")
  options := { cut := .full }
  attempt := 1
  banner := false
  profile := { language := .starLine, completion := .none }
  widthDots := 576
  codecs := plainCodecs
  completionMethod _ := none

/-- A link that accepts everything, except perhaps the cut. -/
def link (takesCut : Bool) : (c : Call) → Option c.Answer
  | .ensureConnected => some true
  | .write .cut data => some (⟨takesCut, if takesCut then data.length else 0⟩ : TransportResult)
  | .write _ data => some (⟨true, data.length⟩ : TransportResult)
  | .io _ | .recordState _ _ _ _ _ | .emit _ _ | .finish _ _ => some ()
  | _ => none

theorem unfencedJob_accounted : Accounted unfencedJob (play (link true) unfencedJob.runJob).1 :=
  (accounted_iff (trace_play (link true) unfencedJob.runJob) (.inl rfl)).mpr (by decide)

/-- The link fails at the cut: the job is done and its cut was never written. -/
theorem unfencedJob_not_accounted :
    ∃ t, Trace unfencedJob.runJob t (.ret ()) ∧ ¬ Accounted unfencedJob t := by
  have hend : (play (link false) unfencedJob.runJob).2 = .ret () := rfl
  refine ⟨(play (link false) unfencedJob.runJob).1, hend ▸ trace_play _ _, fun h => ?_⟩
  exact absurd (h.done (by decide)) (by decide)

end PrinterDriver.Engine.Accounting
