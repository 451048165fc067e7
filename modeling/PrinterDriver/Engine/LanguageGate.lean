import PrinterDriver.Engine.Accounting
import PrinterDriver.Engine.DrawerSafety

/-! # The gate in front of a printer that does not speak ESC/POS

A job goes to the ESC/POS engine, to the Star engine, or nowhere; `openDrawer` looks at the language
as well. Two things pass by the gate: a registered completion method, which takes a job of any
language to the ESC/POS engine, and `openCashDrawer`, which looks at nothing. `gated_iff` says that
there is nothing else. -/

namespace PrinterDriver.Engine.LanguageGate

open PrinterDriver.Lib.Programs PrinterDriver.Core.Types PrinterDriver.Core.Profile
  PrinterDriver.Core PrinterDriver.Core.Encoder PrinterDriver.Core.CashDrawer
  PrinterDriver.Engine.Io PrinterDriver.Engine.Ops PrinterDriver.Engine.RunJob
  PrinterDriver.Engine.Accounting PrinterDriver.Engine.Drawer PrinterDriver.Engine.DrawerSafety
  PrinterDriver.Engine.QuietCalls

open Prog

/-! ### What the Star engine writes -/

def IsStarFence (fence : Bytes) : Prop :=
  fence = Star.etbFence ∨ ∃ n1 n2, fence = Star.escGsEtxFence n1 n2

/-- What the Star engine builds for a job. -/
inductive StarWire (j : JobRun) : Bytes → Prop
  | preamble : StarWire j (Star.asbEnable ++ Star.clearEtbCounter)
  | payload {wire : Bytes} (h : j.buildStarPayload = some wire) : StarWire j wire
  | printFence {fence : Bytes} (h : IsStarFence fence) : StarWire j fence
  | cut : StarWire j j.starCut
  | cutFence {fence : Bytes} (h : IsStarFence fence) : StarWire j (j.starCut ++ fence)

/-- The bytes of one write are a piece of what the Star engine builds. -/
def FromStar (j : JobRun) (data : Bytes) : Prop := ∃ wire, StarWire j wire ∧ data <:+: wire

/-- The fences of a run are those that the io state gives. -/
def Armed : (c : Call) → c.Answer → Prop
  | .armStarFence _ completion, fence => ∃ s : IoState, fence = (s.armStarFence completion).1
  | _, _ => True

/-- A write of bytes that the Star engine does not build. -/
def Strays (j : JobRun) (c : Call) : Prop :=
  ∃ part data, c = .write part data ∧ ¬ FromStar j data

/-! ### The gate -/

/-- A request to the driver. -/
inductive Request where
  | job (j : JobRun)
  | openDrawer (d : DrawerRun) (stopping : Bool)
  | openCashDrawer (profile : CapabilityProfile) (stopping : Bool)

def Request.profile : Request → CapabilityProfile
  | .job j => j.profile
  | .openDrawer d _ => d.profile
  | .openCashDrawer profile _ => profile

/-- A job that is refused: nothing is written, and all that is recorded is the refusal. -/
structure Refused (t : List Accounting.Entry) (q : Prog Worker Unit) : Prop where
  unwritten : ∀ part data result, ⟨.write part data, result⟩ ∉ t
  unsupported : ∀ id state confidence reason evidence answer,
    ⟨.recordState id state confidence reason evidence, answer⟩ ∈ t →
      state = .failedKnown ∧ reason = .unsupported
  terminated : q = .ret () → ∃ id confidence evidence answer,
    ⟨.recordState id .failedKnown confidence .unsupported evidence, answer⟩ ∈ t

/-- No ESC/POS bytes: a job is the Star engine's, and all it writes is, or it is refused; a drawer
call writes nothing. -/
def Request.Gated : Request → Prop
  | .job j => ∀ t q, Trace j.runJob t q → (∀ e ∈ t, Armed e.1 e.2) →
    (j.profile.drivableByStarEngine = true ∧ Trace (j.runStarJob >>= fun _ => .ret ()) t q ∧
      ∀ e ∈ t, ¬ Strays j e.1) ∨ Refused t q
  | .openDrawer d stopping => ∀ t q,
    Trace (if d.accepted stopping then d.openDrawer else .ret ()) t q →
      ∀ part data result, ⟨.worker (.write part data), result⟩ ∉ t
  | .openCashDrawer profile stopping => ∀ t q,
    Trace (if stopping then .ret () else openCashDrawerTask profile) t q →
      ∀ part data result, ⟨.write part data, result⟩ ∉ t

/-- No registered method takes the job to the other engine, and `openCashDrawer` comes too late. -/
def Request.Clean : Request → Prop
  | .job j => j.custom = none
  | .openDrawer _ _ => True
  | .openCashDrawer _ stopping => stopping = true

/-! ### The Star engine writes Star bytes -/

section Star
variable {j : JobRun} {c : ConfidenceLevel} {α : Type}

/-- The judgement of this section. -/
abbrev Starry (j : JobRun) (Q : α → Prop) (p : Prog Worker α) : Prop := Returns (Strays j) Armed Q p

theorem isStarFence_armed {s : IoState} {completion : CompletionMechanism} :
    IsStarFence (s.armStarFence completion).1 := by
  unfold IoState.armStarFence
  split
  · exact .inl rfl
  · exact .inr ⟨_, _, rfl⟩

theorem not_strays_write {part : Part} {data : Bytes} (h : FromStar j data) :
    ¬ Strays j (.write part data) := by
  rintro ⟨_, _, he, hstray⟩
  cases he
  exact hstray h

theorem starry_chunks {part : Part} {wire : Bytes} (h : StarWire j wire) :
    ∀ (cs : List Bytes) (offset : ℕ), (∀ d ∈ cs, d <:+: wire) →
      Starry j (fun _ => True) (sendChunks part cs offset)
  | [], _, _ => trivial
  | d :: cs, offset, hcs => by
    refine ⟨not_strays_write ⟨wire, h, hcs d List.mem_cons_self⟩, fun (r : TransportResult) _ => ?_⟩
    show Starry j _ (if r.ok then _ else _ : Prog Worker TransportResult)
    split
    · exact starry_chunks h cs _ fun d hd => hcs d (List.mem_cons_of_mem _ hd)
    · trivial

theorem starry_send {part : Part} {wire : Bytes} (h : StarWire j wire) :
    Starry j (fun _ => True) (sendPaced j.profile part wire) := by
  unfold sendPaced
  split
  · exact ⟨not_strays_write ⟨wire, h, List.infix_rfl⟩, fun _ _ => trivial⟩
  · refine starry_chunks h _ _ fun d hd => ?_
    have hflat := List.infix_of_mem_flatten hd
    rwa [chunks_flatten _ (le_refl _)] at hflat

/-- A program that does not write. -/
theorem starry_of_only {p : Prog Worker α}
    (h : p.Only fun c => ∀ part data, c ≠ (.write part data : Call)) : Starry j (fun _ => True) p :=
  returns_of_only (h.mono fun _ hc ⟨part, data, he, _⟩ => hc part data he)

theorem starry_terminate {id : Bytes} {state : JobState} {outcome : JobResult} :
    Starry j (fun _ => True) (terminate id state outcome) := by
  refine starry_of_only (terminate_only ?_ ?_ ?_)
  · exact fun _ _ _ _ h => nomatch h
  · exact fun _ _ _ _ h => nomatch h
  · exact fun _ _ h => nomatch h

theorem starry_advance {id : Bytes} {state : JobState} {confidence : ConfidenceLevel}
    {reason : FailureReason} {evidence : JobEvidence} :
    Starry j (fun _ => True) (advance id state confidence reason evidence) :=
  starry_of_only (advance_only (fun _ _ _ _ h => nomatch h) fun _ _ h => nomatch h)

/-- One part after the other. -/
theorem starry_bind {β : Type} {p : Prog Worker α} {f : α → Prog Worker β}
    (hp : Starry j (fun _ => True) p) (hf : ∀ a, Starry j (fun _ => True) (f a)) :
    Starry j (fun _ => True) (p >>= f) :=
  returns_bind.mpr (hp.mono fun a _ => hf a)

/-- A call that does not write. -/
theorem starry_call {call : Call} {k : call.Answer → Prog Worker α}
    (hc : ∀ part data, call ≠ .write part data)
    (hk : ∀ a, Armed call a → Starry j (fun _ => True) (k a)) :
    Starry j (fun _ => True) (.call (call : Worker.Call) k) :=
  ⟨fun ⟨part, data, he, _⟩ => hc part data he, hk⟩

theorem starry_fail {reason : FailureReason} {evidence : JobEvidence} :
    Starry j (fun _ => True) (j.failKnown reason c evidence) :=
  starry_bind starry_terminate fun _ => trivial

theorem starry_unknown {reason : FailureReason} :
    Starry j (fun _ => True) (j.failUnknown reason c) :=
  starry_bind starry_terminate fun _ => trivial

theorem starry_succeed {evidence : JobEvidence} :
    Starry j (fun _ => True) (j.succeed c evidence) :=
  starry_bind starry_terminate fun _ => trivial

theorem starry_next {stage : ConfidenceLevel → Prog Worker (Option ConfidenceLevel)}
    (h : ∀ c, Starry j (fun _ => True) (stage c)) :
    ∀ c, Starry j (fun _ => True) (JobRun.next stage c)
  | some c => h c
  | none => trivial

theorem starry_preamble : Starry j (fun _ => True) (j.starPreamble c) := by
  unfold JobRun.starPreamble
  split
  · refine starry_bind (starry_send .preamble) fun sent => ?_
    split
    · exact starry_fail
    · exact starry_call (fun _ _ h => nomatch h) fun _ _ => trivial
  · trivial

theorem starry_payload : Starry j (fun _ => True) (j.sendStarPayload c) := by
  unfold JobRun.sendStarPayload
  cases hb : j.buildStarPayload with
  | none => exact starry_call (fun _ _ h => nomatch h) fun (e : Empty) => e.elim
  | some wire =>
    refine starry_bind starry_advance fun _ => ?_
    refine starry_bind (starry_send (.payload hb)) fun sent => ?_
    split
    · trivial
    · split
      · exact starry_fail
      · exact starry_unknown

theorem starry_unfenced : Starry j (fun _ => True) (j.starUnfenced c) := by
  refine starry_bind ?_ fun _ => starry_bind starry_advance fun _ => starry_succeed
  unfold JobRun.sendStarCut
  split
  · trivial
  · exact starry_bind (starry_send .cut) fun _ => trivial

theorem starry_printFence : Starry j (fun _ => True) (j.starPrintFence c) := by
  refine starry_call (fun _ _ h => nomatch h) fun fence ⟨s, hs⟩ => ?_
  have hfence : IsStarFence fence := hs ▸ isStarFence_armed
  change Starry j _ (sendPaced j.profile .printFence fence >>= fun sent => _)
  refine starry_bind (starry_send (.printFence hfence)) fun sent => ?_
  split
  · exact starry_unknown
  · refine starry_bind starry_advance fun _ =>
      starry_call (fun _ _ h => nomatch h) fun (ack : WaitOutcome) _ => ?_
    change Starry j _ (if ack ≠ .signalled then _ else _)
    split
    · exact starry_unknown
    · refine starry_bind starry_advance fun _ => ?_
      split
      · exact starry_succeed
      · trivial

theorem starry_cutFence : Starry j (fun _ => True) (j.starCutFence c) := by
  refine starry_call (fun _ _ h => nomatch h) fun fence ⟨s, hs⟩ => ?_
  have hfence : IsStarFence fence := hs ▸ isStarFence_armed
  change Starry j _ (sendPaced j.profile .cut (j.starCut ++ fence) >>= fun sent => _)
  refine starry_bind (starry_send (.cutFence hfence)) fun sent => ?_
  split
  · exact starry_unknown
  · refine starry_call (fun _ _ h => nomatch h) fun (ack : WaitOutcome) _ => ?_
    change Starry j _ (if ack ≠ .signalled then _ else _)
    split
    · exact starry_unknown
    · exact starry_bind starry_advance fun _ => starry_succeed

theorem starry_runStarJob : Starry j (fun _ => True) j.runStarJob := by
  refine starry_call (fun _ _ h => nomatch h) fun (connected : Bool) _ => ?_
  change Starry j _ (if !connected then _ else _)
  split
  · exact starry_fail
  · refine starry_call (fun _ _ h => nomatch h) fun _ _ =>
      starry_call (fun _ _ h => nomatch h) fun _ _ => ?_
    change Starry j _ (j.starPreamble .transportAccepted >>= fun c => _)
    refine starry_bind starry_preamble fun c => ?_
    refine starry_bind (starry_next (fun _ => starry_payload) c) fun c => ?_
    split
    · exact starry_next (fun _ => starry_unfenced) c
    · exact starry_bind (starry_next (fun _ => starry_printFence) c) fun c =>
        starry_next (fun _ => starry_cutFence) c

end Star

/-! ### What passes by the gate -/

section Gate
variable {j : JobRun}

/-- The calls of a refusal. -/
def Refuses : Call → Prop
  | .write _ _ => False
  | .recordState _ state _ reason _ => state = .failedKnown ∧ reason = .unsupported
  | _ => True

/-- The runs of a refusal. -/
theorem refused_of_unsupported {t : List Accounting.Entry} {q : Prog Worker Unit}
    (ht : Trace (j.failKnown .unsupported .transportAccepted noEvidence >>= fun _ => .ret ()) t q) :
    Refused t q := by
  have honly : (j.failKnown .unsupported .transportAccepted noEvidence >>= fun _ =>
      (.ret () : Prog Worker Unit)).Only Refuses := by
    refine Only.bind (Only.bind (terminate_only ?_ ?_ ?_) fun _ => trivial) fun _ => trivial
    exacts [fun _ _ => trivial, fun _ _ => trivial, ⟨rfl, rfl⟩]
  refine ⟨fun part data result hmem => honly.trace ht _ hmem,
    fun id state confidence reason evidence answer hmem => honly.trace ht _ hmem, fun hq => ?_⟩
  cases ht with
  | nil => cases hq
  | cons _ => exact ⟨_, _, _, _, List.mem_cons_self⟩

/-- Bytes that are sent are written. -/
theorem trace_send {profile : CapabilityProfile} {part : Part} {b : UInt8} {data : Bytes} :
    ∃ d result q, Trace (sendPaced profile part (b :: data)) [⟨.write part d, result⟩] q := by
  unfold sendPaced
  split
  · exact ⟨_, (⟨true, 0⟩ : TransportResult), _, .cons (.nil _)⟩
  · exact ⟨_, (⟨true, 0⟩ : TransportResult), _, .cons (.nil _)⟩

/-- **A printer that does not speak ESC/POS gets none of its bytes, unless a registered completion
method takes the job or `openCashDrawer` is called.** -/
theorem gated_iff {r : Request} (hlanguage : r.profile.language ≠ .escPos) : r.Gated ↔ r.Clean := by
  have hescpos : r.profile.drivableByEscposEngine = false := by
    simp [CapabilityProfile.drivableByEscposEngine, hlanguage]
  cases r with
  | job j =>
    constructor
    · intro h
      by_contra hcustom
      obtain ⟨m, hm⟩ := Option.ne_none_iff_exists'.mp hcustom
      have hrun : ∃ q, Trace j.runJob [⟨.ensureConnected, false⟩, ⟨.recordState j.id .failedKnown
          (j.reached .transportAccepted) .transportUnreachable
          ⟨noEvidence.grade, noEvidence.authority, noEvidence.method⟩, ()⟩] q := by
        unfold JobRun.runJob JobRun.runStages
        rw [if_pos (by rw [hm]; simp)]
        exact ⟨_, .cons (.cons (.nil _))⟩
      obtain ⟨q, hq⟩ := hrun
      have harmed : ∀ e ∈ [(⟨.ensureConnected, false⟩ : Accounting.Entry),
          ⟨.recordState j.id .failedKnown (j.reached .transportAccepted) .transportUnreachable
            ⟨noEvidence.grade, noEvidence.authority, noEvidence.method⟩, ()⟩], Armed e.1 e.2 := by
        intro e he
        rcases List.mem_cons.mp he with rfl | he
        · trivial
        · obtain rfl := List.mem_singleton.mp he
          trivial
      rcases h _ q hq harmed with ⟨hstar, _⟩ | hrefused
      · have hidle := completion_of_custom hm
        simp [CapabilityProfile.drivableByStarEngine, hidle, isDrivableByStarEngine] at hstar
      · have hreason := (hrefused.unsupported _ _ _ _ _ _
          (List.mem_cons_of_mem _ (List.mem_singleton.mpr rfl))).2
        cases hreason
    · intro hcustom t q ht harmed
      have hgate : ¬ (j.profile.drivableByEscposEngine || j.custom.isSome) = true := by
        have hd : j.profile.drivableByEscposEngine = false := hescpos
        have hc : j.custom = none := hcustom
        simp [hd, hc]
      unfold JobRun.runJob JobRun.runStages at ht
      rw [if_neg hgate] at ht
      by_cases hstar : j.profile.drivableByStarEngine = true
      · rw [if_pos hstar] at ht
        refine .inl ⟨hstar, ht, Returns.trace (Q := fun _ => True) ht ?_ harmed⟩
        exact starry_bind starry_runStarJob fun _ => trivial
      · rw [if_neg hstar] at ht
        exact .inr (refused_of_unsupported ht)
  | openDrawer d stopping =>
    refine iff_of_true (fun t q ht part data result hmem => ?_) trivial
    have hrefused : d.accepted stopping = false := by
      have hd : d.profile.drivableByEscposEngine = false := hescpos
      simp [DrawerRun.accepted, hd]
    rw [hrefused] at ht
    obtain rfl := trace_ret ht
    cases hmem
  | openCashDrawer profile stopping =>
    constructor
    · intro h
      by_contra hstop
      have hgo : stopping = false := Bool.eq_false_iff.mpr hstop
      obtain ⟨data, result, q, hq⟩ := @trace_send profile .drawer 0x1B [0x70, 0, 25, 25]
      have hrun : Trace (openCashDrawerTask profile)
          (⟨.ensureConnected, true⟩ :: [⟨.write .drawer data, result⟩]) _ := .cons (hq.bind _)
      rw [hgo] at h
      exact h _ _ hrun .drawer data result (by simp)
    · rintro hstop t q ht part data result hmem
      obtain rfl : stopping = true := hstop
      obtain rfl := trace_ret ht
      cases hmem

end Gate

/-! ### Past the gate -/

/-- A raw receipt for a Star printer, which a registered vendor method is to confirm. -/
def vendorJob : JobRun where
  id := str "job"
  key := str "order"
  payload := .raw (str "hi")
  options := { cut := .full, openDrawer := true, preflight := .skip, printVerificationId := false }
  attempt := 1
  banner := false
  profile := { language := .starLine, completion := .vendorIdle, completionVendorId := str "acme" }
  widthDots := 576
  codecs := plainCodecs
  completionMethod _ := some {
    id := str "acme", fenceBytes := fun token => token, matcher := fun rx => .matched rx
    methodName := str "idle" }

/-- The same receipt without the method. -/
def starJob : JobRun :=
  { vendorJob with profile := { language := .starLine, completion := .none } }

/-- A link that takes everything, and fences that are confirmed. -/
def confirms : (c : Call) → Option c.Answer
  | .ensureConnected => some true
  | .write _ data => some (⟨true, data.length⟩ : TransportResult)
  | .acquireTokens => some (⟨str "0000", str "0001"⟩ : MarkerPair)
  | .await _ _ => some .signalled
  | .io _ | .setTokens _ _ | .recordTokens _ _ | .registerTokens _ _ | .releaseTokens _
  | .recordState _ _ _ _ _ | .emit _ _ | .finish _ _ => some ()
  | _ => none

theorem starJob_gated : starJob.profile.language ≠ .escPos ∧ (Request.job starJob).Gated := by
  have hlanguage : starJob.profile.language ≠ .escPos := by decide
  exact ⟨hlanguage, (gated_iff (r := .job starJob) hlanguage).mpr rfl⟩

/-- `ESC p` and `GS V` reach the Star printer, by the job and by `openCashDrawer`. -/
theorem vendorJob_passes : vendorJob.profile.language = .starLine ∧
    (∃ t, Trace vendorJob.runJob t (.ret ()) ∧ .doneSoftware ∈ (ledger t).states ∧
      [0x1B, 0x70, 0, 25, 25] <:+: (ledger t).accepted ∧ [0x1D, 0x56] <:+: (ledger t).accepted) ∧
    ∃ t, Trace (openCashDrawerTask vendorJob.profile) t (.ret ()) ∧
      ⟨.write .drawer [0x1B, 0x70, 0, 25, 25], (⟨true, 5⟩ : TransportResult)⟩ ∈ t := by
  have hend : (play confirms vendorJob.runJob).2 = .ret () := rfl
  have hjob := trace_play confirms vendorJob.runJob
  rw [hend] at hjob
  refine ⟨rfl, ⟨_, hjob, by decide, by decide, by decide⟩, ⟨.ensureConnected, true⟩ ::
    [⟨.write .drawer [0x1B, 0x70, 0, 25, 25], (⟨true, 5⟩ : TransportResult)⟩], ?_, by simp⟩
  exact .cons (.cons (.nil _))

end PrinterDriver.Engine.LanguageGate
