import PrinterDriver.Core.Paper
import PrinterDriver.Core.ProbeRuns
import PrinterDriver.Core.StoredFindings
import PrinterDriver.Lib.Delimited

/-! # Detection without printing

`autoDetect` asks every candidate the three bytes of the sweep and, where nothing is stored for it, runs
the probe without its test lines. The registered probe steps run with it; the registry takes a step
only if its request has no printable byte and no line feed. Whatever a candidate does, no character is
printed and no paper moved, exactly if the requests also keep the bytes above `0x7F` and the form feed to
operands (`never_prints_iff`). -/

namespace PrinterDriver.Core.AutoDetect

open PrinterDriver.Core.Types PrinterDriver.Core.Probe PrinterDriver.Core.Paper
open PrinterDriver.Core.EscposParser (DleEotKind)
open PrinterDriver.Core.Encoder (dleEot gsPaperStatus processIdMarker)
open PrinterDriver.Core.ProbeRuns (ask_of_dead foldl_live)
open PrinterDriver.Core.StoredFindings (lastRun)
open PrinterDriver.Lib.Delimited (prefix_append_cases)

variable {F : Type}

/-! ### Registered steps -/

/-- A single clean token. -/
def isValidRegistrationId (id : Bytes) : Bool := id ≠ [] && id.all fun c => 0x20 < c && c ≠ 0x7F

def isNonPrintingRequest (bytes : Bytes) : Bool := bytes.all nonPrinting

/-- The steps with one more, or why it is not taken; every step has a classifier. -/
def addProbeStep (steps : List (ProbeStep F)) (step : ProbeStep F) :
    Except Bytes (List (ProbeStep F)) :=
  if !isValidRegistrationId step.id then
    .error (str "probe step id must be a non-empty namespaced token")
  else if !isNonPrintingRequest step.requestBytes then
    .error (str "probe step \"" ++ step.id ++ str ("\" request bytes contain printable data; a probe " ++
      "step must be non-printing (no 0x20-0x7E and no line feed)"))
  else if steps.any fun s => s.id = step.id then
    .error (str "probe step id already registered: " ++ step.id)
  else .ok (steps ++ [step])

/-- The registry after some attempts. -/
def registered (attempts : List (ProbeStep F)) : List (ProbeStep F) :=
  attempts.foldl (fun steps step => ((addProbeStep steps step).toOption).getD steps) []

theorem nonPrinting_of_add {steps steps' : List (ProbeStep F)} {step : ProbeStep F}
    (h : addProbeStep steps step = .ok steps')
    (hs : ∀ s ∈ steps, isNonPrintingRequest s.requestBytes = true) :
    ∀ s ∈ steps', isNonPrintingRequest s.requestBytes = true := by
  unfold addProbeStep at h
  split_ifs at h with h1 h2 h3
  cases h
  intro s hs'
  rcases List.mem_append.mp hs' with hs' | hs'
  · exact hs s hs'
  · rw [List.mem_singleton.mp hs']
    simpa using h2

/-- **Whatever was attempted, the registered requests have no printable byte and no line feed.** -/
theorem nonPrinting_of_registered (attempts : List (ProbeStep F)) :
    ∀ s ∈ registered attempts, isNonPrintingRequest s.requestBytes = true := by
  induction attempts using List.reverseRecOn with
  | nil => intro s hs; cases hs
  | append_singleton attempts step ih =>
    intro s hs
    rw [registered, List.foldl_append, List.foldl_cons, List.foldl_nil] at hs
    change s ∈ ((addProbeStep (registered attempts) step).toOption).getD (registered attempts) at hs
    rcases hadd : addProbeStep (registered attempts) step with error | steps
    · rw [hadd] at hs
      exact ih s hs
    · rw [hadd] at hs
      exact nonPrinting_of_add hadd ih s hs

/-! ### One candidate -/

/-- `DLE EOT 1`, the only write of the sweep. -/
def kDiscoveryProbe : Bytes := [0x10, 0x04, 0x01]

structure AutoDetectOptions where
  probeUnknown : Bool := true
  allowPrintingProbe : Bool := false
  deriving DecidableEq, Repr

/-- What a candidate does, and whether findings are stored for it. -/
structure Candidate where
  portOpen : Bool := true
  stored : Bool := false
  connects : Bool := true
  transcript : Transcript := {}

/-- What is written to a candidate, write by write. -/
def classify (o : AutoDetectOptions) (customSteps : List (ProbeStep F)) (c : Candidate) :
    List Bytes :=
  if !c.portOpen then []
  else if !c.stored && !o.probeUnknown then [kDiscoveryProbe]
  else if c.stored then [kDiscoveryProbe]
  else if !c.connects then [kDiscoveryProbe]
  else
    let options : ProbeOptions F :=
      { printTestLines := o.allowPrintingProbe, customSteps := customSteps }
    kDiscoveryProbe :: (lastRun options c.transcript).written

/-! ### What a probe writes -/

/-- A run that writes more, all of `all` if it goes on. -/
def Writes (r r' : Run F) (all : List Bytes) : Prop :=
  ∃ more, r'.written = r.written ++ more ∧ more <+: all ∧ (r'.live = true → more = all)

theorem Writes.trans {r r' r'' : Run F} {all all' : List Bytes} (h : Writes r r' all)
    (h' : Writes r' r'' all') (hdead : r'.live = false → r'' = r') : Writes r r'' (all ++ all') := by
  obtain ⟨more, hw, hpre, hall⟩ := h
  rcases hl : r'.live with _ | _
  · rw [hdead hl]
    exact ⟨more, hw, hpre.trans (List.prefix_append _ _), fun h => by rw [hl] at h; cases h⟩
  · obtain ⟨more', hw', hpre', hall'⟩ := h'
    refine ⟨more ++ more', by rw [hw', hw, List.append_assoc], ?_, fun h => by
      rw [hall hl, hall' h]⟩
    rw [hall hl]
    exact (List.prefix_append_right_inj _).mpr hpre'

section

variable {α : Type} {f : Run F → α → Run F} {c : α → List Bytes}

theorem foldl_of_dead (hdead : ∀ r a, r.live = false → f r a = r) (as : List α) :
    ∀ r : Run F, r.live = false → as.foldl f r = r := by
  induction as with
  | nil => exact fun _ _ => rfl
  | cons a as ih =>
    intro r hr
    rw [List.foldl_cons, hdead r a hr, ih r hr]

theorem writes_foldl (hf : ∀ r a, Writes r (f r a) (c a)) (hdead : ∀ r a, r.live = false → f r a = r)
    (as : List α) : ∀ r : Run F, Writes r (as.foldl f r) (as.flatMap c) := by
  induction as with
  | nil => exact fun r => ⟨[], (List.append_nil _).symm, List.prefix_rfl, fun _ => rfl⟩
  | cons a as ih =>
    intro r
    rw [List.foldl_cons, List.flatMap_cons]
    exact (hf r a).trans (ih (f r a)) (foldl_of_dead hdead as (f r a))

end

/-- What a query writes: its request and, behind the last, the end of the status reports. -/
def queryWrites (printTestLines : Bool) (q : Query) : List Bytes :=
  q.request printTestLines :: if q = .asb then [asbDisable] else []

def stepWrites (step : ProbeStep F × ℕ) : List Bytes :=
  if step.1.requestBytes = [] then [] else [step.1.requestBytes]

theorem writes_dead {r : Run F} (h : r.live = false) (all : List Bytes) : Writes r r all :=
  ⟨[], (List.append_nil _).symm, List.nil_prefix, fun hl => by rw [h] at hl; cases hl⟩

theorem writes_ask (o : ProbeOptions F) (t : Transcript) (r : Run F) (q : Query) :
    Writes r (ask o t r q) (queryWrites o.printTestLines q) := by
  rcases hl : r.live with _ | _
  · rw [ask_of_dead o t q hl]
    exact writes_dead hl _
  · have hlive : ¬(!r.live) = true := by simp [hl]
    unfold ask
    rw [if_neg hlive]
    dsimp only
    split_ifs with hw hq
    · exact ⟨[q.request o.printTestLines], rfl, by simp [queryWrites], fun h => by cases h⟩
    · refine ⟨queryWrites o.printTestLines q, ?_, List.prefix_rfl, fun _ => rfl⟩
      simp [queryWrites, hq]
    · refine ⟨queryWrites o.printTestLines q, ?_, List.prefix_rfl, fun _ => rfl⟩
      simp [queryWrites, hq]

theorem askCustom_of_dead (t : Transcript) {r : Run F} (step : ProbeStep F × ℕ)
    (h : r.live = false) : askCustom t r step = r := by
  unfold askCustom
  rw [if_pos (by simp [h])]

/-- Steps whose writes all succeed leave the run alive. -/
theorem live_foldl_askCustom {t : Transcript} (hw : ∀ k, (t.custom k).wrote = true)
    (steps : List (ProbeStep F × ℕ)) :
    ∀ r : Run F, (steps.foldl (askCustom t) r).live = r.live := by
  induction steps with
  | nil => exact fun _ => rfl
  | cons step steps ih =>
    intro r
    have hstep : (askCustom t r step).live = r.live := by
      have hno : ¬(step.1.requestBytes ≠ [] ∧ (!(t.custom step.2).wrote) = true) := by
        rw [hw]
        simp
      unfold askCustom
      dsimp only
      rw [if_neg hno]
      split_ifs <;> rfl
    rw [List.foldl_cons, ih, hstep]

theorem writes_askCustom (t : Transcript) (r : Run F) (step : ProbeStep F × ℕ) :
    Writes r (askCustom t r step) (stepWrites step) := by
  rcases hl : r.live with _ | _
  · rw [askCustom_of_dead t step hl]
    exact writes_dead hl _
  · have hlive : ¬(!r.live) = true := by simp [hl]
    unfold askCustom
    rw [if_neg hlive]
    dsimp only
    have hwritten : (if step.1.requestBytes = [] then r.written
        else r.written ++ [step.1.requestBytes]) = r.written ++ stepWrites step := by
      unfold stepWrites
      split_ifs
      · exact (List.append_nil _).symm
      · rfl
    rw [hwritten]
    split_ifs
    all_goals exact ⟨stepWrites step, rfl, List.prefix_rfl, fun _ => rfl⟩

/-- The writes of the probe before the registered steps. -/
def ownWrites (printTestLines : Bool) : List Bytes :=
  ([0x1B, 0x40] ++ asbDisable) :: Query.all.flatMap (queryWrites printTestLines)

theorem flatten_stepWrites (steps : List (ProbeStep F)) :
    (steps.zipIdx.flatMap stepWrites).flatten = steps.flatMap fun s => s.requestBytes := by
  have hstep : ∀ step : ProbeStep F × ℕ, (stepWrites step).flatten = step.1.requestBytes := by
    intro step
    unfold stepWrites
    split_ifs with h
    · exact h.symm
    · simp
  have hindex : ∀ (steps : List (ProbeStep F)) (k : ℕ),
      ((steps.zipIdx k).flatMap stepWrites).flatten = steps.flatMap fun s => s.requestBytes := by
    intro steps
    induction steps with
    | nil => exact fun _ => rfl
    | cons s steps ih =>
      intro k
      rw [List.zipIdx_cons, List.flatMap_cons, List.flatten_append, hstep, ih, List.flatMap_cons]
  exact hindex steps 0

/-- **A run writes its requests in order**, up to the write that failed. -/
theorem written_lastRun (o : ProbeOptions F) (t : Transcript) :
    (lastRun o t).written <+: ownWrites o.printTestLines ++ o.customSteps.zipIdx.flatMap stepWrites ∧
      ((lastRun o t).live = true →
        (lastRun o t).written = ownWrites o.printTestLines ++ o.customSteps.zipIdx.flatMap stepWrites) := by
  have hown := writes_foldl (writes_ask o t) (fun r q h => ask_of_dead o t q h) Query.all (begun t)
  have hsteps := writes_foldl (writes_askCustom t) (fun r step h => askCustom_of_dead t step h)
    o.customSteps.zipIdx (Query.all.foldl (ask o t) (begun t))
  obtain ⟨more, hw, hpre, hall⟩ := hown.trans hsteps
    (foldl_of_dead (fun r step h => askCustom_of_dead t step h) o.customSteps.zipIdx _)
  have hwritten : (lastRun o t).written = ([0x1B, 0x40] ++ asbDisable) :: more := hw
  rw [hwritten]
  constructor
  · exact (List.prefix_append_right_inj [[0x1B, 0x40] ++ asbDisable]).mpr hpre
  · intro h
    rw [hall h]
    rfl

/-! ### What the candidate prints -/

/-- Everything that is written before the registered steps. -/
def ownBytes : Bytes := kDiscoveryProbe ++ (ownWrites false).flatten

theorem whole_dleEot (kind : DleEotKind) : Whole (dleEot kind) := fun y =>
  @marks_command 0x10 (0x04 :: kind.toByte :: y) 2 [] rfl

theorem whole_gsIdentity (n : UInt8) : Whole (gsIdentity n) := fun y =>
  @marks_command 0x1D (0x49 :: n :: y) 2 [] rfl

theorem whole_asbEnable : Whole asbEnable := fun y =>
  @marks_command 0x1D (0x61 :: 0x0E :: y) 2 [] rfl

theorem whole_asbDisable : Whole asbDisable := fun y =>
  @marks_command 0x1D (0x61 :: 0x00 :: y) 2 [] rfl

theorem whole_initialize : Whole [0x1B, 0x40] := fun y => @marks_command 0x1B (0x40 :: y) 1 [] rfl

theorem whole_gsPaperStatus : Whole gsPaperStatus := fun y =>
  @marks_command 0x1D (0x72 :: 0x01 :: y) 2 [] rfl

/-- The four letters of the token are arguments. -/
theorem whole_marker : Whole ((processIdMarker kProbeToken).getD []) := fun y =>
  @marks_command 0x1D
    (0x28 :: 0x48 :: 0x06 :: 0x00 :: 0x30 :: 0x30 :: 0x50 :: 0x52 :: 0x42 :: 0x30 :: y) 10 [] rfl

/-- **Without its test lines a query is a command that leaves the paper alone.** -/
theorem whole_request (q : Query) : Whole (q.request false) := by
  rcases q with kind | field | field | _ | _ | _
  · exact whole_dleEot kind
  · cases field <;> exact whole_gsIdentity _
  · cases field <;> exact whole_gsIdentity _
  · exact whole_marker
  · exact whole_gsPaperStatus
  · exact whole_asbEnable

theorem whole_ownBytes : Whole ownBytes := by
  refine Whole.append (whole_dleEot .printerStatus) (whole_flatten fun x hx => ?_)
  rcases List.mem_cons.mp hx with rfl | hx
  · exact whole_initialize.append whole_asbDisable
  · obtain ⟨q, -, hq⟩ := List.mem_flatMap.mp hx
    rcases List.mem_cons.mp hq with rfl | hq
    · exact whole_request q
    · split_ifs at hq
      · rw [List.mem_singleton.mp hq]
        exact whole_asbDisable
      · cases hq

/-- A write that was cut off leaves a command that waits. -/
theorem marks_prefix_ownBytes {out : Bytes} (h : out <+: ownBytes) : marks out = [] := by
  have hall : ((List.range 80).all fun k => marks (ownBytes.take k) = []) = true := by decide
  have hlen : out.length ≤ ownBytes.length := h.length_le
  have hown : ownBytes.length < 80 := by decide
  have hk := List.all_eq_true.mp hall out.length (List.mem_range.mpr (by omega))
  rw [List.prefix_iff_eq_take.mp h]
  exact of_decide_eq_true hk

section

variable (attempts : List (ProbeStep F))

/-- The requests of the registered steps, one behind the other. -/
def requests : Bytes := (registered attempts).flatMap fun s => s.requestBytes

theorem nonPrinting_requests : ∀ b ∈ requests attempts, nonPrinting b = true := by
  intro b hb
  obtain ⟨s, hs, hb⟩ := List.mem_flatMap.mp hb
  exact List.all_eq_true.mp (nonPrinting_of_registered attempts s hs) b hb

/-- The probe that `classify` runs. -/
def printless (customSteps : List (ProbeStep F)) : ProbeOptions F :=
  { printTestLines := false, customSteps := customSteps }

theorem flatten_printless : (ownWrites false ++
      (printless (registered attempts)).customSteps.zipIdx.flatMap stepWrites).flatten =
    (ownWrites false).flatten ++ requests attempts := by
  rw [List.flatten_append, flatten_stepWrites]
  rfl

/-- A candidate is written a prefix of the sweep's bytes, the probe's and the requests. -/
theorem classify_initial {o : AutoDetectOptions} (ho : o.allowPrintingProbe = false) (c : Candidate) :
    (classify o (registered attempts) c).flatten <+: ownBytes ++ requests attempts := by
  have hsweep : [kDiscoveryProbe].flatten <+: ownBytes ++ requests attempts := by
    rw [ownBytes, List.append_assoc, List.flatten_singleton]
    exact List.prefix_append _ _
  unfold classify
  split_ifs
  · exact List.nil_prefix
  · exact hsweep
  · exact hsweep
  · exact hsweep
  · dsimp only
    rw [ho, List.flatten_cons, ownBytes, List.append_assoc]
    refine (List.prefix_append_right_inj kDiscoveryProbe).mpr ?_
    obtain ⟨rest, hrest⟩ := (written_lastRun (printless (registered attempts)) c.transcript).1
    have hflat := congrArg List.flatten hrest
    rw [List.flatten_append] at hflat
    exact ⟨rest.flatten, hflat.trans (flatten_printless attempts)⟩

/-- A candidate that takes every write is written all of it. -/
theorem classify_whole : (classify {} (registered attempts) {}).flatten =
    ownBytes ++ requests attempts := by
  have hlive : (lastRun (printless (registered attempts)) {}).live = true := by
    rw [lastRun, live_foldl_askCustom (fun _ => rfl), foldl_live]
    rfl
  show kDiscoveryProbe ++ (lastRun (printless (registered attempts)) {}).written.flatten = _
  rw [(written_lastRun (printless (registered attempts)) {}).2 hlive, ownBytes, List.append_assoc]
  exact congrArg (kDiscoveryProbe ++ ·) (flatten_printless attempts)

end

/-- **No candidate prints or moves paper, whatever it does and wherever a write is cut off, exactly if in
the registered requests every byte from `0x80` on and every form feed is the operand of a `DLE EOT` or a
`DLE ENQ`.** -/
theorem never_prints_iff (attempts : List (ProbeStep F)) :
    (∀ o : AutoDetectOptions, o.allowPrintingProbe = false → ∀ (c : Candidate) (out : Bytes),
        out <+: (classify o (registered attempts) c).flatten → marks out = []) ↔
      operandsOnly ((registered attempts).flatMap fun s => s.requestBytes) = true := by
  have hbytes := nonPrinting_requests attempts
  constructor
  · intro h
    have hall := h {} rfl {} _ (List.prefix_refl _)
    rw [classify_whole, whole_ownBytes] at hall
    exact (marks_eq_nil_iff hbytes).mp hall
  · intro h o ho c out hout
    rcases prefix_append_cases (hout.trans (classify_initial attempts ho c)) with hown | ⟨r, rfl, hr⟩
    · exact marks_prefix_ownBytes hown
    · rw [whole_ownBytes]
      exact (marks_eq_nil_iff fun b hb => hbytes b (hr.subset hb)).mpr (operandsOnly_initial h hr)

/-- A step that the registry takes. -/
def formFeedStep : ProbeStep Unit := ⟨str "acme.status", [0x0C], fun _ => ()⟩

/-- **A form feed is registered, and moves the paper of every candidate.** -/
theorem form_feed_registered : ¬∀ attempts : List (ProbeStep Unit), ∀ o : AutoDetectOptions,
    o.allowPrintingProbe = false → ∀ c : Candidate,
      marks (classify o (registered attempts) c).flatten = [] := by
  intro h
  have hmarks := h [formFeedStep] {} rfl {}
  rw [classify_whole, whole_ownBytes] at hmarks
  revert hmarks
  decide

end PrinterDriver.Core.AutoDetect
