import PrinterDriver.Engine.Printer
import PrinterDriver.Engine.StarRuns

/-! # Attribution of real-time status

A `DLE EOT` answer carries no identity: it is read as the kind that is expected first. An answer that
arrives after its own phase has given up is therefore taken by the next phase, whose own answers
are then read as other kinds (`late_answers_decide`). Where no byte that looks like an answer
arrives in a phase except the answers of that phase, in their order, every decision rests on the
phase's own answers (`decided_by_own_answers`). -/

namespace PrinterDriver.Engine.Realtime

open PrinterDriver.Lib.Programs PrinterDriver.Lib.Threads PrinterDriver.Core
  PrinterDriver.Core.Types PrinterDriver.Core.Profile PrinterDriver.Core.EscposParser
  PrinterDriver.Engine.Io PrinterDriver.Engine.Ops PrinterDriver.Engine.RunJob
  PrinterDriver.Engine.Session PrinterDriver.Engine.QuietCalls PrinterDriver.Engine.EscposRuns
  PrinterDriver.Engine.StarRuns PrinterDriver.Engine.Printer

open Prog ResponseParser

/-- Any job, or a refresh. -/
abbrev AnyTask : Type := Task fun _ => True

/-- The runs of jobs and refreshes on one printer. -/
abbrev statusSession (nonce : Bytes) (interpret : Interpreter) : Machine Worker Unit (State Wire) :=
  session (printer nonce interpret) fun t : AnyTask => t.program

/-- What a run has to meet: in a phase of a job that still expects an answer, a byte that arrives
goes on with a frame; or no byte that the parser holds looks like an answer, and this one, if it
does, is the answer to the request of this phase that is expected first. -/
def ownStatus (nonce : Bytes) (interpret : Interpreter) :
    (statusSession nonce interpret).Guard where
  event e s :=
    match e with
    | .device .deliver => ∀ owner ∈ s.device.asking, owner.2 ≠ .refresh →
        ∀ kind ∈ s.io.parser.realtime.head?, ∀ byte ∈ s.device.transit.head?,
          opensFrame (s.io.parser.buffer ++ [byte.2]) ∨
            (s.io.parser.buffer.all (!looksLikeRealtimeByte ·) ∧
              (looksLikeRealtimeByte byte.2 → byte.1 = some (owner, .dleEot kind)))
    | _ => True

/-- What a phase asks for. -/
def asked : Part → List DleEotKind
  | .preflight => JobRun.kPreflightKinds
  | _ => [.errorCause]

/-- The answers are answers to the requests of this phase, each read as the kind it was sent for,
and in the order they were asked. -/
def Rests (task : ℕ) (part : Part) (answers : List ParsedEvent) (w : Wire) : Prop :=
  ∃ got : List (DleEotKind × UInt8), answers = got.map (fun g => .realtimeStatus g.1 g.2) ∧
    got.map Prod.fst <+: asked part ∧
      ∀ g ∈ got, (((task, part), .dleEot g.1), g.2) ∈ w.arrived

/-- What a record says that rests on real-time status: the printer is healthy or not, the cutter
faulty or not. -/
structure Decided (state : JobState) (confidence : ConfidenceLevel) (reason : FailureReason)
    (task : ℕ) (w : Wire) : Prop where
  healthy : state = .preflightOk → ∃ answers, Rests task .preflight answers w ∧ answers ≠ [] ∧
    JobRun.refusal (JobRun.mergeAnswers answers) = none
  refused : reason = .preflightCoverOpen ∨ reason = .preflightPaperOut ∨
      reason = .preflightHardwareError → ∃ answers, Rests task .preflight answers w ∧
    JobRun.refusal (JobRun.mergeAnswers answers) = some reason
  fault : reason = .cutterFault → ∃ answers, Rests task .cutterStatus answers w ∧
    answers.any fun answer => answer.flags.cutterError.getD false
  faultFree : ConfidenceLevel.cutProcessed.rank < confidence.rank →
    ∃ answers, Rests task .cutterStatus answers w ∧ answers ≠ [] ∧
      ¬ answers.any fun answer => answer.flags.cutterError.getD false

/-! ### Reads -/

/-- Outside Star mode, with nothing expected and nothing filed. -/
structure Held (s : State Wire) : Prop where
  mode : s.io.starMode = false
  waiting : s.io.parser.Waiting
  unexpected : s.io.parser.realtime = []
  unanswered : s.io.realtimeAnswers = []

/-- The phase's answers so far, and what is still expected. -/
structure Asked (part : Part) (s : State Wire) : Prop where
  mode : s.io.starMode = false
  waiting : s.io.parser.Waiting
  asking : s.device.asking = some (s.task, part)
  answers : ∃ got : List (DleEotKind × UInt8),
    s.io.realtimeAnswers = got.map (fun g => .realtimeStatus g.1 g.2) ∧
      asked part = got.map Prod.fst ++ s.io.parser.realtime ∧
        ∀ g ∈ got, (((s.task, part), .dleEot g.1), g.2) ∈ s.device.arrived

/-- The wait is over. -/
structure Read (part : Part) (answers : List ParsedEvent) (s : State Wire) : Prop where
  mode : s.io.starMode = false
  waiting : s.io.parser.Waiting
  rests : Rests s.task part answers s.device

section Reads
variable {nonce : Bytes} {s : State Wire} {byte : Option Origin × UInt8}
  {rest : List (Option Origin × UInt8)}

theorem Rests.take {task : ℕ} {part : Part} {answers : List ParsedEvent}
    (h : Rests task part answers s.device) :
    Rests task part answers (read nonce s byte rest).device := by
  obtain ⟨got, ha, hp, harr⟩ := h
  exact ⟨got, ha, hp, fun g hg => take_arrived (harr g hg)⟩

theorem Held.read (h : Held s) : Held (read nonce s byte rest) := by
  obtain ⟨rx, custom, hf⟩ := s.io.onBytes_filed nonce [byte.2] h.mode
  obtain ⟨hnone, hreal⟩ := feed_unexpected [byte.2] h.unexpected
  refine ⟨?_, ?_, ?_, ?_⟩ <;> simp only [hf]
  · exact h.mode
  · exact waiting_feed _ _
  · exact hreal
  · rw [h.unanswered, hnone]
    rfl

theorem Read.read {part : Part} {answers : List ParsedEvent} (h : Read part answers s) :
    Read part answers (read nonce s byte rest) := by
  obtain ⟨rx, custom, hf⟩ := s.io.onBytes_filed nonce [byte.2] h.mode
  refine ⟨?_, ?_, h.rests.take⟩ <;> simp only [hf]
  · exact h.mode
  · exact waiting_feed _ _

/-- A byte that is filed is the answer expected first. -/
theorem Asked.read {part : Part} (h : Asked part s)
    (hown : ∀ kind ∈ s.io.parser.realtime.head?,
      opensFrame (s.io.parser.buffer ++ [byte.2]) ∨
        (s.io.parser.buffer.all (!looksLikeRealtimeByte ·) ∧
          (looksLikeRealtimeByte byte.2 → byte.1 = some ((s.task, part), .dleEot kind)))) :
    Asked part (read nonce s byte rest) := by
  obtain ⟨rx, custom, hf⟩ := s.io.onBytes_filed nonce [byte.2] h.mode
  obtain ⟨got, ha, hk, harr⟩ := h.answers
  have hkeep : ∀ g ∈ got, (((s.task, part), .dleEot g.1), g.2) ∈
      (s.device.take byte rest).arrived := fun g hg => take_arrived (harr g hg)
  refine ⟨?_, ?_, h.asking, ?_⟩ <;> simp only [hf]
  · exact h.mode
  · exact waiting_feed _ _
  · -- nothing is filed, or one more answer
    have hsame : ((s.io.parser.feed [byte.2]).1.filter ParsedEvent.isRealtime = [] ∧
        (s.io.parser.feed [byte.2]).2.realtime = s.io.parser.realtime) ∨
        ∃ kind, s.io.parser.realtime = kind :: (s.io.parser.feed [byte.2]).2.realtime ∧
          byte.1 = some ((s.task, part), .dleEot kind) ∧
          (s.io.parser.feed [byte.2]).1.filter ParsedEvent.isRealtime =
            [.realtimeStatus kind byte.2] := by
      cases hr : s.io.parser.realtime with
      | nil =>
        obtain ⟨hnone, hreal⟩ := feed_unexpected [byte.2] hr
        exact .inl ⟨hnone, hreal⟩
      | cons kind kinds =>
        rcases hown kind (by rw [hr]; rfl) with hframe | ⟨hall, horigin⟩
        · refine .inl ?_
          rcases feed_frame h.waiting hframe with hx | ⟨_, hx⟩ | ⟨_, hx⟩ <;> rw [hx, ← hr] <;>
            exact ⟨rfl, rfl⟩
        · rcases feed_realtime byte.2 hall with ⟨hnone, hreal⟩ | ⟨hl, kind', hk', hone⟩
          · exact .inl ⟨hnone, hreal.trans hr⟩
          · rw [hr] at hk'
            obtain ⟨rfl, hrest⟩ := List.cons.inj hk'
            exact .inr ⟨kind, by rw [← hrest], horigin hl, hone⟩
    rcases hsame with ⟨hnone, hreal⟩ | ⟨kind, hreal, horigin, hone⟩
    · exact ⟨got, by rw [hnone, List.append_nil, ha], by rw [hreal, hk], hkeep⟩
    · refine ⟨got ++ [(kind, byte.2)], by rw [hone, ha, List.map_append]; rfl, ?_, ?_⟩
      · rw [hk, hreal, List.map_append, List.append_assoc]
        rfl
      · intro g hg
        rcases List.mem_append.mp hg with hg | hg
        · exact hkeep g hg
        · rw [List.mem_singleton.mp hg]
          obtain ⟨origin, b⟩ := byte
          subst horigin
          exact take_origin

end Reads

/-! ### The stages of a job -/

/-- What the job may record when. -/
def allowed (c : Call) (s : State Wire) : Prop :=
  match c with
  | .recordState _ state confidence reason _ => Decided state confidence reason s.task s.device
  | _ => True

abbrev contract : Machine.Contract Worker Unit (State Wire) where
  rest _ _ := True
  allowed _ := allowed

/-- The preflight's answers have been read and its expectations dropped. -/
def Cleared (answers : List ParsedEvent) (s : State Wire) : Prop :=
  Held s ∧ Rests s.task .preflight answers s.device

def assertions : Assertions (State Wire) where
  Idle _ := True
  Begun := Held
  Ready := Held
  Held _ := Held
  Over _ _ := True
  Asked part _ := Asked part
  Read part _ := Read part
  Cleared := Cleared
  Armed _ _ := Held
  Confirmed _ _ := Held

/-- A record that says nothing of the status. -/
theorem decided_of_plain {state : JobState} {c : ConfidenceLevel} {r : FailureReason} {task : ℕ}
    {w : Wire} (hs : state ≠ .preflightOk) (hr : isStatusReason r = false) (hc : Plain c) :
    Decided state c r task w where
  healthy h := absurd h hs
  refused h := by rcases h with rfl | rfl | rfl <;> cases hr
  fault h := by subst h; cases hr
  faultFree h := absurd h (not_lt.mpr hc)

theorem allowed_of_quiet {c : Call} {s : State Wire} (h : Quiet c) : allowed c s := by
  cases c with
  | recordState id state confidence reason =>
    have hd : decides state confidence reason = false := h
    have hplain : state ≠ .preflightOk ∧ isStatusReason reason = false ∧ Plain confidence := by
      cases state <;> simp_all [decides]
    exact decided_of_plain hplain.1 hplain.2.1 hplain.2.2
  | _ => trivial

theorem allowed_of_unrecorded {c : Call} {s : State Wire} (h : Unrecorded c) : allowed c s := by
  cases c with
  | recordState => exact h.elim
  | _ => trivial

section Outline
variable {nonce : Bytes} {interpret : Interpreter}

/-- The world of the worker of such a session. -/
abbrev statusWorld (nonce : Bytes) (interpret : Interpreter) : World Worker (State Wire) :=
  world (printer nonce interpret) (fun t : AnyTask => t.program) (ownStatus nonce interpret)
    contract

theorem kept_of {P : State Wire → Prop} (hP : Stable (statusWorld nonce interpret) P)
    (hd : ∀ s (d : Change), P s → P (d.apply s)) : Kept (statusWorld nonce interpret) P :=
  ⟨hP, fun hp => triple_allowed hP hd
    (hp.mono fun _ hq => ⟨hq.isLocal, fun _ _ => allowed_of_quiet hq⟩)⟩

theorem Held.change {s : State Wire} (d : Change) (h : Held s) : Held (d.apply s) :=
  ⟨h.mode, h.waiting, h.unexpected, h.unanswered⟩

theorem kept_true : Kept (statusWorld nonce interpret) fun _ => True :=
  kept_of (fun _ _ _ _ => trivial) fun _ _ _ => trivial

theorem kept_held : Kept (statusWorld nonce interpret) Held :=
  kept_of (stable_of_reads (fun _ _ _ _ h _ _ => h.read) fun _ d h => h.change d)
    fun _ d h => h.change d

theorem kept_asked {part : Part} (hp : part ≠ .refresh) :
    Kept (statusWorld nonce interpret) (Asked part) :=
  have hd : ∀ s (d : Change), Asked part s → Asked part (d.apply s) :=
    fun _ _ h => ⟨h.mode, h.waiting, h.asking, h.answers⟩
  kept_of (stable_of_reads (fun s byte rest _ h hg ht => h.read fun kind hk =>
    hg _ h.asking hp kind hk byte (by rw [ht]; rfl)) hd) hd

theorem kept_read {part : Part} {answers : List ParsedEvent} :
    Kept (statusWorld nonce interpret) (Read part answers) :=
  have hd : ∀ s (d : Change), Read part answers s → Read part answers (d.apply s) :=
    fun _ _ h => ⟨h.mode, h.waiting, h.rests⟩
  kept_of (stable_of_reads (fun _ _ _ _ h _ _ => h.read) hd) hd

theorem kept_cleared {answers : List ParsedEvent} :
    Kept (statusWorld nonce interpret) (Cleared answers) :=
  have hd : ∀ s (d : Change), Cleared answers s → Cleared answers (d.apply s) :=
    fun _ d h => ⟨h.1.change d, h.2⟩
  kept_of (stable_of_reads (fun _ _ _ _ h _ _ => ⟨h.1.read, h.2.take⟩) hd) hd

/-- A critical section that keeps `Held`. -/
theorem triple_section {op : IoOp} (h : ∀ s, Held s → Held { s with
      io := op.apply s.io, device := (printer nonce interpret).hear s.task (.io op) () s.io s.device }) :
    Triple (statusWorld nonce interpret) Held (perform (E := Worker) (.io op)) fun _ => Held := by
  refine triple_perform kept_held.1 (fun _ _ => trivial) (fun _ => kept_held.1)
    fun s ch a io _ _ hs he => ?_
  cases ch <;> cases he
  exact h s hs

/-- A wait for a fence does not touch real-time status. -/
theorem apply_frame (w : Wait) (s : IoState) : (w.apply s).2.starMode = s.starMode ∧
    (w.apply s).2.parser = s.parser ∧ (w.apply s).2.realtimeAnswers = s.realtimeAnswers := by
  cases w with
  | queued =>
    simp only [Wait.apply, IoState.awaitQueued]
    split_ifs <;> exact ⟨rfl, rfl, rfl⟩
  | token | customToken | star => exact ⟨rfl, rfl, rfl⟩

theorem triple_await {part : Part} {w : Wait} : Triple (statusWorld nonce interpret) Held
    (perform (E := Worker) (.await part w)) fun _ => Held := by
  refine triple_perform kept_held.1 (fun _ _ => trivial) (fun _ => kept_held.1)
    fun s ch a io _ _ hs he => ?_
  cases ch with
  | go =>
    obtain ⟨rfl, rfl⟩ := Prod.mk.inj (Option.some.inj he)
    obtain ⟨hm, hw, hu, ha⟩ := hs
    obtain ⟨h1, h2, h3⟩ := apply_frame w s.io
    exact ⟨h1.trans hm, h2 ▸ hw, h2 ▸ hu, h3.trans ha⟩
  | _ => cases he

theorem triple_expect {part : Part} {kinds : List DleEotKind} (hp : part ≠ .refresh)
    (hk : asked part = kinds) : Triple (statusWorld nonce interpret) Held
      (perform (E := Worker) (.io (.expectRealtime part kinds))) fun _ => Asked part := by
  refine triple_perform kept_held.1 (fun _ _ => trivial) (fun _ => (kept_asked hp).1)
    fun s ch a io _ _ hs he => ?_
  cases ch <;> cases he
  refine ⟨hs.mode,
    hs.waiting.congr (by simp [IoOp.apply, IoState.expectRealtime, expectRealtime_foldl]), rfl,
    [], hs.unanswered, ?_, by simp⟩
  simp [IoOp.apply, IoState.expectRealtime, expectRealtime_foldl, hs.unexpected, hk]

theorem triple_awaitRealtime {part : Part} {count : ℕ} (hp : part ≠ .refresh) :
    Triple (statusWorld nonce interpret) (Asked part)
      (perform (E := Worker) (.awaitRealtime part count)) fun r => Read part r.2 := by
  refine triple_perform (kept_asked hp).1 (fun _ _ => trivial) (fun _ => kept_read.1)
    fun s ch a io _ _ hs he => ?_
  cases ch <;> cases he
  obtain ⟨got, ha, hk, harr⟩ := hs.answers
  exact ⟨hs.mode, hs.waiting, got, ha, ⟨_, hk.symm⟩, harr⟩

theorem held_cleared {s : State Wire} (hm : s.io.starMode = false) (hw : s.io.parser.Waiting) :
    Held { s with io := s.io.clearRealtime } := by
  refine ⟨hm, ?_, ?_, rfl⟩ <;> simp only [IoState.clearRealtime] <;> split_ifs with h
  · exact hw
  · exact rfl
  · exact h
  · rfl

theorem triple_clearPreflight {answers : List ParsedEvent} :
    Triple (statusWorld nonce interpret) (Read .preflight answers)
      (perform (E := Worker) (.io .clearRealtime)) fun _ => Cleared answers := by
  refine triple_perform kept_read.1 (fun _ _ => trivial) (fun _ => kept_cleared.1)
    fun s ch a io _ _ hs he => ?_
  cases ch <;> cases he
  exact ⟨held_cleared hs.mode hs.waiting, hs.rests⟩

/-- The end of a job on real-time status. -/
theorem triple_terminate {P : State Wire → Prop} (hP : Stable (statusWorld nonce interpret) P)
    (hd : ∀ s (d : Change), P s → P (d.apply s)) {id : Bytes} {state : JobState}
    {outcome : JobResult}
    (hs : ∀ s, P s → Decided state outcome.confidence outcome.reason s.task s.device) :
    Triple (statusWorld nonce interpret) P (terminate id state outcome) fun _ _ => True :=
  (triple_allowed hP hd (terminate_only (fun _ _ => ⟨trivial, fun _ _ => trivial⟩)
    (fun _ _ => ⟨trivial, fun _ _ => trivial⟩) ⟨trivial, hs⟩)).conseq (fun _ h => h)
      fun _ _ _ => trivial

/-- A refusal is one of three. -/
theorem refusal_cases {flags : StatusFlags} {reason : FailureReason}
    (h : JobRun.refusal flags = some reason) : reason = .preflightCoverOpen ∨
      reason = .preflightPaperOut ∨ reason = .preflightHardwareError := by
  unfold JobRun.refusal at h
  split_ifs at h <;> cases h <;> simp

variable {j : JobRun}

/-- A confirmed fence says nothing of the status. -/
theorem triple_confirm {state : JobState} {c : ConfidenceLevel} (hs : state ≠ .preflightOk)
    (hc : Plain c) : Triple (statusWorld nonce interpret) Held (advance j.id state c .none)
      fun _ => Held :=
  triple_allowed kept_held.1 (fun _ d h => h.change d)
    (advance_only (fun _ _ => ⟨trivial, fun _ _ => trivial⟩)
      ⟨trivial, fun _ _ => decided_of_plain hs rfl hc⟩)

theorem triple_armCustom {part : Part} : Triple (statusWorld nonce interpret) Held
    (perform (E := Worker) (.io (.armCustomFence part))) fun _ => Held :=
  triple_section fun _ h => ⟨h.mode, h.waiting, h.unexpected, h.unanswered⟩

theorem triple_expectQueued {part : Part} : Triple (statusWorld nonce interpret) Held
    (perform (E := Worker) (.io (.expectQueued part))) fun _ => Held :=
  triple_section fun _ h => ⟨h.mode, h.waiting.congr rfl, h.unexpected, h.unanswered⟩

theorem outline (hj : (j.profile.drivableByEscposEngine || j.custom.isSome) = true) :
    EscposOutline (statusWorld nonce interpret) j assertions where
  idle := kept_true
  ready := kept_held
  held _ := kept_held
  ends _ := kept_true
  asked _ _ hp := kept_asked hp
  read _ _ _ := kept_read
  cleared _ := kept_cleared
  armed _ _ := kept_held
  connect := triple_perform kept_true.1 (fun _ _ => trivial) (fun _ => kept_true.1)
    fun _ _ _ _ _ _ _ _ => trivial
  begun := by
    refine triple_perform kept_true.1 (fun _ _ => trivial) (fun _ => kept_held.1)
      fun s ch a io _ _ hs he => ?_
    cases ch <;> cases he
    exact ⟨rfl, rfl, rfl, rfl⟩
  custom := triple_section fun _ h => ⟨h.mode, h.waiting, h.unexpected, h.unanswered⟩
  askPreflight := triple_expect (by decide) rfl
  readPreflight := triple_awaitRealtime (by decide)
  clearPreflight _ := triple_clearPreflight
  refuse answers reason c hc hr := triple_terminate kept_cleared.1
    (fun _ d h => ⟨h.1.change d, h.2⟩) fun s h =>
      { healthy := nofun
        refused := fun _ => ⟨answers, h.2, hr⟩
        fault := fun hf => by
          have hf : reason = .cutterFault := hf
          subst hf
          simpa using refusal_cases hr
        faultFree := fun hf => absurd (plain_reached hc) (not_le.mpr hf) }
  healthy answers c hc hne hr := (triple_allowed kept_cleared.1 (fun _ d h => ⟨h.1.change d, h.2⟩)
    (advance_only (fun _ _ => ⟨trivial, fun _ _ => trivial⟩) ⟨trivial, fun s h =>
      { healthy := fun _ => ⟨answers, h.2, hne, hr⟩
        refused := by simp
        fault := by simp
        faultFree := fun hf => absurd hc (not_le.mpr hf) }⟩)).conseq
    (fun _ h => h) fun _ _ h => h.1
  unread _ h := h.1
  lease := triple_allowed kept_held.1 (fun _ d h => h.change d)
    (leaseTokens_only.mono fun _ hc => ⟨hc.1, fun _ _ => allowed_of_unrecorded hc.2⟩)
  release _ := triple_allowed kept_true.1 (fun _ _ _ => trivial)
    (releaseTokens_only.mono fun _ hc => ⟨hc.1, fun _ _ => allowed_of_unrecorded hc.2⟩)
  armPrint _ := triple_armPrintFence kept_held (fun _ => triple_armCustom)
    (fun _ => triple_expectQueued) hj
  awaitPrint _ := triple_await.conseq (fun _ h => h) fun _ _ h => by
    split_ifs
    · exact h
    · trivial
  printConfirmed _ _ hc := triple_confirm (by decide) hc
  armCut _ := triple_armCut kept_held (fun _ => triple_armCustom) fun _ => triple_expectQueued
  awaitCut _ := triple_await.conseq (fun _ h => h) fun _ _ h => by
    split_ifs
    · exact h
    · trivial
  cutConfirmed _ _ hc := triple_confirm (by decide) hc
  clearCutter _ := triple_section fun _ h => held_cleared h.mode h.waiting
  askCutter _ := triple_expect (by decide) rfl
  readCutter _ := triple_awaitRealtime (by decide)
  unasked _ s h := ⟨h.mode, h.waiting, [], rfl, List.nil_prefix, by simp⟩
  fault _ answers c hc ha := triple_terminate kept_read.1
    (fun _ _ h => ⟨h.mode, h.waiting, h.rests⟩) fun s h =>
      { healthy := nofun
        refused := by simp [JobResult.failed, JobResult.attested]
        fault := fun _ => ⟨answers, h.rests, ha⟩
        faultFree := fun hf => absurd (plain_reached hc) (not_le.mpr hf) }
  faultFree _ answers c hne ha := triple_terminate kept_read.1
    (fun _ _ h => ⟨h.mode, h.waiting, h.rests⟩) fun s h =>
      { healthy := nofun
        refused := by simp [JobResult.done, JobResult.attested]
        fault := by simp [JobResult.done, JobResult.attested]
        faultFree := fun _ => ⟨answers, h.rests, hne, by simp [ha]⟩ }
  overIdle _ _ := trivial
  heldOver _ _ _ := trivial
  askedOver _ _ _ _ := trivial
  readOver _ _ _ _ _ := trivial
  armedOver _ _ _ _ := trivial

/-- A Star job asks for no real-time status. -/
theorem starOutline : StarOutline (statusWorld nonce interpret) j (fun _ => True) (fun _ => True)
    (fun _ => True) (fun _ _ => True) fun _ _ => True :=
  have hcall : ∀ (c : Call) (Q : c.Answer → State Wire → Prop), (∀ s, allowed c s) →
      (∀ a s, Q a s) →
      Triple (statusWorld nonce interpret) (fun _ => True) (perform (E := Worker) c) Q :=
    fun c Q hc hQ => triple_perform kept_true.1 (fun s _ => hc s) (fun a _ s' _ _ => hQ a s')
      fun _ _ _ _ _ _ _ _ => hQ _ _
  have hrecord : ∀ state c, state ≠ .preflightOk → Plain c →
      Triple (statusWorld nonce interpret) (fun _ => True) (advance j.id state c .none)
        fun _ _ => True := fun state c hs hc =>
    triple_allowed kept_true.1 (fun _ _ h => h)
      (advance_only (fun _ _ => ⟨trivial, fun _ _ => trivial⟩)
        ⟨trivial, fun _ _ => decided_of_plain hs rfl hc⟩)
  { idle := kept_true
    ready := kept_true
    armed := fun _ => kept_true
    connect := hcall _ _ (fun _ => trivial) fun _ _ => trivial
    begun := hcall _ _ (fun _ => trivial) fun _ _ => trivial
    enter := hcall _ _ (fun _ => trivial) fun _ _ => trivial
    zero := fun _ => hcall _ _ (fun _ => trivial) fun _ _ => trivial
    arm := fun _ => hcall _ _ (fun _ => trivial) fun _ _ => trivial
    await := fun _ => hcall _ _ (fun _ => trivial) fun _ _ => by split_ifs
    printConfirmed := fun c hc => hrecord _ c (by decide) hc
    cutConfirmed := fun c hc => hrecord _ c (by decide) hc
    disarmed := fun _ _ _ => trivial
    ends := fun _ _ => trivial }

theorem triple_runJob : Triple (statusWorld nonce interpret) (fun _ => True) j.runJob
    fun _ _ => True := by
  by_cases hj : (j.profile.drivableByEscposEngine || j.custom.isSome) = true
  · unfold JobRun.runJob JobRun.runStages
    rw [if_pos hj]
    exact Triple.bind (outline hj).triple_runEscposJob fun _ => Triple.ret kept_true.1 fun _ h => h
  · exact starOutline.triple_runJob (by simpa using hj)

theorem guarded :
    Machine.Guarded (statusSession nonce interpret) (ownStatus nonce interpret) contract where
  serve _ _ _ _ _ _ _ _ _ _ := trivial
  event _ _ _ _ _ _ := trivial
  start _ _ _ _ _ _ _ := trivial
  restart := nofun
  program _ t s p s' _ _ h := by
    cases h
    cases t with
    | job j hj => exact triple_runJob _ trivial
    | refresh profile =>
      exact Triple.only refreshStatus_only kept_true.1
        (fun _ _ hc _ => allowed_of_unrecorded hc.unrecorded) (fun _ _ _ _ _ _ _ => trivial) _ trivial

end Outline

/-- **Attribution of real-time status.** In a run in which, in a phase that still expects an answer,
no byte that looks like one arrives but the answers to that phase's requests in their order, every
preflight refusal, `PreflightOk`, cutter fault and fault-free cutter is recorded from answers to
the requests of that phase of that job, each read as the kind it was sent for. -/
theorem decided_by_own_answers (nonce : Bytes) (interpret : Interpreter)
    {cfg : Config Worker Unit (State Wire)}
    (h : (statusSession nonce interpret).Reach (ownStatus nonce interpret) { device := {} } cfg)
    {id : Bytes} {state : JobState} {c : ConfidenceLevel} {r : FailureReason} {e : JobEvidence}
    {k : Unit → Prog Worker Unit} (hc : cfg.prog () = .call (.recordState id state c r e : Call) k) :
    Decided state c r cfg.state.task cfg.state.device := by
  have ha : allowed _ cfg.state := guarded.allowed trivial (fun _ _ _ => trivial) h hc
  exact ha

/-! ### Two runs of a preflight -/

section Receipt

instance {nonce : Bytes} {interpret : Interpreter} (i : Unit) (c : Call)
    (ch : (statusSession nonce interpret).Choice) (s : State Wire) :
    Decidable ((ownStatus nonce interpret).serve i c ch s) := .isTrue trivial

instance {nonce : Bytes} {interpret : Interpreter} (r : (statusSession nonce interpret).Restart)
    (s : State Wire) : Decidable ((ownStatus nonce interpret).restart r s) := .isTrue trivial

instance {nonce : Bytes} {interpret : Interpreter} (e : (statusSession nonce interpret).Event)
    (s : State Wire) : Decidable ((ownStatus nonce interpret).event e s) :=
  match (e : Event Act) with
  | .device .deliver => inferInstanceAs
      (Decidable (∀ owner ∈ s.device.asking, _ → ∀ kind ∈ _, ∀ byte ∈ _, _ ∨ (_ ∧ (_ → _))))
  | .device (.execute _) | .device (.send _) | .device .disconnect | .device .hangUp
  | .device (.matcher _ _) | .stop => .isTrue trivial

/-- A receipt of two letters. -/
def receipt : AnyTask := .job
  { id := str "job", key := [], payload := .raw (str "hi"), options := {}, attempt := 1
    banner := false, profile := {}, widthDots := 576, codecs := Encoder.plainCodecs
    completionMethod := fun _ => none } trivial

abbrev Moves : Type := List (statusSession [] escposCommand).Move

def serveAll (choices : List Choice) : Moves := choices.map fun ch => .serve () ch

/-- The receipt up to the wait for its preflight. -/
def sendPreflight : Moves :=
  .start () receipt :: serveAll [.connected true, .go, .go, .go, .wrote ⟨true, 0⟩]

/-- The printer answers four requests; the answers arrive, and the wait returns. -/
def answerPreflight : Moves :=
  List.replicate 4 (.event (.device (.execute (some 0x12)))) ++
    List.replicate 4 (.event (.device .deliver)) ++ serveAll [.go, .go]

/-- The preflight times out, and then the payload is refused. -/
def giveUp : Moves := serveAll [.go, .go, .go, .go, .wrote ⟨false, 0⟩, .go, .go, .go]

theorem receipt_preflightOk : ∃ cfg : Config Worker Unit (State Wire),
    (statusSession [] escposCommand).Reach (ownStatus [] escposCommand) { device := {} } cfg ∧
      Decided .preflightOk .printerHealthy .none cfg.state.task cfg.state.device := by
  have hp : (Machine.pending (ownStatus [] escposCommand) (sendPreflight ++ answerPreflight)
      { device := {} } ()).map Prod.fst =
        some (.recordState (str "job") .preflightOk .printerHealthy .none {}) := by rfl
  obtain ⟨cfg, c, k, hr, hk, rfl⟩ := Machine.reach_of_pending hp
  exact ⟨cfg, hr, decided_by_own_answers [] escposCommand hr hk⟩

/-- The preflight of the first receipt times out; its answers arrive in the preflight of the second,
none of whose requests the printer has executed, and are taken for its own. -/
theorem late_answers_decide : ∃ (cfg : Config Worker Unit (State Wire)) (id : Bytes)
    (c : ConfidenceLevel) (r : FailureReason) (e : JobEvidence) (k : Unit → Prog Worker Unit),
    (statusSession [] escposCommand).Reach (.none _) { device := {} } cfg ∧
      cfg.prog () = .call (.recordState id .preflightOk c r e : Call) k ∧
        ¬ Decided .preflightOk c r cfg.state.task cfg.state.device := by
  have hp : (Machine.pending (M := statusSession [] escposCommand) (.none _)
      (sendPreflight ++ giveUp ++ sendPreflight ++ answerPreflight) { device := {} } ()).map
        (fun x => (x.1, x.2.task, x.2.device.arrived.map fun a => a.1.1.1)) =
      some (.recordState (str "job") .preflightOk .printerHealthy .none {}, 2, [1, 1, 1, 1]) := by
    rfl
  obtain ⟨cfg, c, k, hr, hk, hf⟩ := Machine.reach_of_pending hp
  simp only [Prod.mk.injEq] at hf
  obtain ⟨rfl, ht, ha⟩ := hf
  refine ⟨cfg, _, _, _, _, k, hr, hk, fun hd => ?_⟩
  obtain ⟨answers, ⟨got, rfl, _, hgot⟩, hne, _⟩ := hd.healthy rfl
  obtain ⟨g, hg⟩ := List.exists_mem_of_ne_nil got fun h => hne (by simp [h])
  have hmem : cfg.state.task ∈ cfg.state.device.arrived.map fun a => a.1.1.1 :=
    List.mem_map.mpr ⟨_, hgot g hg, rfl⟩
  rw [ha, ht] at hmem
  exact absurd hmem (by decide)

end Receipt

end PrinterDriver.Engine.Realtime
