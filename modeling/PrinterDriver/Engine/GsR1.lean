import PrinterDriver.Engine.Printer

/-! # Attribution of `GS r 1` answers

A queued answer carries no identity: it is counted against whatever fence is outstanding. An answer
to an earlier fence, or a late one to the preflight, therefore confirms the fence that is
outstanding when it arrives (`late_answer_confirms`). Where every answer that arrives while a fence
is outstanding is its own, every confirmation is (`confirmed_by_own_queued_answer`). -/

namespace PrinterDriver.Engine.GsR1

open PrinterDriver.Lib.Programs PrinterDriver.Lib.Threads PrinterDriver.Core
  PrinterDriver.Core.Types PrinterDriver.Core.Profile PrinterDriver.Core.EscposParser
  PrinterDriver.Engine.Io PrinterDriver.Engine.Ops PrinterDriver.Engine.RunJob
  PrinterDriver.Engine.Session PrinterDriver.Engine.QuietCalls PrinterDriver.Engine.EscposRuns
  PrinterDriver.Engine.Printer

open Prog ResponseParser

/-- A job on a profile fenced by `GS r 1`, or a refresh. -/
abbrev GsR1Task : Type := Task fun j => j.profile.completion = .gsR1

/-- The runs of such jobs and of refreshes on one printer. -/
abbrev gsR1Session (nonce : Bytes) (interpret : Interpreter) : Machine Worker Unit (State Wire) :=
  session (printer nonce interpret) fun t : GsR1Task => t.program

/-- What a run has to meet: a byte that arrives while a fence is outstanding and unanswered is the
answer to that fence, or goes on with a frame. -/
def ownAnswers (nonce : Bytes) (interpret : Interpreter) : (gsR1Session nonce interpret).Guard where
  event e s :=
    match e with
    | .device .deliver => ∀ owner ∈ s.device.asking, 0 < s.io.parser.queued →
        ∀ byte ∈ s.device.transit.head?,
          opensFrame (s.io.parser.buffer ++ [byte.2]) ∨ byte.1 = some (owner, .gsR1)
    | _ => True

/-- The `GS r 1` of the given part of the given task is answered. -/
def Answered (owner : Owner) (w : Wire) : Prop := ∃ b, ((owner, .gsR1), b) ∈ w.arrived

/-- No queued answer is expected and none is filed. -/
structure Held (s : State Wire) : Prop where
  mode : s.io.starMode = false
  waiting : s.io.parser.Waiting
  unexpected : s.io.parser.queued = 0
  unanswered : s.io.queuedAnswers = 0

/-- From the arming of a fence to the end of its wait: one answer is expected, or it is filed. -/
structure Armed (part : Part) (s : State Wire) : Prop where
  mode : s.io.starMode = false
  waiting : s.io.parser.Waiting
  asking : s.device.asking = some (s.task, part)
  one : s.io.parser.queued + s.io.queuedAnswers ≤ 1
  answer : 0 < s.io.queuedAnswers → Answered (s.task, part) s.device

def Confirmed (part : Part) (s : State Wire) : Prop := Held s ∧ Answered (s.task, part) s.device

def assertions : Assertions (State Wire) where
  Idle _ := True
  Begun := Held
  Ready := Held
  Held _ := Held
  Over _ _ := True
  Asked _ _ := Held
  Read _ _ _ := Held
  Cleared _ := Held
  Armed part _ := Armed part
  Confirmed part _ := Confirmed part

/-- What the job may record when. -/
def allowed (c : Call) (s : State Wire) : Prop :=
  match c with
  | .recordState _ .printConfirmed _ _ _ => Answered (s.task, .printFence) s.device
  | .recordState _ .cutCommandProcessed _ _ _ => Answered (s.task, .cut) s.device
  | _ => True

abbrev contract : Machine.Contract Worker Unit (State Wire) where
  rest _ _ := True
  allowed _ := allowed

/-! ### Reads -/

section Reads
variable {nonce : Bytes} {s : State Wire} {byte : Option Origin × UInt8}
  {rest : List (Option Origin × UInt8)}

theorem Answered.read {owner : Owner} (h : Answered owner s.device) :
    Answered owner (read nonce s byte rest).device :=
  h.imp fun _ => take_arrived

theorem Held.read (h : Held s) : Held (read nonce s byte rest) := by
  obtain ⟨rx, custom, hf⟩ := s.io.onBytes_filed nonce [byte.2] h.mode
  have hq := feed_queued s.io.parser [byte.2]
  rw [h.unexpected] at hq
  have hcount := Nat.eq_zero_of_add_eq_zero hq
  refine ⟨?_, ?_, ?_, ?_⟩ <;> simp only [hf]
  · exact h.mode
  · exact waiting_feed _ _
  · exact hcount.2
  · rw [h.unanswered, hcount.1]

/-- Only the answer to the fence is filed. -/
theorem Armed.read {part : Part} (h : Armed part s)
    (hown : 0 < s.io.parser.queued → opensFrame (s.io.parser.buffer ++ [byte.2]) ∨
      byte.1 = some ((s.task, part), .gsR1)) : Armed part (read nonce s byte rest) := by
  obtain ⟨rx, custom, hf⟩ := s.io.onBytes_filed nonce [byte.2] h.mode
  have hq := feed_queued s.io.parser [byte.2]
  have hone := h.one
  refine ⟨?_, ?_, h.asking, ?_, ?_⟩ <;> simp only [hf]
  · exact h.mode
  · exact waiting_feed _ _
  · omega
  · intro hpos
    by_cases hold : 0 < s.io.queuedAnswers
    · exact @Answered.read nonce _ _ _ _ (h.answer hold)
    · rcases hown (by omega) with hframe | horigin
      · exfalso
        rcases feed_frame h.waiting hframe with hx | ⟨_, hx⟩ | ⟨_, hx⟩ <;>
          simp [hx, ParsedEvent.isQueued] at hpos <;> omega
      · obtain ⟨origin, b⟩ := byte
        subst horigin
        exact ⟨b, take_origin⟩

theorem Held.change (d : Change) (h : Held s) : Held (d.apply s) :=
  ⟨h.mode, h.waiting, h.unexpected, h.unanswered⟩

end Reads

/-! ### The stages of a job -/

section Outline
variable {nonce : Bytes} {interpret : Interpreter}

/-- The world of the worker of such a session. -/
abbrev gsR1World (nonce : Bytes) (interpret : Interpreter) : World Worker (State Wire) :=
  world (printer nonce interpret) (fun t : GsR1Task => t.program) (ownAnswers nonce interpret)
    contract

theorem allowed_of_quiet {c : Call} {s : State Wire} (h : Quiet c) : allowed c s := by
  cases c with
  | recordState id state => cases state <;> trivial
  | _ => trivial

theorem allowed_of_unrecorded {c : Call} {s : State Wire} (h : Unrecorded c) : allowed c s := by
  cases c with
  | recordState => exact h.elim
  | _ => trivial

theorem kept_of {P : State Wire → Prop} (hP : Stable (gsR1World nonce interpret) P)
    (hd : ∀ s (d : Change), P s → P (d.apply s)) : Kept (gsR1World nonce interpret) P :=
  ⟨hP, fun hp => triple_allowed hP hd
    (hp.mono fun _ hq => ⟨hq.isLocal, fun _ _ => allowed_of_quiet hq⟩)⟩

theorem stable_held : Stable (gsR1World nonce interpret) Held :=
  stable_of_reads (fun _ _ _ _ h _ _ => h.read) fun _ d h => h.change d

theorem stable_armed {part : Part} : Stable (gsR1World nonce interpret) (Armed part) :=
  stable_of_reads (fun s byte rest _ h hg ht => h.read fun hq =>
      hg _ h.asking hq byte (by rw [ht]; rfl))
    fun _ _ h => ⟨h.mode, h.waiting, h.asking, h.one, h.answer⟩

theorem stable_confirmed {part : Part} : Stable (gsR1World nonce interpret) (Confirmed part) :=
  stable_of_reads (fun _ _ _ _ h _ _ => ⟨h.1.read, @Answered.read nonce _ _ _ _ h.2⟩)
    fun _ d h => ⟨h.1.change d, h.2⟩

theorem kept_held : Kept (gsR1World nonce interpret) Held :=
  kept_of stable_held fun _ d h => h.change d

theorem kept_armed {part : Part} : Kept (gsR1World nonce interpret) (Armed part) :=
  kept_of stable_armed fun _ _ h => ⟨h.mode, h.waiting, h.asking, h.one, h.answer⟩

theorem kept_true : Kept (gsR1World nonce interpret) fun _ => True :=
  kept_of (fun _ _ _ _ => trivial) fun _ _ _ => trivial

/-- A confirmation is recorded and published. -/
theorem triple_confirm {part : Part} {id : Bytes} {state : JobState} {c : ConfidenceLevel}
    {r : FailureReason} {e : JobEvidence}
    (h : ∀ s, Confirmed part s → allowed (.recordState id state c r e) s) :
    Triple (gsR1World nonce interpret) (Confirmed part) (advance id state c r e) fun _ => Held :=
  (triple_allowed stable_confirmed (fun _ d h => ⟨h.1.change d, h.2⟩)
    (advance_only (fun _ _ => ⟨trivial, fun _ _ => trivial⟩) ⟨trivial, h⟩)).conseq
      (fun _ h => h) fun _ _ h => h.1

/-- A critical section that keeps `Held`. -/
theorem triple_section {op : IoOp} (h : ∀ s, Held s → Held { s with
      io := op.apply s.io, device := (printer nonce interpret).hear s.task (.io op) () s.io s.device }) :
    Triple (gsR1World nonce interpret) Held (perform (E := Worker) (.io op)) fun _ => Held := by
  refine triple_perform stable_held (fun _ _ => trivial) (fun _ => stable_held)
    fun s ch a io _ _ hs he => ?_
  cases ch <;> cases he
  exact h s hs

theorem triple_expectQueued {part : Part} : Triple (gsR1World nonce interpret) Held
    (perform (E := Worker) (.io (.expectQueued part))) fun _ => Armed part := by
  refine triple_perform stable_held (fun _ _ => trivial) (fun _ => stable_armed)
    fun s ch a io _ _ hs he => ?_
  cases ch <;> cases he
  exact ⟨hs.mode, hs.waiting.congr rfl, rfl,
    by simp [IoOp.apply, IoState.expectQueued, expectQueued, hs.unexpected, hs.unanswered],
    fun h => absurd hs.unanswered h.ne'⟩

theorem triple_awaitQueued {part : Part} : Triple (gsR1World nonce interpret) (Armed part)
    (perform (E := Worker) (.await part .queued))
    fun ack s => if ack = .signalled then Confirmed part s else True := by
  refine triple_perform stable_armed (fun _ _ => trivial) (fun ack => ?_)
    fun s ch a io _ _ hs he => ?_
  · split_ifs
    · exact stable_confirmed
    · exact fun _ _ _ _ => trivial
  · cases ch with
    | go =>
      have he : s.io.awaitQueued = (a, io) := Option.some.inj he
      have hone := hs.one
      by_cases hq : 0 < s.io.queuedAnswers
      · rw [IoState.awaitQueued, if_pos hq] at he
        obtain ⟨rfl, rfl⟩ := Prod.mk.inj he
        exact ⟨⟨hs.mode, hs.waiting, show s.io.parser.queued = 0 by omega,
          show s.io.queuedAnswers - 1 = 0 by omega⟩, hs.answer hq⟩
      · rw [IoState.awaitQueued, if_neg hq] at he
        obtain ⟨rfl, rfl⟩ := Prod.mk.inj he
        rw [if_neg fun h => absurd (IoState.waitOutcome_eq_signalled.mp h) (by decide)]
        trivial
    | _ => cases he

/-- Real-time expectations and answers do not matter here. -/
theorem triple_expectRealtime {part : Part} {kinds : List DleEotKind} :
    Triple (gsR1World nonce interpret) Held
      (perform (E := Worker) (.io (.expectRealtime part kinds))) fun _ => Held :=
  triple_section fun s h => ⟨h.mode,
    h.waiting.congr (by simp [IoOp.apply, IoState.expectRealtime, expectRealtime_foldl]),
    by simpa [IoOp.apply, IoState.expectRealtime, expectRealtime_foldl] using h.unexpected,
    h.unanswered⟩

theorem triple_awaitRealtime {part : Part} {count : ℕ} : Triple (gsR1World nonce interpret) Held
    (perform (E := Worker) (.awaitRealtime part count)) fun _ => Held := by
  refine triple_perform stable_held (fun _ _ => trivial) (fun _ => stable_held)
    fun s ch a io _ _ hs he => ?_
  cases ch <;> cases he
  exact ⟨hs.mode, hs.waiting, hs.unexpected, hs.unanswered⟩

theorem triple_clearRealtime : Triple (gsR1World nonce interpret) Held
    (perform (E := Worker) (.io .clearRealtime)) fun _ => Held := by
  refine triple_section fun s h => ⟨h.mode, ?_, ?_, h.unanswered⟩ <;>
    simp only [IoOp.apply, IoState.clearRealtime] <;> split_ifs
  · exact h.waiting
  · exact rfl
  · exact h.unexpected
  · rfl

/-- The records that confirm nothing. -/
theorem triple_terminate {id : Bytes} {state : JobState} {outcome : JobResult}
    (hs : ∀ s, allowed (.recordState id state outcome.confidence outcome.reason
      ⟨outcome.grade, outcome.authority, outcome.method⟩) s) :
    Triple (gsR1World nonce interpret) Held (terminate id state outcome) fun _ _ => True :=
  (triple_allowed stable_held (fun _ d h => h.change d)
    (terminate_only (fun _ _ => ⟨trivial, fun _ _ => trivial⟩)
      (fun _ _ => ⟨trivial, fun _ _ => trivial⟩) ⟨trivial, fun s _ => hs s⟩)).conseq
    (fun _ h => h) fun _ _ _ => trivial

variable {j : JobRun} (hj : j.profile.completion = .gsR1)
include hj

theorem custom_none : j.custom = none := by
  simp [JobRun.custom, hj]

theorem fenceWait_eq (token : Bytes) : j.fenceWait token = .queued := by
  simp [JobRun.fenceWait, custom_none hj, hj]

theorem outline : EscposOutline (gsR1World nonce interpret) j assertions where
  idle := kept_true
  ready := kept_held
  held _ := kept_held
  ends _ := kept_true
  asked _ _ _ := kept_held
  read _ _ _ := kept_held
  cleared _ := kept_held
  armed _ _ := kept_armed
  connect := triple_perform kept_true.1 (fun _ _ => trivial) (fun _ => kept_true.1)
    fun _ _ _ _ _ _ _ _ => trivial
  begun := by
    refine triple_perform kept_true.1 (fun _ _ => trivial) (fun _ => stable_held)
      fun s ch a io _ _ hs he => ?_
    cases ch <;> cases he
    exact ⟨rfl, rfl, rfl, rfl⟩
  custom := triple_section fun s h => ⟨h.mode, h.waiting, h.unexpected, h.unanswered⟩
  askPreflight := triple_expectRealtime
  readPreflight := triple_awaitRealtime
  clearPreflight _ := triple_clearRealtime
  refuse _ _ _ _ _ := triple_terminate fun _ => trivial
  healthy _ _ _ _ _ := triple_allowed stable_held (fun _ d h => h.change d)
    (advance_only (fun _ _ => ⟨trivial, fun _ _ => trivial⟩) ⟨trivial, fun _ _ => trivial⟩)
  unread _ h := h
  lease := by
    simp only [JobRun.leaseTokens, hj, custom_none hj]
    exact Triple.ret stable_held fun _ h => h
  release lease := triple_allowed kept_true.1 (fun _ _ _ => trivial)
    (releaseTokens_only.mono fun _ hc => ⟨hc.1, fun _ _ => allowed_of_unrecorded hc.2⟩)
  armPrint lease := by
    simp only [JobRun.armPrintFence, hj, custom_none hj]
    exact Triple.bind triple_expectQueued fun _ => Triple.ret stable_armed fun _ h => ⟨h, fun _ => rfl⟩
  awaitPrint lease := by
    rw [fenceWait_eq hj]
    exact triple_awaitQueued
  printConfirmed _ _ _ := triple_confirm fun _ h => h.2
  armCut lease := by
    unfold JobRun.armCut
    split
    · exact triple_uncaught kept_held
    · simp only [JobRun.expectCutFence, hj, custom_none hj, if_true]
      exact Triple.bind triple_expectQueued fun _ => Triple.ret stable_armed fun _ h => h
  awaitCut lease := by
    rw [fenceWait_eq hj]
    exact triple_awaitQueued
  cutConfirmed _ _ _ := triple_confirm fun _ h => h.2
  clearCutter _ := triple_clearRealtime
  askCutter _ := triple_expectRealtime
  readCutter _ := triple_awaitRealtime
  unasked _ _ h := h
  fault _ _ _ _ _ := triple_terminate fun _ => trivial
  faultFree _ _ _ _ _ := triple_terminate fun _ => trivial
  overIdle _ _ := trivial
  heldOver _ _ _ := trivial
  askedOver _ _ _ _ := trivial
  readOver _ _ _ _ _ := trivial
  armedOver _ _ _ _ := trivial

theorem triple_runJob : Triple (gsR1World nonce interpret) (fun _ => True) j.runJob
    fun _ _ => True := by
  unfold JobRun.runJob JobRun.runStages
  refine Triple.bind (R := fun _ _ => True) ?_ fun _ => Triple.ret kept_true.1 fun _ h => h
  have hstar : j.profile.drivableByStarEngine = false := by
    simp [CapabilityProfile.drivableByStarEngine, isDrivableByStarEngine, hj]
  simp only [hstar, Bool.false_eq_true, if_false]
  split
  · exact (outline hj).triple_runEscposJob
  · exact kept_true.2 (failKnown_quiet (by decide) rfl)

omit hj in
theorem guarded :
    Machine.Guarded (gsR1Session nonce interpret) (ownAnswers nonce interpret) contract where
  serve _ _ _ _ _ _ _ _ _ _ := trivial
  event _ _ _ _ _ _ := trivial
  start _ _ _ _ _ _ _ := trivial
  restart := nofun
  program _ t s p s' _ _ h := by
    cases h
    cases t with
    | job j hj => exact triple_runJob hj _ trivial
    | refresh profile =>
      exact Triple.only refreshStatus_only kept_true.1
        (fun _ _ hc _ => allowed_of_unrecorded hc.unrecorded) (fun _ _ _ _ _ _ _ => trivial) _ trivial

end Outline

/-- **Attribution of `GS r 1` answers.** In a run in which every answer that arrives while a fence is
outstanding is the answer to that fence, a job records `PrintConfirmed` only after its own print
fence has been answered, and `CutCommandProcessed` only after its own cut fence. -/
theorem confirmed_by_own_queued_answer (nonce : Bytes) (interpret : Interpreter)
    {cfg : Config Worker Unit (State Wire)}
    (h : (gsR1Session nonce interpret).Reach (ownAnswers nonce interpret) { device := {} } cfg)
    {id : Bytes} {state : JobState} {c : ConfidenceLevel} {r : FailureReason} {e : JobEvidence}
    {k : Unit → Prog Worker Unit} (hc : cfg.prog () = .call (.recordState id state c r e : Call) k) :
    (state = .printConfirmed → Answered (cfg.state.task, .printFence) cfg.state.device) ∧
      (state = .cutCommandProcessed → Answered (cfg.state.task, .cut) cfg.state.device) := by
  have ha : allowed _ cfg.state := guarded.allowed trivial (fun _ _ _ => trivial) h hc
  exact ⟨by rintro rfl; exact ha, by rintro rfl; exact ha⟩

/-! ### Two runs of a receipt -/

section Receipt

instance {nonce : Bytes} {interpret : Interpreter} (i : Unit) (c : Call)
    (ch : (gsR1Session nonce interpret).Choice) (s : State Wire) :
    Decidable ((ownAnswers nonce interpret).serve i c ch s) := .isTrue trivial

instance {nonce : Bytes} {interpret : Interpreter} (r : (gsR1Session nonce interpret).Restart)
    (s : State Wire) : Decidable ((ownAnswers nonce interpret).restart r s) := .isTrue trivial

instance {nonce : Bytes} {interpret : Interpreter} (e : (gsR1Session nonce interpret).Event)
    (s : State Wire) : Decidable ((ownAnswers nonce interpret).event e s) :=
  match (e : Event Act) with
  | .device .deliver => inferInstanceAs (Decidable (∀ owner ∈ s.device.asking, _ → ∀ byte ∈ _, _ ∨ _))
  | .device (.execute _) | .device (.send _) | .device .disconnect | .device .hangUp
  | .device (.matcher _ _) | .stop => .isTrue trivial

/-- A receipt of two letters, without preflight. -/
def receipt : GsR1Task := .job
  { id := str "job", key := [], payload := .raw (str "hi"), options := { preflight := .skip }
    attempt := 1, banner := false, profile := {}, widthDots := 576
    codecs := Encoder.plainCodecs, completionMethod := fun _ => none } rfl

abbrev Moves : Type := List (gsR1Session [] escposCommand).Move

/-- The receipt up to the wait for its print fence. -/
def sendReceipt : Moves :=
  let accept : Choice := .wrote ⟨true, 0⟩
  .start () receipt ::
    ([.connected true, .go, .go, .go, .go, accept, .go, accept, .go, .go] : List Choice).map
      fun ch => .serve () ch

/-- The printer executes a receipt and answers its fence; the answer arrives, and the wait
returns. -/
def answerReceipt : Moves :=
  [.event (.device (.execute none)), .event (.device (.execute (some 0))),
    .event (.device .deliver), .serve () .go]

theorem queued_receipt_confirmed : ∃ cfg : Config Worker Unit (State Wire),
    (gsR1Session [] escposCommand).Reach (ownAnswers [] escposCommand) { device := {} } cfg ∧
      Answered (cfg.state.task, .printFence) cfg.state.device := by
  have hp : (Machine.pending (ownAnswers [] escposCommand)
      (sendReceipt ++ answerReceipt) { device := {} } ()).map Prod.fst =
        some (.recordState (str "job") .printConfirmed .printConfirmed .none {}) := by rfl
  obtain ⟨cfg, c, k, hr, hk, rfl⟩ := Machine.reach_of_pending hp
  exact ⟨cfg, hr, (confirmed_by_own_queued_answer [] escposCommand hr hk).1 rfl⟩

/-- The fence of the first receipt times out; its answer arrives while the second receipt waits, of
which the printer has executed nothing, and confirms it. -/
theorem late_answer_confirms : ∃ (cfg : Config Worker Unit (State Wire)) (id : Bytes)
    (c : ConfidenceLevel) (r : FailureReason) (e : JobEvidence) (k : Unit → Prog Worker Unit),
    (gsR1Session [] escposCommand).Reach (.none _) { device := {} } cfg ∧
      cfg.prog () = .call (.recordState id .printConfirmed c r e : Call) k ∧
        ¬ Answered (cfg.state.task, .printFence) cfg.state.device := by
  have hp : (Machine.pending (M := gsR1Session [] escposCommand) (.none _)
      (sendReceipt ++ List.replicate 4 (.serve () .go) ++ sendReceipt ++ answerReceipt)
        { device := {} } ()).map (fun x => (x.1, x.2.task, x.2.device.arrived)) =
      some (.recordState (str "job") .printConfirmed .printConfirmed .none {}, 2,
        [(((1, .printFence), .gsR1), 0)]) := by rfl
  obtain ⟨cfg, c, k, hr, hk, hf⟩ := Machine.reach_of_pending hp
  simp only [Prod.mk.injEq] at hf
  obtain ⟨rfl, ht, ha⟩ := hf
  exact ⟨cfg, _, _, _, _, k, hr, hk, by simp [Answered, ht, ha]⟩

end Receipt

end PrinterDriver.Engine.GsR1
