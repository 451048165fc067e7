import PrinterDriver.Engine.Drawer
import PrinterDriver.Engine.QuietCalls

/-! # What a verdict on the drawer rests on

The opening sequence names a drawer `openVerified` or `failedToOpen` after it has watched the
switch. A `Log` reads a run of the sequence together with the frames that the receiving thread
merges meanwhile: which levels came in after the pulse was written, and which levels the watch
looked at. A poll that is not answered falls back to the level that was remembered last, whoever
wrote it and when.

`measured_iff` says of every finished run when its verdict is measured: a calibrated switch must say
something after the pulse, no round may fall back to an open level from before the pulse, and no
open level may come in that no round looks at. -/

namespace PrinterDriver.Engine.Verdicts

open PrinterDriver.Lib.Programs PrinterDriver.Core.Types PrinterDriver.Core.CashDrawer
  PrinterDriver.Engine.Io PrinterDriver.Engine.Ops PrinterDriver.Engine.QuietCalls
  PrinterDriver.Engine.Drawer

open Prog

/-! ### The log of a run -/

/-- A call of the task and its answer. -/
abbrev Entry : Type := Σ c : PeripheralCall, c.Answer

structure Log where
  /-- The level that is remembered, whoever wrote it. -/
  pin : Option Bool
  /-- A question to the switch is out: what is written is no pulse. -/
  asking : Bool := false
  /-- The level that was polled before the pulse. -/
  before : Option Bool := none
  pulsed : Bool := false
  /-- A write of the pulse was refused. -/
  lost : Bool := false
  /-- The levels received since the pulse was written, the last one first. -/
  levels : List Bool := []
  /-- The polls that were answered after the pulse. -/
  answers : List Bool := []
  /-- The remembered levels that stood in for an answer, and whether any level had been received
  since the pulse. -/
  fallbacks : List (Option Bool × Bool) := []
  deriving DecidableEq, Repr

namespace Log

/-- A level arrives from the printer. -/
def receive (L : Log) (high : Bool) : Log :=
  { L with pin := some high, levels := if L.pulsed then high :: L.levels else L.levels }

/-- Frames that carry the level, merged one after the other. -/
def hear (L : Log) (frames : List Bool) : Log := frames.foldl receive L

def post (L : Log) : Entry → Log
  | ⟨.worker (.io (.expectQueued _)), _⟩ => { L with asking := true }
  | ⟨.worker (.write _ _), sent⟩ =>
    if L.asking then L
    else { L with pulsed := true, levels := [], lost := !TransportResult.ok sent }
  | ⟨.awaitAnswer, _⟩ | ⟨.forget, _⟩ => { L with asking := false }
  | ⟨.noteLevel high, _⟩ =>
    if L.pulsed then { L.receive high with answers := high :: L.answers }
    else { L.receive high with before := some high }
  | ⟨.pulsed, _⟩ => { L with pulsed := true }
  | ⟨.drawerPin, level⟩ => { L with fallbacks := (level, !L.levels.isEmpty) :: L.fallbacks }
  | _ => L

end Log

/-- The only answer that the log determines. -/
def Remembers : (c : PeripheralCall) → c.Answer → Log → Prop
  | .drawerPin, level, L => level = L.pin
  | _, _, _ => True

/-- Frames arrive before a call is answered; otherwise every answer is possible. -/
def hearing : World Peripheral Log where
  answers c L a L' := ∃ frames, Remembers c a (L.hear frames) ∧ L' = (L.hear frames).post ⟨c, a⟩
  others _ _ := False
  allowed _ _ := True

/-! ### What a verdict owes to the switch -/

/-- `openVerified` and `failedToOpen` need a level received after the pulse; the first is given
exactly when such a level is the open one, or moved; and a drawer that is known to be open is not
pulsed. -/
structure Measured (d : DrawerRun) (result : DrawerOpenResult) (L : Log) : Prop where
  received : result.state = .openVerified ∨ result.state = .failedToOpen → L.levels ≠ []
  agrees : ∀ before, L.before = some before → L.pulsed = true → L.lost = false →
    (result.state = .openVerified ↔ ∃ level ∈ L.levels, d.moved before level = true)
  spared : d.caps.status.polarity.calibrated = true →
    L.before = some d.caps.status.polarity.highMeansOpen → L.pulsed = false

/-- The switch keeps answering after the pulse, as far as the verdict needs it. -/
structure Attentive (d : DrawerRun) (before : Bool) (L : Log) : Prop where
  /-- A calibrated switch says something after the pulse. -/
  heard : d.caps.status.polarity.calibrated = true → L.levels ≠ []
  /-- What stands in for an answer before anything is received does not say open. -/
  fresh : ∀ level, (some level, false) ∈ L.fallbacks → d.moved before level = false
  /-- An open level is not overwritten before a round looks at it, and does not come too late. -/
  caught : ∀ level ∈ L.levels, d.moved before level = true →
    level ∈ L.answers ∨ ∃ heard, (some level, heard) ∈ L.fallbacks

/-! ### Polls

A poll asks, writes while the question is out, and is answered or forgets. The rule is for every
world: the opening sequence is read more than once. -/

/-- The calls that write. -/
def Writes : PeripheralCall → Prop
  | .worker (.write _ _) => True
  | _ => False

theorem send_writes (d : DrawerRun) (part : Part) (data : Bytes) :
    (onWorker (sendPaced d.profile part data)).Only Writes :=
  Only.embed (S := fun c => Writes (.worker c)) (fun _ h => h) (sendPaced_only fun _ => trivial)

section Polls
variable {σ : Type} {W : World Peripheral σ}

/-- Assertions that polls keep; the argument says whether a question is out. -/
structure Asks (W : World Peripheral σ) (P : Bool → σ → Prop) : Prop where
  stable : ∀ asking, Stable W (P asking)
  allowed : ∀ asking c s, P asking s → W.allowed c s
  asks : ∀ part s a s', P false s →
    W.answers (.worker (.io (.expectQueued part))) s a s' → P true s'
  writes : ∀ part data s a s', P true s → W.answers (.worker (.write part data)) s a s' → P true s'
  answered : ∀ s a s', P true s → W.answers .awaitAnswer s a s' → P false s'
  forgets : ∀ asking s a s', P asking s → W.answers .forget s a s' → P false s'

variable {d : DrawerRun} {P : Bool → σ → Prop} {Q : Option Bool → σ → Prop}

theorem triple_unanswered {asking : Bool} (hP : Asks W P) (hnone : ∀ s, P false s → Q none s) :
    Triple W (P asking) DrawerRun.unanswered Q :=
  Triple.call (hP.stable asking) (fun s => hP.allowed asking _ s) (fun _ => P false)
    (fun s a s' h ha => hP.forgets asking s a s' h ha)
    fun _ => Triple.ret (hP.stable false) hnone

/-- A poll brings a level that is noted, or nothing. -/
theorem triple_poll (hP : Asks W P) (hstable : ∀ high, Stable W (Q (some high)))
    (hnone : ∀ s, P false s → Q none s)
    (hsome : ∀ high s a s', P false s → W.answers (.noteLevel high) s a s' → Q (some high) s') :
    Triple W (P false) d.pollDrawerPin Q := by
  refine Triple.call (hP.stable false) (fun s => hP.allowed false _ s) (fun _ => P true)
    (fun s a s' h ha => hP.asks _ s a s' h ha) fun _ => ?_
  change Triple W (P true) (onWorker (sendPaced d.profile .drawer d.statusRequest) >>= _) Q
  have hsend : Triple W (P true) (onWorker (sendPaced d.profile .drawer d.statusRequest))
      fun _ => P true := by
    refine Triple.only (send_writes d _ _) (hP.stable true) (fun c s _ h => hP.allowed true c s h) ?_
    intro c s a s' hc h ha
    cases c with
    | worker c =>
      cases c with
      | write part data => exact hP.writes part data s a s' h ha
      | _ => exact hc.elim
    | _ => exact hc.elim
  refine Triple.bind hsend fun sent => ?_
  split
  · exact triple_unanswered hP hnone
  · refine Triple.call (hP.stable true) (fun s => hP.allowed true _ s) (fun _ => P false)
      (fun s a s' h ha => hP.answered s a s' h ha) fun (outcome, answer) => ?_
    change Triple W (P false) (if outcome ≠ .signalled then _ else _) Q
    split
    · exact triple_unanswered hP hnone
    · cases d.levelOf answer with
      | none => exact Triple.ret (hP.stable false) hnone
      | some high =>
        exact Triple.call (hP.stable false) (fun s => hP.allowed false _ s)
          (fun _ => Q (some high)) (fun s a s' h ha => hsome high s a s' h ha)
          fun _ => Triple.ret (hstable _) fun _ h => h

end Polls

/-! ### Rules of the log -/

section Rules
variable {α : Type} {P : Log → Prop} {Q : α → Log → Prop}

theorem hear_keeps (hP : ∀ L high, P L → P (L.receive high)) :
    ∀ (frames : List Bool) {L : Log}, P L → P (L.hear frames)
  | [], _, h => h
  | high :: frames, L, h => hear_keeps hP frames (hP L high h)

theorem stable (P : Log → Prop) : Stable hearing P := fun _ _ _ h => h.elim

/-- The rule for a call: what frames keep, and what the call makes of it. -/
theorem triple_call {c : PeripheralCall} {k : c.Answer → Prog Peripheral α}
    (hP : ∀ L high, P L → P (L.receive high)) (R : c.Answer → Log → Prop)
    (hR : ∀ L a, P L → Remembers c a L → R a (L.post ⟨c, a⟩))
    (hk : ∀ a, Triple hearing (R a) (k a) Q) :
    Triple hearing P (.call (c : Peripheral.Call) k) Q := by
  refine Triple.call (stable P) (fun _ _ => trivial) R ?_ hk
  rintro L a L' h ⟨frames, hrem, rfl⟩
  exact hR _ a (hear_keeps hP frames h) hrem

theorem triple_ret {a : α} (h : ∀ L, P L → Q a L) : Triple hearing P (.ret a) Q :=
  Triple.ret (stable P) h

/-- What frames keep, and the question that is out sets and clears. -/
theorem asks_hearing {P : Bool → Log → Prop}
    (hears : ∀ asking L high, P asking L → P asking (L.receive high))
    (shows : ∀ asking L, P asking L → L.asking = asking)
    (sets : ∀ asking asking' L, P asking L → P asking' { L with asking := asking' }) :
    Asks hearing P where
  stable _ := stable _
  allowed _ _ _ _ := trivial
  asks part s a s' h ha := by
    obtain ⟨frames, -, rfl⟩ := ha
    exact sets _ true _ (hear_keeps (hears false) frames h)
  writes part data s a s' h ha := by
    obtain ⟨frames, -, rfl⟩ := ha
    have hs := hear_keeps (hears true) frames h
    show P true (if (s.hear frames).asking then _ else _)
    rw [if_pos (shows true _ hs)]
    exact hs
  answered s a s' h ha := by
    obtain ⟨frames, -, rfl⟩ := ha
    exact sets _ false _ (hear_keeps (hears true) frames h)
  forgets asking s a s' h ha := by
    obtain ⟨frames, -, rfl⟩ := ha
    exact sets _ false _ (hear_keeps (hears asking) frames h)

/-- A poll under the log. -/
theorem triple_logged {d : DrawerRun} {P : Bool → Log → Prop} {Q : Option Bool → Log → Prop}
    (hP : Asks hearing P) (hears : ∀ L high, P false L → P false (L.receive high))
    (hnone : ∀ L, P false L → Q none L)
    (hsome : ∀ L high, P false L → Q (some high) (L.post ⟨.noteLevel high, ()⟩)) :
    Triple hearing (P false) d.pollDrawerPin Q := by
  refine triple_poll hP (fun _ => stable _) hnone ?_
  rintro high L a L' h ⟨frames, -, rfl⟩
  exact hsome _ high (hear_keeps hears frames h)

end Rules

/-! ### Before the pulse -/

/-- Nothing is pulsed and nothing watched; the level read is remembered, or a later one. -/
structure Before (before : Option Bool) (asking : Bool) (L : Log) : Prop where
  asked : L.asking = asking
  read : L.before = before
  unpulsed : L.pulsed = false
  kept : L.lost = false
  levels : L.levels = []
  answers : L.answers = []
  fallbacks : L.fallbacks = []
  known : before.isSome = true → L.pin.isSome = true

theorem before_receive {before : Option Bool} {asking : Bool} (L : Log) (high : Bool)
    (h : Before before asking L) : Before before asking (L.receive high) := by
  refine ⟨h.asked, h.read, h.unpulsed, h.kept, ?_, h.answers, h.fallbacks, fun _ => rfl⟩
  show (if L.pulsed then _ else L.levels) = []
  rw [h.unpulsed]
  exact h.levels

theorem asks_before (before : Option Bool) : Asks hearing (Before before) :=
  asks_hearing (fun _ => before_receive) (fun _ _ h => h.asked) fun _ _ _ h =>
    ⟨rfl, h.read, h.unpulsed, h.kept, h.levels, h.answers, h.fallbacks, h.known⟩

variable {d : DrawerRun} {before : Option Bool}

theorem triple_levelBefore :
    Triple hearing (Before none false) d.levelBefore fun level => Before level false := by
  unfold DrawerRun.levelBefore
  split
  · refine triple_logged (asks_before none) before_receive (fun _ h => h) fun L high h => ?_
    show Before (some high) false (if L.pulsed then _ else _)
    rw [h.unpulsed]
    refine ⟨h.asked, rfl, h.unpulsed, h.kept, ?_, h.answers, h.fallbacks, fun _ => rfl⟩
    exact (before_receive L high h).levels
  · exact triple_ret fun _ h => h

theorem triple_coolDown :
    Triple hearing (Before before false) d.coolDown fun _ => Before before false := by
  unfold DrawerRun.coolDown
  split
  · exact triple_call before_receive (fun _ => Before before false) (fun _ _ h _ => h)
      fun _ => triple_ret fun _ h => h
  · exact triple_ret fun _ h => h

/-! ### The pulse -/

/-- The pulse, or a part of it, has been written; `ok` is what the transport said. -/
structure Struck (before : Option Bool) (ok : Bool) (L : Log) : Prop where
  asked : L.asking = false
  read : L.before = before
  kept : L.lost = !ok
  answers : L.answers = []
  fallbacks : L.fallbacks = []
  unpulsed : L.pulsed = false → L.levels = []
  remembered : before.isSome = true → ∃ pin, L.pin = some pin ∧ (L.levels = [] ∨ pin ∈ L.levels)

theorem Before.struck {L : Log} (h : Before before false L) : Struck before true L where
  asked := h.asked
  read := h.read
  kept := h.kept
  answers := h.answers
  fallbacks := h.fallbacks
  unpulsed _ := h.levels
  remembered hb := by
    obtain ⟨pin, hpin⟩ := Option.isSome_iff_exists.mp (h.known hb)
    exact ⟨pin, hpin, .inl h.levels⟩

theorem struck_receive {ok : Bool} (L : Log) (high : Bool) (h : Struck before ok L) :
    Struck before ok (L.receive high) := by
  refine ⟨h.asked, h.read, h.kept, h.answers, h.fallbacks, fun hp => ?_, fun _ => ⟨high, rfl, ?_⟩⟩
  · have hp' : L.pulsed = false := hp
    show (if L.pulsed then _ else L.levels) = []
    rw [hp']
    exact h.unpulsed hp'
  · show (if L.pulsed then high :: L.levels else L.levels) = [] ∨ _
    cases hp : L.pulsed with
    | false => exact .inl (h.unpulsed hp)
    | true => exact .inr (by simp [Log.receive, hp])

theorem struck_write {ok : Bool} {part : Part} {data : Bytes} {sent : TransportResult} (L : Log)
    (h : Struck before ok L) :
    Struck before sent.ok (L.post ⟨.worker (.write part data), sent⟩) := by
  show Struck before sent.ok (if L.asking then _ else _)
  rw [h.asked, if_neg Bool.false_ne_true]
  refine ⟨rfl, h.read, rfl, h.answers, h.fallbacks, fun _ => rfl, fun hb => ?_⟩
  obtain ⟨pin, hpin, _⟩ := h.remembered hb
  exact ⟨pin, hpin, .inl rfl⟩

theorem triple_chunks {part : Part} : ∀ (cs : List Bytes) (offset : ℕ),
    Triple hearing (Struck before true) (onWorker (sendChunks part cs offset))
      fun sent => Struck before sent.ok
  | [], offset => triple_ret fun _ h => h
  | c :: cs, offset => by
    refine triple_call struck_receive (fun sent => Struck before (TransportResult.ok sent))
      (fun L _ h _ => struck_write L h) fun (sent : TransportResult) => ?_
    show Triple hearing (Struck before sent.ok) (onWorker (if sent.ok then _ else _)) _
    cases hok : sent.ok with
    | true => exact triple_chunks cs _
    | false => exact triple_ret fun _ h => h

theorem triple_pulse {part : Part} {data : Bytes} :
    Triple hearing (Struck before true) (onWorker (sendPaced d.profile part data))
      fun sent => Struck before sent.ok := by
  unfold sendPaced
  split
  · exact triple_call struck_receive (fun sent => Struck before (TransportResult.ok sent))
      (fun L _ h _ => struck_write L h) fun (sent : TransportResult) => triple_ret fun _ h => h
  · exact triple_chunks _ 0

/-! ### The watch -/

/-- A round has looked at this level. -/
def Log.Looked (L : Log) (level : Bool) : Prop :=
  level ∈ L.answers ∨ ∃ heard, (some level, heard) ∈ L.fallbacks

/-- The pulse is out and the switch is watched. -/
structure Watching (before asking : Bool) (L : Log) : Prop where
  asked : L.asking = asking
  read : L.before = some before
  pulsed : L.pulsed = true
  kept : L.lost = false
  answered : ∀ level ∈ L.answers, level ∈ L.levels
  heard : ∀ level, (some level, true) ∈ L.fallbacks → level ∈ L.levels
  remembered : ∃ pin, L.pin = some pin ∧ (L.levels = [] ∨ pin ∈ L.levels)

/-- No round has seen the drawer go out. -/
def Unmoved (d : DrawerRun) (before : Bool) (L : Log) : Prop :=
  ∀ level, L.Looked level → d.moved before level = false

/-- The last round has looked at a level, and no round before it has seen the drawer go out. -/
structure Sighted (d : DrawerRun) (before level : Bool) (L : Log) : Prop where
  watching : Watching before false L
  looked : L.Looked level
  others : ∀ level', L.Looked level' → level' = level ∨ d.moved before level' = false
  stale : ∀ level', (some level', false) ∈ L.fallbacks → d.moved before level' = true →
    L.levels = []

/-- What the end of the watch says of the log. -/
def Seen (d : DrawerRun) (before : Bool) (seen : DrawerRun.Sighting) (L : Log) : Prop :=
  Watching before false L ∧
    match seen with
    | .verified => ∃ level, Sighted d before level L ∧ d.moved before level = true
    | .answered => Unmoved d before L
    | .silent => False

section Watch
variable {before : Bool}

theorem watching_receive {asking : Bool} (L : Log) (high : Bool) (h : Watching before asking L) :
    Watching before asking (L.receive high) := by
  have hlevels : (L.receive high).levels = high :: L.levels := by
    show (if L.pulsed then _ else _) = _
    rw [h.pulsed]
    rfl
  refine ⟨h.asked, h.read, h.pulsed, h.kept, fun level hl => ?_, fun level hl => ?_, high, rfl, ?_⟩
  · rw [hlevels]
    exact List.mem_cons_of_mem _ (h.answered level hl)
  · rw [hlevels]
    exact List.mem_cons_of_mem _ (h.heard level hl)
  · rw [hlevels]
    exact .inr List.mem_cons_self

/-- Nothing has been seen to move yet. -/
def Waiting (d : DrawerRun) (before asking : Bool) (L : Log) : Prop :=
  Watching before asking L ∧ Unmoved d before L

theorem waiting_receive {asking : Bool} (L : Log) (high : Bool) (h : Waiting d before asking L) :
    Waiting d before asking (L.receive high) := ⟨watching_receive L high h.1, h.2⟩

theorem asks_waiting : Asks hearing (Waiting d before) :=
  asks_hearing (fun _ => waiting_receive) (fun _ _ h => h.1.asked) fun _ _ _ h =>
    ⟨⟨rfl, h.1.read, h.1.pulsed, h.1.kept, h.1.answered, h.1.heard, h.1.remembered⟩, h.2⟩

/-- An answered poll. -/
theorem sighted_note {L : Log} (high : Bool) (h : Watching before false L)
    (hu : Unmoved d before L) : Sighted d before high (L.post ⟨.noteLevel high, ()⟩) := by
  have hr := watching_receive L high h
  have hpost : L.post ⟨.noteLevel high, ()⟩ =
      { L.receive high with answers := high :: L.answers } := by
    show (if L.pulsed then _ else _) = _
    rw [h.pulsed]
    rfl
  rw [hpost]
  refine ⟨⟨hr.asked, hr.read, hr.pulsed, hr.kept, fun level hl => ?_, hr.heard, hr.remembered⟩,
    .inl List.mem_cons_self, fun level hl => ?_, fun level hl hm => ?_⟩
  · rcases List.mem_cons.mp hl with rfl | hl
    · show level ∈ (if L.pulsed then _ else _)
      rw [h.pulsed]
      exact List.mem_cons_self
    · exact hr.answered level hl
  · rcases hl with hl | hl
    · rcases List.mem_cons.mp hl with rfl | hl
      · exact .inl rfl
      · exact .inr (hu level (.inl hl))
    · exact .inr (hu level (.inr hl))
  · rw [hu level (.inr ⟨_, hl⟩)] at hm
    cases hm

/-- An unanswered poll. -/
theorem sighted_remembered {L : Log} {pin : Bool} (hpin : L.pin = some pin)
    (h : Watching before false L) (hu : Unmoved d before L) :
    Sighted d before pin (L.post ⟨.drawerPin, some pin⟩) := by
  have hmem : L.levels = [] ∨ pin ∈ L.levels := by
    obtain ⟨pin', hpin', hmem⟩ := h.remembered
    rw [hpin] at hpin'
    obtain rfl := Option.some.inj hpin'
    exact hmem
  refine ⟨⟨h.asked, h.read, h.pulsed, h.kept, h.answered, fun level hl => ?_, h.remembered⟩,
    .inr ⟨_, List.mem_cons_self⟩, fun level hl => ?_, fun level hl hm => ?_⟩
  · rcases List.mem_cons.mp hl with he | hl
    · obtain ⟨he, hh⟩ := Prod.mk.inj he
      obtain rfl := Option.some.inj he
      refine hmem.resolve_left fun hnil => ?_
      rw [hnil] at hh
      cases hh
    · exact h.heard level hl
  · rcases hl with hl | ⟨heard, hl⟩
    · exact .inr (hu level (.inl hl))
    · rcases List.mem_cons.mp hl with he | hl
      · exact .inl (Option.some.inj (Prod.mk.inj he).1)
      · exact .inr (hu level (.inr ⟨heard, hl⟩))
  · rcases List.mem_cons.mp hl with he | hl
    · have hh := (Prod.mk.inj he).2
      show L.levels = []
      cases hlv : L.levels with
      | nil => rfl
      | cons => simp [hlv] at hh
    · rw [hu level (.inr ⟨_, hl⟩)] at hm
      cases hm

/-- After the poll of a round. -/
def Polled (d : DrawerRun) (before : Bool) : Option Bool → Log → Prop
  | some high, L => Sighted d before high L
  | none, L => Waiting d before false L

theorem triple_polled : Triple hearing (Waiting d before false)
    d.pollDrawerPin (Polled d before) :=
  triple_logged asks_waiting waiting_receive (fun _ h => h) fun _ high h =>
    sighted_note high h.1 h.2

/-- Whether or not the poll was answered, the round looks at a level. -/
theorem triple_lastLevel (polled : Option Bool) : Triple hearing (Polled d before polled)
    (DrawerRun.lastLevel polled)
    fun level L => ∃ high, level = some high ∧ Sighted d before high L := by
  cases polled with
  | some high => exact triple_ret fun L h => ⟨high, rfl, h⟩
  | none =>
    refine triple_call waiting_receive (fun level L =>
      ∃ high, level = some high ∧ Sighted d before high L) ?_ fun _ => triple_ret fun _ h => h
    intro L level h hlevel
    obtain ⟨pin, hpin, _⟩ := h.1.remembered
    obtain rfl : level = some pin := hlevel.trans hpin
    exact ⟨pin, rfl, sighted_remembered hpin h.1 h.2⟩

/-- A round that saw nothing move. -/
theorem Sighted.unmoved {L : Log} {level : Bool} (h : Sighted d before level L)
    (hm : d.moved before level = false) : Unmoved d before L := by
  intro level' hl
  rcases h.others level' hl with rfl | hu
  · exact hm
  · exact hu

theorem triple_watch : ∀ (rounds : ℕ) (seen : DrawerRun.Sighting),
    Triple hearing (Waiting d before false)
      (d.watch before rounds seen) (Seen d before)
  | rounds, seen => by
    unfold DrawerRun.watch
    refine Triple.bind triple_polled fun polled => ?_
    refine Triple.bind (triple_lastLevel polled) fun level => ?_
    cases level with
    | none =>
      refine Triple.absurd fun L h => ?_
      obtain ⟨high, he, _⟩ := h
      cases he
    | some high =>
      have hsighted : ∀ L, (∃ high', some high = some high' ∧ Sighted d before high' L) →
          Sighted d before high L := by
        rintro L ⟨high', he, h⟩
        obtain rfl := Option.some.inj he
        exact h
      cases hm : d.moved before high with
      | true =>
        simp only [Option.map_some, hm, Option.getD_some, if_true]
        exact triple_ret fun L h => ⟨(hsighted L h).watching, high, hsighted L h, hm⟩
      | false =>
        simp only [Option.map_some, hm, Option.getD_some, Bool.false_eq_true, if_false,
          Option.isSome_some, if_true]
        cases rounds with
        | zero =>
          exact triple_ret fun L h => ⟨(hsighted L h).watching, (hsighted L h).unmoved hm⟩
        | succ rounds =>
          refine Triple.pre (P := Waiting d before false) ?_
            fun L h => ⟨(hsighted L h).watching, (hsighted L h).unmoved hm⟩
          refine triple_call waiting_receive (fun _ => Waiting d before false) (fun _ _ h _ => h)
            fun (late : Bool) => ?_
          change Triple hearing _ (if late then _ else _) _
          split
          · exact triple_ret fun L h => h
          · refine triple_call waiting_receive (fun _ => Waiting d before false)
              (fun _ _ h _ => h) fun _ => ?_
            exact triple_watch rounds .answered

end Watch

/-! ### The verdict -/

/-- The log is one in which the switch was attentive, if it was watched at all. -/
def Watched (d : DrawerRun) (L : Log) : Prop :=
  ∀ before, L.before = some before → L.pulsed = true → L.lost = false → Attentive d before L

theorem moved_unique {before a b : Bool} (ha : d.moved before a = true)
    (hb : d.moved before b = true) : a = b := by
  unfold DrawerRun.moved at ha hb
  split_ifs at ha hb with hcal
  · rw [decide_eq_true_eq] at ha hb
    exact ha.trans hb.symm
  · rw [decide_eq_true_eq] at ha hb
    cases before <;> simp_all

/-- A sequence that never watches the switch. -/
theorem settled_unwatched {result : DrawerOpenResult} {L : Log}
    (hstate : result.state ≠ .openVerified ∧ result.state ≠ .failedToOpen)
    (hno : ∀ before, L.before = some before → L.pulsed = true → L.lost = false → False)
    (hspared : d.caps.status.polarity.calibrated = true →
      L.before = some d.caps.status.polarity.highMeansOpen → L.pulsed = false) :
    Measured d result L ↔ Watched d L := by
  refine iff_of_true ⟨fun h => ?_, fun before h hp hk => ?_, hspared⟩ fun before h hp hk => ?_
  · rcases h with h | h
    · exact absurd h hstate.1
    · exact absurd h hstate.2
  · exact (hno before h hp hk).elim
  · exact (hno before h hp hk).elim

/-- What was looked at and moved was received, unless it was remembered from before the pulse. -/
theorem Sighted.received {before level : Bool} {L : Log} (h : Sighted d before level L)
    (hfresh : ∀ level, (some level, false) ∈ L.fallbacks → d.moved before level = false)
    (hm : d.moved before level = true) : level ∈ L.levels := by
  rcases h.looked with hl | ⟨heard, hl⟩
  · exact h.watching.answered level hl
  · cases heard with
    | true => exact h.watching.heard level hl
    | false =>
      rw [hfresh level hl] at hm
      cases hm

theorem settled_watched {before : Bool} {seen : DrawerRun.Sighting} {result : DrawerOpenResult}
    {L : Log} (h : Seen d before seen L) (hresult : result.state = d.verdict seen)
    (hclosed : d.caps.status.polarity.calibrated = true →
      before ≠ d.caps.status.polarity.highMeansOpen) :
    Measured d result L ↔ Watched d L := by
  obtain ⟨hwatching, hseen⟩ := h
  have hbefore : ∀ {before'}, L.before = some before' → before' = before := by
    intro before' hb
    rw [hwatching.read] at hb
    exact (Option.some.inj hb).symm
  constructor
  · intro hm before' hb _ _
    obtain rfl := hbefore hb
    have hverified : (∃ level ∈ L.levels, d.moved before' level = true) → seen = .verified := by
      intro hl
      have hov := (hm.agrees before' hb hwatching.pulsed hwatching.kept).mpr hl
      rw [hresult] at hov
      cases seen with
      | verified => rfl
      | answered =>
        simp only [DrawerRun.verdict] at hov
        split_ifs at hov
      | silent => cases hov
    refine ⟨fun hcal => hm.received ?_, fun level hl => ?_, fun level hl hmoved => ?_⟩
    · cases seen with
      | verified => exact .inl hresult
      | answered => exact .inr (by rw [hresult, DrawerRun.verdict, if_pos hcal])
      | silent => exact hseen.elim
    · by_contra hmoved
      rw [Bool.not_eq_false] at hmoved
      cases seen with
      | verified =>
        obtain ⟨_, hs, _⟩ := hseen
        exact hm.received (.inl hresult) (hs.stale level hl hmoved)
      | answered =>
        rw [hseen level (.inr ⟨_, hl⟩)] at hmoved
        cases hmoved
      | silent => exact hseen
    · obtain rfl := hverified ⟨level, hl, hmoved⟩
      obtain ⟨level', hs, hmoved'⟩ := hseen
      obtain rfl := moved_unique hmoved hmoved'
      exact hs.looked
  · intro hw
    have hatt := hw before hwatching.read hwatching.pulsed hwatching.kept
    refine ⟨fun hstate => ?_, fun before' hb _ _ => ?_, fun hcal hb => ?_⟩
    · cases seen with
      | verified =>
        obtain ⟨level, hs, hmoved⟩ := hseen
        exact List.ne_nil_of_mem (hs.received hatt.fresh hmoved)
      | answered =>
        rw [hresult, DrawerRun.verdict] at hstate
        split_ifs at hstate with hcal
        · exact hatt.heard hcal
        · rcases hstate with h | h <;> cases h
      | silent => exact hseen.elim
    · obtain rfl := hbefore hb
      constructor
      · intro hov
        rw [hresult] at hov
        cases seen with
        | verified =>
          obtain ⟨level, hs, hmoved⟩ := hseen
          exact ⟨level, hs.received hatt.fresh hmoved, hmoved⟩
        | answered =>
          simp only [DrawerRun.verdict] at hov
          split_ifs at hov
        | silent => exact hseen.elim
      · rintro ⟨level, hl, hmoved⟩
        cases seen with
        | verified => exact hresult
        | answered =>
          rw [hseen level (hatt.caught level hl hmoved)] at hmoved
          cases hmoved
        | silent => exact hseen.elim
    · exact absurd (Option.some.inj (hwatching.read.symm.trans hb)) (hclosed hcal)

/-- What the sequence does behind the first look at the switch. -/
theorem triple_fire {before : Option Bool} {result : DrawerOpenResult}
    (hclosed : d.caps.status.polarity.calibrated = true →
      before ≠ some d.caps.status.polarity.highMeansOpen) :
    Triple hearing (Before before false) (d.fire before result)
      fun result L => Measured d result L ↔ Watched d L := by
  refine Triple.bind triple_coolDown fun _ => ?_
  unfold DrawerRun.kick
  cases d.pulse result with
  | none =>
    exact triple_call before_receive (fun _ _ => True) (fun _ _ _ _ => trivial)
      fun (e : Empty) => e.elim
  | some bytes =>
    refine Triple.bind (triple_pulse.pre fun L h => h.struck) fun sent => ?_
    refine triple_call struck_receive (fun _ L => Struck before sent.ok L ∧ L.pulsed = true)
      (fun L _ h _ => ⟨⟨h.asked, h.read, h.kept, h.answers, h.fallbacks, (fun hp => nomatch hp),
        h.remembered⟩, rfl⟩) fun _ => ?_
    change Triple hearing _ (if !sent.ok then _ else _) _
    split
    next hsent =>
      refine triple_ret fun L h => settled_unwatched ⟨by simp, by simp⟩ (fun _ _ _ hk => ?_)
        fun hcal hb => absurd (h.1.read.symm.trans hb) (hclosed hcal)
      rw [h.1.kept, hsent] at hk
      cases hk
    next hsent =>
      cases before with
      | none =>
        refine triple_ret fun L h => settled_unwatched ⟨by simp, by simp⟩ (fun b hb _ _ => ?_)
          fun hcal hb => absurd (h.1.read.symm.trans hb) (hclosed hcal)
        rw [h.1.read] at hb
        cases hb
      | some before =>
        refine Triple.bind ((triple_watch d.rounds .silent).pre fun L h => ?_) fun seen => ?_
        · have hok : sent.ok = true := by simpa using hsent
          rw [hok] at h
          have hlooked : ∀ level, ¬ L.Looked level := by
            rintro level (hl | ⟨heard, hl⟩)
            · rw [h.1.answers] at hl
              cases hl
            · rw [h.1.fallbacks] at hl
              cases hl
          exact ⟨⟨h.1.asked, h.1.read, h.2, h.1.kept,
            fun level hl => absurd (.inl hl) (hlooked level),
            fun level hl => absurd (.inr ⟨_, hl⟩) (hlooked level), h.1.remembered rfl⟩,
            fun level hl => absurd hl (hlooked level)⟩
        · refine triple_ret fun L h => settled_watched h rfl fun hcal he => ?_
          exact hclosed hcal (congrArg some he)

theorem triple_runDrawerSequence :
    Triple hearing (Before none false) d.runDrawerSequence
      fun result L => Measured d result L ↔ Watched d L := by
  unfold DrawerRun.runDrawerSequence
  refine triple_call before_receive (fun _ => Before none false) (fun _ _ h _ => h)
    fun (connected : Bool) => ?_
  change Triple hearing _ (if !connected then _ else _) _
  split
  · refine triple_ret fun L h => settled_unwatched ⟨by simp, by simp⟩ (fun b hb _ _ => ?_)
      fun _ _ => h.unpulsed
    rw [h.read] at hb
    cases hb
  · refine triple_call before_receive (fun _ => Before none false) (fun _ _ h _ => h) fun _ => ?_
    change Triple hearing _ (d.levelBefore >>= _) _
    refine Triple.bind triple_levelBefore fun level => ?_
    cases level with
    | none => exact triple_fire fun _ h => by cases h
    | some high =>
      dsimp only
      split
      next hopen =>
        refine triple_ret fun L h => settled_unwatched ⟨by simp, by simp⟩ (fun b _ hp _ => ?_)
          fun _ _ => h.unpulsed
        rw [h.unpulsed] at hp
        cases hp
      next hopen =>
        refine triple_fire fun hcal he => hopen ?_
        obtain rfl := Option.some.inj he
        unfold drawerStateFrom
        rw [hcal]
        cases d.caps.status.polarity.highMeansOpen <;> rfl

/-- **A verdict on the drawer is measured exactly when the switch was attentive: calibrated, it said
something after the pulse; no round fell back to an open level from before it; and no open level
came in that no round looked at.** -/
theorem measured_iff {pin : Option Bool} {result : DrawerOpenResult} {L : Log}
    (hrun : Finish hearing d.runDrawerSequence { pin := pin } result L) :
    Measured d result L ↔
      ∀ before, L.before = some before → L.pulsed = true → L.lost = false →
        Attentive d before L := by
  have hbegin : Before none false { pin := pin } :=
    ⟨rfl, rfl, rfl, rfl, rfl, rfl, rfl, fun h => nomatch h⟩
  have hsafe := triple_runDrawerSequence (d := d) { pin := pin } hbegin
  exact Safe.finish (Q := fun result L => Measured d result L ↔ Watched d L) hrun hsafe

/-! ### A switch that falls silent after the pulse -/

/-- Answer the calls out of the log, without frames in between. -/
def follow {α : Type} (answer : Log → (c : PeripheralCall) → Option c.Answer) :
    Prog Peripheral α → Log → Option (α × Log)
  | .ret a, L => some (a, L)
  | .call c k, L =>
    match answer L c with
    | some a => follow answer (k a) (L.post ⟨c, a⟩)
    | none => none

theorem finish_follow {α : Type} {answer : Log → (c : PeripheralCall) → Option c.Answer}
    (hpin : ∀ L level, answer L .drawerPin = some level → level = L.pin) :
    ∀ {p : Prog Peripheral α} {L : Log} {a : α} {L' : Log}, follow answer p L = some (a, L') →
      Finish hearing p L a L'
  | .ret b, L, a, L', h => by
    obtain ⟨rfl, rfl⟩ := Prod.mk.inj (Option.some.inj h)
    exact .nil _ L
  | .call c k, L, a, L', h => by
    unfold follow at h
    cases hc : answer L c with
    | none =>
      rw [hc] at h
      cases h
    | some b =>
      rw [hc] at h
      have hrem : Remembers c b L := by
        cases c with
        | drawerPin => exact hpin L b hc
        | _ => trivial
      exact .call .refl ⟨[], hrem, rfl⟩ (finish_follow hpin h)

/-- A calibrated drawer: its pin is high when it is open. -/
def counter : DrawerRun where
  profile := {}
  caps := {
    present := true
    electrical := { standard := .epson24V6P6C, channelCount := 2 }
    kick := { method := .epsonEscP }
    status := { available := true, method := .gsR2
                polarity := { calibrated := true, highMeansOpen := true } } }
  request := {}
  registrations _ := none

/-- A switch that answers closed before the pulse; `after` is what it answers then, if it does. -/
def switch (after : Option UInt8) (L : Log) : (c : PeripheralCall) → Option c.Answer
  | .worker .ensureConnected => some true
  | .worker (.write _ data) => some (⟨true, data.length⟩ : TransportResult)
  | .worker (.io _) => some ()
  | .worker _ => none
  | .awaitAnswer =>
    if L.pulsed then
      match after with
      | some answer => some (.signalled, answer)
      | none => some (.timeout, 0)
    else some (.signalled, 0)
  | .drawerPin => some L.pin
  | .overdue => some true
  | .forget | .noteLevel _ | .coolDown _ | .pulsed | .pause _ | .deliver _ => some ()

theorem switch_pin (after : Option UInt8) (L : Log) (level : Option Bool)
    (h : switch after L .drawerPin = some level) : level = L.pin := (Option.some.inj h).symm

/-- The drawer is said to have failed to open, and nothing was heard of it after the pulse. -/
theorem counter_silent : ∃ result L,
    Finish hearing counter.runDrawerSequence { pin := none } result L ∧
      result.state = .failedToOpen ∧ L.pulsed = true ∧ L.levels = [] ∧
        ¬ Measured counter result L := by
  have hrun : ∃ result L, follow (switch none) counter.runDrawerSequence { pin := none } =
      some (result, L) ∧ result.state = .failedToOpen ∧ L.pulsed = true ∧ L.levels = [] :=
    ⟨_, _, rfl, rfl, rfl, rfl⟩
  obtain ⟨result, L, hrun, hstate, hpulsed, hlevels⟩ := hrun
  exact ⟨result, L, finish_follow (switch_pin none) hrun, hstate, hpulsed, hlevels,
    fun h => h.received (.inr hstate) hlevels⟩

/-- A switch that answers open after the pulse. -/
theorem counter_measured : ∃ result L,
    Finish hearing counter.runDrawerSequence { pin := none } result L ∧
      result.state = .openVerified ∧ Measured counter result L := by
  have hrun : ∃ result L, follow (switch (some 1)) counter.runDrawerSequence { pin := none } =
      some (result, L) ∧ result.state = .openVerified ∧ L.levels = [true] ∧ L.answers = [true] ∧
        L.fallbacks = [] := ⟨_, _, rfl, rfl, rfl, rfl, rfl⟩
  obtain ⟨result, L, hrun, hstate, hlevels, hanswers, hfallbacks⟩ := hrun
  have hfinish := finish_follow (switch_pin (some 1)) hrun
  refine ⟨result, L, hfinish, hstate, (measured_iff hfinish).mpr fun before _ _ _ => ?_⟩
  refine ⟨fun _ => by simp [hlevels], fun level hl => ?_, fun level hl _ => .inl ?_⟩
  · rw [hfallbacks] at hl
    cases hl
  · rwa [hanswers, ← hlevels]

end PrinterDriver.Engine.Verdicts
