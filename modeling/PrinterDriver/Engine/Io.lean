import Mathlib.Data.List.Induction
import PrinterDriver.Core.Profile
import PrinterDriver.Core.EscposParser
import PrinterDriver.Core.Star

/-! # The state under the io lock

What a `PrinterRuntime` keeps under `io_mutex_`: the two parsers, the answers they have filed, and
the state of the Star and custom fences. `onBytes` is what the transport's callback does with
received bytes; the other functions are what the worker does, each in one critical section. The
waits are given as what they return at the moment they return: a wait may give up at any moment,
so its outcome is a function of the state it finds then. -/

namespace PrinterDriver.Engine.Io

open PrinterDriver.Core.Types PrinterDriver.Core.Profile PrinterDriver.Core.EscposParser
  PrinterDriver.Core

inductive CustomMatch where
  | matched (token : Bytes)
  | notMine
  | needMore
  deriving DecidableEq, Repr

/-- A registered completion method. -/
structure CompletionMethod where
  id : Bytes
  fenceBytes : Bytes → Bytes
  matcher : Bytes → CustomMatch
  grade : ConfidenceGrade := .aJobLevelConfirmation
  authority : CompletionAuthority := .physicalPrinter
  methodName : Bytes

inductive WaitOutcome where
  | signalled | timeout | linkDown | aborted
  deriving DecidableEq, Repr

structure IoState where
  parser : ResponseParser := {}
  gshTokens : List Bytes := []
  queuedAnswers : ℕ := 0
  queuedBytes : Bytes := []
  realtimeAnswers : List ParsedEvent := []
  linkDown : Bool := false
  stopping : Bool := false
  starParser : Star.StarParser := {}
  starMode : Bool := false
  starFenceOutstanding : Bool := false
  starFenceSignalled : Bool := false
  starFenceIsEtb : Bool := false
  starExpectN1 : UInt8 := 0
  starExpectN2 : UInt8 := 0
  starExpectCounter : UInt8 := 0
  starCounter : Option UInt8 := none
  starSequence : UInt16 := 0
  customMethod : Option CompletionMethod := none
  customFenceOutstanding : Bool := false
  customRx : Bytes := []
  customTokens : List Bytes := []

/-- A token of this driver: four bytes, the first two its nonce. -/
def isOurs (nonce token : Bytes) : Bool := token.length = 4 && token.take 2 = nonce

namespace IoState

/-! ### Received bytes -/

def onStarEvent (s : IoState) : Star.Event → List DeviceEvent × IoState
  | .etxAck n1 n2 _ =>
    if s.starFenceOutstanding && !s.starFenceIsEtb && n1 = s.starExpectN1 && n2 = s.starExpectN2
    then ([], { s with starFenceSignalled := true })
    else ([.foreignWriterDetected], s)
  | .asbStatus _ counter =>
    if s.starCounter = some counter then ([], s)
    else if s.starFenceOutstanding && s.starFenceIsEtb && counter = s.starExpectCounter then
      ([], { s with starCounter := some counter, starFenceSignalled := true })
    else ([.foreignWriterDetected], { s with starCounter := some counter })
  | .unknownByte _ => ([], s)

/-- A `GS ( H` echo with another nonce is reported and dropped. -/
def onParsedEvent (nonce : Bytes) (s : IoState) : ParsedEvent → List DeviceEvent × IoState
  | .gsHAck token =>
    if !isOurs nonce token then ([.foreignWriterDetected], s)
    else ([], { s with gshTokens := s.gshTokens ++ [token] })
  | .queuedStatus byte =>
    ([], { s with queuedAnswers := s.queuedAnswers + 1, queuedBytes := s.queuedBytes ++ [byte] })
  | .realtimeStatus kind byte =>
    (toDeviceEvents (ParsedEvent.flags (.realtimeStatus kind byte)),
      { s with realtimeAnswers := s.realtimeAnswers ++ [.realtimeStatus kind byte] })
  | .asbStatus frame => (toDeviceEvents (ParsedEvent.flags (.asbStatus frame)), s)
  | .unknownByte _ => ([], s)

/-- Events in order, and what they report. -/
def absorb {ε : Type} (f : IoState → ε → List DeviceEvent × IoState) :
    IoState → List ε → List DeviceEvent × IoState
  | s, [] => ([], s)
  | s, e :: es => ((f s e).1 ++ (absorb f (f s e).2 es).1, (absorb f (f s e).2 es).2)

/-- The matcher of a registered method sees all bytes since its last verdict. -/
def onCustomBytes (nonce : Bytes) (s : IoState) (data : Bytes) : List DeviceEvent × IoState :=
  match s.customFenceOutstanding, s.customMethod with
  | true, some m =>
    match m.matcher (s.customRx ++ data) with
    | .matched token =>
      if !isOurs nonce token then ([.foreignWriterDetected], { s with customRx := [] })
      else ([], { s with customTokens := s.customTokens ++ [token], customRx := [] })
    | .notMine => ([], { s with customRx := [] })
    | .needMore => ([], { s with customRx := s.customRx ++ data })
  | _, _ => ([], s)

def onStarBytes (s : IoState) (data : Bytes) : List DeviceEvent × IoState :=
  absorb onStarEvent { s with starParser := (s.starParser.feed data).2 } (s.starParser.feed data).1

def onEscposBytes (nonce : Bytes) (s : IoState) (data : Bytes) : List DeviceEvent × IoState :=
  absorb (onParsedEvent nonce) { s with parser := (s.parser.feed data).2 } (s.parser.feed data).1

def onBytes (nonce : Bytes) (s : IoState) (data : Bytes) : List DeviceEvent × IoState :=
  if s.starMode then s.onStarBytes data
  else
    ((s.onEscposBytes nonce data).1 ++ ((s.onEscposBytes nonce data).2.onCustomBytes nonce data).1,
      ((s.onEscposBytes nonce data).2.onCustomBytes nonce data).2)

def onDisconnected (s : IoState) : IoState := { s with linkDown := true }

/-! ### The worker's critical sections -/

/-- The counter and the sequence of the Star fences are session state and stay. -/
def beginJobIo (s : IoState) : IoState :=
  { s with
    parser := s.parser.reset, gshTokens := [], queuedAnswers := 0, queuedBytes := [],
    realtimeAnswers := [], linkDown := false, starParser := s.starParser.reset, starMode := false,
    starFenceOutstanding := false, starFenceSignalled := false, customMethod := none,
    customFenceOutstanding := false, customRx := [], customTokens := [] }

def expectRealtime (s : IoState) (kinds : List DleEotKind) : IoState :=
  { s with parser := kinds.foldl ResponseParser.expectRealtime s.parser }

def expectQueued (s : IoState) : IoState := { s with parser := s.parser.expectQueued }

/-- Expectations that were not answered would take a queued answer, so they are dropped. -/
def clearRealtime (s : IoState) : IoState :=
  { s with
    realtimeAnswers := []
    parser := if s.parser.realtime = [] then s.parser else s.parser.reset }

def dropRealtimeAnswers (s : IoState) : IoState := { s with realtimeAnswers := [] }

def setCustomMethod (s : IoState) (method : Option CompletionMethod) : IoState :=
  { s with
    customMethod := method, customFenceOutstanding := false, customRx := [], customTokens := [] }

def armCustomFence (s : IoState) : IoState :=
  { s with customFenceOutstanding := true, customRx := [] }

def enterStarMode (s : IoState) (asbBlockBytes : UInt8) : IoState :=
  { s with starMode := true, starParser := s.starParser.setAsbBlockBytes asbBlockBytes }

def zeroStarCounter (s : IoState) : IoState := { s with starCounter := some 0 }

def armStarFence (s : IoState) (completion : CompletionMechanism) : Bytes × IoState :=
  if completion = .starEtb then
    (Star.etbFence,
      { s with
        starFenceSignalled := false, starFenceOutstanding := true, starFenceIsEtb := true
        starExpectCounter := Star.nextEtbCounter (s.starCounter.getD 0) })
  else
    let sequence := s.starSequence + 1
    let n1 := (sequence >>> 8).toUInt8
    let n2 := sequence.toUInt8
    (Star.escGsEtxFence n1 n2,
      { s with
        starFenceSignalled := false, starFenceOutstanding := true, starFenceIsEtb := false
        starSequence := sequence, starExpectN1 := n1, starExpectN2 := n2 })

/-! ### The waits -/

/-- What a wait returns once it is over. -/
def waitOutcome (s : IoState) (signalled : Bool) : WaitOutcome :=
  if signalled then .signalled
  else if s.linkDown then .linkDown
  else if s.stopping then .aborted
  else .timeout

def awaitToken (s : IoState) (token : Bytes) : WaitOutcome :=
  s.waitOutcome (s.gshTokens.contains token)

/-- The fence is disarmed either way. -/
def awaitCustomToken (s : IoState) (token : Bytes) : WaitOutcome × IoState :=
  (s.waitOutcome (s.customTokens.contains token), { s with customFenceOutstanding := false })

def awaitQueued (s : IoState) : WaitOutcome × IoState :=
  if 0 < s.queuedAnswers then
    (.signalled,
      { s with queuedAnswers := s.queuedAnswers - 1, queuedBytes := s.queuedBytes.tail })
  else (s.waitOutcome false, s)

def awaitRealtime (s : IoState) (count : ℕ) : WaitOutcome × List ParsedEvent :=
  (s.waitOutcome (count ≤ s.realtimeAnswers.length), s.realtimeAnswers)

/-- The fence is disarmed either way. -/
def awaitStarFence (s : IoState) : WaitOutcome × IoState :=
  (s.waitOutcome s.starFenceSignalled,
    { s with starFenceOutstanding := false, starFenceSignalled := false })

/-! ### Reads may be cut anywhere -/

theorem absorb_append {ε : Type} (f : IoState → ε → List DeviceEvent × IoState) (s : IoState)
    (es es' : List ε) : absorb f s (es ++ es') =
      ((absorb f s es).1 ++ (absorb f (absorb f s es).2 es').1,
        (absorb f (absorb f s es).2 es').2) := by
  induction es generalizing s with
  | nil => rfl
  | cons e es ih => simp [absorb, ih]

/-- What every event keeps, the events keep. -/
theorem absorb_keeps {ε : Type} {f : IoState → ε → List DeviceEvent × IoState}
    (P : IoState → Prop) (hf : ∀ s e, P s → P (f s e).2) :
    ∀ {es : List ε} {s : IoState}, P s → P (absorb f s es).2
  | [], _, h => h
  | e :: es, s, h => by
    show P (absorb f (f s e).2 es).2
    exact absorb_keeps P hf (hf s e h)

/-- Filing events does not look at the parser they came from. -/
theorem absorb_starParser (p : Star.StarParser) (s : IoState) (es : List Star.Event) :
    absorb onStarEvent { s with starParser := p } es =
      ((absorb onStarEvent s es).1, { (absorb onStarEvent s es).2 with starParser := p }) := by
  induction es generalizing s with
  | nil => rfl
  | cons e es ih =>
    have he : onStarEvent { s with starParser := p } e =
        ((onStarEvent s e).1, { (onStarEvent s e).2 with starParser := p }) := by
      cases e <;> simp only [onStarEvent] <;> split_ifs <;> rfl
    simp only [absorb, he, ih]

theorem absorb_responseParser (nonce : Bytes) (p : ResponseParser) (s : IoState)
    (es : List ParsedEvent) :
    absorb (onParsedEvent nonce) { s with parser := p } es =
      ((absorb (onParsedEvent nonce) s es).1,
        { (absorb (onParsedEvent nonce) s es).2 with parser := p }) := by
  induction es generalizing s with
  | nil => rfl
  | cons e es ih =>
    have he : onParsedEvent nonce { s with parser := p } e =
        ((onParsedEvent nonce s e).1, { (onParsedEvent nonce s e).2 with parser := p }) := by
      cases e with
      | gsHAck token =>
        simp only [onParsedEvent]
        split_ifs <;> rfl
      | asbStatus | realtimeStatus | queuedStatus | unknownByte => rfl
    simp only [absorb, he, ih]

theorem onStarBytes_append (s : IoState) (x y : Bytes) :
    s.onStarBytes (x ++ y) =
      ((s.onStarBytes x).1 ++ ((s.onStarBytes x).2.onStarBytes y).1,
        ((s.onStarBytes x).2.onStarBytes y).2) := by
  simp only [onStarBytes, Star.StarParser.feed_append, absorb_starParser, absorb_append]

theorem onEscposBytes_append (nonce : Bytes) (s : IoState) (x y : Bytes) :
    s.onEscposBytes nonce (x ++ y) =
      ((s.onEscposBytes nonce x).1 ++ ((s.onEscposBytes nonce x).2.onEscposBytes nonce y).1,
        ((s.onEscposBytes nonce x).2.onEscposBytes nonce y).2) := by
  simp only [onEscposBytes, ResponseParser.feed_append, absorb_responseParser, absorb_append]

theorem onEscposBytes_customFenceOutstanding (nonce : Bytes) (s : IoState) (x : Bytes) :
    (s.onEscposBytes nonce x).2.customFenceOutstanding = s.customFenceOutstanding ∧
      (s.onEscposBytes nonce x).2.starMode = s.starMode := by
  refine absorb_keeps (fun t => t.customFenceOutstanding = s.customFenceOutstanding ∧
    t.starMode = s.starMode) (fun t e h => ?_) ⟨rfl, rfl⟩
  cases e <;> simp only [onParsedEvent] <;> (try split_ifs) <;> exact h

theorem onStarBytes_starMode (s : IoState) (x : Bytes) :
    (s.onStarBytes x).2.starMode = s.starMode := by
  refine absorb_keeps (fun t => t.starMode = s.starMode) (fun t e h => ?_) rfl
  cases e <;> simp only [onStarEvent] <;> (try split_ifs) <;> exact h

/-- Without a registered method that waits, it does not matter how a stream is cut into reads: the
state after all of it is the same, so that one byte at a time stands for every cut. -/
theorem onBytes_append (nonce : Bytes) (s : IoState) (x y : Bytes)
    (h : s.customFenceOutstanding = false) :
    (s.onBytes nonce (x ++ y)).2 = ((s.onBytes nonce x).2.onBytes nonce y).2 := by
  unfold onBytes
  by_cases hm : s.starMode = true
  · simp only [hm, if_true, onStarBytes_starMode, onStarBytes_append]
  · obtain ⟨hc, hs⟩ := onEscposBytes_customFenceOutstanding nonce s x
    obtain ⟨hc', _⟩ := onEscposBytes_customFenceOutstanding nonce s (x ++ y)
    obtain ⟨hc'', _⟩ := onEscposBytes_customFenceOutstanding nonce (s.onEscposBytes nonce x).2 y
    have hcustom : ∀ (t : IoState) (z : Bytes), t.customFenceOutstanding = false →
        t.onCustomBytes nonce z = ([], t) := by
      intro t z ht
      simp [onCustomBytes, ht]
    simp only [hm, if_false, Bool.false_eq_true]
    rw [hcustom _ _ (hc'.trans h), hcustom _ x (hc.trans h)]
    simp only [hs, hm, if_false, Bool.false_eq_true]
    rw [hcustom _ _ (hc''.trans (hc.trans h)), onEscposBytes_append]

/-! ### What received bytes can change -/

/-- The tokens of ours among the events. -/
def filedTokens (nonce : Bytes) (es : List ParsedEvent) : List Bytes :=
  es.filterMap fun
    | .gsHAck token => if isOurs nonce token then some token else none
    | _ => none

def filedBytes (es : List ParsedEvent) : List UInt8 :=
  es.filterMap fun
    | .queuedStatus byte => some byte
    | _ => none

/-- Every event is filed under its kind. -/
theorem absorb_filed (nonce : Bytes) (s : IoState) (es : List ParsedEvent) :
    (absorb (onParsedEvent nonce) s es).2 =
      { s with
        gshTokens := s.gshTokens ++ filedTokens nonce es
        queuedAnswers := s.queuedAnswers + es.countP ParsedEvent.isQueued
        queuedBytes := s.queuedBytes ++ filedBytes es
        realtimeAnswers := s.realtimeAnswers ++ es.filter ParsedEvent.isRealtime } := by
  induction es generalizing s with
  | nil => simp [absorb, filedTokens, filedBytes]
  | cons e es ih =>
    rw [absorb, ih]
    simp only [filedTokens, filedBytes, List.filterMap_cons, List.filter_cons, List.countP_cons]
    cases e with
    | gsHAck token =>
      simp only [onParsedEvent]
      split_ifs with h <;> simp_all [ParsedEvent.isQueued, ParsedEvent.isRealtime]
    | queuedStatus byte =>
      simp [onParsedEvent, ParsedEvent.isQueued, ParsedEvent.isRealtime, Nat.add_assoc,
        Nat.add_comm 1]
    | realtimeStatus | asbStatus | unknownByte =>
      simp [onParsedEvent, ParsedEvent.isQueued, ParsedEvent.isRealtime]

/-- What a read does outside Star mode. -/
theorem onBytes_filed (nonce : Bytes) (s : IoState) (x : Bytes) (h : s.starMode = false) :
    ∃ rx custom, (s.onBytes nonce x).2 =
      { s with
        parser := (s.parser.feed x).2
        gshTokens := s.gshTokens ++ filedTokens nonce (s.parser.feed x).1
        queuedAnswers := s.queuedAnswers + (s.parser.feed x).1.countP ParsedEvent.isQueued
        queuedBytes := s.queuedBytes ++ filedBytes (s.parser.feed x).1
        realtimeAnswers :=
          s.realtimeAnswers ++ (s.parser.feed x).1.filter ParsedEvent.isRealtime
        customRx := rx, customTokens := custom } := by
  rw [onBytes, if_neg (by simp [h]), onEscposBytes, absorb_filed]
  unfold onCustomBytes
  split
  · split
    · split
      · exact ⟨_, _, rfl⟩
      · exact ⟨_, _, rfl⟩
    · exact ⟨_, _, rfl⟩
    · exact ⟨_, _, rfl⟩
  · exact ⟨_, _, rfl⟩

/-- Outside Star mode the Star state is left alone. -/
theorem onBytes_escpos_frame (nonce : Bytes) (s : IoState) (x : Bytes) (h : s.starMode = false) :
    ∃ parser gsh answers bytes realtime rx custom, (s.onBytes nonce x).2 =
      { s with
        parser := parser, gshTokens := gsh, queuedAnswers := answers, queuedBytes := bytes
        realtimeAnswers := realtime, customRx := rx, customTokens := custom } := by
  obtain ⟨rx, custom, hs⟩ := s.onBytes_filed nonce x h
  exact ⟨_, _, _, _, _, rx, custom, hs⟩

/-- Only the counter and the signal change. -/
theorem absorb_star_frame (s : IoState) (es : List Star.Event) :
    ∃ counter signalled, (absorb onStarEvent s es).2 =
      { s with starCounter := counter, starFenceSignalled := signalled } := by
  refine absorb_keeps (fun t => ∃ counter signalled,
    t = { s with starCounter := counter, starFenceSignalled := signalled }) ?_ ⟨_, _, rfl⟩
  rintro t e ⟨counter, signalled, rfl⟩
  cases e <;> simp only [onStarEvent] <;> (try split_ifs) <;> exact ⟨_, _, rfl⟩

/-- In Star mode only the parser, the counter and the signal change. -/
theorem onBytes_star_frame (nonce : Bytes) (s : IoState) (x : Bytes) (h : s.starMode = true) :
    ∃ counter signalled, (s.onBytes nonce x).2 =
      { s with
        starParser := (s.starParser.feed x).2, starCounter := counter
        starFenceSignalled := signalled } := by
  rw [onBytes, if_pos h, onStarBytes, absorb_starParser]
  obtain ⟨counter, signalled, hs⟩ := absorb_star_frame s (s.starParser.feed x).1
  exact ⟨counter, signalled, by rw [hs]⟩

/-- No received byte moves the sequence of the fences. -/
theorem onBytes_starSequence (nonce : Bytes) (s : IoState) (x : Bytes) :
    (s.onBytes nonce x).2.starSequence = s.starSequence := by
  by_cases hm : s.starMode = true
  · obtain ⟨_, _, hs⟩ := s.onBytes_star_frame nonce x hm
    rw [hs]
  · obtain ⟨_, _, _, _, _, _, _, hs⟩ := s.onBytes_escpos_frame nonce x (by simpa using hm)
    rw [hs]

/-! ### What Star events can do -/

/-- An `ESC GS ETX` fence is signalled by an answer with its bytes and by nothing else. -/
theorem absorb_signalled_etx {s : IoState} (hetb : s.starFenceIsEtb = false) :
    ∀ es : List Star.Event, (absorb onStarEvent s es).2.starFenceSignalled = true →
      s.starFenceSignalled = true ∨
        ∃ counter, .etxAck s.starExpectN1 s.starExpectN2 counter ∈ es := by
  intro es
  induction es using List.reverseRecOn with
  | nil => exact .inl
  | append_singleton es e ih =>
    intro h
    rw [absorb_append] at h
    obtain ⟨counter, signalled, hs⟩ := absorb_star_frame s es
    simp only [absorb] at h
    by_cases hsig : (absorb onStarEvent s es).2.starFenceSignalled = true
    · exact (ih hsig).imp_right fun ⟨c, hc⟩ => ⟨c, by simp [hc]⟩
    · rw [hs] at h hsig
      refine .inr ?_
      cases e with
      | etxAck n1 n2 c =>
        simp only [onStarEvent] at h
        split_ifs at h with hm
        · simp only [Bool.and_eq_true, decide_eq_true_eq] at hm
          exact ⟨c, by simp [hm.1.2, hm.2]⟩
        · exact absurd h hsig
      | asbStatus frame c =>
        simp only [onStarEvent, hetb] at h
        split_ifs at h <;> first | exact absurd h hsig | simp_all
      | unknownByte b => exact absurd h hsig

theorem onBytes_signalled_etx (nonce : Bytes) (s : IoState) (x : Bytes) (h : s.starMode = true)
    (hetb : s.starFenceIsEtb = false) (hs : (s.onBytes nonce x).2.starFenceSignalled = true) :
    s.starFenceSignalled = true ∨
      ∃ counter, .etxAck s.starExpectN1 s.starExpectN2 counter ∈ (s.starParser.feed x).1 := by
  rw [onBytes, if_pos h, onStarBytes, absorb_starParser] at hs
  exact absorb_signalled_etx hetb _ hs

theorem waitOutcome_eq_signalled {s : IoState} {b : Bool} :
    s.waitOutcome b = .signalled ↔ b = true := by
  unfold waitOutcome
  split_ifs <;> simp_all

end IoState

end PrinterDriver.Engine.Io
