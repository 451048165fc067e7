import PrinterDriver.Core.Types
import PrinterDriver.Lib.Scanning

/-! # The ESC/POS response parser

The incremental parser of the printer-to-host stream: `GS ( H` frames, ASB frames, real-time
answers against an outstanding expectation, queued answers, and unclassified bytes, in that
precedence. `feed` appends the bytes and takes steps until one needs more.

A step is spelled out once (`Emits`, `step_emits`). More input never changes a step that was already
possible, so the parser is a lawful scanner and the way a stream is cut into reads does not matter
(`feed_append`). -/

namespace PrinterDriver.Core.EscposParser

open PrinterDriver.Core.Types PrinterDriver.Lib.Scanning

/-- The operand of `DLE EOT n`. -/
inductive DleEotKind where
  | printerStatus | offlineCause | errorCause | paperSensor
  deriving DecidableEq, Repr

def DleEotKind.toByte : DleEotKind → UInt8
  | .printerStatus => 1
  | .offlineCause => 2
  | .errorCause => 3
  | .paperSensor => 4

/-- Decoded status bits; an absent field was not carried by the frame. -/
structure StatusFlags where
  online : Option Bool := none
  coverOpen : Option Bool := none
  paperOut : Option Bool := none
  paperNearEnd : Option Bool := none
  cutterError : Option Bool := none
  unrecoverableError : Option Bool := none
  autoRecoverableError : Option Bool := none
  error : Option Bool := none
  drawerPinHigh : Option Bool := none
  paperFeedButton : Option Bool := none
  waitingOnlineRecovery : Option Bool := none
  paperBeingFed : Option Bool := none
  deriving DecidableEq, Repr

def bit (value : UInt8) (index : ℕ) : Bool := value.toNat.testBit index

def isPrintableAscii (value : UInt8) : Bool := 0x20 ≤ value && value ≤ 0x7E

/-- The fixed bits of an ASB byte. -/
def looksLikeAsbByte (value : UInt8) : Bool := value &&& 0x93 = 0x10

/-- The fixed bits of a `DLE EOT` answer. -/
def looksLikeRealtimeByte (value : UInt8) : Bool := value &&& 0x93 = 0x12

def decodeAsb (frame : Bytes) : StatusFlags :=
  { drawerPinHigh := some (bit (frame.getD 0 0) 2)
    online := some (!bit (frame.getD 0 0) 3)
    waitingOnlineRecovery := some (bit (frame.getD 0 0) 5)
    paperFeedButton := some (bit (frame.getD 0 0) 6)
    coverOpen := some (bit (frame.getD 1 0) 2)
    paperBeingFed := some (bit (frame.getD 1 0) 3)
    error := some (bit (frame.getD 1 0) 6)
    cutterError := some (bit (frame.getD 2 0) 3)
    unrecoverableError := some (bit (frame.getD 2 0) 5)
    autoRecoverableError := some (bit (frame.getD 2 0) 6)
    paperNearEnd := some (bit (frame.getD 3 0) 2)
    paperOut := some (bit (frame.getD 3 0) 5) }

def decodeRealtime (kind : DleEotKind) (value : UInt8) : StatusFlags :=
  match kind with
  | .printerStatus =>
    { drawerPinHigh := some (bit value 2), online := some (!bit value 3),
      waitingOnlineRecovery := some (bit value 5), paperFeedButton := some (bit value 6) }
  | .offlineCause =>
    { coverOpen := some (bit value 2), paperBeingFed := some (bit value 3),
      paperOut := some (bit value 5), error := some (bit value 6) }
  | .errorCause =>
    { cutterError := some (bit value 3), unrecoverableError := some (bit value 5),
      autoRecoverableError := some (bit value 6) }
  | .paperSensor => { paperNearEnd := some (bit value 2), paperOut := some (bit value 5) }

/-- The public events of decoded bits: only fields the frame carried. -/
def toDeviceEvents (flags : StatusFlags) : List DeviceEvent :=
  (match flags.online with
    | some true => [.online]
    | some false => [.offline]
    | none => []) ++
  (match flags.coverOpen with
    | some true => [.coverOpen]
    | some false => [.coverClosed]
    | none => []) ++
  (if flags.paperOut.getD false then [.paperOut]
    else if flags.paperNearEnd.getD false then [.paperNearEnd]
    else if flags.paperOut.isSome then [.paperOk] else []) ++
  (if flags.cutterError.getD false then [.cutterError] else []) ++
  (if flags.unrecoverableError.getD false then [.unrecoverableError] else []) ++
  (if flags.autoRecoverableError.getD false then [.recoverableError] else [])

inductive ParsedEvent where
  | gsHAck (token : Bytes)
  | asbStatus (frame : Bytes)
  | realtimeStatus (kind : DleEotKind) (byte : UInt8)
  | queuedStatus (byte : UInt8)
  | unknownByte (byte : UInt8)
  deriving DecidableEq, Repr

/-- The flags of an event; only ASB and real-time events carry any. -/
def ParsedEvent.flags : ParsedEvent → StatusFlags
  | .asbStatus frame => decodeAsb frame
  | .realtimeStatus kind byte => decodeRealtime kind byte
  | _ => {}

def ParsedEvent.isRealtime : ParsedEvent → Bool
  | .realtimeStatus _ _ => true
  | _ => false

def ParsedEvent.isQueued : ParsedEvent → Bool
  | .queuedStatus _ => true
  | _ => false

/-- The parser: held bytes and outstanding expectations. -/
structure ResponseParser where
  buffer : Bytes := []
  realtime : List DleEotKind := []
  queued : ℕ := 0
  deriving DecidableEq, Repr

/-- The outcome of one step. -/
inductive Step where
  | emitted (event : ParsedEvent) (next : ResponseParser)
  | needMore
  | empty
  deriving DecidableEq, Repr

namespace ResponseParser

def expectRealtime (p : ResponseParser) (kind : DleEotKind) : ResponseParser :=
  { p with realtime := p.realtime ++ [kind] }

def expectQueued (p : ResponseParser) : ResponseParser := { p with queued := p.queued + 1 }

/-- Held bytes and expectations are dropped. -/
def reset (_ : ResponseParser) : ResponseParser := {}

/-- The bytes in hand, the first of them `37`, are not the start of a `GS ( H` frame. -/
def gsHDisqualified (buffer : Bytes) : Bool :=
  (buffer[1]?.any fun b => b ≠ 0x22) || ((buffer.take 6).drop 2).any (fun b => !isPrintableAscii b) ||
    (buffer[6]?.any fun b => b ≠ 0x00)

/-- The bytes in hand, the first of them an ASB byte, are not the start of an ASB frame. -/
def asbDisqualified (buffer : Bytes) : Bool :=
  ((buffer.take 4).drop 1).any fun b => !looksLikeAsbByte b

/-- The event for one byte, once no frame can start at it: a real-time answer against an
expectation, else the oldest queued expectation, else an unknown byte. -/
def stepByte (p : ResponseParser) (first : UInt8) (rest : Bytes) : Step :=
  match p.realtime with
  | kind :: kinds =>
    if looksLikeRealtimeByte first then
      .emitted (.realtimeStatus kind first) { p with buffer := rest, realtime := kinds }
    else if 0 < p.queued then
      .emitted (.queuedStatus first) { p with buffer := rest, queued := p.queued - 1 }
    else .emitted (.unknownByte first) { p with buffer := rest }
  | [] =>
    if 0 < p.queued then
      .emitted (.queuedStatus first) { p with buffer := rest, queued := p.queued - 1 }
    else .emitted (.unknownByte first) { p with buffer := rest }

def step (p : ResponseParser) (force : Bool) : Step :=
  match p.buffer with
  | [] => .empty
  | first :: rest =>
    if first = 0x37 ∧ !gsHDisqualified p.buffer ∧ 7 ≤ p.buffer.length then
      .emitted (.gsHAck ((p.buffer.take 6).drop 2)) { p with buffer := p.buffer.drop 7 }
    else if first = 0x37 ∧ !gsHDisqualified p.buffer ∧ !force then .needMore
    else if looksLikeAsbByte first ∧ !asbDisqualified p.buffer ∧ 4 ≤ p.buffer.length then
      .emitted (.asbStatus (p.buffer.take 4)) { p with buffer := p.buffer.drop 4 }
    else if looksLikeAsbByte first ∧ !asbDisqualified p.buffer ∧ !force then .needMore
    else p.stepByte first rest

/-- Steps while they emit, at most as many as the fuel. -/
def drain (force : Bool) : ℕ → ResponseParser → List ParsedEvent × ResponseParser
  | 0, p => ([], p)
  | n + 1, p =>
    match p.step force with
    | .emitted e q => (e :: (drain force n q).1, (drain force n q).2)
    | .needMore | .empty => ([], p)

/-- Every step that emits takes a byte, so the held bytes are fuel enough. -/
def feed (p : ResponseParser) (data : Bytes) : List ParsedEvent × ResponseParser :=
  drain false (p.buffer ++ data).length { p with buffer := p.buffer ++ data }

def flush (p : ResponseParser) : List ParsedEvent × ResponseParser :=
  drain true p.buffer.length p

/-! ### What a step does -/

/-- The steps, each with the case it is taken in. -/
inductive Emits (p : ResponseParser) : ParsedEvent → ResponseParser → Prop
  | gsH (hlen : 7 ≤ p.buffer.length) (hfirst : p.buffer[0]? = some 0x37)
      (hok : gsHDisqualified p.buffer = false) :
      Emits p (.gsHAck ((p.buffer.take 6).drop 2)) { p with buffer := p.buffer.drop 7 }
  | asb (hlen : 4 ≤ p.buffer.length) (hfirst : p.buffer[0]?.any looksLikeAsbByte)
      (hok : asbDisqualified p.buffer = false) :
      Emits p (.asbStatus (p.buffer.take 4)) { p with buffer := p.buffer.drop 4 }
  | realtime (kind : DleEotKind) (kinds : List DleEotKind) (first : UInt8) (rest : Bytes)
      (hb : p.buffer = first :: rest) (hk : p.realtime = kind :: kinds)
      (hl : looksLikeRealtimeByte first) :
      Emits p (.realtimeStatus kind first) { p with buffer := rest, realtime := kinds }
  | queued (first : UInt8) (rest : Bytes) (hb : p.buffer = first :: rest) (hq : 0 < p.queued)
      (hk : p.realtime = [] ∨ looksLikeRealtimeByte first = false) :
      Emits p (.queuedStatus first) { p with buffer := rest, queued := p.queued - 1 }
  | unknown (first : UInt8) (rest : Bytes) (hb : p.buffer = first :: rest) (hq : p.queued = 0)
      (hk : p.realtime = [] ∨ looksLikeRealtimeByte first = false) :
      Emits p (.unknownByte first) { p with buffer := rest }

theorem stepByte_emits {p q : ResponseParser} {first : UInt8} {rest : Bytes} {e : ParsedEvent}
    (hb : p.buffer = first :: rest) (h : p.stepByte first rest = .emitted e q) : Emits p e q := by
  unfold stepByte at h
  cases hk : p.realtime with
  | nil =>
    simp only [hk] at h
    split_ifs at h with hq
    · cases h
      simpa [hk] using Emits.queued first rest hb hq (.inl hk)
    · cases h
      simpa [hk] using Emits.unknown first rest hb (by omega) (.inl hk)
  | cons kind kinds =>
    simp only [hk] at h
    split_ifs at h with hl hq
    · cases h
      exact .realtime kind kinds first rest hb hk hl
    · cases h
      simpa [hk] using Emits.queued first rest hb hq (.inr (by simpa using hl))
    · cases h
      simpa [hk] using Emits.unknown first rest hb (by omega) (.inr (by simpa using hl))

theorem step_emits {p q : ResponseParser} {e : ParsedEvent} {force : Bool}
    (h : p.step force = .emitted e q) : Emits p e q := by
  unfold step at h
  cases hb : p.buffer with
  | nil => simp [hb] at h
  | cons first rest =>
    simp only [hb] at h
    split_ifs at h with h1 h2 h3 h4
    · obtain ⟨rfl, hok, hlen⟩ := h1
      cases h
      rw [← hb] at hlen hok ⊢
      exact .gsH hlen (by simp [hb]) (by simpa using hok)
    · obtain ⟨hl, hok, hlen⟩ := h3
      cases h
      rw [← hb] at hlen hok ⊢
      exact .asb hlen (by simpa [hb] using hl) (by simpa using hok)
    · exact stepByte_emits hb h

/-! ### The parser as a scanner -/

def push (p : ResponseParser) (x : Bytes) : ResponseParser := { p with buffer := p.buffer ++ x }

/-- The steps that `feed` takes. -/
def scanner : Scanner UInt8 ParsedEvent ResponseParser where
  step p :=
    match p.step false with
    | .emitted e q => some (e, q)
    | .needMore | .empty => none
  push := push
  size p := p.buffer.length

theorem scanner_step {p q : ResponseParser} {e : ParsedEvent} :
    scanner.step p = some (e, q) ↔ p.step false = .emitted e q := by
  show (match p.step false with | .emitted e q => some (e, q) | .needMore | .empty => none) = _ ↔ _
  cases p.step false <;> simp

theorem drain_eq (n : ℕ) (p : ResponseParser) : p.drain false n = scanner.drain n p := by
  induction n generalizing p with
  | zero => rfl
  | succ n ih =>
    simp only [drain, Scanner.drain]
    cases h : p.step false with
    | emitted e q => simp [scanner_step.mpr h, ih]
    | needMore | empty => simp [scanner, h]

theorem feed_eq (p : ResponseParser) (x : Bytes) : p.feed x = scanner.feed p x := drain_eq _ _

theorem getElem?_any_append {b x : Bytes} {n : ℕ} {f : UInt8 → Bool}
    (h : b[n]?.any f = true) : (b ++ x)[n]?.any f = true := by
  by_cases hn : n < b.length
  · rwa [List.getElem?_append_left hn]
  · simp [List.getElem?_eq_none (not_lt.mp hn)] at h

theorem slice_any_append {b x : Bytes} {n m : ℕ} {f : UInt8 → Bool}
    (h : ((b.take n).drop m).any f = true) : (((b ++ x).take n).drop m).any f = true := by
  rw [List.take_append, List.drop_append, List.any_append, h, Bool.true_or]

/-- Bytes that rule a frame out do so whatever follows. -/
theorem gsHDisqualified_append {b : Bytes} (x : Bytes) (h : gsHDisqualified b = true) :
    gsHDisqualified (b ++ x) = true := by
  simp only [gsHDisqualified, Bool.or_eq_true] at h ⊢
  rcases h with (h | h) | h
  · exact .inl (.inl (getElem?_any_append h))
  · exact .inl (.inr (slice_any_append h))
  · exact .inr (getElem?_any_append h)

theorem asbDisqualified_append {b : Bytes} (x : Bytes) (h : asbDisqualified b = true) :
    asbDisqualified (b ++ x) = true := slice_any_append h

/-- A whole frame does not depend on what follows. -/
theorem gsHDisqualified_whole {b : Bytes} (x : Bytes) (h : 7 ≤ b.length) :
    gsHDisqualified (b ++ x) = gsHDisqualified b := by
  simp only [gsHDisqualified, List.getElem?_append_left (show 1 < b.length by omega),
    List.getElem?_append_left (show 6 < b.length by omega),
    List.take_append_of_le_length (show 6 ≤ b.length by omega)]

theorem asbDisqualified_whole {b : Bytes} (x : Bytes) (h : 4 ≤ b.length) :
    asbDisqualified (b ++ x) = asbDisqualified b := by
  simp only [asbDisqualified, List.take_append_of_le_length h]

theorem not_asb_of_gsH {b : UInt8} (h : b = 0x37) : looksLikeAsbByte b = false := by
  subst h
  decide

theorem stepByte_push {p q : ResponseParser} {first : UInt8} {rest : Bytes} {e : ParsedEvent}
    (x : Bytes) (h : p.stepByte first rest = .emitted e q) :
    (p.push x).stepByte first (rest ++ x) = .emitted e (q.push x) := by
  have hk' : (p.push x).realtime = p.realtime := rfl
  unfold stepByte at h ⊢
  rw [hk']
  cases hk : p.realtime with
  | nil =>
    simp only [hk] at h
    split_ifs at h with hq <;> cases h
    · exact if_pos hq
    · exact if_neg hq
  | cons kind kinds =>
    simp only [hk] at h
    split_ifs at h with hl hq <;> cases h
    · exact if_pos hl
    · exact (if_neg hl).trans (if_pos hq)
    · exact (if_neg hl).trans (if_neg hq)

/-- More input does not change a step. -/
theorem step_push {p q : ResponseParser} {e : ParsedEvent} (x : Bytes)
    (h : p.step false = .emitted e q) : (p.push x).step false = .emitted e (q.push x) := by
  have hx : (p.push x).buffer = p.buffer ++ x := rfl
  unfold step at h ⊢
  rw [hx]
  cases hb : p.buffer with
  | nil => simp [hb] at h
  | cons first rest =>
    simp only [hb] at h
    have hcons : first :: (rest ++ x) = first :: rest ++ x := rfl
    simp only [List.cons_append]
    split_ifs at h with h1 h2 h3 h4
    · cases h
      have hlen : 7 ≤ (first :: rest).length := h1.2.2
      rw [if_pos ⟨h1.1, by rw [hcons, gsHDisqualified_whole x hlen]; exact h1.2.1, by
        rw [hcons, List.length_append]; omega⟩]
      simp only [hcons, push, List.take_append_of_le_length (show 6 ≤ (first :: rest).length by omega),
        List.drop_append_of_le_length hlen]
    · cases h
      have hlen : 4 ≤ (first :: rest).length := h3.2.2
      have hne : first ≠ 0x37 := fun hf => by simp [not_asb_of_gsH hf] at h3
      rw [if_neg (by simp [hne]), if_neg (by simp [hne]),
        if_pos ⟨h3.1, by rw [hcons, asbDisqualified_whole x hlen]; exact h3.2.1, by
          rw [hcons, List.length_append]; omega⟩]
      simp only [hcons, push, List.take_append_of_le_length hlen,
        List.drop_append_of_le_length hlen]
    · have hg : first = 0x37 → gsHDisqualified (first :: (rest ++ x)) = true := by
        intro hf
        refine gsHDisqualified_append (b := first :: rest) x ?_
        by_contra hd
        simp [hf] at h2
        simp [hf, h2] at hd
      have ha : looksLikeAsbByte first = true → asbDisqualified (first :: (rest ++ x)) = true := by
        intro hf
        refine asbDisqualified_append (b := first :: rest) x ?_
        by_contra hd
        simp [hf] at h4
        simp [h4] at hd
      rw [if_neg fun h => by simp [hg h.1] at h, if_neg fun h => by simp [hg h.1] at h,
        if_neg fun h => by simp [ha h.1] at h, if_neg fun h => by simp [ha h.1] at h]
      exact stepByte_push x h

theorem scanner_lawful : scanner.Lawful where
  consumes p e q h := by
    have hs := step_emits (scanner_step.mp h)
    show q.buffer.length < p.buffer.length
    cases hs with
    | gsH hlen | asb hlen => simp only [List.length_drop]; omega
    | realtime _ _ _ _ hb | queued _ _ hb | unknown _ _ hb => simp [hb]
  keeps p e q x h := scanner_step.mpr (step_push x (scanner_step.mp h))
  push_push p x y := by
    show ({ p with buffer := p.buffer ++ x ++ y } : ResponseParser) = _
    rw [List.append_assoc]
    rfl

/-- **Reads may be cut anywhere.** -/
theorem feed_append (p : ResponseParser) (x y : Bytes) :
    p.feed (x ++ y) =
      ((p.feed x).1 ++ ((p.feed x).2.feed y).1, ((p.feed x).2.feed y).2) := by
  simp only [feed_eq]
  exact Scanner.feed_append scanner_lawful p x y

/-! ### What one more byte can do -/

/-- The held bytes are too few for a step. -/
def Waiting (p : ResponseParser) : Prop := scanner.step p = none

theorem waiting_feed (p : ResponseParser) (x : Bytes) : (p.feed x).2.Waiting := by
  rw [feed_eq]
  exact Scanner.step_feed scanner_lawful p x

/-- Whether a parser waits does not depend on what it expects. -/
theorem Waiting.congr {p q : ResponseParser} (h : p.Waiting) (hb : q.buffer = p.buffer) :
    q.Waiting := by
  cases hq : scanner.step q with
  | none => exact hq
  | some r =>
    exfalso
    have hs := scanner_step.mp hq
    have hp : ∀ e r, p.step false ≠ .emitted e r := fun e r he => by
      simp [Waiting, scanner_step.mpr he] at h
    unfold step at hs hp
    rw [hb] at hs
    cases hbuf : p.buffer with
    | nil => simp [hbuf] at hs
    | cons first rest =>
      simp only [hbuf] at hs hp
      have hbyte : ∃ e r, p.stepByte first rest = .emitted e r := by
        unfold stepByte
        split
        · split_ifs <;> exact ⟨_, _, rfl⟩
        · split_ifs <;> exact ⟨_, _, rfl⟩
      obtain ⟨e, r, hbyte⟩ := hbyte
      split_ifs at hs hp <;> first | exact hp _ _ rfl | exact hp _ _ hbyte

theorem expectRealtime_foldl (p : ResponseParser) (kinds : List DleEotKind) :
    kinds.foldl expectRealtime p = { p with realtime := p.realtime ++ kinds } := by
  induction kinds generalizing p with
  | nil => simp
  | cons kind kinds ih => simp [ih, expectRealtime]

/-- The bytes could still become, or are, a `GS ( H` or an ASB frame. -/
def opensFrame (buffer : Bytes) : Bool :=
  (buffer[0]? = some 0x37 && !gsHDisqualified buffer) ||
    (buffer[0]?.any looksLikeAsbByte && !asbDisqualified buffer)

/-- Every queued answer uses up one expectation. -/
theorem drain_queued : ∀ (n : ℕ) (p : ResponseParser),
    (scanner.drain n p).1.countP ParsedEvent.isQueued + (scanner.drain n p).2.queued = p.queued
  | 0, _ => by simp [Scanner.drain]
  | n + 1, p => by
    cases h : scanner.step p with
    | none => simp [Scanner.drain_of_none h]
    | some r =>
      obtain ⟨e, q⟩ := r
      have ih := drain_queued n q
      rw [Scanner.drain_of_some h, List.countP_cons]
      cases step_emits (scanner_step.mp h) with
      | queued first rest hb hq => simp [ParsedEvent.isQueued] at ih ⊢; omega
      | gsH | asb | realtime | unknown => simpa [ParsedEvent.isQueued] using ih

theorem feed_queued (p : ResponseParser) (x : Bytes) :
    (p.feed x).1.countP ParsedEvent.isQueued + (p.feed x).2.queued = p.queued := by
  rw [feed_eq, Scanner.feed]
  exact drain_queued _ (p.push x)

/-- The kinds that the real-time answers among the events are read as. -/
def answeredKinds (es : List ParsedEvent) : List DleEotKind :=
  es.filterMap fun
    | .realtimeStatus kind _ => some kind
    | _ => none

/-- Real-time answers use up the expectations in their order. -/
theorem drain_kinds : ∀ (n : ℕ) (p : ResponseParser),
    p.realtime = answeredKinds (scanner.drain n p).1 ++ (scanner.drain n p).2.realtime
  | 0, _ => by simp [Scanner.drain, answeredKinds]
  | n + 1, p => by
    cases h : scanner.step p with
    | none => simp [Scanner.drain_of_none h, answeredKinds]
    | some r =>
      obtain ⟨e, q⟩ := r
      have ih := drain_kinds n q
      rw [Scanner.drain_of_some h]
      simp only [answeredKinds, List.filterMap_cons] at ih ⊢
      cases step_emits (scanner_step.mp h) with
      | realtime kind kinds first rest hb hk => simpa [hk] using ih
      | gsH | asb | queued | unknown => exact ih

theorem feed_kinds (p : ResponseParser) (x : Bytes) :
    p.realtime = answeredKinds (p.feed x).1 ++ (p.feed x).2.realtime := by
  rw [feed_eq, Scanner.feed]
  exact drain_kinds _ (p.push x)

/-- Without an expectation there are no real-time answers. -/
theorem feed_unexpected {p : ResponseParser} (x : Bytes) (h : p.realtime = []) :
    (p.feed x).1.filter ParsedEvent.isRealtime = [] ∧ (p.feed x).2.realtime = [] := by
  have hall := Scanner.drain_keeps (S := scanner) (J := fun p => p.realtime = [])
    (fun p e q hp hs => by cases step_emits (scanner_step.mp hs) <;> simp_all)
    (scanner.size (p.push x)) (p := p.push x) h
  rw [feed_eq]
  refine ⟨List.filter_eq_nil_iff.mpr fun e he hr => ?_, hall.1⟩
  obtain ⟨q, q', hq, hs⟩ := hall.2 e he
  cases step_emits (scanner_step.mp hs) <;> simp_all [ParsedEvent.isRealtime]

/-- When only the last byte looks like an answer, at most that byte becomes one, and it is read as
the kind expected first. -/
theorem drain_realtime {b : UInt8} : ∀ (n : ℕ) (p : ResponseParser),
    (p.buffer = [] ∨ ∃ pre : Bytes, p.buffer = pre ++ [b] ∧ pre.all (!looksLikeRealtimeByte ·)) →
    ((scanner.drain n p).1.filter ParsedEvent.isRealtime = [] ∧
      (scanner.drain n p).2.realtime = p.realtime) ∨
    (looksLikeRealtimeByte b ∧ ∃ kind, p.realtime = kind :: (scanner.drain n p).2.realtime ∧
      (scanner.drain n p).1.filter ParsedEvent.isRealtime = [.realtimeStatus kind b])
  | 0, _, _ => .inl ⟨rfl, rfl⟩
  | n + 1, p, hp => by
    cases h : scanner.step p with
    | none => exact .inl (by simp [Scanner.drain_of_none h])
    | some r =>
      obtain ⟨e, q⟩ := r
      have hdrop : ∀ k, p.buffer.drop k = [] ∨
          ∃ pre : Bytes, p.buffer.drop k = pre ++ [b] ∧ pre.all (!looksLikeRealtimeByte ·) := by
        intro k
        rcases hp with hp | ⟨pre, hp, hall⟩
        · simp [hp]
        · by_cases hk : k ≤ pre.length
          · refine .inr ⟨pre.drop k, by rw [hp, List.drop_append_of_le_length hk], ?_⟩
            exact List.all_eq_true.mpr fun x hx =>
              List.all_eq_true.mp hall x (List.mem_of_mem_drop hx)
          · refine .inl (List.drop_of_length_le ?_)
            rw [hp, List.length_append, List.length_singleton]
            omega
      have hrest : ∀ first rest, p.buffer = first :: rest → rest = [] ∨
          ∃ pre : Bytes, rest = pre ++ [b] ∧ pre.all (!looksLikeRealtimeByte ·) := by
        intro first rest hb
        simpa [hb] using hdrop 1
      rw [Scanner.drain_of_some h]
      cases step_emits (scanner_step.mp h) with
      | realtime kind kinds first rest hb hk hl =>
        refine .inr ?_
        -- the byte is the last one, so that nothing follows it
        obtain ⟨rfl, rfl⟩ : first = b ∧ rest = [] := by
          rcases hp with hp | ⟨pre, hp, hall⟩
          · simp [hp] at hb
          · cases pre with
            | nil => simpa using hb.symm.trans hp
            | cons x pre =>
              have hx := List.all_eq_true.mp hall x (by simp)
              simp only [hb, List.cons_append, List.cons.injEq] at hp
              simp [← hp.1, hl] at hx
        rw [Scanner.drain_of_none rfl]
        exact ⟨hl, kind, hk, rfl⟩
      | gsH => simpa [ParsedEvent.isRealtime] using drain_realtime n _ (hdrop 7)
      | asb => simpa [ParsedEvent.isRealtime] using drain_realtime n _ (hdrop 4)
      | queued first rest hb | unknown first rest hb =>
        simpa [ParsedEvent.isRealtime] using drain_realtime n _ (hrest first rest hb)

theorem feed_realtime {p : ResponseParser} (b : UInt8)
    (h : p.buffer.all (!looksLikeRealtimeByte ·)) :
    ((p.feed [b]).1.filter ParsedEvent.isRealtime = [] ∧
      (p.feed [b]).2.realtime = p.realtime) ∨
    (looksLikeRealtimeByte b ∧ ∃ kind, p.realtime = kind :: (p.feed [b]).2.realtime ∧
      (p.feed [b]).1.filter ParsedEvent.isRealtime = [.realtimeStatus kind b]) := by
  rw [feed_eq, Scanner.feed]
  exact drain_realtime _ (p.push [b]) (.inr ⟨p.buffer, rfl, h⟩)

/-- At the start of a frame a step takes a whole frame or waits. -/
theorem step_opensFrame {p : ResponseParser} (hf : opensFrame p.buffer) :
    p.step false = .needMore ∨
      (7 ≤ p.buffer.length ∧ p.buffer[0]? = some 0x37 ∧ gsHDisqualified p.buffer = false ∧
        p.step false = .emitted (.gsHAck ((p.buffer.take 6).drop 2))
          { p with buffer := p.buffer.drop 7 }) ∨
      (4 ≤ p.buffer.length ∧ p.buffer[0]?.any looksLikeAsbByte ∧ asbDisqualified p.buffer = false ∧
        p.step false = .emitted (.asbStatus (p.buffer.take 4))
          { p with buffer := p.buffer.drop 4 }) := by
  unfold step
  cases hb : p.buffer with
  | nil => simp [hb, opensFrame] at hf
  | cons first rest =>
    rw [hb] at hf
    dsimp only
    split_ifs with h1 h2 h3 h4
    · exact .inr (.inl ⟨h1.2.2, by simp [h1.1], by simpa using h1.2.1, rfl⟩)
    · exact .inl rfl
    · exact .inr (.inr ⟨h3.2.2, by simpa using h3.1, by simpa using h3.2.1, rfl⟩)
    · exact .inl rfl
    · simp only [opensFrame, Bool.or_eq_true, Bool.and_eq_true, List.getElem?_cons_zero,
        decide_eq_true_eq, Option.some.injEq, Option.any_some] at hf
      rcases hf with hf | hf
      · exact absurd ⟨hf.1, hf.2, rfl⟩ h2
      · exact absurd ⟨hf.1, hf.2, rfl⟩ h4

theorem step_gsH {p : ResponseParser} (hlen : 7 ≤ p.buffer.length)
    (hfirst : p.buffer[0]? = some 0x37) (hok : gsHDisqualified p.buffer = false) :
    scanner.step p ≠ none := by
  have hs : ∃ e q, p.step false = .emitted e q := by
    unfold step
    cases hb : p.buffer with
    | nil => simp [hb] at hfirst
    | cons first rest =>
      rw [hb] at hlen hfirst hok
      exact ⟨_, _, if_pos ⟨by simpa using hfirst, by simp [hok], hlen⟩⟩
  obtain ⟨e, q, hs⟩ := hs
  simp [scanner_step.mpr hs]

theorem step_asb {p : ResponseParser} (hlen : 4 ≤ p.buffer.length)
    (hfirst : p.buffer[0]?.any looksLikeAsbByte) (hok : asbDisqualified p.buffer = false) :
    scanner.step p ≠ none := by
  have hs : ∃ e q, p.step false = .emitted e q := by
    unfold step
    cases hb : p.buffer with
    | nil => simp [hb] at hfirst
    | cons first rest =>
      rw [hb] at hlen hfirst hok
      have hasb : looksLikeAsbByte first = true := by simpa using hfirst
      have hne : ¬ first = 0x37 := fun h => by simp [not_asb_of_gsH h] at hasb
      exact ⟨_, _, (if_neg (by simp [hne])).trans ((if_neg (by simp [hne])).trans
        (if_pos ⟨hasb, by simp [hok], hlen⟩))⟩
  obtain ⟨e, q, hs⟩ := hs
  simp [scanner_step.mpr hs]

/-- A byte that goes on with a frame completes it or is held. -/
theorem feed_frame {p : ResponseParser} {b : UInt8} (hp : p.Waiting)
    (hf : opensFrame (p.buffer ++ [b])) :
    p.feed [b] = ([], p.push [b]) ∨
      (∃ token, p.feed [b] = ([.gsHAck token], { p with buffer := [] })) ∨
        ∃ frame, p.feed [b] = ([.asbStatus frame], { p with buffer := [] }) := by
  have hlen : (p.buffer ++ [b]).length = p.buffer.length + 1 := by simp
  have hhead : ∀ k, k + 1 ≤ (p.buffer ++ [b]).length → 0 < k →
      p.buffer[0]? = (p.buffer ++ [b])[0]? := fun k hk h0 =>
    (List.getElem?_append_left (by omega)).symm
  have hend : ∀ e : ParsedEvent,
      scanner.step (p.push [b]) = some (e, { p with buffer := [] }) →
        p.feed [b] = ([e], { p with buffer := [] }) := by
    intro e he
    rw [feed_eq, Scanner.feed]
    show scanner.drain (p.buffer ++ [b]).length (p.push [b]) = _
    rw [hlen, Scanner.drain_of_some he, Scanner.drain_of_none rfl]
  rcases step_opensFrame (p := p.push [b]) hf with hs | ⟨h7, h0, hok, hs⟩ | ⟨h4, h0, hok, hs⟩
  · refine .inl ?_
    have hnone : scanner.step (p.push [b]) = none := by
      cases hr : scanner.step (p.push [b]) with
      | none => rfl
      | some r => simp [scanner_step.mp hr] at hs
    rw [feed_eq, Scanner.feed]
    exact Scanner.drain_of_none hnone _
  · have h7' : 6 + 1 ≤ (p.buffer ++ [b]).length := h7
    have hshort : p.buffer.length < 7 := by
      by_contra hge
      refine step_gsH (by omega) ((hhead 6 h7' (by omega)).trans h0) ?_ hp
      by_contra hd
      simp [push, gsHDisqualified_append [b] (by simpa using hd)] at hok
    have hnil : (p.push [b]).buffer.drop 7 = [] := List.drop_of_length_le (by
      show (p.buffer ++ [b]).length ≤ 7
      omega)
    rw [hnil] at hs
    exact .inr (.inl ⟨_, hend _ (scanner_step.mpr hs)⟩)
  · have h4' : 3 + 1 ≤ (p.buffer ++ [b]).length := h4
    have hshort : p.buffer.length < 4 := by
      by_contra hge
      refine step_asb (by omega) ((hhead 3 h4' (by omega)) ▸ h0) ?_ hp
      by_contra hd
      simp [push, asbDisqualified_append [b] (by simpa using hd)] at hok
    have hnil : (p.push [b]).buffer.drop 4 = [] := List.drop_of_length_le (by
      show (p.buffer ++ [b]).length ≤ 4
      omega)
    rw [hnil] at hs
    exact .inr (.inr ⟨_, hend _ (scanner_step.mpr hs)⟩)

end ResponseParser

end PrinterDriver.Core.EscposParser
