import PrinterDriver.Lib.Frames
import PrinterDriver.Engine.StarRuns

/-! # Attribution of `ESC GS ETX` answers

The printer answers fences it was asked, in any order, as often and as late as it likes; each answer
is a frame of eight bytes that carries the correlation bytes of its fence, and the frames reach the
host in arbitrary reads. The fences of a runtime are numbered in the order they are armed.

A read can begin in the middle of a frame, since every job starts with an empty parser. Still the
parser never makes an answer of the halves of two frames: the four bytes that open one occur in a
stream of frames only where a frame begins (`prefix_at_boundary`). -/

namespace PrinterDriver.Engine.StarEtx

open PrinterDriver.Lib.Programs PrinterDriver.Lib.Threads PrinterDriver.Lib.Frames
  PrinterDriver.Lib.Scanning PrinterDriver.Core PrinterDriver.Core.Types PrinterDriver.Core.Profile
  PrinterDriver.Core.Star PrinterDriver.Engine.Io PrinterDriver.Engine.Ops
  PrinterDriver.Engine.RunJob PrinterDriver.Engine.Session PrinterDriver.Engine.QuietCalls
  PrinterDriver.Engine.StarRuns

open Prog

/-! ### The printer -/

/-- The correlation bytes of the `i`-th fence: its number plus one, in sixteen bits. -/
def correlation (i : ℕ) : UInt8 × UInt8 :=
  ((UInt16.ofNat (i + 1) >>> 8).toUInt8, (UInt16.ofNat (i + 1)).toUInt8)

/-- The answer to the `i`-th fence. -/
def frame (i : ℕ) (counter : UInt8) : Bytes :=
  kEtxPrefix ++ [(correlation i).1, (correlation i).2, counter, 0x00]

structure Wire where
  /-- The fences armed, oldest first: the task and the part each is for. -/
  fences : List (ℕ × Part) := []
  up : Bool := false
  /-- The answers sent on this connection: which fence, and the counter byte. -/
  answers : List (ℕ × UInt8) := []
  /-- How many of their bytes have reached the host. -/
  delivered : ℕ := 0
  /-- The answers that have arrived: which fence, and the fence that was outstanding then. -/
  arrived : List (ℕ × Option ℕ) := []

def Wire.stream (w : Wire) : Bytes := (w.answers.map fun a => frame a.1 a.2).flatten

/-- The fence that the runtime waits for. -/
def outstanding (s : IoState) (w : Wire) : Option ℕ :=
  if s.starFenceOutstanding then some (w.fences.length - 1) else none

/-- One more byte has reached the host; with its last byte an answer has arrived. -/
def Wire.take (w : Wire) (fence : Option ℕ) : Wire :=
  { w with
    delivered := w.delivered + 1
    arrived :=
      if (w.delivered + 1) % 8 = 0 then
        ((w.answers[w.delivered / 8]?.map fun a => (a.1, fence)).toList ++ w.arrived)
      else w.arrived }

inductive Act where
  | answer (i : ℕ) (counter : UInt8)
  | deliver
  | disconnect
  | hangUp

/-- The printer and the connection. A new connection starts with an empty stream. -/
def printer (nonce : Bytes) : Device Wire where
  hear n c a _ w :=
    match c, a with
    | .ensureConnected, true => if w.up then w else { w with up := true, answers := [], delivered := 0 }
    | .armStarFence part _, _ => { w with fences := w.fences ++ [(n, part)] }
    | _, _ => w
  Event := Act
  act
    | .answer i counter, s, w =>
      if i < w.fences.length then some (s, { w with answers := w.answers ++ [(i, counter)] })
      else none
    | .deliver, s, w =>
      if w.up then
        w.stream[w.delivered]?.map fun b => ((s.onBytes nonce [b]).2, w.take (outstanding s w))
      else none
    | .disconnect, s, w => some (s.onDisconnected, { w with up := false })
    | .hangUp, s, w => some (s, { w with up := false })

/-- A job on a profile fenced by `ESC GS ETX`. -/
abbrev EtxJob : Type := { j : JobRun // j.profile.completion = .starEscGsEtx }

/-- The runs of such jobs on one printer. -/
abbrev etxSession (nonce : Bytes) : Machine Worker Unit (State Wire) :=
  session (printer nonce) fun j : EtxJob => j.1.runJob

/-- An answer with the correlation bytes of the fence of the given part of the given task arrived while
that fence was outstanding, and it is the answer to this fence unless 65536 fences are between the two. -/
def Answered (n : ℕ) (part : Part) (w : Wire) : Prop :=
  ∃ i k, w.fences[i]? = some (n, part) ∧ (k, some i) ∈ w.arrived ∧
    correlation k = correlation i ∧ (i < k + 65536 → k = i)

/-! ### Frames -/

/-- Fences have the same correlation bytes if their numbers agree in sixteen bits. -/
theorem correlation_eq_iff {i k : ℕ} :
    correlation k = correlation i ↔ (k + 1) % 65536 = (i + 1) % 65536 := by
  constructor
  · intro h
    have h1 := congrArg (fun p => UInt8.toNat p.1) h
    have h2 := congrArg (fun p => UInt8.toNat p.2) h
    simp only [correlation, UInt16.toNat_toUInt8, UInt16.toNat_shiftRight, UInt16.toNat_ofNat',
      Nat.shiftRight_eq_div_pow] at h1 h2
    have h8 : UInt16.toNat 8 % 16 = 8 := rfl
    rw [h8] at h1
    omega
  · intro h
    have heq : UInt16.ofNat (k + 1) = UInt16.ofNat (i + 1) := by
      rw [← UInt16.toNat_inj, UInt16.toNat_ofNat', UInt16.toNat_ofNat']
      exact h
    unfold correlation
    rw [heq]

theorem correlation_inj {i k : ℕ} (h : correlation k = correlation i) (hki : k ≤ i)
    (hik : i < k + 65536) : k = i := by
  have := correlation_eq_iff.mp h
  omega

theorem frames_length (w : Wire) : ∀ l ∈ w.answers.map fun a => frame a.1 a.2, l.length = 8 := by
  intro l hl
  obtain ⟨a, _, rfl⟩ := List.mem_map.mp hl
  rfl

/-- The byte of a stream of answers at a position. -/
theorem stream_getElem? (w : Wire) (i : ℕ) :
    w.stream[i]? = w.answers[i / 8]?.bind fun a => (frame a.1 a.2)[i % 8]? := by
  rw [Wire.stream, getElem?_flatten (by omega) (frames_length w), List.getElem?_map]
  cases w.answers[i / 8]? <;> rfl

/-- The bytes of a frame that are the same in all of them. -/
theorem stream_fixed {w : Wire} {i r : ℕ} {b : UInt8} (h : w.stream[i]? = some b)
    (hr : i % 8 = r) : (r = 1 → b = 0x1D) ∧ (r = 2 → b = 0x03) ∧ (r = 3 → b = 0x01) ∧
      (r = 7 → b = 0x00) := by
  rw [stream_getElem?, hr] at h
  obtain ⟨a, _, ha⟩ := Option.bind_eq_some_iff.mp h
  refine ⟨?_, ?_, ?_, ?_⟩ <;> rintro rfl <;> simpa [frame, kEtxPrefix] using ha.symm

/-- The four bytes that open an answer occur only where an answer begins. -/
theorem prefix_at_boundary {w : Wire} {i : ℕ} (h0 : w.stream[i]? = some 0x1B)
    (h1 : w.stream[i + 1]? = some 0x1D) (h2 : w.stream[i + 2]? = some 0x03)
    (h3 : w.stream[i + 3]? = some 0x01) : i % 8 = 0 := by
  have hlt : i % 8 < 8 := Nat.mod_lt _ (by omega)
  have f0 := stream_fixed h0 rfl
  -- past the head of a frame, its last byte would have to be one of the four
  have f1 : ¬ (i + 1) % 8 = 7 := fun h => by simpa using (stream_fixed h1 h).2.2.2 rfl
  have f2 : ¬ (i + 2) % 8 = 7 := fun h => by simpa using (stream_fixed h2 h).2.2.2 rfl
  have f3 : ¬ (i + 3) % 8 = 7 := fun h => by simpa using (stream_fixed h3 h).2.2.2 rfl
  have n1 : ¬ i % 8 = 1 := fun h => by simpa using f0.1 h
  have n2 : ¬ i % 8 = 2 := fun h => by simpa using f0.2.1 h
  have n3 : ¬ i % 8 = 3 := fun h => by simpa using f0.2.2.1 h
  have n7 : ¬ i % 8 = 7 := fun h => by simpa using f0.2.2.2 h
  omega

/-! ### The parser against the stream -/

/-- What the parser holds is the end of what was delivered. -/
def Aligned (delivered : Bytes) (p : StarParser) : Prop := ∃ pre, delivered = pre ++ p.buffer

theorem Aligned.step {delivered : Bytes} {p q : StarParser} {e : Event} (h : Aligned delivered p)
    (hs : p.Emits e q) : Aligned delivered q := by
  obtain ⟨pre, rfl⟩ := h
  cases hs with
  | etx => exact ⟨pre ++ p.buffer.take kEscGsEtxResponseBytes, by simp⟩
  | asb => exact ⟨pre ++ p.buffer.take p.asbBlockBytes.toNat, by simp⟩
  | unknown first rest hb => exact ⟨pre ++ [first], by simp [hb]⟩

/-- An answer that the parser makes of the eight bytes delivered last is one that was sent. -/
theorem Aligned.answer {w : Wire} {n : ℕ} {p q : StarParser} {n1 n2 c : UInt8}
    (h : Aligned (w.stream.take n) p) (hw : n ≤ w.stream.length) (hwhole : p.buffer.length = 8)
    (hs : p.Emits (.etxAck n1 n2 c) q) :
    ∃ m k, w.answers[m]? = some (k, c) ∧ 8 * m + 8 = n ∧ correlation k = (n1, n2) := by
  obtain ⟨pre, hpre⟩ := h
  cases hs with
  | etx hlen hbuf =>
    have hn : pre.length + p.buffer.length = n := by
      rw [← List.length_append, ← hpre, List.length_take, Nat.min_eq_left hw]
    -- a byte of the buffer is a byte of the stream
    have hget : ∀ i, i < 8 → w.stream[pre.length + i]? = some (p.buffer.getD i 0) := by
      intro i hi
      have hs : (w.stream.take n)[pre.length + i]? = some (p.buffer.getD i 0) := by
        rw [hpre, List.getElem?_append_right (by omega), Nat.add_sub_cancel_left,
          List.getD_eq_getElem?_getD, List.getElem?_eq_getElem (by omega)]
        rfl
      rwa [List.getElem?_take_of_lt (by omega)] at hs
    have hfix : ∀ i, i < 4 → p.buffer.getD i 0 = kEtxPrefix.getD i 0 := by
      intro i hi
      rw [← hbuf, List.getD_eq_getElem?_getD, List.getD_eq_getElem?_getD,
        List.getElem?_take_of_lt hi]
    have hopen : ∀ i, i < 4 → w.stream[pre.length + i]? = some (kEtxPrefix.getD i 0) :=
      fun i hi => (hget i (by omega)).trans (congrArg some (hfix i hi))
    have hb : pre.length % 8 = 0 :=
      prefix_at_boundary (hopen 0 (by omega)) (hopen 1 (by omega)) (hopen 2 (by omega))
        (hopen 3 (by omega))
    have hframe : ∀ i, i < 8 → ∃ a, w.answers[pre.length / 8]? = some a ∧
        (frame a.1 a.2)[i]? = some (p.buffer.getD i 0) := by
      intro i hi
      have hi' := hget i hi
      rw [stream_getElem?, show (pre.length + i) / 8 = pre.length / 8 by omega,
        show (pre.length + i) % 8 = i by omega] at hi'
      exact Option.bind_eq_some_iff.mp hi'
    obtain ⟨⟨k, c⟩, ha, h4⟩ := hframe 4 (by omega)
    have h5 := hframe 5 (by omega)
    have h6 := hframe 6 (by omega)
    simp only [ha, Option.some.injEq, exists_eq_left'] at h5 h6
    simp only [frame, kEtxPrefix, List.cons_append, List.nil_append, List.getElem?_cons_succ,
      List.getElem?_cons_zero, Option.some.injEq] at h4 h5 h6
    exact ⟨pre.length / 8, k, by rw [ha, h6], by omega, by rw [← h4, ← h5]⟩

/-- A read keeps the alignment, and its answers were sent: their last byte is the one that is read. -/
theorem Aligned.feed {w : Wire} {n : ℕ} {p : StarParser} {b : UInt8}
    (h : Aligned (w.stream.take n) p) (hwaits : StarParser.scanner.step p = none)
    (hb : w.stream[n]? = some b) :
    Aligned (w.stream.take (n + 1)) (p.feed [b]).2 ∧
      ∀ n1 n2 c, .etxAck n1 n2 c ∈ (p.feed [b]).1 →
        ∃ m k, w.answers[m]? = some (k, c) ∧ 8 * m + 8 = n + 1 ∧ correlation k = (n1, n2) := by
  have hpush : Aligned (w.stream.take (n + 1)) (p.push [b]) := by
    obtain ⟨pre, hpre⟩ := h
    refine ⟨pre, ?_⟩
    obtain ⟨hn, rfl⟩ := List.getElem?_eq_some_iff.mp hb
    rw [List.take_succ_eq_append_getElem hn, hpre, List.append_assoc]
    rfl
  refine ⟨?_, fun n1 n2 c hc => ?_⟩
  · rw [StarParser.feed_eq]
    exact (Scanner.drain_keeps (S := StarParser.scanner) (J := Aligned (w.stream.take (n + 1)))
      (fun p e q hp hs => hp.step (StarParser.step_emits (StarParser.scanner_step.mp hs)))
      (StarParser.scanner.size (p.push [b])) hpush).1
  · obtain ⟨hwhole, q, hs⟩ := StarParser.answer_of_feed hwaits hc
    exact hpush.answer (List.getElem?_eq_some_iff.mp hb).1 hwhole hs

/-! ### The session -/

/-- What holds in every state of the session. -/
structure Sound (s : State Wire) : Prop where
  sequence : s.io.starSequence = UInt16.ofNat s.device.fences.length
  asked : ∀ a ∈ s.device.answers, a.1 < s.device.fences.length
  within : s.device.delivered ≤ s.device.stream.length

/-- From `beginJobIo` on: the parser reads the stream of this connection. -/
structure Ready (s : State Wire) : Prop where
  aligned : Aligned (s.device.stream.take s.device.delivered) s.io.starParser
  mode : s.io.starMode = false → s.io.starParser.buffer = []
  waits : StarParser.scanner.step s.io.starParser = none

/-- Before the job reads Star answers the parser is empty. -/
def Begun (s : State Wire) : Prop := Ready s ∧ s.io.starMode = false

/-- An answer with the correlation bytes of the fence `i` has arrived while it was outstanding. -/
def Signal (i : ℕ) (w : Wire) : Prop :=
  ∃ k, (k, some i) ∈ w.arrived ∧ correlation k = correlation i ∧ k ≤ i

/-- From the arming of a fence to the end of its wait. -/
structure Armed (part : Part) (i : ℕ) (s : State Wire) : Prop where
  ready : Ready s
  outstanding : s.io.starFenceOutstanding = true
  notEtb : s.io.starFenceIsEtb = false
  last : s.device.fences.length = i + 1
  owner : s.device.fences[i]? = some (s.task, part)
  expected : (s.io.starExpectN1, s.io.starExpectN2) = correlation i
  signal : s.io.starFenceSignalled = true → Signal i s.device

/-- What the job may record when. -/
def allowed (c : Call) (s : State Wire) : Prop :=
  match c with
  | .recordState _ .printConfirmed _ _ _ => Answered s.task .printFence s.device
  | .recordState _ .cutCommandProcessed _ _ _ => Answered s.task .cut s.device
  | .armStarFence _ completion => completion ≠ .starEtb
  | _ => True

abbrev contract : Machine.Contract Worker Unit (State Wire) where
  inv := Sound
  rest _ _ := True
  allowed _ := allowed

theorem Signal.answered {part : Part} {i n : ℕ} {w : Wire} (h : Signal i w)
    (ho : w.fences[i]? = some (n, part)) : Answered n part w := by
  obtain ⟨k, hk, hc, hki⟩ := h
  exact ⟨i, k, ho, hk, hc, correlation_inj hc hki⟩

/-! ### The events of the printer -/

section Events
variable {nonce : Bytes} {s : State Wire}

/-- One byte more has been read. -/
abbrev read (nonce : Bytes) (s : State Wire) (b : UInt8) : State Wire :=
  { s with
    io := (s.io.onBytes nonce [b]).2
    device := s.device.take (outstanding s.io s.device) }

theorem take_arrived {w : Wire} {fence : Option ℕ} {a : ℕ × Option ℕ} (h : a ∈ w.arrived) :
    a ∈ (w.take fence).arrived := by
  simp only [Wire.take]
  split_ifs
  · exact List.mem_append_right _ h
  · exact h

/-- With its last byte an answer arrives. -/
theorem take_logged {w : Wire} {fence : Option ℕ} {m : ℕ} {a : ℕ × UInt8}
    (ha : w.answers[m]? = some a) (hm : 8 * m + 8 = w.delivered + 1) :
    (a.1, fence) ∈ (w.take fence).arrived := by
  have hd : w.delivered / 8 = m := by omega
  simp only [Wire.take]
  rw [if_pos (by omega), hd, ha]
  simp

theorem sound_read {b : UInt8} (h : Sound s)
    (hb : s.device.stream[s.device.delivered]? = some b) : Sound (read nonce s b) where
  sequence := by
    refine Eq.trans ?_ h.sequence
    exact s.io.onBytes_starSequence nonce [b]
  asked := h.asked
  within := (List.getElem?_eq_some_iff.mp hb).1

theorem Ready.read {b : UInt8} (h : Ready s) (hb : s.device.stream[s.device.delivered]? = some b) :
    Ready (read nonce s b) := by
  by_cases hm : s.io.starMode = true
  · obtain ⟨_, _, hs⟩ := s.io.onBytes_star_frame nonce [b] hm
    constructor
    · simp only [hs]
      exact (h.aligned.feed h.waits hb).1
    · simp only [hs, hm]
      exact fun hf => absurd hf (by decide)
    · simp only [hs]
      exact StarParser.step_feed _ _
  · have hm' : s.io.starMode = false := by simpa using hm
    obtain ⟨_, _, _, _, _, _, _, hs⟩ := s.io.onBytes_escpos_frame nonce [b] hm'
    constructor
    · simp only [hs]
      exact ⟨_, by rw [h.mode hm', List.append_nil]⟩
    · simp only [hs]
      exact fun _ => h.mode hm'
    · simp only [hs]
      exact h.waits

theorem Begun.read {b : UInt8} (h : Begun s) (hb : s.device.stream[s.device.delivered]? = some b) :
    Begun (read nonce s b) := by
  obtain ⟨_, _, _, _, _, _, _, hs⟩ := s.io.onBytes_escpos_frame nonce [b] h.2
  refine ⟨h.1.read hb, ?_⟩
  simp only [hs]
  exact h.2

theorem Armed.read {part : Part} {i : ℕ} {b : UInt8} (hs : Sound s) (h : Armed part i s)
    (hb : s.device.stream[s.device.delivered]? = some b) : Armed part i (read nonce s b) := by
  have hout : StarEtx.outstanding s.io s.device = some i := by
    simp [StarEtx.outstanding, h.outstanding, h.last]
  have hkeep : Signal i s.device → Signal i (s.device.take (StarEtx.outstanding s.io s.device)) :=
    fun ⟨k, hk, hc, hki⟩ => ⟨k, take_arrived hk, hc, hki⟩
  have hready : Ready (StarEtx.read nonce s b) := h.ready.read hb
  by_cases hm : s.io.starMode = true
  · obtain ⟨_, _, hf⟩ := s.io.onBytes_star_frame nonce [b] hm
    refine ⟨hready, ?_, ?_, h.last, h.owner, ?_, fun hsig => ?_⟩
    · simp only [hf, h.outstanding]
    · simp only [hf, h.notEtb]
    · simp only [hf, h.expected]
    · rcases s.io.onBytes_signalled_etx nonce [b] hm h.notEtb hsig with hold | ⟨c, hc⟩
      · exact hkeep (h.signal hold)
      · -- the answer that signals the fence is a frame of the stream that arrives with this byte
        obtain ⟨m, k, ha, hlast, hcor⟩ := (h.ready.aligned.feed h.ready.waits hb).2 _ _ _ hc
        have hki : k < s.device.fences.length := hs.asked _ (List.mem_of_getElem? ha)
        have hlogged : (k, StarEtx.outstanding s.io s.device) ∈
            (s.device.take (StarEtx.outstanding s.io s.device)).arrived := take_logged ha hlast
        rw [hout] at hlogged
        refine ⟨k, ?_, hcor.trans h.expected, by rw [h.last] at hki; omega⟩
        change (k, some i) ∈ (s.device.take (StarEtx.outstanding s.io s.device)).arrived
        rw [hout]
        exact hlogged
  · obtain ⟨_, _, _, _, _, _, _, hf⟩ := s.io.onBytes_escpos_frame nonce [b] (by simpa using hm)
    refine ⟨hready, ?_, ?_, h.last, h.owner, ?_, ?_⟩
    · simp only [hf, h.outstanding]
    · simp only [hf, h.notEtb]
    · simp only [hf, h.expected]
    · simp only [hf]
      exact fun hsig => hkeep (h.signal hsig)

/-- An answer more is on its way. -/
abbrev ask (s : State Wire) (i : ℕ) (counter : UInt8) : State Wire :=
  { s with device := { s.device with answers := s.device.answers ++ [(i, counter)] } }

theorem ask_stream {i : ℕ} {c : UInt8} :
    (ask s i c).device.stream = s.device.stream ++ frame i c := by
  simp [Wire.stream]

theorem sound_ask {i : ℕ} {c : UInt8} (h : Sound s) (hi : i < s.device.fences.length) :
    Sound (ask s i c) where
  sequence := h.sequence
  asked a ha := by
    rcases List.mem_append.mp ha with ha | ha
    · exact h.asked a ha
    · rw [List.mem_singleton.mp ha]
      exact hi
  within := by
    rw [ask_stream, List.length_append]
    exact Nat.le_add_right_of_le h.within

theorem Ready.ask {i : ℕ} {c : UInt8} (hs : Sound s) (h : Ready s) : Ready (ask s i c) where
  aligned := by
    rw [ask_stream, List.take_append_of_le_length hs.within]
    exact h.aligned
  mode := h.mode
  waits := h.waits

theorem Armed.ask {part : Part} {i k : ℕ} {c : UInt8} (hs : Sound s) (h : Armed part i s) :
    Armed part i (ask s k c) :=
  ⟨h.ready.ask hs, h.outstanding, h.notEtb, h.last, h.owner, h.expected, h.signal⟩

/-- What an event of the printer can be. -/
theorem act_cases {e : Act} {io : IoState} {w : Wire}
    (h : (printer nonce).act e s.io s.device = some (io, w)) :
    (∃ i c, i < s.device.fences.length ∧ ({ s with io := io, device := w } : State Wire) = ask s i c) ∨
    (∃ b, s.device.stream[s.device.delivered]? = some b ∧
      ({ s with io := io, device := w } : State Wire) = read nonce s b) ∨
    (({ s with io := io, device := w } : State Wire) =
      { s with io := s.io.onDisconnected, device := { s.device with up := false } }) ∨
    (({ s with io := io, device := w } : State Wire) =
      { s with device := { s.device with up := false } }) := by
  cases e with
  | answer i c =>
    simp only [printer] at h
    split_ifs at h with hi
    cases h
    exact .inl ⟨i, c, hi, rfl⟩
  | deliver =>
    simp only [printer] at h
    split_ifs at h with hup
    obtain ⟨b, hb, he⟩ := Option.map_eq_some_iff.mp h
    cases he
    exact .inr (.inl ⟨b, hb, rfl⟩)
  | disconnect =>
    cases h
    exact .inr (.inr (.inl rfl))
  | hangUp =>
    cases h
    exact .inr (.inr (.inr rfl))

theorem sound_act {e : Act} {io : IoState} {w : Wire} (hs : Sound s)
    (h : (printer nonce).act e s.io s.device = some (io, w)) :
    Sound { s with io := io, device := w } := by
  rcases act_cases h with ⟨i, c, hi, he⟩ | ⟨b, hb, he⟩ | he | he <;> rw [he]
  · exact sound_ask hs hi
  · exact sound_read hs hb
  · exact ⟨hs.sequence, hs.asked, hs.within⟩
  · exact ⟨hs.sequence, hs.asked, hs.within⟩

end Events

/-! ### The calls of the worker -/

section Calls
variable {nonce : Bytes} {s : State Wire}

/-- The state after a call that was answered. -/
abbrev heard (nonce : Bytes) (s : State Wire) (c : Call) (a : c.Answer) (io : IoState) : State Wire :=
  { s with io := io, device := (printer nonce).hear s.task c a s.io s.device }

theorem sound_connected (hs : Sound s) (up : Bool) :
    Sound (heard nonce s .ensureConnected up s.io) := by
  unfold heard
  cases up with
  | false => exact hs
  | true =>
    simp only [printer]
    split_ifs
    · exact hs
    · exact ⟨hs.sequence, by simp, by simp [Wire.stream]⟩

theorem sound_armed {part : Part} {completion : CompletionMechanism} (hs : Sound s)
    (hc : completion ≠ .starEtb) :
    Sound (heard nonce s (.armStarFence part completion) (s.io.armStarFence completion).1
      (s.io.armStarFence completion).2) where
  sequence := by
    simp [printer, IoState.armStarFence, hc, hs.sequence, UInt16.ofNat_add]
  asked a ha := by
    have := hs.asked a ha
    simp only [printer, List.length_append]
    omega
  within := hs.within

theorem sound_serve {c : Call} {ch : Choice} {a : c.Answer} {io : IoState} (hs : Sound s)
    (hc : allowed c s) (h : serveIo c ch s.io = some (a, io)) : Sound (heard nonce s c a io) := by
  have hio : io.starSequence = s.io.starSequence → Sound { s with io := io } :=
    fun he => ⟨he.trans hs.sequence, hs.asked, hs.within⟩
  cases c with
  | ensureConnected =>
    cases ch <;> cases h
    exact sound_connected hs _
  | armStarFence part completion =>
    cases ch with
    | go =>
      obtain ⟨rfl, rfl⟩ := Prod.mk.inj (Option.some.inj h)
      exact sound_armed hs hc
    | _ => cases h
  | _ => exact hio (serveIo_starSequence h fun _ _ he => by cases he)

end Calls

/-! ### The stages of a job -/

/-- The fence of the current task's part is answered. -/
def Confirmed (part : Part) (s : State Wire) : Prop :=
  Ready s ∧ Answered s.task part s.device

section Outline
variable {nonce : Bytes}

/-- The world of the worker of such a session. -/
abbrev etxWorld (nonce : Bytes) : World Worker (State Wire) :=
  world (printer nonce) (fun j : EtxJob => j.1.runJob) (.none _) contract

/-- What the events of the printer keep is stable. -/
theorem stable_events {P : State Wire → Prop}
    (hr : ∀ s b, Sound s → P s → s.device.stream[s.device.delivered]? = some b →
      P (read nonce s b))
    (ha : ∀ s i c, Sound s → P s → P (ask s i c))
    (hio : ∀ s stopping linkDown up, P s → P { s with
      io := { s.io with stopping := stopping, linkDown := linkDown }
      device := { s.device with up := up } }) : Stable (etxWorld nonce) P := by
  refine stable_of (fun s e io w hi h _ hact => ?_) fun s _ h =>
    hio s true s.io.linkDown s.device.up h
  rcases act_cases hact with ⟨i, c, _, he⟩ | ⟨b, hb, he⟩ | he | he <;> rw [he]
  · exact ha s i c hi h
  · exact hr s b hi h hb
  · exact hio s s.io.stopping true false h
  · exact hio s s.io.stopping s.io.linkDown false h

theorem hear_local {s : State Wire} {c : Call} {a : c.Answer} (hc : Local c) :
    (printer nonce).hear s.task c a s.io s.device = s.device := by
  cases c with
  | ensureConnected | armStarFence => exact hc.elim
  | _ => rfl

theorem kept_of {P : State Wire → Prop} (h : Stable (etxWorld nonce) P) :
    Kept (etxWorld nonce) P := by
  refine ⟨h, fun hp => triple_quiet hp h (fun c s hq _ => ?_) fun s c a hc _ hs => ?_⟩
  · cases c with
    | recordState id state => cases state <;> trivial
    | armStarFence => exact hq.elim
    | _ => trivial
  · rw [hear_local hc]
    exact hs

theorem stable_ready : Stable (etxWorld nonce) Ready :=
  stable_events (fun _ _ _ h hb => h.read hb) (fun _ _ _ hi h => h.ask hi)
    fun _ _ _ _ h => ⟨h.aligned, h.mode, h.waits⟩

theorem stable_armed {part : Part} : Stable (etxWorld nonce) fun s => ∃ i, Armed part i s :=
  stable_events (fun _ _ hi ⟨i, h⟩ hb => ⟨i, h.read hi hb⟩) (fun _ _ _ hi ⟨i, h⟩ => ⟨i, h.ask hi⟩)
    fun _ _ _ _ ⟨i, h⟩ => ⟨i, ⟨h.ready.aligned, h.ready.mode, h.ready.waits⟩, h.outstanding,
      h.notEtb, h.last, h.owner, h.expected, h.signal⟩

theorem stable_begun : Stable (etxWorld nonce) Begun :=
  stable_events (fun _ _ _ h hb => h.read hb) (fun _ _ _ hi h => ⟨h.1.ask hi, h.2⟩)
    fun _ _ _ _ h => ⟨⟨h.1.aligned, h.1.mode, h.1.waits⟩, h.2⟩

theorem Answered.mono {n : ℕ} {part : Part} {w w' : Wire} (h : Answered n part w)
    (hf : w'.fences = w.fences) (ha : ∀ a ∈ w.arrived, a ∈ w'.arrived) : Answered n part w' := by
  obtain ⟨i, k, ho, hk, hc, hown⟩ := h
  exact ⟨i, k, hf ▸ ho, ha _ hk, hc, hown⟩

theorem stable_confirmed {part : Part} : Stable (etxWorld nonce) (Confirmed part) :=
  stable_events (fun _ _ _ h hb => ⟨h.1.read hb, h.2.mono rfl fun _ => take_arrived⟩)
    (fun _ _ _ hi h => ⟨h.1.ask hi, h.2⟩) fun _ _ _ _ h => ⟨⟨h.1.aligned, h.1.mode, h.1.waits⟩, h.2⟩

/-- The parser is emptied, so that what it holds is the end of the stream. -/
theorem begun_begun {s : State Wire} : Begun { s with io := s.io.beginJobIo } :=
  ⟨⟨⟨_, (List.append_nil _).symm⟩, fun _ => rfl, rfl⟩, rfl⟩

/-- An empty parser waits, whatever the length of a block. -/
theorem Begun.enter {s : State Wire} (h : Begun s) (asbBlockBytes : UInt8) :
    Ready { s with io := s.io.enterStarMode asbBlockBytes } where
  aligned := h.1.aligned
  mode hm := by cases hm
  waits := by
    have hnil : s.io.starParser.buffer = [] := h.1.mode h.2
    have hparser : (s.io.enterStarMode asbBlockBytes).starParser = ⟨[], asbBlockBytes⟩ := by
      simp [IoState.enterStarMode, StarParser.setAsbBlockBytes, hnil]
    rw [hparser]
    rfl

/-- A fence is armed under the number that its correlation bytes carry. -/
theorem armed_armed {s : State Wire} {part : Part} {completion : CompletionMechanism}
    (hs : Sound s) (h : Ready s) (hc : completion ≠ .starEtb) :
    Armed part s.device.fences.length (heard nonce s (.armStarFence part completion)
      (s.io.armStarFence completion).1 (s.io.armStarFence completion).2) where
  ready := ⟨by simpa [printer, IoState.armStarFence, hc, Wire.stream] using h.aligned,
    by simpa [IoState.armStarFence, hc] using h.mode,
    by simpa [IoState.armStarFence, hc] using h.waits⟩
  outstanding := by simp [IoState.armStarFence, hc]
  notEtb := by simp [IoState.armStarFence, hc]
  last := by simp [printer]
  owner := by simp [printer]
  expected := by simp [IoState.armStarFence, hc, hs.sequence, correlation, UInt16.ofNat_add]
  signal hsig := by simp [IoState.armStarFence, hc] at hsig

theorem ready_disarmed {s : State Wire} (h : Ready s) :
    Ready { s with io := s.io.awaitStarFence.2 } := ⟨h.aligned, h.mode, h.waits⟩

/-- A confirmation is recorded and published. -/
theorem triple_confirm {part : Part} {id : Bytes} {state : JobState} {c : ConfidenceLevel}
    {r : FailureReason} {e : JobEvidence}
    (h : ∀ s, Confirmed part s → allowed (.recordState id state c r e) s) :
    Triple (etxWorld nonce) (Confirmed part) (advance id state c r e) fun _ => Ready := by
  have hconf : Triple (etxWorld nonce) (Confirmed part) (advance id state c r e)
      fun _ => Confirmed part :=
    triple_local (advance_only (fun _ _ => ⟨trivial, fun _ _ => trivial⟩) ⟨trivial, h⟩)
      stable_confirmed fun s c a hc _ hs => by
        rw [hear_local hc]
        exact hs
  exact hconf.conseq (fun _ h => h) fun _ _ h => h.1

theorem outline (j : EtxJob) : StarOutline (etxWorld nonce) j.1 (fun _ => True) Begun Ready
    (fun part s => ∃ i, Armed part i s) Confirmed where
  idle := kept_of fun _ _ _ _ => trivial
  ready := kept_of stable_ready
  armed _ := kept_of stable_armed
  connect := triple_perform (fun _ _ _ _ => trivial) (fun _ _ => trivial)
    (fun _ _ _ _ _ => trivial) fun _ _ _ _ _ _ _ _ => trivial
  begun := by
    refine triple_perform (fun _ _ _ _ => trivial) (fun _ _ => trivial) (fun _ => stable_begun)
      fun s ch a io _ _ _ h => ?_
    cases ch <;> cases h
    exact begun_begun
  enter := by
    refine triple_perform stable_begun (fun _ _ => trivial) (fun _ => stable_ready)
      fun s ch a io _ _ hb h => ?_
    cases ch <;> cases h
    exact hb.enter _
  zero he := by rw [j.2] at he; cases he
  arm part := by
    refine triple_perform stable_ready (fun _ _ => by simp [allowed, j.2]) (fun _ => stable_armed)
      fun s ch a io hs _ hr h => ?_
    cases ch with
    | go =>
      obtain ⟨rfl, rfl⟩ := Prod.mk.inj (Option.some.inj h)
      exact ⟨_, armed_armed hs hr (by simp [j.2])⟩
    | _ => cases h
  await part := by
    refine triple_perform stable_armed (fun _ _ => trivial) (fun ack => ?_)
      fun s ch a io _ _ ⟨i, ha⟩ h => ?_
    · split_ifs
      · exact stable_confirmed
      · exact stable_ready
    cases ch with
    | go =>
      obtain ⟨rfl, rfl⟩ := Prod.mk.inj (Option.some.inj h)
      split_ifs with hack
      · exact ⟨ready_disarmed ha.ready,
          (ha.signal (IoState.waitOutcome_eq_signalled.mp hack)).answered ha.owner⟩
      · exact ready_disarmed ha.ready
    | _ => cases h
  printConfirmed _ _ := triple_confirm fun _ h => h.2
  cutConfirmed _ _ := triple_confirm fun _ h => h.2
  disarmed _ _ _ := trivial
  ends _ _ := trivial

theorem guarded : Machine.Guarded (etxSession nonce) (.none _) contract where
  serve _ c ch s a s' hs _ hc h := by
    obtain ⟨⟨b, io⟩, hb, he⟩ := Option.map_eq_some_iff.mp h
    cases he
    exact sound_serve hs hc hb
  event e s s' hs _ h := by
    cases e with
    | device e =>
      obtain ⟨⟨io, w⟩, ha, rfl⟩ := Option.map_eq_some_iff.mp h
      exact sound_act hs ha
    | stop =>
      cases h
      exact ⟨hs.sequence, hs.asked, hs.within⟩
  start _ _ _ _ _ hs h := by
    cases h
    exact ⟨hs.sequence, hs.asked, hs.within⟩
  restart := nofun
  program _ t s p s' _ _ h := by
    cases h
    exact (outline t).triple_runJob (not_escpos_of_star (.inr t.2)) _ trivial

end Outline

/-- **Attribution of `ESC GS ETX` answers.** In every run, when a job records `PrintConfirmed` its
own print fence has been answered, and when it records `CutCommandProcessed` its own cut fence. -/
theorem confirmed_by_own_counter (nonce : Bytes) {cfg : Config Worker Unit (State Wire)}
    (h : (etxSession nonce).Reach (.none _) { device := {} } cfg) {id : Bytes} {state : JobState}
    {c : ConfidenceLevel} {r : FailureReason} {e : JobEvidence} {k : Unit → Prog Worker Unit}
    (hc : cfg.prog () = .call (.recordState id state c r e : Call) k) :
    (state = .printConfirmed → Answered cfg.state.task .printFence cfg.state.device) ∧
      (state = .cutCommandProcessed → Answered cfg.state.task .cut cfg.state.device) := by
  have ha : allowed _ cfg.state := guarded.allowed
    ⟨rfl, by simp, by simp⟩ (fun _ _ _ => trivial) h hc
  exact ⟨by rintro rfl; exact ha, by rintro rfl; exact ha⟩

/-- A receipt for a printer that answers `ESC GS ETX`. -/
def receipt : EtxJob where
  val :=
    { id := str "job", key := [], payload := .raw (str "hi"), options := {}, attempt := 1
      banner := false, profile := { language := .starPrnt, completion := .starEscGsEtx }
      widthDots := 576, codecs := Encoder.plainCodecs, completionMethod := fun _ => none }
  property := rfl

/-- The receipt is printed, its fence is answered, and the answer arrives. -/
def receiptMoves : List (etxSession []).Move :=
  let accept : Choice := .wrote ⟨true, 0⟩
  [.start () receipt] ++
    ([.connected true, .go, .go, .go, .go, accept, .go, accept, .go, .go] : List Choice).map
      (Machine.Move.serve (M := etxSession []) ()) ++
    (.event (.device (.answer 0 0)) :: List.replicate 8 (.event (.device .deliver))) ++
    [.serve () .go]

theorem counter_receipt_confirmed : ∃ cfg : Config Worker Unit (State Wire),
    (etxSession []).Reach (.none _) { device := {} } cfg ∧
      Answered cfg.state.task .printFence cfg.state.device := by
  have hp : (Machine.pending (.none _) receiptMoves { device := {} } ()).map Prod.fst =
      some (.recordState (str "job") .printConfirmed .printConfirmed .none {}) := by rfl
  obtain ⟨cfg, c, k, hr, hk, rfl⟩ := Machine.reach_of_pending hp
  exact ⟨cfg, hr, (confirmed_by_own_counter [] hr hk).1 rfl⟩

end PrinterDriver.Engine.StarEtx
