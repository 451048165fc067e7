import PrinterDriver.Lib.Frames
import PrinterDriver.Engine.StarRuns

/-! # Attribution of `ETB` blocks

The printer executes its input in order: a clear sets its counter to zero, an `ETB` increments it
modulo 32 and sends one ASB block, and the blocks of a connection arrive in order, with arbitrary
delay. Every job clears the counter, so the fences of different jobs expect the same values, and a
block of an earlier job that is still under way confirms a later one (`late_block_confirms`). Where
no such block arrives, every confirmation is the job's own (`confirmed_by_own_block`). -/

namespace PrinterDriver.Engine.StarEtb

open PrinterDriver.Lib.Programs PrinterDriver.Lib.Threads PrinterDriver.Lib.Frames
  PrinterDriver.Core PrinterDriver.Core.Types PrinterDriver.Core.Profile PrinterDriver.Core.Star
  PrinterDriver.Engine.Io PrinterDriver.Engine.Ops PrinterDriver.Engine.RunJob
  PrinterDriver.Engine.Session PrinterDriver.Engine.QuietCalls PrinterDriver.Engine.StarRuns

open Prog

/-! ### The printer -/

/-- A block of the printer: of the declared length, and it does not begin like an `ESC` answer. -/
abbrev Status (n : UInt8) : Type := { b : Bytes // b.length = n.toNat ∧ b[0]? ≠ some 0x1B }

/-- What the input of the printer consists of. -/
inductive Command where
  | clear | etb | other
  deriving DecidableEq, Repr

/-- Whose a byte on the wire is: the task and the part. -/
abbrev Owner : Type := ℕ × Part

structure Wire (n : UInt8) where
  /-- Bytes that the transport accepted and the printer has not executed. -/
  input : List (Owner × UInt8) := []
  counter : ℕ := 0
  up : Bool := false
  /-- The blocks sent on this connection, each with the owner of its `ETB`. -/
  blocks : List (Owner × Status n) := []
  /-- How many of their bytes have reached the host. -/
  delivered : ℕ := 0
  /-- The owners of the blocks that have arrived whole. -/
  received : List Owner := []
  /-- The fence armed last. -/
  fence : Owner := (0, .preamble)

variable {n : UInt8}

namespace Wire

def frames (w : Wire n) : List Bytes := w.blocks.map fun b => b.2.1

def stream (w : Wire n) : Bytes := w.frames.flatten

/-- The block that is whole with the next byte. -/
def completes (w : Wire n) : Option (Owner × Status n) :=
  if (w.delivered + 1) % n.toNat = 0 then w.blocks[w.delivered / n.toNat]? else none

/-- One more byte has reached the host. -/
def take (w : Wire n) : Wire n :=
  { w with
    delivered := w.delivered + 1
    received := (w.completes.map Prod.fst).toList ++ w.received }

end Wire

inductive Act (n : UInt8) where
  | execute (status : Status n)
  | deliver
  | disconnect
  | hangUp

/-- The printer and the connection. `interpret` splits the next command off the input; a new connection
starts with an empty stream. -/
def printer (n : UInt8) (nonce : Bytes) (interpret : Bytes → Option (Command × ℕ)) :
    Device (Wire n) where
  hear task c a _ w :=
    match c, a with
    | .ensureConnected, true => if w.up then w else { w with up := true, blocks := [], delivered := 0 }
    | .write part data, result =>
      { w with input := w.input ++ (result.accepted data).map fun b => ((task, part), b) }
    | .armStarFence part _, _ => { w with fence := (task, part) }
    | _, _ => w
  Event := Act n
  act
    | .execute status, s, w =>
      match interpret (w.input.map Prod.snd), w.input with
      | some (command, length), (owner, _) :: _ =>
        let w' := { w with input := w.input.drop (max length 1) }
        match command with
        | .clear => some (s, { w' with counter := 0 })
        | .etb =>
          let counter := (w.counter + 1) % 32
          if (blockCounter status.1).toNat = counter then
            some (s, { w' with counter := counter, blocks := w.blocks ++ [(owner, status)] })
          else none
        | .other => some (s, w')
      | _, _ => none
    | .deliver, s, w =>
      if w.up then w.stream[w.delivered]?.map fun b => ((s.onBytes nonce [b]).2, w.take) else none
    | .disconnect, s, w => some (s.onDisconnected, { w with up := false })
    | .hangUp, s, w => some (s, { w with up := false })

/-- A job on a profile fenced by `ETB`, for a printer with blocks of this length. -/
abbrev EtbJob (n : UInt8) : Type :=
  { j : JobRun // j.profile.completion = .starEtb ∧ j.profile.star.asbBlockBytes = n }

/-- The runs of such jobs on one printer. -/
abbrev etbSession (n : UInt8) (nonce : Bytes) (interpret : Bytes → Option (Command × ℕ)) :
    Machine Worker Unit (State (Wire n)) :=
  session (printer n nonce interpret) fun j : EtbJob n => j.1.runJob

/-- The block would signal the fence that is outstanding. -/
def wouldSignal (s : IoState) (status : Status n) : Prop :=
  s.starFenceOutstanding = true ∧ s.starExpectCounter = blockCounter status.1 ∧
    s.starCounter ≠ some (blockCounter status.1)

/-- What a run has to meet: a block that arrives while a fence is outstanding, carries the counter
it expects and changes the counter is the fence's own; and a job enters Star mode between blocks. -/
def ownBlocks (nonce : Bytes) (interpret : Bytes → Option (Command × ℕ)) :
    (etbSession n nonce interpret).Guard where
  serve _ c _ s :=
    match c with
    | .io (.enterStarMode _) => s.device.delivered % n.toNat = 0
    | _ => True
  event e s :=
    match e with
    | .device .deliver => ∀ b ∈ s.device.completes, wouldSignal s.io b.2 → b.1 = s.device.fence
    | _ => True

/-! ### The parser between blocks -/

/-- No byte arrives before it is sent. -/
def Within (s : State (Wire n)) : Prop := s.device.delivered ≤ s.device.stream.length

/-- The parser holds the part of a block that has arrived. -/
structure Ready (s : State (Wire n)) : Prop where
  mode : s.io.starMode = true
  length : s.io.starParser.asbBlockBytes = n
  held : s.io.starParser.buffer = held n.toNat s.device.frames s.device.delivered

/-- From the arming of a fence to the end of its wait. -/
structure Armed (part : Part) (s : State (Wire n)) : Prop where
  ready : Ready s
  outstanding : s.io.starFenceOutstanding = true
  owner : s.device.fence = (s.task, part)
  signal : s.io.starFenceSignalled = true → (s.task, part) ∈ s.device.received

section Read
variable {nonce : Bytes} {s : State (Wire n)}

/-- One byte more has been read. -/
abbrev read (nonce : Bytes) (s : State (Wire n)) (b : UInt8) : State (Wire n) :=
  { s with io := (s.io.onBytes nonce [b]).2, device := s.device.take }

theorem frames_length (w : Wire n) : ∀ l ∈ w.frames, l.length = n.toNat := by
  intro l hl
  obtain ⟨b, _, rfl⟩ := List.mem_map.mp hl
  exact b.2.2.1

theorem pos_of_stream {w : Wire n} {b : UInt8} {i : ℕ} (h : w.stream[i]? = some b) :
    0 < n.toNat := by
  have hlt := (List.getElem?_eq_some_iff.mp h).1
  rw [Wire.stream, length_flatten (frames_length w)] at hlt
  exact Nat.pos_of_ne_zero fun h0 => by simp [h0] at hlt

/-- A byte inside a block is held and nothing happens; the last one makes it an event. -/
theorem Ready.onBytes {b : UInt8} (h : Ready s)
    (hb : s.device.stream[s.device.delivered]? = some b) :
    ((s.device.delivered + 1) % n.toNat ≠ 0 ∧ s.device.completes = none ∧
        (s.io.onBytes nonce [b]).2 = { s.io with starParser := s.io.starParser.push [b] }) ∨
      ∃ x, (s.device.delivered + 1) % n.toNat = 0 ∧ s.device.completes = some x ∧
        (s.io.onBytes nonce [b]).2 =
        (({ s.io with starParser := { s.io.starParser with buffer := [] } } :
          IoState).onStarEvent (.asbStatus x.2.1 (blockCounter x.2.1))).2 := by
  have hn := pos_of_stream hb
  have hL := frames_length s.device
  have hfirst : (s.io.starParser.buffer ++ [b])[0]? ≠ some 0x1B := by
    rw [h.held]
    intro h0
    obtain ⟨l, hl, h1⟩ := held_snoc_head hn hL hb h0
    obtain ⟨x, _, rfl⟩ := List.mem_map.mp hl
    exact x.2.2.2 h1
  have hlen : (s.io.starParser.buffer ++ [b]).length = s.device.delivered % n.toNat + 1 := by
    rw [h.held]
    exact held_snoc_length hb
  have hsn : s.io.starParser.asbBlockBytes.toNat = n.toNat := by rw [h.length]
  have hlt := Nat.mod_lt s.device.delivered hn
  simp only [IoState.onBytes, h.mode, if_true, IoState.onStarBytes, Wire.completes]
  by_cases hm : (s.device.delivered + 1) % n.toNat = 0
  · have hframe := held_snoc_frame hn hL hb hm
    rw [Wire.frames, List.getElem?_map] at hframe
    obtain ⟨x, hx, hx'⟩ := Option.map_eq_some_iff.mp hframe
    have hbuf : s.io.starParser.buffer ++ [b] = x.2.1 := by rw [h.held, hx', Wire.frames]
    have hfeed := StarParser.feed_block hfirst (by rw [hbuf, hsn, x.2.2.1]) (by omega)
    exact .inr ⟨x, hm, by rw [if_pos hm, hx], by rw [hfeed, hbuf]; rfl⟩
  · have hshort : s.device.delivered % n.toNat + 1 < n.toNat := by
      have hmod := Nat.add_mod s.device.delivered 1 n.toNat
      by_contra hge
      have : s.device.delivered % n.toNat + 1 = n.toNat := by omega
      exact hm (by rw [← Nat.mod_add_mod, this, Nat.mod_self])
    have hfeed := StarParser.feed_held hfirst (by rw [hlen, hsn]; exact hshort)
    exact .inl ⟨hm, if_neg hm, by rw [hfeed]; rfl⟩

theorem Ready.read {b : UInt8} (h : Ready s)
    (hb : s.device.stream[s.device.delivered]? = some b) : Ready (read nonce s b) := by
  obtain ⟨counter, signalled, hf⟩ := s.io.onBytes_star_frame nonce [b] h.mode
  have hparser : (s.io.onBytes nonce [b]).2.starParser.buffer =
      Lib.Frames.held n.toNat s.device.frames (s.device.delivered + 1) := by
    rcases @Ready.onBytes n nonce s b h hb with ⟨hm, -, ho⟩ | ⟨x, hm, -, ho⟩
    · rw [ho, held_succ hb hm, ← h.held]
      rfl
    · rw [ho, held_boundary hm, IoState.onStarEvent]
      split_ifs <;> rfl
  refine ⟨?_, ?_, hparser⟩
  · simp only [hf, h.mode]
  · rcases @Ready.onBytes n nonce s b h hb with ⟨-, -, ho⟩ | ⟨x, -, -, ho⟩
    · simp only [ho, StarParser.push, h.length]
    · simp only [ho, IoState.onStarEvent]
      split_ifs <;> exact h.length

theorem take_received {w : Wire n} {o : Owner} (h : o ∈ w.received) : o ∈ w.take.received :=
  List.mem_append_right _ h

/-- Only its own block signals the fence. -/
theorem Armed.read {part : Part} {b : UInt8} (h : Armed part s)
    (hb : s.device.stream[s.device.delivered]? = some b)
    (hown : ∀ x ∈ s.device.completes, wouldSignal s.io x.2 → x.1 = s.device.fence) :
    Armed part (read nonce s b) := by
  obtain ⟨counter, signalled, hf⟩ := s.io.onBytes_star_frame nonce [b] h.ready.mode
  refine ⟨h.ready.read hb, by simp only [hf, h.outstanding], h.owner, fun hsig => ?_⟩
  rcases @Ready.onBytes n nonce s b h.ready hb with ⟨-, -, ho⟩ | ⟨x, -, hx, ho⟩
  · exact take_received (h.signal (by simpa [ho] using hsig))
  · by_cases hw : wouldSignal s.io x.2
    · have hx' : x.1 = (s.task, part) := (hown x hx hw).trans h.owner
      show (s.task, part) ∈ s.device.take.received
      simp [Wire.take, hx, ← hx']
    · refine take_received (h.signal ?_)
      -- the block changes the counter at most
      simp only [ho, IoState.onStarEvent, Bool.and_eq_true, decide_eq_true_eq] at hsig
      split_ifs at hsig with h1 h2
      · exact hsig
      · exact absurd ⟨h2.1.1, h2.2.symm, h1⟩ hw
      · exact hsig

theorem within_read {b : UInt8} (hb : s.device.stream[s.device.delivered]? = some b) :
    Within (read nonce s b) := (List.getElem?_eq_some_iff.mp hb).1

/-- What changes besides: the link, the input of the printer, and the blocks it sends. -/
structure Change (n : UInt8) where
  linkDown : Bool
  stopping : Bool
  up : Bool
  input : List (Owner × UInt8)
  counter : ℕ
  sent : List (Owner × Status n)

abbrev Change.apply (d : Change n) (s : State (Wire n)) : State (Wire n) :=
  { s with
    io := { s.io with linkDown := d.linkDown, stopping := d.stopping }
    device := { s.device with
      up := d.up, input := d.input, counter := d.counter, blocks := s.device.blocks ++ d.sent } }

theorem frames_sent (d : Change n) :
    (d.apply s).device.frames = s.device.frames ++ d.sent.map fun b => b.2.1 := by
  simp [Wire.frames]

theorem within_change (d : Change n) (h : Within s) : Within (d.apply s) := by
  rw [Within, Wire.stream, frames_sent, List.flatten_append, List.length_append]
  exact Nat.le_add_right_of_le h

theorem Ready.change (d : Change n) (hw : Within s) (h : Ready s) : Ready (d.apply s) :=
  ⟨h.mode, h.length, by rw [frames_sent, held_append hw]; exact h.held⟩

theorem Armed.change {part : Part} (d : Change n) (hw : Within s) (h : Armed part s) :
    Armed part (d.apply s) :=
  ⟨h.ready.change d hw, h.outstanding, h.owner, h.signal⟩

/-- What an event of the printer can be. -/
theorem act_cases {interpret : Bytes → Option (Command × ℕ)} {e : Act n} {io : IoState}
    {w : Wire n} (h : (printer n nonce interpret).act e s.io s.device = some (io, w)) :
    (∃ b, e = .deliver ∧ s.device.stream[s.device.delivered]? = some b ∧
      ({ s with io := io, device := w } : State (Wire n)) = read nonce s b) ∨
    ∃ d : Change n, ({ s with io := io, device := w } : State (Wire n)) = d.apply s := by
  cases e with
  | execute status =>
    simp only [printer] at h
    split at h
    next command length owner _ rest _ _ =>
      refine .inr ?_
      cases command with
      | clear =>
        cases h
        exact ⟨⟨s.io.linkDown, s.io.stopping, s.device.up, s.device.input.drop (max length 1), 0, []⟩,
          by simp [Change.apply]⟩
      | other =>
        cases h
        exact ⟨⟨s.io.linkDown, s.io.stopping, s.device.up, s.device.input.drop (max length 1),
          s.device.counter, []⟩,
          by simp [Change.apply]⟩
      | etb =>
        simp only at h
        split_ifs at h
        cases h
        exact ⟨⟨s.io.linkDown, s.io.stopping, s.device.up, _, _, [(owner, status)]⟩, rfl⟩
    · cases h
  | deliver =>
    simp only [printer] at h
    split_ifs at h with hup
    obtain ⟨b, hb, he⟩ := Option.map_eq_some_iff.mp h
    cases he
    exact .inl ⟨b, rfl, hb, rfl⟩
  | disconnect =>
    cases h
    exact .inr ⟨⟨true, s.io.stopping, false, s.device.input, s.device.counter, []⟩,
      by simp [Change.apply, IoState.onDisconnected]⟩
  | hangUp =>
    cases h
    exact .inr ⟨⟨s.io.linkDown, s.io.stopping, false, s.device.input, s.device.counter, []⟩,
      by simp [Change.apply]⟩

end Read

/-! ### The stages of a job -/

/-- The block of the current task's fence has arrived. -/
def Confirmed (part : Part) (s : State (Wire n)) : Prop :=
  Ready s ∧ (s.task, part) ∈ s.device.received

/-- What the job may record when. -/
def allowed (c : Call) (s : State (Wire n)) : Prop :=
  match c with
  | .recordState _ .printConfirmed _ _ _ => (s.task, .printFence) ∈ s.device.received
  | .recordState _ .cutCommandProcessed _ _ _ => (s.task, .cut) ∈ s.device.received
  | _ => True

abbrev contract : Machine.Contract Worker Unit (State (Wire n)) where
  inv := Within
  rest _ _ := True
  allowed _ := allowed

section Outline
variable {nonce : Bytes} {interpret : Bytes → Option (Command × ℕ)}

/-- The world of the worker of such a session. -/
abbrev etbWorld {n : UInt8} (nonce : Bytes) (interpret : Bytes → Option (Command × ℕ)) :
    World Worker (State (Wire n)) :=
  world (printer n nonce interpret) (fun j : EtbJob n => j.1.runJob) (ownBlocks nonce interpret)
    contract

/-- What a read and every other change keep is stable, and quiet programs keep it. -/
theorem kept_of {P : State (Wire n) → Prop}
    (hr : ∀ s b, P s → s.device.stream[s.device.delivered]? = some b →
      (∀ x ∈ s.device.completes, wouldSignal s.io x.2 → x.1 = s.device.fence) → P (read nonce s b))
    (hd : ∀ s (d : Change n), Within s → P s → P (d.apply s)) :
    Kept (etbWorld nonce interpret) P := by
  have hstable : Stable (etbWorld nonce interpret) P := by
    refine stable_of (fun s e io w hw h hg hact => ?_) fun s hw h => ?_
    · rcases act_cases hact with ⟨b, rfl, hb, he⟩ | ⟨d, he⟩
      · rw [he]
        exact hr s b h hb hg
      · rw [he]
        exact hd s d hw h
    · simpa [Change.apply] using
        hd s ⟨s.io.linkDown, true, s.device.up, s.device.input, s.device.counter, []⟩ hw h
  refine ⟨hstable, fun hp => triple_quiet hp hstable (fun c s hq _ => ?_) fun s c a hq hw h => ?_⟩
  · cases c with
    | recordState id state => cases state <;> trivial
    | _ => trivial
  · cases c with
    | ensureConnected | armStarFence => exact hq.elim
    | write part data =>
      simpa [Change.apply, printer] using hd s ⟨s.io.linkDown, s.io.stopping, s.device.up,
        s.device.input ++ (a.accepted data).map fun b => ((s.task, part), b), s.device.counter, []⟩
        hw h
    | _ => exact h

theorem kept_ready : Kept (etbWorld nonce interpret) (Ready (n := n)) :=
  kept_of (fun _ _ h hb _ => h.read hb) fun _ d hw h => h.change d hw

theorem kept_armed {part : Part} : Kept (etbWorld nonce interpret) (Armed (n := n) part) :=
  kept_of (fun _ _ h hb hown => h.read hb hown) fun _ d hw h => h.change d hw

theorem kept_confirmed {part : Part} : Kept (etbWorld nonce interpret) (Confirmed (n := n) part) :=
  kept_of (fun _ _ h hb _ => ⟨h.1.read hb, take_received h.2⟩)
    fun _ d hw h => ⟨h.1.change d hw, h.2⟩

/-- From `beginJobIo` to Star mode: the parser is empty, and received bytes do not reach it. -/
def Begun (s : State (Wire n)) : Prop :=
  s.io.starMode = false ∧ s.io.starParser.buffer = []

theorem kept_begun : Kept (etbWorld nonce interpret) (Begun (n := n)) := by
  refine kept_of (fun s b h _ _ => ?_) fun _ _ _ h => h
  obtain ⟨_, _, _, _, _, _, _, hf⟩ := s.io.onBytes_escpos_frame nonce [b] h.1
  exact ⟨by simp only [hf, h.1], by simp only [hf, h.2]⟩

/-- A confirmation is recorded and published. -/
theorem triple_confirm {part : Part} {id : Bytes} {state : JobState} {c : ConfidenceLevel}
    {r : FailureReason} {e : JobEvidence}
    (h : ∀ s : State (Wire n), Confirmed part s → allowed (.recordState id state c r e) s) :
    Triple (etbWorld nonce interpret) (Confirmed (n := n) part) (advance id state c r e)
      fun _ => Ready := by
  refine Triple.bind (R := fun _ => Confirmed part) ?_ fun _ => ?_
  · refine triple_perform kept_confirmed.1 h (fun _ => kept_confirmed.1)
      fun s ch a io _ _ hs he => ?_
    cases ch <;> cases he
    exact hs
  · have hemit : (perform (E := Worker) (.emit id ⟨state, c, r.published⟩)).Only Quiet :=
      Only.perform trivial
    exact (kept_confirmed.2 hemit).conseq (fun _ h => h) fun _ _ h => h.1

theorem armed_armed {s : State (Wire n)} {part : Part} {completion : CompletionMechanism}
    (h : Ready s) : Armed part { s with
      io := (s.io.armStarFence completion).2
      device := (printer n nonce interpret).hear s.task (.armStarFence part completion)
        (s.io.armStarFence completion).1 s.io s.device } := by
  obtain ⟨hm, hl, hh⟩ := h
  constructor
  · constructor <;> simp only [IoState.armStarFence] <;> split_ifs <;> assumption
  · simp only [IoState.armStarFence]
    split_ifs <;> rfl
  · rfl
  · simp only [IoState.armStarFence]
    split_ifs <;> exact fun hs => by cases hs

theorem outline (j : EtbJob n) : StarOutline (etbWorld nonce interpret) j.1
    (fun _ : State (Wire n) => True) Begun Ready Armed Confirmed where
  idle := kept_of (fun _ _ _ _ _ => trivial) fun _ _ _ _ => trivial
  ready := kept_ready
  armed _ := kept_armed
  connect := triple_perform (fun _ _ _ _ => trivial) (fun _ _ => trivial)
    (fun _ _ _ _ _ => trivial) fun _ _ _ _ _ _ _ _ => trivial
  begun := by
    refine triple_perform (fun _ _ _ _ => trivial) (fun _ _ => trivial) (fun _ => kept_begun.1)
      fun s ch a io _ _ _ h => ?_
    cases ch <;> cases h
    exact ⟨rfl, rfl⟩
  enter := by
    refine triple_perform kept_begun.1 (fun _ _ => trivial) (fun _ => kept_ready.1)
      fun s ch a io _ hg hb h => ?_
    cases ch <;> cases h
    exact ⟨rfl, j.2.2, hb.2.trans (held_boundary hg).symm⟩
  zero _ := by
    refine triple_perform kept_ready.1 (fun _ _ => trivial) (fun _ => kept_ready.1)
      fun s ch a io _ _ hr h => ?_
    cases ch <;> cases h
    exact ⟨hr.mode, hr.length, hr.held⟩
  arm part := by
    refine triple_perform kept_ready.1 (fun _ _ => trivial) (fun _ => kept_armed.1)
      fun s ch a io _ _ hr h => ?_
    cases ch with
    | go =>
      obtain ⟨rfl, rfl⟩ := Prod.mk.inj (Option.some.inj h)
      exact armed_armed hr
    | _ => cases h
  await part := by
    refine triple_perform kept_armed.1 (fun _ _ => trivial) (fun ack => ?_)
      fun s ch a io _ _ ha h => ?_
    · split_ifs
      · exact kept_confirmed.1
      · exact kept_ready.1
    cases ch with
    | go =>
      obtain ⟨rfl, rfl⟩ := Prod.mk.inj (Option.some.inj h)
      have hr := ha.ready
      split_ifs with hack
      · exact ⟨⟨hr.mode, hr.length, hr.held⟩,
          ha.signal (IoState.waitOutcome_eq_signalled.mp hack)⟩
      · exact ⟨hr.mode, hr.length, hr.held⟩
    | _ => cases h
  printConfirmed _ _ := triple_confirm fun _ h => h.2
  cutConfirmed _ _ := triple_confirm fun _ h => h.2
  disarmed _ _ _ := trivial
  ends _ _ := trivial

theorem within_serve {c : Call} {a : c.Answer} {s : State (Wire n)} {io : IoState}
    (hs : Within s) : Within { s with
      io := io, device := (printer n nonce interpret).hear s.task c a s.io s.device } := by
  cases c with
  | ensureConnected =>
    cases a with
    | false => exact hs
    | true =>
      simp only [Within, printer]
      split_ifs
      · exact hs
      · exact Nat.zero_le _
  | write | armStarFence => exact hs
  | _ => exact hs

theorem guarded : Machine.Guarded (etbSession n nonce interpret) (ownBlocks nonce interpret)
    contract where
  serve _ c ch s a s' hs _ _ h := by
    obtain ⟨⟨b, io⟩, hb, he⟩ := Option.map_eq_some_iff.mp h
    cases he
    exact within_serve hs
  event e s s' hs _ h := by
    cases e with
    | device e =>
      obtain ⟨⟨io, w⟩, ha, rfl⟩ := Option.map_eq_some_iff.mp h
      rcases act_cases ha with ⟨b, -, hb, he⟩ | ⟨d, he⟩
      · exact he ▸ within_read hb
      · exact he ▸ within_change d hs
    | stop =>
      cases h
      exact hs
  start _ _ _ _ _ hs h := by
    cases h
    exact hs
  restart := nofun
  program _ t s p s' _ _ h := by
    cases h
    exact (outline t).triple_runJob (not_escpos_of_star (.inl t.2.1)) _ trivial

end Outline

/-- **Attribution of `ETB` blocks.** In a run in which, while a fence is outstanding, no block of
another `ETB` that carries the expected counter arrives, and every job enters Star mode between
blocks, a job records `PrintConfirmed` only after the block of its own print fence has arrived, and
`CutCommandProcessed` only after that of its own cut fence. -/
theorem confirmed_by_own_block (n : UInt8) (nonce : Bytes)
    (interpret : Bytes → Option (Command × ℕ)) {cfg : Config Worker Unit (State (Wire n))}
    (h : (etbSession n nonce interpret).Reach (ownBlocks nonce interpret) { device := {} } cfg)
    {id : Bytes} {state : JobState} {c : ConfidenceLevel} {r : FailureReason} {e : JobEvidence}
    {k : Unit → Prog Worker Unit} (hc : cfg.prog () = .call (.recordState id state c r e : Call) k) :
    (state = .printConfirmed → (cfg.state.task, .printFence) ∈ cfg.state.device.received) ∧
      (state = .cutCommandProcessed → (cfg.state.task, .cut) ∈ cfg.state.device.received) := by
  have ha : allowed _ cfg.state :=
    guarded.allowed (Nat.zero_le _) (fun _ _ _ => trivial) h hc
  exact ⟨by rintro rfl; exact ha, by rintro rfl; exact ha⟩

/-! ### Two runs of a receipt -/

section Receipt

instance {nonce : Bytes} {interpret : Bytes → Option (Command × ℕ)} (i : Unit) (c : Call)
    (ch : (etbSession n nonce interpret).Choice) (s : State (Wire n)) :
    Decidable ((ownBlocks nonce interpret).serve i c ch s) :=
  match c with
  | .io (.enterStarMode _) => inferInstanceAs (Decidable (s.device.delivered % n.toNat = 0))
  | .io .beginJobIo | .io (.setCustomMethod _) | .io (.expectRealtime _ _)
  | .io (.expectQueued _) | .io .clearRealtime | .io .dropRealtimeAnswers
  | .io (.armCustomFence _) | .io .zeroStarCounter | .ensureConnected | .armStarFence _ _
  | .write _ _ | .await _ _ | .awaitRealtime _ _ | .acquireTokens | .setTokens _ _
  | .recordTokens _ _ | .registerTokens _ _ | .releaseTokens _ | .recordState _ _ _ _ _
  | .emit _ _ | .finish _ _ | .uncaught => .isTrue trivial

instance {nonce : Bytes} {interpret : Bytes → Option (Command × ℕ)}
    (r : (etbSession n nonce interpret).Restart) (s : State (Wire n)) :
    Decidable ((ownBlocks nonce interpret).restart r s) := .isTrue trivial

instance (s : IoState) (status : Status n) : Decidable (wouldSignal s status) :=
  inferInstanceAs (Decidable (_ ∧ _))

instance {nonce : Bytes} {interpret : Bytes → Option (Command × ℕ)}
    (e : (etbSession n nonce interpret).Event) (s : State (Wire n)) :
    Decidable ((ownBlocks nonce interpret).event e s) :=
  match (e : Event (Act n)) with
  | .device .deliver => inferInstanceAs (Decidable (∀ b ∈ s.device.completes, _ → _))
  | .device (.execute _) | .device .disconnect | .device .hangUp | .stop => .isTrue trivial

/-- The commands of a Star printer, as far as plain text needs them. -/
def starCommand : Bytes → Option (Command × ℕ)
  | 0x17 :: _ => some (.etb, 1)
  | 0x1B :: 0x1E :: 0x45 :: _ => some (.clear, 4)
  | _ :: rest => some (.other, 1 + (rest.takeWhile fun b => b ≠ 0x17 && b ≠ 0x1B).length)
  | [] => none

/-- A receipt of two letters. -/
def receipt : EtbJob 8 where
  val :=
    { id := str "job", key := [], payload := .raw (str "hi"), options := {}, attempt := 1
      banner := false
      profile := { language := .starLine, completion := .starEtb,
                   star := { exclusiveSingleSession := true } }
      widthDots := 576, codecs := Encoder.plainCodecs, completionMethod := fun _ => none }
  property := ⟨rfl, rfl⟩

/-- The block with counter 1. -/
def firstBlock : Status 8 := ⟨[0x23, 0x86, 0, 0, 0, 0, 0, 0x02], rfl, by decide⟩

abbrev Moves : Type := List (etbSession 8 [] starCommand).Move

/-- The receipt up to the wait for its print fence. -/
def sendReceipt : Moves :=
  let accept : Choice := .wrote ⟨true, 0⟩
  .start () receipt ::
    ([.connected true, .go, .go, accept, .go, .go, .go, accept, .go, accept, .go, .go] :
      List Choice).map fun ch => .serve () ch

/-- The printer executes all of a receipt. -/
def executeReceipt : Moves := List.replicate 5 (.event (.device (.execute firstBlock)))

/-- A block arrives, and the wait returns. -/
def deliverBlock : Moves := List.replicate 8 (.event (.device .deliver)) ++ [.serve () .go]

theorem block_receipt_confirmed : ∃ cfg : Config Worker Unit (State (Wire 8)),
    (etbSession 8 [] starCommand).Reach (ownBlocks [] starCommand) { device := {} } cfg ∧
      (cfg.state.task, .printFence) ∈ cfg.state.device.received := by
  have hp : (Machine.pending (ownBlocks (n := 8) [] starCommand)
      (sendReceipt ++ executeReceipt ++ deliverBlock) { device := {} } ()).map Prod.fst =
        some (.recordState (str "job") .printConfirmed .printConfirmed .none {}) := by rfl
  obtain ⟨cfg, c, k, hr, hk, rfl⟩ := Machine.reach_of_pending hp
  exact ⟨cfg, hr, (confirmed_by_own_block 8 [] starCommand hr hk).1 rfl⟩

/-- The fence of the first receipt times out before its block arrives; the block then confirms the
second receipt, of which the printer has executed nothing. -/
theorem late_block_confirms : ∃ (cfg : Config Worker Unit (State (Wire 8))) (id : Bytes)
    (c : ConfidenceLevel) (r : FailureReason) (e : JobEvidence) (k : Unit → Prog Worker Unit),
    (etbSession 8 [] starCommand).Reach (.none _) { device := {} } cfg ∧
      cfg.prog () = .call (.recordState id .printConfirmed c r e : Call) k ∧
        (cfg.state.task, .printFence) ∉ cfg.state.device.received := by
  have hp : (Machine.pending (M := etbSession 8 [] starCommand) (.none _)
      (sendReceipt ++ List.replicate 4 (.serve () .go) ++ executeReceipt ++
        sendReceipt ++ deliverBlock) { device := {} } ()).map
        (fun x => (x.1, decide ((x.2.task, .printFence) ∈ x.2.device.received))) =
      some (.recordState (str "job") .printConfirmed .printConfirmed .none {}, false) := by rfl
  obtain ⟨cfg, c, k, hr, hk, hf⟩ := Machine.reach_of_pending hp
  obtain ⟨rfl, hn⟩ := Prod.mk.inj hf
  exact ⟨cfg, _, _, _, _, k, hr, hk, of_decide_eq_false hn⟩

end Receipt

end PrinterDriver.Engine.StarEtb
