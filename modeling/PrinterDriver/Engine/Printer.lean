import PrinterDriver.Engine.EscposRuns

/-! # A printer that answers in order

The printer executes its input in order and answers each `DLE EOT` and each `GS r 1` at most once,
with one byte; between its answers it may send other bytes. The bytes of a connection arrive in
order, with arbitrary delay, and a new connection starts with none under way. -/

namespace PrinterDriver.Engine.Printer

open PrinterDriver.Lib.Programs PrinterDriver.Lib.Threads PrinterDriver.Core.Types
  PrinterDriver.Core.Profile PrinterDriver.Core.EscposParser PrinterDriver.Engine.Io PrinterDriver.Engine.Ops
  PrinterDriver.Engine.RunJob PrinterDriver.Engine.Session PrinterDriver.Engine.QuietCalls

open ResponseParser

/-- The commands that are answered. -/
inductive Request where
  | dleEot (kind : DleEotKind)
  | gsR1
  deriving DecidableEq, Repr

/-- Whose a byte on the wire is: the task and the part. -/
abbrev Owner : Type := ℕ × Part

/-- An answer: to which request, and whose that was. -/
abbrev Origin : Type := Owner × Request

structure Wire where
  /-- Bytes that the transport accepted and the printer has not executed. -/
  input : List (Owner × UInt8) := []
  up : Bool := false
  /-- Bytes on their way to the host, each with its origin if it is an answer. -/
  transit : List (Option Origin × UInt8) := []
  /-- The answers that have arrived, last first. -/
  arrived : List (Origin × UInt8) := []
  /-- The expectation or fence that is waited for. -/
  asking : Option Owner := none

inductive Act where
  | execute (answer : Option UInt8)
  | send (byte : UInt8)
  | deliver
  | disconnect
  | hangUp
  /-- A registered matcher sees the reads as the transport cuts them; what it files is arbitrary. -/
  | matcher (rx : Bytes) (tokens : List Bytes)

/-- The commands that the printer's input splits into. -/
abbrev Interpreter : Type := Bytes → Option (Option Request × ℕ)

/-- The commands of plain text. -/
def escposCommand : Interpreter
  | 0x10 :: 0x04 :: 0x01 :: _ => some (some (.dleEot .printerStatus), 3)
  | 0x10 :: 0x04 :: 0x02 :: _ => some (some (.dleEot .offlineCause), 3)
  | 0x10 :: 0x04 :: 0x03 :: _ => some (some (.dleEot .errorCause), 3)
  | 0x10 :: 0x04 :: 0x04 :: _ => some (some (.dleEot .paperSensor), 3)
  | 0x1D :: 0x72 :: 0x01 :: _ => some (some .gsR1, 3)
  | _ :: rest => some (none, 1 + (rest.takeWhile fun b => b ≠ 0x10 && b ≠ 0x1D).length)
  | [] => none

/-- The ghost of an expectation: set when something is asked, gone when its wait is over. -/
def Wire.hear (w : Wire) (task : ℕ) : Call → Wire
  | .io (.expectRealtime part _) | .io (.expectQueued part) | .io (.armCustomFence part) =>
    { w with asking := some (task, part) }
  | .io .beginJobIo | .await _ _ | .awaitRealtime _ _ => { w with asking := none }
  | _ => w

/-- One byte has arrived. -/
def Wire.take (w : Wire) (byte : Option Origin × UInt8) (rest : List (Option Origin × UInt8)) : Wire :=
  { w with transit := rest, arrived := (byte.1.map fun o => (o, byte.2)).toList ++ w.arrived }

def printer (nonce : Bytes) (interpret : Interpreter) : Device Wire where
  hear task c a _ w :=
    match c, a with
    | .ensureConnected, true => if w.up then w else { w with up := true, transit := [] }
    | .write part data, result =>
      { w with input := w.input ++ (result.accepted data).map fun b => ((task, part), b) }
    | c, _ => w.hear task c
  Event := Act
  act
    | .execute answer, s, w =>
      match interpret (w.input.map Prod.snd), w.input with
      | some (request, length), (owner, _) :: _ =>
        some (s, { w with
          input := w.input.drop (max length 1)
          transit := w.transit ++
            match request, answer with
            | some r, some b => [(some (owner, r), b)]
            | _, _ => [] })
      | _, _ => none
    | .send b, s, w => some (s, { w with transit := w.transit ++ [(none, b)] })
    | .deliver, s, w =>
      match w.up, w.transit with
      | true, byte :: rest => some ((s.onBytes nonce [byte.2]).2, w.take byte rest)
      | _, _ => none
    | .disconnect, s, w => some (s.onDisconnected, { w with up := false })
    | .hangUp, s, w => some (s, { w with up := false })
    | .matcher rx tokens, s, w => some ({ s with customRx := rx, customTokens := tokens }, w)

/-- What the worker is given to do. -/
inductive Task (J : JobRun → Prop) where
  | job (j : JobRun) (h : J j)
  | refresh (profile : CapabilityProfile)

def Task.program {J : JobRun → Prop} : Task J → Prog Worker Unit
  | .job j _ => j.runJob
  | .refresh profile => refreshStatus profile

section Events
variable {nonce : Bytes} {interpret : Interpreter} {s : State Wire}

/-- A byte has been read. -/
abbrev read (nonce : Bytes) (s : State Wire) (byte : Option Origin × UInt8)
    (rest : List (Option Origin × UInt8)) : State Wire :=
  { s with io := (s.io.onBytes nonce [byte.2]).2, device := s.device.take byte rest }

/-- What changes besides. -/
structure Change where
  linkDown : Bool
  stopping : Bool
  customRx : Bytes
  customTokens : List Bytes
  input : List (Owner × UInt8)
  up : Bool
  transit : List (Option Origin × UInt8)

abbrev Change.apply (d : Change) (s : State Wire) : State Wire :=
  { s with
    io := { s.io with
      linkDown := d.linkDown, stopping := d.stopping
      customRx := d.customRx, customTokens := d.customTokens }
    device := { s.device with input := d.input, up := d.up, transit := d.transit } }

/-- Nothing changes. -/
def Change.none (s : State Wire) : Change :=
  ⟨s.io.linkDown, s.io.stopping, s.io.customRx, s.io.customTokens, s.device.input, s.device.up,
    s.device.transit⟩

theorem act_cases {e : Act} {io : IoState} {w : Wire}
    (h : (printer nonce interpret).act e s.io s.device = some (io, w)) :
    (∃ byte rest, e = .deliver ∧ s.device.transit = byte :: rest ∧
      ({ s with io := io, device := w } : State Wire) = read nonce s byte rest) ∨
    ∃ d : Change, ({ s with io := io, device := w } : State Wire) = d.apply s := by
  cases e with
  | execute answer =>
    simp only [printer] at h
    split at h
    · cases h
      exact .inr ⟨{ Change.none s with input := _, transit := _ }, rfl⟩
    · cases h
  | deliver =>
    simp only [printer] at h
    split at h
    next byte rest _ ht =>
      cases h
      exact .inl ⟨byte, rest, rfl, ht, rfl⟩
    · cases h
  | send b =>
    cases h
    exact .inr ⟨{ Change.none s with transit := _ }, rfl⟩
  | disconnect =>
    cases h
    exact .inr ⟨{ Change.none s with linkDown := true, up := false }, rfl⟩
  | hangUp =>
    cases h
    exact .inr ⟨{ Change.none s with up := false }, rfl⟩
  | matcher rx tokens =>
    cases h
    exact .inr ⟨{ Change.none s with customRx := rx, customTokens := tokens }, rfl⟩

/-- What a local call changes. -/
theorem hear_local {c : Call} {a : c.Answer} (hc : Local c) :
    ∃ d : Change, ({ s with
      device := (printer nonce interpret).hear s.task c a s.io s.device } : State Wire) =
        d.apply s := by
  cases c with
  | ensureConnected | armStarFence | io | await | awaitRealtime => exact hc.elim
  | write part data => exact ⟨{ Change.none s with input := _ }, rfl⟩
  | _ => exact ⟨Change.none s, rfl⟩

theorem take_arrived {w : Wire} {byte : Option Origin × UInt8}
    {rest : List (Option Origin × UInt8)} {a : Origin × UInt8} (h : a ∈ w.arrived) :
    a ∈ (w.take byte rest).arrived := List.mem_append_right _ h

theorem take_origin {w : Wire} {o : Origin} {b : UInt8} {rest : List (Option Origin × UInt8)} :
    (o, b) ∈ (w.take (some o, b) rest).arrived := by
  simp [Wire.take]

end Events

section Rules
variable {nonce : Bytes} {interpret : Interpreter} {τ : Type} {program : τ → Prog Worker Unit}
  {G : (session (printer nonce interpret) program).Guard}
  {C : Machine.Contract Worker Unit (State Wire)} {P : State Wire → Prop}

/-- What reads that meet the guard and every other change keep is stable. -/
theorem stable_of_reads
    (hr : ∀ s byte rest, C.inv s → P s → G.event (.device .deliver) s →
      s.device.transit = byte :: rest → P (read nonce s byte rest))
    (hd : ∀ s (d : Change), P s → P (d.apply s)) :
    Stable (world (printer nonce interpret) program G C) P := by
  refine stable_of (fun s e io w hi h hg hact => ?_) fun s _ h => ?_
  · rcases act_cases hact with ⟨byte, rest, rfl, ht, he⟩ | ⟨d, he⟩
    · rw [he]
      exact hr s byte rest hi h hg ht
    · rw [he]
      exact hd s d h
  · exact hd s { Change.none s with stopping := true } h

/-- The local calls that are allowed keep it as well. -/
theorem triple_allowed {α : Type} {p : Prog Worker α}
    (hP : Stable (world (printer nonce interpret) program G C) P)
    (hd : ∀ s (d : Change), P s → P (d.apply s))
    (hp : p.Only fun c => Local c ∧ ∀ s, P s → C.allowed () c s) :
    Triple (world (printer nonce interpret) program G C) P p fun _ => P :=
  triple_local hp hP fun s c a hc _ h => by
    obtain ⟨d, he⟩ := hear_local (s := s) (a := a) hc
    rw [he]
    exact hd s d h

end Rules

end PrinterDriver.Engine.Printer
