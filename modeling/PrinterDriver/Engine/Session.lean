import PrinterDriver.Lib.Threads
import PrinterDriver.Engine.RunJob

/-! # A worker and its printer

One runtime's worker runs its programs one after another; between any two of its calls the
transport's callbacks run. A `Device` is the printer and the wire: it hears every call of the
worker, and its events act on the state under the io lock. A wait is served at any moment with what
it returns then, so every timeout is possible. -/

namespace PrinterDriver.Engine.Session

open PrinterDriver.Lib.Programs PrinterDriver.Lib.Threads PrinterDriver.Core.Types
  PrinterDriver.Engine.Io PrinterDriver.Engine.Ops PrinterDriver.Engine.RunJob

/-- What the environment chooses when a call is served. -/
inductive Choice where
  | go
  | connected (up : Bool)
  | wrote (result : TransportResult)
  | leased (pair : MarkerPair)
  deriving DecidableEq, Repr

/-- A call served on the state under the io lock. -/
def serveIo : (c : Call) → Choice → IoState → Option (c.Answer × IoState)
  | .ensureConnected, .connected up, s => some (up, s)
  | .io op, .go, s => some ((), op.apply s)
  | .armStarFence _ completion, .go, s => some (s.armStarFence completion)
  | .write _ _, .wrote result, s => some (result, s)
  | .await _ w, .go, s => some (w.apply s)
  | .awaitRealtime _ count, .go, s => some (s.awaitRealtime count, s)
  | .acquireTokens, .leased pair, s => some (pair, s)
  | .setTokens _ _, .go, s | .recordTokens _ _, .go, s | .registerTokens _ _, .go, s
  | .releaseTokens _, .go, s | .recordState _ _ _ _ _, .go, s | .emit _ _, .go, s
  | .finish _ _, .go, s => some ((), s)
  | _, _, _ => none

/-- Of the calls only the arming of a fence moves the sequence. -/
theorem serveIo_starSequence {c : Call} {ch : Choice} {a : c.Answer} {s io : IoState}
    (h : serveIo c ch s = some (a, io))
    (hc : ∀ part completion, c ≠ .armStarFence part completion) : io.starSequence = s.starSequence := by
  cases c with
  | armStarFence part completion => exact absurd rfl (hc part completion)
  | io op =>
    cases ch <;> cases h
    cases op <;> rfl
  | await part w =>
    cases ch with
    | go =>
      obtain ⟨rfl, rfl⟩ := Prod.mk.inj (Option.some.inj h)
      cases w <;> simp only [IoState.awaitCustomToken, IoState.awaitStarFence,
        IoState.awaitQueued]
      split_ifs <;> rfl
    | _ => cases h
  | _ => cases ch <;> cases h <;> rfl

/-- The printer and the wire. -/
structure Device (δ : Type) where
  /-- What becomes of it with a call of the `n`-th task, made in the given io state. -/
  hear : ℕ → (c : Call) → c.Answer → IoState → δ → δ
  Event : Type
  act : Event → IoState → δ → Option (IoState × δ)

structure State (δ : Type) where
  io : IoState := {}
  /-- The number of programs begun. -/
  task : ℕ := 0
  device : δ

inductive Event (ε : Type) where
  | device (e : ε)
  | stop

/-- The session of a device and the programs of its worker. -/
def session {δ : Type} (D : Device δ) {τ : Type} (program : τ → Prog Worker Unit) :
    Machine Worker Unit (State δ) where
  Choice := Choice
  Event := Event D.Event
  Task := τ
  Restart := Empty
  serve _ c ch s :=
    (serveIo c ch s.io).map fun r =>
      (r.1, { s with io := r.2, device := D.hear s.task c r.1 s.io s.device })
  event
    | .device e, s => (D.act e s.io s.device).map fun r => { s with io := r.1, device := r.2 }
    | .stop, s => some { s with io := { s.io with stopping := true } }
  start _ t s := some (program t, { s with task := s.task + 1 })
  restart := nofun

section Rules
variable {δ : Type} {D : Device δ} {τ : Type} {program : τ → Prog Worker Unit} {G : (session D program).Guard}
  {C : Machine.Contract Worker Unit (State δ)}

/-- The world of the only worker. -/
abbrev world {δ : Type} (D : Device δ) {τ : Type} (program : τ → Prog Worker Unit)
    (G : (session D program).Guard) (C : Machine.Contract Worker Unit (State δ)) :
    World Worker (State δ) := (session D program).world G C ()

/-- What the device's events and a stop keep is stable. -/
theorem stable_of {P : State δ → Prop}
    (hd : ∀ s e io w, C.inv s → P s → G.event (.device e) s → D.act e s.io s.device = some (io, w) →
      P { s with io := io, device := w })
    (hs : ∀ s, C.inv s → P s → P { s with io := { s.io with stopping := true } }) :
    Stable (world D program G C) P := by
  intro s s' hP ho
  cases ho with
  | event e hi hg h =>
    cases e with
    | device e =>
      obtain ⟨⟨io, w⟩, ha, rfl⟩ := Option.map_eq_some_iff.mp h
      exact hd s e io w hi hP hg ha
    | stop =>
      cases h
      exact hs s hi hP
  | serve j hj => exact absurd rfl hj
  | start j hj => exact absurd rfl hj

/-- The rule for one call. -/
theorem triple_perform {P : State δ → Prop} {c : Call} {Q : c.Answer → State δ → Prop}
    (hP : Stable (world D program G C) P) (hc : ∀ s, P s → C.allowed () c s)
    (hQ : ∀ a, Stable (world D program G C) (Q a))
    (h : ∀ s ch a io, C.inv s → G.serve () c ch s → P s → serveIo c ch s.io = some (a, io) →
      Q a { s with io := io, device := D.hear s.task c a s.io s.device }) :
    Triple (world D program G C) P (Prog.perform (E := Worker) c) Q := by
  refine Triple.perform hP hc hQ fun s a s' hs ⟨hi, ch, hg, ha⟩ => ?_
  obtain ⟨⟨b, io⟩, hb, he⟩ := Option.map_eq_some_iff.mp ha
  cases he
  exact h s ch b io hi hg hs hb

/-- What every call of a program keeps, the program keeps. -/
theorem triple_only {α : Type} {P : State δ → Prop} {p : Prog Worker α} {S : Call → Prop}
    (hp : p.Only S) (hP : Stable (world D program G C) P)
    (hc : ∀ c s, S c → P s → C.allowed () c s)
    (h : ∀ s c ch a io, S c → C.inv s → G.serve () c ch s → P s →
      serveIo c ch s.io = some (a, io) →
        P { s with io := io, device := D.hear s.task c a s.io s.device }) :
    Triple (world D program G C) P p fun _ => P := by
  refine Triple.only hp hP hc fun c s a s' hS hs ⟨hi, ch, hg, ha⟩ => ?_
  obtain ⟨⟨b, io⟩, hb, he⟩ := Option.map_eq_some_iff.mp ha
  cases he
  exact h s c ch b io hS hi hg hs hb

end Rules

end PrinterDriver.Engine.Session
