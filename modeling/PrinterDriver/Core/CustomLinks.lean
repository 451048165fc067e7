import Mathlib.Logic.Function.Basic
import Mathlib.Tactic.SplitIfs
import PrinterDriver.Core.Types
import PrinterDriver.Lib.Runs

/-! # Links that the embedder owns

A `CustomTransportLink` passes what the embedder receives to the transport that is bound to it, under its
mutex, while the owner of each transport connects, closes and destroys it. The two flags of a transport are
atomic, and the owner changes them without the mutex.

However the calls interleave, every connection ends in one way, with a notice of the embedder's drop or with
the embedder's `close`, and no transport is used once it is destroyed (`connections_end_once`). -/

namespace PrinterDriver.Core.CustomLinks

open PrinterDriver.Core.Types PrinterDriver.Lib.Runs

/-! ### Transports and the link -/

/-- Where the owner of a transport is. `closing` and `unbound` remember what `connected_` was, and whether
the transport is destroyed behind the call. -/
inductive Phase where
  | idle
  /-- `connect` saw that there is no connection. -/
  | connecting
  | bound
  | cleared
  | refused
  | accepted
  | closing (was destroyed : Bool)
  | unbound (was destroyed : Bool)
  | gone
  deriving DecidableEq, Repr

structure Transport where
  connected : Bool := false
  notified : Bool := false
  phase : Phase := .idle
  deriving DecidableEq, Repr

/-- Where the embedder's thread is that holds the mutex. -/
inductive Stage where
  | feeding (data : Bytes)
  | dropping (message : Bytes)
  /-- It took the connection away. -/
  | dropped (message : Bytes)
  | notifying (message : Bytes)
  deriving DecidableEq, Repr

/-- What callbacks are called; the connection that `connected_` stands for is `opened`. -/
inductive Event (ι : Type) where
  | opened (t : ι)
  | bytes (t : ι) (data : Bytes)
  | notice (t : ι) (message : Bytes)
  | closed (t : ι)
  deriving DecidableEq, Repr

structure Link (ι : Type) where
  current : Option ι := none
  holder : Option (ι × Stage) := none
  transports : ι → Transport := fun _ => {}
  log : List (Event ι) := []

/-- The calls of an owner, and of the embedder. -/
inductive Move (ι : Type) where
  | connect (t : ι)
  | close (t : ι) (destroyed : Bool)
  /-- The owner goes on; the answer is that of the embedder's `connect`. -/
  | advance (t : ι) (answer : Bool)
  | feedBytes (data : Bytes)
  | linkDropped (message : Bytes)
  /-- The holder of the mutex goes on. -/
  | deliver
  deriving DecidableEq, Repr

section
variable {ι : Type} [DecidableEq ι]

def Link.put (s : Link ι) (t : ι) (transport : Transport) : Link ι :=
  { s with transports := Function.update s.transports t transport }

def Link.bind (s : Link ι) (t : ι) : Link ι := { s with current := some t }

/-- Only the instance that owns the binding clears it. -/
def Link.unbind (s : Link ι) (t : ι) : Link ι :=
  { s with current := if s.current = some t then none else s.current }

def Link.say (s : Link ι) (e : Event ι) : Link ι := { s with log := s.log ++ [e] }

/-- The next step of an owner; the mutex must be free for a change of the binding. -/
def advance (s : Link ι) (t : ι) (answer : Bool) : Option (Link ι) :=
  let transport := s.transports t
  let mutex := s.holder.isNone
  match transport.phase with
  | .idle | .gone => none
  | .connecting => if mutex then some ((s.bind t).put t { transport with phase := .bound }) else none
  | .bound => some (s.put t { transport with notified := false, phase := .cleared })
  | .cleared => some (s.put t { transport with phase := if answer then .accepted else .refused })
  | .refused => if mutex then some ((s.unbind t).put t { transport with phase := .idle }) else none
  | .accepted =>
    some ((s.put t { transport with connected := true, phase := .idle }).say (.opened t))
  | .closing was destroyed =>
    if mutex then some ((s.unbind t).put t { transport with phase := .unbound was destroyed })
    else none
  | .unbound was destroyed =>
    let s' := s.put t { transport with phase := if destroyed then .gone else .idle }
    some (if was then s'.say (.closed t) else s')

/-- The next step of the thread that holds the mutex. -/
def deliver (s : Link ι) : Option (Link ι) :=
  match s.holder with
  | none => none
  | some (t, .feeding data) => some ({ s with holder := none }.say (.bytes t data))
  | some (t, .dropping message) =>
    let transport := s.transports t
    if transport.connected then
      some ({ s with holder := some (t, .dropped message) }.put t { transport with connected := false })
    else some { s with holder := none }
  | some (t, .dropped message) =>
    let transport := s.transports t
    if transport.notified then some { s with holder := none }
    else some ({ s with holder := some (t, .notifying message) }.put t
      { transport with notified := true })
  | some (t, .notifying message) => some ({ s with holder := none }.say (.notice t message))

/-- The mutex is taken for the transport that is bound, if any is. -/
def take (s : Link ι) (stage : Stage) : Option (Link ι) :=
  if s.holder.isNone then some { s with holder := s.current.map fun t => (t, stage) } else none

def step : Move ι → Link ι → Option (Link ι)
  | .connect t, s =>
    let transport := s.transports t
    if transport.phase = .idle then
      some (if transport.connected then s else s.put t { transport with phase := .connecting })
    else none
  | .close t destroyed, s =>
    let transport := s.transports t
    if transport.phase = .idle then
      some (s.put t { transport with connected := false, phase := .closing transport.connected destroyed })
    else none
  | .advance t answer, s => advance s t answer
  | .feedBytes data, s => if data = [] then some s else take s (.feeding data)
  | .linkDropped message, s => take s (.dropping message)
  | .deliver, s => deliver s

/-! ### What is kept -/

/-- The connection is taken away, and its notice is not called yet. -/
def Stage.tells : Stage → Bool
  | .dropped _ | .notifying _ => true
  | .feeding _ | .dropping _ => false

/-- The holder has taken the connection of a transport away and has not told of it yet. -/
def Link.telling (s : Link ι) (t : ι) : Bool :=
  match s.holder with
  | some (t', stage) => stage.tells && decide (t' = t)
  | none => false

/-- The owner has taken the connection away and has not closed it yet. -/
def Phase.owes : Phase → Bool
  | .closing was _ | .unbound was _ => was
  | _ => false

/-- A connection of the transport is open, or its end is under way. -/
def Link.pending (s : Link ι) (t : ι) : ℕ :=
  (s.transports t).connected.toNat + (s.transports t).phase.owes.toNat + (s.telling t).toNat

/-- The owner is at rest, or needs the mutex next and has nothing to close. -/
def Phase.waits : Phase → Bool
  | .idle | .connecting | .closing false _ => true
  | _ => false

/-- No transport is bound any more behind its `unbind`. -/
def Phase.bindable : Phase → Bool
  | .unbound .. | .gone => false
  | _ => true

structure Safe (s : Link ι) : Prop where
  bound : ∀ t, s.current = some t → (s.transports t).phase.bindable = true
  held : ∀ t stage, s.holder = some (t, stage) → s.current = some t
  /-- The flag of the notice is down while there is a connection. -/
  fresh : ∀ t, (s.transports t).connected = true →
    (s.transports t).notified = false ∧ (s.transports t).phase = .idle
  clear : ∀ t, (s.transports t).phase = .cleared ∨ (s.transports t).phase = .accepted →
    (s.transports t).notified = false
  /-- While the drop of a connection is told, its owner waits for the mutex. -/
  telling : ∀ t, s.telling t = true →
    (s.transports t).connected = false ∧ (s.transports t).phase.waits = true
  unsaid : ∀ t message, s.holder = some (t, .dropped message) → (s.transports t).notified = false

/-- A connection of the transport has ended. -/
def Event.ends (t : ι) : Event ι → Bool
  | .notice t' _ | .closed t' => decide (t' = t)
  | .opened _ | .bytes .. => false

/-- The transport whose callbacks, or whose connection, the event is about. -/
def Event.transport : Event ι → ι
  | .opened t | .bytes t _ | .notice t _ | .closed t => t

def ended (t : ι) (log : List (Event ι)) : ℕ := log.countP (Event.ends t)

/-- What is called for a transport. -/
def told (t : ι) (log : List (Event ι)) : List (Event ι) := log.filter (decide <| ·.transport = t)

/-- Every connection is open, or its end is under way, or it has ended. -/
def Ends (s : Link ι) : Prop :=
  ∀ t, s.log.count (.opened t) = ended t s.log + s.pending t

section Lemmas
variable {s s' : Link ι} {t t' : ι} {tr : Transport}

@[simp] theorem put_current : (s.put t tr).current = s.current := rfl

@[simp] theorem put_holder : (s.put t tr).holder = s.holder := rfl

@[simp] theorem put_log : (s.put t tr).log = s.log := rfl

@[simp] theorem put_same : (s.put t tr).transports t = tr := Function.update_self ..

theorem put_ne (h : t' ≠ t) : (s.put t tr).transports t' = s.transports t' :=
  Function.update_of_ne h ..

@[simp] theorem put_telling : (s.put t tr).telling t' = s.telling t' := rfl

/-- A transport that changes alone. -/
theorem Safe.put (h : Safe s) (hbound : s.current = some t → tr.phase.bindable = true)
    (hfresh : tr.connected = true → tr.notified = false ∧ tr.phase = .idle)
    (hclear : tr.phase = .cleared ∨ tr.phase = .accepted → tr.notified = false)
    (htelling : s.telling t = true → tr.connected = false ∧ tr.phase.waits = true)
    (hunsaid : ∀ message, s.holder = some (t, .dropped message) → tr.notified = false) :
    Safe (s.put t tr) := by
  refine ⟨fun u hu => ?_, h.held, fun u hu => ?_, fun u hu => ?_, fun u hu => ?_,
    fun u message hu => ?_⟩
  all_goals
    by_cases heq : u = t
    · subst heq
      rw [put_same] at *
      first
        | exact hbound hu
        | exact hfresh hu
        | exact hclear hu
        | exact htelling hu
        | exact hunsaid message hu
    · rw [put_ne heq] at *
      first
        | exact h.bound u hu
        | exact h.fresh u hu
        | exact h.clear u hu
        | exact h.telling u hu
        | exact h.unsaid u message hu

theorem Safe.say (h : Safe s) (e : Event ι) : Safe (s.say e) :=
  ⟨h.bound, h.held, h.fresh, h.clear, h.telling, h.unsaid⟩

/-- The mutex is given back. -/
theorem Safe.free (h : Safe s) : Safe { s with holder := none } where
  bound := h.bound
  held t stage ht := absurd ht (by simp)
  fresh := h.fresh
  clear := h.clear
  telling t ht := absurd ht (by simp [Link.telling])
  unsaid t message ht := absurd ht (by simp)

/-- A change of the binding while nobody holds the mutex. -/
theorem Safe.rebind (h : Safe s) (hfree : s.holder = none) {current : Option ι}
    (hbound : ∀ t, current = some t → (s.transports t).phase.bindable = true) :
    Safe { s with current := current } where
  bound := hbound
  held t stage ht := by
    rw [hfree] at ht
    cases ht
  fresh := h.fresh
  clear := h.clear
  telling := h.telling
  unsaid := h.unsaid

theorem Safe.unbind (h : Safe s) (hfree : s.holder = none) (t : ι) : Safe (s.unbind t) := by
  refine h.rebind hfree fun u hu => ?_
  split_ifs at hu
  exact h.bound u hu

theorem unbind_ne : (s.unbind t).current ≠ some t := by
  unfold Link.unbind
  split_ifs with h
  · simp
  · exact h

theorem telling_of_free (h : s.holder = none) : s.telling t = false := by
  unfold Link.telling
  rw [h]

theorem Safe.not_telling (h : Safe s) (hwaits : (s.transports t).phase.waits = false) :
    s.telling t = false := by
  by_contra hne
  have hphase := (h.telling t (by simpa using hne)).2
  rw [hwaits] at hphase
  cases hphase

/-- The mutex is held for the transport that is bound. -/
theorem Safe.hold (h : Safe s) {stage : Stage} (hcurrent : s.current = some t)
    (htells : stage.tells = true →
      (s.transports t).connected = false ∧ (s.transports t).phase.waits = true)
    (hunsaid : ∀ message, stage = .dropped message → (s.transports t).notified = false) :
    Safe { s with holder := some (t, stage) } where
  bound := h.bound
  held u stage' hu := by
    obtain ⟨rfl, rfl⟩ : t = u ∧ stage = stage' := by simpa using hu
    exact hcurrent
  fresh := h.fresh
  clear := h.clear
  telling u hu := by
    obtain ⟨htells', rfl⟩ : stage.tells = true ∧ t = u := by simpa [Link.telling] using hu
    exact htells htells'
  unsaid u message hu := by
    obtain ⟨rfl, rfl⟩ : t = u ∧ stage = .dropped message := by simpa using hu
    exact hunsaid message rfl

/-- The mutex is taken. -/
theorem Safe.take (h : Safe s) {stage : Stage} (hstage : stage.tells = false)
    (hs : take s stage = some s') : Safe s' := by
  unfold CustomLinks.take at hs
  split_ifs at hs
  cases hs
  rcases hcurrent : s.current with _ | t
  · simpa [hcurrent] using h.free
  · have hhold : Safe { s with holder := some (t, stage) } := by
      refine h.hold hcurrent (fun ht => absurd ht (by simp [hstage])) fun message hm => ?_
      subst hm
      cases hstage
    simpa [hcurrent] using hhold

theorem Safe.advance (h : Safe s) {answer : Bool} (hs : advance s t answer = some s') : Safe s' := by
  have hbound := h.bound t
  have hclear := h.clear t
  have hfresh := h.fresh t
  have hquiet := h.not_telling (t := t)
  have hunsaid : s.telling t = false → ∀ message, s.holder ≠ some (t, .dropped message) := by
    intro hquiet' message hheld
    simp [Link.telling, hheld, Stage.tells] at hquiet'
  unfold CustomLinks.advance at hs
  rcases hphase : (s.transports t).phase with _ | _ | _ | _ | _ | _ | ⟨was, destroyed⟩ |
    ⟨was, destroyed⟩ | _
  all_goals simp only [hphase] at hs hbound hclear hquiet hfresh
  · cases hs
  · -- connecting
    split_ifs at hs with hfree
    cases hs
    have hholder : s.holder = none := by simpa using hfree
    have hbind : Safe (s.bind t) := by
      refine h.rebind hholder fun u hu => ?_
      obtain rfl : t = u := by simpa using hu
      rw [hphase]
      rfl
    refine hbind.put (fun _ => rfl) ?_ ?_ ?_ ?_
    · intro hconnected
      exact absurd (hfresh hconnected).2 (by simp)
    · simp
    · intro htelling
      exact absurd htelling (by simp [Link.telling, Link.bind, hholder])
    · intro message hheld
      exact absurd hheld (by simp [Link.bind, hholder])
  · -- bound
    cases hs
    have htelling : s.telling t = false := hquiet rfl
    refine h.put (fun _ => rfl) (fun hconnected => ?_) (fun _ => rfl) (fun ht => ?_) fun _ _ => rfl
    · exact absurd (hfresh hconnected).2 (by simp)
    · rw [htelling] at ht
      cases ht
  · -- cleared
    cases hs
    have htelling : s.telling t = false := hquiet rfl
    refine h.put (fun _ => ?_) (fun hconnected => ?_) (fun _ => hclear (by simp)) (fun ht => ?_)
      fun message hm => absurd hm (hunsaid htelling message)
    · dsimp only
      split_ifs <;> rfl
    · exact absurd (hfresh hconnected).2 (by simp)
    · rw [htelling] at ht
      cases ht
  · -- refused
    split_ifs at hs with hfree
    cases hs
    have hholder : s.holder = none := by simpa using hfree
    refine (h.unbind hholder t).put (fun _ => rfl) (fun hconnected => ?_) (by simp) (fun ht => ?_)
      fun message hm => ?_
    · exact absurd (hfresh hconnected).2 (by simp)
    · exact absurd ht (by simp [Link.telling, Link.unbind, hholder])
    · exact absurd hm (by simp [Link.unbind, hholder])
  · -- accepted
    cases hs
    have htelling : s.telling t = false := hquiet rfl
    have hput : Safe (s.put t { s.transports t with connected := true, phase := .idle }) := by
      refine h.put (fun _ => rfl) (fun _ => ⟨hclear (by simp), rfl⟩) (by simp) (fun ht => ?_)
        fun message hm => absurd hm (hunsaid htelling message)
      rw [htelling] at ht
      cases ht
    exact hput.say _
  · -- closing
    split_ifs at hs with hfree
    cases hs
    have hholder : s.holder = none := by simpa using hfree
    refine (h.unbind hholder t).put (fun hu => absurd hu unbind_ne) (fun hconnected => ?_) (by simp)
      (fun ht => ?_) fun message hm => ?_
    · exact absurd (hfresh hconnected).2 (by simp)
    · exact absurd ht (by simp [Link.telling, Link.unbind, hholder])
    · exact absurd hm (by simp [Link.unbind, hholder])
  · -- unbound
    have htelling : s.telling t = false := hquiet rfl
    have hput : Safe (s.put t { s.transports t with phase := if destroyed then .gone else .idle }) := by
      refine h.put (fun hu => ?_) (fun hconnected => ?_) (fun hcleared => ?_) (fun ht => ?_)
        fun message hm => absurd hm (hunsaid htelling message)
      · exact absurd (hbound hu) (by simp [Phase.bindable])
      · exact absurd (hfresh hconnected).2 (by simp)
      · rcases destroyed with _ | _ <;> simp at hcleared
      · rw [htelling] at ht
        cases ht
    rcases was with _ | _
    · cases hs
      exact hput
    · cases hs
      exact hput.say _
  · cases hs

theorem Safe.deliver (h : Safe s) (hs : deliver s = some s') : Safe s' := by
  unfold CustomLinks.deliver at hs
  rcases hholder : s.holder with _ | ⟨t, data | message | message | message⟩
  all_goals simp only [hholder] at hs
  · cases hs
  · -- feeding
    cases hs
    exact h.free.say _
  · -- dropping
    split_ifs at hs with hconnected
    · cases hs
      obtain ⟨hnotified, hidle⟩ := h.fresh t hconnected
      have hcurrent : s.current = some t := h.held t _ hholder
      have hput : Safe ({ s with holder := none }.put t
          { s.transports t with connected := false }) := by
        refine h.free.put (h.bound t) (by simp) (h.clear t) (fun ht => ?_) fun _ _ => hnotified
        rw [telling_of_free rfl] at ht
        cases ht
      exact hput.hold hcurrent (fun _ => by simp [hidle, Phase.waits]) fun _ _ => by simpa using hnotified
    · cases hs
      exact h.free
  · -- dropped
    have hnotified : (s.transports t).notified = false := h.unsaid t message hholder
    obtain ⟨hconnected, hphase⟩ := h.telling t (by simp [Link.telling, hholder, Stage.tells])
    have hcurrent : s.current = some t := h.held t _ hholder
    rw [hnotified] at hs
    cases hs
    have hput : Safe ({ s with holder := none }.put t { s.transports t with notified := true }) := by
      refine h.free.put (h.bound t) (fun hu => ?_) (fun hu => ?_) (fun ht => ?_) fun m hm => ?_
      · exact absurd hu (by simp [hconnected])
      · have hu' : (s.transports t).phase = .cleared ∨ (s.transports t).phase = .accepted := hu
        rcases hu' with hu' | hu'
        all_goals
          rw [hu'] at hphase
          cases hphase
      · rw [telling_of_free rfl] at ht
        cases ht
      · exact absurd hm (by simp)
    exact hput.hold hcurrent (fun _ => by simpa using ⟨hconnected, hphase⟩) (by simp)
  · -- notifying
    cases hs
    exact h.free.say _

theorem Safe.step (h : Safe s) {a : Move ι} (hs : step a s = some s') : Safe s' := by
  rcases a with t | ⟨t, destroyed⟩ | ⟨t, answer⟩ | data | message | _
  · -- connect
    simp only [CustomLinks.step] at hs
    split_ifs at hs with hidle hconnected
    · cases hs
      exact h
    · cases hs
      refine h.put (fun _ => rfl) (fun hu => absurd hu hconnected) (by simp) (fun ht => ?_) (h.unsaid t)
      exact ⟨(h.telling t ht).1, rfl⟩
  · -- close
    simp only [CustomLinks.step] at hs
    split_ifs at hs with hidle
    cases hs
    refine h.put (fun _ => rfl) (by simp) (by simp) (fun ht => ?_) (h.unsaid t)
    exact ⟨rfl, by simp [(h.telling t ht).1, Phase.waits]⟩
  · exact h.advance hs
  · -- feedBytes
    simp only [CustomLinks.step] at hs
    split_ifs at hs
    · cases hs
      exact h
    · exact h.take rfl hs
  · exact h.take rfl hs
  · exact h.deliver hs

/-! ### The ends of the connections -/

theorem pending_put_ne (h : t' ≠ t) : (s.put t tr).pending t' = s.pending t' := by
  unfold Link.pending
  rw [put_ne h, put_telling]

theorem pending_put (h : tr.connected.toNat + tr.phase.owes.toNat =
    (s.transports t).connected.toNat + (s.transports t).phase.owes.toNat) (u : ι) :
    (s.put t tr).pending u = s.pending u := by
  by_cases heq : u = t
  · subst heq
    simp only [Link.pending, put_same, put_telling, h]
  · exact pending_put_ne heq

theorem Ends.keep (h : Ends s) (hlog : s'.log = s.log) (hpending : ∀ u, s'.pending u = s.pending u) :
    Ends s' := by
  intro u
  rw [hlog, hpending]
  exact h u

/-- An event says what becomes of what is pending. -/
theorem Ends.tell (h : Ends s) {e : Event ι} (hlog : s'.log = s.log ++ [e])
    (hpending : ∀ u, s'.pending u + (e.ends u).toNat =
      s.pending u + (decide (e = .opened u)).toNat) : Ends s' := by
  intro u
  have hs := h u
  have hu := hpending u
  have hcount : s'.log.count (.opened u) = s.log.count (.opened u) + (decide (e = .opened u)).toNat := by
    rw [hlog, List.count_append, List.count_singleton]
    by_cases he : e = .opened u <;> simp [he]
  have hended : ended u s'.log = ended u s.log + (e.ends u).toNat := by
    unfold ended
    rw [hlog, List.countP_append, List.countP_singleton]
    rcases e.ends u with _ | _ <;> rfl
  omega

/-- What is told of one transport ends and opens no connection of another. -/
theorem Event.other {e : Event ι} {u : ι} (h : e.transport ≠ u) : e.ends u = false ∧ e ≠ .opened u := by
  rcases e with v | ⟨v, data⟩ | ⟨v, message⟩ | v
  all_goals
    have hne : v ≠ u := h
    simp [Event.ends, hne]

/-- A transport that changes with what is told of it. -/
theorem Ends.tell_put (h : Ends s) {e : Event ι} (he : e.transport = t)
    (hput : tr.connected.toNat + tr.phase.owes.toNat + (e.ends t).toNat =
      (s.transports t).connected.toNat + (s.transports t).phase.owes.toNat +
        (decide (e = .opened t)).toNat) : Ends ((s.put t tr).say e) := by
  refine h.tell (e := e) rfl fun u => ?_
  by_cases heq : u = t
  · subst heq
    have hpending : ((s.put u tr).say e).pending u =
        tr.connected.toNat + tr.phase.owes.toNat + (s.telling u).toNat := by
      change (s.put u tr).pending u = _
      unfold Link.pending
      rw [put_same, put_telling]
    rw [hpending]
    unfold Link.pending
    omega
  · obtain ⟨hends, hopened⟩ := Event.other (e := e) (u := u) (by simpa [he] using Ne.symm heq)
    have hpending : ((s.put t tr).say e).pending u = s.pending u := pending_put_ne heq
    simp [hpending, hends, hopened]

omit [DecidableEq ι] in
theorem not_owes_of_waits : ∀ {p : Phase}, p.waits = true → p.owes = false
  | .idle, _ | .connecting, _ | .closing false _, _ => rfl
  | .bound, h | .cleared, h | .refused, h | .accepted, h | .closing true _, h | .unbound .., h
  | .gone, h => absurd h Bool.false_ne_true

/-- A transport has one connection at a time, and it ends in one way. -/
theorem Safe.pending_le (h : Safe s) (t : ι) : s.pending t ≤ 1 := by
  unfold Link.pending
  rcases hconnected : (s.transports t).connected with _ | _
  · rcases htelling : s.telling t with _ | _
    · have howes := Bool.toNat_le (s.transports t).phase.owes
      simpa using howes
    · have howes := not_owes_of_waits (h.telling t htelling).2
      simp [howes]
  · have hidle := (h.fresh t hconnected).2
    have htelling : s.telling t = false := by
      by_contra hne
      have hfalse := (h.telling t (by simpa using hne)).1
      rw [hconnected] at hfalse
      cases hfalse
    simp [hidle, htelling, Phase.owes]

theorem Ends.advance (h : Ends s) (hsafe : Safe s) {answer : Bool} (hs : advance s t answer = some s') :
    Ends s' := by
  unfold CustomLinks.advance at hs
  rcases hphase : (s.transports t).phase with _ | _ | _ | _ | _ | _ | ⟨was, destroyed⟩ |
    ⟨was, destroyed⟩ | _
  all_goals simp only [hphase] at hs
  · cases hs
  · -- connecting
    split_ifs at hs
    cases hs
    exact h.keep rfl (pending_put (s := s.bind t) (by simp [Link.bind, hphase, Phase.owes]))
  · -- bound
    cases hs
    exact h.keep rfl (pending_put (by simp [hphase, Phase.owes]))
  · -- cleared
    cases hs
    refine h.keep rfl (pending_put ?_)
    rcases answer with _ | _ <;> simp [hphase, Phase.owes]
  · -- refused
    split_ifs at hs
    cases hs
    exact h.keep rfl (pending_put (s := s.unbind t) (by simp [Link.unbind, hphase, Phase.owes]))
  · -- accepted
    cases hs
    have hconnected : (s.transports t).connected = false := by
      by_contra hne
      have hidle := (hsafe.fresh t (by simpa using hne)).2
      rw [hphase] at hidle
      cases hidle
    exact h.tell_put rfl (by simp [Event.ends, hconnected, hphase, Phase.owes])
  · -- closing
    split_ifs at hs
    cases hs
    exact h.keep rfl (pending_put (s := s.unbind t) (by simp [Link.unbind, hphase, Phase.owes]))
  · -- unbound
    have howes : (if destroyed then Phase.gone else Phase.idle).owes = false := by
      rcases destroyed with _ | _ <;> rfl
    have howed : (Phase.unbound was destroyed).owes = was := rfl
    rcases was with _ | _
    · cases hs
      exact h.keep rfl (pending_put (by simp [hphase, howes, howed]))
    · cases hs
      exact h.tell_put rfl (by simp [Event.ends, hphase, howes, howed])
  · cases hs

theorem Ends.deliver (h : Ends s) (hsafe : Safe s) (hs : deliver s = some s') : Ends s' := by
  unfold CustomLinks.deliver at hs
  rcases hholder : s.holder with _ | ⟨t, data | message | message | message⟩
  all_goals simp only [hholder] at hs
  · cases hs
  · -- feeding
    cases hs
    refine h.tell (e := .bytes t data) rfl fun u => ?_
    simp [Link.say, Link.pending, Link.telling, hholder, Stage.tells, Event.ends]
  · -- dropping
    split_ifs at hs with hconnected
    · cases hs
      refine h.keep rfl fun u => ?_
      by_cases heq : u = t
      · subst heq
        simp [Link.put, Link.pending, Link.telling, hholder, Stage.tells, hconnected]
        omega
      · have hne : t ≠ u := Ne.symm heq
        simp [Link.put, Link.pending, Link.telling, hholder, hne, Function.update_of_ne heq]
    · cases hs
      refine h.keep rfl fun u => ?_
      simp [Link.pending, Link.telling, hholder, Stage.tells]
  · -- dropped
    have hnotified : (s.transports t).notified = false := hsafe.unsaid t message hholder
    rw [hnotified] at hs
    cases hs
    refine h.keep rfl fun u => ?_
    by_cases heq : u = t
    · subst heq
      simp [Link.put, Link.pending, Link.telling, hholder, Stage.tells]
    · have hne : t ≠ u := Ne.symm heq
      simp [Link.put, Link.pending, Link.telling, hholder, hne, Function.update_of_ne heq]
  · -- notifying
    cases hs
    refine h.tell (e := .notice t message) rfl fun u => ?_
    simp [Link.say, Link.pending, Link.telling, hholder, Stage.tells, Event.ends]

theorem Ends.take (h : Ends s) {stage : Stage} (hstage : stage.tells = false)
    (hs : take s stage = some s') : Ends s' := by
  unfold CustomLinks.take at hs
  split_ifs at hs with hfree
  have hholder : s.holder = none := by simpa using hfree
  cases hs
  refine h.keep rfl fun u => ?_
  rcases hcurrent : s.current with _ | t <;>
    simp [Link.pending, Link.telling, hholder, hstage]

theorem Ends.step (h : Ends s) (hsafe : Safe s) {a : Move ι} (hs : step a s = some s') : Ends s' := by
  rcases a with t | ⟨t, destroyed⟩ | ⟨t, answer⟩ | data | message | _
  · -- connect
    simp only [CustomLinks.step] at hs
    split_ifs at hs with hidle hconnected
    · cases hs
      exact h
    · cases hs
      exact h.keep rfl (pending_put (by simp [hidle, Phase.owes]))
  · -- close
    simp only [CustomLinks.step] at hs
    split_ifs at hs with hidle
    cases hs
    exact h.keep rfl (pending_put (by simp [hidle, Phase.owes]))
  · exact h.advance hsafe hs
  · -- feedBytes
    simp only [CustomLinks.step] at hs
    split_ifs at hs
    · cases hs
      exact h
    · exact h.take rfl hs
  · exact h.take rfl hs
  · exact h.deliver hsafe hs

/-! ### Transports that are destroyed -/

/-- The transport that a move is made for. -/
def actor : Move ι → Link ι → Option ι
  | .connect t, _ | .close t _, _ | .advance t _, _ => some t
  | .feedBytes _, _ | .linkDropped _, _ => none
  | .deliver, s => s.holder.map Prod.fst

/-- The state and the callbacks of a transport are as they were. -/
structure Untouched (t : ι) (s s' : Link ι) : Prop where
  transport : s'.transports t = s.transports t
  told : told t s'.log = told t s.log

theorem told_append {e : Event ι} (h : e.transport ≠ t) (log : List (Event ι)) :
    told t (log ++ [e]) = told t log := by
  simp [told, h]

theorem Untouched.put (h : t' ≠ t) : Untouched t' s (s.put t tr) := ⟨put_ne h, rfl⟩

theorem Untouched.say {e : Event ι} (h : Untouched t s s') (he : e.transport ≠ t) :
    Untouched t s (s'.say e) := by
  refine ⟨h.transport, ?_⟩
  have hsame := told_append he s'.log
  exact hsame.trans h.told

theorem untouched_advance {answer : Bool} (hs : advance s t answer = some s') (hne : t' ≠ t) :
    Untouched t' s s' := by
  have hevent : t ≠ t' := Ne.symm hne
  unfold advance at hs
  rcases hphase : (s.transports t).phase with _ | _ | _ | _ | _ | _ | ⟨was, destroyed⟩ |
    ⟨was, destroyed⟩ | _
  all_goals simp only [hphase] at hs
  · cases hs
  · -- connecting
    split_ifs at hs
    cases hs
    exact ⟨put_ne hne, rfl⟩
  · -- bound
    cases hs
    exact .put hne
  · -- cleared
    cases hs
    exact .put hne
  · -- refused
    split_ifs at hs
    cases hs
    exact ⟨put_ne hne, rfl⟩
  · -- accepted
    cases hs
    exact (Untouched.put hne).say hevent
  · -- closing
    split_ifs at hs
    cases hs
    exact ⟨put_ne hne, rfl⟩
  · -- unbound
    rcases was with _ | _
    · cases hs
      exact .put hne
    · cases hs
      exact (Untouched.put hne).say hevent
  · cases hs

theorem untouched_deliver (hs : deliver s = some s') (hne : s.holder.map Prod.fst ≠ some t) :
    Untouched t s s' := by
  unfold deliver at hs
  rcases hholder : s.holder with _ | ⟨u, data | message | message | message⟩
  all_goals simp only [hholder] at hs
  · cases hs
  all_goals have hu : u ≠ t := by simpa [hholder] using hne
  · cases hs
    exact Untouched.say ⟨rfl, rfl⟩ hu
  · split_ifs at hs
    · cases hs
      exact ⟨put_ne hu.symm, rfl⟩
    · cases hs
      exact ⟨rfl, rfl⟩
  · split_ifs at hs
    · cases hs
      exact ⟨rfl, rfl⟩
    · cases hs
      exact ⟨put_ne hu.symm, rfl⟩
  · cases hs
    exact Untouched.say ⟨rfl, rfl⟩ hu

theorem untouched_take {stage : Stage} (hs : take s stage = some s') : Untouched t s s' := by
  unfold take at hs
  split_ifs at hs
  cases hs
  exact ⟨rfl, rfl⟩

/-- A move touches the transport alone that it is made for. -/
theorem untouched_step {a : Move ι} (hs : step a s = some s') (hne : actor a s ≠ some t) :
    Untouched t s s' := by
  rcases a with u | ⟨u, destroyed⟩ | ⟨u, answer⟩ | data | message | _
  · have hu : t ≠ u := fun h => hne (by simp [actor, h])
    simp only [step] at hs
    split_ifs at hs
    · cases hs
      exact ⟨rfl, rfl⟩
    · cases hs
      exact .put hu
  · have hu : t ≠ u := fun h => hne (by simp [actor, h])
    simp only [step] at hs
    split_ifs at hs
    cases hs
    exact .put hu
  · exact untouched_advance hs fun h => hne (by simp [actor, h])
  · simp only [step] at hs
    split_ifs at hs
    · cases hs
      exact ⟨rfl, rfl⟩
    · exact untouched_take hs
  · exact untouched_take hs
  · exact untouched_deliver hs hne

/-- No move is made for a transport that is destroyed. -/
theorem Safe.not_actor (h : Safe s) (hgone : (s.transports t).phase = .gone) {a : Move ι}
    (hs : CustomLinks.step a s = some s') : actor a s ≠ some t := by
  intro hactor
  rcases a with u | ⟨u, destroyed⟩ | ⟨u, answer⟩ | data | message | _
  · obtain rfl : u = t := by simpa [actor] using hactor
    simp [CustomLinks.step, hgone] at hs
  · obtain rfl : u = t := by simpa [actor] using hactor
    simp [CustomLinks.step, hgone] at hs
  · obtain rfl : u = t := by simpa [actor] using hactor
    simp [CustomLinks.step, CustomLinks.advance, hgone] at hs
  · cases hactor
  · cases hactor
  · obtain ⟨⟨u, stage⟩, hheld, rfl⟩ := Option.map_eq_some_iff.mp hactor
    have hbound := h.bound u (h.held u stage hheld)
    rw [hgone] at hbound
    cases hbound

theorem safe_init : Safe ({} : Link ι) := by
  refine ⟨?_, ?_, ?_, ?_, ?_, ?_⟩ <;> simp [Link.telling]

theorem ends_init : Ends ({} : Link ι) := fun t => by
  simp [Link.pending, Link.telling, ended, Phase.owes]

/-- Any run. -/
abbrev Reached (s : Link ι) : Prop := Reach step (fun _ _ => True) {} s

theorem kept (reached : Reached s) : Safe s ∧ Ends s := by
  refine reached.invariant (I := fun s => Safe s ∧ Ends s) ⟨safe_init, ends_init⟩ ?_
  rintro a s s' ⟨hsafe, hends⟩ - hs
  exact ⟨hsafe.step hs, hends.step hsafe hs⟩

theorem Untouched.trans {s'' : Link ι} (h : Untouched t s s') (h' : Untouched t s' s'') :
    Untouched t s s'' :=
  ⟨h'.transport.trans h.transport, h'.told.trans h.told⟩

theorem untouched_replay : ∀ {moves : List (Move ι)} {s s' : Link ι}, Safe s →
    (s.transports t).phase = .gone → replay step (fun _ _ => True) moves s = some s' →
    Untouched t s s'
  | [], s, s', _, _, hrun => by
    cases hrun
    exact ⟨rfl, rfl⟩
  | a :: moves, s, s', hsafe, hgone, hrun => by
    rw [replay, if_pos trivial] at hrun
    obtain ⟨mid, hs, hrest⟩ := Option.bind_eq_some_iff.mp hrun
    have hmid : Untouched t s mid := untouched_step hs (hsafe.not_actor hgone hs)
    have hgone' : (mid.transports t).phase = .gone := by rw [hmid.transport, hgone]
    exact hmid.trans (untouched_replay (hsafe.step hs) hgone' hrest)

/-! ### The binding -/

/-- What a move does to the binding: a transport that connects takes it over, and the transport that
has it may give it up. -/
def Rebinds (a : Move ι) (s s' : Link ι) : Prop :=
  s'.current = s.current ∨ ∃ t answer, a = .advance t answer ∧
    ((s.transports t).phase = .connecting ∧ s'.current = some t ∨
      s.current = some t ∧ s'.current = none)

theorem unbind_current (s : Link ι) (t : ι) :
    (s.unbind t).current = s.current ∨ s.current = some t ∧ (s.unbind t).current = none := by
  unfold Link.unbind
  split_ifs with h
  · exact Or.inr ⟨h, rfl⟩
  · exact Or.inl rfl

theorem rebinds_advance {answer : Bool} (hs : advance s t answer = some s') :
    Rebinds (.advance t answer) s s' := by
  have hunbind : s'.current = (s.unbind t).current → Rebinds (.advance t answer) s s' := by
    intro hcurrent
    rcases unbind_current s t with h | ⟨h, hnone⟩
    · exact Or.inl (hcurrent.trans h)
    · exact Or.inr ⟨t, answer, rfl, Or.inr ⟨h, hcurrent.trans hnone⟩⟩
  unfold advance at hs
  rcases hphase : (s.transports t).phase with _ | _ | _ | _ | _ | _ | ⟨was, destroyed⟩ |
    ⟨was, destroyed⟩ | _
  all_goals simp only [hphase] at hs
  · cases hs
  · -- connecting
    split_ifs at hs
    cases hs
    exact Or.inr ⟨t, answer, rfl, Or.inl ⟨hphase, rfl⟩⟩
  · cases hs
    exact Or.inl rfl
  · cases hs
    exact Or.inl rfl
  · -- refused
    split_ifs at hs
    cases hs
    exact hunbind rfl
  · cases hs
    exact Or.inl rfl
  · -- closing
    split_ifs at hs
    cases hs
    exact hunbind rfl
  · rcases was with _ | _
    · cases hs
      exact Or.inl rfl
    · cases hs
      exact Or.inl rfl
  · cases hs

theorem current_deliver (hs : deliver s = some s') : s'.current = s.current := by
  unfold deliver at hs
  rcases hholder : s.holder with _ | ⟨u, data | message | message | message⟩
  all_goals simp only [hholder] at hs
  · cases hs
  · cases hs
    rfl
  · split_ifs at hs
    all_goals
      cases hs
      rfl
  · split_ifs at hs
    all_goals
      cases hs
      rfl
  · cases hs
    rfl

omit [DecidableEq ι] in
theorem current_take {stage : Stage} (hs : take s stage = some s') : s'.current = s.current := by
  unfold take at hs
  split_ifs at hs
  cases hs
  rfl

theorem rebinds_step {a : Move ι} (hs : step a s = some s') : Rebinds a s s' := by
  rcases a with u | ⟨u, destroyed⟩ | ⟨u, answer⟩ | data | message | _
  · simp only [step] at hs
    split_ifs at hs
    all_goals
      cases hs
      exact Or.inl rfl
  · simp only [step] at hs
    split_ifs at hs
    cases hs
    exact Or.inl rfl
  · exact rebinds_advance hs
  · simp only [step] at hs
    split_ifs at hs
    · cases hs
      exact Or.inl rfl
    · exact Or.inl (current_take hs)
  · exact Or.inl (current_take hs)
  · exact Or.inl (current_deliver hs)

/-! ### Every connection ends once -/

/-- **Every connection ends once.** However the calls of the owners and of the embedder interleave,
each connection of a transport is open, or its end is under way, or it has ended with one notice or one
`close`, and one connection at most has not ended. A transport that is destroyed has none, is neither
bound nor in use, and no callback of it is called later; a binding is changed by a transport that
connects and by the one that has it. -/
theorem connections_end_once (reached : Reached s) (t : ι) :
    s.log.count (.opened t) = ended t s.log + s.pending t ∧ s.pending t ≤ 1 ∧
    ((s.transports t).phase = .gone →
      s.log.count (.opened t) = ended t s.log ∧ s.current ≠ some t ∧
      (∀ stage, s.holder ≠ some (t, stage)) ∧
      ∀ moves s', replay step (fun _ _ => True) moves s = some s' → told t s'.log = told t s.log) ∧
    ∀ a s', step a s = some s' → Rebinds a s s' := by
  obtain ⟨hsafe, hends⟩ := kept reached
  refine ⟨hends t, hsafe.pending_le t, fun hgone => ?_, fun a s' hs => rebinds_step hs⟩
  have hcurrent : s.current ≠ some t := by
    intro hcurrent
    have hbound := hsafe.bound t hcurrent
    rw [hgone] at hbound
    cases hbound
  have hpending : s.pending t = 0 := by
    have hconnected : (s.transports t).connected = false := by
      by_contra hne
      have hidle := (hsafe.fresh t (by simpa using hne)).2
      rw [hgone] at hidle
      cases hidle
    have htelling : s.telling t = false := hsafe.not_telling (by rw [hgone]; rfl)
    simp [Link.pending, hconnected, htelling, hgone, Phase.owes]
  refine ⟨?_, hcurrent, fun stage hheld => hcurrent (hsafe.held t stage hheld), ?_⟩
  · have hcount := hends t
    omega
  · intro moves s' hrun
    exact (untouched_replay hsafe hgone hrun).told

/-- A transport is dropped, connects again, and is destroyed behind its successor's connect. -/
def replacedMoves : List (Move ℕ) :=
  [.connect 0, .advance 0 true, .advance 0 true, .advance 0 true, .advance 0 true,
    .linkDropped [1], .deliver, .deliver, .deliver,
    .connect 0, .advance 0 true, .advance 0 true, .feedBytes [2], .deliver, .advance 0 true,
    .advance 0 true, .connect 1, .advance 1 true, .close 0 true, .linkDropped [3], .deliver,
    .advance 0 true, .advance 0 true]

theorem replaced_ends : ∃ s, replay step (fun _ _ => True) replacedMoves {} = some s ∧
    (s.transports 0).phase = .gone ∧ s.current = some 1 ∧
    s.log = [.opened 0, .notice 0 [1], .bytes 0 [2], .opened 0, .closed 0] ∧
    s.log.count (.opened 0) = ended 0 s.log :=
  ⟨_, rfl, by decide, by decide, by decide,
    ((connections_end_once (reach_of_replay .init (show replay step _ replacedMoves _ = _ from rfl)) 0).2.2.1 (by decide)).1⟩

end Lemmas

end

end PrinterDriver.Core.CustomLinks
