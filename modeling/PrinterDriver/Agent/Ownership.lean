import PrinterDriver.Lib.Runs
import PrinterDriver.Core.Journal
import PrinterDriver.Agent.CloudPrntRuns
import Mathlib.Data.Fintype.Basic

/-! # Who owns a printer

Start-up and add-printer requests as threads of the agent, one step per lock section: the check, the
building of the lane and the insertion of a pushed printer, the check and the registration of a
CloudPRNT printer. `OneOwner` is what the sections are there for. -/

namespace PrinterDriver.Agent.Ownership

open PrinterDriver.Lib.Runs PrinterDriver.Core.Types PrinterDriver.Agent.CloudPrnt
  PrinterDriver.Agent.CloudPrntRuns

open PrinterDriver.Core.Journal (decimal)

/-! ### The agent -/

structure PrinterSpec where
  id : Bytes := []
  host : Bytes
  port : ℕ := 9100
  profile : Bytes := str "generic"
  deriving DecidableEq

/-- `PrinterSpec::endpoint` -/
def PrinterSpec.describe (spec : PrinterSpec) : Bytes :=
  str "tcp://" ++ spec.host ++ str ":" ++ decimal spec.port

/-- A printer without an id goes by its host and port. -/
def PrinterSpec.effective (spec : PrinterSpec) : PrinterSpec :=
  if spec.id = [] then { spec with id := spec.host ++ str ":" ++ decimal spec.port } else spec

/-- What the lock of the agent protects, the lanes its driver runs, and the CloudPRNT printers; their
ids in the order of their registration. -/
structure AgentState where
  printers : List PrinterSpec := []
  byId : Bytes → Option ℕ := fun _ => none
  lanes : List PrinterSpec := []
  cloudprnt : CloudPrntServer := {}
  cloudIds : List Bytes := []

/-- The host and port of a lane. -/
def PrinterSpec.socket (spec : PrinterSpec) : Bytes × ℕ := (spec.host, spec.port)

/-- `addPrinter` up to the end of its first lock section: the refusal, or the printer to build. -/
def AgentState.check (a : AgentState) (knownProfile : Bytes → Bool) (spec : PrinterSpec) :
    Except Bytes PrinterSpec :=
  if spec.host = [] then .error (str "a printer needs a tcp host")
  else if !knownProfile spec.profile then .error (str "unknown profile: " ++ spec.profile)
  else
    let e := spec.effective
    if (a.byId e.id).isSome then .error (str "printer id already owned: " ++ e.id)
    else
      match a.printers.find? fun p => p.socket = e.socket with
      | some p => .error (str "printer " ++ p.id ++ str " already owns " ++ e.describe)
      | none => .ok e

/-- The driver runs a lane for the printer; it compares it with nothing. -/
def AgentState.build (a : AgentState) (e : PrinterSpec) : AgentState := { a with lanes := a.lanes ++ [e] }

/-- The second lock section of `addPrinter`. -/
def AgentState.insert (a : AgentState) (e : PrinterSpec) : AgentState :=
  { a with
    byId := Function.update a.byId e.id (some a.printers.length)
    printers := a.printers ++ [e] }

/-- The lock section of `start` on a CloudPRNT printer. -/
def AgentState.checkCloud (a : AgentState) (spec : CloudPrntSpec) : Except Bytes Unit :=
  if (a.byId spec.id).isSome then .error (str "printer id already owned: " ++ spec.id) else .ok ()

def AgentState.registerCloud (a : AgentState) (spec : CloudPrntSpec) : Except Bytes AgentState :=
  match a.cloudprnt.addPrinter spec with
  | .ok c => .ok { a with cloudprnt := c, cloudIds := a.cloudIds ++ [spec.id] }
  | .error e => .error e

/-! ### Its threads -/

/-- A printer to add: by a request, or out of the configuration. -/
inductive Task where
  | add (spec : PrinterSpec)
  | cloud (spec : CloudPrntSpec)

/-- Where a thread stands between two lock sections. -/
inductive Phase where
  | ready
  | checked (e : PrinterSpec)
  | built (e : PrinterSpec)
  | clear (spec : CloudPrntSpec)

/-- A request has one task; start-up has those of the configuration, and the first refusal ends it. -/
structure Thread where
  phase : Phase := .ready
  todo : List Task := []

structure System (ι : Type) where
  agent : AgentState := {}
  thread : ι → Thread := fun _ => {}

inductive Move (ι : Type) where
  | request (i : ι) (spec : PrinterSpec)
  | proceed (i : ι) (transport : Bool)

variable {ι : Type} [DecidableEq ι]

def System.put (s : System ι) (i : ι) (a : AgentState) (t : Thread) : System ι :=
  ⟨a, Function.update s.thread i t⟩

/-- One lock section. `transport` says whether the hook leaves the printer a transport. -/
def proceed (knownProfile : Bytes → Bool) (a : AgentState) (transport : Bool) :
    Thread → Option (AgentState × Thread)
  | ⟨.ready, []⟩ => none
  | ⟨.ready, .add spec :: todo⟩ =>
    match a.check knownProfile spec with
    | .ok e => some (a, ⟨.checked e, todo⟩)
    | .error _ => some (a, {})
  | ⟨.checked e, todo⟩ => if transport then some (a.build e, ⟨.built e, todo⟩) else some (a, {})
  | ⟨.built e, todo⟩ => some (a.insert e, ⟨.ready, todo⟩)
  | ⟨.ready, .cloud spec :: todo⟩ =>
    match a.checkCloud spec with
    | .ok _ => some (a, ⟨.clear spec, todo⟩)
    | .error _ => some (a, {})
  | ⟨.clear spec, todo⟩ =>
    match a.registerCloud spec with
    | .ok a' => some (a', ⟨.ready, todo⟩)
    | .error _ => some (a, {})

/-- A request comes to a thread that has nothing to do. -/
def step (knownProfile : Bytes → Bool) : Move ι → System ι → Option (System ι)
  | .request i spec, s =>
    match s.thread i with
    | ⟨.ready, []⟩ => some (s.put i s.agent ⟨.ready, [.add spec]⟩)
    | _ => none
  | .proceed i transport, s =>
    (proceed knownProfile s.agent transport (s.thread i)).map fun r => s.put i r.1 r.2

/-- The agent before start-up, which one thread runs. -/
def startUp (i : ι) (printers : List PrinterSpec) (cloudprnt : List CloudPrntSpec) : System ι :=
  System.put {} i {} ⟨.ready, printers.map .add ++ cloudprnt.map .cloud⟩

/-! ### One owner and one id -/

/-- An id of the index leads to the entry that carries it. -/
def Indexed (a : AgentState) : Prop :=
  ∀ id k, a.byId id = some k → ∃ p, a.printers[k]? = some p ∧ p.id = id

/-- No id stands for two printers, no socket has two lanes, and the index is right. -/
structure OneOwner (a : AgentState) : Prop where
  ids : (a.printers.map PrinterSpec.id ++ a.cloudIds).Nodup
  lanes : (a.lanes.map PrinterSpec.socket).Nodup
  index : Indexed a

/-- The printer a thread has checked and not inserted yet. -/
def Phase.adding : Phase → Option PrinterSpec
  | .checked e | .built e => some e
  | _ => none

/-- The id a thread has checked and not registered with the CloudPRNT server yet. -/
def Phase.clearing : Phase → Option Bytes
  | .clear spec => some spec.id
  | _ => none

/-- A printer is looked up for its addition while nobody is at adding another under its id or onto its
socket, and a CloudPRNT printer has not got its id nor is about to. -/
def Free (s : System ι) : Thread → Prop
  | ⟨.ready, .add spec :: _⟩ =>
    s.agent.cloudprnt.find spec.effective.id = none ∧
      ∀ j, (s.thread j).phase.clearing ≠ some spec.effective.id ∧
        ∀ e ∈ (s.thread j).phase.adding,
          e.id ≠ spec.effective.id ∧ e.socket ≠ spec.effective.socket
  | ⟨.ready, .cloud spec :: _⟩ => ∀ j, ∀ e ∈ (s.thread j).phase.adding, e.id ≠ spec.id
  | _ => True

/-- The check that the move makes, if it makes one, is of something free. -/
def Undisputed : Move ι → System ι → Prop
  | .request _ _, _ => True
  | .proceed i _, s => Free s (s.thread i)

/-! ### What the agent's lock keeps -/

/-- The entries and the index of the agent and the CloudPRNT ids go together. -/
structure Books (a : AgentState) : Prop where
  index : Indexed a
  indexed : ∀ p ∈ a.printers, a.byId p.id ≠ none
  ids : (a.printers.map PrinterSpec.id).Nodup
  routes : ∀ id, id ∈ a.cloudIds ↔ a.cloudprnt.find id ≠ none
  cloudIds : a.cloudIds.Nodup
  apart : ∀ p ∈ a.printers, p.id ∉ a.cloudIds

/-- Nothing in the agent stands against the printer. -/
structure Fresh (a : AgentState) (e : PrinterSpec) : Prop where
  id : ∀ p ∈ a.printers, p.id ≠ e.id
  socket : ∀ p ∈ a.printers, p.socket ≠ e.socket
  cloud : e.id ∉ a.cloudIds

/-- An insertion overwrites an index entry rather than spoil one: the index is always right. -/
theorem Indexed.insert {a : AgentState} (e : PrinterSpec) (h : Indexed a) :
    Indexed (a.insert e) := by
  intro id k hk
  change Function.update a.byId e.id (some a.printers.length) id = some k at hk
  show ∃ p, (a.printers ++ [e])[k]? = some p ∧ p.id = id
  by_cases he : id = e.id
  · rw [he, Function.update_self] at hk
    obtain rfl := Option.some.inj hk
    exact ⟨e, List.getElem?_concat_length, he.symm⟩
  · rw [Function.update_of_ne he] at hk
    obtain ⟨p, hp, hid⟩ := h id k hk
    obtain ⟨hlt, -⟩ := List.getElem?_eq_some_iff.mp hp
    exact ⟨p, by rw [List.getElem?_append_left hlt, hp], hid⟩

theorem Books.insert {a : AgentState} {e : PrinterSpec} (h : Books a) (hf : Fresh a e) :
    Books (a.insert e) := by
  refine ⟨h.index.insert e, ?_, ?_, h.routes, h.cloudIds, ?_⟩
  · intro p hp
    show Function.update a.byId e.id (some a.printers.length) p.id ≠ none
    by_cases he : p.id = e.id
    · rw [he, Function.update_self]
      simp
    · rw [Function.update_of_ne he]
      rcases List.mem_append.mp hp with hp | hp
      · exact h.indexed p hp
      · rw [List.mem_singleton] at hp
        exact absurd (congrArg PrinterSpec.id hp) he
  · show ((a.printers ++ [e]).map PrinterSpec.id).Nodup
    rw [List.map_append, List.map_singleton, List.nodup_append]
    refine ⟨h.ids, List.nodup_singleton _, ?_⟩
    intro id hid id' hid' heq
    obtain ⟨p, hp, rfl⟩ := List.mem_map.mp hid
    rw [List.mem_singleton] at hid'
    exact hf.id p hp (heq.trans hid')
  · intro p hp
    rcases List.mem_append.mp hp with hp | hp
    · exact h.apart p hp
    · rw [List.mem_singleton] at hp
      rw [hp]
      exact hf.cloud

theorem registered {a a' : AgentState} {spec : CloudPrntSpec}
    (h : a.registerCloud spec = .ok a') : a.cloudprnt.find spec.id = none ∧
      a' = { a with
        cloudprnt := a.cloudprnt.set spec.id spec.route, cloudIds := a.cloudIds ++ [spec.id] } := by
  unfold AgentState.registerCloud at h
  rcases hc : a.cloudprnt.addPrinter spec with e | c
  · rw [hc] at h
    cases h
  · rw [hc] at h
    obtain ⟨hnone, rfl⟩ := addPrinter_eq_ok hc
    exact ⟨hnone, (Except.ok.inj h).symm⟩

theorem Books.register {a a' : AgentState} {spec : CloudPrntSpec} (h : Books a)
    (hr : a.registerCloud spec = .ok a') (hid : ∀ p ∈ a.printers, p.id ≠ spec.id) : Books a' := by
  obtain ⟨hnone, rfl⟩ := registered hr
  have hnew : spec.id ∉ a.cloudIds := by
    rw [h.routes]
    exact not_not.mpr hnone
  refine ⟨h.index, h.indexed, h.ids, ?_, ?_, ?_⟩
  · intro id
    rw [List.mem_append, List.mem_singleton]
    by_cases he : id = spec.id
    · subst he
      simp [find_set_self]
    · rw [find_set_of_ne he, h.routes]
      simp [he]
  · rw [List.nodup_append]
    refine ⟨h.cloudIds, List.nodup_singleton _, ?_⟩
    intro id hmem id' hid' heq
    rw [List.mem_singleton] at hid'
    rw [heq, hid'] at hmem
    exact hnew hmem
  · intro p hp hmem
    rcases List.mem_append.mp hmem with hmem | hmem
    · exact h.apart p hp hmem
    · rw [List.mem_singleton] at hmem
      exact hid p hp hmem

/-! ### What the threads keep -/

/-- Between two sections a thread holds a printer that nothing stands against, no lane is without its
printer, and no two threads are at the same. -/
structure Owned (s : System ι) : Prop where
  books : Books s.agent
  lanes : (s.agent.lanes.map PrinterSpec.socket).Nodup
  holders : ∀ l ∈ s.agent.lanes, l ∈ s.agent.printers ∨ ∃ i, (s.thread i).phase = .built l
  fresh : ∀ i e, (s.thread i).phase.adding = some e → Fresh s.agent e
  rivals : ∀ i j e e', i ≠ j → (s.thread i).phase.adding = some e →
    (s.thread j).phase.adding = some e' → e.id ≠ e'.id ∧ e.socket ≠ e'.socket
  clear : ∀ i id, (s.thread i).phase.clearing = some id →
    (∀ p ∈ s.agent.printers, p.id ≠ id) ∧
      ∀ j e, (s.thread j).phase.adding = some e → e.id ≠ id

theorem put_self (s : System ι) (i : ι) (a : AgentState) (t : Thread) :
    (s.put i a t).thread i = t := Function.update_self ..

theorem put_of_ne (s : System ι) {i j : ι} (h : j ≠ i) (a : AgentState) (t : Thread) :
    (s.put i a t).thread j = s.thread j := Function.update_of_ne h ..

section Steps
variable {s : System ι} {i : ι} {t : Thread}

/-- A thread that is at no printer takes nothing from what the others are at. -/
theorem adding_put (ha : t.phase.adding = none) {a : AgentState} {j : ι} {e : PrinterSpec}
    (h : ((s.put i a t).thread j).phase.adding = some e) :
    j ≠ i ∧ (s.thread j).phase.adding = some e := by
  by_cases he : j = i
  · rw [he, put_self, ha] at h
    cases h
  · rw [put_of_ne s he] at h
    exact ⟨he, h⟩

/-- The lanes keep their printers when a thread moves on that held none. -/
theorem Owned.lane_put (h : Owned s) (hb : ∀ l, (s.thread i).phase ≠ .built l) (a : AgentState)
    {l : PrinterSpec} (hl : l ∈ s.agent.lanes) :
    l ∈ s.agent.printers ∨ ∃ j, ((s.put i a t).thread j).phase = .built l := by
  rcases h.holders l hl with hp | ⟨j, hj⟩
  · exact .inl hp
  · have hne : j ≠ i := fun he => hb l (he ▸ hj)
    exact .inr ⟨j, by rw [put_of_ne s hne, hj]⟩

/-- A thread gives up what it held, without a lane. -/
theorem Owned.release (h : Owned s) (hb : ∀ l, (s.thread i).phase ≠ .built l)
    (ht : t.phase = .ready) : Owned (s.put i s.agent t) := by
  have ha : t.phase.adding = none := by
    rw [ht]
    rfl
  refine ⟨h.books, h.lanes, fun l hl => h.lane_put hb _ hl,
    fun j e hj => h.fresh j e (adding_put ha hj).2,
    fun j k e e' hne hj hk => h.rivals j k e e' hne (adding_put ha hj).2 (adding_put ha hk).2,
    fun j id hj => ?_⟩
  by_cases he : j = i
  · rw [he, put_self, ht] at hj
    cases hj
  · rw [put_of_ne s he] at hj
    have hclear := h.clear j id hj
    exact ⟨hclear.1, fun k e hk => hclear.2 k e (adding_put ha hk).2⟩

/-- A printer passes the check while nobody is at the same. -/
theorem Owned.checked (h : Owned s) {e : PrinterSpec} (hb : ∀ l, (s.thread i).phase ≠ .built l)
    (ht : t.phase = .checked e) (hf : Fresh s.agent e)
    (hr : ∀ j e', (s.thread j).phase.adding = some e' → e'.id ≠ e.id ∧ e'.socket ≠ e.socket)
    (hc : ∀ j, (s.thread j).phase.clearing ≠ some e.id) : Owned (s.put i s.agent t) := by
  have hself : ((s.put i s.agent t).thread i).phase.adding = some e := by
    rw [put_self, ht]
    rfl
  have hadd : ∀ j e', ((s.put i s.agent t).thread j).phase.adding = some e' →
      j = i ∧ e' = e ∨ (s.thread j).phase.adding = some e' := by
    intro j e' hj
    by_cases he : j = i
    · rw [he, hself] at hj
      exact .inl ⟨he, (Option.some.inj hj).symm⟩
    · rw [put_of_ne s he] at hj
      exact .inr hj
  refine ⟨h.books, h.lanes, fun l hl => h.lane_put hb _ hl, fun j e' hj => ?_,
    fun j k e₁ e₂ hne hj hk => ?_, fun j id hj => ?_⟩
  · rcases hadd j e' hj with ⟨-, rfl⟩ | hj
    · exact hf
    · exact h.fresh j e' hj
  · rcases hadd j e₁ hj with ⟨rfl, rfl⟩ | hj'
    · rcases hadd k e₂ hk with ⟨rfl, rfl⟩ | hk'
      · exact absurd rfl hne
      · have hrival := hr k e₂ hk'
        exact ⟨hrival.1.symm, hrival.2.symm⟩
    · rcases hadd k e₂ hk with ⟨rfl, rfl⟩ | hk'
      · exact hr j e₁ hj'
      · exact h.rivals j k e₁ e₂ hne hj' hk'
  · by_cases he : j = i
    · rw [he, put_self, ht] at hj
      cases hj
    · rw [put_of_ne s he] at hj
      have hclear := h.clear j id hj
      refine ⟨hclear.1, fun k e' hk => ?_⟩
      rcases hadd k e' hk with ⟨-, rfl⟩ | hk
      · intro heq
        exact hc j (heq ▸ hj)
      · exact hclear.2 k e' hk

/-- The lane of a checked printer is the only one onto its socket. -/
theorem Owned.built (h : Owned s) {e : PrinterSpec} (hp : (s.thread i).phase = .checked e)
    (ht : t.phase = .built e) : Owned (s.put i (s.agent.build e) t) := by
  have hadd : ∀ j, ((s.put i (s.agent.build e) t).thread j).phase.adding =
      (s.thread j).phase.adding := by
    intro j
    by_cases he : j = i
    · rw [he, put_self, ht, hp]
      rfl
    · rw [put_of_ne s he]
  have hclear : ∀ j, ((s.put i (s.agent.build e) t).thread j).phase.clearing =
      (s.thread j).phase.clearing := by
    intro j
    by_cases he : j = i
    · rw [he, put_self, ht, hp]
      rfl
    · rw [put_of_ne s he]
  have hi : (s.thread i).phase.adding = some e := by
    rw [hp]
    rfl
  refine ⟨⟨h.books.index, h.books.indexed, h.books.ids, h.books.routes, h.books.cloudIds,
    h.books.apart⟩, ?_, fun l hl => ?_, fun j e' hj => ?_, fun j k e₁ e₂ hne hj hk => ?_,
    fun j id hj => ?_⟩
  · show ((s.agent.lanes ++ [e]).map PrinterSpec.socket).Nodup
    rw [List.map_append, List.map_singleton, List.nodup_append]
    refine ⟨h.lanes, List.nodup_singleton _, ?_⟩
    intro x hx y hy heq
    obtain ⟨l, hl, rfl⟩ := List.mem_map.mp hx
    rw [List.mem_singleton] at hy
    rcases h.holders l hl with hl | ⟨j, hj⟩
    · exact (h.fresh i e hi).socket l hl (heq.trans hy)
    · have hne : j ≠ i := by
        rintro rfl
        rw [hp] at hj
        cases hj
      have hj' : (s.thread j).phase.adding = some l := by
        rw [hj]
        rfl
      exact (h.rivals j i l e hne hj' hi).2 (heq.trans hy)
  · rcases List.mem_append.mp hl with hl | hl
    · rcases h.holders l hl with hl | ⟨j, hj⟩
      · exact .inl hl
      · have hne : j ≠ i := by
          rintro rfl
          rw [hp] at hj
          cases hj
        exact .inr ⟨j, by rw [put_of_ne s hne, hj]⟩
    · rw [List.mem_singleton] at hl
      exact .inr ⟨i, by rw [put_self, ht, hl]⟩
  · rw [hadd] at hj
    have hf := h.fresh j e' hj
    exact ⟨hf.id, hf.socket, hf.cloud⟩
  · rw [hadd] at hj hk
    exact h.rivals j k e₁ e₂ hne hj hk
  · rw [hclear] at hj
    have hc := h.clear j id hj
    refine ⟨hc.1, fun k e' hk => ?_⟩
    rw [hadd] at hk
    exact hc.2 k e' hk

/-- What the others are at is not what is inserted. -/
theorem Owned.inserted (h : Owned s) {e : PrinterSpec} (hp : (s.thread i).phase = .built e)
    (ht : t.phase = .ready) : Owned (s.put i (s.agent.insert e) t) := by
  have hi : (s.thread i).phase.adding = some e := by
    rw [hp]
    rfl
  have ha : t.phase.adding = none := by
    rw [ht]
    rfl
  refine ⟨h.books.insert (h.fresh i e hi), h.lanes, fun l hl => ?_, fun j e' hj => ?_,
    fun j k e₁ e₂ hne hj hk => ?_, fun j id hj => ?_⟩
  · rcases h.holders l hl with hl | ⟨j, hj⟩
    · exact .inl (List.mem_append_left _ hl)
    · by_cases he : j = i
      · rw [he, hp] at hj
        cases hj
        exact .inl (List.mem_append_right _ (List.mem_singleton_self _))
      · exact .inr ⟨j, by rw [put_of_ne s he, hj]⟩
  · obtain ⟨hne, hj⟩ := adding_put ha hj
    have hf := h.fresh j e' hj
    have hr := h.rivals i j e e' (Ne.symm hne) hi hj
    refine ⟨fun p hp => ?_, fun p hp => ?_, hf.cloud⟩
    · rcases List.mem_append.mp hp with hp | hp
      · exact hf.id p hp
      · rw [List.mem_singleton] at hp
        rw [hp]
        exact hr.1
    · rcases List.mem_append.mp hp with hp | hp
      · exact hf.socket p hp
      · rw [List.mem_singleton] at hp
        rw [hp]
        exact hr.2
  · exact h.rivals j k e₁ e₂ hne (adding_put ha hj).2 (adding_put ha hk).2
  · by_cases he : j = i
    · rw [he, put_self, ht] at hj
      cases hj
    · rw [put_of_ne s he] at hj
      have hc := h.clear j id hj
      refine ⟨fun p hp => ?_, fun k e' hk => hc.2 k e' (adding_put ha hk).2⟩
      rcases List.mem_append.mp hp with hp | hp
      · exact hc.1 p hp
      · rw [List.mem_singleton] at hp
        rw [hp]
        exact hc.2 i e hi

theorem Owned.cleared (h : Owned s) {spec : CloudPrntSpec}
    (hb : ∀ l, (s.thread i).phase ≠ .built l) (ht : t.phase = .clear spec)
    (hid : s.agent.byId spec.id = none)
    (hr : ∀ j e, (s.thread j).phase.adding = some e → e.id ≠ spec.id) :
    Owned (s.put i s.agent t) := by
  have ha : t.phase.adding = none := by
    rw [ht]
    rfl
  refine ⟨h.books, h.lanes, fun l hl => h.lane_put hb _ hl,
    fun j e hj => h.fresh j e (adding_put ha hj).2,
    fun j k e e' hne hj hk => h.rivals j k e e' hne (adding_put ha hj).2 (adding_put ha hk).2,
    fun j id hj => ?_⟩
  by_cases he : j = i
  · rw [he, put_self, ht] at hj
    obtain rfl := Option.some.inj hj
    refine ⟨fun p hp heq => ?_, fun k e hk => hr k e (adding_put ha hk).2⟩
    exact h.books.indexed p hp (heq ▸ hid)
  · rw [put_of_ne s he] at hj
    have hc := h.clear j id hj
    exact ⟨hc.1, fun k e hk => hc.2 k e (adding_put ha hk).2⟩

theorem Owned.registered (h : Owned s) {spec : CloudPrntSpec} {a' : AgentState}
    (hp : (s.thread i).phase = .clear spec) (hr : s.agent.registerCloud spec = .ok a')
    (ht : t.phase = .ready) : Owned (s.put i a' t) := by
  have hi : (s.thread i).phase.clearing = some spec.id := by
    rw [hp]
    rfl
  have hclear := h.clear i spec.id hi
  have hbooks := h.books.register hr hclear.1
  obtain ⟨-, rfl⟩ := Ownership.registered hr
  have ha : t.phase.adding = none := by
    rw [ht]
    rfl
  have hb : ∀ l, (s.thread i).phase ≠ .built l := by
    intro l hl
    rw [hp] at hl
    cases hl
  refine ⟨hbooks, h.lanes, fun l hl => h.lane_put hb _ hl, fun j e hj => ?_,
    fun j k e e' hne hj hk => h.rivals j k e e' hne (adding_put ha hj).2 (adding_put ha hk).2,
    fun j id hj => ?_⟩
  · have hf := h.fresh j e (adding_put ha hj).2
    refine ⟨hf.id, hf.socket, fun hmem => ?_⟩
    rcases List.mem_append.mp hmem with hmem | hmem
    · exact hf.cloud hmem
    · rw [List.mem_singleton] at hmem
      exact hclear.2 j e (adding_put ha hj).2 hmem
  · by_cases he : j = i
    · rw [he, put_self, ht] at hj
      cases hj
    · rw [put_of_ne s he] at hj
      have hc := h.clear j id hj
      exact ⟨hc.1, fun k e hk => hc.2 k e (adding_put ha hk).2⟩

end Steps

/-! ### Runs -/

theorem check_eq_ok {a : AgentState} {knownProfile : Bytes → Bool} {spec e : PrinterSpec}
    (h : a.check knownProfile spec = .ok e) : e = spec.effective ∧ a.byId e.id = none ∧
      ∀ p ∈ a.printers, p.socket ≠ e.socket := by
  unfold AgentState.check at h
  dsimp only at h
  split_ifs at h with hh hp hid
  rcases hf : a.printers.find? fun p => p.socket = spec.effective.socket with _ | p
  · rw [hf] at h
    obtain rfl := Except.ok.inj h
    refine ⟨rfl, by simpa using hid, fun p hp => ?_⟩
    simpa using List.find?_eq_none.mp hf p hp
  · rw [hf] at h
    cases h

theorem checkCloud_eq_ok {a : AgentState} {spec : CloudPrntSpec} {u : Unit}
    (h : a.checkCloud spec = .ok u) : a.byId spec.id = none := by
  unfold AgentState.checkCloud at h
  split_ifs at h with hid
  simpa using hid

/-- **An undisputed step keeps it.** -/
theorem Owned.step {knownProfile : Bytes → Bool} {s s' : System ι} (m : Move ι) (h : Owned s)
    (hu : Undisputed m s) (hs : step knownProfile m s = some s') : Owned s' := by
  cases m with
  | request i spec =>
    dsimp only [Ownership.step] at hs
    split at hs
    · next hthread =>
      obtain rfl := Option.some.inj hs
      refine h.release (fun l hl => ?_) rfl
      rw [hthread] at hl
      cases hl
    · cases hs
  | proceed i transport =>
    dsimp only [Ownership.step] at hs
    obtain ⟨⟨a, t⟩, hr, rfl⟩ := Option.map_eq_some_iff.mp hs
    dsimp only [Undisputed] at hu
    have hphase : ∀ {phase : Phase} {todo : List Task}, s.thread i = ⟨phase, todo⟩ →
        (s.thread i).phase = phase := fun hthread => by rw [hthread]
    have hb : ∀ {phase : Phase} {todo : List Task}, s.thread i = ⟨phase, todo⟩ →
        (∀ l, phase ≠ .built l) → ∀ l, (s.thread i).phase ≠ .built l := by
      intro phase todo hthread hne l
      rw [hphase hthread]
      exact hne l
    rcases hthread : s.thread i with ⟨phase, todo⟩
    rw [hthread] at hr hu
    cases phase with
    | ready =>
      have hready := hb hthread (by simp)
      cases todo with
      | nil => cases hr
      | cons task todo =>
        cases task with
        | add spec =>
          dsimp only [Ownership.proceed] at hr hu
          rcases hc : s.agent.check knownProfile spec with e | e
          · rw [hc] at hr
            obtain ⟨rfl, rfl⟩ := Prod.mk.inj (Option.some.inj hr)
            exact h.release hready rfl
          · rw [hc] at hr
            obtain ⟨rfl, rfl⟩ := Prod.mk.inj (Option.some.inj hr)
            obtain ⟨rfl, hid, hsocket⟩ := check_eq_ok hc
            obtain ⟨hcloud, hothers⟩ := hu
            have hfresh : Fresh s.agent spec.effective := by
              refine ⟨fun p hp heq => h.books.indexed p hp (heq ▸ hid), hsocket, ?_⟩
              rw [h.books.routes]
              exact not_not.mpr hcloud
            exact h.checked hready rfl hfresh (fun j e hj => (hothers j).2 e hj)
              fun j => (hothers j).1
        | cloud spec =>
          dsimp only [Ownership.proceed] at hr hu
          rcases hc : s.agent.checkCloud spec with e | u
          · rw [hc] at hr
            obtain ⟨rfl, rfl⟩ := Prod.mk.inj (Option.some.inj hr)
            exact h.release hready rfl
          · rw [hc] at hr
            obtain ⟨rfl, rfl⟩ := Prod.mk.inj (Option.some.inj hr)
            exact h.cleared hready rfl (checkCloud_eq_ok hc) hu
    | checked e =>
      dsimp only [Ownership.proceed] at hr
      split_ifs at hr
      · obtain ⟨rfl, rfl⟩ := Prod.mk.inj (Option.some.inj hr)
        exact h.built (hphase hthread) rfl
      · obtain ⟨rfl, rfl⟩ := Prod.mk.inj (Option.some.inj hr)
        exact h.release (hb hthread (by simp)) rfl
    | built e =>
      obtain ⟨rfl, rfl⟩ := Prod.mk.inj (Option.some.inj hr)
      exact h.inserted (hphase hthread) rfl
    | clear spec =>
      dsimp only [Ownership.proceed] at hr
      rcases hc : s.agent.registerCloud spec with e | a'
      · rw [hc] at hr
        obtain ⟨rfl, rfl⟩ := Prod.mk.inj (Option.some.inj hr)
        exact h.release (hb hthread (by simp)) rfl
      · rw [hc] at hr
        obtain ⟨rfl, rfl⟩ := Prod.mk.inj (Option.some.inj hr)
        exact h.registered (hphase hthread) hc rfl

theorem owned_startUp (i : ι) (printers : List PrinterSpec) (cloudprnt : List CloudPrntSpec) :
    Owned (startUp i printers cloudprnt) := by
  have hphase : ∀ j, ((startUp i printers cloudprnt).thread j).phase = .ready := by
    intro j
    by_cases he : j = i
    · rw [he, startUp, put_self]
    · rw [startUp, put_of_ne _ he]
  refine ⟨⟨?_, ?_, List.nodup_nil, ?_, List.nodup_nil, ?_⟩, List.nodup_nil, ?_, ?_, ?_, ?_⟩
  · rintro id k ⟨⟩
  · rintro p ⟨⟩
  · intro id
    constructor
    · rintro ⟨⟩
    · intro h
      exact absurd rfl h
  · rintro p ⟨⟩
  · rintro l ⟨⟩
  · intro j e hj
    rw [hphase j] at hj
    cases hj
  · intro j k e e' _ hj
    rw [hphase j] at hj
    cases hj
  · intro j id hj
    rw [hphase j] at hj
    cases hj

omit [DecidableEq ι] in
theorem Owned.oneOwner {s : System ι} (h : Owned s) : OneOwner s.agent := by
  refine ⟨?_, h.lanes, h.books.index⟩
  rw [List.nodup_append]
  refine ⟨h.books.ids, h.books.cloudIds, ?_⟩
  intro id hid id' hid' heq
  obtain ⟨p, hp, rfl⟩ := List.mem_map.mp hid
  exact h.books.apart p hp (heq ▸ hid')

/-- **One owner where no check is disputed**, however start-up and the requests interleave. -/
theorem oneOwner_of_undisputed {knownProfile : Bytes → Bool} {i : ι} {printers : List PrinterSpec}
    {cloudprnt : List CloudPrntSpec} {s : System ι}
    (h : Reach (step knownProfile) Undisputed (startUp i printers cloudprnt) s) :
    OneOwner s.agent :=
  (h.invariant (owned_startUp i printers cloudprnt) fun m _ _ hs hu => hs.step m hu).oneOwner

instance [Fintype ι] (s : System ι) : ∀ t, Decidable (Free s t)
  | ⟨.ready, .add _ :: _⟩ => inferInstanceAs (Decidable (_ ∧ _))
  | ⟨.ready, .cloud _ :: _⟩ => inferInstanceAs (Decidable (∀ _, _))
  | ⟨.ready, []⟩ | ⟨.checked _, _⟩ | ⟨.built _, _⟩ | ⟨.clear _, _⟩ => .isTrue trivial

instance [Fintype ι] : ∀ (m : Move ι) (s : System ι), Decidable (Undisputed m s)
  | .request _ _, _ => .isTrue trivial
  | .proceed i _, s => inferInstanceAs (Decidable (Free s (s.thread i)))

def kitchen : PrinterSpec := { id := str "kitchen", host := str "10.0.0.7" }

/-- Start-up with one printer of each kind, and a request for the first of them. -/
theorem oneOwner_kitchen : ∃ s, (s.agent.printers, s.agent.cloudIds) = ([kitchen], [str "bar"]) ∧
    Reach (step fun _ => true) Undisputed (startUp (0 : Fin 2) [kitchen] [{ id := str "bar" }]) s ∧
    OneOwner s.agent := by
  let moves : List (Move (Fin 2)) := [.proceed 0 true, .proceed 0 true, .request 1 kitchen,
    .proceed 0 true, .proceed 1 true, .proceed 0 true, .proceed 0 true]
  have h : ((replay (step fun _ => true) Undisputed moves
      (startUp (0 : Fin 2) [kitchen] [{ id := str "bar" }])).map fun s =>
        (s.agent.printers, s.agent.cloudIds)) = some ([kitchen], [str "bar"]) := by
    decide +kernel
  obtain ⟨s, hs, he⟩ := Option.map_eq_some_iff.mp h
  have hr := reach_of_replay .init hs
  exact ⟨s, he, hr, oneOwner_of_undisputed hr⟩

/-- The index leads to the right entry whatever is disputed. -/
theorem index_of_reached {knownProfile : Bytes → Bool} {i : ι} {printers : List PrinterSpec}
    {cloudprnt : List CloudPrntSpec} {s : System ι}
    (h : Reach (step knownProfile) (fun _ _ => True) (startUp i printers cloudprnt) s) :
    Indexed s.agent := by
  refine Reach.invariant (I := fun s : System ι => Indexed s.agent) (fun id k hk => ?_)
    (fun m s s' hi _ hs => ?_) h
  · cases hk
  cases m with
  | request i spec =>
    dsimp only [step] at hs
    split at hs
    · obtain rfl := Option.some.inj hs
      exact hi
    · cases hs
  | proceed i transport =>
    dsimp only [step] at hs
    obtain ⟨⟨a, t⟩, hr, rfl⟩ := Option.map_eq_some_iff.mp hs
    show Indexed a
    unfold proceed at hr
    split at hr
    · cases hr
    · split at hr <;> (obtain ⟨rfl, rfl⟩ := Prod.mk.inj (Option.some.inj hr); exact hi)
    · split_ifs at hr <;> (obtain ⟨rfl, rfl⟩ := Prod.mk.inj (Option.some.inj hr); exact hi)
    · obtain ⟨rfl, rfl⟩ := Prod.mk.inj (Option.some.inj hr)
      exact hi.insert _
    · split at hr <;> (obtain ⟨rfl, rfl⟩ := Prod.mk.inj (Option.some.inj hr); exact hi)
    · split at hr
      · next hc =>
        obtain ⟨rfl, rfl⟩ := Prod.mk.inj (Option.some.inj hr)
        obtain ⟨-, rfl⟩ := registered hc
        exact hi
      · obtain ⟨rfl, rfl⟩ := Prod.mk.inj (Option.some.inj hr)
        exact hi

/-! ### Disputed checks -/

/-- Two requests for one printer, both checked before either inserts. -/
def raceMoves : List (Move (Fin 3)) :=
  [.request 1 kitchen, .request 2 kitchen, .proceed 1 true, .proceed 2 true, .proceed 1 true,
    .proceed 2 true, .proceed 1 true, .proceed 2 true]

/-- A CloudPRNT printer out of the configuration, and then a request for a printer under its id. -/
def shadowMoves : List (Move (Fin 3)) :=
  [.proceed 0 true, .proceed 0 true, .request 1 kitchen, .proceed 1 true, .proceed 1 true,
    .proceed 1 true]

/-- The ids and the sockets in use after a run. -/
def inUse (moves : List (Move (Fin 3))) (cloudprnt : List CloudPrntSpec) :
    Option (List Bytes × List (Bytes × ℕ)) :=
  (replay (step fun _ => true) (fun _ _ => True) moves (startUp 0 [] cloudprnt)).map fun s =>
    (s.agent.printers.map PrinterSpec.id ++ s.agent.cloudIds, s.agent.lanes.map PrinterSpec.socket)

theorem reached_of_inUse (moves : List (Move (Fin 3))) (cloudprnt : List CloudPrntSpec)
    (ids : List Bytes) (sockets : List (Bytes × ℕ)) (h : inUse moves cloudprnt = some (ids, sockets)) :
    ∃ s, Reach (step fun _ => true) (fun _ _ => True) (startUp (0 : Fin 3) [] cloudprnt) s ∧
      s.agent.printers.map PrinterSpec.id ++ s.agent.cloudIds = ids ∧
      s.agent.lanes.map PrinterSpec.socket = sockets := by
  obtain ⟨s, hs, he⟩ := Option.map_eq_some_iff.mp h
  obtain ⟨rfl, rfl⟩ := Prod.mk.inj he
  exact ⟨s, reach_of_replay .init hs, rfl, rfl⟩

/-- **Two requests can put two lanes onto one socket**, and a later one can take the id of a CloudPRNT
printer. -/
theorem not_oneOwner :
    (∃ s, Reach (step fun _ => true) (fun _ _ => True) (startUp (0 : Fin 3) [] []) s ∧
      ¬OneOwner s.agent ∧ s.agent.lanes.map PrinterSpec.socket = [kitchen.socket, kitchen.socket]) ∧
    ∃ s, Reach (step fun _ => true) (fun _ _ => True)
        (startUp (0 : Fin 3) [] [{ id := str "kitchen" }]) s ∧
      ¬OneOwner s.agent ∧
      s.agent.printers.map PrinterSpec.id ++ s.agent.cloudIds = [str "kitchen", str "kitchen"] := by
  constructor
  · obtain ⟨s, hr, -, hl⟩ := reached_of_inUse raceMoves [] [str "kitchen", str "kitchen"]
      [kitchen.socket, kitchen.socket] (by decide +kernel)
    refine ⟨s, hr, fun ho => ?_, hl⟩
    have hn := ho.lanes
    rw [hl] at hn
    revert hn
    decide
  · obtain ⟨s, hr, hids, -⟩ := reached_of_inUse shadowMoves [{ id := str "kitchen" }]
      [str "kitchen", str "kitchen"] [kitchen.socket] (by decide +kernel)
    refine ⟨s, hr, fun ho => ?_, hids⟩
    have hn := ho.ids
    rw [hids] at hn
    revert hn
    decide

end PrinterDriver.Agent.Ownership
