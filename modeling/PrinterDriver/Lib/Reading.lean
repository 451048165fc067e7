import Mathlib.Data.List.Basic

/-! # Readers that warn

A reader gives a value with the warnings it has about its input, or fails. Two rules carry the proofs about
readers: what holds of every value that one gives (`Yields`), and that one which gives a value without a
warning can be left out of a sequence (`bind_of_eq_pure`). -/

namespace PrinterDriver.Lib.Reading

/-- What is read with the warnings about it, or the message of a failure. -/
def Read (ω α : Type) : Type := Except ω (α × List ω)

namespace Read

variable {ω α β γ : Type}

def fail (message : ω) : Read ω α := .error message

def warnings (messages : List ω) : Read ω Unit := .ok ((), messages)

def warn (message : ω) : Read ω Unit := warnings [message]

/-- The warnings so far come first. -/
def after (earlier : List ω) : Read ω α → Read ω α
  | .error message => .error message
  | .ok (a, later) => .ok (a, earlier ++ later)

instance : Monad (Read ω) where
  pure a := .ok (a, [])
  bind x f :=
    match x with
    | .error message => .error message
    | .ok (a, earlier) => after earlier (f a)

/-- A reader for each element, which is told the index of it. -/
def each (f : ℕ → α → Read ω β) : ℕ → List α → Read ω (List β)
  | _, [] => pure []
  | i, a :: as => do
    let b ← f i a
    let bs ← each f (i + 1) as
    pure (b :: bs)

/-! ### Without a warning -/

theorem after_nil (x : Read ω α) : after [] x = x := by
  rcases x with message | ⟨a, later⟩ <;> rfl

/-- What gives a value and nothing else can be left out. -/
theorem bind_of_eq_pure {x : Read ω α} {a : α} (h : x = pure a) (f : α → Read ω β) :
    (x >>= f) = f a := by
  rw [h]
  exact after_nil (f a)

@[simp] theorem pure_bind (a : α) (f : α → Read ω β) : ((pure a : Read ω α) >>= f) = f a :=
  bind_of_eq_pure rfl f

@[simp] theorem warnings_nil : (warnings [] : Read ω Unit) = pure () := rfl

/-- What is read of each of the elements that values were written as. -/
theorem each_map_eq_pure {f : ℕ → α → Read ω β} {write : γ → α} {kept : γ → β} :
    ∀ {cs : List γ} {i : ℕ}, (∀ c ∈ cs, ∀ i, f i (write c) = pure (kept c)) →
      each f i (cs.map write) = pure (cs.map kept)
  | [], _, _ => rfl
  | c :: cs, i, h => by
    have hhead := h c List.mem_cons_self i
    have htail := @each_map_eq_pure f write kept cs (i + 1) fun d hd =>
      h d (List.mem_cons_of_mem _ hd)
    rw [List.map_cons, each, bind_of_eq_pure hhead, bind_of_eq_pure htail]
    rfl

/-! ### What holds of a value that is read -/

def Yields (x : Read ω α) (P : α → Prop) : Prop := ∀ a messages, x = .ok (a, messages) → P a

variable {P : α → Prop} {Q : β → Prop}

theorem yields_pure {a : α} (h : P a) : Yields (pure a : Read ω α) P := by
  intro b messages hb
  obtain ⟨rfl, -⟩ := Prod.mk.inj (Except.ok.inj hb)
  exact h

theorem yields_fail {message : ω} : Yields (fail message : Read ω α) P := by
  intro a messages h
  cases h

theorem yields_trivial {x : Read ω α} : Yields x fun _ => True := fun _ _ _ => trivial

theorem Yields.imp {x : Read ω α} {P' : α → Prop} (h : Yields x P) (hP : ∀ a, P a → P' a) :
    Yields x P' := fun a messages ha => hP a (h a messages ha)

theorem Yields.bind {x : Read ω α} {f : α → Read ω β} (hx : Yields x P)
    (hf : ∀ a, P a → Yields (f a) Q) : Yields (x >>= f) Q := by
  intro b messages h
  rcases x with message | ⟨a, earlier⟩
  · cases h
  · have ha : P a := hx a earlier rfl
    rcases hb : f a with message | ⟨b', later⟩
    · have h' : after earlier (f a) = .ok (b, messages) := h
      rw [hb] at h'
      cases h'
    · have h' : after earlier (f a) = .ok (b, messages) := h
      rw [hb] at h'
      obtain ⟨rfl, -⟩ := Prod.mk.inj (Except.ok.inj h')
      exact hf a ha b' later hb

/-- Where nothing is known of the first value. -/
theorem Yields.then {x : Read ω α} {f : α → Read ω β} (hf : ∀ a, Yields (f a) Q) :
    Yields (x >>= f) Q := yields_trivial.bind fun a _ => hf a

theorem yields_each {f : ℕ → α → Read ω β} :
    ∀ {as : List α} {i : ℕ}, (∀ a ∈ as, ∀ i, Yields (f i a) Q) →
      Yields (each f i as) fun bs => bs.length = as.length ∧ ∀ b ∈ bs, Q b
  | [], _, _ => yields_pure ⟨rfl, fun b hb => absurd hb List.not_mem_nil⟩
  | a :: as, i, h => by
    have hhead := h a List.mem_cons_self i
    have htail := @yields_each _ as (i + 1) fun b hb => h b (List.mem_cons_of_mem _ hb)
    refine hhead.bind fun b hb => htail.bind fun bs hbs => yields_pure ⟨?_, ?_⟩
    · rw [List.length_cons, hbs.1, List.length_cons]
    · intro c hc
      rcases List.mem_cons.mp hc with rfl | hc
      · exact hb
      · exact hbs.2 c hc

end Read

end PrinterDriver.Lib.Reading
