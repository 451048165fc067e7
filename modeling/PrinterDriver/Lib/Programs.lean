import Mathlib.Logic.Relation

/-! # Programs over an interface, and what they guarantee under interference

A program is a tree of calls to an interface: it performs a call, gets an answer and goes on with
the answer. A `World` says how a call is answered in a state (`answers`), what the other threads
and the environment may do to the state between two calls (`others`), and what must hold of the
state whenever a call is made (`allowed`).

`Safe W Q p s` says that `p`, run from `s` under any interference, makes only allowed calls and
ends in a state that meets `Q` if it ends. It is closed under both kinds of step (`Safe.others`,
`Safe.answer`), so it is an invariant of every run; `Triple` is its Hoare form, with one rule for
each way a program is built. A `Triple` may assume only what interference keeps (`Stable`). -/

namespace PrinterDriver.Lib.Programs

open Relation

/-- The calls a program can make and the type of the answer to each. -/
structure Interface where
  Call : Type
  Answer : Call → Type

/-- A program: a value, or a call and what is done with its answer. -/
inductive Prog (E : Interface) (α : Type) where
  | ret (a : α)
  | call (c : E.Call) (k : E.Answer c → Prog E α)

variable {E : Interface} {α β σ : Type}

namespace Prog

/-- Sequencing. -/
def bind : Prog E α → (α → Prog E β) → Prog E β
  | .ret a, f => f a
  | .call c k, f => .call c fun a => (k a).bind f

instance : Monad (Prog E) where
  pure := .ret
  bind := bind

/-- The program that makes one call. -/
@[simp] def perform (c : E.Call) : Prog E (E.Answer c) := .call c .ret

@[simp] theorem pure_eq (a : α) : (pure a : Prog E α) = .ret a := rfl

@[simp] theorem ret_bind (a : α) (f : α → Prog E β) : (.ret a : Prog E α) >>= f = f a := rfl

@[simp] theorem call_bind (c : E.Call) (k : E.Answer c → Prog E α) (f : α → Prog E β) :
    (Prog.call c k : Prog E α) >>= f = .call c fun a => k a >>= f := rfl

/-- `Trace p t q`: from `p`, the calls and answers `t` lead to `q`. -/
inductive Trace : Prog E α → List (Σ c : E.Call, E.Answer c) → Prog E α → Prop
  | nil (p : Prog E α) : Trace p [] p
  | cons {c : E.Call} {k : E.Answer c → Prog E α} {a : E.Answer c}
      {t : List (Σ c : E.Call, E.Answer c)} {q : Prog E α} (h : Trace (k a) t q) :
      Trace (.call c k) (⟨c, a⟩ :: t) q

/-- A finite run ends at its first call that was not answered. -/
theorem Trace.split {p q : Prog E α} {x : Σ c : E.Call, E.Answer c} :
    ∀ {t₁ t₂ : List (Σ c : E.Call, E.Answer c)}, Trace p (t₁ ++ x :: t₂) q →
      ∃ k : E.Answer x.1 → Prog E α, Trace p t₁ (.call x.1 k) ∧ Trace (k x.2) t₂ q
  | [], _, .cons (k := k) h => ⟨k, .nil _, h⟩
  | _ :: _, _, .cons h => by
    obtain ⟨k, h₁, h₂⟩ := h.split
    exact ⟨k, .cons h₁, h₂⟩

theorem Trace.append {p q r : Prog E α} {t u : List (Σ c : E.Call, E.Answer c)} (h : Trace p t q)
    (h' : Trace q u r) : Trace p (t ++ u) r := by
  induction h with
  | nil => exact h'
  | cons _ ih => exact .cons (ih h')

/-- A run of the first part is a run of the whole. -/
theorem Trace.bind {p q : Prog E α} {t : List (Σ c : E.Call, E.Answer c)} (h : Trace p t q)
    (f : α → Prog E β) : Trace (p >>= f) t (q >>= f) := by
  induction h with
  | nil p => exact .nil _
  | cons _ ih => exact .cons ih

/-- Answer the calls by a function, as long as it answers. -/
def play (f : (c : E.Call) → Option (E.Answer c)) :
    Prog E α → List (Σ c : E.Call, E.Answer c) × Prog E α
  | .ret a => ([], .ret a)
  | .call c k =>
    match f c with
    | some a => (⟨c, a⟩ :: (play f (k a)).1, (play f (k a)).2)
    | none => ([], .call c k)

theorem trace_play (f : (c : E.Call) → Option (E.Answer c)) :
    ∀ p : Prog E α, Trace p (play f p).1 (play f p).2
  | .ret _ => .nil _
  | .call c k => by
    unfold play
    cases f c with
    | none => exact .nil _
    | some a => exact .cons (trace_play f (k a))

/-- Every call the program can make is one of these. -/
def Only (S : E.Call → Prop) : Prog E α → Prop
  | .ret _ => True
  | .call c k => S c ∧ ∀ a, Only S (k a)

theorem Only.bind {S : E.Call → Prop} {f : α → Prog E β} :
    ∀ {p : Prog E α}, Only S p → (∀ a, Only S (f a)) → Only S (p >>= f)
  | .ret a, _, hf => hf a
  | .call _ _, h, hf => ⟨h.1, fun a => Only.bind (h.2 a) hf⟩

theorem Only.trace {S : E.Call → Prop} {p q : Prog E α} {t : List (Σ c : E.Call, E.Answer c)}
    (ht : Trace p t q) (h : Only S p) : ∀ e ∈ t, S e.1 := by
  induction ht with
  | nil => exact fun _ he => nomatch he
  | cons _ ih =>
    intro e he
    rcases List.mem_cons.mp he with rfl | he
    · exact h.1
    · exact ih (h.2 _) e he

theorem Only.all : ∀ p : Prog E α, Only (fun _ => True) p
  | .ret _ => trivial
  | .call _ k => ⟨trivial, fun a => Only.all (k a)⟩

theorem Only.perform {S : E.Call → Prop} {c : E.Call} (h : S c) : Only S (perform c) :=
  ⟨h, fun _ => trivial⟩

theorem Only.mono {S S' : E.Call → Prop} (hS : ∀ c, S c → S' c) :
    ∀ {p : Prog E α}, Only S p → Only S' p
  | .ret _, _ => trivial
  | .call c _, h => ⟨hS c h.1, fun a => (h.2 a).mono hS⟩

end Prog

/-- How calls are answered, what others may do meanwhile, and which calls are allowed when. -/
structure World (E : Interface) (σ : Type) where
  answers : (c : E.Call) → σ → E.Answer c → σ → Prop
  others : σ → σ → Prop
  allowed : E.Call → σ → Prop

/-- Under any interference, only allowed calls, and `Q` at the end. -/
def Safe (W : World E σ) (Q : α → σ → Prop) : Prog E α → σ → Prop
  | .ret a, s => ∀ s', ReflTransGen W.others s s' → Q a s'
  | .call c k, s => ∀ s', ReflTransGen W.others s s' →
      W.allowed c s' ∧ ∀ a s'', W.answers c s' a s'' → Safe W Q (k a) s''

section Safe
variable {W : World E σ} {Q : α → σ → Prop}

/-- Interference keeps a program safe. -/
theorem Safe.others {p : Prog E α} {s s' : σ} (h : Safe W Q p s) (hs : W.others s s') :
    Safe W Q p s' := by
  cases p with
  | ret a => exact fun t ht => h t (.head hs ht)
  | call c k => exact fun t ht => h t (.head hs ht)

theorem Safe.allowed {c : E.Call} {k : E.Answer c → Prog E α} {s : σ}
    (h : Safe W Q (.call c k) s) : W.allowed c s := (h s .refl).1

/-- An answered call keeps a program safe. -/
theorem Safe.answer {c : E.Call} {k : E.Answer c → Prog E α} {s s' : σ} {a : E.Answer c}
    (h : Safe W Q (.call c k) s) (ha : W.answers c s a s') : Safe W Q (k a) s' :=
  (h s .refl).2 a s' ha

theorem Safe.ret {a : α} {s : σ} (h : Safe W Q (.ret a) s) : Q a s := h s .refl

theorem Safe.mono {Q' : α → σ → Prop} (hQ : ∀ a s, Q a s → Q' a s) :
    ∀ {p : Prog E α} {s : σ}, Safe W Q p s → Safe W Q' p s
  | .ret a, _, h => fun t ht => hQ a t (h t ht)
  | .call _ _, _, h => fun t ht => ⟨(h t ht).1, fun a u hu => ((h t ht).2 a u hu).mono hQ⟩

theorem Safe.bind {Q' : β → σ → Prop} {f : α → Prog E β} :
    ∀ {p : Prog E α} {s : σ}, Safe W (fun a s => Safe W Q' (f a) s) p s →
      Safe W Q' (p >>= f) s
  | .ret _, s, h => h s .refl
  | .call _ _, _, h => fun t ht => ⟨(h t ht).1, fun a u hu => Safe.bind ((h t ht).2 a u hu)⟩

end Safe

/-- What interference keeps. -/
def Stable (W : World E σ) (P : σ → Prop) : Prop := ∀ s s', P s → W.others s s' → P s'

theorem Stable.star {W : World E σ} {P : σ → Prop} (h : Stable W P) {s s' : σ} (hP : P s)
    (hs : ReflTransGen W.others s s') : P s' := by
  induction hs with
  | refl => exact hP
  | tail _ hstep ih => exact h _ _ ih hstep

/-- From every state that meets `P`, the program is safe and ends in `Q`. -/
def Triple (W : World E σ) (P : σ → Prop) (p : Prog E α) (Q : α → σ → Prop) : Prop :=
  ∀ s, P s → Safe W Q p s

section Triple
variable {W : World E σ} {P : σ → Prop}

theorem Triple.ret {a : α} {Q : α → σ → Prop} (hP : Stable W P) (h : ∀ s, P s → Q a s) :
    Triple W P (.ret a) Q := fun _ hs t ht => h t (hP.star hs ht)

/-- The rule for a call: what holds before it is stable and allows it, and after every answer the
rest of the program is safe from what the answer leaves. -/
theorem Triple.call {c : E.Call} {k : E.Answer c → Prog E α} {Q : α → σ → Prop}
    (hP : Stable W P) (hc : ∀ s, P s → W.allowed c s) (R : E.Answer c → σ → Prop)
    (hR : ∀ s a s', P s → W.answers c s a s' → R a s') (hk : ∀ a, Triple W (R a) (k a) Q) :
    Triple W P (.call c k) Q := fun _ hs t ht =>
  ⟨hc t (hP.star hs ht), fun a u hu => hk a u (hR t a u (hP.star hs ht) hu)⟩

theorem Triple.perform {c : E.Call} {Q : E.Answer c → σ → Prop} (hP : Stable W P)
    (hc : ∀ s, P s → W.allowed c s) (hQ : ∀ a, Stable W (Q a))
    (hR : ∀ s a s', P s → W.answers c s a s' → Q a s') :
    Triple W P (Prog.perform c) Q :=
  Triple.call hP hc Q hR fun a => Triple.ret (hQ a) fun _ h => h

theorem Triple.bind {p : Prog E α} {f : α → Prog E β} {R : α → σ → Prop} {Q : β → σ → Prop}
    (hp : Triple W P p R) (hf : ∀ a, Triple W (R a) (f a) Q) : Triple W P (p >>= f) Q :=
  fun s hs => Safe.bind ((hp s hs).mono fun a t ht => hf a t ht)

theorem Triple.conseq {p : Prog E α} {P' : σ → Prop} {Q Q' : α → σ → Prop}
    (h : Triple W P p Q) (hP : ∀ s, P' s → P s) (hQ : ∀ a s, Q a s → Q' a s) :
    Triple W P' p Q' := fun s hs => (h s (hP s hs)).mono hQ

theorem Triple.pre {p : Prog E α} {P' : σ → Prop} {Q : α → σ → Prop} (h : Triple W P p Q)
    (hP : ∀ s, P' s → P s) : Triple W P' p Q := fun s hs => h s (hP s hs)

/-- What every call of the program keeps, the program keeps. -/
theorem Triple.only {p : Prog E α} {S : E.Call → Prop} (h : p.Only S) (hP : Stable W P)
    (hc : ∀ c s, S c → P s → W.allowed c s)
    (hk : ∀ c s a s', S c → P s → W.answers c s a s' → P s') : Triple W P p fun _ => P := by
  induction p with
  | ret a => exact Triple.ret hP fun _ h => h
  | call c k ih =>
    exact Triple.call hP (fun s => hc c s h.1) (fun _ => P) (fun s a s' => hk c s a s' h.1)
      fun a => ih a (h.2 a)

/-- A precondition that never holds. -/
theorem Triple.absurd {p : Prog E α} {Q : α → σ → Prop} (hP : ∀ s, ¬ P s) : Triple W P p Q :=
  fun s hs => (hP s hs).elim

end Triple

/-! ### Runs in a world -/

/-- Answered as the world says, and whatever interferes, the program has come to another, in a
state. -/
inductive Reach (W : World E σ) : Prog E α → σ → Prog E α → σ → Prop
  | nil (p : Prog E α) (s : σ) : Reach W p s p s
  | call {c : E.Call} {k : E.Answer c → Prog E α} {b : E.Answer c} {q : Prog E α} {s t u v : σ}
      (hs : ReflTransGen W.others s t) (h : W.answers c t b u) (hk : Reach W (k b) u q v) :
      Reach W (.call c k) s q v

/-- The program has ended with a value. -/
def Finish (W : World E σ) (p : Prog E α) (s : σ) (a : α) (s' : σ) : Prop :=
  Reach W p s (.ret a) s'

theorem Safe.reach {W : World E σ} {Q : α → σ → Prop} {p q : Prog E α} {s t : σ}
    (hrun : Reach W p s q t) (h : Safe W Q p s) : Safe W Q q t := by
  induction hrun with
  | nil => exact h
  | call hs ha _ ih => exact ih ((h _ hs).2 _ _ ha)

theorem Safe.finish {W : World E σ} {Q : α → σ → Prop} {p : Prog E α} {s s' : σ} {a : α}
    (hrun : Finish W p s a s') (h : Safe W Q p s) : Q a s' := (h.reach hrun).ret

/-! ### Exceptions

A call may throw instead of answering. Nothing in a program catches, so that it ends there. -/

/-- A call of a run, with its answer if there was one. -/
abbrev Made (E : Interface) := Σ c : E.Call, Option (E.Answer c)

/-- The calls of a run of the program, and the value it returns if no call throws. -/
inductive Ran (throws : E.Call → Prop) : Prog E α → List (Made E) → Option α → Prop
  | ret (a : α) : Ran throws (.ret a) [] (some a)
  | answer {c : E.Call} {k : E.Answer c → Prog E α} {a : E.Answer c} {t : List (Made E)}
      {r : Option α} (h : Ran throws (k a) t r) : Ran throws (.call c k) (⟨c, some a⟩ :: t) r
  | throw {c : E.Call} {k : E.Answer c → Prog E α} (h : throws c) :
      Ran throws (.call c k) [⟨c, none⟩] none

/-- A run returns unless a call of it throws. -/
theorem Ran.returned {throws : E.Call → Prop} {p : Prog E α} {t : List (Made E)} {r : Option α}
    (h : Ran throws p t r) : r.isSome = true ↔ ∀ m ∈ t, m.2.isSome = true := by
  induction h with
  | ret a => simp
  | answer _ ih => simpa using ih
  | throw _ => simp

/-- `p` does not throw as long as the answers are valid, and what it returns then meets `Q`. -/
def Returns (throws : E.Call → Prop) (valid : (c : E.Call) → E.Answer c → Prop) (Q : α → Prop) :
    Prog E α → Prop
  | .ret a => Q a
  | .call c k => ¬ throws c ∧ ∀ a, valid c a → Returns throws valid Q (k a)

section Returns
variable {throws : E.Call → Prop} {valid : (c : E.Call) → E.Answer c → Prop} {Q : α → Prop}

@[simp] theorem returns_ret {a : α} : Returns throws valid Q (.ret a) ↔ Q a := Iff.rfl

@[simp] theorem returns_call {c : E.Call} {k : E.Answer c → Prog E α} :
    Returns throws valid Q (.call c k) ↔
      ¬ throws c ∧ ∀ a, valid c a → Returns throws valid Q (k a) := Iff.rfl

theorem returns_bind {Q : β → Prop} {f : α → Prog E β} : ∀ {p : Prog E α},
    Returns throws valid Q (p >>= f) ↔ Returns throws valid (fun a => Returns throws valid Q (f a)) p
  | .ret _ => Iff.rfl
  | .call _ _ => and_congr_right fun _ => forall_congr' fun _ => imp_congr_right fun _ => returns_bind

theorem Returns.mono {Q' : α → Prop} (hQ : ∀ a, Q a → Q' a) :
    ∀ {p : Prog E α}, Returns throws valid Q p → Returns throws valid Q' p
  | .ret a, h => hQ a h
  | .call _ _, h => ⟨h.1, fun a ha => (h.2 a ha).mono hQ⟩

/-- Along a run with valid answers no call throws. -/
theorem Returns.trace {p q : Prog E α} {t : List (Σ c : E.Call, E.Answer c)}
    (ht : Prog.Trace p t q) (h : Returns throws valid Q p) (hv : ∀ e ∈ t, valid e.1 e.2) :
    ∀ e ∈ t, ¬ throws e.1 := by
  induction ht with
  | nil => exact fun _ he => nomatch he
  | cons _ ih =>
    intro e he
    rcases List.mem_cons.mp he with rfl | he
    · exact h.1
    · exact ih (h.2 _ (hv _ List.mem_cons_self)) (fun e he => hv e (List.mem_cons_of_mem _ he)) e he

theorem returns_of_only : ∀ {p : Prog E α}, p.Only (fun c => ¬ throws c) →
    Returns throws valid (fun _ => True) p
  | .ret _, _ => trivial
  | .call _ _, h => ⟨h.1, fun a _ => returns_of_only (h.2 a)⟩

/-- The answers of a run are valid. -/
def ValidRun (valid : (c : E.Call) → E.Answer c → Prop) (t : List (Made E)) : Prop :=
  ∀ m ∈ t, ∀ a, m.2 = some a → valid m.1 a

/-- It is the runs with valid answers that this speaks of. -/
theorem returns_iff : ∀ {p : Prog E α}, Returns throws valid (fun _ => True) p ↔
    ∀ t r, Ran throws p t r → ValidRun valid t → r.isSome = true
  | .ret a => by
    refine iff_of_true trivial fun t r h _ => ?_
    cases h
    rfl
  | .call c k => by
    constructor
    · intro h t r hran hv
      cases hran with
      | @answer _ _ a t r hran =>
        exact returns_iff.mp (h.2 a (hv _ List.mem_cons_self a rfl)) t r hran fun m hm =>
          hv m (List.mem_cons_of_mem _ hm)
      | throw hc => exact absurd hc h.1
    · intro h
      refine ⟨fun hc => ?_, fun a ha => returns_iff.mpr fun t r hran hv => ?_⟩
      · exact absurd (h _ _ (.throw hc) fun m hm a he => by
          obtain rfl := List.mem_singleton.mp hm
          cases he) (by simp)
      · refine h _ r (.answer hran) fun m hm b he => ?_
        rcases List.mem_cons.mp hm with rfl | hm
        · obtain rfl : a = b := Option.some.inj he
          exact ha
        · exact hv m hm b he

end Returns

/-! ### Embedding

A program over one interface as a part of a program over a larger one. -/

section Embed
variable {E' : Interface}

/-- The program, its calls renamed. -/
def Prog.embed (f : E.Call → E'.Call) (g : ∀ c, E'.Answer (f c) → E.Answer c) :
    Prog E α → Prog E' α
  | .ret a => .ret a
  | .call c k => .call (f c) fun a => (k (g c a)).embed f g

theorem Prog.Only.embed {S : E.Call → Prop} {S' : E'.Call → Prop} {f : E.Call → E'.Call}
    {g : ∀ c, E'.Answer (f c) → E.Answer c} (hS : ∀ c, S c → S' (f c)) :
    ∀ {p : Prog E α}, p.Only S → (p.embed f g).Only S'
  | .ret _, _ => trivial
  | .call c _, h => ⟨hS c h.1, fun a => (h.2 (g c a)).embed hS⟩

/-- The world as the embedded program sees it. -/
def World.pull (W : World E' σ) (f : E.Call → E'.Call) (g : ∀ c, E'.Answer (f c) → E.Answer c) :
    World E σ where
  answers c s a s' := ∃ a', W.answers (f c) s a' s' ∧ g c a' = a
  others := W.others
  allowed c s := W.allowed (f c) s

theorem Safe.embed {W : World E' σ} {f : E.Call → E'.Call} {g : ∀ c, E'.Answer (f c) → E.Answer c}
    {Q : α → σ → Prop} : ∀ {p : Prog E α} {s : σ}, Safe (W.pull f g) Q p s → Safe W Q (p.embed f g) s
  | .ret _, _, h => h
  | .call _ _, _, h => fun t ht =>
    ⟨(h t ht).1, fun a u hu => Safe.embed ((h t ht).2 _ u ⟨a, hu, rfl⟩)⟩

end Embed

/-! ### Observers

An observer folds the calls and their answers into a state of its own; nothing interferes. -/

/-- The world of an observer. -/
def observe (post : σ → (Σ c : E.Call, E.Answer c) → σ) (allowed : E.Call → σ → Prop) :
    World E σ where
  answers c s a s' := s' = post s ⟨c, a⟩
  others _ _ := False
  allowed := allowed

section Observe
variable {post : σ → (Σ c : E.Call, E.Answer c) → σ} {allowed : E.Call → σ → Prop}

theorem star_observe {s s' : σ} (h : ReflTransGen (observe post allowed).others s s') : s' = s := by
  induction h with
  | refl => rfl
  | tail _ h _ => exact h.elim

@[simp] theorem safe_observe_ret {Q : α → σ → Prop} {a : α} {s : σ} :
    Safe (observe post allowed) Q (.ret a) s ↔ Q a s :=
  ⟨fun h => h s .refl, fun h s' hs => by rwa [star_observe hs]⟩

@[simp] theorem safe_observe_call {Q : α → σ → Prop} {c : E.Call} {k : E.Answer c → Prog E α}
    {s : σ} : Safe (observe post allowed) Q (.call c k) s ↔
      allowed c s ∧ ∀ a, Safe (observe post allowed) Q (k a) (post s ⟨c, a⟩) :=
  ⟨fun h => ⟨(h s .refl).1, fun a => (h s .refl).2 a _ rfl⟩, fun h s' hs => by
    rw [star_observe hs]
    exact ⟨h.1, fun a u hu => by rw [hu]; exact h.2 a⟩⟩

/-- Two observers together. -/
theorem Safe.pair {τ : Type} {post' : τ → (Σ c : E.Call, E.Answer c) → τ}
    {allowed' : E.Call → τ → Prop} {Q : α → σ → Prop} {Q' : α → τ → Prop} :
    ∀ {p : Prog E α} {s : σ} {t : τ}, Safe (observe post allowed) Q p s →
      Safe (observe post' allowed') Q' p t →
      Safe (observe (fun u x => (post u.1 x, post' u.2 x)) fun c u => allowed c u.1 ∧ allowed' c u.2)
        (fun a u => Q a u.1 ∧ Q' a u.2) p (s, t)
  | .ret _, _, _, h, h' =>
    safe_observe_ret.mpr ⟨safe_observe_ret.mp h, safe_observe_ret.mp h'⟩
  | .call _ _, _, _, h, h' =>
    safe_observe_call.mpr ⟨⟨(safe_observe_call.mp h).1, (safe_observe_call.mp h').1⟩, fun a =>
      Safe.pair ((safe_observe_call.mp h).2 a) ((safe_observe_call.mp h').2 a)⟩

/-- Where a view of the state is what an observer sees, what is safe to it is safe; `I` is what the
program relies on meanwhile. -/
theorem Safe.simulate {τ : Type} {post : τ → (Σ c : E.Call, E.Answer c) → τ}
    {allowed : E.Call → τ → Prop} {W : World E σ} {view : σ → τ} {I : σ → Prop}
    {Q : α → τ → Prop} (hothers : ∀ s s', I s → W.others s s' → I s' ∧ view s' = view s)
    (hanswers : ∀ c s a s', I s → allowed c (view s) → W.answers c s a s' →
      I s' ∧ view s' = post (view s) ⟨c, a⟩)
    (hallowed : ∀ c s, I s → allowed c (view s) → W.allowed c s) :
    ∀ {p : Prog E α} {s : σ}, I s → Safe (observe post allowed) Q p (view s) →
      Safe W (fun a s => I s ∧ Q a (view s)) p s := by
  have hstar : ∀ {s t : σ}, I s → ReflTransGen W.others s t → I t ∧ view t = view s := by
    intro s t hI hst
    induction hst with
    | refl => exact ⟨hI, rfl⟩
    | tail _ hstep ih =>
      obtain ⟨hI', hv⟩ := hothers _ _ ih.1 hstep
      exact ⟨hI', hv.trans ih.2⟩
  intro p
  induction p with
  | ret a =>
    intro s hI h t ht
    obtain ⟨hI', hv⟩ := hstar hI ht
    exact ⟨hI', hv ▸ safe_observe_ret.mp h⟩
  | call c k ih =>
    intro s hI h t ht
    obtain ⟨hI', hv⟩ := hstar hI ht
    obtain ⟨hc, hk⟩ := safe_observe_call.mp h
    rw [← hv] at hc hk
    refine ⟨hallowed c t hI' hc, fun a u hu => ?_⟩
    obtain ⟨hIu, hvu⟩ := hanswers c t a u hI' hc hu
    exact ih a hIu (hvu ▸ hk a)

/-- A safe program stays safe along its runs. -/
theorem Safe.trace {Q : α → σ → Prop} {p q : Prog E α} {t : List (Σ c : E.Call, E.Answer c)}
    (h : Prog.Trace p t q) : ∀ {s : σ}, Safe (observe post allowed) Q p s →
      Safe (observe post allowed) Q q (t.foldl post s) := by
  induction h with
  | nil p => exact fun hs => hs
  | cons _ ih => exact fun hs => ih ((safe_observe_call.mp hs).2 _)

end Observe

end PrinterDriver.Lib.Programs
