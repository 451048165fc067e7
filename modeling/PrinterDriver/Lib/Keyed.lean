import Mathlib.Data.List.Find
import Mathlib.Data.List.Induction
import Mathlib.Data.List.Nodup

/-! # Records kept by a key and found by another attribute

A store replaces the record with the key of a new one and is asked for the first record with some
attribute. It answers with the latest record of that attribute, after every step of a history, exactly if
the keys tell the attributes apart and nothing more (`found_iff`). -/

namespace PrinterDriver.Lib.Keyed

section

variable {α κ : Type*} [DecidableEq κ] (key : α → κ)

/-- The first record with the key of `a` becomes `a`; without one, `a` is added. -/
def upsert (a : α) : List α → List α
  | [] => [a]
  | b :: l => if key b = key a then a :: l else b :: upsert a l

theorem mem_of_mem_upsert {a r : α} {l : List α} (h : r ∈ upsert key a l) : r = a ∨ r ∈ l := by
  induction l with
  | nil => exact .inl (by simpa [upsert] using h)
  | cons b l ih =>
    unfold upsert at h
    split_ifs at h
    · rcases List.mem_cons.mp h with rfl | h
      · exact .inl rfl
      · exact .inr (List.mem_cons_of_mem b h)
    · rcases List.mem_cons.mp h with rfl | h
      · exact .inr List.mem_cons_self
      · exact (ih h).imp_right (List.mem_cons_of_mem b)

/-- A key that no record has. -/
theorem upsert_fresh {a : α} {l : List α} (h : ∀ r ∈ l, key r ≠ key a) :
    upsert key a l = l ++ [a] := by
  induction l with
  | nil => rfl
  | cons b l ih =>
    have hb : key b ≠ key a := h b List.mem_cons_self
    rw [upsert, if_neg hb, ih fun r hr => h r (List.mem_cons_of_mem b hr), List.cons_append]

/-- The keys of a store differ, so that nothing but the new record has its key. -/
theorem key_ne_of_mem_upsert {a r : α} {l : List α} (hl : (l.map key).Nodup)
    (h : r ∈ upsert key a l) : r = a ∨ r ∈ l ∧ key r ≠ key a := by
  induction l with
  | nil => exact .inl (by simpa [upsert] using h)
  | cons b l ih =>
    rw [List.map_cons, List.nodup_cons] at hl
    unfold upsert at h
    split_ifs at h with hb
    · rcases List.mem_cons.mp h with rfl | h
      · exact .inl rfl
      · refine .inr ⟨List.mem_cons_of_mem b h, fun hr => hl.1 ?_⟩
        rw [hb, ← hr]
        exact List.mem_map_of_mem h
    · rcases List.mem_cons.mp h with rfl | h
      · exact .inr ⟨List.mem_cons_self, hb⟩
      · exact (ih hl.2 h).imp_right fun hr => ⟨List.mem_cons_of_mem b hr.1, hr.2⟩

theorem nodup_upsert {a : α} {l : List α} (hl : (l.map key).Nodup) :
    ((upsert key a l).map key).Nodup := by
  induction l with
  | nil => simp [upsert]
  | cons b l ih =>
    rw [List.map_cons, List.nodup_cons] at hl
    unfold upsert
    split_ifs with hb
    · rw [List.map_cons, List.nodup_cons, ← hb]
      exact hl
    · rw [List.map_cons, List.nodup_cons]
      refine ⟨fun hm => ?_, ih hl.2⟩
      obtain ⟨r, hr, hk⟩ := List.mem_map.mp hm
      rcases key_ne_of_mem_upsert key hl.2 hr with rfl | ⟨hr, -⟩
      · exact hb hk.symm
      · exact hl.1 (by rw [← hk]; exact List.mem_map_of_mem hr)

theorem find_upsert (k : κ) (a : α) (l : List α) :
    (upsert key a l).find? (fun r => decide (key r = k)) =
      if key a = k then some a else l.find? fun r => decide (key r = k) := by
  induction l with
  | nil => by_cases h : key a = k <;> simp [upsert, h]
  | cons b l ih =>
    unfold upsert
    split_ifs with hb ha ha
    · rw [List.find?_cons_of_pos (by simpa using ha)]
    · have hk : key b ≠ k := fun h => ha (by rw [← hb, h])
      rw [List.find?_cons_of_neg (by simpa using ha), List.find?_cons_of_neg (by simpa using hk)]
    · have hk : key b ≠ k := fun h => hb (by rw [h, ha])
      rw [List.find?_cons_of_neg (by simpa using hk), ih, if_pos ha]
    · by_cases hk : key b = k
      · rw [List.find?_cons_of_pos (by simpa using hk), List.find?_cons_of_pos (by simpa using hk)]
      · rw [List.find?_cons_of_neg (by simpa using hk), ih, if_neg ha,
          List.find?_cons_of_neg (by simpa using hk)]

/-! ### Many records, one after the other -/

def upsertAll (l kept : List α) : List α := l.foldl (fun kept a => upsert key a kept) kept

theorem nodup_upsertAll {l kept : List α} (h : (kept.map key).Nodup) :
    ((upsertAll key l kept).map key).Nodup := by
  induction l generalizing kept with
  | nil => exact h
  | cons a l ih => exact ih (nodup_upsert key h)

theorem mem_of_mem_upsertAll {l kept : List α} {r : α} (h : r ∈ upsertAll key l kept) :
    r ∈ kept ∨ r ∈ l := by
  induction l generalizing kept with
  | nil => exact .inl h
  | cons a l ih =>
    rcases ih h with h | h
    · rcases mem_of_mem_upsert key h with rfl | h
      · exact .inr List.mem_cons_self
      · exact .inl h
    · exact .inr (List.mem_cons_of_mem a h)

/-- Records whose keys differ are put behind those that are kept. -/
theorem upsertAll_of_nodup {l kept : List α} (h : ((kept ++ l).map key).Nodup) :
    upsertAll key l kept = kept ++ l := by
  induction l generalizing kept with
  | nil => exact (List.append_nil kept).symm
  | cons a l ih =>
    have hfresh : ∀ r ∈ kept, key r ≠ key a := by
      intro r hr hk
      rw [List.map_append] at h
      exact List.disjoint_of_nodup_append h (List.mem_map.mpr ⟨r, hr, hk⟩) List.mem_cons_self
    have happend : kept ++ a :: l = kept ++ [a] ++ l := by
      rw [List.append_assoc, List.singleton_append]
    rw [happend] at h ⊢
    have hstep : upsertAll key (a :: l) kept = upsertAll key l (upsert key a kept) := rfl
    rw [hstep, upsert_fresh key hfresh, ih h]

theorem upsertAll_eq_nil {l kept : List α} :
    upsertAll key l kept = [] ↔ kept = [] ∧ l = [] := by
  induction l generalizing kept with
  | nil => exact ⟨fun h => ⟨h, rfl⟩, And.left⟩
  | cons a l ih =>
    have hne : upsert key a kept ≠ [] := by
      rcases kept with _ | ⟨b, kept⟩
      · exact List.cons_ne_nil _ _
      · unfold upsert
        split_ifs <;> exact List.cons_ne_nil _ _
    have hstep : upsertAll key (a :: l) kept = upsertAll key l (upsert key a kept) := rfl
    rw [hstep, ih]
    simp [hne]

end

/-! ### Histories -/

/-- A record is put in, or all of them are read back. -/
inductive Op (α : Type*) where
  | put (a : α)
  | refresh

/-- The records put in, in order. -/
def puts {α : Type*} (h : List (Op α)) : List α :=
  h.filterMap fun
    | .put a => some a
    | .refresh => none

section

variable {α : Type*}

theorem puts_append (h h' : List (Op α)) : puts (h ++ h') = puts h ++ puts h' :=
  List.filterMap_append

theorem mem_puts_append {h h' : List (Op α)} {a : α} (ha : a ∈ puts h) : a ∈ puts (h ++ h') := by
  rw [puts_append]
  exact List.mem_append_left _ ha

theorem puts_put (h : List (Op α)) (a : α) : puts (h ++ [.put a]) = puts h ++ [a] := by
  simp [puts]

theorem puts_refresh (h : List (Op α)) : puts (h ++ [.refresh]) = puts h := by simp [puts]

end

section

variable {α κ ε β : Type*} [DecidableEq κ] [DecidableEq ε] (key : α → κ) (attr : α → ε)
  (norm : α → α) (view : α → β) (S : α → Prop)

/-- Reading the records back may change them to `norm`. -/
def step (l : List α) : Op α → List α
  | .put a => upsert key a l
  | .refresh => l.map norm

def run (h : List (Op α)) : List α := h.foldl (step key norm) []

/-- The latest record put in for which `f` has the value `e`. -/
def latest {δ : Type*} [DecidableEq δ] (f : α → δ) (e : δ) (h : List (Op α)) : Option α :=
  (puts h).reverse.find? fun a => decide (f a = e)

/-- What is found for an attribute looks like the latest record put in for it. -/
def Found (h : List (Op α)) : Prop :=
  ∀ e, ((run key norm h).find? fun a => decide (attr a = e)).map view =
    (latest attr e h).map view

/-- What reading back leaves alone in the records `S`. -/
structure Neutral : Prop where
  closed : ∀ a, S a → S (norm a)
  key : ∀ a, S a → key (norm a) = key a
  attr : ∀ a, S a → attr (norm a) = attr a
  view : ∀ a, S a → view (norm a) = view a

theorem run_concat (h : List (Op α)) (op : Op α) :
    run key norm (h ++ [op]) = step key norm (run key norm h) op := by
  rw [run, List.foldl_append]
  rfl

theorem latest_put {δ : Type*} [DecidableEq δ] (f : α → δ) (e : δ) (h : List (Op α)) (a : α) :
    latest f e (h ++ [.put a]) = if f a = e then some a else latest f e h := by
  rw [latest, puts_put, List.reverse_append, List.reverse_singleton, List.singleton_append]
  split_ifs with he
  · exact List.find?_cons_of_pos (by simpa using he)
  · exact List.find?_cons_of_neg (by simpa using he)

theorem latest_refresh {δ : Type*} [DecidableEq δ] (f : α → δ) (e : δ) (h : List (Op α)) :
    latest f e (h ++ [.refresh]) = latest f e h := by
  rw [latest, puts_refresh, latest]

theorem latest_isSome {δ : Type*} [DecidableEq δ] {f : α → δ} {h : List (Op α)} {a : α}
    (ha : a ∈ puts h) : (latest f (f a) h).isSome := by
  rw [latest, List.find?_isSome]
  exact ⟨a, List.mem_reverse.mpr ha, by simp⟩

variable {key attr norm view S}

section

variable (hn : Neutral key attr norm view S)
include hn

omit [DecidableEq ε] in
/-- Every record of the store was put in, up to what reading back does. -/
theorem exists_put_of_mem_run {h : List (Op α)} (hS : ∀ a ∈ puts h, S a) {r : α}
    (hr : r ∈ run key norm h) :
    S r ∧ ∃ a ∈ puts h, key r = key a ∧ attr r = attr a ∧ view r = view a := by
  induction h using List.reverseRecOn generalizing r with
  | nil => simp [run] at hr
  | append_singleton h op ih =>
    rw [run_concat] at hr
    rcases op with a | _
    · rw [puts_put] at hS ⊢
      rcases mem_of_mem_upsert key hr with rfl | hr
      · exact ⟨hS r (by simp), r, by simp, rfl, rfl, rfl⟩
      · obtain ⟨hs, b, hb, he⟩ := ih (fun c hc => hS c (List.mem_append_left _ hc)) hr
        exact ⟨hs, b, List.mem_append_left _ hb, he⟩
    · rw [puts_refresh] at hS ⊢
      obtain ⟨s, hs, rfl⟩ := List.mem_map.mp hr
      obtain ⟨hs, b, hb, h1, h2, h3⟩ := ih hS hs
      exact ⟨hn.closed s hs, b, hb, (hn.key s hs).trans h1, (hn.attr s hs).trans h2,
        (hn.view s hs).trans h3⟩

omit [DecidableEq ε] in
theorem nodup_run {h : List (Op α)} (hS : ∀ a ∈ puts h, S a) :
    ((run key norm h).map key).Nodup := by
  induction h using List.reverseRecOn with
  | nil => simp [run]
  | append_singleton h op ih =>
    rw [run_concat]
    have hS' : ∀ a ∈ puts h, S a := fun a ha => hS a (mem_puts_append ha)
    rcases op with a | _
    · exact nodup_upsert key (ih hS')
    · have hk : (run key norm h).map (key ∘ norm) = (run key norm h).map key :=
        List.map_congr_left fun r hr => hn.key r (exists_put_of_mem_run hn hS' hr).1
      rw [step, List.map_map, hk]
      exact ih hS'

omit [DecidableEq ε] in
/-- By its key every record is found as it was last put in. -/
theorem find_key_run {h : List (Op α)} (hS : ∀ a ∈ puts h, S a) (k : κ) :
    ((run key norm h).find? fun a => decide (key a = k)).map view = (latest key k h).map view := by
  induction h using List.reverseRecOn with
  | nil => rfl
  | append_singleton h op ih =>
    rw [run_concat]
    have hS' : ∀ a ∈ puts h, S a := fun a ha => hS a (mem_puts_append ha)
    rcases op with a | _
    · rw [step, find_upsert, latest_put]
      split_ifs
      · rfl
      · exact ih hS'
    · have hk : (run key norm h).find? ((fun a => decide (key a = k)) ∘ norm) =
          (run key norm h).find? fun a => decide (key a = k) :=
        List.find?_congr fun r hr => by
          simp only [Function.comp, hn.key r (exists_put_of_mem_run hn hS' hr).1]
      rw [step, List.find?_map, Option.map_map, hk, latest_refresh, ← ih hS']
      refine Option.map_congr fun r hr => ?_
      exact hn.view r (exists_put_of_mem_run hn hS' (List.mem_of_find?_eq_some hr)).1

/-- Keys that correspond to the attributes. -/
theorem found_of_corresponding {h : List (Op α)} (hS : ∀ a ∈ puts h, S a)
    (hc : ∀ a ∈ puts h, ∀ b ∈ puts h, key a = key b ↔ attr a = attr b) :
    Found key attr norm view h := by
  intro e
  by_cases he : ∃ a ∈ puts h, attr a = e
  · obtain ⟨a, ha, rfl⟩ := he
    have hrun : (run key norm h).find? (fun r => decide (attr r = attr a)) =
        (run key norm h).find? fun r => decide (key r = key a) := by
      refine List.find?_congr fun r hr => ?_
      obtain ⟨-, b, hb, hkey, hattr, -⟩ := exists_put_of_mem_run hn hS hr
      rw [hkey, hattr]
      exact decide_eq_decide.mpr (hc b hb a ha).symm
    have hput : latest attr (attr a) h = latest key (key a) h := by
      refine List.find?_congr fun r hr => ?_
      exact decide_eq_decide.mpr (hc r (List.mem_reverse.mp hr) a ha).symm
    rw [hrun, hput]
    exact find_key_run hn hS (key a)
  · have hrun : (run key norm h).find? (fun r => decide (attr r = e)) = none := by
      refine List.find?_eq_none.mpr fun r hr hre => he ?_
      obtain ⟨-, b, hb, -, hattr, -⟩ := exists_put_of_mem_run hn hS hr
      exact ⟨b, hb, by rw [← hattr]; exact of_decide_eq_true hre⟩
    have hput : latest attr e h = none :=
      List.find?_eq_none.mpr fun r hr hre =>
        he ⟨r, List.mem_reverse.mp hr, of_decide_eq_true hre⟩
    rw [hrun, hput]

/-- A record with the key of another attribute's takes it away from it. -/
theorem attr_eq_of_found {h : List (Op α)} (hS : ∀ c ∈ puts h, S c) {a b : α}
    (hc : ∀ c ∈ puts h, ∀ d ∈ puts h, key c = key d ↔ attr c = attr d)
    (hf : Found key attr norm view (h ++ [.put a])) (hb : b ∈ puts h) (hk : key b = key a) :
    attr b = attr a := by
  by_contra hne
  have hlatest : (latest attr (attr b) (h ++ [.put a])).isSome :=
    latest_isSome (mem_puts_append hb)
  have hsome := congrArg Option.isSome (hf (attr b))
  rw [Option.isSome_map, Option.isSome_map, hlatest, List.find?_isSome, run_concat] at hsome
  obtain ⟨r, hr, hre⟩ := hsome
  have hre : attr r = attr b := of_decide_eq_true hre
  rcases key_ne_of_mem_upsert key (nodup_run hn hS) hr with rfl | ⟨hr, hrk⟩
  · exact hne hre.symm
  · obtain ⟨-, c, hcm, hck, hca, -⟩ := exists_put_of_mem_run hn hS hr
    have hcb : key c = key b := (hc c hcm b hb).mpr (hca.symm.trans hre)
    exact hrk (hck.trans (hcb.trans hk))

/-- A record with a new key is found only if it is the first of its attribute. -/
theorem key_eq_of_found {h : List (Op α)} (hS : ∀ c ∈ puts h, S c) {a b : α}
    (hdet : ∀ c ∈ puts h, attr c = attr a → view c = view a → key c = key a)
    (hc : ∀ c ∈ puts h, ∀ d ∈ puts h, key c = key d ↔ attr c = attr d)
    (hf : Found key attr norm view h) (hfa : Found key attr norm view (h ++ [.put a]))
    (hb : b ∈ puts h) (ha : attr b = attr a) : key b = key a := by
  by_contra hne
  have hfresh : ∀ r ∈ run key norm h, key r ≠ key a := by
    intro r hr hrk
    obtain ⟨-, c, hcm, hck, -, -⟩ := exists_put_of_mem_run hn hS hr
    have hca : attr c = attr a := attr_eq_of_found hn hS hc hfa hcm (hck.symm.trans hrk)
    have hcb : key c = key b := (hc c hcm b hb).mpr (hca.trans ha.symm)
    exact hne (hcb.symm.trans (hck.symm.trans hrk))
  have hold := congrArg Option.isSome (hf (attr b))
  rw [Option.isSome_map, Option.isSome_map, latest_isSome hb] at hold
  obtain ⟨r, hr⟩ := Option.isSome_iff_exists.mp hold
  have hnew := hfa (attr b)
  rw [run_concat, step, upsert_fresh key hfresh, List.find?_append, hr, latest_put, if_pos ha.symm]
    at hnew
  have hview : view r = view a := Option.some_inj.mp hnew
  obtain ⟨-, c, hcm, hck, hca, hcv⟩ := exists_put_of_mem_run hn hS (List.mem_of_find?_eq_some hr)
  have hre : attr r = attr b := by simpa using List.find?_some hr
  have hkey : key c = key a := hdet c hcm (hca.symm.trans (hre.trans ha)) (hcv.symm.trans hview)
  exact hfresh r (List.mem_of_find?_eq_some hr) (hck.trans hkey)

/-- **The store answers with the latest record of an attribute after every step exactly if keys and
attributes correspond.** Records of one attribute that look the same have the same key. -/
theorem found_iff {h : List (Op α)} (hS : ∀ a ∈ puts h, S a)
    (hdet : ∀ a ∈ puts h, ∀ b ∈ puts h, attr a = attr b → view a = view b → key a = key b) :
    (∀ p, p <+: h → Found key attr norm view p) ↔
      ∀ a ∈ puts h, ∀ b ∈ puts h, key a = key b ↔ attr a = attr b := by
  constructor
  · intro hf
    induction h using List.reverseRecOn with
    | nil => simp [puts]
    | append_singleton h op ih =>
      have hsub : ∀ a ∈ puts h, a ∈ puts (h ++ [op]) := fun a ha => mem_puts_append ha
      have hS' : ∀ a ∈ puts h, S a := fun a ha => hS a (hsub a ha)
      have hc := ih hS' (fun a ha b hb => hdet a (hsub a ha) b (hsub b hb)) fun p hp =>
        hf p (hp.trans (List.prefix_append h [op]))
      rcases op with a | _
      · have hfa := hf _ List.prefix_rfl
        have hfh := hf h (List.prefix_append h _)
        have hmem : a ∈ puts (h ++ [.put a]) := by simp [puts_put]
        have hold : ∀ b ∈ puts h, key b = key a ↔ attr b = attr a := fun b hb =>
          ⟨attr_eq_of_found hn hS' hc hfa hb,
            key_eq_of_found hn hS' (fun c hc' => hdet c (hsub c hc') a hmem) hc hfh hfa hb⟩
        rw [puts_put]
        intro b hb c hc'
        rcases List.mem_append.mp hb with hb | hb <;> rcases List.mem_append.mp hc' with hc' | hc'
        · exact hc b hb c hc'
        · rw [List.mem_singleton.mp hc']
          exact hold b hb
        · rw [List.mem_singleton.mp hb, eq_comm, hold c hc', eq_comm]
        · rw [List.mem_singleton.mp hb, List.mem_singleton.mp hc']
          simp
      · rw [puts_refresh]
        exact hc
  · intro hc p hp
    have hsub : ∀ a ∈ puts p, a ∈ puts h := fun a ha => by
      obtain ⟨t, rfl⟩ := hp
      exact mem_puts_append ha
    exact found_of_corresponding hn (fun a ha => hS a (hsub a ha)) fun a ha b hb =>
      hc a (hsub a ha) b (hsub b hb)

end

end

end PrinterDriver.Lib.Keyed
