import PrinterDriver.Dsl.JsonTexts

/-! # Writing JSON and reading it back

What the writer makes of a value that was read is a text of that value: a tree of it has the writer's
blanks around its elements, and an escape or the byte itself for every byte of its strings. So it is read
back as the same value, number literals and all, compact or indented (`reads_and_writes`). -/

namespace PrinterDriver.Dsl.JsonRoundTrips

open PrinterDriver.Core.Types PrinterDriver.Dsl.Values PrinterDriver.Dsl.JsonGrammar
open PrinterDriver.Dsl.JsonParser PrinterDriver.Dsl.JsonTexts PrinterDriver.Lib.Keyed
open PrinterDriver.Dsl.Text (encode)

/-! ### Strings -/

/-- The escape of a control. -/
theorem hex4_control : ∀ n < 0x20, hex4 48 48 (Json.hexDigit (UInt8.ofNat n / 16))
    (Json.hexDigit (UInt8.ofNat n % 16)) = some n := by decide

theorem encode_control : ∀ n < 0x20, encode n = [UInt8.ofNat n] := by decide

/-- Every byte can be written, and is read as itself. -/
theorem exists_item (c : UInt8) : ∃ i : Item, i.text = Json.escape c ∧ i.bytes = [c] := by
  unfold Json.escape
  by_cases h1 : c = 34
  · subst h1
    exact ⟨.short 34 34 rfl, rfl, rfl⟩
  by_cases h2 : c = 92
  · subst h2
    exact ⟨.short 92 92 rfl, rfl, rfl⟩
  by_cases h3 : c = 8
  · subst h3
    exact ⟨.short 98 8 rfl, rfl, rfl⟩
  by_cases h4 : c = 12
  · subst h4
    exact ⟨.short 102 12 rfl, rfl, rfl⟩
  by_cases h5 : c = 10
  · subst h5
    exact ⟨.short 110 10 rfl, rfl, rfl⟩
  by_cases h6 : c = 13
  · subst h6
    exact ⟨.short 114 13 rfl, rfl, rfl⟩
  by_cases h7 : c = 9
  · subst h7
    exact ⟨.short 116 9 rfl, rfl, rfl⟩
  rw [if_neg h1, if_neg h2, if_neg h3, if_neg h4, if_neg h5, if_neg h6, if_neg h7]
  by_cases h8 : c < 0x20
  · rw [if_pos h8]
    have hlt : c.toNat < 0x20 := UInt8.lt_iff_toNat_lt.mp h8
    have hspells := hex4_control c.toNat hlt
    have hbytes := encode_control c.toNat hlt
    rw [UInt8.ofNat_toNat] at hspells hbytes
    refine ⟨.unicode ⟨48, 48, _, _, c.toNat, hspells⟩ ⟨fun h => ?_, fun h => ?_⟩, rfl, hbytes⟩
    · have := h.1
      simp only at this
      omega
    · have := h.1
      simp only at this
      omega
  · rw [if_neg h8]
    exact ⟨.plain c ⟨UInt8.not_lt.mp h8, h1, h2⟩, rfl, rfl⟩

theorem exists_items (s : Bytes) :
    ∃ items : List Item, quoted items = Json.quote s ∧ contents items = s := by
  have hitems : ∃ items : List Item, items.flatMap Item.text = s.flatMap Json.escape ∧
      contents items = s := by
    induction s with
    | nil => exact ⟨[], rfl, rfl⟩
    | cons c s ih =>
      obtain ⟨i, htext, hbytes⟩ := exists_item c
      obtain ⟨items, hall, hcontents⟩ := ih
      refine ⟨i :: items, ?_, ?_⟩
      · rw [List.flatMap_cons, List.flatMap_cons, htext, hall]
      · rw [contents] at hcontents
        rw [contents, List.flatMap_cons, hbytes, hcontents, List.singleton_append]
  obtain ⟨items, htext, hcontents⟩ := hitems
  refine ⟨items, ?_, hcontents⟩
  rw [quoted, htext, Json.quote, List.singleton_append, List.cons_append]

/-! ### Keys -/

section Keys
variable {ν : Type}

/-- Members whose keys differ are kept as they are. -/
theorem foldl_upsert (ms acc : List (Bytes × Json ν)) (h : ((acc ++ ms).map Prod.fst).Nodup) :
    ms.foldl (fun acc m => upsert Prod.fst m acc) acc = acc ++ ms := by
  induction ms generalizing acc with
  | nil => rw [List.foldl_nil, List.append_nil]
  | cons m ms ih =>
    have hfresh : ∀ r ∈ acc, r.1 ≠ m.1 := by
      intro r hr heq
      rw [List.map_append, List.nodup_append] at h
      exact h.2.2 _ (List.mem_map_of_mem hr) _ (List.mem_map_of_mem List.mem_cons_self) heq
    have happend : acc ++ m :: ms = acc ++ [m] ++ ms := by
      rw [List.append_assoc, List.singleton_append]
    rw [List.foldl_cons, upsert_fresh Prod.fst hfresh, happend]
    exact ih _ (by rwa [← happend])

theorem nodup_foldl (ms acc : List (Bytes × Json ν)) (h : (acc.map Prod.fst).Nodup) :
    ((ms.foldl (fun acc m => upsert Prod.fst m acc) acc).map Prod.fst).Nodup := by
  induction ms generalizing acc with
  | nil => exact h
  | cons m ms ih => exact ih _ (nodup_upsert Prod.fst h)

theorem mem_foldl {ms acc : List (Bytes × Json ν)} {r : Bytes × Json ν}
    (h : r ∈ ms.foldl (fun acc m => upsert Prod.fst m acc) acc) : r ∈ acc ∨ r ∈ ms := by
  induction ms generalizing acc with
  | nil => exact .inl h
  | cons m ms ih =>
    rcases ih h with h | h
    · rcases mem_of_mem_upsert Prod.fst h with rfl | h
      · exact .inr List.mem_cons_self
      · exact .inl h
    · exact .inr (List.mem_cons_of_mem m h)

theorem collapse_ne {ms : List (Bytes × Json ν)} (hne : ms ≠ []) : collapse ms ≠ [] := by
  have hkeep : ∀ (ms acc : List (Bytes × Json ν)), acc ≠ [] →
      ms.foldl (fun acc m => upsert Prod.fst m acc) acc ≠ [] := by
    intro ms
    induction ms with
    | nil => exact fun acc h => h
    | cons m ms ih =>
      intro acc h
      obtain ⟨a, acc, rfl⟩ := List.exists_cons_of_ne_nil h
      have hstep : upsert Prod.fst m (a :: acc) ≠ [] := by
        unfold upsert
        split_ifs
        · exact List.cons_ne_nil _ _
        · exact List.cons_ne_nil _ _
      exact ih _ hstep
  obtain ⟨m, ms, rfl⟩ := List.exists_cons_of_ne_nil hne
  exact hkeep ms _ (List.cons_ne_nil _ _)

/-- The last member with a key is the one that is found. -/
theorem find_collapse (ms : List (Bytes × Json ν)) (key : Bytes) :
    (collapse ms).find? (fun m => m.1 = key) = ms.reverse.find? fun m => m.1 = key := by
  induction ms using List.reverseRecOn with
  | nil => rfl
  | append_singleton ms m ih =>
    rw [collapse] at ih
    rw [collapse, List.foldl_append, List.foldl_cons, List.foldl_nil, find_upsert, ih,
      List.reverse_append, List.reverse_singleton, List.singleton_append]
    by_cases hm : m.1 = key
    · rw [if_pos hm, List.find?_cons_of_pos (by simpa using hm)]
    · rw [if_neg hm, List.find?_cons_of_neg (by simpa using hm)]

end Keys

/-! ### Values -/

section Value
variable {ν : Type} [Doubles ν] (parseDoubleLiteral : Bytes → ν)

/-- What the writer makes of the value is a text of it, with no more than `n` arrays and objects around
a value. -/
def Printable (n : ℕ) (v : Json ν) : Prop :=
  ∀ (pretty : Bool) (indent : ℕ), ∃ tree : Tree, tree.text = v.write pretty indent ∧
    tree.value parseDoubleLiteral = v ∧ tree.depth ≤ n

/-- The blanks before an element. -/
def lead (pretty : Bool) (indent : ℕ) : Blank :=
  if pretty then ⟨[10] ++ Json.pad indent, fun c hc => by
    rcases List.mem_append.mp hc with hc | hc
    · rw [List.mem_singleton.mp hc]
      rfl
    · rw [List.eq_of_mem_replicate hc]
      rfl⟩
  else Blank.none

theorem lead_val (pretty : Bool) (indent : ℕ) :
    (lead pretty indent).1 = if pretty then [10] ++ Json.pad indent else [] := by
  cases pretty with
  | false => rfl
  | true => rfl

/-- The lines of an array or object: each behind its blanks, commas between. -/
def lines (pretty : Bool) (indent : ℕ) (parts : List Bytes) : Bytes :=
  [44].intercalate (parts.map fun part => (lead pretty indent).1 ++ part)

theorem lines_cons (pretty : Bool) (indent : ℕ) (a b : Bytes) (parts : List Bytes) :
    lines pretty indent (a :: b :: parts) =
      (lead pretty indent).1 ++ (a ++ 44 :: lines pretty indent (b :: parts)) := by
  simp [lines, List.intercalate]

theorem bracketed_eq (pretty : Bool) (indent : ℕ) (opening closing : UInt8) (parts : List Bytes) :
    Json.bracketed pretty indent opening closing parts =
      opening :: (lines pretty (indent + 1) parts ++ (lead pretty indent).1 ++ [closing]) := by
  have hlines : (fun part => if pretty then [10] ++ Json.pad (indent + 1) ++ part else part) =
      fun part : Bytes => (lead pretty (indent + 1)).1 ++ part := by
    funext part
    rw [lead_val]
    cases pretty with
    | false => rfl
    | true => rfl
  rw [Json.bracketed, hlines, lines, lead_val pretty indent, List.singleton_append,
    List.cons_append, List.cons_append]

theorem writeMembers_cons (pretty : Bool) (indent : ℕ) (key : Bytes) (v : Json ν)
    (members : List (Bytes × Json ν)) :
    Json.writeMembers pretty indent ((key, v) :: members) =
      (Json.quote key ++ 58 :: ((if pretty then [32] else []) ++ v.write pretty indent)) ::
        Json.writeMembers pretty indent members := by
  rw [Json.writeMembers]
  cases pretty with
  | false => simp [str]
  | true => simp [str]

/-- The blank between a colon and a value. -/
def colonGap (pretty : Bool) : Blank :=
  if pretty then ⟨[32], fun c hc => by rw [List.mem_singleton.mp hc]; rfl⟩ else Blank.none

theorem colonGap_val (pretty : Bool) : (colonGap pretty).1 = if pretty then [32] else [] := by
  cases pretty with
  | false => rfl
  | true => rfl

section Lists
variable {n : ℕ}

theorem exists_elements (pretty : Bool) (indent : ℕ) (tail : Blank) (vs : List (Json ν)) (v : Json ν)
    (h : ∀ w ∈ v :: vs, ∃ k, k + 1 ≤ n ∧ Printable parseDoubleLiteral k w) :
    ∃ es : Elements,
      es.text = lines pretty indent (Json.writeValues pretty indent (v :: vs)) ++ tail.1 ∧
        es.values parseDoubleLiteral = v :: vs ∧ es.depth ≤ n := by
  induction vs generalizing v with
  | nil =>
    obtain ⟨k, hk, hprint⟩ := h v List.mem_cons_self
    obtain ⟨tree, htext, hvalue, hdepth⟩ := hprint pretty indent
    refine ⟨.last (lead pretty indent) tree tail, ?_, ?_, ?_⟩
    · rw [Elements.text, htext, Json.writeValues, Json.writeValues, lines, List.map_singleton,
        List.intercalate_singleton, List.append_assoc]
    · rw [Elements.values, hvalue]
    · rw [Elements.depth]
      omega
  | cons w vs ih =>
    obtain ⟨k, hk, hprint⟩ := h v List.mem_cons_self
    obtain ⟨tree, htext, hvalue, hdepth⟩ := hprint pretty indent
    obtain ⟨es, hes, hvalues, hdepth'⟩ := ih w fun x hx => h x (List.mem_cons_of_mem v hx)
    refine ⟨.more (lead pretty indent) tree Blank.none es, ?_, ?_, ?_⟩
    · have hlines : lines pretty indent (Json.writeValues pretty indent (v :: w :: vs)) =
          (lead pretty indent).1 ++ (v.write pretty indent ++
            44 :: lines pretty indent (Json.writeValues pretty indent (w :: vs))) := by
        rw [Json.writeValues, Json.writeValues, lines_cons]
      rw [hlines, Elements.text, htext, hes]
      simp [Blank.none]
    · rw [Elements.values, hvalue, hvalues]
    · rw [Elements.depth]
      omega

theorem exists_members (pretty : Bool) (indent : ℕ) (tail : Blank) (ms : List (Bytes × Json ν))
    (m : Bytes × Json ν)
    (h : ∀ w ∈ m :: ms, ∃ k, k + 1 ≤ n ∧ Printable parseDoubleLiteral k w.2) :
    ∃ members : Members,
      members.text = lines pretty indent (Json.writeMembers pretty indent (m :: ms)) ++ tail.1 ∧
        members.values parseDoubleLiteral = m :: ms ∧ members.depth ≤ n := by
  induction ms generalizing m with
  | nil =>
    obtain ⟨key, v⟩ := m
    obtain ⟨k, hk, hprint⟩ := h (key, v) List.mem_cons_self
    obtain ⟨tree, htext, hvalue, hdepth⟩ := hprint pretty indent
    obtain ⟨items, hquoted, hcontents⟩ := exists_items key
    refine ⟨.last (lead pretty indent) items Blank.none (colonGap pretty) tree tail, ?_, ?_, ?_⟩
    · rw [Members.text, htext, hquoted, writeMembers_cons, Json.writeMembers, lines,
        List.map_singleton, List.intercalate_singleton, colonGap_val]
      simp [Blank.none]
    · rw [Members.values, hvalue, hcontents]
    · rw [Members.depth]
      omega
  | cons w ms ih =>
    obtain ⟨key, v⟩ := m
    obtain ⟨k, hk, hprint⟩ := h (key, v) List.mem_cons_self
    obtain ⟨tree, htext, hvalue, hdepth⟩ := hprint pretty indent
    obtain ⟨items, hquoted, hcontents⟩ := exists_items key
    obtain ⟨members, hmembers, hvalues, hdepth'⟩ :=
      ih w fun x hx => h x (List.mem_cons_of_mem _ hx)
    refine ⟨.more (lead pretty indent) items Blank.none (colonGap pretty) tree Blank.none members,
      ?_, ?_, ?_⟩
    · obtain ⟨key', v'⟩ := w
      have hlines : lines pretty indent
          (Json.writeMembers pretty indent ((key, v) :: (key', v') :: ms)) =
          (lead pretty indent).1 ++ (Json.quote key ++ 58 :: ((if pretty then [32] else []) ++
            v.write pretty indent) ++
              44 :: lines pretty indent (Json.writeMembers pretty indent ((key', v') :: ms))) := by
        rw [writeMembers_cons, writeMembers_cons, lines_cons]
      rw [hlines, Members.text, htext, hquoted, hmembers, colonGap_val]
      simp [Blank.none]
    · rw [Members.values, hvalue, hcontents, hvalues]
    · rw [Members.depth]
      omega

theorem printable_array {vs : List (Json ν)} (hne : vs ≠ [])
    (h : ∀ w ∈ vs, ∃ k, k + 1 ≤ n ∧ Printable parseDoubleLiteral k w) :
    Printable parseDoubleLiteral n (.array vs) := by
  intro pretty indent
  obtain ⟨v, vs, rfl⟩ := List.exists_cons_of_ne_nil hne
  obtain ⟨es, htext, hvalues, hdepth⟩ :=
    exists_elements parseDoubleLiteral pretty (indent + 1) (lead pretty indent) vs v h
  refine ⟨.array es, ?_, ?_, hdepth⟩
  · rw [Json.write, List.isEmpty_cons, if_neg Bool.false_ne_true, bracketed_eq, Tree.text, htext]
  · rw [Tree.value, hvalues]

theorem printable_object {ms : List (Bytes × Json ν)} (hne : ms ≠ [])
    (h : ∀ w ∈ ms, ∃ k, k + 1 ≤ n ∧ Printable parseDoubleLiteral k w.2) :
    Printable parseDoubleLiteral n (.object (collapse ms)) := by
  intro pretty indent
  have hnodup : ((collapse ms).map Prod.fst).Nodup := nodup_foldl ms [] List.nodup_nil
  have hmem : ∀ w ∈ collapse ms, ∃ k, k + 1 ≤ n ∧ Printable parseDoubleLiteral k w.2 :=
    fun w hw => h w ((mem_foldl hw).resolve_left List.not_mem_nil)
  have hagain : collapse (collapse ms) = collapse ms := foldl_upsert _ [] hnodup
  obtain ⟨m, rest, hms⟩ := List.exists_cons_of_ne_nil (collapse_ne hne)
  rw [hms] at hmem hagain ⊢
  obtain ⟨members, htext, hvalues, hdepth⟩ :=
    exists_members parseDoubleLiteral pretty (indent + 1) (lead pretty indent) rest m hmem
  refine ⟨.object members, ?_, ?_, hdepth⟩
  · rw [Json.write, List.isEmpty_cons, if_neg Bool.false_ne_true, bracketed_eq, Tree.text, htext]
  · rw [Tree.value, hvalues, hagain]

end Lists

/-! #### Trees -/

theorem number_ne (n : Number) : n.text.isEmpty = false := by
  obtain ⟨c, more, htext, -⟩ := number_opens n
  rw [htext]
  rfl

mutual
theorem printable_tree : ∀ tree : Tree,
    Printable parseDoubleLiteral tree.depth (tree.value parseDoubleLiteral)
  | .null => fun _ _ => ⟨.null, by rw [Tree.text, Tree.value, Json.write], rfl, Nat.le_refl _⟩
  | .boolean value => fun _ _ =>
    ⟨.boolean value, by rw [Tree.text, Tree.value, Json.write], rfl, Nat.le_refl _⟩
  | .number n => fun _ _ => ⟨.number n, by
      rw [Tree.text, Tree.value, Json.write, number_ne, if_neg Bool.false_ne_true], rfl,
      Nat.le_refl _⟩
  | .string items => fun _ _ => by
    obtain ⟨items', hquoted, hcontents⟩ := exists_items (contents items)
    refine ⟨.string items', ?_, ?_, Nat.zero_le _⟩
    · rw [Tree.text, Tree.value, Json.write, hquoted]
    · rw [Tree.value, Tree.value, hcontents]
  | .emptyArray _ => fun _ _ => ⟨.emptyArray Blank.none, by
      rw [Tree.text, Tree.value, Json.write]
      rfl, rfl, Nat.le_refl _⟩
  | .array es => by
    rw [Tree.value]
    refine printable_array parseDoubleLiteral ?_ (printable_elements es)
    cases es <;> exact List.cons_ne_nil _ _
  | .emptyObject _ => fun _ _ => ⟨.emptyObject Blank.none, by
      rw [Tree.text, Tree.value, Json.write]
      rfl, rfl, Nat.le_refl _⟩
  | .object ms => by
    rw [Tree.value]
    refine printable_object parseDoubleLiteral ?_ (printable_members ms)
    cases ms <;> exact List.cons_ne_nil _ _

theorem printable_elements : ∀ es : Elements, ∀ v ∈ es.values parseDoubleLiteral,
    ∃ k, k + 1 ≤ es.depth ∧ Printable parseDoubleLiteral k v
  | .last _ value _, v, hv => by
    rw [Elements.values, List.mem_singleton] at hv
    subst hv
    exact ⟨value.depth, Nat.le_refl _, printable_tree value⟩
  | .more _ value _ rest, v, hv => by
    rw [Elements.values] at hv
    rcases List.mem_cons.mp hv with rfl | hv
    · exact ⟨value.depth, Nat.le_max_left _ _, printable_tree value⟩
    · obtain ⟨k, hk, hprint⟩ := printable_elements rest v hv
      exact ⟨k, Nat.le_trans hk (Nat.le_max_right _ _), hprint⟩

theorem printable_members : ∀ ms : Members, ∀ m ∈ ms.values parseDoubleLiteral,
    ∃ k, k + 1 ≤ ms.depth ∧ Printable parseDoubleLiteral k m.2
  | .last _ _ _ _ value _, m, hm => by
    rw [Members.values, List.mem_singleton] at hm
    subst hm
    exact ⟨value.depth, Nat.le_refl _, printable_tree value⟩
  | .more _ _ _ _ value _ rest, m, hm => by
    rw [Members.values] at hm
    rcases List.mem_cons.mp hm with rfl | hm
    · exact ⟨value.depth, Nat.le_max_left _ _, printable_tree value⟩
    · obtain ⟨k, hk, hprint⟩ := printable_members rest m hm
      exact ⟨k, Nat.le_trans hk (Nat.le_max_right _ _), hprint⟩
end

/-- What the parser and the writer promise each other and the reader of a text. -/
structure Exact : Prop where
  accepts : ∀ (text : Bytes) (v : Json ν), parseJson parseDoubleLiteral text = .ok v ↔
    Denotes parseDoubleLiteral kMaxJsonDepth text v
  /-- A name stands for the last of its members. -/
  duplicates : ∀ (members : List (Bytes × Json ν)) (key : Bytes),
    (Json.object (collapse members)).find key =
      (members.reverse.find? fun m => m.1 = key).map Prod.snd
  returns : ∀ (text : Bytes) (v : Json ν) (pretty : Bool),
    parseJson parseDoubleLiteral text = .ok v →
      parseJson parseDoubleLiteral (toJson v pretty) = .ok v

/-- **The parser reads JSON and nothing else, and what it has read it reads again from what the writer
makes of it.** -/
theorem reads_and_writes : Exact parseDoubleLiteral where
  accepts := parseJson_iff parseDoubleLiteral
  duplicates members key := by rw [Json.find, find_collapse]
  returns text v pretty h := by
    obtain ⟨before, tree, after, -, hdepth, rfl⟩ := (parseJson_iff parseDoubleLiteral text v).mp h
    obtain ⟨tree', htext, hvalue, hdepth'⟩ := printable_tree parseDoubleLiteral tree pretty 0
    refine (parseJson_iff parseDoubleLiteral _ _).mpr
      ⟨Blank.none, tree', Blank.none, ?_, Nat.le_trans hdepth' hdepth, hvalue⟩
    rw [toJson, ← htext]
    exact (List.append_nil _).symm

end Value

end PrinterDriver.Dsl.JsonRoundTrips
