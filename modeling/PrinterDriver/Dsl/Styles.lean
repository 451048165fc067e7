import PrinterDriver.Lib.Inheritance
import PrinterDriver.Dsl.Documents
import Mathlib.Tactic.SplitIfs

/-! # Style resolution

A block's style is laid over what it inherits: the chain of the style `default`, the chain of its
named style, the chain that its inline style extends, and the inline style. One set holds the names
that were visited in any of the chains, so a style that two of them share is taken for a loop
(`resolves_iff`). -/

namespace PrinterDriver.Dsl.Styles

open PrinterDriver.Core.Types PrinterDriver.Dsl.Documents PrinterDriver.Lib.Inheritance
open PrinterDriver.Dsl.Render (ReportEntry decimal)

/-! ### The styles of a document -/

/-- What the later style sets is taken from it. What it extends is not. -/
def TextStyle.overlay (s later : TextStyle) : TextStyle where
  inherits := s.inherits
  font := later.font <|> s.font
  widthScale := later.widthScale <|> s.widthScale
  heightScale := later.heightScale <|> s.heightScale
  bold := later.bold <|> s.bold
  italic := later.italic <|> s.italic
  inverse := later.inverse <|> s.inverse
  upsideDown := later.upsideDown <|> s.upsideDown
  rotate90 := later.rotate90 <|> s.rotate90
  underline := later.underline <|> s.underline
  align := later.align <|> s.align
  lineSpacingDots := later.lineSpacingDots <|> s.lineSpacingDots
  letterSpacingDots := later.letterSpacingDots <|> s.letterSpacingDots
  wrap := later.wrap <|> s.wrap
  indentDots := later.indentDots <|> s.indentDots
  marginLeftDots := later.marginLeftDots <|> s.marginLeftDots
  marginRightDots := later.marginRightDots <|> s.marginRightDots

/-- A resolved style, with what the emitter does not read. -/
structure ResolvedStyle extends Render.ResolvedStyle where
  italic : Bool := false
  rotate90 : Bool := false
  wrap : Wrap := .word
  deriving DecidableEq, Repr

abbrev StyleTable : Type := List (Bytes × TextStyle)

def style (styles : StyleTable) (name : Bytes) : Option TextStyle :=
  (styles.find? fun entry => entry.1 = name).map Prod.snd

/-! ### Following the chains -/

structure Resolving where
  into : TextStyle := {}
  visited : List Bytes := []
  report : List ReportEntry := []

theorem mem_names_of_style {styles : StyleTable} {name : Bytes} {named : TextStyle}
    (h : style styles name = some named) : name ∈ styles.map Prod.fst := by
  obtain ⟨entry, hfind, -⟩ := Option.map_eq_some_iff.mp h
  have hname : entry.1 = name := by simpa using List.find?_some hfind
  exact List.mem_map.mpr ⟨entry, List.mem_of_find?_eq_some hfind, hname⟩

/-- Lay a style over what was resolved, behind what it extends. -/
def applyChain (styles : StyleTable) (place name : Bytes) (s : Resolving) : Resolving :=
  match hnamed : style styles name with
  | none => { s with report := s.report ++ [⟨.unknownStyle, place, str "style:" ++ name,
      str "default", .hardware, str "no named style with that name"⟩] }
  | some named =>
    if name ∈ s.visited then
      { s with report := s.report ++ [⟨.styleCycle, place, str "extends:" ++ name,
        str "chain broken", .hardware, str "named style inheritance loops"⟩] }
    else
      let s := { s with visited := name :: s.visited }
      let s := match named.inherits with
        | some base => applyChain styles place base s
        | none => s
      { s with into := TextStyle.overlay s.into named }
termination_by ((styles.map Prod.fst).filter (· ∉ s.visited)).length
decreasing_by simpa using length_unmet_lt (mem_names_of_style hnamed) ‹_›

def applyName (styles : StyleTable) (place : Bytes) (name : Option Bytes) (s : Resolving) : Resolving :=
  match name with
  | some name => applyChain styles place name s
  | none => s

/-- A multiplier within its bounds, and whether that is said. -/
def clampScale (value : ℤ) (place what : Bytes) : ℤ × List ReportEntry :=
  if 1 ≤ value ∧ value ≤ 8 then (value, [])
  else
    let clamped := if value < 1 then 1 else 8
    (clamped, [⟨.unsupportedStyle, place, what ++ str ":" ++ decimal value,
      what ++ str ":" ++ decimal clamped, .hardware, str "GS ! multipliers are 1..8"⟩])

/-- The style that was merged, with the defaults for what it does not set. -/
def settle (merged : TextStyle) (place : Bytes) : ResolvedStyle × List ReportEntry :=
  let plain : ResolvedStyle := {}
  let width := (merged.widthScale.map fun n => clampScale n place (str "widthScale")).getD
    (plain.widthScale, [])
  let height := (merged.heightScale.map fun n => clampScale n place (str "heightScale")).getD
    (plain.heightScale, [])
  ({ font := merged.font.getD plain.font
     widthScale := width.1
     heightScale := height.1
     bold := merged.bold.getD plain.bold
     italic := merged.italic.getD plain.italic
     inverse := merged.inverse.getD plain.inverse
     upsideDown := merged.upsideDown.getD plain.upsideDown
     rotate90 := merged.rotate90.getD plain.rotate90
     underline := merged.underline.getD plain.underline
     align := merged.align.getD plain.align
     lineSpacingDots := merged.lineSpacingDots.getD plain.lineSpacingDots
     letterSpacingDots := merged.letterSpacingDots.getD plain.letterSpacingDots
     wrap := merged.wrap.getD plain.wrap
     indentDots := merged.indentDots.getD plain.indentDots
     marginLeftDots := merged.marginLeftDots.getD plain.marginLeftDots
     marginRightDots := merged.marginRightDots.getD plain.marginRightDots }, width.2 ++ height.2)

/-- The chain of the style `default`, where the document has one. -/
def applyDefault (styles : StyleTable) (place : Bytes) (s : Resolving) : Resolving :=
  match style styles (str "default") with
  | none => s
  | some fallback =>
    let s := applyName styles place fallback.inherits { s with visited := [str "default"] }
    { s with into := TextStyle.overlay s.into fallback }

def resolve (styles : StyleTable) (ref : StyleRef) (place : Bytes) :
    ResolvedStyle × List ReportEntry :=
  let s := applyDefault styles place {}
  let s := applyName styles place ref.name s
  let s := applyName styles place ref.inlineStyle.inherits s
  let settled := settle (TextStyle.overlay s.into ref.inlineStyle) place
  (settled.1, s.report ++ settled.2)

/-! ### What resolution promises -/

/-- The styles that are resolved by name, the most specific last. -/
def roots (ref : StyleRef) : List Bytes :=
  str "default" :: (ref.name.toList ++ ref.inlineStyle.inherits.toList)

/-- One style after another is laid over the first. -/
def overlayAll (s : TextStyle) (chain : List (Bytes × TextStyle)) : TextStyle :=
  chain.foldl (fun s entry => TextStyle.overlay s entry.2) s

/-- The chains of the styles, in their order. -/
def Chains (styles : StyleTable) : List Bytes → List (List (Bytes × TextStyle)) → Prop :=
  List.Forall₂ (Ancestry (style styles) TextStyle.inherits)

/-- A loop is reported just if there is one, and without one the style is the overlay of its
chains. -/
structure Resolves (styles : StyleTable) (ref : StyleRef) (place : Bytes) : Prop where
  reported : (∃ entry ∈ (resolve styles ref place).2, entry.kind = .styleCycle) ↔
    ∃ name ∈ roots ref, Cyclic (style styles) TextStyle.inherits name
  overlaid : ∀ chains, Chains styles (roots ref) chains → (resolve styles ref place).1 =
    (settle (TextStyle.overlay (overlayAll {} chains.flatten) ref.inlineStyle) place).1

/-! ### One chain -/

variable {styles : StyleTable} {place : Bytes}

def Loops (report : List ReportEntry) : Prop := ∃ entry ∈ report, entry.kind = .styleCycle

/-- A chain of styles none of which was visited. -/
def Fresh (styles : StyleTable) (visited : List Bytes) (name : Bytes)
    (chain : List (Bytes × TextStyle)) : Prop :=
  Ancestry (style styles) TextStyle.inherits name chain ∧ ∀ a ∈ chain.map Prod.fst, a ∉ visited

/-- What a fresh chain leaves behind. -/
structure Applied (s s' : Resolving) (chain : List (Bytes × TextStyle)) : Prop where
  into : s'.into = overlayAll s.into chain
  visited : ∀ a, a ∈ s'.visited ↔ a ∈ chain.map Prod.fst ∨ a ∈ s.visited
  report : ∃ entries, s'.report = s.report ++ entries ∧ ¬ Loops entries

theorem applyChain_none {name : Bytes} {s : Resolving} (h : style styles name = none) :
    applyChain styles place name s = { s with report := s.report ++ [⟨.unknownStyle, place,
      str "style:" ++ name, str "default", .hardware, str "no named style with that name"⟩] } := by
  rw [applyChain]
  split
  · rfl
  · rename_i hsome
    cases h.symm.trans hsome

theorem applyChain_some {name : Bytes} {named : TextStyle} {s : Resolving}
    (h : style styles name = some named) (hnew : name ∉ s.visited) :
    applyChain styles place name s =
      let s' := applyName styles place named.inherits { s with visited := name :: s.visited }
      { s' with into := TextStyle.overlay s'.into named } := by
  rw [applyChain]
  split
  · rename_i hnone
    cases h.symm.trans hnone
  · rename_i named' hsome
    obtain rfl := Option.some.inj (h.symm.trans hsome)
    rw [if_neg hnew]
    unfold applyName
    cases named.inherits <;> rfl

theorem applyChain_visited {name : Bytes} {named : TextStyle} {s : Resolving}
    (h : style styles name = some named) (hmem : name ∈ s.visited) :
    applyChain styles place name s = { s with report := s.report ++ [⟨.styleCycle, place,
      str "extends:" ++ name, str "chain broken", .hardware,
      str "named style inheritance loops"⟩] } := by
  rw [applyChain]
  split
  · rename_i hnone
    cases h.symm.trans hnone
  · rw [if_pos hmem]

/-- A fresh chain is laid over what was resolved, and no loop is reported. -/
theorem applyChain_applied {name : Bytes} {chain : List (Bytes × TextStyle)}
    (hchain : Ancestry (style styles) TextStyle.inherits name chain) : ∀ {s : Resolving},
    (∀ a ∈ chain.map Prod.fst, a ∉ s.visited) →
      Applied s (applyChain styles place name s) chain := by
  induction hchain with
  | missing h =>
    intro s _
    rw [applyChain_none h]
    refine ⟨rfl, by simp, _, rfl, ?_⟩
    rintro ⟨entry, hentry, hkind⟩
    rw [List.mem_singleton.mp hentry] at hkind
    cases hkind
  | @root name t h hp =>
    intro s hnew
    rw [applyChain_some h (hnew name (by simp)), hp]
    exact ⟨rfl, by simp [applyName], [], by simp [applyName], by simp [Loops]⟩
  | @child name base t chain h hp hchain ih =>
    intro s hnew
    have hname := hnew name (by simp)
    have hparent := Ancestry.not_mem_parent h hp hchain
    rw [applyChain_some h hname, hp]
    obtain ⟨hinto, hvisited, hreport⟩ := @ih { s with visited := name :: s.visited } (by
      intro a ha
      have hother := hnew a (by rw [List.map_append]; exact List.mem_append_left _ ha)
      simp only [List.mem_cons, not_or]
      exact ⟨fun he => hparent (he ▸ ha), hother⟩)
    refine ⟨?_, fun a => ?_, hreport⟩
    · dsimp only [applyName]
      rw [hinto]
      unfold overlayAll
      rw [List.foldl_append]
      rfl
    · refine (hvisited a).trans ?_
      rw [List.map_append, List.mem_append, List.map_singleton, List.mem_singleton, List.mem_cons]
      exact or_assoc.symm

theorem report_applyChain {name : Bytes} {s : Resolving} :
    s.report <+: (applyChain styles place name s).report := by
  cases h : style styles name with
  | none =>
    rw [applyChain_none h]
    exact List.prefix_append _ _
  | some named =>
    by_cases hvisited : name ∈ s.visited
    · rw [applyChain_visited h hvisited]
      exact List.prefix_append _ _
    · have hfewer := length_unmet_lt (mem_names_of_style h) hvisited
      rw [applyChain_some h hvisited]
      cases hp : named.inherits with
      | none => exact List.prefix_rfl
      | some base => exact @report_applyChain base { s with visited := name :: s.visited }
termination_by ((styles.map Prod.fst).filter (· ∉ s.visited)).length
decreasing_by simpa using hfewer

theorem loops_applyChain {name : Bytes} {s : Resolving} (h : Loops s.report) :
    Loops (applyChain styles place name s).report := by
  obtain ⟨entry, hentry, hkind⟩ := h
  exact ⟨entry, report_applyChain.subset hentry, hkind⟩

/-- A chain that is not fresh is reported. -/
theorem applyChain_loops {name : Bytes} {s : Resolving}
    (hnone : ∀ chain, ¬ Fresh styles s.visited name chain) :
    Loops (applyChain styles place name s).report := by
  cases h : style styles name with
  | none => exact absurd ⟨.missing h, by simp⟩ (hnone [])
  | some named =>
    by_cases hvisited : name ∈ s.visited
    · rw [applyChain_visited h hvisited]
      exact ⟨_, List.mem_append_right _ (List.mem_singleton.mpr rfl), rfl⟩
    · have hfewer := length_unmet_lt (mem_names_of_style h) hvisited
      rw [applyChain_some h hvisited]
      cases hp : named.inherits with
      | none => exact absurd ⟨.root h hp, by simpa using hvisited⟩ (hnone [(name, named)])
      | some base =>
        refine @applyChain_loops base { s with visited := name :: s.visited } fun chain hchain => ?_
        refine hnone _ ⟨.child h hp hchain.1, fun a ha => ?_⟩
        rw [List.map_append, List.mem_append, List.map_singleton, List.mem_singleton] at ha
        rcases ha with ha | rfl
        · exact fun hmem => hchain.2 a ha (List.mem_cons_of_mem name hmem)
        · exact hvisited
termination_by ((styles.map Prod.fst).filter (· ∉ s.visited)).length
decreasing_by simpa using hfewer

/-! ### All chains -/

/-- One chain after another. -/
def applyAll (styles : StyleTable) (place : Bytes) (names : List Bytes) (s : Resolving) : Resolving :=
  names.foldl (fun s name => applyChain styles place name s) s

/-- The chains share no style, with each other and with what was visited. -/
def Apart (visited : List Bytes) (chains : List (List (Bytes × TextStyle))) : Prop :=
  (chains.flatten.map Prod.fst).Nodup ∧ ∀ a ∈ chains.flatten.map Prod.fst, a ∉ visited

theorem loops_applyAll : ∀ {names : List Bytes} {s : Resolving}, Loops s.report →
    Loops (applyAll styles place names s).report
  | [], _, h => h
  | _ :: names, _, h => @loops_applyAll names _ (loops_applyChain h)

theorem nodup_names {name : Bytes} {chain : List (Bytes × TextStyle)}
    (h : Ancestry (style styles) TextStyle.inherits name chain) : (chain.map Prod.fst).Nodup := by
  induction h with
  | missing => simp
  | root => simp
  | child h hp hchain ih =>
    rw [List.map_append, List.map_singleton, List.nodup_append]
    refine ⟨ih, List.nodup_singleton _, ?_⟩
    rintro a ha b hb rfl
    rw [List.mem_singleton.mp hb] at ha
    exact Ancestry.not_mem_parent h hp hchain ha

/-- Chains that share no style are laid over each other, and no loop is reported. -/
theorem applyAll_applied : ∀ {names : List Bytes} {chains : List (List (Bytes × TextStyle))}
    {s : Resolving}, Chains styles names chains → Apart s.visited chains →
    Applied s (applyAll styles place names s) chains.flatten
  | [], _, s, .nil, _ => ⟨rfl, by simp [applyAll], [], by simp [applyAll], by simp [Loops]⟩
  | name :: names, _, s, hall, hapart => by
    obtain ⟨chain, chains, hchain, hchains, rfl⟩ := List.forall₂_cons_left_iff.mp hall
    obtain ⟨hnodup, hnew⟩ := hapart
    rw [List.flatten_cons, List.map_append] at hnodup hnew
    obtain ⟨hinto, hvisited, entries, hreport, hquiet⟩ := @applyChain_applied styles place name chain
      hchain s fun a ha => hnew a (List.mem_append_left _ ha)
    obtain ⟨-, hrest, hdisjoint⟩ := List.nodup_append.mp hnodup
    obtain ⟨hinto', hvisited', entries', hreport', hquiet'⟩ := applyAll_applied hchains
      (s := applyChain styles place name s) ⟨hrest, fun a ha hmem => by
        rcases (hvisited a).mp hmem with hmem | hmem
        · exact hdisjoint a hmem a ha rfl
        · exact hnew a (List.mem_append_right _ ha) hmem⟩
    refine ⟨?_, fun a => ?_, entries ++ entries', ?_, ?_⟩
    · refine hinto'.trans ?_
      rw [hinto, List.flatten_cons]
      unfold overlayAll
      rw [List.foldl_append]
    · refine (hvisited' a).trans ?_
      rw [hvisited a, List.flatten_cons, List.map_append, List.mem_append]
      exact or_left_comm.trans or_assoc.symm
    · refine hreport'.trans ?_
      rw [hreport, List.append_assoc]
    · rintro ⟨entry, hentry, hkind⟩
      rcases List.mem_append.mp hentry with h | h
      · exact hquiet ⟨entry, h, hkind⟩
      · exact hquiet' ⟨entry, h, hkind⟩

/-- Otherwise a loop is reported. -/
theorem applyAll_loops : ∀ {names : List Bytes} {s : Resolving},
    (∀ chains, Chains styles names chains → ¬ Apart s.visited chains) →
      Loops (applyAll styles place names s).report
  | [], s, h => absurd ⟨by simp, by simp⟩ (h [] .nil)
  | name :: names, s, h => by
    by_cases hfresh : ∃ chain, Fresh styles s.visited name chain
    · obtain ⟨chain, hchain, hnew⟩ := hfresh
      obtain ⟨-, hvisited, -⟩ := @applyChain_applied styles place name chain hchain s hnew
      refine @applyAll_loops names (applyChain styles place name s) fun chains hchains hapart => ?_
      refine h (chain :: chains) (.cons hchain hchains) ⟨?_, fun a ha => ?_⟩
      · rw [List.flatten_cons, List.map_append, List.nodup_append]
        refine ⟨nodup_names hchain, hapart.1, ?_⟩
        rintro a ha b hb rfl
        exact hapart.2 a hb ((hvisited a).mpr (.inl ha))
      · rw [List.flatten_cons, List.map_append, List.mem_append] at ha
        rcases ha with ha | ha
        · exact hnew a ha
        · exact fun hmem => hapart.2 a ha ((hvisited a).mpr (.inr hmem))
    · exact @loops_applyAll styles place names (applyChain styles place name s)
        (applyChain_loops fun chain hchain => hfresh ⟨chain, hchain⟩)

/-! ### Which references are resolved well -/

theorem applyName_eq (name : Option Bytes) (s : Resolving) :
    applyName styles place name s = applyAll styles place name.toList s := by
  cases name <;> rfl

theorem applyAll_append {names names' : List Bytes} {s : Resolving} :
    applyAll styles place (names ++ names') s =
      applyAll styles place names' (applyAll styles place names s) := List.foldl_append

/-- The names that are followed: a document without a style `default` has no chain for it. -/
def followed (styles : StyleTable) (ref : StyleRef) : List Bytes :=
  (if (style styles (str "default")).isSome then [str "default"] else []) ++
    (ref.name.toList ++ ref.inlineStyle.inherits.toList)

theorem applyAll_followed (ref : StyleRef) : applyAll styles place (followed styles ref) {} =
    applyName styles place ref.inlineStyle.inherits
      (applyName styles place ref.name (applyDefault styles place {})) := by
  unfold followed
  rw [applyAll_append, applyAll_append, applyName_eq, applyName_eq]
  congr 2
  unfold applyDefault
  cases h : style styles (str "default") with
  | none => rfl
  | some fallback => exact applyChain_some h (by simp)

/-- A missing style has an empty chain. -/
theorem chains_followed {ref : StyleRef} {entries : List (Bytes × TextStyle)} :
    (∃ chains, Chains styles (followed styles ref) chains ∧ chains.flatten = entries) ↔
      ∃ chains, Chains styles (roots ref) chains ∧ chains.flatten = entries := by
  unfold followed roots
  cases h : style styles (str "default") with
  | some fallback => rfl
  | none =>
    constructor
    · rintro ⟨chains, hchains, hflat⟩
      exact ⟨[] :: chains, .cons (.missing h) hchains, hflat⟩
    · rintro ⟨chains, hchains, hflat⟩
      obtain ⟨chain, rest, hchain, hrest, rfl⟩ := List.forall₂_cons_left_iff.mp hchains
      rw [hchain.unique (.missing h)] at hflat
      exact ⟨rest, hrest, hflat⟩

theorem chains_unique : ∀ {names : List Bytes} {chains chains' : List (List (Bytes × TextStyle))},
    Chains styles names chains → Chains styles names chains' → chains = chains'
  | [], _, _, .nil, .nil => rfl
  | _ :: _, _, _, .cons h hs, .cons h' hs' => by rw [h.unique h', chains_unique hs hs']

theorem exists_chains : ∀ {names : List Bytes},
    (∃ chains, Chains styles names chains) ↔
      ¬ ∃ name ∈ names, Cyclic (style styles) TextStyle.inherits name
  | [] => by simpa using ⟨[], .nil⟩
  | name :: names => by
    have hkeys : ∀ {a t}, style styles a = some t → a ∈ styles.map Prod.fst := mem_names_of_style
    have ih := @exists_chains names
    have hone := @ancestry_iff _ _ (style styles) TextStyle.inherits name _ _ hkeys
    rw [List.exists_mem_cons_iff, not_or, ← ih, ← hone]
    constructor
    · rintro ⟨chains, hchains⟩
      obtain ⟨chain, rest, h, hs, -⟩ := List.forall₂_cons_left_iff.mp hchains
      exact ⟨⟨chain, h⟩, rest, hs⟩
    · rintro ⟨⟨chain, h⟩, chains, hs⟩
      exact ⟨chain :: chains, .cons h hs⟩

theorem not_loops_settle (merged : TextStyle) (place : Bytes) : ¬ Loops (settle merged place).2 := by
  have hclamp : ∀ {value : Option ℤ} {what : Bytes} {n : ℤ},
      ¬ Loops ((value.map fun v => clampScale v place what).getD (n, [])).2 := by
    rintro (_ | value) what n ⟨entry, hentry, hkind⟩
    · cases hentry
    · rw [Option.map_some, Option.getD_some] at hentry
      unfold clampScale at hentry
      split at hentry
      · cases hentry
      · rw [List.mem_singleton.mp hentry] at hkind
        cases hkind
  rintro ⟨entry, hentry, hkind⟩
  rcases List.mem_append.mp hentry with h | h
  · exact hclamp ⟨entry, h, hkind⟩
  · exact hclamp ⟨entry, h, hkind⟩

/-- What resolution reports and returns, by the chains. -/
theorem resolve_spec (ref : StyleRef) :
    (Loops (resolve styles ref place).2 ↔
      ¬ ∃ chains, Chains styles (roots ref) chains ∧ (chains.flatten.map Prod.fst).Nodup) ∧
    ∀ chains, Chains styles (roots ref) chains → (chains.flatten.map Prod.fst).Nodup →
      (resolve styles ref place).1 =
        (settle (TextStyle.overlay (overlayAll {} chains.flatten) ref.inlineStyle) place).1 := by
  obtain ⟨s, hs⟩ : ∃ s, s = applyAll styles place (followed styles ref) {} := ⟨_, rfl⟩
  have hresolve : resolve styles ref place =
      ((settle (TextStyle.overlay s.into ref.inlineStyle) place).1,
        s.report ++ (settle (TextStyle.overlay s.into ref.inlineStyle) place).2) := by
    rw [hs, applyAll_followed]
    rfl
  have hloops : Loops (resolve styles ref place).2 ↔ Loops s.report := by
    rw [hresolve]
    constructor
    · rintro ⟨entry, hentry, hkind⟩
      rcases List.mem_append.mp hentry with h | h
      · exact ⟨entry, h, hkind⟩
      · exact absurd ⟨entry, h, hkind⟩ (not_loops_settle _ _)
    · rintro ⟨entry, hentry, hkind⟩
      exact ⟨entry, List.mem_append_left _ hentry, hkind⟩
  have happlied : ∀ chains, Chains styles (roots ref) chains →
      (chains.flatten.map Prod.fst).Nodup → Applied {} s chains.flatten := by
    intro chains hchains hnodup
    obtain ⟨chains', hchains', hflat⟩ := chains_followed.mpr ⟨chains, hchains, rfl⟩
    rw [hs, ← hflat]
    exact applyAll_applied hchains' ⟨by rwa [hflat], fun a _ => by simp⟩
  refine ⟨hloops.trans ⟨?_, fun h => ?_⟩, fun chains hchains hnodup => ?_⟩
  · rintro hreport ⟨chains, hchains, hnodup⟩
    obtain ⟨entries, hentries, hquiet⟩ := (happlied chains hchains hnodup).report
    rw [hentries] at hreport
    exact hquiet hreport
  · rw [hs]
    refine applyAll_loops fun chains' hchains' hapart => ?_
    obtain ⟨chains, hchains, hflat⟩ := chains_followed.mp ⟨chains', hchains', rfl⟩
    exact h ⟨chains, hchains, by rw [hflat]; exact hapart.1⟩
  · rw [hresolve, (happlied chains hchains hnodup).into]

/-- Every entry names the place that was asked about. -/
theorem block_of_mem_applyChain {name : Bytes} {s : Resolving}
    (hs : ∀ entry ∈ s.report, entry.block = place) :
    ∀ entry ∈ (applyChain styles place name s).report, entry.block = place := by
  have hsaid : ∀ entry : ReportEntry, entry.block = place →
      ∀ e ∈ s.report ++ [entry], e.block = place := by
    intro entry hentry e he
    rcases List.mem_append.mp he with he | he
    · exact hs e he
    · rw [List.mem_singleton.mp he]
      exact hentry
  cases h : style styles name with
  | none =>
    rw [applyChain_none h]
    exact hsaid _ rfl
  | some named =>
    by_cases hvisited : name ∈ s.visited
    · rw [applyChain_visited h hvisited]
      exact hsaid _ rfl
    · have hfewer := length_unmet_lt (mem_names_of_style h) hvisited
      rw [applyChain_some h hvisited]
      cases hp : named.inherits with
      | none => exact hs
      | some base => exact @block_of_mem_applyChain base { s with visited := name :: s.visited } hs
termination_by ((styles.map Prod.fst).filter (· ∉ s.visited)).length
decreasing_by simpa using hfewer

theorem block_of_mem_applyAll : ∀ {names : List Bytes} {s : Resolving},
    (∀ entry ∈ s.report, entry.block = place) →
      ∀ entry ∈ (applyAll styles place names s).report, entry.block = place
  | [], _, hs => hs
  | _ :: names, _, hs => @block_of_mem_applyAll names _ (block_of_mem_applyChain hs)

theorem block_of_mem_settle {merged : TextStyle} : ∀ entry ∈ (settle merged place).2,
    entry.block = place := by
  have hclamp : ∀ {value : Option ℤ} {what : Bytes} {n : ℤ},
      ∀ entry ∈ ((value.map fun v => clampScale v place what).getD (n, [])).2,
        entry.block = place := by
    rintro (_ | value) what n entry hentry
    · cases hentry
    · rw [Option.map_some, Option.getD_some] at hentry
      unfold clampScale at hentry
      split at hentry
      · cases hentry
      · rw [List.mem_singleton.mp hentry]
  intro entry hentry
  rcases List.mem_append.mp hentry with h | h
  · exact hclamp entry h
  · exact hclamp entry h

theorem block_of_mem_resolve {ref : StyleRef} : ∀ entry ∈ (resolve styles ref place).2,
    entry.block = place := by
  intro entry hentry
  unfold resolve at hentry
  dsimp only at hentry
  rw [← applyAll_followed] at hentry
  rcases List.mem_append.mp hentry with h | h
  · exact block_of_mem_applyAll (by simp) entry h
  · exact block_of_mem_settle entry h

/-- A loop is reached from the styles that are resolved, or no style is on two of their chains. -/
def Separate (styles : StyleTable) (ref : StyleRef) : Prop :=
  (∃ name ∈ roots ref, Cyclic (style styles) TextStyle.inherits name) ∨
    ∀ chains, Chains styles (roots ref) chains → (chains.flatten.map Prod.fst).Nodup

/-- **Which references are resolved well.** -/
theorem resolves_iff {ref : StyleRef} : Resolves styles ref place ↔ Separate styles ref := by
  obtain ⟨hreport, hstyle⟩ := @resolve_spec styles place ref
  have hexists := @exists_chains styles (roots ref)
  constructor
  · intro h
    by_cases hcyclic : ∃ name ∈ roots ref, Cyclic (style styles) TextStyle.inherits name
    · exact .inl hcyclic
    · have hquiet : ¬ Loops (resolve styles ref place).2 := fun hl => hcyclic (h.reported.mp hl)
      obtain ⟨chains, hchains, hnodup⟩ := not_not.mp (mt hreport.mpr hquiet)
      exact .inr fun chains' hchains' => chains_unique hchains hchains' ▸ hnodup
  · intro h
    refine ⟨⟨fun hl => ?_, fun hcyclic => ?_⟩, fun chains hchains => hstyle chains hchains ?_⟩
    · rcases h with hcyclic | hnodup
      · exact hcyclic
      · by_contra hacyclic
        obtain ⟨chains, hchains⟩ := hexists.mpr hacyclic
        exact hreport.mp hl ⟨chains, hchains, hnodup chains hchains⟩
    · exact hreport.mpr fun ⟨chains, hchains, _⟩ => hexists.mp ⟨chains, hchains⟩ hcyclic
    · rcases h with hcyclic | hnodup
      · exact absurd hcyclic (hexists.mp ⟨chains, hchains⟩)
      · exact hnodup chains hchains

/-- A heading that extends the default style. -/
def extendsDefault : StyleTable :=
  [(str "default", {}), (str "h1", { inherits := some (str "default"), bold := some true })]

/-- No style loops, and a loop is reported. -/
theorem not_resolves_extendsDefault :
    ¬ Resolves extendsDefault { name := some (str "h1") } (str "blocks[0]") := by
  intro h
  have hchains : Chains extendsDefault (roots { name := some (str "h1") })
      [[(str "default", {})], [(str "default", {}),
        (str "h1", { inherits := some (str "default"), bold := some true })]] := by
    have hdefault : Ancestry (style extendsDefault) TextStyle.inherits (str "default")
      [(str "default", {})] := .root (by decide) rfl
    have hchild : style extendsDefault (str "h1") =
        some { inherits := some (str "default"), bold := some true } := by decide
    exact .cons hdefault (.cons (.child hchild rfl hdefault) .nil)
  obtain ⟨hreport, -⟩ := @resolve_spec extendsDefault (str "blocks[0]") { name := some (str "h1") }
  have hquiet := mt h.reported.mp (exists_chains.mp ⟨_, hchains⟩)
  obtain ⟨chains, hchains', hnodup⟩ := not_not.mp (mt hreport.mpr hquiet)
  rw [chains_unique hchains' hchains] at hnodup
  revert hnodup
  decide

end PrinterDriver.Dsl.Styles
