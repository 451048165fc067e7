import PrinterDriver.Dsl.Render

/-! # The pulses of a rendered document

Where the renderer's own drawer commands stand in the bytes of a document. Each operation appends
its bytes (`emit_appends`), so the command of a `drawerKick` operation stands whole where the
operation began (`pulse_at`); and a document has such a command exactly when it has a `drawerKick`
block and the render profile has a drawer (`pulseStarts_eq_nil_iff`). -/

namespace PrinterDriver.Dsl.Pulses

open PrinterDriver.Core.Types PrinterDriver.Core.Profile PrinterDriver.Core.Encoder
  PrinterDriver.Dsl.Render

def isPulse : LayoutOp → Bool
  | .drawerKick _ _ => true
  | .printed _ | .feed _ _ | .qr _ _ _ _ | .raw _ | .cut _ _ => false

def isKick {Copy : Type} : Block Copy → Bool
  | .drawerKick _ _ => true
  | .copy _ | .feed _ _ | .cut _ | .raw _ | .qr _ _ _ _ | .control _ _ | .custom _ _ => false

@[simp] theorem isPulse_drawerKick {pin pulse : ℤ} : isPulse (.drawerKick pin pulse) = true := rfl

@[simp] theorem isPulse_printed {op : Printed} : isPulse (.printed op) = false := rfl

@[simp] theorem isPulse_feed {lines dots : ℕ} : isPulse (.feed lines dots) = false := rfl

@[simp] theorem isPulse_qr {payload : Bytes} {size : ℤ} {ec : QrEc} {align : Align} :
    isPulse (.qr payload size ec align) = false := rfl

@[simp] theorem isPulse_raw {bytes : Bytes} : isPulse (.raw bytes) = false := rfl

@[simp] theorem isPulse_cut {kind : CutMode} {dots : ℕ} : isPulse (.cut kind dots) = false := rfl

/-- The offsets of the drawer commands among what the operations append. -/
def pulsesFrom (c : Codecs) (options : RenderOptions) : List LayoutOp → Pen → List ℕ
  | [], _ => []
  | op :: ops, p =>
    (if isPulse op then [p.buffer.length] else []) ++
      ((emit c options p op).map (pulsesFrom c options ops)).getD []

/-- The offsets of the renderer's drawer commands in the bytes of the document. -/
def pulseStarts {Copy : Type} (setter : Typesetter Copy) (c : Codecs) (options : RenderOptions)
    (blocks : List (Block Copy)) : List ℕ :=
  pulsesFrom c options (layoutDocument setter options blocks).ops (penOf options)

/-! ### Operations append -/

/-- The pen has written on and taken nothing back. -/
def Onward (p p' : Pen) : Prop := p.buffer <+: p'.buffer

section Append
variable {p p' q : Pen}

theorem Onward.refl (p : Pen) : Onward p p := List.prefix_rfl

theorem Onward.trans (h : Onward p q) (h' : Onward q p') : Onward p p' := List.IsPrefix.trans h h'

theorem onward_put (p : Pen) (bytes : Bytes) : Onward p (p.put bytes) := List.prefix_append _ _

theorem prefix_align (e : EscposEncoder) (a : Align) : e.buffer <+: (e.align a).buffer := by
  unfold EscposEncoder.align
  split_ifs
  · exact List.prefix_rfl
  · exact List.prefix_append _ _

theorem prefix_bold (e : EscposEncoder) (b : Bool) : e.buffer <+: (e.bold b).buffer := by
  unfold EscposEncoder.bold
  split
  · exact List.prefix_rfl
  · exact List.prefix_append _ _

theorem prefix_line (c : Codecs) (e : EscposEncoder) (utf8 : Bytes) :
    e.buffer <+: (e.line c utf8).buffer := by
  show e.buffer <+: e.buffer ++ _ ++ _
  rw [List.append_assoc]
  exact List.prefix_append _ _

theorem prefix_cut (e : EscposEncoder) (mode : CutMode) : e.buffer <+: (e.cut mode).buffer := by
  unfold EscposEncoder.cut
  split_ifs <;> exact List.prefix_append _ _

theorem prefix_raster {c : Codecs} {e e' : EscposEncoder} {raster : RasterPayload} {target : ℕ}
    (h : e.rasterGrayscale c raster target = some e') : e.buffer <+: e'.buffer := by
  unfold EscposEncoder.rasterGrayscale at h
  obtain ⟨packed, -, rfl⟩ := Option.map_eq_some_iff.mp h
  exact List.prefix_append _ _

theorem onward_align (p : Pen) (a : Align) : Onward p (p.onEncoder fun e => e.align a) :=
  prefix_align _ _

theorem onward_underline {dots : UInt8} (h : p.underline dots = some p') : Onward p p' := by
  unfold Pen.underline at h
  split_ifs at h
  · obtain rfl := Option.some.inj h
    exact Onward.refl p
  · obtain rfl := Option.some.inj h
    exact onward_put p _

theorem onward_textSize {width height : ℤ} (h : p.textSize width height = some p') :
    Onward p p' := by
  unfold Pen.textSize at h
  split_ifs at h
  · obtain rfl := Option.some.inj h
    exact Onward.refl p
  · obtain rfl := Option.some.inj h
    exact onward_put p _

/-- A style command is left out or put. -/
theorem onward_ite {b : Prop} [Decidable b] (h : Onward p p') : Onward p (if b then p else p') := by
  split_ifs
  · exact Onward.refl p
  · exact h

theorem onward_applyStyle {profile : RenderProfile} {style : ResolvedStyle}
    (h : p.applyStyle profile style = some p') : Onward p p' := by
  unfold Pen.applyStyle at h
  dsimp only at h
  obtain ⟨q, hq, hsize⟩ := Option.bind_eq_some_iff.mp h
  have hfont : Onward p (p.selectFont (style.font = str "printerB")) :=
    onward_ite (onward_put p _)
  have hinverse : ∀ (r : Pen) (b : Bool), Onward r (r.selectInverse b) := fun r b =>
    onward_ite (onward_put r _)
  have hdown : ∀ (r : Pen) (b : Bool), Onward r (r.selectUpsideDown b) := fun r b =>
    onward_ite (onward_put r _)
  have hline : ∀ (r : Pen) (n : ℤ), Onward r (r.selectLineSpacing n) := fun r n =>
    onward_ite (onward_put r _)
  have hletter : ∀ (r : Pen) (n : ℤ), Onward r (r.selectLetterSpacing n) := fun r n =>
    onward_ite (onward_put r _)
  have hmargin : ∀ (r : Pen) (n : ℤ), Onward r (r.selectLeftMargin n) := fun r n =>
    onward_ite (onward_put r _)
  have harea : ∀ (r : Pen) (n : ℤ), Onward r (r.selectAreaWidth n) := fun r n =>
    onward_ite (onward_put r _)
  have hstyle : ∀ r : Pen,
      Onward r (r.onEncoder fun e => (e.align style.align).bold style.bold) := fun r =>
    (prefix_align _ _).trans (prefix_bold _ _)
  refine Onward.trans ?_ ((onward_underline hq).trans (onward_textSize hsize))
  exact hfont.trans <| (hinverse _ _).trans <| (hdown _ _).trans <| (hline _ _).trans <|
    (hletter _ _).trans <| (hmargin _ _).trans <| (harea _ _).trans (hstyle _)

theorem onward_qr {data : Bytes} {size : ℤ} {ec : QrEc} (h : p.qr data size ec = some p') :
    Onward p p' := by
  unfold Pen.qr at h
  split_ifs at h
  obtain rfl := Option.some.inj h
  exact onward_put p _

variable {c : Codecs} {options : RenderOptions}

theorem onward_emitPrinted {op : Printed} (h : emitPrinted c options p op = some p') :
    Onward p p' := by
  cases op with
  | text line style columns prePadded =>
    obtain ⟨q, hq, hline⟩ := Option.bind_eq_some_iff.mp h
    obtain rfl := Option.some.inj hline
    exact (onward_applyStyle hq).trans (prefix_line _ _ _)
  | image gray width height target dither align =>
    obtain ⟨e, he, hp⟩ := Option.bind_eq_some_iff.mp h
    obtain rfl := Option.some.inj hp
    exact (onward_align p align).trans (prefix_raster he)
  | barcode command align =>
    obtain rfl := Option.some.inj h
    exact (onward_align p align).trans (onward_put _ _)

theorem emit_appends {op : LayoutOp} (h : emit c options p op = some p') : Onward p p' := by
  cases op with
  | printed op => exact onward_emitPrinted h
  | feed lines dots =>
    simp only [emit] at h
    split_ifs at h
    · obtain rfl := Option.some.inj h
      exact List.prefix_append _ _
    · obtain rfl := Option.some.inj h
      exact List.prefix_append _ _
    · obtain rfl := Option.some.inj h
      exact Onward.refl p
  | qr payload size ec align => exact (onward_align p align).trans (onward_qr h)
  | drawerKick pin pulse =>
    simp only [emit, Pen.kickCashDrawer] at h
    split_ifs at h
    obtain rfl := Option.some.inj h
    exact onward_put p _
  | raw bytes =>
    obtain rfl := Option.some.inj h
    exact onward_put p _
  | cut kind clearance =>
    obtain rfl := Option.some.inj h
    refine Onward.trans ?_ (prefix_cut _ _)
    split_ifs
    · exact List.prefix_append _ _
    · exact Onward.refl p

theorem emitAll_appends : ∀ {ops : List LayoutOp} {p : Pen}, emitAll c options ops p = some p' →
    Onward p p'
  | [], p, h => Option.some.inj h ▸ Onward.refl p
  | op :: ops, p, h => by
    obtain ⟨q, hq, hops⟩ := Option.bind_eq_some_iff.mp h
    exact (emit_appends hq).trans (emitAll_appends hops)

/-! ### Where the commands stand -/

/-- A drawer command of five bytes stands at the offset. -/
def PulseAt (bytes : Bytes) (start : ℕ) : Prop :=
  ∃ pin onTime offTime, [0x1B, 0x70, pin, onTime, offTime] <+: bytes.drop start

theorem PulseAt.mono {bytes bytes' : Bytes} {start : ℕ} (h : PulseAt bytes start)
    (hb : bytes <+: bytes') : PulseAt bytes' start := by
  obtain ⟨pin, onTime, offTime, hat⟩ := h
  obtain ⟨rest, rfl⟩ := hb
  refine ⟨pin, onTime, offTime, ?_⟩
  rw [List.drop_append]
  exact hat.trans (List.prefix_append _ _)

theorem pulseAt_kick {pin pulse : ℤ} (h : emit c options p (.drawerKick pin pulse) = some p') :
    PulseAt p'.buffer p.buffer.length := by
  simp only [emit, Pen.kickCashDrawer] at h
  split_ifs at h
  obtain rfl := Option.some.inj h
  refine ⟨UInt8.ofNat pin.toNat, UInt8.ofNat pulse.toNat, UInt8.ofNat pulse.toNat, ?_⟩
  exact ⟨[], by rw [List.append_nil]; exact List.drop_left.symm⟩

theorem pulsesFrom_at : ∀ {ops : List LayoutOp} {p : Pen}, emitAll c options ops p = some p' →
    ∀ start ∈ pulsesFrom c options ops p, PulseAt p'.buffer start
  | [], _, _ => fun _ h => nomatch h
  | op :: ops, p, h => by
    obtain ⟨q, hq, hops⟩ := Option.bind_eq_some_iff.mp h
    intro start hs
    simp only [pulsesFrom, hq, Option.map_some, Option.getD_some, List.mem_append] at hs
    rcases hs with hs | hs
    · cases op with
      | drawerKick pin pulse =>
        obtain rfl : start = p.buffer.length := by simpa using hs
        exact (pulseAt_kick hq).mono (emitAll_appends hops)
      | printed | feed | qr | raw | cut => simp at hs
    · exact pulsesFrom_at hops start hs

theorem pulsesFrom_eq_nil : ∀ {ops : List LayoutOp} {p : Pen}, emitAll c options ops p = some p' →
    (pulsesFrom c options ops p = [] ↔ ∀ op ∈ ops, isPulse op = false)
  | [], _, _ => iff_of_true rfl (fun _ h => nomatch h)
  | op :: ops, p, h => by
    obtain ⟨q, hq, hops⟩ := Option.bind_eq_some_iff.mp h
    have ih := pulsesFrom_eq_nil hops
    simp only [pulsesFrom, hq, Option.map_some, Option.getD_some, List.append_eq_nil_iff, ih,
      List.forall_mem_cons]
    cases isPulse op <;> simp

end Append

/-! ### Which documents have one -/

section Layout
variable {Copy : Type} {setter : Typesetter Copy} {options : RenderOptions}

/-- What one block adds to the operations. -/
theorem layBlock_pulses {l : Layout} {place : Bytes} {isLast : Bool} {b : Block Copy} :
    (∀ op ∈ (layBlock setter options l place isLast b).ops, isPulse op = false) ↔
      (∀ op ∈ l.ops, isPulse op = false) ∧
        ¬ (options.profile.drawerKick = true ∧ isKick b = true) := by
  have hadd : ∀ {l' : Layout} {op : LayoutOp}, (∀ o ∈ (l'.add op).ops, isPulse o = false) ↔
      (∀ o ∈ l'.ops, isPulse o = false) ∧ isPulse op = false := by
    intro l' op
    simp [Layout.add, or_imp, forall_and]
  cases b with
  | copy copy =>
    simp only [layBlock, List.mem_append, or_imp, forall_and, isKick]
    simp
  | feed lines dots =>
    cases dots with
    | some dots =>
      simp only [layBlock, layFeed, hadd]
      split_ifs <;> simp [Layout.say, isKick]
    | none => simp only [layBlock, layFeed, hadd]; simp [isKick]
  | cut kind =>
    simp only [layBlock, layCut]
    split_ifs <;> simp [hadd, Layout.omitted, Layout.say, isKick]
  | drawerKick pin pulse =>
    simp only [layBlock, layDrawerKick]
    cases options.profile.drawerKick <;> simp [hadd, Layout.omitted, Layout.say, isKick]
  | raw bytes =>
    simp only [layBlock, layRaw, hadd]
    cases framingRisk bytes <;> simp [Layout.say, isKick]
  | qr content size ec align =>
    simp only [layBlock, layQr]
    split_ifs <;> simp [hadd, Layout.omitted, Layout.say, isKick]
  | control kind path => simp [layBlock, Layout.omitted, Layout.say, isKick]
  | custom kind payload =>
    simp only [layBlock, layCustom]
    split <;> simp [hadd, Layout.omitted, Layout.say, isKick]

theorem layFrom_pulses : ∀ {bs : List (Block Copy)} {i : ℕ} {l : Layout},
    (∀ op ∈ (layFrom setter options i bs l).ops, isPulse op = false) ↔
      (∀ op ∈ l.ops, isPulse op = false) ∧
        ¬ (options.profile.drawerKick = true ∧ ∃ b ∈ bs, isKick b = true)
  | [], _, _ => by simp [layFrom]
  | b :: bs, i, l => by
    rw [layFrom, layFrom_pulses, layBlock_pulses]
    rw [and_assoc, ← not_or, ← and_or_left]
    simp only [List.mem_cons, exists_eq_or_imp]

variable {c : Codecs} {blocks : List (Block Copy)} {out : RenderOutput}

/-- Each drawer command of the renderer stands where its operation began. -/
theorem pulse_at (h : render setter c options blocks = some out) :
    ∀ start ∈ pulseStarts setter c options blocks, PulseAt out.bytes start := by
  obtain ⟨p, hp, rfl⟩ := Option.map_eq_some_iff.mp h
  exact pulsesFrom_at hp

/-- **A rendered document has a drawer command of the renderer exactly when one of its blocks asks
for it and the render profile has a drawer.** -/
theorem pulseStarts_eq_nil_iff (h : render setter c options blocks = some out) :
    pulseStarts setter c options blocks = [] ↔
      ¬ (options.profile.drawerKick = true ∧ ∃ b ∈ blocks, isKick b = true) := by
  obtain ⟨p, hp, -⟩ := Option.map_eq_some_iff.mp h
  have hlaid : (∀ op ∈ (layoutDocument setter options blocks).ops, isPulse op = false) ↔
      (∀ op ∈ ({} : Layout).ops, isPulse op = false) ∧
        ¬ (options.profile.drawerKick = true ∧ ∃ b ∈ blocks, isKick b = true) := layFrom_pulses
  exact (pulsesFrom_eq_nil hp).trans (hlaid.trans (by simp))

end Layout

end PrinterDriver.Dsl.Pulses
