import PrinterDriver.Dsl.StarPulses
import PrinterDriver.Engine.Accounting
import PrinterDriver.Engine.Requests

/-! # Which ports are fired

Four paths lead to the drawer port: `openDrawer`, `openCashDrawer`, a job with `open_drawer`, and a
document with a `drawerKick` block. Only the first looks at what the profile says of the port. A
`Deed` is one request with its run; `Fired` says that the transport accepted a byte of a drawer
command that the driver or the renderer wrote. `spares_unestablished` is the condition under which a
run leaves a port alone that nobody has classified. -/

namespace PrinterDriver.Engine.DrawerSafety

open PrinterDriver.Lib.Programs PrinterDriver.Core.Types PrinterDriver.Core.Profile
  PrinterDriver.Core.Encoder PrinterDriver.Core.CashDrawer PrinterDriver.Engine.Io
  PrinterDriver.Engine.Ops PrinterDriver.Engine.RunJob PrinterDriver.Engine.Drawer
  PrinterDriver.Engine.Accounting PrinterDriver.Engine.QuietCalls PrinterDriver.Dsl.Render
  PrinterDriver.Dsl.Pulses PrinterDriver.Dsl.StarPulses

open Prog

/-- A capability profile with what the drawer and the renderer read of it. -/
structure Capability extends CapabilityProfile where
  drawer : DrawerCapabilities := {}
  render : RenderCapabilities := {}

/-- There is a port, and its electrical standard is known. -/
def Capability.established (p : Capability) : Bool := p.drawer.present && p.drawer.electricalKnown

/-! ### The four paths -/

/-- The fire-and-forget call: one `ESC p` for whatever printer it is. -/
def openCashDrawerTask (profile : CapabilityProfile) : Prog Worker Unit := do
  let connected : Bool ← perform (E := Worker) .ensureConnected
  if !connected then return ()
  else
    let _ ← sendPaced profile .drawer (({} : EscposEncoder).kickCashDrawer).buffer
    return ()

/-- A document rendered for the printer. -/
structure Receipt (Copy : Type) (p : Capability) where
  setter : Typesetter Copy
  options : RenderOptions
  width : ℕ
  forPrinter : options.profile = RenderProfile.from p.toCapabilityProfile p.render width
  blocks : List (Block Copy)
  output : RenderOutput
  rendered : render setter Requests.codecs options blocks = some output

/-- The renderer's drawer commands in the bytes of the document. -/
def Receipt.pulses {Copy : Type} {p : Capability} (r : Receipt Copy p) : List ℕ :=
  pulseStarts r.setter Requests.codecs r.options r.blocks

/-- A job for the printer; its payload is the receipt, or else the caller's own. -/
structure Printing (Copy : Type) (p : Capability) where
  job : JobRun
  onPrinter : job.profile = p.toCapabilityProfile
  codecs : job.codecs = Requests.codecs
  receipt : Option (Receipt Copy p) := none
  carried : ∀ r, receipt = some r → job.payload = .document r.output.bytes r.output.codePage

/-- A request, with the calls it made and their answers. -/
inductive Deed (Copy : Type) where
  | openDrawer (p : Capability) (request : DrawerRequest)
      (registrations : Bytes → Option DrawerKickReg) (stopping : Bool)
      (run : List (Σ c : PeripheralCall, c.Answer))
  | openCashDrawer (p : Capability) (stopping : Bool) (run : List Entry)
  | print (p : Capability) (printing : Printing Copy p) (run : List Entry)

/-! ### Where the drawer commands of a payload stand -/

namespace Printing

variable {Copy : Type} {p : Capability} (r : Printing Copy p)

/-- What comes before the content. -/
def head : EscposEncoder :=
  let codePage := match r.job.payload with
    | .document _ codePage => codePage
    | _ => r.job.profile.codePage
  let e := ({} : EscposEncoder).initPrinter.selectCodePage codePage
  let e := if 0 < r.job.options.topFeedDots then e.feedDots r.job.options.topFeedDots else e
  if r.job.banner then r.job.bannerLines e else e

/-- The driver's own command stands behind the trailer. -/
def ownPulses (printToken : Bytes) : List ℕ :=
  match (r.job.content r.head).bind (r.job.trailer printToken) with
  | some e => if r.job.options.openDrawer then [e.buffer.length] else []
  | none => []

def receiptPulses : List ℕ := (r.receipt.map Receipt.pulses).getD []

/-- The drawer commands of the driver and of the renderer in the ESC/POS payload. -/
def pulses (printToken : Bytes) : List ℕ :=
  r.receiptPulses.map (r.head.buffer.length + ·) ++ r.ownPulses printToken

/-- The renderer's drawer commands that the transcoder passes on to a Star printer. -/
def starPulses : Bool :=
  match r.job.payload with
  | .document bytes _ =>
    carries bytes r.job.profile.star.rasterLineMode (within r.receiptPulses)
  | _ => false

/-- The transport has accepted a byte of a drawer command. Where neither engine takes the job, no
byte is to be accepted at all. -/
def fired (run : List Entry) : Bool :=
  let accepted := (ledger run).accepted
  if r.job.profile.drivableByEscposEngine || r.job.custom.isSome then
    (r.pulses (JobRun.printToken (ledger run).tokens)).any fun s => s < accepted.length
  else if r.job.profile.drivableByStarEngine then r.starPulses && accepted ≠ []
  else accepted ≠ []

end Printing

/-- What the transport accepted in a call. -/
def acceptedIn : Entry → Bytes
  | ⟨.write _ data, result⟩ => TransportResult.accepted result data
  | _ => []

namespace Deed

variable {Copy : Type}

def capability : Deed Copy → Capability
  | .openDrawer p _ _ _ _ | .openCashDrawer p _ _ | .print p _ _ => p

/-- The calls are a run of what the request starts: a refused or stopping one starts nothing. -/
def Ran : Deed Copy → Prop
  | .openDrawer p request registrations stopping run =>
    let d : DrawerRun := ⟨p.toCapabilityProfile, p.drawer, request, registrations⟩
    ∃ q, Trace (if d.accepted stopping then d.openDrawer else .ret ()) run q
  | .openCashDrawer p stopping run =>
    ∃ q, Trace (if stopping then .ret () else openCashDrawerTask p.toCapabilityProfile) run q
  | .print _ printing run => ∃ q, Trace printing.job.runJob run q

/-- The transport has accepted a byte of a drawer command that the driver or the renderer wrote; the
questions that `openDrawer` asks count as well. -/
def fired : Deed Copy → Bool
  | .openDrawer _ _ _ _ run => run.any fun
    | ⟨.worker (.write part data), result⟩ => acceptedIn ⟨.write part data, result⟩ ≠ []
    | _ => false
  | .openCashDrawer _ _ run => run.any fun entry => acceptedIn entry ≠ []
  | .print _ printing run => printing.fired run

/-- What each path needs so as to leave the port alone. -/
def Harmless : Deed Copy → Prop
  | .openDrawer _ _ _ _ _ => True
  | .openCashDrawer _ stopping _ => stopping = true
  | .print _ r _ =>
    if r.job.profile.drivableByEscposEngine || r.job.custom.isSome then
      r.job.options.openDrawer = false ∧
        ∀ receipt, r.receipt = some receipt → ∀ b ∈ receipt.blocks, isKick b = false
    else if r.job.profile.drivableByStarEngine then
      ∀ receipt, r.receipt = some receipt → ∀ s ∈ receipt.pulses,
        s ∈ stops receipt.output.bytes r.job.profile.star.rasterLineMode
    else True

end Deed

/-! ### The commands of a payload -/

section Payload
variable {Copy : Type} {p : Capability} {r : Printing Copy p} {wire printToken : Bytes}

theorem prefix_trailer {e e' : EscposEncoder} (h : r.job.trailer printToken e = some e') :
    e.buffer <+: e'.buffer := by
  unfold JobRun.trailer at h
  by_cases hid : r.job.options.printVerificationId = true ∧ printToken ≠ []
  · rw [if_pos hid] at h
    obtain ⟨signed, hqr, rfl⟩ := Option.map_eq_some_iff.mp h
    refine List.IsPrefix.trans ?_ (prefix_align signed _)
    unfold EscposEncoder.qr at hqr
    split_ifs at hqr
    all_goals
      obtain rfl := Option.some.inj hqr
      have hfeed : e.buffer <+: e.feed.buffer := List.prefix_append _ _
      exact (hfeed.trans (prefix_align _ _)).trans
        ((prefix_line _ _ _).trans (List.prefix_append _ _))
  · rw [if_neg hid] at h
    obtain rfl := Option.some.inj h
    exact List.prefix_rfl

/-- The drawer commands stand whole in the payload. -/
theorem pulses_at (h : r.job.buildPayload printToken = some wire) :
    ∀ s ∈ r.pulses printToken, PulseAt wire s := by
  obtain ⟨body, hbody, h⟩ := Option.bind_eq_some_iff.mp h
  obtain ⟨signed, hsigned, h⟩ := Option.bind_eq_some_iff.mp h
  obtain rfl := Option.some.inj h
  change r.job.content r.head = some body at hbody
  have hkicked : signed.buffer <+:
      (if r.job.options.openDrawer then signed.kickCashDrawer else signed).buffer := by
    split_ifs
    · exact List.prefix_append _ _
    · exact List.prefix_rfl
  have hwire : body.buffer <+: _ := (prefix_trailer hsigned).trans <|
    hkicked.trans (List.prefix_append _ [0x1B, 0x64, r.job.profile.finalFeedLines])
  intro s hs
  rw [Printing.pulses, List.mem_append, List.mem_map] at hs
  rcases hs with ⟨s, hs, rfl⟩ | hs
  · unfold Printing.receiptPulses at hs
    cases hr : r.receipt with
    | none => simp [hr] at hs
    | some receipt =>
      rw [hr] at hs
      obtain ⟨pin, onTime, offTime, hat⟩ := pulse_at receipt.rendered s hs
      refine PulseAt.mono ⟨pin, onTime, offTime, ?_⟩ hwire
      rw [JobRun.content, r.carried receipt hr] at hbody
      obtain rfl := Option.some.inj hbody
      show _ <+: (r.head.buffer ++ receipt.output.bytes).drop _
      rw [← List.drop_drop, List.drop_left]
      exact hat
  · have hown : r.ownPulses printToken =
        if r.job.options.openDrawer then [signed.buffer.length] else [] := by
      rw [Printing.ownPulses, hbody, Option.bind_some, hsigned]
    rw [hown] at hs
    split_ifs at hs with hopen
    · obtain rfl := List.mem_singleton.mp hs
      refine ⟨0, 25, 25, ?_⟩
      rw [if_pos hopen]
      show _ <+: ((signed.buffer ++ _) ++ _).drop _
      rw [List.append_assoc, List.drop_left]
      exact List.prefix_append _ _
    · exact nomatch hs

/-- What the transcoder meets does not reach a Star printer. -/
theorem starPulses_eq_false
    (h : ∀ receipt, r.receipt = some receipt → ∀ s ∈ receipt.pulses,
      s ∈ stops receipt.output.bytes r.job.profile.star.rasterLineMode) :
    r.starPulses = false := by
  unfold Printing.starPulses
  split
  · rename_i bytes codePage hpayload
    cases hr : r.receipt with
    | none =>
      rw [Printing.receiptPulses, hr]
      exact carries_eq_false (fun _ hs => nomatch hs) fun _ hs => nomatch hs
    | some receipt =>
      have hbytes : bytes = receipt.output.bytes :=
        (Payload.document.inj (hpayload.symm.trans (r.carried receipt hr))).1
      rw [Printing.receiptPulses, hr, hbytes]
      exact carries_eq_false (pulse_at receipt.rendered) (h receipt hr)
  · rfl

/-- A document rendered for a printer has a drawer command exactly when a block asks for one: the
render profile of every printer has a drawer. -/
theorem receipt_pulses_eq_nil {receipt : Receipt Copy p} :
    receipt.pulses = [] ↔ ∀ b ∈ receipt.blocks, isKick b = false := by
  have hdrawer : receipt.options.profile.drawerKick = true := by
    rw [receipt.forPrinter]
    rfl
  rw [Receipt.pulses, pulseStarts_eq_nil_iff receipt.rendered]
  simp [hdrawer]

theorem pulses_eq_nil (hopen : r.job.options.openDrawer = false)
    (hkick : ∀ receipt, r.receipt = some receipt → ∀ b ∈ receipt.blocks, isKick b = false) :
    r.pulses printToken = [] := by
  have hreceipt : r.receiptPulses = [] := by
    unfold Printing.receiptPulses
    cases hr : r.receipt with
    | none => rfl
    | some receipt => exact receipt_pulses_eq_nil.mpr (hkick receipt hr)
  have hown : r.ownPulses printToken = [] := by
    unfold Printing.ownPulses
    split
    · rw [if_neg (by rw [hopen]; exact Bool.false_ne_true)]
    · rfl
  rw [Printing.pulses, hreceipt, hown]
  rfl

end Payload

/-! ### The port is left alone -/

section Ports
variable {Copy : Type} {p : Capability}

/-- A program that writes nothing leaves the books empty. -/
theorem accepted_of_only {α : Type} {prog q : Prog Worker α} {t : List Entry}
    (ht : Trace prog t q) : ∀ {L : Ledger}, L.accepted = [] →
      prog.Only (fun c => ∀ part data, c ≠ (Call.write part data : Call)) →
        (t.foldl Ledger.post L).accepted = [] := by
  induction ht with
  | nil => exact fun hL _ => hL
  | @cons c k a t q _ ih =>
    intro L hL hprog
    refine ih ?_ (hprog.2 a)
    cases c with
    | write part data => exact absurd rfl (hprog.1 part data)
    | _ => exact hL

/-- A job that neither engine takes is refused without a byte. -/
theorem accepted_of_refused {j : JobRun} {t : List Entry} {q : Prog Worker Unit}
    (hescpos : ¬ (j.profile.drivableByEscposEngine || j.custom.isSome) = true)
    (hstar : ¬ j.profile.drivableByStarEngine = true) (ht : Trace j.runJob t q) :
    (ledger t).accepted = [] := by
  refine accepted_of_only ht rfl ?_
  unfold JobRun.runJob JobRun.runStages
  rw [if_neg hescpos, if_neg hstar]
  refine Only.bind (Only.bind (terminate_only ?_ ?_ ?_) fun _ => trivial) fun _ => trivial
  · exact fun _ _ _ _ h => nomatch h
  · exact fun _ _ _ _ h => nomatch h
  · exact fun _ _ h => nomatch h

/-- `openDrawer` refuses a port that nobody has classified, whatever methods are registered. -/
theorem accepted_eq_false (hport : p.established = false) {request : DrawerRequest}
    {registrations : Bytes → Option DrawerKickReg} {stopping : Bool} :
    (DrawerRun.mk p.toCapabilityProfile p.drawer request registrations).accepted stopping =
      false := by
  have hkickable : p.drawer.kickable = false := by
    unfold DrawerCapabilities.kickable
    unfold Capability.established at hport
    cases hpresent : p.drawer.present with
    | false => rfl
    | true =>
      rw [hpresent, Bool.true_and] at hport
      simp [hport]
  have hport' : (p.drawer.present && p.drawer.electricalKnown) = false := hport
  simp [DrawerRun.accepted, hkickable, hport']

theorem trace_ret {E : Interface} {α : Type} {a : α} {t : List (Σ c : E.Call, E.Answer c)}
    {q : Prog E α} (h : Trace (.ret a) t q) : t = [] := by
  cases h
  rfl

theorem spares {d : Deed Copy} (hran : d.Ran) (hport : d.capability.established = false)
    (hharmless : d.Harmless) : d.fired = false := by
  cases d with
  | openDrawer p request registrations stopping run =>
    obtain ⟨q, hq⟩ := hran
    rw [accepted_eq_false (p := p) hport] at hq
    obtain rfl := trace_ret hq
    rfl
  | openCashDrawer p stopping run =>
    obtain ⟨q, hq⟩ := hran
    obtain rfl : stopping = true := hharmless
    obtain rfl := trace_ret hq
    rfl
  | print p r run =>
    obtain ⟨q, hq⟩ := hran
    show r.fired run = false
    unfold Printing.fired
    unfold Deed.Harmless at hharmless
    dsimp only at hharmless ⊢
    split_ifs at hharmless ⊢ with hescpos hstar
    · rw [pulses_eq_nil hharmless.1 hharmless.2]
      rfl
    · rw [starPulses_eq_false hharmless]
      rfl
    · exact decide_eq_false (not_not_intro (accepted_of_refused hescpos hstar hq))

end Ports

/-- A printer that has no drawer port at all. -/
def portless : Capability := {}

/-- A job for it, with or without `open_drawer`. -/
def plainJob (openDrawer : Bool) (payload : Payload) : JobRun where
  id := str "job"
  key := str "order"
  payload := payload
  options := { openDrawer := openDrawer, preflight := .skip }
  attempt := 1
  banner := false
  profile := portless.toCapabilityProfile
  widthDots := 576
  codecs := Requests.codecs
  completionMethod _ := none

/-- A typesetter for documents without text. -/
def noCopy : Typesetter Empty := ⟨fun _ _ copy => copy.elim⟩

def portlessOptions : RenderOptions := { profile := RenderProfile.from {} {} 0 }

/-- A document of one `drawerKick` block, as it is rendered for a printer without a drawer. -/
def kickReceipt : Receipt Empty portless where
  setter := noCopy
  options := portlessOptions
  width := 0
  forPrinter := rfl
  blocks := [.drawerKick 0 25]
  output := ⟨[0x1B, 0x70, 0, 25, 25], .pc437, []⟩
  rendered := rfl

def ticket (openDrawer : Bool) : Printing Empty portless where
  job := plainJob openDrawer (.raw (str "hi"))
  onPrinter := rfl
  codecs := rfl
  receipt := none
  carried _ h := by cases h

def kickTicket : Printing Empty portless where
  job := plainJob false (.document kickReceipt.output.bytes kickReceipt.output.codePage)
  onPrinter := rfl
  codecs := rfl
  receipt := some kickReceipt
  carried _ h := by
    obtain rfl := Option.some.inj h
    rfl

/-- The four paths on a printer without a drawer port, over a link that takes everything. -/
def deeds : List (Deed Empty) :=
  [.openDrawer portless {} (fun _ => none) false [],
    .openCashDrawer portless false (play (link true) (openCashDrawerTask {})).1,
    .print portless (ticket true) (play (link true) (ticket true).job.runJob).1,
    .print portless kickTicket (play (link true) kickTicket.job.runJob).1]

theorem deeds_ran : ∀ d ∈ deeds, d.Ran := by
  intro d hd
  simp only [deeds, List.mem_cons, List.not_mem_nil, or_false] at hd
  rcases hd with rfl | rfl | rfl | rfl
  · exact ⟨_, .nil _⟩
  · exact ⟨_, trace_play _ _⟩
  · exact ⟨_, trace_play _ _⟩
  · exact ⟨_, trace_play _ _⟩

/-- A receipt without a pulse on the same printer, and a drawer request that it refuses. -/
def quietDeeds : List (Deed Empty) :=
  [.openDrawer portless {} (fun _ => none) false [],
    .print portless (ticket false) (play (link true) (ticket false).job.runJob).1]

end PrinterDriver.Engine.DrawerSafety
