import PrinterDriver.Core.Raster
import PrinterDriver.Core.Transcode
import PrinterDriver.Engine.Drawer
import PrinterDriver.Engine.JournalFailures
import PrinterDriver.Engine.Markers
import PrinterDriver.Engine.Stages

/-! # What becomes of an accepted request

The worker loop has no handler, so a task delivers its result only if nothing in it throws. Here the
codecs are those of the driver. `reaches_iff` says which jobs and drawer requests reach their result
whatever the device does: the builders of the wire bytes decide it, with the journal and the
allocator of the tokens. -/

namespace PrinterDriver.Engine.Requests

open PrinterDriver.Lib.Programs PrinterDriver.Core.Types PrinterDriver.Core.Profile
  PrinterDriver.Core.EscposParser PrinterDriver.Core.Encoder PrinterDriver.Core.Raster
  PrinterDriver.Core.CashDrawer PrinterDriver.Engine.Io PrinterDriver.Engine.Ops
  PrinterDriver.Engine.RunJob PrinterDriver.Engine.Lifecycle PrinterDriver.Engine.JournalFailures
  PrinterDriver.Engine.Drawer PrinterDriver.Engine.Markers PrinterDriver.Engine.QuietCalls
  PrinterDriver.Engine.Stages

open Prog

/-! ### Requests -/

/-- The codecs of the driver. Text and documents are never read outside their bytes. -/
def codecs : Codecs where
  transliterate text codePage :=
    (Core.CodePage.transliterate text codePage).get (Core.CodePage.transliterate_isSome text codePage)
  packGrayscale raster targetWidthDots := (packGrayscale raster targetWidthDots).toOption
  transcodeFromEscPos bytes rasterLineMode :=
    let t := (Core.Transcode.transcodeFromEscPos bytes rasterLineMode).get
      (Core.Transcode.transcode_isSome bytes rasterLineMode)
    (t.out.buffer, t.dropped)

inductive Request where
  | job (j : JobRun)
  | drawer (d : DrawerRun)

/-- A job is accepted whatever it asks for; the width of the paper has 32 bits. -/
def Request.Accepted : Request → Prop
  | .job j => j.codecs = codecs ∧ j.widthDots < 2 ^ 32
  | .drawer d => d.accepted false = true

/-- What a task finds: the nonce of the instance, a journal that takes appends or not, and an
allocator that has a free pair of tokens or not. -/
structure Surroundings where
  nonce : Bytes
  length_nonce : nonce.length = 2
  printable : nonce.all isPrintableAscii = true
  appendable : Bool
  leasable : Bool

namespace Surroundings

variable (w : Surroundings)

/-- An access outside a buffer counts as a throw of its builder. -/
def throws (c : Call) : Prop :=
  c = .uncaught ∨ (c = .acquireTokens ∧ w.leasable = false) ∨
    (isAppend c = true ∧ w.appendable = false)

def valid : (c : Call) → c.Answer → Prop
  | .acquireTokens, pair => ∃ slot, pair = pairAt w.nonce slot
  | _, _ => True

def throwsInDrawer : PeripheralCall → Prop
  | .worker c => w.throws c
  | _ => False

def validInDrawer : (c : PeripheralCall) → c.Answer → Prop
  | .worker c, a => w.valid c a
  | _, _ => True

end Surroundings

def isDelivery : PeripheralCall → Bool
  | .deliver _ => true
  | _ => false

/-- Every run of the task returns and has delivered one result. -/
def Request.Reaches (w : Surroundings) : Request → Prop
  | .job j => ∀ t r, Ran w.throws j.runJob t r → ValidRun (E := Worker) w.valid t →
      r.isSome = true ∧ t.countP (fun m => isFinish m.1) = 1
  | .drawer d => ∀ t r, Ran w.throwsInDrawer d.openDrawer t r →
      ValidRun (E := Peripheral) w.validInDrawer t →
      r.isSome = true ∧ t.countP (fun m => isDelivery m.1) = 1

/-! ### The bytes that can be built -/

/-- The image of a job that has one. -/
def image (j : JobRun) : Option RasterPayload :=
  match j.payload with
  | .raster r => if 0 < r.width ∧ 0 < r.height ∧ r.gray ≠ [] then some r else none
  | .document _ _ | .raw _ => none

/-- The job takes tokens. -/
def Leases (j : JobRun) : Prop := j.profile.completion = .gsParenH ∨ j.custom.isSome = true

/-- The length of the verification line: the key and a token of four bytes. -/
def lineLength (j : JobRun) : ℕ :=
  (if j.key = [] then 0 else kOrderPrefix.length + j.key.length + 2) +
    kVerificationPrefix.length + 4

/-- An image needs a paper width and has to pack; the code on the receipt needs a line that a QR
symbol holds. -/
structure EscposFits (j : JobRun) : Prop where
  image : ∀ r, image j = some r → 0 < j.widthDots ∧ Packs r j.widthDots
  line : Leases j → j.options.printVerificationId = true → lineLength j ≤ 0xFFFF - 3

/-- A Star printer gets the image only in raster mode, and none without a paper width. -/
def StarFits (j : JobRun) : Prop :=
  j.profile.star.rasterLineMode = true → ∀ r, image j = some r →
    j.widthDots = 0 ∨ Packs r j.widthDots

/-- The job can be journalled; and on the engine that runs it, its bytes can be built, and its tokens
leased if it takes any. -/
def JobFits (w : Surroundings) (j : JobRun) : Prop :=
  w.appendable = true ∧
    if j.profile.drivableByEscposEngine = true ∨ j.custom.isSome = true then
      EscposFits j ∧ (Leases j → w.leasable = true)
    else if j.profile.drivableByStarEngine = true then StarFits j
    else True

/-- A vendor's pulse, or one of the two channels that `ESC p` knows. -/
def DrawerFits (d : DrawerRun) : Prop :=
  d.vendorDrawerKick.isSome = true ∨ d.caps.electrical.channelCount ≤ 2 ∨ d.request.channel ≤ 2

def Request.Fits (w : Surroundings) : Request → Prop
  | .job j => JobFits w j
  | .drawer d => DrawerFits d

section Building
variable {j : JobRun}

theorem content_isSome_iff (hc : j.codecs = codecs) (hw : j.widthDots < 2 ^ 32) (e : EscposEncoder) :
    (j.content e).isSome = true ↔
      ∀ r, image j = some r → 0 < j.widthDots ∧ Packs r j.widthDots := by
  unfold JobRun.content image
  cases j.payload with
  | raster r =>
    dsimp only
    split_ifs with h
    · have hpack := pack_isSome_iff (r := r) hw h.1 h.2.1
      simp [EscposEncoder.rasterGrayscale, hc, codecs, hpack]
    · simp
  | document bytes codePage => simp
  | raw bytes => simp

theorem trailer_isSome_iff {token : Bytes} (ht : token.length = 4) (e : EscposEncoder) :
    (j.trailer token e).isSome = true ↔
      (j.options.printVerificationId = true → lineLength j ≤ 0xFFFF - 3) := by
  have hne : token ≠ [] := fun h => by simp [h] at ht
  unfold JobRun.trailer lineLength
  by_cases hv : j.options.printVerificationId = true
  · rw [if_pos ⟨hv, hne⟩]
    simp only [EscposEncoder.qr, Option.isSome_map]
    split_ifs <;> simp_all [str] <;> omega
  · simp [hv]

theorem trailer_without_token (e : EscposEncoder) : j.trailer [] e = some e := by
  simp [JobRun.trailer]

theorem buildPayload_isSome_iff {token : Bytes} {C T : Prop}
    (hc : ∀ e, (j.content e).isSome = true ↔ C)
    (ht : ∀ e, (j.trailer token e).isSome = true ↔ T) :
    (j.buildPayload token).isSome = true ↔ C ∧ T := by
  unfold JobRun.buildPayload
  dsimp only
  generalize (if j.banner = true then _ else _ : EscposEncoder) = e
  rw [← hc e]
  cases he : j.content e with
  | none => simp
  | some e' =>
    rw [← ht e']
    cases ht' : j.trailer token e' <;> simp [ht']

theorem star_isSome_iff {r : RasterPayload} (hc : j.codecs = codecs) (hw : j.widthDots < 2 ^ 32)
    (hwidth : 0 < r.width) (hheight : 0 < r.height) (e : StarEncoder) :
    (e.rasterGrayscale j.codecs r j.widthDots).isSome = true ↔
      j.widthDots = 0 ∨ Packs r j.widthDots := by
  have hpack := pack_isSome_iff (r := r) hw hwidth hheight
  unfold StarEncoder.rasterGrayscale
  by_cases hz : j.widthDots = 0
  · simp [hz]
  · rw [if_neg (by omega), Option.isSome_map, hc]
    exact hpack.trans (by simp [hz, Nat.pos_of_ne_zero hz])

theorem buildStarPayload_isSome_iff (hc : j.codecs = codecs) (hw : j.widthDots < 2 ^ 32) :
    j.buildStarPayload.isSome = true ↔ StarFits j := by
  have hcontent : ∀ e, (j.starContent e).isSome = true ↔ StarFits j := by
    intro e
    unfold JobRun.starContent StarFits image
    cases j.payload with
    | raster r =>
      dsimp only
      by_cases hm : j.profile.star.rasterLineMode = true
      · by_cases h : 0 < r.width ∧ 0 < r.height ∧ r.gray ≠ []
        · simpa [h, hm] using star_isSome_iff hc hw h.1 h.2.1 e
        · simp [h]
      · simp [hm]
    | document bytes codePage => simp
    | raw bytes => simp
  unfold JobRun.buildStarPayload
  dsimp only
  generalize (if j.banner = true then _ else _ : StarEncoder) = e
  rw [← hcontent e]
  cases j.starContent e <;> simp

/-! ### The builders that cannot fail -/

theorem isPrintableAscii_digit {n : UInt32} (h : n.toNat < 94) :
    isPrintableAscii (kTokenAlphabetFirst + n.toUInt8) = true := by
  have hn : n.toUInt8.toNat = n.toNat := by
    rw [UInt32.toNat_toUInt8]
    omega
  simp only [isPrintableAscii, Bool.and_eq_true, decide_eq_true_eq, UInt8.le_iff_toNat_le,
    UInt8.toNat_add, hn, kTokenAlphabetFirst]
  have : (33 : UInt8).toNat = 33 := rfl
  have : (32 : UInt8).toNat = 32 := rfl
  have : (126 : UInt8).toNat = 126 := rfl
  omega

theorem all_encodeBase94 (value : UInt32) : (encodeBase94 value).all isPrintableAscii = true := by
  have hs : kTokenSequenceSpace.toNat = 8836 := rfl
  have ha : kTokenAlphabetSize.toNat = 94 := rfl
  have hhigh : (value % kTokenSequenceSpace / kTokenAlphabetSize).toNat < 94 := by
    rw [UInt32.toNat_div, UInt32.toNat_mod, hs, ha]
    omega
  have hlow : (value % kTokenSequenceSpace % kTokenAlphabetSize).toNat < 94 := by
    rw [UInt32.toNat_mod, UInt32.toNat_mod, hs, ha]
    omega
  simp [encodeBase94, isPrintableAscii_digit hhigh, isPrintableAscii_digit hlow]

/-- A token is four printable bytes. -/
theorem valid_tokens {w : Surroundings} {pair : MarkerPair} (h : w.valid .acquireTokens pair) :
    isValidProcessIdToken pair.printToken = true ∧ isValidProcessIdToken pair.cutToken = true := by
  obtain ⟨slot, rfl⟩ := h
  have hlen : ∀ v, (encodeBase94 v).length = 2 := fun _ => rfl
  simp [pairAt, isValidProcessIdToken, List.all_append, hlen, w.length_nonce, w.printable,
    all_encodeBase94]

end Building

/-! ### Stages that do not throw -/

/-- The calls that throw in no surroundings with a journal. -/
def Steady : Call → Prop
  | .uncaught | .acquireTokens => False
  | _ => True

theorem steady_of_inner {c : Call} (h : Inner False c) : Steady c := by
  cases c <;> trivial

/-! ### The jobs that return -/

section Jobs
variable {w : Surroundings} {α : Type}

/-- The judgement of this module. -/
def Sure (w : Surroundings) (Q : α → Prop) (p : Prog Worker α) : Prop :=
  Returns w.throws w.valid Q p

theorem sure_bind {β : Type} {Q : β → Prop} {p : Prog Worker α} {f : α → Prog Worker β} :
    Sure w Q (p >>= f) ↔ Sure w (fun a => Sure w Q (f a)) p := returns_bind

theorem Steady.not_throws {c : Call} (h : Steady c) (happ : w.appendable = true) :
    ¬ w.throws c := by
  rintro (rfl | ⟨rfl, -⟩ | ⟨-, ha⟩)
  · exact h
  · exact h
  · simp [happ] at ha

/-- A steady program returns, whatever comes of it. -/
theorem sure_of_steady {Q : α → Prop} (happ : w.appendable = true) :
    ∀ {p : Prog Worker α}, p.Only Steady → (∀ a, Q a) → Sure w Q p
  | .ret a, _, hQ => hQ a
  | .call _ _, h, hQ => ⟨h.1.not_throws happ, fun a _ => sure_of_steady happ (h.2 a) hQ⟩

/-- So does a stage that has the bytes it sends. -/
theorem sure_of_inner {Q : α → Prop} (happ : w.appendable = true) {p : Prog Worker α}
    (h : p.Only (Inner False)) (hQ : ∀ a, Q a) : Sure w Q p :=
  sure_of_steady happ (h.mono fun _ => steady_of_inner) hQ

/-- The transport may accept everything. -/
theorem sendPaced_goes {Q : TransportResult → Prop} {profile : CapabilityProfile} {part : Part}
    {data : Bytes} (h : Sure w Q (sendPaced profile part data)) : ∃ n, Q ⟨true, n⟩ := by
  have hchunks : ∀ (cs : List Bytes) (offset : ℕ), Sure w Q (sendChunks part cs offset) →
      ∃ n, Q ⟨true, n⟩ := by
    intro cs
    induction cs with
    | nil => exact fun offset h => ⟨offset, h⟩
    | cons c cs ih => exact fun offset h => ih _ (h.2 ⟨true, c.length⟩ trivial)
  unfold sendPaced at h
  split at h
  · exact ⟨data.length, h.2 ⟨true, data.length⟩ trivial⟩
  · exact hchunks _ _ h

variable {j : JobRun} {c : ConfidenceLevel}

/-- A preflight may go unanswered. -/
theorem preflight_goes {Q : Option ConfidenceLevel → Prop} (h : Sure w Q (j.preflight c)) :
    ∃ c', Q (some c') := by
  unfold JobRun.preflight at h
  split at h
  · obtain ⟨n, h⟩ := sendPaced_goes (sure_bind.mp (h.2 () trivial))
    exact ⟨c, (h.2 (.signalled, []) trivial).2 () trivial⟩
  · exact ⟨c, h⟩

theorem starPreamble_goes {Q : Option ConfidenceLevel → Prop} (h : Sure w Q (j.starPreamble c)) :
    ∃ c', Q (some c') := by
  unfold JobRun.starPreamble at h
  split at h
  · obtain ⟨n, h⟩ := sendPaced_goes (sure_bind.mp h)
    exact ⟨c, h.2 () trivial⟩
  · exact ⟨c, h⟩

theorem leaseTokens_none (h : ¬ Leases j) : j.leaseTokens = .ret none := by
  unfold JobRun.leaseTokens Leases at *
  rw [if_pos (by simpa [not_or] using h)]
  rfl

theorem sure_leaseTokens_iff {Q : Option MarkerPair → Prop} (happ : w.appendable = true)
    (h : Leases j) : Sure w Q j.leaseTokens ↔ w.leasable = true ∧
      ∀ pair, w.valid .acquireTokens pair → Q (some pair) := by
  have hlease : ¬(j.profile.completion ≠ .gsParenH ∧ j.custom.isNone = true) := by
    rintro ⟨hp, hc⟩
    rcases h with h | h
    · exact hp h
    · simp [Option.isNone_iff_eq_none.mp hc] at h
  unfold JobRun.leaseTokens
  rw [if_neg hlease]
  constructor
  · intro h
    refine ⟨?_, fun pair hp => (((h.2 pair hp).2 () trivial).2 () trivial).2 () trivial⟩
    by_contra hl
    exact h.1 (.inr (.inl ⟨rfl, Bool.eq_false_of_not_eq_true hl⟩))
  · rintro ⟨hl, hQ⟩
    have hacquire : ¬ w.throws .acquireTokens := by simp [Surroundings.throws, hl, isAppend]
    refine ⟨hacquire, fun pair hp => ?_⟩
    refine ⟨Steady.not_throws (c := .setTokens j.id pair) trivial happ, fun _ _ => ?_⟩
    refine ⟨Steady.not_throws (c := .recordTokens j.id pair) trivial happ, fun _ _ => ?_⟩
    exact ⟨Steady.not_throws (c := .registerTokens j.id pair) trivial happ, fun _ _ => hQ pair hp⟩

/-- With its tokens leased a job returns exactly if its payload can be built. -/
theorem sure_printStages_iff (happ : w.appendable = true) {lease : Option MarkerPair}
    (htokens : j.profile.completion = .gsParenH →
      isValidProcessIdToken ((lease.map MarkerPair.printToken).getD []) = true ∧
        isValidProcessIdToken ((lease.map MarkerPair.cutToken).getD []) = true) :
    Sure w (fun _ => True) (do
      let c ← j.printStages lease c
      JobRun.releaseTokens lease
      return c) ↔
      (j.buildPayload ((lease.map MarkerPair.printToken).getD [])).isSome = true := by
  constructor
  · intro h
    cases hb : j.buildPayload ((lease.map MarkerPair.printToken).getD []) with
    | some wire => rfl
    | none =>
      unfold JobRun.printStages at h
      simp only [hb] at h
      exact absurd (.inl rfl) h.1
  · intro hb
    have hrelease : (JobRun.releaseTokens lease).Only Steady := by
      cases lease with
      | none => trivial
      | some pair => exact Only.perform trivial
    have hstages : (j.printStages lease c).Only Steady :=
      (printStages_inner (.inr hb) (.inr htokens)).mono fun _ => steady_of_inner
    exact sure_of_steady happ (hstages.bind fun _ => hrelease.bind fun _ => trivial) fun _ => trivial

theorem sure_leased_iff (happ : w.appendable = true) (hc : j.codecs = codecs)
    (hw : j.widthDots < 2 ^ 32) : Sure w (fun _ => True) (j.leased c) ↔
      EscposFits j ∧ (Leases j → w.leasable = true) := by
  unfold JobRun.leased
  rw [sure_bind]
  by_cases hl : Leases j
  · rw [sure_leaseTokens_iff happ hl]
    have hbody : ∀ pair, w.valid .acquireTokens pair →
        (Sure w (fun _ => True) (do
          let c ← j.printStages (some pair) c
          JobRun.releaseTokens (some pair)
          return c) ↔ EscposFits j) := by
      intro pair hp
      obtain ⟨hprint, hcut⟩ := valid_tokens hp
      have hlen : pair.printToken.length = 4 := by
        simp only [isValidProcessIdToken, Bool.and_eq_true, decide_eq_true_eq] at hprint
        exact hprint.1
      have hiff := @sure_printStages_iff w j c happ (some pair) fun _ => ⟨hprint, hcut⟩
      rw [hiff]
      refine (buildPayload_isSome_iff (content_isSome_iff hc hw) (trailer_isSome_iff hlen)).trans ?_
      exact ⟨fun h => ⟨h.1, fun _ => h.2⟩, fun h => ⟨h.image, h.line hl⟩⟩
    constructor
    · rintro ⟨hlease, h⟩
      exact ⟨(hbody _ ⟨0, rfl⟩).mp (h _ ⟨0, rfl⟩), fun _ => hlease⟩
    · rintro ⟨hfits, hlease⟩
      exact ⟨hlease hl, fun pair hp => (hbody pair hp).mpr hfits⟩
  · rw [leaseTokens_none hl]
    have hp : j.profile.completion ≠ .gsParenH := fun hp => hl (.inl hp)
    refine (sure_printStages_iff happ fun h => absurd h hp).trans ?_
    refine (buildPayload_isSome_iff (T := True) (content_isSome_iff hc hw) fun e => by
      simp [trailer_without_token]).trans ?_
    exact ⟨fun h => ⟨⟨h.1, fun hl' => absurd hl' hl⟩, fun hl' => absurd hl' hl⟩,
      fun h => ⟨h.1.image, trivial⟩⟩

theorem sure_runEscposJob_iff (happ : w.appendable = true) (hc : j.codecs = codecs)
    (hw : j.widthDots < 2 ^ 32) : Sure w (fun _ => True) j.runEscposJob ↔
      EscposFits j ∧ (Leases j → w.leasable = true) := by
  constructor
  · intro h
    obtain ⟨c, h⟩ := preflight_goes (sure_bind.mp (((h.2 true trivial).2 () trivial).2 () trivial))
    exact (sure_leased_iff happ hc hw).mp h
  · intro h
    refine ⟨Steady.not_throws (c := .ensureConnected) trivial happ, fun connected _ => ?_⟩
    change Sure w _ (if _ then _ else _)
    split
    · exact sure_of_inner happ failKnown_inner fun _ => trivial
    · refine ⟨Steady.not_throws (c := .io .beginJobIo) trivial happ, fun _ _ =>
        ⟨Steady.not_throws (c := .io (.setCustomMethod j.custom)) trivial happ, fun _ _ => ?_⟩⟩
      change Sure w _ (j.preflight .transportAccepted >>= fun c => JobRun.next j.leased c)
      refine sure_bind.mpr (sure_of_inner happ preflight_inner fun c => ?_)
      cases c with
      | none => trivial
      | some c => exact (sure_leased_iff happ hc hw).mpr h

theorem sure_runStarJob_iff (happ : w.appendable = true) (hc : j.codecs = codecs)
    (hw : j.widthDots < 2 ^ 32) : Sure w (fun _ => True) j.runStarJob ↔ StarFits j := by
  rw [← buildStarPayload_isSome_iff hc hw]
  constructor
  · intro h
    obtain ⟨c, h⟩ := starPreamble_goes
      (sure_bind.mp (((h.2 true trivial).2 () trivial).2 () trivial))
    cases hb : j.buildStarPayload with
    | some wire => rfl
    | none =>
      have h := sure_bind.mp h
      simp only [JobRun.next, JobRun.sendStarPayload, hb] at h
      exact absurd (.inl rfl) h.1
  · exact fun hb => sure_of_inner happ (runStarJob_inner (.inr hb)) fun _ => trivial

/-- Every job appends, at the latest when it cannot be run. -/
theorem appendable_of_sure (h : Sure w (fun _ => True) j.runStages) : w.appendable = true := by
  have hfail : ∀ {reason : FailureReason} {e : JobEvidence},
      Sure w (fun _ => True) (j.failKnown reason .transportAccepted e) → w.appendable = true := by
    intro reason e h
    by_contra happ
    exact h.1 (.inr (.inr ⟨rfl, Bool.eq_false_of_not_eq_true happ⟩))
  unfold JobRun.runStages at h
  split_ifs at h
  · exact hfail (h.2 false trivial)
  · exact hfail (h.2 false trivial)
  · exact hfail h

theorem sure_runJob_iff (hc : j.codecs = codecs) (hw : j.widthDots < 2 ^ 32) :
    Sure w (fun _ => True) j.runJob ↔ JobFits w j := by
  have hstages : Sure w (fun _ => True) j.runJob ↔ Sure w (fun _ => True) j.runStages := sure_bind
  have happ : JobFits w j → w.appendable = true := And.left
  rw [hstages]
  refine ⟨fun h => ⟨appendable_of_sure h, ?_⟩, fun h => ?_⟩
  · have happ := appendable_of_sure h
    unfold JobRun.runStages at h
    simp only [Bool.or_eq_true] at h
    split_ifs at h ⊢
    · exact (sure_runEscposJob_iff happ hc hw).mp h
    · exact (sure_runStarJob_iff happ hc hw).mp h
  · obtain ⟨happ, h⟩ := h
    unfold JobRun.runStages
    simp only [Bool.or_eq_true]
    split_ifs at h ⊢
    · exact (sure_runEscposJob_iff happ hc hw).mpr h
    · exact (sure_runStarJob_iff happ hc hw).mpr h
    · exact sure_of_inner happ failKnown_inner fun _ => trivial

/-- The job reaches its result. -/
theorem job_reaches_iff (hc : j.codecs = codecs) (hw : j.widthDots < 2 ^ 32) :
    (Request.job j).Reaches w ↔ JobFits w j := by
  rw [← sure_runJob_iff hc hw]
  have hfresh : Fresh j {} := ⟨.inl rfl, rfl, rfl, rfl, rfl, rfl⟩
  constructor
  · exact fun h => returns_iff.mpr fun t r hran hv => (h t r hran hv).1
  · intro h t r hran hv
    have hr := returns_iff.mp h t r hran hv
    exact ⟨hr, (ended_of_ran hran hr (runJob_progress hfresh) rfl fun hs => by cases hs).once⟩

end Jobs

/-! ### The drawer requests that return -/

section Drawers
variable {w : Surroundings} {α : Type}

def SureInDrawer (w : Surroundings) (Q : α → Prop) (p : Prog Peripheral α) : Prop :=
  Returns w.throwsInDrawer w.validInDrawer Q p

theorem sureInDrawer_bind {β : Type} {Q : β → Prop} {p : Prog Peripheral α}
    {f : α → Prog Peripheral β} :
    SureInDrawer w Q (p >>= f) ↔ SureInDrawer w (fun a => SureInDrawer w Q (f a)) p := returns_bind

theorem sure_onWorker {Q : α → Prop} : ∀ {p : Prog Worker α},
    SureInDrawer w Q (onWorker p) ↔ Sure w Q p
  | .ret _ => Iff.rfl
  | .call _ _ => and_congr_right fun _ => forall_congr' fun _ => imp_congr_right fun _ =>
    sure_onWorker

/-- What a drawer task calls beside the pulse. -/
def SteadyInDrawer : PeripheralCall → Prop
  | .worker c => Steady c ∧ isAppend c = false
  | .deliver _ => False
  | _ => True

theorem SteadyInDrawer.not_throws {c : PeripheralCall} (h : SteadyInDrawer c) :
    ¬ w.throwsInDrawer c := by
  cases c with
  | worker c =>
    rintro (rfl | ⟨rfl, -⟩ | ⟨ha, -⟩)
    · exact h.1
    · exact h.1
    · simp [h.2] at ha
  | _ => exact fun h => h

theorem onWorker_steady : ∀ {p : Prog Worker α}, p.Only (fun c => Steady c ∧ isAppend c = false) →
    (onWorker p).Only SteadyInDrawer
  | .ret _, _ => trivial
  | .call _ _, h => ⟨h.1, fun a => onWorker_steady (h.2 a)⟩

theorem sureInDrawer_of_steady {Q : α → Prop} : ∀ {p : Prog Peripheral α},
    p.Only SteadyInDrawer → (∀ a, Q a) → SureInDrawer w Q p
  | .ret a, _, hQ => hQ a
  | .call _ _, h, hQ => ⟨h.1.not_throws, fun a _ => sureInDrawer_of_steady (h.2 a) hQ⟩

variable {d : DrawerRun}

theorem send_steady {bytes : Bytes} :
    (onWorker (sendPaced d.profile .drawer bytes)).Only SteadyInDrawer :=
  onWorker_steady (sendPaced_only fun _ => ⟨trivial, rfl⟩)

theorem pollDrawerPin_steady : d.pollDrawerPin.Only SteadyInDrawer := by
  refine Only.bind (Only.perform ⟨trivial, rfl⟩) fun _ => send_steady.bind fun sent => ?_
  split
  · exact Only.bind (Only.perform trivial) fun _ => trivial
  · refine Only.bind (Only.perform trivial) fun ⟨outcome, answer⟩ => ?_
    dsimp only
    split
    · exact Only.bind (Only.perform trivial) fun _ => trivial
    · split
      · trivial
      · exact Only.bind (Only.perform trivial) fun _ => trivial

theorem levelBefore_steady : d.levelBefore.Only SteadyInDrawer := by
  unfold DrawerRun.levelBefore
  split
  · exact pollDrawerPin_steady
  · trivial

theorem lastLevel_steady : ∀ {polled : Option Bool},
    (DrawerRun.lastLevel polled).Only SteadyInDrawer
  | some _ => trivial
  | none => Only.perform trivial

theorem watch_steady {before : Bool} : ∀ {rounds : ℕ} {seen : DrawerRun.Sighting},
    (d.watch before rounds seen).Only SteadyInDrawer := by
  intro rounds
  induction rounds with
  | zero =>
    intro seen
    refine pollDrawerPin_steady.bind fun polled => lastLevel_steady.bind fun level => ?_
    dsimp only
    split <;> trivial
  | succ rounds ih =>
    intro seen
    refine pollDrawerPin_steady.bind fun polled => lastLevel_steady.bind fun level => ?_
    dsimp only
    split
    · trivial
    · refine Only.bind (Only.perform trivial) fun late => ?_
      split
      · trivial
      · exact Only.bind (Only.perform trivial) fun _ => ih

theorem coolDown_steady : d.coolDown.Only SteadyInDrawer := by
  unfold DrawerRun.coolDown
  split
  · exact Only.perform trivial
  · trivial

theorem fire_steady {before : Option Bool} {result : DrawerOpenResult}
    (h : (d.pulse result).isSome = true) : (d.fire before result).Only SteadyInDrawer := by
  obtain ⟨bytes, hbytes⟩ := Option.isSome_iff_exists.mp h
  refine coolDown_steady.bind fun _ => ?_
  unfold DrawerRun.kick
  simp only [hbytes]
  refine send_steady.bind fun sent => Only.bind (Only.perform trivial) fun _ => ?_
  split
  · trivial
  · cases before with
    | none => trivial
    | some before => exact watch_steady.bind fun _ => trivial

/-- A switch may stay silent before the pulse. -/
theorem levelBefore_goes {Q : Option Bool → Prop} (h : SureInDrawer w Q d.levelBefore) : Q none := by
  unfold DrawerRun.levelBefore at h
  split at h
  · obtain ⟨n, h⟩ := sendPaced_goes (sure_onWorker.mp (sureInDrawer_bind.mp (h.2 () trivial)))
    exact (h.2 (.timeout, 0) trivial).2 () trivial
  · exact h

theorem coolDown_goes {Q : Unit → Prop} (h : SureInDrawer w Q d.coolDown) : Q () := by
  unfold DrawerRun.coolDown at h
  split at h
  · exact h.2 () trivial
  · exact h

theorem fire_sends {Q : DrawerOpenResult → Prop} {before : Option Bool} {result : DrawerOpenResult}
    (h : SureInDrawer w Q (d.fire before result)) : (d.pulse result).isSome = true := by
  have h := coolDown_goes (sureInDrawer_bind.mp h)
  cases hp : d.pulse result with
  | some bytes => rfl
  | none =>
    simp only [DrawerRun.kick, hp] at h
    exact absurd (.inl rfl) h.1

/-- A vendor makes any pulse; `ESC p` knows two channels. -/
theorem pulse_isSome_iff {result : DrawerOpenResult}
    (h : result.channel = d.caps.channelFor d.request.channel) :
    (d.pulse result).isSome = true ↔ DrawerFits d := by
  unfold DrawerRun.pulse DrawerFits
  cases d.vendorDrawerKick with
  | some r => simp
  | none =>
    have hnone := @drawerKick_isNone_iff d.caps d.request.channel result.pulseMs
    simp only [h, Option.isSome_none, Bool.false_eq_true, false_or, ← Option.ne_none_iff_isSome,
      ne_eq, hnone, not_and_or, UInt8.not_lt]

theorem runDrawerSequence_steady (h : DrawerFits d) : d.runDrawerSequence.Only SteadyInDrawer := by
  refine Only.bind (Only.perform ⟨trivial, rfl⟩) fun connected => ?_
  split
  · trivial
  · refine Only.bind (Only.perform ⟨trivial, rfl⟩) fun _ => levelBefore_steady.bind fun before => ?_
    split
    · dsimp only
      split
      · trivial
      · exact fire_steady ((pulse_isSome_iff rfl).mpr h)
    · exact fire_steady ((pulse_isSome_iff rfl).mpr h)

/-- One result is delivered, after everything else. -/
theorem delivered_once {throws : PeripheralCall → Prop} : ∀ {p : Prog Peripheral DrawerOpenResult}
    {t : List (Made Peripheral)} {r : Option Unit}, p.Only (fun c => isDelivery c = false) →
    Ran throws (p >>= fun result => perform (E := Peripheral) (.deliver result)) t r →
    r.isSome = true → t.countP (fun m => isDelivery m.1) = 1 := by
  intro p
  induction p with
  | ret a =>
    intro t r _ h hr
    cases h with
    | answer h =>
      cases h
      rfl
    | throw _ => cases hr
  | call c k ih =>
    intro t r hp h hr
    cases h with
    | answer h => simpa [hp.1] using ih _ (hp.2 _) h hr
    | throw _ => cases hr

/-- The drawer request reaches its result. -/
theorem drawer_reaches_iff : (Request.drawer d).Reaches w ↔ DrawerFits d := by
  constructor
  · intro h
    have hsure : SureInDrawer w (fun _ => True) d.openDrawer :=
      returns_iff.mpr fun t r hran hv => (h t r hran hv).1
    have hsure := sureInDrawer_bind.mp hsure
    have hbefore := levelBefore_goes
      (sureInDrawer_bind.mp ((hsure.2 true trivial).2 () trivial))
    exact (pulse_isSome_iff rfl).mp (fire_sends hbefore)
  · intro h t r hran hv
    have hsteady := runDrawerSequence_steady h
    have hsure : SureInDrawer w (fun _ => True) d.openDrawer :=
      sureInDrawer_bind.mpr (sureInDrawer_of_steady hsteady fun _ => ⟨id, fun _ _ => trivial⟩)
    have hr := returns_iff.mp hsure t r hran hv
    refine ⟨hr, delivered_once (hsteady.mono fun c hc => ?_) hran hr⟩
    cases c <;> first | rfl | exact hc.elim

end Drawers

/-! ### Every accepted request -/

/-- **Every accepted request reaches its result**, unless its bytes cannot be built, the journal
refuses an append, or every token is in use. -/
theorem reaches_iff {q : Request} (w : Surroundings) (h : q.Accepted) :
    q.Reaches w ↔ q.Fits w := by
  cases q with
  | job j => exact job_reaches_iff h.1 h.2
  | drawer d => exact drawer_reaches_iff

/-- Nothing is in the way. -/
def undisturbed : Surroundings where
  nonce := str "ab"
  length_nonce := rfl
  printable := by decide
  appendable := true
  leasable := true

/-- An image that says it is two dots wide and high. -/
def logo (gray : Bytes) : JobRun where
  id := str "job-1"
  key := str "order-7"
  payload := .raster { gray := gray, width := 2, height := 2 }
  options := {}
  attempt := 1
  banner := false
  profile := {}
  widthDots := 576
  codecs := codecs
  completionMethod := fun _ => none

theorem logo_fits_iff (b : UInt8) (gray : Bytes) :
    JobFits undisturbed (logo (b :: gray)) ↔ 4 ≤ (b :: gray).length := by
  have hcustom : (logo (b :: gray)).custom = none :=
    if_neg (show ¬(CompletionMechanism.gsR1 = .vendorIdle ∧ ([] : Bytes) ≠ []) by decide)
  have hleases : ¬ Leases (logo (b :: gray)) := by
    rintro (h | h)
    · cases h
    · simp [hcustom] at h
  have himage : image (logo (b :: gray)) = some { gray := b :: gray, width := 2, height := 2 } := by
    simp [image, logo]
  have hdrivable : (logo (b :: gray)).profile.drivableByEscposEngine = true := rfl
  unfold JobFits
  rw [if_pos (.inl hdrivable)]
  constructor
  · exact fun h => (h.2.1.image _ himage).2.pixels
  · intro h
    refine ⟨rfl, ⟨fun r hr => ?_, fun hl => absurd hl hleases⟩, fun hl => absurd hl hleases⟩
    obtain rfl := Option.some.inj (himage.symm.trans hr)
    exact ⟨show 0 < 576 by decide, show fittedHeight 2 2 576 ≤ kMaxRasterRows by decide, h,
      .inl (show 576 + 7 < 2 ^ 32 by decide)⟩

theorem whole_logo_reaches : (Request.job (logo [0, 255, 255, 0])).Accepted ∧
    (Request.job (logo [0, 255, 255, 0])).Reaches undisturbed :=
  have h : (Request.job (logo [0, 255, 255, 0])).Accepted := ⟨rfl, by decide⟩
  ⟨h, (reaches_iff undisturbed h).mpr ((logo_fits_iff _ _).mpr (by decide))⟩

/-- An image with fewer pixels than it says ends the process. -/
theorem cropped_logo_escapes : ¬ ∀ (q : Request) (w : Surroundings), q.Accepted →
    w.appendable = true → w.leasable = true → q.Reaches w := by
  intro h
  have hfits := (job_reaches_iff rfl (by decide)).mp
    (h (.job (logo [0])) undisturbed ⟨rfl, by decide⟩ rfl rfl)
  exact absurd ((logo_fits_iff _ _).mp hfits) (by decide)

end PrinterDriver.Engine.Requests
