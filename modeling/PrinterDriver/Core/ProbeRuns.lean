import PrinterDriver.Core.Probe

/-! # What the findings rest on

A finding is what its phase heard (`supported_run`), whoever the bytes were meant for. `Attributed`
says that every finding and every fence rests on an answer to its own query; it holds just where no
phase takes the answer to another query for its own (`attributed_iff`). -/

namespace PrinterDriver.Core.ProbeRuns

open PrinterDriver.Lib.Scanning PrinterDriver.Core.Types PrinterDriver.Core.Profile
  PrinterDriver.Core.EscposParser PrinterDriver.Core.EscposParser.ResponseParser
  PrinterDriver.Core.Probe PrinterDriver.Core.Probe.CapabilityProbe

variable {F : Type}

/-- The finding of a query is that it is supported. -/
def supported (f : CapabilityFindings F) : Query → Bool
  | .realtime .printerStatus => f.dleEot1 = some true
  | .realtime .offlineCause => f.dleEot2 = some true
  | .realtime .errorCause => f.dleEot3 = some true
  | .realtime .paperSensor => f.dleEot4 = some true
  | .identityByte .modelId => f.reported.modelId.isSome
  | .identityByte .typeId => f.reported.typeId.isSome
  | .identityByte .romVersion => f.reported.romVersion.isSome
  | .identityText .manufacturer => f.reported.manufacturer ≠ []
  | .identityText .model => f.reported.model ≠ []
  | .identityText .firmware => f.reported.firmware ≠ []
  | .identityText .serial => f.reported.serial ≠ []
  | .processId => f.gsHProcessId = some true
  | .queued => f.gsR1 = some true
  | .asb => f.asb = some true

/-! ### What a phase hears -/

/-- What is heard in the phase of a query until its wait is over. -/
def heard (t : Transcript) (q : Query) : Chunk :=
  ((t.window q).before ++ (t.window q).heard).flatten

/-- A reply of more than one byte that has begun and is not complete, or nothing. -/
def unfinished (bytes : Bytes) : Bool :=
  bytes = [] || (bytes[0]? = some 0x37 && !gsHDisqualified bytes && bytes.length < 7) ||
    (bytes[0]?.any looksLikeAsbByte && !asbDisqualified bytes && bytes.length < 4)

/-- What the check of a query takes for an answer: anything but the beginning of a frame, any byte,
something printable, the probe's own token, an ASB block. -/
def accepts : Query → Bytes → Bool
  | .realtime _, bytes | .queued, bytes => !unfinished bytes
  | .identityByte _, bytes => bytes ≠ []
  | .identityText _, bytes => (parseGsIString bytes).isSome
  | .processId, bytes => (({} : ResponseParser).feed bytes).1.contains (.gsHAck kProbeToken)
  | .asb, bytes => (({} : ResponseParser).feed bytes).1.any isAsb

/-! ### When the parser says nothing -/

theorem waiting_iff (p : ResponseParser) : p.Waiting ↔ unfinished p.buffer = true := by
  have hstep : p.Waiting ↔ ∀ e q, p.step false ≠ .emitted e q := by
    unfold Waiting
    rw [Option.eq_none_iff_forall_ne_some]
    exact ⟨fun h e q he => h (e, q) (scanner_step.mpr he),
      fun h r hr => h r.1 r.2 (scanner_step.mp hr)⟩
  rw [hstep]
  unfold step
  cases hb : p.buffer with
  | nil => simp [unfinished]
  | cons first rest =>
    have hbyte : ∃ e q, p.stepByte first rest = .emitted e q := by
      unfold stepByte
      split
      · split_ifs <;> exact ⟨_, _, rfl⟩
      · split_ifs <;> exact ⟨_, _, rfl⟩
    obtain ⟨e, q, hbyte⟩ := hbyte
    dsimp only
    rw [hbyte]
    simp only [unfinished, List.getElem?_cons_zero, Option.any_some, Option.some.injEq]
    split_ifs with h1 h2 h3 h4
    · obtain ⟨rfl, h1⟩ := h1
      simp_all [not_asb_of_gsH]
    · obtain ⟨rfl, h2⟩ := h2
      simp_all
      left
      omega
    · simp_all
    · simp_all
      right
      omega
    · simp_all

theorem feed_of_waiting {p : ResponseParser} {x : Bytes} (h : (p.push x).Waiting) :
    p.feed x = ([], p.push x) := by
  rw [feed_eq, Scanner.feed]
  exact Scanner.drain_of_none h _

/-- The parser says nothing just where what it holds is unfinished. -/
theorem feed_eq_nil {p : ResponseParser} {x : Bytes} :
    (p.feed x).1 = [] ↔ (p.push x).Waiting := by
  constructor
  · intro h
    by_contra hw
    obtain ⟨⟨e, q⟩, hs⟩ := Option.ne_none_iff_exists'.mp hw
    have hlt := scanner_lawful.consumes _ _ _ hs
    obtain ⟨n, hn⟩ : ∃ n, scanner.size (p.push x) = n + 1 := ⟨_, (Nat.succ_pred (by omega)).symm⟩
    rw [feed_eq, Scanner.feed] at h
    change (scanner.drain (scanner.size (p.push x)) (p.push x)).1 = [] at h
    rw [hn, Scanner.drain_of_some hs] at h
    cases h
  · intro h
    rw [feed_of_waiting h]

/-- What has begun a step with less has begun it with more. -/
theorem waiting_of_push {p : ResponseParser} {x : Bytes} (h : (p.push x).Waiting) : p.Waiting := by
  by_contra hw
  obtain ⟨⟨e, q⟩, hs⟩ := Option.ne_none_iff_exists'.mp hw
  have hs' := scanner_lawful.keeps p e q x hs
  exact absurd (hs'.symm.trans h) (by simp)

/-! ### What the phase makes of it -/

theorem bytes_append (a b : Chunk) : Chunk.bytes (a ++ b) = a.bytes ++ b.bytes := List.map_append

theorem hear_cons (p : CapabilityProbe) (chunk : Chunk) (chunks : List Chunk) :
    p.hear (chunk :: chunks) = (p.onBytes chunk.bytes).hear chunks := rfl

theorem hear_raw (chunks : List Chunk) : ∀ p : CapabilityProbe,
    (p.hear chunks).raw = p.raw ++ Chunk.bytes chunks.flatten ∧ (p.hear chunks).phase = p.phase := by
  induction chunks with
  | nil => intro p; simp [hear, Chunk.bytes]
  | cons chunk chunks ih =>
    intro p
    obtain ⟨hraw, hphase⟩ := ih (p.onBytes chunk.bytes)
    have hon : (p.onBytes chunk.bytes).raw = p.raw ++ chunk.bytes ∧
        (p.onBytes chunk.bytes).phase = p.phase := by
      unfold onBytes
      split_ifs with h
      · exact ⟨rfl, rfl⟩
      · exact ⟨rfl, rfl⟩
    rw [hear_cons, hraw, hphase, hon.1, hon.2, List.flatten_cons, bytes_append, List.append_assoc]
    exact ⟨rfl, rfl⟩

/-- However they are cut, the chunks are parsed as one. -/
theorem hear_escpos (chunks : List Chunk) : ∀ p : CapabilityProbe, p.phase = .escpos →
    p.parser.Waiting →
    (p.hear chunks).parser = (p.parser.feed (Chunk.bytes chunks.flatten)).2 ∧
      (p.hear chunks).events = p.events ++ (p.parser.feed (Chunk.bytes chunks.flatten)).1 := by
  induction chunks with
  | nil =>
    intro p hphase hw
    have hw' : (p.parser.push []).Waiting := hw.congr (List.append_nil _)
    have hfeed : p.parser.feed [] = ([], p.parser.push []) := feed_of_waiting hw'
    have hpush : p.parser.push [] = p.parser := by
      show { p.parser with buffer := p.parser.buffer ++ [] } = p.parser
      rw [List.append_nil]
    constructor
    · show p.parser = (p.parser.feed []).2
      rw [hfeed, hpush]
    · show p.events = p.events ++ (p.parser.feed []).1
      rw [hfeed, List.append_nil]
  | cons chunk chunks ih =>
    intro p hphase hw
    have hon : (p.onBytes chunk.bytes).phase = .escpos ∧
        (p.onBytes chunk.bytes).parser = (p.parser.feed chunk.bytes).2 ∧
        (p.onBytes chunk.bytes).events = p.events ++ (p.parser.feed chunk.bytes).1 := by
      unfold onBytes
      rw [if_pos hphase]
      exact ⟨hphase, rfl, rfl⟩
    obtain ⟨hphase', hparser, hevents⟩ := hon
    have hw' : (p.onBytes chunk.bytes).parser.Waiting := by
      rw [hparser]
      exact waiting_feed _ _
    obtain ⟨ih₁, ih₂⟩ := ih _ hphase' hw'
    rw [hear_cons, ih₁, ih₂, hparser, hevents, List.flatten_cons, bytes_append, feed_append,
      List.append_assoc]
    exact ⟨rfl, rfl⟩

/-- The probe when the wait of a query is over. -/
def judged (t : Transcript) (p : CapabilityProbe) (q : Query) : CapabilityProbe :=
  (((p.beginPhase q.phase).hear (t.window q).before).arm q).hear (t.window q).heard

theorem heard_bytes (t : Transcript) (q : Query) : Chunk.bytes (heard t q) =
    Chunk.bytes (t.window q).before.flatten ++ Chunk.bytes (t.window q).heard.flatten := by
  unfold heard
  rw [List.flatten_append, bytes_append]

theorem judged_raw (t : Transcript) (p : CapabilityProbe) (q : Query) :
    (judged t p q).raw = Chunk.bytes (heard t q) := by
  unfold judged
  rw [(hear_raw _ _).1, heard_bytes]
  show ((p.beginPhase q.phase).hear (t.window q).before).raw ++ _ = _
  rw [(hear_raw _ _).1]
  rfl

theorem arm_buffer (q : Query) (r : ResponseParser) : (q.arm r).buffer = r.buffer := by
  cases q <;> rfl

theorem judged_events (t : Transcript) (p : CapabilityProbe) {q : Query} (hq : q.phase = .escpos) :
    (judged t p q).events =
      (({} : ResponseParser).feed (Chunk.bytes (t.window q).before.flatten)).1 ++
        ((q.arm (({} : ResponseParser).feed (Chunk.bytes (t.window q).before.flatten)).2).feed
          (Chunk.bytes (t.window q).heard.flatten)).1 := by
  have hempty : ({} : ResponseParser).Waiting := rfl
  have hbegun : (p.beginPhase q.phase).parser.Waiting := hempty
  obtain ⟨hparser, hevents⟩ := hear_escpos (t.window q).before (p.beginPhase q.phase) hq hbegun
  have hphase : (((p.beginPhase q.phase).hear (t.window q).before).arm q).phase = .escpos := by
    show ((p.beginPhase q.phase).hear (t.window q).before).phase = .escpos
    rw [(hear_raw _ _).2]
    exact hq
  have hparser' : (((p.beginPhase q.phase).hear (t.window q).before).arm q).parser =
      q.arm (({} : ResponseParser).feed (Chunk.bytes (t.window q).before.flatten)).2 :=
    congrArg (fun r => q.arm r) hparser
  have hwaits : (((p.beginPhase q.phase).hear (t.window q).before).arm q).parser.Waiting := by
    rw [hparser']
    exact (waiting_feed _ _).congr (arm_buffer q _)
  have hlast := (hear_escpos (t.window q).heard _ hphase hwaits).2
  rw [hparser'] at hlast
  have hfirst : (((p.beginPhase q.phase).hear (t.window q).before).arm q).events =
      (({} : ResponseParser).feed (Chunk.bytes (t.window q).before.flatten)).1 := hevents
  rw [hfirst] at hlast
  exact hlast

/-- In a phase that waits for any event at all, every byte counts that is no unfinished frame. -/
theorem judged_events_eq_nil (t : Transcript) (p : CapabilityProbe) {q : Query}
    (hq : q.phase = .escpos) :
    (judged t p q).events = [] ↔ unfinished (Chunk.bytes (heard t q)) = true := by
  let b := Chunk.bytes (t.window q).before.flatten
  let h := Chunk.bytes (t.window q).heard.flatten
  have hall : unfinished (Chunk.bytes (heard t q)) = true ↔
      ((({} : ResponseParser).push b).push h).Waiting := by
    rw [heard_bytes, waiting_iff]
    rfl
  have hpush : ((({} : ResponseParser).push b).push h).Waiting ↔
      ((q.arm (({} : ResponseParser).push b)).push h).Waiting := by
    rw [waiting_iff, waiting_iff]
    show _ = true ↔ unfinished ((q.arm (({} : ResponseParser).push b)).buffer ++ h) = true
    rw [arm_buffer]
    rfl
  rw [judged_events t p hq, List.append_eq_nil_iff, hall]
  constructor
  · rintro ⟨h₁, h₂⟩
    have hb : (({} : ResponseParser).push b).Waiting := feed_eq_nil.mp h₁
    rw [feed_of_waiting hb] at h₂
    exact hpush.mpr (feed_eq_nil.mp h₂)
  · intro hw
    have hb : (({} : ResponseParser).push b).Waiting := waiting_of_push hw
    refine ⟨feed_eq_nil.mpr hb, ?_⟩
    rw [feed_of_waiting hb]
    exact feed_eq_nil.mpr (hpush.mp hw)

/-- In a phase without an expectation all that is heard is parsed as one. -/
theorem judged_events_unarmed (t : Transcript) (p : CapabilityProbe) {q : Query}
    (hq : q.phase = .escpos) (ha : ∀ r, q.arm r = r) :
    (judged t p q).events = (({} : ResponseParser).feed (Chunk.bytes (heard t q))).1 := by
  rw [judged_events t p hq, ha, heard_bytes, feed_append]

/-- **A query's check takes whatever its phase heard for the answer.** -/
theorem answered_judged (t : Transcript) (p : CapabilityProbe) (q : Query) :
    answered (judged t p q) q = accepts q (Chunk.bytes (heard t q)) := by
  have hany : ∀ {events : List ParsedEvent} {u : Bool}, (events = [] ↔ u = true) →
      decide (events ≠ []) = !u := by
    intro events u h
    cases u with
    | true => simpa using h
    | false => simpa using h
  cases q with
  | realtime kind => exact hany (judged_events_eq_nil t p rfl)
  | queued => exact hany (judged_events_eq_nil t p rfl)
  | identityByte field =>
    show (judged t p _).raw.head?.isSome = decide (_ ≠ [])
    rw [judged_raw]
    cases Chunk.bytes (heard t (.identityByte field)) with
    | nil => rfl
    | cons b rest => rfl
  | identityText field =>
    show (parseGsIString (judged t p _).raw).isSome = _
    rw [judged_raw]
    rfl
  | processId =>
    show (judged t p _).events.contains _ = _
    rw [judged_events_unarmed t p rfl fun _ => rfl]
    rfl
  | asb =>
    show (judged t p _).events.any isAsb = _
    rw [judged_events_unarmed t p rfl fun _ => rfl]
    rfl

/-! ### What the run makes of it -/

theorem ne_nil_of_parseGsIString {data text : Bytes} (h : parseGsIString data = some text) :
    text ≠ [] := by
  unfold parseGsIString at h
  dsimp only at h
  generalize List.reverse _ = trimmed at h
  split_ifs at h with hn
  obtain rfl := Option.some.inj h
  exact hn

theorem decide_some_true (a : Bool) : decide (some a = some true) = a := by
  cases a <;> rfl

theorem supported_record_self (p : CapabilityProbe) {f : CapabilityFindings F} {q : Query}
    (h : supported f q = false) : supported (record p f q) q = answered p q := by
  cases q with
  | realtime kind => cases kind <;> exact decide_some_true _
  | identityByte field => cases field <;> rfl
  | identityText field =>
    show _ = (parseGsIString p.raw).isSome
    rcases hp : parseGsIString p.raw with _ | text
    · rw [Option.isSome_none, ← h]
      cases field <;> simp [record, hp, supported]
    · have hne := ne_nil_of_parseGsIString hp
      cases field <;> simp [record, hp, supported, GsIStrings.setText, hne]
  | processId | queued | asb => exact decide_some_true _

/-- A phase writes into its own field. -/
theorem supported_record_of_ne (p : CapabilityProbe) (f : CapabilityFindings F) {q q' : Query}
    (h : q' ≠ q) : supported (record p f q) q' = supported f q' := by
  cases q with
  | realtime kind =>
    cases kind <;> rcases q' with (_ | _ | _ | _) | (_ | _ | _) | (_ | _ | _ | _) | _ | _ | _ <;>
      first | rfl | exact absurd rfl h
  | identityByte field =>
    cases field <;> rcases q' with (_ | _ | _ | _) | (_ | _ | _) | (_ | _ | _ | _) | _ | _ | _ <;>
      first | rfl | exact absurd rfl h
  | identityText field =>
    rcases hp : parseGsIString p.raw with _ | text
    · cases field <;> simp only [record, hp] <;>
        rcases q' with (_ | _ | _ | _) | (_ | _ | _) | (_ | _ | _ | _) | _ | _ | _ <;> rfl
    · cases field <;> simp only [record, hp] <;>
        rcases q' with (_ | _ | _ | _) | (_ | _ | _) | (_ | _ | _ | _) | _ | _ | _ <;>
          first | rfl | exact absurd rfl h
  | processId | queued | asb =>
    rcases q' with (_ | _ | _ | _) | (_ | _ | _) | (_ | _ | _ | _) | _ | _ | _ <;>
      first | rfl | exact absurd rfl h

/-- The writes up to and including the query. -/
def asked (t : Transcript) (q : Query) : Bool :=
  (t.reset.wrote && (Query.all.takeWhile (· ≠ q)).all fun q' => (t.window q').wrote) &&
    (t.window q).wrote

theorem ask_of_dead (o : ProbeOptions F) (t : Transcript) {r : Run F} (q : Query)
    (h : r.live = false) : ask o t r q = r := by
  unfold ask
  rw [if_pos (by simp [h])]

theorem ask_unwritten (o : ProbeOptions F) (t : Transcript) {r : Run F} {q : Query}
    (h : r.live = true) (hw : (t.window q).wrote = false) :
    (ask o t r q).live = false ∧ (ask o t r q).findings = r.findings := by
  unfold ask
  rw [if_neg (by simp [h])]
  dsimp only
  rw [if_pos (by simp [hw])]
  exact ⟨rfl, rfl⟩

theorem ask_written (o : ProbeOptions F) (t : Transcript) {r : Run F} {q : Query}
    (h : r.live = true) (hw : (t.window q).wrote = true) : (ask o t r q).live = true ∧
      (ask o t r q).findings = record (judged t r.probe q) r.findings q := by
  unfold ask
  rw [if_neg (by simp [h])]
  dsimp only
  rw [if_neg (by simp [hw])]
  exact ⟨h, rfl⟩

theorem ask_live (o : ProbeOptions F) (t : Transcript) (r : Run F) (q : Query) :
    (ask o t r q).live = (r.live && (t.window q).wrote) := by
  rcases hl : r.live with _ | _
  · rw [ask_of_dead o t q hl, hl]
    rfl
  · rcases hw : (t.window q).wrote with _ | _
    · exact (ask_unwritten o t hl hw).1
    · exact (ask_written o t hl hw).1

theorem supported_ask_of_ne (o : ProbeOptions F) (t : Transcript) (r : Run F) {q q' : Query}
    (h : q' ≠ q) : supported (ask o t r q).findings q' = supported r.findings q' := by
  rcases hl : r.live with _ | _
  · rw [ask_of_dead o t q hl]
  · rcases hw : (t.window q).wrote with _ | _
    · rw [(ask_unwritten o t hl hw).2]
    · rw [(ask_written o t hl hw).2, supported_record_of_ne _ _ h]

theorem supported_ask_self (o : ProbeOptions F) (t : Transcript) {r : Run F} {q : Query}
    (h : supported r.findings q = false) : supported (ask o t r q).findings q =
      (r.live && (t.window q).wrote && accepts q (Chunk.bytes (heard t q))) := by
  rcases hl : r.live with _ | _
  · rw [ask_of_dead o t q hl, h]
    rfl
  · rcases hw : (t.window q).wrote with _ | _
    · rw [(ask_unwritten o t hl hw).2, h]
      rfl
    · rw [(ask_written o t hl hw).2, supported_record_self _ h, answered_judged]
      rfl

theorem foldl_live (o : ProbeOptions F) (t : Transcript) (qs : List Query) : ∀ r : Run F,
    (qs.foldl (ask o t) r).live = (r.live && qs.all fun q => (t.window q).wrote) := by
  induction qs with
  | nil => intro r; simp
  | cons q qs ih =>
    intro r
    rw [List.foldl_cons, ih, ask_live, List.all_cons, Bool.and_assoc]

theorem foldl_supported (o : ProbeOptions F) (t : Transcript) {q : Query} (qs : List Query) :
    q ∉ qs → ∀ r : Run F,
      supported (qs.foldl (ask o t) r).findings q = supported r.findings q := by
  induction qs with
  | nil => intro _ r; rfl
  | cons q' qs ih =>
    intro hq r
    rw [List.mem_cons, not_or] at hq
    rw [List.foldl_cons, ih hq.2, supported_ask_of_ne o t r hq.1]

/-- A query stands once in the list. -/
theorem all_eq (q : Query) : ∃ post, Query.all = Query.all.takeWhile (· ≠ q) ++ q :: post ∧
    q ∉ Query.all.takeWhile (· ≠ q) ∧ q ∉ post := by
  refine ⟨(Query.all.dropWhile (· ≠ q)).tail, ?_⟩
  rcases q with (_ | _ | _ | _) | (_ | _ | _) | (_ | _ | _ | _) | _ | _ | _ <;> decide

theorem supported_asked (o : ProbeOptions F) (t : Transcript) (q : Query) :
    supported (Query.all.foldl (ask o t) (begun t)).findings q =
      (asked t q && accepts q (Chunk.bytes (heard t q))) := by
  obtain ⟨post, hall, hpre, hpost⟩ := all_eq q
  have hbegun : supported (begun t : Run F).findings q = false := by
    rcases q with (_ | _ | _ | _) | (_ | _ | _) | (_ | _ | _ | _) | _ | _ | _ <;> rfl
  rw [hall, List.foldl_append, List.foldl_cons, foldl_supported o t post hpost,
    supported_ask_self o t (by rw [foldl_supported o t _ hpre, hbegun]), foldl_live]
  rfl

theorem supported_askCustom (t : Transcript) (r : Run F) (step : ProbeStep F × ℕ) (q : Query) :
    supported (askCustom t r step).findings q = supported r.findings q := by
  unfold askCustom
  dsimp only
  split_ifs
  · rfl
  · rfl
  all_goals
    rcases q with (_ | _ | _ | _) | (_ | _ | _) | (_ | _ | _ | _) | _ | _ | _ <;> rfl

/-- **A finding is what its phase heard.** The registered steps leave it alone. -/
theorem supported_run (o : ProbeOptions F) (t : Transcript) (q : Query) :
    supported (run o t) q = (asked t q && accepts q (Chunk.bytes (heard t q))) := by
  have hcustom : ∀ (steps : List (ProbeStep F × ℕ)) (r : Run F),
      supported (steps.foldl (askCustom t) r).findings q = supported r.findings q := by
    intro steps
    induction steps with
    | nil => intro r; rfl
    | cons step steps ih =>
      intro r
      rw [List.foldl_cons, ih, supported_askCustom]
  rw [← supported_asked o t q, ← hcustom o.customSteps.zipIdx]
  unfold run
  dsimp only
  split_ifs
  · rcases q with (_ | _ | _ | _) | (_ | _ | _) | (_ | _ | _ | _) | _ | _ | _ <;> rfl
  · rfl

/-! ### Fences -/

theorem record_completion (p : CapabilityProbe) (f : CapabilityFindings F) (q : Query) :
    (record p f q).completion = f.completion := by
  cases q with
  | realtime kind => cases kind <;> rfl
  | identityText field =>
    unfold record
    dsimp only
    split_ifs <;> rfl
  | identityByte field | processId | queued | asb => rfl

theorem ask_completion (o : ProbeOptions F) (t : Transcript) (r : Run F) (q : Query) :
    (ask o t r q).findings.completion = r.findings.completion := by
  rcases hl : r.live with _ | _
  · rw [ask_of_dead o t q hl]
  · rcases hw : (t.window q).wrote with _ | _
    · rw [(ask_unwritten o t hl hw).2]
    · rw [(ask_written o t hl hw).2, record_completion]

theorem askCustom_completion (t : Transcript) (r : Run F) (step : ProbeStep F × ℕ) :
    (askCustom t r step).findings.completion = r.findings.completion := by
  unfold askCustom
  dsimp only
  split_ifs <;> rfl

/-- A run that was cut short leaves the fence to be read off the findings, as they are. -/
theorem run_completion (o : ProbeOptions F) (t : Transcript) :
    (run o t).completion = none ∨ (run o t).completion = completionFrom (run o t) := by
  have hcustom : ∀ (steps : List (ProbeStep F × ℕ)) (r : Run F),
      (steps.foldl (askCustom t) r).findings.completion = r.findings.completion := by
    intro steps
    induction steps with
    | nil => intro r; rfl
    | cons step steps ih =>
      intro r
      rw [List.foldl_cons, ih, askCustom_completion]
  have hasked : ∀ (qs : List Query) (r : Run F),
      (qs.foldl (ask o t) r).findings.completion = r.findings.completion := by
    intro qs
    induction qs with
    | nil => intro r; rfl
    | cons q qs ih =>
      intro r
      rw [List.foldl_cons, ih, ask_completion]
  unfold run
  dsimp only
  split_ifs
  · right
    rfl
  · left
    rw [hcustom, hasked]
    rfl

/-- A fence that a profile is given is one that answered, or none. -/
theorem fence_supported {f : CapabilityFindings F} {defaults : CapabilityProfile}
    (hc : f.completion = none ∨ f.completion = completionFrom f)
    (hne : (promote defaults f).completion ≠ defaults.completion) :
    ((promote defaults f).completion = .gsParenH → supported f .processId = true) ∧
      ((promote defaults f).completion = .gsR1 → supported f .queued = true) := by
  unfold promote at hne ⊢
  split_ifs at hne ⊢ with he
  · exact absurd rfl hne
  · have hchosen : f.completion.or (completionFrom f) = completionFrom f := by
      rcases hc with hc | hc
      · rw [hc]
        rfl
      · rw [hc, Option.or_self]
    dsimp only at hne ⊢
    rw [hchosen] at hne ⊢
    unfold completionFrom at hne ⊢
    split_ifs at hne ⊢ with h1 h2 h3 <;> try rw [Option.getD_some]
    · constructor
      · intro _
        exact decide_eq_true h1
      · intro h
        exact absurd h (by decide)
    · constructor
      · intro h
        exact absurd h (by decide)
      · intro _
        exact decide_eq_true h2
    · constructor
      · intro h
        exact absurd h (by decide)
      · intro h
        exact absurd h (by decide)
    · exact absurd rfl hne

/-! ### Attribution -/

/-- The query was answered in its phase: a byte of an answer to it came before the wait was over. -/
def Answered (t : Transcript) (q : Query) : Prop := ∃ b ∈ heard t q, b.1 = q

/-- What is found to be supported was answered, and so is the fence that a profile is given. -/
structure Attributed (o : ProbeOptions F) (t : Transcript) : Prop where
  findings : ∀ q, supported (run o t) q = true → Answered t q
  fence : ∀ defaults : CapabilityProfile,
    (promote defaults (run o t)).completion ≠ defaults.completion →
      ((promote defaults (run o t)).completion = .gsParenH → Answered t .processId) ∧
        ((promote defaults (run o t)).completion = .gsR1 → Answered t .queued)

/-- Where a query is not answered in its phase, what comes there in its place, the answer to another,
is nothing that its check accepts. -/
def Punctual (t : Transcript) : Prop :=
  ∀ q, asked t q = true → ¬Answered t q → accepts q (Chunk.bytes (heard t q)) = false

/-- **When the findings are attributed**: exactly when no answer is late for its own phase and in time
for the check of another. -/
theorem attributed_iff (o : ProbeOptions F) (t : Transcript) : Attributed o t ↔ Punctual t := by
  constructor
  · intro h q hasked hq
    by_contra ha
    refine hq (h.findings q ?_)
    rw [supported_run, hasked, Bool.true_and]
    exact Bool.not_eq_false _ ▸ ha
  · intro h
    have hfindings : ∀ q, supported (run o t) q = true → Answered t q := by
      intro q hq
      rw [supported_run, Bool.and_eq_true] at hq
      by_contra hn
      rw [h q hq.1 hn] at hq
      exact Bool.false_ne_true hq.2
    refine ⟨hfindings, fun defaults hne => ?_⟩
    obtain ⟨hgsH, hgsR⟩ := fence_supported (run_completion o t) hne
    exact ⟨fun hc => hfindings _ (hgsH hc), fun hc => hfindings _ (hgsR hc)⟩

/-! ### Devices -/

/-- The place of a query in the order they are asked. -/
def ordinal (q : Query) : ℕ := (Query.all.takeWhile (· ≠ q)).length

/-- The bytes of a whole answer, where the query says how long it is. -/
def isAnswer : Query → Bytes → Bool
  | .realtime _, bytes => bytes.length = 1 && bytes.all looksLikeRealtimeByte
  | .identityByte _, bytes | .queued, bytes => bytes.length = 1
  | .processId, bytes => bytes = [0x37, 0x22] ++ kProbeToken ++ [0x00]
  | .identityText _, _ | .asb, _ => true

def windowChunk (w : Window) : Chunk := (w.before ++ w.heard ++ w.after).flatten

/-- All that the device sends to the queries, in its order. -/
def stream (t : Transcript) : Chunk := Query.all.flatMap fun q => windowChunk (t.window q)

/-- A device that answers each query at most once, in order and not before it is asked, and sends
nothing else. -/
structure Orderly (t : Transcript) : Prop where
  quiet : windowChunk t.reset = []
  causal : ∀ q ∈ Query.all, (∀ b ∈ windowChunk (t.window q), ordinal b.1 ≤ ordinal q) ∧
    ∀ b ∈ (t.window q).before.flatten, ordinal b.1 < ordinal q
  ordered : (stream t).Pairwise fun a b => ordinal a.1 ≤ ordinal b.1
  once : ∀ q ∈ Query.all, (stream t).filter (·.1 = q) = [] ∨
    isAnswer q (Chunk.bytes ((stream t).filter (·.1 = q))) = true

/-- The device echoes the token of `GS ( H` while `GS r 1` is waited for, which it never answers. -/
def lateEcho : Transcript where
  window
    | .queued => { heard := [([0x37, 0x22] ++ kProbeToken ++ [0x00]).map fun b => (.processId, b)] }
    | _ => {}

/-- **A late echo makes a fence that the device has not got.** -/
theorem lateEcho_fence : Orderly lateEcho ∧ ¬Attributed ({} : ProbeOptions Unit) lateEcho ∧
    (promote { completion := .gsParenH } (run ({} : ProbeOptions Unit) lateEcho)).completion =
      .gsR1 := by
  have hrun : (promote { completion := .gsParenH }
      (run ({} : ProbeOptions Unit) lateEcho)).completion = .gsR1 := by
    decide +kernel
  refine ⟨⟨rfl, by decide +kernel, by decide +kernel, by decide +kernel⟩, fun h => ?_, hrun⟩
  have ha := (h.fence { completion := .gsParenH } (by rw [hrun]; decide)).2 hrun
  revert ha
  unfold Answered
  decide +kernel

end PrinterDriver.Core.ProbeRuns
