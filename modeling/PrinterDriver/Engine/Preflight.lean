import PrinterDriver.Engine.Accounting
import PrinterDriver.Engine.Stages

/-! # What a preflight makes of the answers

A strict preflight asks the four `DLE EOT` questions and waits for four answers. Whatever arrives
meanwhile, in whatever chunks, the answers it is given are the answers to its own questions, in
their order (`attributed_answers`). `heeds_iff` says of every run of the job when the preflight
heeds them: a reported fault ends the job before a byte of it is written, and only a reported fault
does. It does so unless the link goes down before the fourth answer, or the paper sensor takes back
what the offline cause reported: the two share a flag, and the later answer overwrites it. -/

namespace PrinterDriver.Engine.Preflight

open PrinterDriver.Lib.Programs PrinterDriver.Core.Types PrinterDriver.Core.Profile
  PrinterDriver.Core.EscposParser PrinterDriver.Core PrinterDriver.Core.Encoder
  PrinterDriver.Engine.Io PrinterDriver.Engine.Ops PrinterDriver.Engine.RunJob
  PrinterDriver.Engine.QuietCalls PrinterDriver.Engine.Stages PrinterDriver.Engine.Accounting

open Prog JobRun ResponseParser

/-! ### What arrives -/

/-- What the other threads do to the io state while the worker goes on. -/
inductive Arrival where
  | bytes (data : Bytes)
  | disconnected
  | stopping
  deriving DecidableEq, Repr

def Arrival.apply (nonce : Bytes) (s : IoState) : Arrival → IoState
  | .bytes data => (s.onBytes nonce data).2
  | .disconnected => s.onDisconnected
  | .stopping => { s with stopping := true }

def arrive (nonce : Bytes) (s : IoState) (arrivals : List Arrival) : IoState :=
  arrivals.foldl (Arrival.apply nonce) s

/-- A job's start on the wire: what it finds, and what arrives after each critical section of it
until its preflight has waited. -/
structure Exchange where
  nonce : Bytes
  before : IoState
  begun : List Arrival
  bound : List Arrival
  asked : List Arrival

namespace Exchange

variable (x : Exchange) (j : JobRun)

def atWait : IoState :=
  arrive x.nonce ((arrive x.nonce ((arrive x.nonce x.before.beginJobIo x.begun).setCustomMethod
    j.custom) x.bound).expectRealtime kPreflightKinds) x.asked

/-- What the wait returns. -/
def waited : WaitOutcome × List ParsedEvent := (x.atWait j).awaitRealtime 4

def answers : List ParsedEvent := (x.waited j).2

/-- The link stays up. -/
def Up : Prop := .disconnected ∉ x.begun ++ x.bound ++ x.asked

instance : Decidable x.Up := inferInstanceAs (Decidable (¬ _))

end Exchange

/-- The answers with these bytes, attributed to the questions in their order. -/
def attributed (values : List UInt8) : List ParsedEvent :=
  List.zipWith .realtimeStatus kPreflightKinds values

/-- Between `beginJobIo` and the questions no answer is expected, and there is none. -/
structure Unasked (s : IoState) : Prop where
  escpos : s.starMode = false
  unanswered : s.realtimeAnswers = []
  unexpected : s.parser.realtime = []

/-- The answers filed and the kinds still expected are the questions. -/
structure Asked (s : IoState) : Prop where
  escpos : s.starMode = false
  answers : ∀ e ∈ s.realtimeAnswers, e.isRealtime = true
  kinds : answeredKinds s.realtimeAnswers ++ s.parser.realtime = kPreflightKinds

theorem unasked_arrive {nonce : Bytes} {s : IoState} (h : Unasked s) (a : Arrival) :
    Unasked (a.apply nonce s) := by
  cases a with
  | disconnected => exact ⟨h.escpos, h.unanswered, h.unexpected⟩
  | stopping => exact ⟨h.escpos, h.unanswered, h.unexpected⟩
  | bytes data =>
    obtain ⟨rx, custom, hs⟩ := s.onBytes_filed nonce data h.escpos
    have hp := ResponseParser.feed_unexpected data h.unexpected
    show Unasked (s.onBytes nonce data).2
    rw [hs]
    exact ⟨h.escpos, by simp [h.unanswered, hp.1], hp.2⟩

theorem answeredKinds_append (es es' : List ParsedEvent) :
    answeredKinds (es ++ es') = answeredKinds es ++ answeredKinds es' := List.filterMap_append

theorem answeredKinds_filter (es : List ParsedEvent) :
    answeredKinds (es.filter ParsedEvent.isRealtime) = answeredKinds es := by
  unfold answeredKinds
  rw [List.filterMap_filter]
  congr 1
  funext e
  cases e <;> rfl

theorem asked_arrive {nonce : Bytes} {s : IoState} (h : Asked s) (a : Arrival) :
    Asked (a.apply nonce s) := by
  cases a with
  | disconnected => exact ⟨h.escpos, h.answers, h.kinds⟩
  | stopping => exact ⟨h.escpos, h.answers, h.kinds⟩
  | bytes data =>
    obtain ⟨rx, custom, hs⟩ := s.onBytes_filed nonce data h.escpos
    have hp := ResponseParser.feed_kinds s.parser data
    show Asked (s.onBytes nonce data).2
    rw [hs]
    refine ⟨h.escpos, fun e he => ?_, ?_⟩
    · rcases List.mem_append.mp he with he | he
      · exact h.answers e he
      · exact (List.mem_filter.mp he).2
    · show answeredKinds (_ ++ _) ++ _ = _
      rw [answeredKinds_append, answeredKinds_filter, List.append_assoc, ← hp]
      exact h.kinds

/-- What every arrival keeps, the arrivals keep. -/
theorem arrive_keeps {nonce : Bytes} {P : IoState → Prop}
    (hP : ∀ s a, P s → P (Arrival.apply nonce s a)) :
    ∀ (arrivals : List Arrival) {s : IoState}, P s → P (arrive nonce s arrivals)
  | [], _, h => h
  | a :: arrivals, s, h => arrive_keeps hP arrivals (hP s a h)

theorem asked_atWait (x : Exchange) (j : JobRun) : Asked (x.atWait j) := by
  have hbegun : Unasked (arrive x.nonce x.before.beginJobIo x.begun) :=
    arrive_keeps (P := Unasked) (fun _ a h => unasked_arrive h a) x.begun ⟨rfl, rfl, rfl⟩
  have hbound := @arrive_keeps x.nonce Unasked (fun _ a h => unasked_arrive h a) x.bound _
    (show Unasked (IoState.setCustomMethod _ j.custom) from
      ⟨hbegun.escpos, hbegun.unanswered, hbegun.unexpected⟩)
  refine arrive_keeps (P := Asked) (fun _ a h => asked_arrive h a) x.asked ⟨hbound.escpos, ?_, ?_⟩
  · intro e he
    rw [show (IoState.expectRealtime _ kPreflightKinds).realtimeAnswers = [] from
      hbound.unanswered] at he
    cases he
  · generalize arrive x.nonce (IoState.setCustomMethod _ _) _ = s at hbound ⊢
    show answeredKinds s.realtimeAnswers ++ _ = _
    rw [hbound.unanswered]
    simp [IoState.expectRealtime, kPreflightKinds, ResponseParser.expectRealtime,
      hbound.unexpected, answeredKinds]

/-- Events that are all answers are their kinds and their bytes. -/
theorem eq_zipWith : ∀ {es : List ParsedEvent} {kinds rest : List DleEotKind},
    (∀ e ∈ es, e.isRealtime = true) → answeredKinds es ++ rest = kinds →
      ∃ values, values.length = es.length ∧ es = List.zipWith .realtimeStatus kinds values
  | [], _, _, _, _ => ⟨[], rfl, by simp⟩
  | e :: es, kinds, rest, h, hk => by
    cases e with
    | realtimeStatus kind value =>
      have hk' : kind :: (answeredKinds es ++ rest) = kinds := hk
      obtain ⟨values, hlen, hes⟩ := eq_zipWith (fun e he => h e (List.mem_cons_of_mem _ he)) rfl
      refine ⟨value :: values, by simp [hlen], ?_⟩
      rw [← hk', List.zipWith_cons_cons, ← hes]
    | _ => exact absurd (h _ List.mem_cons_self) (by simp [ParsedEvent.isRealtime])

/-- **The answers of a preflight are those to its own questions, in their order.** -/
theorem attributed_answers (x : Exchange) (j : JobRun) :
    ∃ values, x.answers j = attributed values := by
  have h := asked_atWait x j
  obtain ⟨values, _, hes⟩ := eq_zipWith h.answers h.kinds
  exact ⟨values, hes⟩

theorem onBytes_linkDown (nonce : Bytes) (s : IoState) (data : Bytes) :
    (s.onBytes nonce data).2.linkDown = s.linkDown := by
  cases hm : s.starMode with
  | false =>
    obtain ⟨rx, custom, hs⟩ := s.onBytes_filed nonce data hm
    rw [hs]
  | true =>
    obtain ⟨counter, signalled, hs⟩ := s.onBytes_star_frame nonce data hm
    rw [hs]

theorem arrive_linkDown (nonce : Bytes) (arrivals : List Arrival) (s : IoState) :
    (arrive nonce s arrivals).linkDown = true ↔ s.linkDown = true ∨ .disconnected ∈ arrivals := by
  induction arrivals generalizing s with
  | nil => simp [arrive]
  | cons a arrivals ih =>
    have h : (arrive nonce s (a :: arrivals)).linkDown =
        (arrive nonce (a.apply nonce s) arrivals).linkDown := rfl
    rw [h, ih, List.mem_cons]
    cases a with
    | bytes data => simp [Arrival.apply, onBytes_linkDown]
    | disconnected => simp [Arrival.apply, IoState.onDisconnected]
    | stopping => simp [Arrival.apply]

/-- The wait ends in a lost link when the link is down before the fourth answer. -/
theorem waited_linkDown (x : Exchange) (j : JobRun) :
    (x.waited j).1 = .linkDown ↔ (x.answers j).length < 4 ∧ ¬ x.Up := by
  have hdown : (x.atWait j).linkDown = true ↔ ¬ x.Up := by
    unfold Exchange.atWait Exchange.Up
    rw [arrive_linkDown, not_not]
    show (arrive _ _ _).linkDown = true ∨ _ ↔ _
    rw [arrive_linkDown]
    show ((arrive _ _ _).linkDown = true ∨ _) ∨ _ ↔ _
    rw [arrive_linkDown, List.mem_append, List.mem_append]
    simp [IoState.beginJobIo]
  rw [← hdown]
  show IoState.waitOutcome _ (4 ≤ (x.answers j).length : Bool) = _ ↔ _
  unfold IoState.waitOutcome
  simp only [decide_eq_true_eq]
  split_ifs with h4 hd hs
  · exact iff_of_false (fun h => nomatch h) fun h => by omega
  · exact iff_of_true rfl ⟨by omega, hd⟩
  · exact iff_of_false (fun h => nomatch h) fun h => hd h.2
  · exact iff_of_false (fun h => nomatch h) fun h => hd h.2

/-! ### What the answers report -/

/-- The reason names a fault that the flags report. -/
def Names (flags : StatusFlags) : FailureReason → Prop
  | .preflightCoverOpen => flags.coverOpen = some true
  | .preflightPaperOut => flags.paperOut = some true
  | .preflightHardwareError => flags.cutterError = some true ∨
      flags.unrecoverableError = some true ∨ flags.online = some false
  | _ => False

/-- Some answer reports the fault that the reason names. -/
def Named (answers : List ParsedEvent) (reason : FailureReason) : Prop :=
  ∃ answer ∈ answers, Names answer.flags reason

/-- Some answer reports cover open, paper out, a cutter error, an unrecoverable error or offline. -/
def Reports (answers : List ParsedEvent) : Prop := ∃ reason, Named answers reason

/-- The offline cause reports paper out, the paper sensor does not, and that is all that is
reported. -/
structure Masked (answers : List ParsedEvent) : Prop where
  reported : ∃ value, .realtimeStatus .offlineCause value ∈ answers ∧
    (decodeRealtime .offlineCause value).paperOut = some true
  overwritten : ∃ value, .realtimeStatus .paperSensor value ∈ answers ∧
    (decodeRealtime .paperSensor value).paperOut = some false
  alone : ∀ reason, Named answers reason → reason = .preflightPaperOut

/-- A field of the merged flags is that of the last answer that carries it. -/
theorem merged_field {f : StatusFlags → Option Bool} (h₀ : f {} = none)
    (hf : ∀ merged flags, f (mergeFlags merged flags) = (f flags <|> f merged))
    {answers : List ParsedEvent} {v : Bool} (h : f (mergeAnswers answers) = some v) :
    ∃ answer ∈ answers, f answer.flags = some v := by
  induction answers using List.reverseRecOn with
  | nil =>
    rw [mergeAnswers, List.foldl_nil, h₀] at h
    cases h
  | append_singleton answers answer ih =>
    rw [mergeAnswers, List.foldl_concat, hf] at h
    cases hv : f answer.flags with
    | some w =>
      rw [hv] at h
      exact ⟨answer, by simp, by rw [hv]; exact h⟩
    | none =>
      rw [hv] at h
      obtain ⟨a, ha, hav⟩ := ih h
      exact ⟨a, by simp [ha], hav⟩

/-- A refusal names a fault that was reported. -/
theorem named_of_refusal {answers : List ParsedEvent} {reason : FailureReason}
    (h : refusal (mergeAnswers answers) = some reason) : Named answers reason := by
  have hget : ∀ {o : Option Bool}, o.getD false = true → o = some true := fun {o} h => by
    rcases o with _ | _ | _ <;> simp_all
  unfold refusal at h
  split_ifs at h with hcover hpaper hhard
  · obtain rfl := Option.some.inj h
    exact merged_field (f := StatusFlags.coverOpen) rfl (fun _ _ => rfl) (hget hcover)
  · obtain rfl := Option.some.inj h
    exact merged_field (f := StatusFlags.paperOut) rfl (fun _ _ => rfl) (hget hpaper)
  · obtain rfl := Option.some.inj h
    rw [Bool.or_eq_true, Bool.or_eq_true, decide_eq_true_eq] at hhard
    rcases hhard with (hu | hc) | ho
    · obtain ⟨a, ha, hv⟩ :=
        merged_field (f := StatusFlags.unrecoverableError) rfl (fun _ _ => rfl) (hget hu)
      exact ⟨a, ha, .inr (.inl hv)⟩
    · obtain ⟨a, ha, hv⟩ :=
        merged_field (f := StatusFlags.cutterError) rfl (fun _ _ => rfl) (hget hc)
      exact ⟨a, ha, .inl hv⟩
    · obtain ⟨a, ha, hv⟩ := merged_field (f := StatusFlags.online) rfl (fun _ _ => rfl) ho
      exact ⟨a, ha, .inr (.inr hv)⟩

/-- What the answers say, bit by bit. -/
theorem merged_attributed (values : List UInt8) :
    let merged := mergeAnswers (attributed values)
    merged.online = values[0]?.map (!bit · 3) ∧ merged.coverOpen = values[1]?.map (bit · 2) ∧
      merged.paperOut = ((values[3]?.map (bit · 5)) <|> values[1]?.map (bit · 5)) ∧
      merged.cutterError = values[2]?.map (bit · 3) ∧
      merged.unrecoverableError = values[2]?.map (bit · 5) := by
  rcases values with _ | ⟨a, _ | ⟨b, _ | ⟨c, _ | ⟨d, values⟩⟩⟩⟩ <;> exact ⟨rfl, rfl, rfl, rfl, rfl⟩

theorem mem_attributed {values : List UInt8} {e : ParsedEvent} : e ∈ attributed values ↔
    (∃ v, values[0]? = some v ∧ e = .realtimeStatus .printerStatus v) ∨
      (∃ v, values[1]? = some v ∧ e = .realtimeStatus .offlineCause v) ∨
      (∃ v, values[2]? = some v ∧ e = .realtimeStatus .errorCause v) ∨
      ∃ v, values[3]? = some v ∧ e = .realtimeStatus .paperSensor v := by
  rcases values with _ | ⟨a, _ | ⟨b, _ | ⟨c, _ | ⟨d, values⟩⟩⟩⟩ <;>
    simp [attributed, kPreflightKinds]

theorem merged_paperOut {values : List UInt8} {d : UInt8} (h : values[3]? = some d) :
    (mergeAnswers (attributed values)).paperOut = some (bit d 5) := by
  rw [(merged_attributed values).2.2.1, h]
  rfl

/-- A reported fault that no later answer overwrites is a refusal. -/
theorem refusal_isSome {values : List UInt8} {reason : FailureReason}
    (h : Named (attributed values) reason)
    (hpaper : reason = .preflightPaperOut →
      (mergeAnswers (attributed values)).paperOut = some true) :
    refusal (mergeAnswers (attributed values)) ≠ none := by
  obtain ⟨honline, hcover, -, hcutter, hhard⟩ := merged_attributed values
  obtain ⟨answer, hmem, hnames⟩ := h
  intro hnone
  unfold refusal at hnone
  split_ifs at hnone with h1 h2 h3
  rw [Bool.or_eq_true, Bool.or_eq_true, decide_eq_true_eq, not_or, not_or] at h3
  rcases mem_attributed.mp hmem with ⟨v, hv, rfl⟩ | ⟨v, hv, rfl⟩ | ⟨v, hv, rfl⟩ | ⟨v, hv, rfl⟩
  · cases reason <;> simp_all [Names, ParsedEvent.flags, decodeRealtime]
  · cases reason <;> simp_all [Names, ParsedEvent.flags, decodeRealtime]
  · cases reason <;> simp_all [Names, ParsedEvent.flags, decodeRealtime]
  · cases reason <;> simp_all [Names, ParsedEvent.flags, decodeRealtime]

/-- Merging loses a fault when it is masked. -/
theorem refusal_eq_none {values : List UInt8} :
    refusal (mergeAnswers (attributed values)) = none ↔
      ¬ Reports (attributed values) ∨ Masked (attributed values) := by
  constructor
  · intro h
    by_cases hr : Reports (attributed values)
    · right
      have halone : ∀ reason, Named (attributed values) reason → reason = .preflightPaperOut := by
        intro reason hn
        by_contra hne
        exact refusal_isSome hn (fun he => absurd he hne) h
      have hpaper : (mergeAnswers (attributed values)).paperOut ≠ some true := by
        intro hp
        obtain ⟨reason, hn⟩ := hr
        exact refusal_isSome hn (fun _ => hp) h
      obtain ⟨reason, hn⟩ := hr
      obtain rfl := halone reason hn
      obtain ⟨answer, hmem, hout⟩ := hn
      rw [(merged_attributed values).2.2.1] at hpaper
      rcases mem_attributed.mp hmem with ⟨v, hv, rfl⟩ | ⟨v, hv, rfl⟩ | ⟨v, hv, rfl⟩ | ⟨v, hv, rfl⟩
      · cases hout
      · have hv5 : bit v 5 = true := Option.some.inj hout
        rw [hv] at hpaper
        cases hd : values[3]? with
        | none => simp [hd, hv5] at hpaper
        | some d =>
          have hd5 : bit d 5 = false := by simpa [hd] using hpaper
          refine ⟨⟨v, hmem, hout⟩, ⟨d, mem_attributed.mpr ?_, congrArg some hd5⟩, halone⟩
          exact .inr (.inr (.inr ⟨d, hd, rfl⟩))
      · cases hout
      · have hv5 : bit v 5 = true := Option.some.inj hout
        simp [hv, hv5] at hpaper
    · exact .inl hr
  · intro h
    by_contra hsome
    obtain ⟨reason, hreason⟩ := Option.ne_none_iff_exists'.mp hsome
    have hn := named_of_refusal hreason
    rcases h with h | h
    · exact h ⟨reason, hn⟩
    · obtain rfl := h.alone reason hn
      obtain ⟨d, hmem, hd⟩ := h.overwritten
      have hd3 : values[3]? = some d := by
        rcases mem_attributed.mp hmem with ⟨v, hv, he⟩ | ⟨v, hv, he⟩ | ⟨v, hv, he⟩ | ⟨v, hv, he⟩
        · cases he
        · cases he
        · cases he
        · cases he
          exact hv
      have hmerged := merged_paperOut hd3
      have hd5 : bit d 5 = false := Option.some.inj hd
      rw [hd5] at hmerged
      unfold refusal at hreason
      rw [hmerged] at hreason
      split_ifs at hreason <;> simp_all

/-! ### What a run of the job shows -/

/-- What the preflight's wait returned, the bytes handed to the transport besides its questions, and
the states recorded, each with its reason. -/
structure Watch where
  answered : Option (WaitOutcome × List ParsedEvent) := none
  printed : Bytes := []
  records : List (JobState × FailureReason) := []

def Watch.post (w : Watch) : Entry → Watch
  | ⟨.awaitRealtime .preflight _, answer⟩ => { w with answered := some answer }
  | ⟨.write part data, _⟩ =>
    if part = .preflight then w else { w with printed := w.printed ++ data }
  | ⟨.recordState _ state _ reason _, _⟩ => { w with records := w.records ++ [(state, reason)] }
  | _ => w

/-- The watch of a run. -/
def watched (t : List Entry) : Watch := t.foldl Watch.post {}

/-- What a preflight owes to its answers: after a reported fault nothing is printed and the job ends
as `FailedKnown` with a reason that names a fault; without one, and with the link up, it is not
refused. `closed` says that the job has ended. -/
structure Heeds (answers : List ParsedEvent) (up closed : Prop) (w : Watch) : Prop where
  unprinted : Reports answers → w.printed = []
  failed : Reports answers → ∀ r ∈ w.records, r.1 = .failedKnown ∧ Named answers r.2
  ended : Reports answers → closed → w.records ≠ []
  unrefused : ¬ Reports answers → up → ∀ r ∈ w.records, isRefusal r.2 = false
  started : ¬ Reports answers → up → closed → ∃ reason, (.sendStarted, reason) ∈ w.records

theorem Heeds.mono {answers : List ParsedEvent} {up up' closed closed' : Prop} {w : Watch}
    (h : Heeds answers up closed w) (hup : up' → up) (hclosed : closed' → closed) :
    Heeds answers up' closed' w where
  unprinted := h.unprinted
  failed := h.failed
  ended hr ho := h.ended hr (hclosed ho)
  unrefused hr hu := h.unrefused hr (hup hu)
  started hr hu ho := h.started hr (hup hu) (hclosed ho)

/-- The answers that a preflight heeds. -/
def Heedable (outcome : WaitOutcome) (answers : List ParsedEvent) : Prop :=
  Reports answers → outcome ≠ .linkDown ∧ ¬ Masked answers

/-- What holds of the watch: what is owed to the answers, if they can be heeded. -/
def Fair (ended : Prop) (w : Watch) : Prop :=
  ∀ outcome values, w.answered = some (outcome, attributed values) →
    Heedable outcome (attributed values) →
      Heeds (attributed values) (outcome ≠ .linkDown) ended w

abbrev watching : World Worker Watch := observe Watch.post fun _ w => Fair False w

/-- The preflight is passed: no fault was reported, and no record is a refusal. -/
structure Passed (w : Watch) : Prop where
  sound : ∀ outcome values, w.answered = some (outcome, attributed values) →
    Heedable outcome (attributed values) → ¬ Reports (attributed values)
  unrefused : ∀ r ∈ w.records, isRefusal r.2 = false

theorem Passed.fair {ended : Prop} {w : Watch} (h : Passed w)
    (hs : ended → ∃ reason, (.sendStarted, reason) ∈ w.records) : Fair ended w := by
  intro outcome values ha hheed
  have hsound := h.sound outcome values ha hheed
  exact {
    unprinted := fun hr => absurd hr hsound
    failed := fun hr => absurd hr hsound
    ended := fun hr => absurd hr hsound
    unrefused := fun _ _ => h.unrefused
    started := fun _ _ he => hs he }

/-- Before the wait nothing is owed. -/
theorem fair_unanswered {ended : Prop} {w : Watch} (h : w.answered = none) : Fair ended w := by
  intro outcome values ha
  rw [h] at ha
  cases ha

/-! ### The stages behind the preflight -/

/-- The calls that neither wait for the preflight's answers nor record a refusal. -/
def Unrefusing : Call → Prop
  | .awaitRealtime part _ => part ≠ .preflight
  | .recordState _ _ _ reason _ => isRefusal reason = false
  | _ => True

theorem Passed.post {w : Watch} {call : Call} (h : Passed w) (hc : Unrefusing call)
    (a : call.Answer) : Passed (w.post ⟨call, a⟩) ∧ w.records ⊆ (w.post ⟨call, a⟩).records := by
  cases call with
  | awaitRealtime part count =>
    cases part with
    | preflight => exact absurd rfl hc
    | _ => exact ⟨h, List.Subset.refl _⟩
  | write part data =>
    show Passed (if part = .preflight then w else _) ∧
      _ ⊆ (if part = .preflight then w else _).records
    split_ifs
    · exact ⟨h, List.Subset.refl _⟩
    · exact ⟨⟨h.sound, h.unrefused⟩, List.Subset.refl _⟩
  | recordState id state confidence reason evidence =>
    refine ⟨⟨h.sound, fun r hr => ?_⟩, List.subset_append_left _ _⟩
    rcases List.mem_append.mp hr with hr | hr
    · exact h.unrefused r hr
    · obtain rfl := List.mem_singleton.mp hr
      exact hc
  | _ => exact ⟨h, List.Subset.refl _⟩

section Stages
variable {α : Type} {j : JobRun} {c : ConfidenceLevel}

theorem safe_unrefusing {Q : α → Watch → Prop} : ∀ {p : Prog Worker α} {w : Watch},
    p.Only Unrefusing → Passed w →
      (∀ a w', Passed w' → w.records ⊆ w'.records → Q a w') →
      Safe watching Q p w
  | .ret a, w, _, h, hQ => safe_observe_ret.mpr (hQ a w h (List.Subset.refl _))
  | .call d k, w, hp, h, hQ => by
    refine safe_observe_call.mpr ⟨h.fair fun hf => hf.elim, fun a => ?_⟩
    obtain ⟨h', hsub⟩ := h.post hp.1 a
    exact safe_unrefusing (hp.2 a) h' fun a w' hw' hsub' =>
      hQ a w' hw' (List.Subset.trans hsub hsub')

theorem unrefusing_later (call : Call) (h : Later True call) : Unrefusing call := by
  cases call <;> first | exact h | trivial

theorem unrefusing_lease (call : Call) (h : Local call ∧ Unrecorded call) : Unrefusing call := by
  cases call <;> first | trivial | exact h.1.elim | exact h.2.elim

/-- What is printed behind a passed preflight begins with `SendStarted`. -/
theorem safe_printStages {lease : Option MarkerPair} {w : Watch} (h : Passed w) :
    Safe watching (fun _ w => Passed w ∧ ∃ reason, (.sendStarted, reason) ∈ w.records)
      (j.printStages lease c) w := by
  have honly : (j.printStages lease c).Only (Later True) :=
    printStages_later (.inl trivial) (.inl trivial)
  unfold JobRun.printStages at honly ⊢
  dsimp only at honly ⊢
  cases hb : j.buildPayload ((lease.map MarkerPair.printToken).getD []) with
  | none =>
    exact safe_observe_call.mpr ⟨h.fair fun hf => hf.elim, fun e => Empty.elim e⟩
  | some wire =>
    rw [hb] at honly
    refine safe_observe_call.mpr ⟨h.fair fun hf => hf.elim, fun a => ?_⟩
    obtain ⟨h', _⟩ := @Passed.post w (.recordState j.id .sendStarted (j.reached c) .none {}) h rfl a
    refine safe_unrefusing ((honly.2 a).mono unrefusing_later) h' fun _ w' hw' hsub => ⟨hw', ?_⟩
    exact ⟨.none, hsub (List.mem_append_right _ (List.mem_singleton.mpr rfl))⟩

theorem safe_leased {w : Watch} (h : Passed w) :
    Safe watching (fun _ => Fair True) (j.leased c) w := by
  have hlease := (@leaseTokens_only j).mono unrefusing_lease
  refine Safe.bind (safe_unrefusing hlease h fun lease w' h' _ => ?_)
  refine Safe.bind ((safe_printStages h').mono fun _ w'' h'' => ?_)
  obtain ⟨hw, reason, hstarted⟩ := h''
  refine Safe.bind (safe_unrefusing (releaseTokens_only.mono unrefusing_lease) hw
    fun _ v hv hsub => safe_observe_ret.mpr ?_)
  exact hv.fair fun _ => ⟨reason, hsub hstarted⟩

/-- A program that the watch does not look at. -/
theorem safe_unwatched {Q : α → Watch → Prop} {w : Watch} (hw : Fair False w) :
    ∀ {p : Prog Worker α}, p.Only (fun call => ∀ a, w.post ⟨call, a⟩ = w) → (∀ a, Q a w) →
      Safe watching Q p w
  | .ret a, _, hQ => safe_observe_ret.mpr (hQ a)
  | .call d k, hp, hQ => by
    refine safe_observe_call.mpr ⟨hw, fun a => ?_⟩
    rw [hp.1 a]
    exact safe_unwatched hw (hp.2 a) hQ

/-- The job goes on behind a passed preflight, or it has ended. -/
def Onwards : Option ConfidenceLevel → Watch → Prop
  | some _, w => Passed w
  | none, w => Fair True w

/-- The job has ended when it has failed. -/
theorem safe_failKnown {Q : Option ConfidenceLevel → Watch → Prop}
    (hQ : ∀ w, Fair True w → Q none w) {reason : FailureReason} {evidence : JobEvidence}
    {w : Watch} (hw : Fair False w)
    (h : ∀ closed, Fair closed { w with records := w.records ++ [(.failedKnown, reason)] }) :
    Safe watching Q (j.failKnown reason c evidence) w :=
  safe_observe_call.mpr ⟨hw, fun _ => safe_observe_call.mpr ⟨h False, fun _ =>
    safe_observe_call.mpr ⟨h False, fun _ => safe_observe_ret.mpr (hQ _ (h True))⟩⟩⟩

/-- The watch when the wait has returned. -/
def answered (outcome : WaitOutcome) (answers : List ParsedEvent) : Watch :=
  { answered := some (outcome, answers) }

theorem fair_answered (outcome : WaitOutcome) (answers : List ParsedEvent) :
    Fair False (answered outcome answers) := by
  intro o values _ _
  exact {
    unprinted := fun _ => rfl
    failed := fun _ r hr => by cases hr
    ended := fun _ hf => hf.elim
    unrefused := fun _ _ r hr => by cases hr
    started := fun _ _ hf => hf.elim }

/-- A job that a lost link ends owes nothing to answers that can be heeded. -/
theorem fair_linkDown (answers : List ParsedEvent) (closed : Prop) (reason : FailureReason) :
    Fair closed { answered .linkDown answers with records := [(.failedKnown, reason)] } := by
  intro o values ha hheed
  obtain ⟨rfl, rfl⟩ := Prod.mk.inj (Option.some.inj ha)
  have hno : ¬ Reports (attributed values) := fun hr => (hheed hr).1 rfl
  exact {
    unprinted := fun hr => absurd hr hno
    failed := fun hr => absurd hr hno
    ended := fun hr => absurd hr hno
    unrefused := fun _ hup => absurd rfl hup
    started := fun _ hup => absurd rfl hup }

/-- A refusal heeds the answers. -/
theorem fair_refusal {outcome : WaitOutcome} {answers : List ParsedEvent} {reason : FailureReason}
    (h : refusal (mergeAnswers answers) = some reason) (closed : Prop) :
    Fair closed { answered outcome answers with records := [(.failedKnown, reason)] } := by
  intro o values ha _
  obtain ⟨rfl, rfl⟩ := Prod.mk.inj (Option.some.inj ha)
  have hn := named_of_refusal h
  have hyes : Reports (attributed values) := ⟨reason, hn⟩
  exact {
    unprinted := fun _ => rfl
    failed := fun _ r hr => by
      obtain rfl := List.mem_singleton.mp hr
      exact ⟨rfl, hn⟩
    ended := fun _ _ => List.cons_ne_nil _ _
    unrefused := fun hno => absurd hyes hno
    started := fun hno => absurd hyes hno }

/-- Answers that are no refusal let the job pass. -/
theorem passed_answered {outcome : WaitOutcome} {answers : List ParsedEvent}
    (h : refusal (mergeAnswers answers) = none) {records : List (JobState × FailureReason)}
    (hr : ∀ r ∈ records, isRefusal r.2 = false) :
    Passed { answered outcome answers with records := records } := by
  refine ⟨fun o values ha hheed hrep => ?_, hr⟩
  obtain ⟨rfl, rfl⟩ := Prod.mk.inj (Option.some.inj ha)
  rcases refusal_eq_none.mp h with hno | hmasked
  · exact hno hrep
  · exact (hheed hrep).2 hmasked

theorem safe_preflight : Safe watching Onwards (j.preflight c) {} := by
  have hfair : ∀ closed, Fair closed {} := fun _ => fair_unanswered rfl
  unfold JobRun.preflight
  split
  · refine safe_observe_call.mpr ⟨hfair False, fun _ => ?_⟩
    change Safe watching Onwards (sendPaced _ _ _ >>= fun sent => _) {}
    refine Safe.bind (safe_unwatched (hfair False) (sendPaced_only fun _ _ => rfl) fun sent => ?_)
    split
    · exact safe_failKnown (fun _ h => h) (hfair False) fun _ => fair_unanswered rfl
    · refine safe_observe_call.mpr ⟨hfair False, fun out => ?_⟩
      obtain ⟨outcome, answers⟩ := out
      show Safe watching Onwards (if outcome = .linkDown then _ else _) (answered outcome answers)
      split
      next hdown =>
        subst hdown
        exact safe_failKnown (fun _ h => h) (fair_answered _ _) fun closed =>
          fair_linkDown answers closed _
      next =>
        refine safe_observe_call.mpr ⟨fair_answered _ _, fun _ => ?_⟩
        cases hr : refusal (mergeAnswers answers) with
        | some reason =>
          exact safe_failKnown (fun _ h => h) (fair_answered _ _) fun closed =>
            fair_refusal hr closed
        | none =>
          dsimp only
          split
          · exact safe_observe_ret.mpr (passed_answered hr fun r h => absurd h List.not_mem_nil)
          · have hpass : Passed { answered outcome answers with
                records := [(.preflightOk, .none)] } := passed_answered hr fun r h => by
              obtain rfl := List.mem_singleton.mp h
              rfl
            refine safe_observe_call.mpr ⟨fair_answered _ _, fun _ => ?_⟩
            refine safe_observe_call.mpr ⟨hpass.fair fun hf => hf.elim, fun _ => ?_⟩
            exact safe_observe_ret.mpr hpass
  · have hpass : Passed {} :=
      ⟨fun _ _ h => absurd h.symm (Option.some_ne_none _), fun _ h => absurd h List.not_mem_nil⟩
    exact safe_observe_ret.mpr hpass

theorem safe_runEscposJob : Safe watching (fun _ => Fair True) j.runEscposJob {} := by
  have hfair : ∀ closed, Fair closed {} := fun _ => fair_unanswered rfl
  refine safe_observe_call.mpr ⟨hfair False, fun (connected : Bool) => ?_⟩
  show Safe watching _ (if !connected then _ else _) {}
  split
  · exact safe_failKnown (fun _ h => h) (hfair False) fun _ => fair_unanswered rfl
  · refine safe_observe_call.mpr ⟨hfair False, fun _ => ?_⟩
    refine safe_observe_call.mpr ⟨hfair False, fun _ => ?_⟩
    change Safe watching _ (j.preflight .transportAccepted >>= fun c => next j.leased c) {}
    refine Safe.bind (safe_preflight.mono fun o w h => ?_)
    cases o with
    | none => exact safe_observe_ret.mpr h
    | some c => exact safe_leased h

theorem safe_runJob (hj : OnEscpos j) : Safe watching (fun _ => Fair True) j.runJob {} := by
  unfold OnEscpos at hj
  unfold JobRun.runJob JobRun.runStages
  rw [if_pos hj]
  exact Safe.bind (safe_runEscposJob.mono fun _ _ h => safe_observe_ret.mpr h)

end Stages

/-! ### Runs that reach the wait -/

section Reached
variable {j : JobRun} {c : ConfidenceLevel}

/-- The transport takes what it is given, and the watch does not look at the questions. -/
theorem trace_sendChunks (w : Watch) : ∀ (cs : List Bytes) (offset : ℕ), ∃ t n,
    Trace (sendChunks .preflight cs offset) t (.ret ⟨true, n⟩) ∧ t.foldl Watch.post w = w
  | [], offset => ⟨[], offset, .nil _, rfl⟩
  | b :: cs, offset => by
    obtain ⟨t, n, ht, hw⟩ := trace_sendChunks w cs (offset + b.length)
    exact ⟨⟨.write .preflight b, (⟨true, b.length⟩ : TransportResult)⟩ :: t, n, .cons ht, hw⟩

theorem trace_sendPaced (w : Watch) (data : Bytes) : ∃ t n,
    Trace (sendPaced j.profile .preflight data) t (.ret ⟨true, n⟩) ∧ t.foldl Watch.post w = w := by
  unfold sendPaced
  split_ifs
  · exact ⟨[⟨.write .preflight data, (⟨true, data.length⟩ : TransportResult)⟩], data.length,
      .cons (.nil _), rfl⟩
  · exact trace_sendChunks w _ 0

/-- What the preflight does with what the wait returned. -/
def judge (j : JobRun) (c : ConfidenceLevel) (outcome : WaitOutcome) (answers : List ParsedEvent) :
    Prog Worker (Option ConfidenceLevel) :=
  if outcome = .linkDown then j.failKnown .transportUnreachable c noEvidence
  else do
    perform (E := Worker) (.io .clearRealtime)
    match refusal (mergeAnswers answers) with
    | some reason => j.failKnown reason c statusEvidence
    | none =>
      if answers = [] then return some c
      else
        let c := c.raise .printerHealthy
        advance j.id .preflightOk (j.reached c) .none
        return some c

/-- Some run of the job reaches the verdict on any answers. -/
theorem trace_judge (hj : OnEscpos j) (hstrict : j.options.preflight = .strict)
    (hasks : j.profile.status.dleEot = true) (outcome : WaitOutcome) (answers : List ParsedEvent) :
    ∃ t, Trace j.runJob t
        ((judge j .transportAccepted outcome answers >>= fun c => next j.leased c) >>= fun _ =>
          .ret ()) ∧
      watched t = answered outcome answers := by
  obtain ⟨t, n, ht, hw⟩ := @trace_sendPaced j {} (kPreflightKinds.flatMap dleEot)
  have hask : ∃ u, Trace (j.preflight .transportAccepted) u
      (judge j .transportAccepted outcome answers) ∧
        u.foldl Watch.post {} = answered outcome answers := by
    refine ⟨⟨.io (.expectRealtime .preflight kPreflightKinds), ()⟩ ::
      (t ++ [⟨.awaitRealtime .preflight 4, (outcome, answers)⟩]), ?_, ?_⟩
    · unfold JobRun.preflight
      rw [if_pos ⟨hstrict, hasks⟩]
      exact .cons ((ht.bind _).append (.cons (.nil _)))
    · show (t ++ _).foldl Watch.post {} = _
      rw [List.foldl_append, hw]
      rfl
  obtain ⟨u, hu, hwu⟩ := hask
  refine ⟨⟨.ensureConnected, true⟩ :: ⟨.io .beginJobIo, ()⟩ ::
    ⟨.io (.setCustomMethod j.custom), ()⟩ :: u, ?_, hwu⟩
  unfold OnEscpos at hj
  unfold JobRun.runJob JobRun.runStages
  rw [if_pos hj]
  exact .cons (.cons (.cons ((hu.bind _).bind _)))

/-- **A preflight heeds its answers unless the link is lost before the fourth of them, or the paper
sensor takes back the paper-out of the offline cause and nothing else is wrong.** -/
theorem heeds_iff (hj : OnEscpos j) (hstrict : j.options.preflight = .strict)
    (hasks : j.profile.status.dleEot = true) (x : Exchange) :
    (∀ t q, Trace j.runJob t q → (watched t).answered = some (x.waited j) →
      Heeds (x.answers j) x.Up (q = .ret ()) (watched t)) ↔
    (Reports (x.answers j) → (4 ≤ (x.answers j).length ∨ x.Up) ∧ ¬ Masked (x.answers j)) := by
  obtain ⟨values, hvalues⟩ := attributed_answers x j
  have hwaited : x.waited j = ((x.waited j).1, x.answers j) := rfl
  have hlink : (x.waited j).1 ≠ .linkDown ↔ 4 ≤ (x.answers j).length ∨ x.Up := by
    rw [Ne, waited_linkDown, Classical.not_and_iff_not_or_not, not_lt, not_not]
  rw [hwaited]
  generalize (x.waited j).1 = outcome at hlink
  rw [← hlink]
  generalize x.answers j = answers at hvalues
  subst hvalues
  constructor
  · intro h hr
    have hrun : ∀ (u : List Entry) (q : Prog Worker (Option ConfidenceLevel)),
        Trace (judge j .transportAccepted outcome (attributed values)) u q →
        (u.foldl Watch.post (answered outcome (attributed values))).answered =
          some (outcome, attributed values) →
        ∀ r ∈ (u.foldl Watch.post (answered outcome (attributed values))).records,
          r.1 = .failedKnown ∧ Named (attributed values) r.2 := by
      intro u q hu ha
      obtain ⟨t, ht, hw⟩ := trace_judge hj hstrict hasks outcome (attributed values)
      have hwatched : watched (t ++ u) =
          u.foldl Watch.post (answered outcome (attributed values)) := by
        rw [watched, List.foldl_append, ← hw]
        rfl
      have hheeds := h (t ++ u) _ (ht.append ((hu.bind _).bind _)) (by rw [hwatched, ha])
      rw [hwatched] at hheeds
      exact hheeds.failed hr
    have hlinkUp : outcome ≠ .linkDown := by
      rintro rfl
      have hbad := hrun [⟨.recordState j.id .failedKnown _ .transportUnreachable _, ()⟩] _
        (.cons (.nil _)) rfl _ (List.mem_singleton.mpr rfl)
      obtain ⟨_, _, hnamed⟩ := hbad.2
      exact hnamed
    refine ⟨hlinkUp, fun hmasked => ?_⟩
    have hne : attributed values ≠ [] := by
      obtain ⟨v, hv, _⟩ := hmasked.reported
      exact List.ne_nil_of_mem hv
    have htrace : ∃ c q, Trace (judge j .transportAccepted outcome (attributed values))
        [⟨.io .clearRealtime, ()⟩, ⟨.recordState j.id .preflightOk c .none {}, ()⟩] q := by
      unfold judge
      rw [if_neg hlinkUp, refusal_eq_none.mpr (.inr hmasked)]
      dsimp only
      rw [if_neg hne]
      exact ⟨_, _, .cons (.cons (.nil _))⟩
    obtain ⟨c, q, hq⟩ := htrace
    exact nomatch (hrun _ q hq rfl _ (List.mem_singleton.mpr rfl)).1
  · intro h t q ht ha
    have hsafe := Safe.trace ht (safe_runJob hj)
    have hheed : Heedable outcome (attributed values) := h
    cases q with
    | ret a =>
      have hfair := safe_observe_ret.mp hsafe outcome values ha hheed
      exact hfair.mono (fun hup => hlink.mpr (.inr hup)) fun _ => trivial
    | call d k =>
      have hfair := (safe_observe_call.mp hsafe).1 outcome values ha hheed
      exact hfair.mono (fun hup => hlink.mpr (.inr hup)) fun he => nomatch he

end Reached

/-! ### Paper-out that the paper sensor takes back -/

/-- A raw receipt for a printer that answers status requests and confirms nothing. -/
def rawTicket : JobRun where
  id := str "job"
  key := str "order"
  payload := .raw (str "hi")
  options := { cut := .none }
  attempt := 1
  banner := false
  profile := { completion := .none }
  widthDots := 576
  codecs := plainCodecs
  completionMethod _ := none

/-- Four answers in two reads; the second is the offline cause. -/
def replies (offlineCause : UInt8) : Exchange where
  nonce := []
  before := {}
  begun := []
  bound := []
  asked := [.bytes [0x12, offlineCause], .bytes [0x12, 0x12]]

/-- A link that takes everything, and a printer that gave these answers. -/
def takes (x : Exchange) : (c : Call) → Option c.Answer
  | .ensureConnected => some true
  | .write _ data => some (⟨true, data.length⟩ : TransportResult)
  | .awaitRealtime _ _ => some (x.waited rawTicket)
  | .io _ | .recordState _ _ _ _ _ | .emit _ _ | .finish _ _ => some ()
  | _ => none

theorem rawTicket_onEscpos : OnEscpos rawTicket := rfl

theorem rawTicket_heeds : (replies 0x16).answers rawTicket = attributed [0x12, 0x16, 0x12, 0x12] ∧
    ∀ t q, Trace rawTicket.runJob t q →
      (watched t).answered = some ((replies 0x16).waited rawTicket) →
      Heeds ((replies 0x16).answers rawTicket) (replies 0x16).Up (q = .ret ()) (watched t) := by
  refine ⟨by decide, (heeds_iff rawTicket_onEscpos rfl rfl _).mpr fun _ => ⟨.inl (by decide), ?_⟩⟩
  intro hmasked
  have hcover : Named ((replies 0x16).answers rawTicket) .preflightCoverOpen :=
    ⟨.realtimeStatus .offlineCause 0x16, by decide, rfl⟩
  exact nomatch hmasked.alone _ hcover

/-- The offline cause says paper out, and the receipt is sent. -/
theorem rawTicket_not_heeded : ∃ t, Trace rawTicket.runJob t (.ret ()) ∧
    (watched t).answered = some ((replies 0x32).waited rawTicket) ∧
    Named ((replies 0x32).answers rawTicket) .preflightPaperOut ∧
    str "hi" <:+: (watched t).printed ∧ (.doneSoftware, .none) ∈ (watched t).records := by
  have hend : (play (takes (replies 0x32)) rawTicket.runJob).2 = .ret () := rfl
  refine ⟨(play (takes (replies 0x32)) rawTicket.runJob).1, hend ▸ trace_play _ _, by decide,
    ⟨.realtimeStatus .offlineCause 0x32, by decide, rfl⟩, by decide, by decide⟩

end PrinterDriver.Engine.Preflight
