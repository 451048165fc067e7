import PrinterDriver.Core.FailedAppends

/-! # A process that dies

Without failed appends the file always says what the memory says (`Durable`). A process that dies in
the middle of an append leaves some of its bytes; `filed_apply` says which records the next one
then reads: those that were there, at most one of them changed by the operation, and at most a new
one. -/

namespace PrinterDriver.Core.Crashes

open PrinterDriver.Core.Types PrinterDriver.Core.Journal PrinterDriver.Core.Store
  PrinterDriver.Core.StoreRuns PrinterDriver.Core.FailedAppends

/-- The file says what the memory says, and its last line is whole. -/
structure Durable (s : JobStore) : Prop where
  filed : filed s = s.change JobRecord.forget Records.keeps_forget
  ended : s.journal.getLast? = some newline

/-! ### The file of an open store -/

theorem getLast_text {front : Bytes} (h : front.getLast? = some newline) :
    ∀ es : List JournalEntry, (front ++ text es).getLast? = some newline
  | [] => by simpa using h
  | e :: es => by
    rw [text_cons, ← List.append_assoc, ← List.singleton_append, ← List.append_assoc]
    exact getLast_text (by simp) es

theorem durable_open (now : Bytes → UInt64) (file : Bytes) : Durable (JobStore.open now file) where
  filed := by
    refine Records.ext ?_
    rw [FailedAppends.filed, JobStore.open, Records.compact, readJournal_header, readJournal_text,
      Records.jobs_replay_snapshots (by simpa [Records.ids] using (load now file).nodup)]
    rfl
  ended := by
    have hhead : (kHeader ++ [newline]).getLast? = some newline := by simp
    have := getLast_text hhead ((load now file).jobs.flatMap JobRecord.snapshot)
    simpa [JobStore.open, Records.compact] using this

/-- The file does not keep the flag of a recovered record, and no line sets it. -/
theorem effect_forget (e : JournalEntry) (r : JobRecord) :
    effect e r.forget = (effect e r).forget := by
  cases e with
  | job t => rfl
  | state id st c rs atMs ev =>
    by_cases hid : r.id = id
    · have hf : r.forget.id = id := hid
      simp only [effect, onlyAt, if_pos hid, if_pos hf]
      rfl
    · have hf : r.forget.id ≠ id := hid
      simp only [effect, onlyAt, if_neg hid, if_neg hf]
  | tokens id p c =>
    by_cases hid : r.id = id
    · have hf : r.forget.id = id := hid
      simp only [effect, onlyAt, if_pos hid, if_pos hf]
      rfl
    · have hf : r.forget.id ≠ id := hid
      simp only [effect, onlyAt, if_neg hid, if_neg hf]

theorem jobs_enter_of_not_job {s : Records} {e : JournalEntry} (h : ∀ r, e ≠ .job r) :
    (s.enter e).jobs = s.jobs.map (effect e) := by
  cases e with
  | job r => exact absurd rfl (h r)
  | state => rfl
  | tokens => rfl

theorem forget_enter_of_not_job (s : Records) {e : JournalEntry} (h : ∀ r, e ≠ .job r) :
    (s.change JobRecord.forget Records.keeps_forget).enter e =
      (s.enter e).change JobRecord.forget Records.keeps_forget := by
  refine Records.ext ?_
  rw [jobs_enter_of_not_job h]
  change (s.jobs.map JobRecord.forget).map (effect e) = (s.enter e).jobs.map JobRecord.forget
  rw [jobs_enter_of_not_job h, List.map_map, List.map_map]
  exact List.map_congr_left fun r _ => effect_forget e r

theorem forget_enter (s : Records) {e : JournalEntry} (h : ∀ r, e = .job r → r.recovered = false) :
    (s.change JobRecord.forget Records.keeps_forget).enter e =
      (s.enter e).change JobRecord.forget Records.keeps_forget := by
  cases e with
  | job r =>
    refine Records.ext ?_
    have hids : (s.change JobRecord.forget Records.keeps_forget).ids = s.ids :=
      s.ids_change Records.keeps_forget
    by_cases hr : r.id ∈ s.ids
    · rw [Records.enter, dif_pos (hids ▸ hr), Records.enter, dif_pos hr]
    · have hforget : r.forget = r := by
        unfold JobRecord.forget
        rw [← h r rfl]
      rw [Records.jobs_enter_job (hids ▸ hr)]
      change s.jobs.map JobRecord.forget ++ [r] = (s.enter (.job r)).jobs.map JobRecord.forget
      rw [Records.jobs_enter_job hr, List.map_append, List.map_singleton, hforget]
  | state id st c rs atMs ev => exact forget_enter_of_not_job s fun r => by simp
  | tokens id p c => exact forget_enter_of_not_job s fun r => by simp

theorem forget_replay : ∀ (es : List JournalEntry) (s : Records),
    (s.change JobRecord.forget Records.keeps_forget).replay (es.map JournalEntry.readBack) =
      (s.replay (es.map JournalEntry.readBack)).change JobRecord.forget Records.keeps_forget
  | [], _ => rfl
  | e :: es, s => by
    have he : ∀ r, e.readBack = .job r → r.recovered = false := by
      intro r hr
      cases e with
      | job t =>
        obtain rfl := JournalEntry.job.inj hr
        rfl
      | state | tokens => cases hr
    refine Eq.trans ?_ (forget_replay es (s.enter e.readBack))
    rw [← forget_enter s he]
    rfl

/-- An append that returns keeps the file and the memory together. -/
theorem Durable.apply {s : JobStore} {op : StoreOp} (h : Durable s) (ha : op.Admitted s) :
    Durable (op.apply s none).2 := by
  rw [apply_ok ha]
  refine ⟨?_, getLast_text h.ended op.entries⟩
  refine Eq.trans ?_ (forget_replay op.entries s.toRecords)
  rw [← h.filed, FailedAppends.filed, FailedAppends.filed, readJournal_append h.ended,
    readJournal_text, Records.replay_append]

/-! ### An append that was cut -/

/-- What may be read of the lines of an operation of which only a part is in the file. -/
inductive Partial : StoreOp → List JournalEntry → Prop
  | nothing (op : StoreOp) : Partial op []
  | created {now : UInt64} {record t : JobRecord} (h : CutShort (.job (record.fresh now)) (.job t))
      (ht : record.printToken = [] → record.cutToken = [] → t.printToken = [] ∧ t.cutToken = []) :
      Partial (.createJob now record) [.job t]
  | queued {now atMs : UInt64} {record : JobRecord} {evidence : JobEvidence} :
      Partial (.createJob now record) [.job (record.fresh now).creation,
        .state record.id .queued .transportAccepted .none atMs evidence]
  | state {now atMs : UInt64} {id : Bytes} {state : JobState} {confidence : ConfidenceLevel}
      {reason : FailureReason} {evidence evidence' : JobEvidence} :
      Partial (.recordState now id state confidence reason evidence)
        [.state id state confidence reason atMs evidence']
  | tokens {id printToken cutToken cutToken' : Bytes} :
      Partial (.recordTokens id printToken cutToken) [.tokens id printToken cutToken']

/-- What is read of a job line behind its first seven fields. -/
theorem tokens_of_parse {r t : JobRecord} {bytes : Bytes} {more : List Bytes}
    (h : parseFields ((jobFields r).take 7 ++ bytes :: more) = some (.job t)) :
    t.printToken = (parseJobTokens more).1 ∧ t.cutToken = (parseJobTokens more).2 := by
  change parseFields ([kJobPrefix] :: _) = _ at h
  rw [parseFields, if_pos rfl] at h
  obtain ⟨b, -, hb⟩ := Option.map_eq_some_iff.mp ((parseJob_written r bytes more).symm.trans h)
  obtain rfl := JournalEntry.job.inj hb
  exact ⟨rfl, rfl⟩

/-- Tokens that a job line does not have, no part of it has. -/
theorem tokens_torn {r t : JobRecord} (hp : r.printToken = []) (hc : r.cutToken = []) {q : Bytes}
    (h : q <+: (JournalEntry.job r).line) (ht : parseLine q = some (.job t)) :
    t.printToken = [] ∧ t.cutToken = [] := by
  obtain ⟨ws, f, rest, b, he, hb, hs⟩ := splitTabs_torn (.job r) h
  obtain ⟨k, hk, rfl⟩ := eq_take_of_eq_append he
  unfold parseLine at ht
  split_ifs at ht
  rw [hs] at ht
  change parseFields ((jobFields r).take k ++ [b]) = _ at ht
  have hk : k < 10 := hk
  rcases Nat.lt_or_ge k 7 with hlt | hge
  · cases k with
    | zero => rw [List.take_zero, List.nil_append, parseFields_singleton] at ht; cases ht
    | succ k =>
      rw [jobFields, List.take_succ_cons, List.cons_append, parseFields, if_pos rfl,
        parseJob_short (by simp; omega)] at ht
      cases ht
  · obtain rfl | rfl | rfl : k = 7 ∨ k = 8 ∨ k = 9 := by omega
    · exact @tokens_of_parse _ _ _ [] ht
    · exact @tokens_of_parse _ _ _ [b] ht
    · have hf : f = escapeField r.cutToken := by
        have := he
        simp only [JournalEntry.fields, jobFields, List.take_succ_cons, List.cons_append,
          List.take_zero, List.nil_append, List.cons.injEq, true_and] at this
        exact this.1.symm
      have hnil : b = [] := by simpa [hf, hc, escapeField] using hb
      have := @tokens_of_parse _ _ _ [escapeField r.printToken, b] ht
      simpa [parseJobTokens, hp, hnil, escapeField, unescapeField] using this

theorem partial_job {now : UInt64} {record : JobRecord} {q : Bytes}
    (h : q <+: (JournalEntry.job (record.fresh now)).line) :
    Partial (.createJob now record) (parseLine q).toList := by
  cases hq : parseLine q with
  | none => exact .nothing _
  | some t =>
    have hcut := parseLine_torn _ h hq
    cases t with
    | job t =>
      exact .created hcut fun hp hc => tokens_torn (r := record.fresh now) hp hc h hq
    | state | tokens => exact hcut.elim

/-- The lines of an operation, cut anywhere. -/
theorem partial_cut (op : StoreOp) {q : Bytes} (h : q <+: text op.entries) :
    Partial op (readJournal q) := by
  have hnil : ∀ {q : Bytes}, q <+: text [] → readJournal q = [] := fun hq => by
    rw [List.prefix_nil.mp hq, readJournal_nil]
  cases op with
  | createJob now record =>
    rcases prefix_text_cons h with hq | ⟨q', hq, hr⟩
    · rw [readJournal_torn hq]
      exact partial_job hq
    · rw [hr]
      rcases prefix_text_cons hq with hq | ⟨q'', hq, hr⟩
      · rw [readJournal_torn hq]
        cases ht : parseLine q' with
        | none => exact .created rfl fun hp hc => ⟨hp, hc⟩
        | some t =>
          have hcut := parseLine_torn _ hq ht
          cases t with
          | state =>
            obtain ⟨rfl, rfl, rfl, rfl, -⟩ := hcut
            exact .queued
          | job | tokens => exact hcut.elim
      · rw [hr, hnil hq]
        exact .queued
  | recordState now id st c rs ev =>
    rcases prefix_text_cons h with hq | ⟨q', hq, hr⟩
    · rw [readJournal_torn hq]
      cases ht : parseLine q with
      | none => exact .nothing _
      | some t =>
        have hcut := parseLine_torn _ hq ht
        cases t with
        | state =>
          obtain ⟨rfl, rfl, rfl, rfl, -⟩ := hcut
          exact .state
        | job | tokens => exact hcut.elim
    · rw [hr, hnil hq]
      exact .state
  | recordTokens id p c =>
    rcases prefix_text_cons h with hq | ⟨q', hq, hr⟩
    · rw [readJournal_torn hq]
      cases ht : parseLine q with
      | none => exact .nothing _
      | some t =>
        have hcut := parseLine_torn _ hq ht
        cases t with
        | tokens =>
          obtain ⟨rfl, rfl⟩ := hcut
          exact .tokens
        | job | state => exact hcut.elim
    · rw [hr, hnil hq]
      exact .tokens

/-- **The file of an append that was cut.** -/
theorem filed_cut {s : JobStore} {op : StoreOp} (h : Durable s) (ha : op.Admitted s) (n : ℕ) :
    ∃ t, Partial op t ∧ filed (op.apply s (some n)).2 =
      (s.change JobRecord.forget Records.keeps_forget).replay t := by
  refine ⟨_, partial_cut op (List.take_prefix n _), ?_⟩
  rw [apply_failed ha, FailedAppends.filed, readJournal_append h.ended, Records.replay_append,
    ← h.filed]
  rfl

/-! ### Looking up a record -/

section Find
variable {s : Records} {id : Bytes}

theorem id_of_find? {r : JobRecord} (h : s.find? id = some r) : r.id = id := by
  simpa using List.find?_some h

theorem mem_of_find? {r : JobRecord} (h : s.find? id = some r) : r ∈ s.jobs :=
  List.mem_of_find?_eq_some h

theorem find?_isSome : (s.find? id).isSome = true ↔ id ∈ s.ids := by
  simp [Records.find?, Records.ids]

theorem find?_eq_none : s.find? id = none ↔ id ∉ s.ids := by
  rw [← find?_isSome, Option.not_isSome_iff_eq_none]

theorem exists_of_mem_ids (h : id ∈ s.ids) : ∃ r, s.find? id = some r :=
  Option.isSome_iff_exists.mp (find?_isSome.mpr h)

/-- An id has one record. -/
theorem find?_of_mem {r : JobRecord} (h : r ∈ s.jobs) : s.find? r.id = some r := by
  obtain ⟨t, ht⟩ := exists_of_mem_ids (List.mem_map_of_mem (f := JobRecord.id) h)
  rw [ht, List.inj_on_of_nodup_map s.nodup (mem_of_find? ht) h (id_of_find? ht)]

@[simp]
theorem find?_change {f : JobRecord → JobRecord} (hf : Keeps f) :
    (s.change f hf).find? id = (s.find? id).map f := by
  have hcomp : (fun r : JobRecord => decide (r.id = id)) ∘ f = fun r => decide (r.id = id) :=
    funext fun r => by simp [(hf r).1]
  rw [Records.find?, Records.change, List.find?_map, hcomp]
  rfl

theorem find?_add {r : JobRecord} (h : r.id ∉ s.ids) :
    (s.add r h).find? id = if r.id = id then some r else s.find? id := by
  simp only [Records.find?, Records.add, List.find?_append, List.find?_singleton]
  by_cases hid : r.id = id
  · have hn : s.find? id = none := find?_eq_none.mpr (hid ▸ h)
    simp only [Records.find?] at hn
    simp [hid, hn]
  · simp [hid]

end Find

/-! ### The records after an operation -/

/-- What an operation, or a part of its lines, makes of a record. -/
inductive After (op : StoreOp) (r : JobRecord) : JobRecord → Prop
  | same : After op r r
  | state {now atMs : UInt64} {state : JobState} {confidence : ConfidenceLevel}
      {reason : FailureReason} {evidence evidence' : JobEvidence}
      (h : op = .recordState now r.id state confidence reason evidence) :
      After op r (r.setState state confidence reason atMs evidence')
  | tokens {printToken cutToken cutToken' : Bytes}
      (h : op = .recordTokens r.id printToken cutToken) :
      After op r (r.setTokens printToken cutToken')

/-- A job that an operation, or a part of its lines, has made. -/
structure Created (op : StoreOp) (r : JobRecord) : Prop where
  op : ∃ now record, op = .createJob now record ∧ r.id = record.id ∧ r.key = record.key ∧
    r.printerId = record.printerId ∧ r.attempt = record.attempt ∧
    (record.printToken = [] → record.cutToken = [] → r.printToken = [] ∧ r.cutToken = [])
  state : r.state = .queued
  confidence : r.confidence = .transportAccepted
  reason : r.reason = .none

/-- All lines of an operation are some of them. -/
theorem partial_all (op : StoreOp) : Partial op (op.entries.map JournalEntry.readBack) := by
  cases op with
  | createJob now record => exact .queued
  | recordState now id st c rs ev => exact .state
  | recordTokens id p c => exact .tokens

theorem created_of_cutShort {now : UInt64} {record t : JobRecord}
    (h : CutShort (.job (record.fresh now)) (.job t))
    (ht : record.printToken = [] → record.cutToken = [] → t.printToken = [] ∧ t.cutToken = []) :
    Created (.createJob now record) t := by
  have h : t = { (record.fresh now).creation with
      payloadBytes := t.payloadBytes, printToken := t.printToken, cutToken := t.cutToken } := h
  refine ⟨⟨now, record, rfl, ?_, ?_, ?_, ?_, ht⟩, ?_, ?_, ?_⟩ <;> rw [h] <;> rfl

/-- What a part of the lines of an operation does to the records. -/
theorem Partial.jobs {s : Records} {op : StoreOp} {t : List JournalEntry} (h : Partial op t)
    (hnew : ∀ now record, op = .createJob now record → record.id ∉ s.ids) :
    ∃ f new, (s.replay t).jobs = s.jobs.map f ++ new ∧ (∀ r, After op r (f r)) ∧
      (∀ r ∈ new, Created op r) ∧ new.length ≤ 1 := by
  have onlyAt_after : ∀ {id : Bytes} {g : JobRecord → JobRecord} (r : JobRecord),
      (r.id = id → After op r (g r)) → After op r (onlyAt id g r) := by
    intro id g r hg
    unfold onlyAt
    split_ifs with hid
    · exact hg hid
    · exact .same
  cases h with
  | nothing => exact ⟨id, [], by simp [Records.replay], fun r => .same, by simp, by simp⟩
  | @created now record t h ht =>
    have hc := created_of_cutShort h ht
    have hid : t.id = record.id := by
      rw [show t = { (record.fresh now).creation with
        payloadBytes := t.payloadBytes, printToken := t.printToken, cutToken := t.cutToken } from h]
      rfl
    refine ⟨id, [t], ?_, fun r => .same, by simpa using hc, by simp⟩
    rw [List.map_id]
    exact Records.jobs_enter_job (hid ▸ hnew now record rfl)
  | @queued now atMs record ev =>
    let r : JobRecord := { record.fresh now with updatedUnixMs := atMs, evidence := ev }
    have hr : r.id ∉ s.ids := hnew now record rfl
    refine ⟨id, [r.forget], ?_, fun r => .same, ?_, by simp⟩
    · rw [List.map_id]
      exact Records.jobs_replay_snapshot hr
    · rw [List.forall_mem_singleton]
      exact ⟨⟨now, record, rfl, rfl, rfl, rfl, rfl, fun hp hc => ⟨hp, hc⟩⟩, rfl, rfl, rfl⟩
  | state =>
    refine ⟨_, [], by rw [List.append_nil]; rfl, fun r => onlyAt_after r fun hid => ?_,
      by simp, by simp⟩
    exact .state (by rw [hid])
  | tokens =>
    refine ⟨_, [], by rw [List.append_nil]; rfl, fun r => onlyAt_after r fun hid => ?_,
      by simp, by simp⟩
    exact .tokens (by rw [hid])

theorem After.id {op : StoreOp} {r r' : JobRecord} (h : After op r r') : r'.id = r.id := by
  cases h <;> rfl

section Replay
variable {s : Records} {op : StoreOp} {t : List JournalEntry}

theorem Partial.find_after (h : Partial op t)
    (hnew : ∀ now record, op = .createJob now record → record.id ∉ s.ids) {id : Bytes}
    {r : JobRecord} (hr : s.find? id = some r) :
    ∃ r', (s.replay t).find? id = some r' ∧ After op r r' := by
  obtain ⟨f, new, hjobs, hf, -, -⟩ := h.jobs hnew
  have hm : f r ∈ (s.replay t).jobs := by
    rw [hjobs]
    exact List.mem_append_left _ (List.mem_map_of_mem (mem_of_find? hr))
  have hid : (f r).id = id := (hf r).id.trans (id_of_find? hr)
  exact ⟨f r, by rw [← hid, find?_of_mem hm], hf r⟩

end Replay

end PrinterDriver.Core.Crashes
