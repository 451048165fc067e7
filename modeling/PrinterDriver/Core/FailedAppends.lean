import PrinterDriver.Core.StoreRuns

/-! # Appends that fail

An append that fails may leave half a line, and the next line then continues it; or it leaves a line
that a reader takes although the operation failed. What a run does to the journal when neither happens
to an operation that returned: the next process finds it again, unless a later operation that returned
says otherwise. -/

namespace PrinterDriver.Core.FailedAppends

open PrinterDriver.Lib.Delimited PrinterDriver.Core.Types PrinterDriver.Core.Journal
  PrinterDriver.Core.Store PrinterDriver.Core.StoreRuns

/-! ### What an attempt leaves in the file -/

/-- The bytes that an attempt appends. -/
def Attempt.written (s : JobStore) (a : Attempt) : Bytes :=
  if a.op.Admitted s then
    match a.fault with
    | none => text a.op.entries
    | some n => (text a.op.entries).take n
  else []

/-- What a reader takes from them. -/
def Attempt.left (s : JobStore) (a : Attempt) : List JournalEntry :=
  readJournal (Attempt.written s a)

/-- What a reader takes from the bytes of a run. -/
def leftBy : JobStore → List Attempt → List JournalEntry
  | _, [] => []
  | s, a :: as => Attempt.left s a ++ leftBy (a.apply s).2 as

/-- What a reader takes from the appends of a run that returned. -/
def returnedBy : JobStore → List Attempt → List JournalEntry
  | _, [] => []
  | s, a :: as =>
    (if (a.apply s).1.isNone then Attempt.left s a else []) ++ returnedBy (a.apply s).2 as

/-- The records that the file holds, before any recovery. -/
def filed (s : JobStore) : Records := ({} : Records).replay (readJournal s.journal)

/-! ### The condition -/

/-- An append begins a line, and a new job has an id that the file does not know: a `createJob` that
failed may have left its first line there. -/
structure Ready (s : JobStore) (a : Attempt) : Prop where
  boundary : a.op.Admitted s → s.journal.getLast? = some newline
  unused : ∀ now record, a.op = .createJob now record → a.op.Admitted s → record.id ∉ (filed s).ids

/-- Every step of the run meets the condition. -/
def Steady : JobStore → List Attempt → Prop
  | _, [] => True
  | s, a :: as => Ready s a ∧ Steady (a.apply s).2 as

/-! ### What the next process finds -/

/-- The next process finds a record that is the recovery of one with the property. -/
def Found (later : Bytes → UInt64) (file : Bytes) (id : Bytes) (P : JobRecord → Prop) : Prop :=
  ∃ r, r.id = id ∧ P r ∧ r.recover (later id) ∈ (load later file).jobs

def SetsState (id : Bytes) : JournalEntry → Prop
  | .state i _ _ _ _ _ => i = id
  | _ => False

def SetsTokens (id : Bytes) : JournalEntry → Prop
  | .tokens i _ _ => i = id
  | _ => False

/-- The fields that no later line changes. -/
def SameJob (r t : JobRecord) : Prop :=
  t.key = r.key ∧ t.printerId = r.printerId ∧ t.createdUnixMs = r.createdUnixMs ∧
    t.attempt = r.attempt ∧ t.payloadKind = r.payloadKind ∧ t.payloadBytes = r.payloadBytes

def SameState (r t : JobRecord) : Prop :=
  t.state = r.state ∧ t.confidence = r.confidence ∧ t.reason = r.reason ∧
    t.evidence = r.evidence ∧ t.updatedUnixMs = r.updatedUnixMs

def SameTokens (r t : JobRecord) : Prop :=
  t.printToken = r.printToken ∧ t.cutToken = r.cutToken

/-- The next process finds what the operation recorded, as far as `rest`, lines behind its own, do not
set it again. -/
def Reflected (later : Bytes → UInt64) (file : Bytes) (rest : List JournalEntry) : StoreOp → Prop
  | .createJob now record =>
    Found later file record.id (SameJob (record.fresh now)) ∧
      ((∀ e ∈ rest, ¬SetsState record.id e) →
        Found later file record.id (SameState (record.fresh now))) ∧
      ((∀ e ∈ rest, ¬SetsTokens record.id e) →
        Found later file record.id (SameTokens (record.fresh now)))
  | .recordState now id state confidence reason evidence =>
    (∀ e ∈ rest, ¬SetsState id e) → Found later file id fun r =>
      r.state = state ∧ r.confidence = confidence ∧ r.reason = reason ∧ r.evidence = evidence ∧
        r.updatedUnixMs = now
  | .recordTokens id printToken cutToken =>
    (∀ e ∈ rest, ¬SetsTokens id e) → Found later file id fun r =>
      r.printToken = printToken ∧ r.cutToken = cutToken

/-- Among the lines behind an operation, one that sets fields again is not that of an append that
failed alone. -/
def Unspoiled (sets : JournalEntry → Prop) (s : JobStore) (after : List Attempt) : Prop :=
  (∃ e ∈ leftBy s after, sets e) → ∃ e ∈ returnedBy s after, sets e

/-- What the operation recorded is not set again by appends that failed alone. -/
def Untouched (s : JobStore) (after : List Attempt) : StoreOp → Prop
  | .createJob _ record =>
    Unspoiled (SetsState record.id) s after ∧ Unspoiled (SetsTokens record.id) s after
  | .recordState _ id _ _ _ _ => Unspoiled (SetsState id) s after
  | .recordTokens id _ _ => Unspoiled (SetsTokens id) s after

/-! ### One attempt -/

section

variable {s : JobStore} {a : Attempt}

theorem journal_apply : (a.apply s).2.journal = s.journal ++ Attempt.written s a := by
  unfold Attempt.written Attempt.apply
  split_ifs with h
  · cases a.fault with
    | none => rw [apply_ok h]
    | some n => rw [apply_failed h]
  · obtain ⟨error, he⟩ := apply_refused h a.fault
    rw [he, List.append_nil]

theorem readJournal_append {front rest : Bytes} (h : front.getLast? = some newline) :
    readJournal (front ++ rest) = readJournal front ++ readJournal rest := by
  obtain ⟨front, rfl⟩ := List.getLast?_eq_some_iff.mp h
  rw [List.append_assoc, List.singleton_append, readJournal_append_cons, readJournal_append_cons,
    readJournal_nil, List.append_nil]

/-- A step that meets the condition adds to the file's records what it left. -/
theorem filed_apply (h : Ready s a) :
    filed (a.apply s).2 = (filed s).replay (Attempt.left s a) := by
  rw [filed, filed, ← Records.replay_append, journal_apply, Attempt.left]
  by_cases ha : a.op.Admitted s
  · rw [readJournal_append (h.boundary ha)]
  · rw [Attempt.written, if_neg ha, List.append_nil, readJournal_nil, List.append_nil]

theorem left_returned (h : (a.apply s).1 = none) :
    Attempt.left s a = a.op.entries.map JournalEntry.readBack := by
  obtain ⟨ha, hf⟩ := apply_returned h
  rw [Attempt.left, Attempt.written, if_pos ha, hf, readJournal_text]

/-- The file knows every job that the memory knows. -/
def Covers (s : JobStore) : Prop := ∀ id ∈ s.ids, id ∈ (filed s).ids

theorem covers_apply (h : Ready s a) (hc : Covers s) : Covers (a.apply s).2 := by
  intro id hid
  rw [filed_apply h, Records.mem_ids_replay]
  by_cases hr : (a.apply s).1 = none
  · obtain ⟨ha, hf⟩ := apply_returned hr
    rw [Attempt.apply, hf, apply_ok ha, Records.mem_ids_replay] at hid
    rw [left_returned hr]
    exact hid.imp_left (hc id)
  · refine .inl (hc id ?_)
    unfold Attempt.apply at hid hr
    by_cases ha : a.op.Admitted s
    · cases hf : a.fault with
      | none => rw [hf, apply_ok ha] at hr; exact absurd rfl hr
      | some n => rw [hf, apply_failed ha] at hid; exact hid
    · obtain ⟨error, he⟩ := apply_refused ha a.fault
      rw [he] at hid
      exact hid

end

/-! ### Runs -/

theorem run_append (s : JobStore) (as bs : List Attempt) : run s (as ++ bs) = run (run s as) bs :=
  List.foldl_append

theorem steady_append : ∀ {as bs : List Attempt} {s : JobStore}, Steady s (as ++ bs) →
    Steady s as ∧ Steady (run s as) bs
  | [], _, _, h => ⟨trivial, h⟩
  | _ :: _, _, _, h => ⟨⟨h.1, (steady_append h.2).1⟩, (steady_append h.2).2⟩

theorem filed_run : ∀ {as : List Attempt} {s : JobStore}, Steady s as →
    filed (run s as) = (filed s).replay (leftBy s as)
  | [], _, _ => rfl
  | a :: as, s, h => by
    refine (filed_run h.2).trans ?_
    rw [filed_apply h.1, ← Records.replay_append]
    rfl

theorem covers_run : ∀ {as : List Attempt} {s : JobStore}, Steady s as → Covers s →
    Covers (run s as)
  | [], _, _, hc => hc
  | a :: as, s, h, hc => @covers_run as (a.apply s).2 h.2 (covers_apply h.1 hc)

theorem covers_open (now : Bytes → UInt64) (file : Bytes) : Covers (JobStore.open now file) := by
  intro id hid
  have hjobs := @Records.jobs_replay_snapshots (load now file).jobs {}
    (by simpa [Records.ids] using (load now file).nodup)
  have hids : (filed (JobStore.open now file)).ids = (JobStore.open now file).ids := by
    rw [filed, JobStore.open, Records.compact, readJournal_header, readJournal_text, Records.ids,
      hjobs]
    simp [Records.ids, JobRecord.forget]
  rw [hids]
  exact hid

/-! ### The own line of an operation -/

theorem found_of_has {later : Bytes → UInt64} {s : JobStore} {id : Bytes} {P : JobRecord → Prop}
    (h : (filed s).Has id P) : Found later s.journal id P := by
  obtain ⟨r, hr, rfl, hp⟩ := h
  exact ⟨r, rfl, hp, List.mem_map_of_mem (f := fun r => r.recover (later r.id)) hr⟩

theorem sameJob_effect {r t : JobRecord} (h : SameJob r t) : ∀ e, SameJob r (effect e t)
  | .job _ => h
  | .state id _ _ _ _ _ => by
    simp only [effect, onlyAt]
    split_ifs <;> exact h
  | .tokens id _ _ => by
    simp only [effect, onlyAt]
    split_ifs <;> exact h

theorem state_effect {id : Bytes} {r : JobRecord} (hid : r.id = id) {e : JournalEntry}
    (h : ¬SetsState id e) :
    (effect e r).state = r.state ∧ (effect e r).confidence = r.confidence ∧
      (effect e r).reason = r.reason ∧ (effect e r).evidence = r.evidence ∧
        (effect e r).updatedUnixMs = r.updatedUnixMs := by
  cases e with
  | job t => exact ⟨rfl, rfl, rfl, rfl, rfl⟩
  | state i s c rs atMs ev =>
    have hi : r.id ≠ i := fun he => h (he.symm.trans hid)
    simp only [effect, onlyAt, if_neg hi, and_self]
  | tokens i p c =>
    simp only [effect, onlyAt]
    split_ifs <;> exact ⟨rfl, rfl, rfl, rfl, rfl⟩

theorem tokens_effect {id : Bytes} {r : JobRecord} (hid : r.id = id) {e : JournalEntry}
    (h : ¬SetsTokens id e) :
    (effect e r).printToken = r.printToken ∧ (effect e r).cutToken = r.cutToken := by
  cases e with
  | job t => exact ⟨rfl, rfl⟩
  | state i s c rs atMs ev =>
    simp only [effect, onlyAt]
    split_ifs <;> exact ⟨rfl, rfl⟩
  | tokens i p c =>
    have hi : r.id ≠ i := fun he => h (he.symm.trans hid)
    simp only [effect, onlyAt, if_neg hi, and_self]

/-! ### The whole run -/

/-- What an operation that returned recorded is in the file, right behind its lines. -/
theorem has_own {s : JobStore} {a : Attempt} (hr : Ready s a) (hc : Covers s)
    (h : (a.apply s).1 = none) :
    match a.op with
    | .createJob now record => (filed (a.apply s).2).Has record.id fun r =>
        SameJob (record.fresh now) r ∧ SameState (record.fresh now) r ∧
          SameTokens (record.fresh now) r
    | .recordState now id state confidence reason evidence => (filed (a.apply s).2).Has id fun r =>
        r.state = state ∧ r.confidence = confidence ∧ r.reason = reason ∧ r.evidence = evidence ∧
          r.updatedUnixMs = now
    | .recordTokens id printToken cutToken => (filed (a.apply s).2).Has id fun r =>
        r.printToken = printToken ∧ r.cutToken = cutToken := by
  obtain ⟨ha, -⟩ := apply_returned h
  rw [filed_apply hr, left_returned h]
  obtain ⟨op, fault⟩ := a
  cases op with
  | createJob now record =>
    have hid : (record.fresh now).id ∉ (filed s).ids := hr.unused now record rfl ha
    refine ⟨(record.fresh now).forget, ?_, rfl, ⟨rfl, rfl, rfl, rfl, rfl, rfl⟩,
      ⟨rfl, rfl, rfl, rfl, rfl⟩, rfl, rfl⟩
    exact (Records.jobs_replay_snapshot hid).symm ▸ List.mem_append_right _ (by simp)
  | recordState now id st c rs ev =>
    refine (Records.has_of_mem_ids (hc id ha)).enter (.state id st c rs now ev) ?_
    intro r hid _
    simp [effect, onlyAt, hid, JobRecord.setState]
  | recordTokens id p c =>
    refine (Records.has_of_mem_ids (hc id ha)).enter (.tokens id p c) ?_
    intro r hid _
    simp [effect, onlyAt, hid, JobRecord.setTokens]

/-- The next process finds what an operation that returned recorded, as far as no later line of the file
sets it again. -/
theorem reflected_of_left (now later : Bytes → UInt64) (file : Bytes) (before : List Attempt)
    (a : Attempt) (after : List Attempt)
    (h : Steady (JobStore.open now file) (before ++ a :: after))
    (ha : (a.apply (run (JobStore.open now file) before)).1 = none) :
    Reflected later (run (JobStore.open now file) (before ++ a :: after)).journal
      (leftBy (a.apply (run (JobStore.open now file) before)).2 after) a.op := by
  obtain ⟨hbefore, hr, hafter⟩ := steady_append h
  have hc : Covers (run (JobStore.open now file) before) :=
    covers_run hbefore (covers_open now file)
  have hown := has_own hr hc ha
  have hrun : run (JobStore.open now file) (before ++ a :: after) =
      run (a.apply (run (JobStore.open now file) before)).2 after := run_append _ before (a :: after)
  have found : ∀ {id : Bytes} {P : JobRecord → Prop},
      (filed (a.apply (run (JobStore.open now file) before)).2).Has id P →
      (∀ e ∈ leftBy (a.apply (run (JobStore.open now file) before)).2 after,
        ∀ r, r.id = id → P r → P (effect e r)) →
      Found later (run (JobStore.open now file) (before ++ a :: after)).journal id P := by
    intro id P hP he
    rw [hrun]
    refine found_of_has ?_
    rw [filed_run hafter]
    exact hP.replay he
  obtain ⟨op, fault⟩ := a
  cases op with
  | createJob now record =>
    obtain ⟨r, hm, hid, hj, hs, ht⟩ := hown
    refine ⟨found ⟨r, hm, hid, hj⟩ fun e _ r _ hr => sameJob_effect hr e, fun hrest => ?_,
      fun hrest => ?_⟩
    · refine found ⟨r, hm, hid, hs⟩ fun e he r hid hr => ?_
      simpa only [SameState, state_effect hid (hrest e he)] using hr
    · refine found ⟨r, hm, hid, ht⟩ fun e he r hid hr => ?_
      simpa only [SameTokens, tokens_effect hid (hrest e he)] using hr
  | recordState now id st c rs ev =>
    refine fun hrest => found hown fun e he r hid hr => ?_
    simpa only [state_effect hid (hrest e he)] using hr
  | recordTokens id p c =>
    refine fun hrest => found hown fun e he r hid hr => ?_
    simpa only [tokens_effect hid (hrest e he)] using hr

theorem Unspoiled.none {sets : JournalEntry → Prop} {s : JobStore} {after : List Attempt}
    (h : Unspoiled sets s after) (hr : ∀ e ∈ returnedBy s after, ¬sets e) :
    ∀ e ∈ leftBy s after, ¬sets e := by
  intro e he hsets
  obtain ⟨e', he', hsets'⟩ := h ⟨e, he, hsets⟩
  exact hr e' he' hsets'

/-- **A failed append does not damage the records behind it.** In a run in which every append begins
a line and no new job has an id that a failed `createJob` left in the file, the next process finds
what an operation that returned recorded, as far as no later operation that returned set it again, if
none that failed left a line that sets it again. -/
theorem reflected_of_steady (now later : Bytes → UInt64) (file : Bytes) (before : List Attempt)
    (a : Attempt) (after : List Attempt)
    (h : Steady (JobStore.open now file) (before ++ a :: after))
    (ha : (a.apply (run (JobStore.open now file) before)).1 = none)
    (hu : Untouched (a.apply (run (JobStore.open now file) before)).2 after a.op) :
    Reflected later (run (JobStore.open now file) (before ++ a :: after)).journal
      (returnedBy (a.apply (run (JobStore.open now file) before)).2 after) a.op := by
  have hleft := reflected_of_left now later file before a after h ha
  obtain ⟨op, fault⟩ := a
  cases op with
  | createJob now record =>
    obtain ⟨hstate, htokens⟩ := hu
    obtain ⟨hjob, hs, ht⟩ := hleft
    exact ⟨hjob, fun hr => hs (hstate.none hr), fun hr => ht (htokens.none hr)⟩
  | recordState now id st c rs ev => exact fun hr => hleft (Unspoiled.none hu hr)
  | recordTokens id p c => exact fun hr => hleft (Unspoiled.none hu hr)

/-- A job is created; the record of its next state fails when `n` bytes are written. -/
def interruptedJob (n : ℕ) : List Attempt :=
  [{ op := .createJob 1 { id := str "j" } },
    { op := .recordState 2 (str "j") .sendStarted .printerHealthy .none {}, fault := some n }]

/-- The record of its last state returns. -/
def lastRecord : Attempt :=
  { op := .recordState 3 (str "j") .doneSoftware .printConfirmed .none
      ⟨.bOrderedDeviceResponse, .physicalPrinter, str "gsr1"⟩ }

theorem interruptedJob_reflected :
    Reflected (fun _ => 4)
      (run (JobStore.open (fun _ => 0) []) (interruptedJob 0 ++ [lastRecord])).journal
      (returnedBy (lastRecord.apply (run (JobStore.open (fun _ => 0) []) (interruptedJob 0))).2 [])
      lastRecord.op :=
  reflected_of_steady (fun _ => 0) (fun _ => 4) [] (interruptedJob 0) lastRecord []
    ⟨⟨fun _ => by decide, fun now record h _ => by cases h; decide⟩,
      ⟨fun _ => by decide, fun now record h => by cases h⟩,
      ⟨fun _ => by decide +kernel, fun now record h => by cases h⟩, trivial⟩
    (by decide +kernel) fun ⟨e, he, _⟩ => absurd he List.not_mem_nil

/-- One byte of the failed record is enough to lose the next one. -/
theorem interruptedJob_lost :
    ¬∀ (now later : Bytes → UInt64) (file : Bytes) (before : List Attempt) (a : Attempt)
        (after : List Attempt), (a.apply (run (JobStore.open now file) before)).1 = none →
      Reflected later (run (JobStore.open now file) (before ++ a :: after)).journal
        (returnedBy (a.apply (run (JobStore.open now file) before)).2 after) a.op := by
  intro h
  obtain ⟨r, -, ⟨hs, -⟩, hr⟩ := h (fun _ => 0) (fun _ => 4) [] (interruptedJob 1) lastRecord []
    (by decide +kernel) fun e he => absurd he List.not_mem_nil
  have hstates : (load (fun _ => 4) (run (JobStore.open (fun _ => 0) [])
      (interruptedJob 1 ++ [lastRecord])).journal).jobs.map JobRecord.state = [.failedKnown] := by
    decide +kernel
  have hrec : (r.recover 4).state = .doneSoftware := by
    rw [JobRecord.recover, if_pos (by rw [JobRecord.isTerminal, hs]; rfl), hs]
  have hmem := List.mem_map_of_mem (f := JobRecord.state) hr
  rw [hstates, hrec] at hmem
  exact absurd hmem (by decide)

end PrinterDriver.Core.FailedAppends
