import PrinterDriver.Core.Store

/-! # Runs of the store

What a journal holds after any sequence of operations on an open store: the lines of each operation
that returned, and of one that failed a part. -/

namespace PrinterDriver.Core.StoreRuns

open PrinterDriver.Lib.Delimited PrinterDriver.Core.Types PrinterDriver.Core.Journal
  PrinterDriver.Core.Store

/-! ### Operations -/

inductive StoreOp where
  | createJob (now : UInt64) (record : JobRecord)
  | recordState (now : UInt64) (id : Bytes) (state : JobState) (confidence : ConfidenceLevel)
      (reason : FailureReason) (evidence : JobEvidence)
  | recordTokens (id printToken cutToken : Bytes)
  deriving DecidableEq, Repr

namespace StoreOp

def apply (s : JobStore) (fault : Option ℕ) : StoreOp → Option StoreError × JobStore
  | .createJob now record => s.createJob now record fault
  | .recordState now id state confidence reason evidence =>
    s.recordState now id state confidence reason evidence fault
  | .recordTokens id printToken cutToken => s.recordTokens id printToken cutToken fault

/-- The job it is about. -/
def id : StoreOp → Bytes
  | .createJob _ record => record.id
  | .recordState _ id _ _ _ _ => id
  | .recordTokens id _ _ => id

/-- The store takes it: a new id for a new job, and else one it knows. -/
def Admitted (s : JobStore) : StoreOp → Prop
  | .createJob _ record => record.id ∉ s.ids
  | .recordState _ id _ _ _ _ => id ∈ s.ids
  | .recordTokens id _ _ => id ∈ s.ids

instance (s : JobStore) : (op : StoreOp) → Decidable (op.Admitted s)
  | .createJob _ record => inferInstanceAs (Decidable (record.id ∉ s.ids))
  | .recordState _ id _ _ _ _ => inferInstanceAs (Decidable (id ∈ s.ids))
  | .recordTokens id _ _ => inferInstanceAs (Decidable (id ∈ s.ids))

/-- The lines it appends. -/
def entries : StoreOp → List JournalEntry
  | .createJob now record => (record.fresh now).snapshot
  | .recordState now id state confidence reason evidence =>
    [.state id state confidence reason now evidence]
  | .recordTokens id printToken cutToken => [.tokens id printToken cutToken]

end StoreOp

theorem batch_newline (r : JobRecord) : r.batch ++ [newline] = text r.snapshot := by
  simp [JobRecord.batch, JobRecord.snapshot, text, JournalEntry.line, JournalEntry.fields, jobLine,
    stateLine]

theorem line_newline (e : JournalEntry) : e.line ++ [newline] = text [e] := by
  simp [text]

section

variable {s : JobStore}

theorem apply_refused {op : StoreOp} (h : ¬op.Admitted s) (fault : Option ℕ) :
    ∃ error, op.apply s fault = (some error, s) := by
  cases op with
  | createJob now record => exact ⟨_, dif_pos (not_not.mp h)⟩
  | recordState now id st c r ev => exact ⟨_, if_pos h⟩
  | recordTokens id p c => exact ⟨_, if_pos h⟩

/-- An operation that returns has appended its lines, and the memory says the same. -/
theorem apply_ok {op : StoreOp} (h : op.Admitted s) :
    op.apply s none =
      (none,
        { toRecords := s.replay (op.entries.map JournalEntry.readBack)
          journal := s.journal ++ text op.entries }) := by
  cases op with
  | createJob now record =>
    have hadd : s.add (record.fresh now) h =
        s.replay ((record.fresh now).snapshot.map JournalEntry.readBack) :=
      Records.ext (Records.jobs_replay_snapshot (r := record.fresh now) h).symm
    refine (dif_neg h).trans ?_
    rw [append, batch_newline, hadd]
    rfl
  | recordState now id st c r ev =>
    have hid : id ∈ s.ids := h
    rw [StoreOp.apply, JobStore.recordState, if_neg (not_not.mpr hid), append, StoreOp.entries,
      ← line_newline]
    rfl
  | recordTokens id p c =>
    have hid : id ∈ s.ids := h
    rw [StoreOp.apply, JobStore.recordTokens, if_neg (not_not.mpr hid), append, StoreOp.entries,
      ← line_newline]
    rfl

/-- One that fails has appended a part of them, and the memory does not change. -/
theorem apply_failed {op : StoreOp} (h : op.Admitted s) (n : ℕ) :
    op.apply s (some n) =
      (some .journalFailed, { s with journal := s.journal ++ (text op.entries).take n }) := by
  cases op with
  | createJob now record =>
    refine (dif_neg h).trans ?_
    rw [append, batch_newline]
    rfl
  | recordState now id st c r ev =>
    have hid : id ∈ s.ids := h
    rw [StoreOp.apply, JobStore.recordState, if_neg (not_not.mpr hid), append, StoreOp.entries,
      ← line_newline]
    rfl
  | recordTokens id p c =>
    have hid : id ∈ s.ids := h
    rw [StoreOp.apply, JobStore.recordTokens, if_neg (not_not.mpr hid), append, StoreOp.entries,
      ← line_newline]
    rfl

end

/-! ### Runs -/

/-- An operation and how its append goes. -/
structure Attempt where
  op : StoreOp
  fault : Option ℕ := none

def Attempt.apply (s : JobStore) (a : Attempt) : Option StoreError × JobStore := a.op.apply s a.fault

/-- The store goes on after a failure. -/
def run (s : JobStore) (as : List Attempt) : JobStore := as.foldl (fun s a => (a.apply s).2) s

/-- Every operation returns. -/
def Returned : JobStore → List Attempt → Prop
  | _, [] => True
  | s, a :: as => (a.apply s).1 = none ∧ Returned (a.apply s).2 as

instance : (s : JobStore) → (as : List Attempt) → Decidable (Returned s as)
  | _, [] => inferInstanceAs (Decidable True)
  | s, a :: as =>
    have := instDecidableReturned (a.apply s).2 as
    inferInstanceAs (Decidable ((a.apply s).1 = none ∧ Returned (a.apply s).2 as))

theorem apply_returned {s : JobStore} {a : Attempt} (h : (a.apply s).1 = none) :
    a.op.Admitted s ∧ a.fault = none := by
  by_cases ha : a.op.Admitted s
  · refine ⟨ha, ?_⟩
    cases hf : a.fault with
    | none => rfl
    | some n =>
      rw [Attempt.apply, hf, apply_failed ha] at h
      cases h
  · obtain ⟨error, he⟩ := apply_refused ha a.fault
    rw [Attempt.apply, he] at h
    cases h

theorem journal_returned {s : JobStore} {a : Attempt} (h : (a.apply s).1 = none) :
    (a.apply s).2.journal = s.journal ++ text a.op.entries := by
  obtain ⟨ha, hf⟩ := apply_returned h
  rw [Attempt.apply, hf, apply_ok ha]

/-- **The journal of a run that returned.** -/
theorem journal_run : ∀ {as : List Attempt} {s : JobStore}, Returned s as →
    (run s as).journal = s.journal ++ text (as.flatMap fun a => a.op.entries)
  | [], _, _ => by simp [run]
  | a :: as, s, h => by
    refine (journal_run h.2).trans ?_
    rw [journal_returned h.1, List.append_assoc, ← text_append, List.flatMap_cons]

/-! ### A journal cut anywhere -/

theorem parseLine_header {q : Bytes} (h : q <+: kHeader) : parseLine q = none := by
  refine if_pos ?_
  cases q with
  | nil => exact .inl rfl
  | cons b q =>
    obtain ⟨t, ht⟩ := h
    obtain rfl : b = hash := (List.cons.inj ht).1
    exact .inr rfl

/-- What is read of a text cut behind some newline, whatever stands before it. -/
theorem readJournal_lastPiece (front : Bytes) {q : Bytes} (hn : newline ∉ q)
    (hr : carriageReturn ∉ q) :
    readJournal (front ++ newline :: q) =
      readJournal (wholePieces newline (front ++ newline :: q)) ++ (parseLine q).toList := by
  rw [wholePieces_append_cons front hn, readJournal_append_cons, readJournal_append_cons,
    readJournal_of_notMem hn hr, readJournal_nil, List.append_nil]

/-- **A journal cut anywhere** is its whole lines and at most one more entry, which says part of
what the line says that was cut. -/
theorem readJournal_cut {es : List JournalEntry} {p : Bytes}
    (h : p <+: kHeader ++ newline :: text es) :
    readJournal p =
        readJournal (wholePieces newline p) ++ (parseLine (lastPiece newline p)).toList ∧
      ∀ t, parseLine (lastPiece newline p) = some t →
        ∃ e, wholePieces newline p ++ (e.line ++ [newline]) <+: kHeader ++ newline :: text es ∧
          CutShort e t := by
  rcases prefix_append_cases h with hp | ⟨r, rfl, hr⟩
  · have hn : newline ∉ p := fun hm => absurd (hp.subset hm) (by decide)
    have hc : carriageReturn ∉ p := fun hm => absurd (hp.subset hm) (by decide)
    rw [wholePieces_of_notMem hn, lastPiece_of_notMem hn, readJournal_of_notMem hn hc,
      readJournal_nil, List.nil_append, parseLine_header hp]
    exact ⟨rfl, fun t ht => by cases ht⟩
  · rcases List.prefix_cons_iff.mp hr with rfl | ⟨q, rfl, hq⟩
    · rw [List.append_nil, wholePieces_of_notMem (by decide), lastPiece_of_notMem (by decide),
        readJournal_nil, parseLine_header List.prefix_rfl]
      exact ⟨rfl, fun t ht => by cases ht⟩
    · obtain ⟨ws, rest, torn, rfl, rfl, hn, hc, hs⟩ := prefix_text hq
      obtain ⟨front, hf⟩ := terminated_eq_concat (x := newline)
        (List.cons_ne_nil kHeader (ws.map JournalEntry.line))
      have hfront : kHeader ++ newline :: text ws = front ++ [newline] := by
        rw [← hf, terminated_cons, text]
      have hp : kHeader ++ newline :: (text ws ++ torn) = front ++ newline :: torn := by
        rw [← List.cons_append, ← List.append_assoc, hfront, List.append_assoc,
          List.singleton_append]
      rw [hp, lastPiece_append_cons front hn]
      refine ⟨readJournal_lastPiece front hn hc, fun t ht => ?_⟩
      obtain ⟨e, rest', rfl, he⟩ := hs t ht
      refine ⟨e, ?_, he⟩
      rw [wholePieces_append_cons front hn, ← hfront, line_newline, List.append_assoc,
        List.cons_append, ← text_append]
      refine List.prefix_append_right_inj _ |>.mpr (List.cons_prefix_cons.mpr ⟨rfl, ?_⟩)
      exact ⟨text rest', by rw [← text_append]; simp⟩

/-- **A torn journal.** The process dies with some prefix of the journal on the disk: the next one
recovers what the whole lines say and what is still read of the torn one. -/
theorem load_torn (now later : Bytes → UInt64) (file : Bytes) (as : List Attempt)
    (h : Returned (JobStore.open now file) as) (p : Bytes)
    (hp : p <+: (run (JobStore.open now file) as).journal) :
    load later p = (({} : Records).replay (readJournal (wholePieces newline p) ++
        (parseLine (lastPiece newline p)).toList)).recover later ∧
      ∀ t, parseLine (lastPiece newline p) = some t →
        ∃ e : JournalEntry, wholePieces newline p ++ (e.line ++ [newline]) <+:
          (run (JobStore.open now file) as).journal ∧ CutShort e t := by
  have hj : (run (JobStore.open now file) as).journal = kHeader ++ newline :: text
      ((load now file).jobs.flatMap JobRecord.snapshot ++ as.flatMap fun a => a.op.entries) := by
    rw [journal_run h, text_append, ← List.cons_append, ← List.append_assoc]
    rfl
  rw [hj] at hp ⊢
  obtain ⟨hread, htorn⟩ := readJournal_cut hp
  exact ⟨by rw [load, hread], htorn⟩

/-- A job that is created and finishes. -/
def finishedJob : List Attempt :=
  [{ op := .createJob 1 { id := str "j" } },
    { op := .recordState 2 (str "j") .doneSoftware .printConfirmed .none
        ⟨.bOrderedDeviceResponse, .physicalPrinter, str "gsr1"⟩ }]

/-- Its journal without the last eight bytes. -/
def tornJournal : Bytes := (run (JobStore.open (fun _ => 0) []) finishedJob).journal.rdrop 8

theorem load_torn_finishedJob :
    load (fun _ => 3) tornJournal = (({} : Records).replay
        (readJournal (wholePieces newline tornJournal) ++
          (parseLine (lastPiece newline tornJournal)).toList)).recover (fun _ => 3) ∧
      ∀ t, parseLine (lastPiece newline tornJournal) = some t →
        ∃ e : JournalEntry, wholePieces newline tornJournal ++ (e.line ++ [newline]) <+:
          (run (JobStore.open (fun _ => 0) []) finishedJob).journal ∧ CutShort e t :=
  load_torn (fun _ => 0) (fun _ => 3) [] finishedJob (by decide) tornJournal
    (List.take_prefix _ _)

/-- The torn line of `tornJournal` still finishes the job. -/
theorem torn_line_counts :
    ¬∀ (now later : Bytes → UInt64) (file : Bytes) (as : List Attempt),
      Returned (JobStore.open now file) as →
      ∀ p, p <+: (run (JobStore.open now file) as).journal →
        load later p =
          (({} : Records).replay (readJournal (wholePieces newline p))).recover later := by
  intro h
  have hload := h (fun _ => 0) (fun _ => 3) [] finishedJob (by decide) tornJournal
    (List.take_prefix _ _)
  have hstate := congrArg (fun s : Records => s.jobs.map JobRecord.state) hload
  revert hstate
  decide +kernel

end PrinterDriver.Core.StoreRuns
