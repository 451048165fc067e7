import Mathlib.Data.List.Nodup
import Mathlib.Logic.Function.Basic
import PrinterDriver.Core.Journal

/-! # The job store

The records of the jobs with the index of their keys, the journal they are kept in, and what
happens when a process opens the journal of an earlier one: it replays the lines, decides what
became of the jobs that were in flight, and compacts the file. -/

namespace PrinterDriver.Core.Store

open PrinterDriver.Core.Types PrinterDriver.Core.Journal

/-! ### Records -/

/-- The job that a key stands for: the one created last. -/
def indexKeys (jobs : List JobRecord) : Bytes → Option Bytes :=
  jobs.foldl (fun index r => if r.key = [] then index else Function.update index r.key (some r.id))
    fun _ => none

theorem indexKeys_nil : (fun _ => none) = indexKeys [] := rfl

/-- The records in the order of their creation; an id has one record. -/
structure Records where
  jobs : List JobRecord := []
  idByKey : Bytes → Option Bytes := fun _ => none
  nodup : (jobs.map JobRecord.id).Nodup := by exact List.nodup_nil
  indexed : idByKey = indexKeys jobs := by exact indexKeys_nil

theorem indexKeys_append (jobs : List JobRecord) (r : JobRecord) :
    indexKeys (jobs ++ [r]) =
      if r.key = [] then indexKeys jobs
      else Function.update (indexKeys jobs) r.key (some r.id) := by
  simp [indexKeys]

/-- A change that leaves a record's id and key alone. -/
def Keeps (f : JobRecord → JobRecord) : Prop := ∀ r, (f r).id = r.id ∧ (f r).key = r.key

theorem indexKeys_map {f : JobRecord → JobRecord} (hf : Keeps f) (jobs : List JobRecord) :
    indexKeys (jobs.map f) = indexKeys jobs := by
  simp [indexKeys, List.foldl_map, (hf _).1, (hf _).2]

theorem map_id_map {f : JobRecord → JobRecord} (hf : Keeps f) (jobs : List JobRecord) :
    (jobs.map f).map JobRecord.id = jobs.map JobRecord.id := by
  rw [List.map_map]
  exact List.map_congr_left fun r _ => (hf r).1

theorem keeps_setState {s c r atMs ev} : Keeps (JobRecord.setState s c r atMs ev) :=
  fun _ => ⟨rfl, rfl⟩

theorem keeps_setTokens {p c} : Keeps (JobRecord.setTokens p c) := fun _ => ⟨rfl, rfl⟩

/-- The change, of the record with the id only. -/
def onlyAt (id : Bytes) (f : JobRecord → JobRecord) (r : JobRecord) : JobRecord :=
  if r.id = id then f r else r

theorem Keeps.onlyAt {f : JobRecord → JobRecord} (hf : Keeps f) (id : Bytes) :
    Keeps (onlyAt id f) := fun r => by
  unfold Store.onlyAt
  split_ifs
  · exact hf r
  · exact ⟨rfl, rfl⟩

namespace Records

def ids (s : Records) : List Bytes := s.jobs.map JobRecord.id

@[ext]
theorem ext {s t : Records} (h : s.jobs = t.jobs) : s = t := by
  obtain ⟨jobs, index, hn, hi⟩ := s
  obtain ⟨jobs', index', hn', hi'⟩ := t
  obtain rfl : jobs = jobs' := h
  obtain rfl : index = index' := hi.trans hi'.symm
  rfl

def find? (s : Records) (id : Bytes) : Option JobRecord := s.jobs.find? fun r => r.id = id

/-- A new job. -/
def add (s : Records) (r : JobRecord) (h : r.id ∉ s.ids) : Records where
  jobs := s.jobs ++ [r]
  idByKey := if r.key = [] then s.idByKey else Function.update s.idByKey r.key (some r.id)
  nodup := by
    rw [List.map_append, List.nodup_append_comm]
    exact List.nodup_cons.mpr ⟨h, s.nodup⟩
  indexed := by rw [indexKeys_append, s.indexed]

/-- A change of every record. -/
def change (s : Records) (f : JobRecord → JobRecord) (hf : Keeps f) : Records where
  jobs := s.jobs.map f
  idByKey := s.idByKey
  nodup := by rw [map_id_map hf]; exact s.nodup
  indexed := by rw [indexKeys_map hf, s.indexed]

/-- A change of one record, if there is one with the id. -/
def modify (s : Records) (id : Bytes) (f : JobRecord → JobRecord) (hf : Keeps f) : Records :=
  s.change (onlyAt id f) (hf.onlyAt id)

/-- What one journal line does to the records. -/
def enter (s : Records) : JournalEntry → Records
  | .job r => if h : r.id ∈ s.ids then s else s.add r h
  | .state id state confidence reason atMs evidence =>
    s.modify id (JobRecord.setState state confidence reason atMs evidence) keeps_setState
  | .tokens id printToken cutToken =>
    s.modify id (JobRecord.setTokens printToken cutToken) keeps_setTokens

def replay (s : Records) (es : List JournalEntry) : Records := es.foldl enter s

end Records

/-! ### Recovery -/

theorem keeps_recover (now : Bytes → UInt64) : Keeps fun r => r.recover (now r.id) := by
  intro r
  simp only [JobRecord.recover]
  split_ifs <;> exact ⟨rfl, rfl⟩

/-- `now id` is the clock when the record of `id` is recovered. -/
def Records.recover (now : Bytes → UInt64) (s : Records) : Records :=
  s.change (fun r => r.recover (now r.id)) (keeps_recover now)

def load (now : Bytes → UInt64) (file : Bytes) : Records :=
  (({} : Records).replay (readJournal file)).recover now

def Records.compact (s : Records) : Bytes :=
  kHeader ++ newline :: text (s.jobs.flatMap JobRecord.snapshot)

/-! ### The store -/

structure JobStore extends Records where
  journal : Bytes

/-- How many jobs the last `load` reclassified. -/
def JobStore.recoveredCount (s : JobStore) : ℕ := s.jobs.countP JobRecord.recovered

/-- The constructor, on a journal that can be read and replaced. -/
def JobStore.open (now : Bytes → UInt64) (file : Bytes) : JobStore :=
  { toRecords := load now file, journal := (load now file).compact }

inductive StoreError where
  | duplicateJobId (id : Bytes)
  | unknownJobId (id : Bytes)
  | journalFailed
  deriving DecidableEq, Repr

/-- The text and a newline. A fault is a write, or the sync after it, that fails when so many bytes
are in the file. -/
def append (journal line : Bytes) (fault : Option ℕ) : Option StoreError × Bytes :=
  match fault with
  | none => (none, journal ++ (line ++ [newline]))
  | some written => (some .journalFailed, journal ++ (line ++ [newline]).take written)

namespace JobStore

/-- The file first, then the memory. -/
def createJob (s : JobStore) (now : UInt64) (record : JobRecord) (fault : Option ℕ) :
    Option StoreError × JobStore :=
  if h : (record.fresh now).id ∈ s.ids then (some (.duplicateJobId record.id), s)
  else
    match append s.journal ((record.fresh now).batch) fault with
    | (none, journal) =>
      (none, { toRecords := s.add (record.fresh now) h, journal := journal })
    | (some error, journal) => (some error, { s with journal := journal })

def recordState (s : JobStore) (now : UInt64) (id : Bytes) (state : JobState)
    (confidence : ConfidenceLevel) (reason : FailureReason) (evidence : JobEvidence)
    (fault : Option ℕ) : Option StoreError × JobStore :=
  if id ∉ s.ids then (some (.unknownJobId id), s)
  else
    match append s.journal (stateLine id state confidence reason now evidence) fault with
    | (none, journal) =>
      (none,
        { toRecords :=
            s.modify id (JobRecord.setState state confidence reason now evidence) keeps_setState
          journal := journal })
    | (some error, journal) => (some error, { s with journal := journal })

def recordTokens (s : JobStore) (id printToken cutToken : Bytes) (fault : Option ℕ) :
    Option StoreError × JobStore :=
  if id ∉ s.ids then (some (.unknownJobId id), s)
  else
    match append s.journal (tokenLine id printToken cutToken) fault with
    | (none, journal) =>
      (none,
        { toRecords := s.modify id (JobRecord.setTokens printToken cutToken) keeps_setTokens
          journal := journal })
    | (some error, journal) => (some error, { s with journal := journal })

def findById (s : JobStore) (id : Bytes) : Option JobRecord := s.find? id

def findByKey (s : JobStore) (key : Bytes) : Option JobRecord := (s.idByKey key).bind s.find?

end JobStore

/-! ### What a line does to a record -/

/-- The change of the records that are there. -/
def effect : JournalEntry → JobRecord → JobRecord
  | .job _ => fun r => r
  | .state id state confidence reason atMs evidence =>
    onlyAt id (JobRecord.setState state confidence reason atMs evidence)
  | .tokens id printToken cutToken => onlyAt id (JobRecord.setTokens printToken cutToken)

theorem keeps_effect : (e : JournalEntry) → Keeps (effect e)
  | .job _ => fun _ => ⟨rfl, rfl⟩
  | .state id _ _ _ _ _ => keeps_setState.onlyAt id
  | .tokens id _ _ => keeps_setTokens.onlyAt id

namespace Records

/-- Some record with the id has the property. -/
def Has (s : Records) (id : Bytes) (P : JobRecord → Prop) : Prop :=
  ∃ r ∈ s.jobs, r.id = id ∧ P r

theorem replay_append (s : Records) (es fs : List JournalEntry) :
    s.replay (es ++ fs) = (s.replay es).replay fs :=
  List.foldl_append

theorem jobs_enter_job {s : Records} {r : JobRecord} (h : r.id ∉ s.ids) :
    (s.enter (.job r)).jobs = s.jobs ++ [r] := by
  rw [enter, dif_neg h]
  rfl

/-- A line changes the records that are there, and at most adds one. -/
theorem mem_jobs_enter {s : Records} {r : JobRecord} (h : r ∈ s.jobs) :
    (e : JournalEntry) → effect e r ∈ (s.enter e).jobs
  | .job t => by
    by_cases ht : t.id ∈ s.ids
    · rw [enter, dif_pos ht]
      exact h
    · rw [jobs_enter_job ht]
      exact List.mem_append_left _ h
  | .state _ _ _ _ _ _ => List.mem_map_of_mem h
  | .tokens _ _ _ => List.mem_map_of_mem h

theorem Has.enter {s : Records} {id : Bytes} {P Q : JobRecord → Prop} (h : s.Has id P)
    (e : JournalEntry) (hP : ∀ r, r.id = id → P r → Q (effect e r)) : (s.enter e).Has id Q := by
  obtain ⟨r, hr, hid, hp⟩ := h
  exact ⟨effect e r, mem_jobs_enter hr e, (keeps_effect e r).1.trans hid, hP r hid hp⟩

/-- What no line changes, stays. -/
theorem Has.replay {id : Bytes} {P : JobRecord → Prop} : ∀ {es : List JournalEntry} {s : Records},
    s.Has id P → (∀ e ∈ es, ∀ r, r.id = id → P r → P (effect e r)) → (s.replay es).Has id P
  | [], _, h, _ => h
  | e :: es, _, h, hP =>
    @Has.replay _ _ es _ (h.enter e (hP e (by simp))) fun f hf => hP f (List.mem_cons_of_mem _ hf)

theorem has_of_mem_ids {s : Records} {id : Bytes} (h : id ∈ s.ids) : s.Has id fun _ => True := by
  obtain ⟨r, hr, hid⟩ := List.mem_map.mp h
  exact ⟨r, hr, hid, trivial⟩

theorem ids_change (s : Records) {f : JobRecord → JobRecord} (hf : Keeps f) :
    (s.change f hf).ids = s.ids :=
  map_id_map hf s.jobs

theorem mem_ids_enter {s : Records} {id : Bytes} {e : JournalEntry} :
    id ∈ (s.enter e).ids ↔ id ∈ s.ids ∨ ∃ r, e = .job r ∧ r.id = id := by
  cases e with
  | job r =>
    by_cases hr : r.id ∈ s.ids
    · rw [enter, dif_pos hr]
      refine ⟨.inl, fun h => h.elim (fun h => h) ?_⟩
      rintro ⟨t, ht, rfl⟩
      exact (JournalEntry.job.inj ht) ▸ hr
    · rw [ids, jobs_enter_job hr, List.map_append, List.mem_append]
      simp [ids, eq_comm]
  | state i st c rs atMs ev =>
    rw [enter, modify, ids_change]
    simp
  | tokens i p c =>
    rw [enter, modify, ids_change]
    simp

theorem mem_ids_replay {id : Bytes} : ∀ {es : List JournalEntry} {s : Records},
    id ∈ (s.replay es).ids ↔ id ∈ s.ids ∨ ∃ r, .job r ∈ es ∧ r.id = id
  | [], s => by simp [replay]
  | e :: es, s => by
    refine (@mem_ids_replay _ es (s.enter e)).trans ?_
    rw [mem_ids_enter]
    simp only [List.mem_cons]
    grind

end Records

/-! ### Compaction -/

namespace Records

theorem jobs_replay_snapshot {s : Records} {r : JobRecord} (h : r.id ∉ s.ids) :
    (s.replay (r.snapshot.map JournalEntry.readBack)).jobs = s.jobs ++ [r.forget] := by
  have hold : s.jobs.map (onlyAt r.id (JobRecord.setState r.state r.confidence r.reason
      r.updatedUnixMs r.evidence)) = s.jobs := by
    refine (List.map_congr_left fun t ht => if_neg fun e : t.id = r.id => h ?_).trans (List.map_id _)
    exact e ▸ List.mem_map_of_mem ht
  change (enter s (.job r.creation)).jobs.map (onlyAt r.id (JobRecord.setState _ _ _ _ _)) = _
  rw [jobs_enter_job (show r.creation.id ∉ s.ids from h), List.map_append, hold]
  simp [onlyAt, JobRecord.setState, JobRecord.creation, JobRecord.forget]

/-- A compacted journal replays to the records it was written from. -/
theorem jobs_replay_snapshots : ∀ {rs : List JobRecord} {s : Records},
    (s.ids ++ rs.map JobRecord.id).Nodup →
    (s.replay ((rs.flatMap JobRecord.snapshot).map JournalEntry.readBack)).jobs =
      s.jobs ++ rs.map JobRecord.forget
  | [], s, _ => by simp [replay]
  | r :: rs, s, h => by
    have hr : r.id ∉ s.ids := fun hm =>
      (List.disjoint_of_nodup_append h) hm (by simp)
    have hs := jobs_replay_snapshot hr
    rw [List.flatMap_cons, List.map_append, replay_append, jobs_replay_snapshots, hs]
    · simp
    · rw [ids, hs]
      simpa [JobRecord.forget, ids] using h

theorem recover_of_terminal {now : Bytes → UInt64} {s : Records}
    (h : ∀ r ∈ s.jobs, r.isTerminal = true) : s.recover now = s :=
  Records.ext ((List.map_congr_left fun r hr => if_pos (h r hr)).trans (List.map_id _))

theorem terminal_recover (now : Bytes → UInt64) (s : Records) :
    ∀ r ∈ (s.recover now).jobs, r.isTerminal = true := by
  intro r hr
  obtain ⟨t, -, rfl⟩ := List.mem_map.mp hr
  unfold JobRecord.recover
  split_ifs with h
  · exact h
  · cases t.state <;> simp [JobRecord.isTerminal, reloadedState, JobState.isTerminal]

/-- A compacted journal of finished jobs loads to the records it was written from. -/
theorem jobs_load_compact {s : Records} (h : ∀ r ∈ s.jobs, r.isTerminal = true)
    (now : Bytes → UInt64) : (load now s.compact).jobs = s.jobs.map JobRecord.forget := by
  have hjobs := @jobs_replay_snapshots s.jobs {} (by simpa [ids] using s.nodup)
  rw [List.nil_append] at hjobs
  rw [load, compact, readJournal_header, readJournal_text, recover_of_terminal, hjobs]
  rw [hjobs]
  intro r hr
  obtain ⟨t, ht, rfl⟩ := List.mem_map.mp hr
  exact h t ht

theorem keeps_forget : Keeps JobRecord.forget := fun _ => ⟨rfl, rfl⟩

theorem load_compact {s : Records} (h : ∀ r ∈ s.jobs, r.isTerminal = true) (now : Bytes → UInt64) :
    load now s.compact = s.change JobRecord.forget keeps_forget :=
  Records.ext (jobs_load_compact h now)

/-- The file does not keep the flag. -/
theorem compact_forget (s : Records) :
    (s.change JobRecord.forget keeps_forget).compact = s.compact := by
  simp only [compact, change, text, List.flatMap_map, List.map_flatMap]
  rfl

end Records

/-- **Opening a journal again after it was opened.** Whatever the file held, the second process
finds the same records, and leaves the file as it is. -/
theorem reopen (now later : Bytes → UInt64) (file : Bytes) :
    let first := JobStore.open now file
    let second := JobStore.open later first.journal
    second.jobs = first.jobs.map JobRecord.forget ∧ second.idByKey = first.idByKey ∧
      second.journal = first.journal := by
  intro first second
  have hload : second.toRecords = first.toRecords.change JobRecord.forget Records.keeps_forget :=
    Records.load_compact (Records.terminal_recover now _) later
  refine ⟨?_, ?_, ?_⟩
  · exact congrArg Records.jobs hload
  · exact (congrArg Records.idByKey hload :)
  · exact (congrArg Records.compact hload).trans (Records.compact_forget _)

end PrinterDriver.Core.Store
