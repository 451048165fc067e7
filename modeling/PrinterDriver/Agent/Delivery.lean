import PrinterDriver.Agent.CloudPrntRuns

/-! # What a success is worth

A run is followed with a log of what was submitted and served, of the jobs that downloads asked for,
and of the jobs that were confirmed as printed. The confirmation asks nothing about the download, so
a `DELETE` without a token, sent twice, records a success for a receipt that no printer has seen
(`repeated_delete_succeeds`). The successes of a run are all delivered just when each confirmation
with code 200 comes after a download that asked for the job it finds (`success_means_served`). -/

namespace PrinterDriver.Agent.Delivery

open PrinterDriver.Core.Types PrinterDriver.Lib.Runs
open PrinterDriver.Agent.Http PrinterDriver.Agent.CloudPrnt PrinterDriver.Agent.CloudPrntRuns

/-- The server, with the bytes submitted and the bytes served, each by route and token, the jobs
that were asked for, and the jobs recorded as printed. -/
structure Log where
  server : CloudPrntServer := {}
  submitted : List (Bytes × Bytes × Bytes) := []
  served : List (Bytes × Bytes × Bytes) := []
  asked : List (Bytes × Bytes) := []
  succeeded : List (Bytes × Bytes) := []

/-- What an accepted submission brings. -/
def submission (s : CloudPrntServer) : Request → List (Bytes × Bytes × Bytes)
  | .submit id mediaTypes bytes bits =>
    match s.submit id mediaTypes bytes bits with
    | .ok (token, _) => [(id, token, bytes)]
    | .error _ => []
  | _ => []

/-- The bytes in the answer of a download, under the token it is about. -/
def download (s : CloudPrntServer) : Request → List (Bytes × Bytes × Bytes)
  | .fetchJob id query =>
    match (s.find id).bind fun p => p.wanted (queryValue query (str "token")),
      (s.fetchJob id query).1 with
    | some token, .document _ body => [(id, token, body)]
    | _, _ => []
  | _ => []

/-- The job a download asks for: the request is let in, and what it names, or without a token the
head of the queue, is not confirmed and is kept in a type that the request accepts. -/
def asks (s : CloudPrntServer) : Request → Option (Bytes × Bytes)
  | .fetchJob id query => do
    let p ← s.find id
    guard (p.identityMatches (normaliseMac (queryValue query (str "mac"))) false).1
    let (token, job) ← p.locate (queryValue query (str "token"))
    guard (!job.confirmed)
    guard (job.negotiate (normaliseMedia (queryValue query (str "type")))).isSome
    return (id, token)
  | _ => none

/-- The job a confirmation records as printed. -/
def success (s : CloudPrntServer) : Request → Option (Bytes × Bytes)
  | .confirm id query =>
    match (s.confirm id query).1 with
    | .confirmation token _ false _ outcome _ => if outcome = .done then some (id, token) else none
    | _ => none
  | _ => none

def Log.next (l : Log) (a : Request) : Log where
  server := l.server.next a
  submitted := submission l.server a ++ l.submitted
  served := download l.server a ++ l.served
  asked := (asks l.server a).toList ++ l.asked
  succeeded := (success l.server a).toList ++ l.succeeded

/-- A request as a move of the log. -/
def logged (a : Request) (l : Log) : Option Log := some (l.next a)

/-- The job's bytes were submitted and have been served. -/
def Log.Served (l : Log) (id token : Bytes) : Prop :=
  ∃ bytes, (id, token, bytes) ∈ l.submitted ∧ (id, token, bytes) ∈ l.served

/-- **Success means delivered**: every job confirmed as printed, and every job whose record is that
it was printed, has been served. -/
structure Delivered (l : Log) : Prop where
  confirmed : ∀ x ∈ l.succeeded, l.Served x.1 x.2
  recorded : ∀ id p token job, l.server.find id = some p → p.jobs token = some job →
    job.result.outcome = .done → l.Served id token

/-- A confirmation with code 200 that is let in and finds an unconfirmed job, by its token or at the
head of the queue, comes after a download that asked for this job. -/
def Asked : Request → Log → Prop
  | .confirm id query, l => confirmedCode query = some 200 → ∀ p ∈ l.server.find id,
    (p.identityMatches (normaliseMac (queryValue query (str "mac"))) false).1 = true →
    ∀ found ∈ p.locate (queryValue query (str "token")), found.2.confirmed = false →
      (id, found.1) ∈ l.asked
  | _, _ => True

/-- 200 is the only code that stands for success. -/
theorem done_iff (code : Option ℕ) : (dispositionOf code).outcome = .done ↔ code = some 200 := by
  have htable : ∀ row ∈ kCodes, row.outcome = .done → row.code = 200 := by decide
  constructor
  · intro h
    rcases code with _ | code
    · cases h
    · unfold dispositionOf cloudPrntDisposition at h
      rcases hrow : findCode code with _ | row
      · simp only [hrow] at h
        split_ifs at h
      · simp only [hrow] at h
        have hcode : row.code = code := by simpa using List.find?_some hrow
        rw [← hcode, htable row (List.mem_of_find?_eq_some hrow) h]
  · rintro rfl
    rfl

theorem outcome_settle (job : Job) (code : Option ℕ) :
    (job.settle code).result.outcome = .done ↔ code = some 200 := by
  rw [← done_iff]
  change (resultOf code).outcome = .done ↔ _
  unfold resultOf
  rcases (dispositionOf code).outcome with _ | _ | _ <;> simp [JobResult.done, JobResult.failed,
    JobResult.unknown]

variable {s : CloudPrntServer} {l : Log} {p q : Printer} {id token : Bytes} {job : Job}
  {a : Request}

/-! ### Downloads and confirmations -/

/-- A request that is let in leaves the route as it found it. -/
theorem let_in {mac : Bytes} (h : (p.identityMatches mac false).1 = true) :
    p.identityMatches mac false = (true, p) := Prod.ext h (identityMatches_unbound h)

/-- A download serves the job it asks for. -/
theorem download_eq (s : CloudPrntServer) (a : Request) : download s a =
    ((asks s a).bind fun x => (s.find x.1).bind fun p =>
      (p.jobs x.2).map fun job => (x.1, x.2, job.bytes)).toList := by
  rcases a with spec | ⟨id, mediaTypes, bytes, bits⟩ | ⟨id, body⟩ | ⟨id, query⟩ | ⟨id, query⟩
  · rfl
  · rfl
  · rfl
  swap
  · rfl
  rcases hp : s.find id with _ | p
  · simp [asks, download, hp]
  by_cases hknown : (p.identityMatches (normaliseMac (queryValue query (str "mac"))) false).1
  swap
  · have hanswer : (s.fetchJob id query).1 = unknownJob := by
      rcases fetchJob_cases s id query with he | ⟨p', hp', ⟨-, he⟩ | ⟨hin, -⟩⟩
      · rw [he]
      · rw [he]
      · obtain rfl := Option.some.inj (hp.symm.trans hp')
        exact absurd hin hknown
    simp [asks, download, hp, hknown, hanswer, unknownJob, guard]
  have hanswer : (s.fetchJob id query).1 =
      (p.fetch (queryValue query (str "token")) (queryValue query (str "type"))).1 := by
    simp only [CloudPrntServer.fetchJob, hp, let_in hknown]
  rcases hfound : p.locate (queryValue query (str "token")) with _ | ⟨key, job⟩
  · simp [asks, download, hp, hknown, hfound, hanswer, Printer.fetch, unknownJob, guard]
  obtain ⟨hjob, hwanted⟩ := locate_eq hfound
  by_cases hconf : job.confirmed = true
  · simp [asks, download, hp, hknown, hfound, hconf, hanswer, Printer.fetch, unknownJob, guard]
  · rcases hneg : job.negotiate (normaliseMedia (queryValue query (str "type"))) with _ | type
    · simp [asks, download, hp, hknown, hfound, hconf, hanswer, Printer.fetch, guard, hneg]
    · simp [asks, download, hp, hknown, hfound, hconf, hanswer, Printer.fetch, guard, hwanted, hneg,
        hjob]

/-- A job that is asked for is in the table, and waits. -/
theorem recorded_of_asks (h : asks s a = some (id, token)) :
    ∃ p job, s.find id = some p ∧ p.jobs token = some job ∧ job.confirmed = false := by
  rcases a with spec | ⟨id', mediaTypes, bytes, bits⟩ | ⟨id', body⟩ | ⟨id', query⟩ | ⟨id', query⟩
  · cases h
  · cases h
  · cases h
  swap
  · cases h
  unfold asks at h
  obtain ⟨p, hp, h⟩ := Option.bind_eq_some_iff.mp h
  obtain ⟨-, -, h⟩ := Option.bind_eq_some_iff.mp h
  obtain ⟨⟨key, job⟩, hfound, h⟩ := Option.bind_eq_some_iff.mp h
  obtain ⟨_, hopen, h⟩ := Option.bind_eq_some_iff.mp h
  obtain ⟨-, -, h⟩ := Option.bind_eq_some_iff.mp h
  obtain ⟨rfl, rfl⟩ := Prod.mk.inj (Option.some.inj h)
  have hwaits : job.confirmed = false := by simpa [guard] using hopen
  exact ⟨p, job, hp, (locate_eq hfound).1, hwaits⟩

/-- What is served are the bytes of the job that is asked for. -/
theorem mem_download {bytes : Bytes} : (id, token, bytes) ∈ download s a ↔
    asks s a = some (id, token) ∧
      ∃ p job, s.find id = some p ∧ p.jobs token = some job ∧ job.bytes = bytes := by
  rw [download_eq, Option.mem_toList]
  constructor
  · intro h
    obtain ⟨⟨id', token'⟩, hasks, h⟩ := Option.bind_eq_some_iff.mp h
    obtain ⟨p, hp, h⟩ := Option.bind_eq_some_iff.mp h
    obtain ⟨job, hjob, h⟩ := Option.map_eq_some_iff.mp h
    simp only [Prod.mk.injEq] at h
    obtain ⟨rfl, rfl, rfl⟩ := h
    exact ⟨hasks, p, job, hp, hjob, rfl⟩
  · rintro ⟨hasks, p, job, hp, hjob, rfl⟩
    simp [hasks, hp, hjob]

/-- A confirmation records a job as printed if it carries the code 200, is let in, and finds the job
unconfirmed; it asks nothing else. -/
theorem success_iff {route query : Bytes} (hs : Sound s) :
    success s (.confirm route query) = some (id, token) ↔ id = route ∧
      confirmedCode query = some 200 ∧ ∃ p job, s.find id = some p ∧
        (p.identityMatches (normaliseMac (queryValue query (str "mac"))) false).1 = true ∧
        p.locate (queryValue query (str "token")) = some (token, job) ∧ job.confirmed = false := by
  constructor
  · intro h
    unfold success at h
    dsimp only at h
    rcases confirm_cases s route query with he | ⟨p, hp, ⟨-, he⟩ | ⟨hknown, confirmed, rfl, he⟩⟩
    · rw [he] at h
      cases h
    · rw [he] at h
      cases h
    · rw [he] at h
      rcases confirmed_cases p (queryValue query (str "token")) (queryValue? query (str "retry"))
        (confirmedCode query) with ⟨-, hf⟩ | ⟨key, job, hfound, ⟨-, hf⟩ | ⟨hopen, hf⟩⟩
      · rw [hf] at h
        cases h
      · rw [hf] at h
        cases h
      · have hname : job.token = key := (hs.accounted route p hp).named _ _ (locate_eq hfound).1
        rw [hf] at h
        dsimp only at h
        split_ifs at h with hdone
        obtain ⟨rfl, rfl⟩ := Prod.mk.inj (Option.some.inj h)
        rw [← hname] at hfound
        exact ⟨rfl, (outcome_settle job _).mp hdone, p, job, hp, hknown, hfound, hopen⟩
  · rintro ⟨rfl, hcode, p, job, hp, hknown, hfound, hopen⟩
    have hdone : (job.settle (confirmedCode query)).result.outcome = .done :=
      (outcome_settle job _).mpr hcode
    have hname : job.token = token := (hs.accounted id p hp).named _ _ (locate_eq hfound).1
    have hkept : (job.settle (confirmedCode query)).token = token := hname
    simp [success, CloudPrntServer.confirm, hp, let_in hknown, Printer.confirm, hfound, hopen,
      hdone, hkept]

/-! ### The log -/

/-- The log only grows. -/
theorem Log.Served.next (h : l.Served id token) (a : Request) : (l.next a).Served id token := by
  obtain ⟨bytes, hsub, hserved⟩ := h
  exact ⟨bytes, List.mem_append_right _ hsub, List.mem_append_right _ hserved⟩

/-- What the log knows in every state: a waiting job has the bytes it was submitted with, only
submitted bytes are served, under the jobs that were asked for, and the jobs recorded as printed are
those that were confirmed so. -/
structure Consistent (l : Log) : Prop where
  sound : Sound l.server
  waiting : ∀ id p token job, l.server.find id = some p → p.jobs token = some job →
    job.confirmed = false → (id, token, job.bytes) ∈ l.submitted
  served : ∀ x ∈ l.served, x ∈ l.submitted
  asked : ∀ id token, (id, token) ∈ l.asked ↔ ∃ bytes, (id, token, bytes) ∈ l.served
  recorded : ∀ id p token job, l.server.find id = some p → p.jobs token = some job →
    job.result.outcome = .done → (id, token) ∈ l.succeeded

theorem Consistent.served_of_asked (h : Consistent l) (hasked : (id, token) ∈ l.asked) :
    l.Served id token := by
  obtain ⟨bytes, hserved⟩ := (h.asked id token).mp hasked
  exact ⟨bytes, h.served _ hserved, hserved⟩

/-- The successes of the log decide whether all is delivered. -/
theorem Consistent.all_delivered (h : Consistent l) (hall : ∀ x ∈ l.succeeded, l.Served x.1 x.2) :
    Delivered l where
  confirmed := hall
  recorded id p token job hp hj hdone := hall _ (h.recorded id p token job hp hj hdone)

/-- A job in the table after a request waits there with the bytes it has. -/
theorem Consistent.waiting_next (h : Consistent l) (hq : (l.server.next a).find id = some q)
    (hj : q.jobs token = some job) (hopen : job.confirmed = false) :
    (id, token, job.bytes) ∈ (l.next a).submitted := by
  rcases find_next_cases h.sound hq with ⟨p, hp, hb⟩ | ⟨-, spec, rfl, rfl⟩
  swap
  · cases hj
  have hkept : p.jobs token = some job → (id, token, job.bytes) ∈ (l.next a).submitted :=
    fun hold => List.mem_append_right _ (h.waiting id p token job hp hold hopen)
  rcases hb with books | @⟨requested, bytes, bits, types, given, room, s', accepted⟩ |
    @⟨query, key, old, found, opened, type, answered⟩ | @⟨query, key, old, found, opened, known⟩
  · exact hkept (books.jobs ▸ hj)
  · unfold Printer.enqueue at hj
    dsimp only at hj
    split_ifs at hj with hold
    · exact hkept hj
    · rw [Function.update_apply] at hj
      split_ifs at hj with ht
      · obtain rfl := Option.some.inj hj
        rw [ht]
        refine List.mem_append_left _ ?_
        simp only [submission, accepted]
        exact List.mem_singleton_self _
      · exact hkept hj
  · change Function.update p.jobs key _ token = some job at hj
    rw [Function.update_apply] at hj
    split_ifs at hj with ht
    · obtain rfl := Option.some.inj hj
      rw [ht]
      exact List.mem_append_right _ (h.waiting id p key old hp (locate_eq found).1 opened)
    · exact hkept hj
  · rcases retire_some hj with ⟨rfl, rfl⟩ | ⟨-, hold⟩
    · cases hopen
    · exact hkept hold

/-- A job that is recorded as printed after a request was confirmed so. -/
theorem Consistent.recorded_next (h : Consistent l) (hq : (l.server.next a).find id = some q)
    (hj : q.jobs token = some job) (hdone : job.result.outcome = .done) :
    (id, token) ∈ (l.next a).succeeded := by
  rcases find_next_cases h.sound hq with ⟨p, hp, hb⟩ | ⟨-, spec, rfl, rfl⟩
  swap
  · cases hj
  have hkept : ∀ old, p.jobs token = some old → old.result.outcome = .done →
      (id, token) ∈ (l.next a).succeeded :=
    fun old hold hdone => List.mem_append_right _ (h.recorded id p token old hp hold hdone)
  rcases hb with books | @⟨requested, bytes, bits, types, given, room, s', accepted⟩ |
    @⟨query, key, old, found, opened, type, answered⟩ | @⟨query, key, old, found, opened, known⟩
  · exact hkept job (books.jobs ▸ hj) hdone
  · unfold Printer.enqueue at hj
    dsimp only at hj
    split_ifs at hj with hold
    · exact hkept job hj hdone
    · rw [Function.update_apply] at hj
      split_ifs at hj with ht
      · obtain rfl := Option.some.inj hj
        cases hdone
      · exact hkept job hj hdone
  · change Function.update p.jobs key _ token = some job at hj
    rw [Function.update_apply] at hj
    split_ifs at hj with ht
    · obtain rfl := Option.some.inj hj
      rw [ht] at hkept ⊢
      exact hkept old (locate_eq found).1 hdone
    · exact hkept job hj hdone
  · rcases retire_some hj with ⟨rfl, rfl⟩ | ⟨-, hold⟩
    · have hcode := (outcome_settle old _).mp hdone
      have hsuccess := (success_iff h.sound).mpr ⟨rfl, hcode, p, old, hp, known, found, opened⟩
      exact List.mem_append_left _ (Option.mem_toList.mpr hsuccess)
    · exact hkept job hold hdone

theorem consistent_empty : Consistent {} where
  sound := sound_empty
  waiting id p token job hp := by cases hp
  served x hx := by cases hx
  asked id token := by simp
  recorded id p token job hp := by cases hp

theorem delivered_empty : Delivered {} :=
  consistent_empty.all_delivered fun _ hx => absurd hx List.not_mem_nil

theorem Consistent.next (h : Consistent l) (a : Request) : Consistent (l.next a) where
  sound := h.sound.next a
  waiting id q token job hq hj hopen := h.waiting_next hq hj hopen
  served := by
    rintro ⟨id, token, bytes⟩ hx
    rcases List.mem_append.mp hx with hnew | hold
    · obtain ⟨hasks, p, job, hp, hj, rfl⟩ := mem_download.mp hnew
      obtain ⟨p', job', hp', hj', hopen⟩ := recorded_of_asks hasks
      obtain rfl := Option.some.inj (hp.symm.trans hp')
      obtain rfl := Option.some.inj (hj.symm.trans hj')
      exact List.mem_append_right _ (h.waiting id p token job hp hj hopen)
    · exact List.mem_append_right _ (h.served _ hold)
  asked id token := by
    simp only [Log.next, List.mem_append, Option.mem_toList, exists_or]
    refine or_congr ?_ (h.asked id token)
    constructor
    · intro hasks
      obtain ⟨p, job, hp, hj, -⟩ := recorded_of_asks hasks
      exact ⟨job.bytes, mem_download.mpr ⟨hasks, p, job, hp, hj, rfl⟩⟩
    · rintro ⟨bytes, hserved⟩
      exact (mem_download.mp hserved).1
  recorded id q token job hq hj hdone := h.recorded_next hq hj hdone

/-- What one request decides: the successes it adds are delivered just when it meets the
condition. -/
theorem delivered_next_iff (h : Consistent l) (hall : Delivered l) (a : Request) :
    Delivered (l.next a) ↔ Asked a l := by
  constructor
  · intro hd
    rcases a with spec | ⟨id, mediaTypes, bytes, bits⟩ | ⟨id, body⟩ | ⟨id, query⟩ | ⟨id, query⟩
    · trivial
    · trivial
    · trivial
    · trivial
    intro hcode p hp hknown found hfound hopen
    have hsuccess := (success_iff h.sound).mpr ⟨rfl, hcode, p, found.2, hp, hknown, hfound, hopen⟩
    have hmem : (id, found.1) ∈ (l.next (.confirm id query)).succeeded :=
      List.mem_append_left _ (Option.mem_toList.mpr hsuccess)
    obtain ⟨bytes, -, hserved⟩ := hd.confirmed _ hmem
    exact (h.asked id found.1).mpr ⟨bytes, hserved⟩
  · intro hasked
    refine (h.next a).all_delivered fun x hx => ?_
    rcases List.mem_append.mp hx with hnew | hold
    swap
    · exact (hall.confirmed x hold).next a
    obtain ⟨id', token⟩ := x
    have hsuccess := Option.mem_toList.mp hnew
    rcases a with spec | ⟨id, mediaTypes, bytes, bits⟩ | ⟨id, body⟩ | ⟨id, query⟩ | ⟨id, query⟩
    · cases hsuccess
    · cases hsuccess
    · cases hsuccess
    · cases hsuccess
    obtain ⟨rfl, hcode, p, job, hp, hknown, hfound, hopen⟩ := (success_iff h.sound).mp hsuccess
    have hserved := h.served_of_asked (hasked hcode p hp hknown _ hfound hopen)
    exact hserved.next _

/-- **A recorded success means that the bytes were served**, in every state of a run, just when its
confirmations with code 200 come after a download that asked for the job they find. -/
theorem success_means_served (requests : List Request) :
    Along logged (fun _ _ l => Delivered l) requests {} ↔
      Along logged (fun a l _ => Asked a l) requests {} := by
  refine along_congr (I := fun l => Consistent l ∧ Delivered l) (fun a l l' hl hstep hd => ?_)
    (fun a l l' hl hstep => ?_) requests {} ⟨consistent_empty, delivered_empty⟩
  · obtain rfl := Option.some.inj hstep
    exact ⟨hl.1.next a, hd⟩
  · obtain rfl := Option.some.inj hstep
    exact delivered_next_iff hl.1 hl.2 a

/-- One receipt: submitted, downloaded, and confirmed without a token. -/
def oneReceipt : List Request :=
  [.addPrinter { id := str "bar" }, .submit (str "bar") [] (str "receipt") 7,
    .fetchJob (str "bar") [], .confirm (str "bar") (str "code=200%20OK")]

example : Along logged (fun a l _ => Asked a l) oneReceipt {} := by
  refine ⟨trivial, trivial, trivial, fun _ p hp _ found hfound _ => ?_, trivial⟩
  obtain rfl := Option.some.inj hp
  obtain rfl := Option.some.inj hfound
  exact List.mem_cons_self

/-- Two receipts, the first downloaded; the confirmation without a token is sent again. -/
def repeatedDelete : List Request :=
  [.addPrinter { id := str "bar" }, .submit (str "bar") [] (str "first") 7,
    .submit (str "bar") [] (str "second") 9, .fetchJob (str "bar") [],
    .confirm (str "bar") (str "code=200%20OK"),
    .confirm (str "bar") (str "code=200%20OK&retry=1")]

/-- The repeated confirmation is taken for one of the next receipt. -/
theorem repeated_delete_succeeds :
    ¬ ∀ requests, Along logged (fun _ _ l => Delivered l) requests {} := by
  intro hall
  obtain ⟨-, -, -, -, -, hlast, -⟩ := hall repeatedDelete
  obtain ⟨bytes, -, hserved⟩ := hlast.confirmed (str "bar", nextToken 9 2) List.mem_cons_self
  have hone : (str "bar", nextToken 9 2, bytes) = (str "bar", nextToken 7 1, str "first") :=
    List.mem_singleton.mp hserved
  exact absurd (nextToken_inj (congrArg (fun x => x.2.1) hone)) (by decide)

end PrinterDriver.Agent.Delivery
