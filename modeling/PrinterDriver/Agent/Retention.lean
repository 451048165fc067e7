import PrinterDriver.Agent.CloudPrntRuns

/-! # A job is retained until it is confirmed

Over any run of requests, on routes that keep a history: a job stays in the queue, with its bytes,
until a confirmation reaches it, the poll offers the same head until then, and what a confirmation
recorded is never written again (`lifecycle`). -/

namespace PrinterDriver.Agent.Retention

open PrinterDriver.Core.Types PrinterDriver.Lib.Runs
open PrinterDriver.Agent.Http PrinterDriver.Agent.CloudPrnt PrinterDriver.Agent.CloudPrntRuns

variable {p q r : Printer} {s s' : CloudPrntServer} {id : Bytes} {a : Request}

/-- Every route keeps at least one confirmed job. -/
def Retains : Request → CloudPrntServer → Prop
  | .addPrinter spec, _ => 1 ≤ spec.maxHistory
  | _, _ => True

/-- The job waits in the queue, unconfirmed and with these bytes. -/
def Waits (p : Printer) (t bytes : Bytes) : Prop :=
  t ∈ p.pending ∧ ∃ job, p.jobs t = some job ∧ job.confirmed = false ∧ job.bytes = bytes

/-- What later requests may have made of a route: an unconfirmed job still waits with its bytes or
is confirmed; a confirmed job has the same record or is forgotten; a head that waits is the head. -/
structure Later (p q : Printer) : Prop where
  spec : q.spec = p.spec
  waiting : ∀ t job, p.jobs t = some job → job.confirmed = false →
    Waits q t job.bytes ∨ t ∉ q.pending ∧ ∀ job', q.jobs t = some job' → job'.confirmed = true
  outcome : ∀ t job, p.jobs t = some job → job.confirmed = true →
    q.jobs t = some job ∨ q.jobs t = none
  head : ∀ t, p.pending.head? = some t → t ∈ q.pending → q.pending.head? = some t

theorem later_refl (h : Accounted p) : Later p p where
  spec := rfl
  waiting _ job hj hopen := .inl ⟨h.pending_of_open hj hopen, job, hj, hopen, rfl⟩
  outcome _ _ hj _ := .inl hj
  head _ ht _ := ht

theorem enqueue_of_ne {job : Job} {t : Bytes} (hne : t ≠ job.token) :
    (p.enqueue job).jobs t = p.jobs t := by
  unfold Printer.enqueue
  dsimp only
  split_ifs
  · rfl
  · exact Function.update_of_ne hne ..

theorem mem_enqueue {job : Job} {t : Bytes} (hne : t ≠ job.token) :
    t ∈ (p.enqueue job).pending ↔ t ∈ p.pending := by
  unfold Printer.enqueue
  simp [hne]

/-- A token that was issued before is not the token of a new job. -/
theorem ne_of_issued {t : Bytes} {bits : UInt64} (h : Issued s.sequence t) :
    t ≠ nextToken bits (s.sequence + 1) := by
  rintro rfl
  exact not_issued _ _ h

/-- A waiting job goes on waiting, or it is the one that is confirmed. -/
theorem Waits.booked {t bytes : Bytes} (h : Waits q t bytes) (hq : Accounted q)
    (hissued : Issued s.sequence t) (hb : Booked s id q a r) :
    Waits r t bytes ∨ t ∉ r.pending ∧ ∀ job', r.jobs t = some job' → job'.confirmed = true := by
  obtain ⟨hpending, job, hjob, hopen, hbytes⟩ := h
  rcases hb with books | ⟨types, given, room, accepted⟩ | ⟨found, opened⟩ | @⟨-, key, -, found, opened⟩
  · left
    unfold Waits
    rw [books.pending, books.jobs]
    exact ⟨hpending, job, hjob, hopen, hbytes⟩
  · left
    refine ⟨(mem_enqueue (ne_of_issued hissued)).mpr hpending, job, ?_, hopen, hbytes⟩
    rw [enqueue_of_ne (ne_of_issued hissued)]
    exact hjob
  · left
    refine ⟨hpending, ?_⟩
    change ∃ job, Function.update q.jobs _ _ t = some job ∧ _
    rw [Function.update_apply]
    split_ifs with he
    · rw [he, (locate_eq found).1] at hjob
      obtain rfl := Option.some.inj hjob
      exact ⟨_, rfl, opened, hbytes⟩
    · exact ⟨job, hjob, hopen, hbytes⟩
  · by_cases he : t = key
    · subst he
      refine .inr ⟨hq.queuedOnce.not_mem_erase, fun job' hj' => ?_⟩
      rcases retire_some hj' with ⟨-, rfl⟩ | ⟨hne, -⟩
      · rfl
      · exact absurd rfl hne
    · refine .inl ⟨(hq.queuedOnce.mem_erase_iff).mpr ⟨he, hpending⟩, job, ?_, hopen, hbytes⟩
      rw [(retire_other he).resolve_right fun hr => hq.disjoint hpending hr.1]
      exact hjob

/-- A job that no longer waits never waits again. -/
theorem ended_booked {t : Bytes} (hnot : t ∉ q.pending)
    (hdone : ∀ job', q.jobs t = some job' → job'.confirmed = true) (hq : Accounted q)
    (hissued : Issued s.sequence t) (hb : Booked s id q a r) :
    t ∉ r.pending ∧ ∀ job', r.jobs t = some job' → job'.confirmed = true := by
  have hkey : ∀ {key : Bytes} {job : Job}, q.jobs key = some job → job.confirmed = false →
      t ≠ key := by
    rintro key job hjob hopen rfl
    exact hnot (hq.pending_of_open hjob hopen)
  rcases hb with books | ⟨types, given, room, accepted⟩ | ⟨found, opened⟩ | ⟨found, opened⟩
  · rw [books.pending, books.jobs]
    exact ⟨hnot, hdone⟩
  · rw [mem_enqueue (ne_of_issued hissued), enqueue_of_ne (ne_of_issued hissued)]
    exact ⟨hnot, hdone⟩
  · refine ⟨hnot, fun job' hj' => ?_⟩
    change Function.update q.jobs _ _ t = some job' at hj'
    rw [Function.update_of_ne (hkey (locate_eq found).1 opened)] at hj'
    exact hdone job' hj'
  · refine ⟨fun ht => hnot (List.mem_of_mem_erase ht), fun job' hj' => ?_⟩
    rcases retire_some hj' with ⟨rfl, -⟩ | ⟨-, hj'⟩
    · exact absurd rfl (hkey (locate_eq found).1 opened)
    · exact hdone job' hj'

/-- What is recorded of a confirmed job is not written again. -/
theorem outcome_booked {t : Bytes} {job : Job} (hconf : job.confirmed = true)
    (h : q.jobs t = some job ∨ q.jobs t = none) (hissued : Issued s.sequence t)
    (hb : Booked s id q a r) : r.jobs t = some job ∨ r.jobs t = none := by
  have hkey : ∀ {key : Bytes} {job' : Job}, q.jobs key = some job' → job'.confirmed = false →
      t ≠ key := by
    rintro key job' hjob' hopen rfl
    rcases h with h | h
    · obtain rfl := Option.some.inj (h.symm.trans hjob')
      exact absurd (hconf.symm.trans hopen) (by decide)
    · cases h.symm.trans hjob'
  rcases hb with books | ⟨types, given, room, accepted⟩ | ⟨found, opened⟩ | ⟨found, opened⟩
  · rw [books.jobs]
    exact h
  · rw [enqueue_of_ne (ne_of_issued hissued)]
    exact h
  · change Function.update q.jobs _ _ t = some job ∨ Function.update q.jobs _ _ t = none
    rw [Function.update_of_ne (hkey (locate_eq found).1 opened)]
    exact h
  · rcases retire_other (p := q) (hkey (locate_eq found).1 opened) with he | ⟨-, he⟩
    · rw [he]
      exact h
    · exact .inr he

/-- The head of the queue stays the head while it waits. -/
theorem head_booked {t : Bytes} (h : t ∈ q.pending → q.pending.head? = some t) (hq : Accounted q)
    (hissued : Issued s.sequence t) (hb : Booked s id q a r) (ht : t ∈ r.pending) :
    r.pending.head? = some t := by
  rcases hb with books | ⟨types, given, room, accepted⟩ | ⟨found, opened⟩ | ⟨found, opened⟩
  · rw [books.pending] at ht ⊢
    exact h ht
  · have hold := (mem_enqueue (ne_of_issued hissued)).mp ht
    have hhead := h hold
    unfold Printer.enqueue
    rw [List.head?_append, hhead]
    rfl
  · exact h ht
  · obtain ⟨hne, hold⟩ := (hq.queuedOnce.mem_erase_iff).mp ht
    have hhead := h hold
    obtain ⟨rest, hrest⟩ := List.head?_eq_some_iff.mp hhead
    change (q.pending.erase _).head? = some t
    rw [hrest, List.erase_cons_tail (by simpa using hne)]
    rfl

theorem Later.booked (h : Later p q) (hp : Accounted p) (hq : Accounted q)
    (hissued : ∀ t, (p.jobs t).isSome = true → Issued s.sequence t) (hb : Booked s id q a r) :
    Later p r where
  spec := by
    refine Eq.trans ?_ h.spec
    rcases hb with books | _ | _ | _
    · exact books.spec
    · rfl
    · rfl
    · rfl
  waiting t job hj hopen := by
    have hi := hissued t (by rw [hj]; rfl)
    rcases h.waiting t job hj hopen with hw | ⟨hnot, hdone⟩
    · exact hw.booked hq hi hb
    · exact .inr (ended_booked hnot hdone hq hi hb)
  outcome t job hj hconf :=
    outcome_booked hconf (h.outcome t job hj hconf) (hissued t (by rw [hj]; rfl)) hb
  head t ht := by
    obtain ⟨job, hj, -⟩ := hp.waiting t (List.mem_of_mem_head? ht)
    exact head_booked (h.head t ht) hq (hissued t (by rw [hj]; rfl)) hb

/-- A run of requests keeps every route, and what it makes of it. -/
theorem later_of_reach {G : Request → CloudPrntServer → Prop} (hs : Sound s)
    (hp : s.find id = some p) (h : Reach step G s s') :
    ∃ q, s'.find id = some q ∧ Later p q := by
  have hboth : Sound s' ∧ s.sequence ≤ s'.sequence ∧ ∃ q, s'.find id = some q ∧ Later p q := by
    refine h.invariant (I := fun t => Sound t ∧ s.sequence ≤ t.sequence ∧
      ∃ q, t.find id = some q ∧ Later p q)
      ⟨hs, le_rfl, p, hp, later_refl (hs.accounted id p hp)⟩ fun a t t' ht _ hstep => ?_
    obtain rfl := Option.some.inj hstep
    obtain ⟨hsound, hle, q, hq, hlater⟩ := ht
    obtain ⟨r, hr, hb⟩ := next_find (hsound.accounted id q hq) hq a
    have hissued : ∀ u, (p.jobs u).isSome = true → Issued t.sequence u :=
      fun u hu => (hs.issued id p u hp hu).mono hle
    exact ⟨hsound.next a, hle.trans (sequence_le_next t a), r, hr,
      hlater.booked (hs.accounted id p hp) (hsound.accounted id q hq) hissued hb⟩
  exact hboth.2.2

/-- A job leaves the queue by a confirmation that finds it, and what is recorded then is what the
confirmation said. -/
theorem left_by_confirm (hp : Accounted p) (hfind : s.find id = some p)
    (hkeeps : 1 ≤ p.spec.maxHistory) (hissued : ∀ t ∈ p.pending, Issued s.sequence t)
    {t : Bytes} (ht : t ∈ p.pending) (hq : (s.next a).find id = some q) (hleft : t ∉ q.pending) :
    ∃ query job, a = .confirm id query ∧
      p.locate (queryValue query (str "token")) = some (t, job) ∧
      q.jobs t = some (job.settle (confirmedCode query)) := by
  obtain ⟨q', hq', hb⟩ := next_find hp hfind a
  obtain rfl := Option.some.inj (hq.symm.trans hq')
  rcases hb with books | ⟨types, given, room, accepted⟩ | ⟨found, opened⟩ |
    @⟨query, key, job, found, opened⟩
  · rw [books.pending] at hleft
    exact absurd ht hleft
  · exact absurd ((mem_enqueue (ne_of_issued (hissued t ht))).mpr ht) hleft
  · exact absurd ht hleft
  · have he : t = key := by
      by_contra hne
      exact hleft ((hp.queuedOnce.mem_erase_iff).mpr ⟨hne, ht⟩)
    subst he
    exact ⟨query, job, rfl, found, retire_self hp (locate_eq found).1 opened _ hkeeps⟩

/-- The bytes of an accepted submission wait under its token, which no job of the route had. -/
theorem submitted_waits (hs : Sound s) {mediaTypes : List Bytes} {bytes token : Bytes}
    {bits : UInt64} (h : s.submit id mediaTypes bytes bits = .ok (token, s')) :
    ∃ p q, s.find id = some p ∧ p.jobs token = none ∧ s'.find id = some q ∧
      Waits q token bytes := by
  obtain ⟨p, types, hp, -, -, rfl, rfl⟩ := submit_eq_ok h
  have hnew : p.jobs (nextToken bits (s.sequence + 1)) = none := by
    rw [← Option.not_isSome_iff_eq_none]
    exact fun hsome => not_issued _ _ (hs.issued id p _ hp hsome)
  refine ⟨p, _, hp, hnew, find_set_self _, ?_,
    .queued (nextToken bits (s.sequence + 1)) types bytes, ?_, rfl, rfl⟩
  · exact List.mem_append_right _ (List.mem_singleton_self _)
  · unfold Printer.enqueue Job.queued
    rw [hnew]
    exact Function.update_self ..

/-- The poll of the route's printer is offered the head of the queue. -/
theorem poll_offers_head (hs : Sound s) (hp : s.find id = some p) {doc : PollDocument}
    (hmac : (p.identityMatches (normaliseMac doc.printerMAC) true).1 = true) :
    ∃ mediaTypes, s.answer (.poll id (.ok doc)) = some (.offer mediaTypes p.pending.head?) := by
  have hacc := hs.accounted id p hp
  rcases poll_cases s id (.ok doc) with ⟨⟨_, he⟩ | hnone, -⟩ | ⟨p', doc', hdoc, hp', hm⟩
  · cases he
  · cases hnone.symm.trans hp
  obtain rfl := Except.ok.inj hdoc
  obtain rfl := Option.some.inj (hp.symm.trans hp')
  rcases hm with ⟨hfalse, -⟩ | ⟨-, q, rfl, events, he⟩
  · rw [hmac] at hfalse
    cases hfalse
  have hbooks := polled_books hacc doc
  change ∃ mediaTypes, some (s.poll id (.ok doc)).1.1 = _
  rw [he]
  dsimp only
  unfold Printer.offer Printer.offered
  rw [hbooks.pending, hbooks.jobs]
  rcases hl : p.pending.head? with _ | t
  · exact ⟨_, rfl⟩
  · obtain ⟨job, hj, -⟩ := hacc.waiting t (List.mem_of_mem_head? hl)
    refine ⟨job.mediaTypes, ?_⟩
    rw [Option.bind_some, hj, ← hacc.named t job hj]

/-- History is kept on every route of a run. -/
theorem retains_of_reach (h : Reach step Retains {} s) :
    ∀ id p, s.find id = some p → 1 ≤ p.spec.maxHistory := by
  have hboth : Sound s ∧ ∀ id p, s.find id = some p → 1 ≤ p.spec.maxHistory := by
    refine h.invariant (I := fun t => Sound t ∧ ∀ id p, t.find id = some p →
      1 ≤ p.spec.maxHistory) ⟨sound_empty, fun id p hp => by cases hp⟩ fun a t t' ht hg hstep => ?_
    obtain rfl := Option.some.inj hstep
    refine ⟨ht.1.next a, fun id q hq => ?_⟩
    rcases find_next_cases ht.1 hq with ⟨p, hp, hb⟩ | ⟨-, spec, rfl, rfl⟩
    · have hacc := ht.1.accounted id p hp
      have hlater := (later_refl hacc).booked hacc hacc (fun u => ht.1.issued id p u hp) hb
      rw [hlater.spec]
      exact ht.2 id p hp
    · exact hg
  exact hboth.2

/-- **Jobs are retained until they are confirmed.** In every state of a run, for every route: the
queue, the history and the table agree; a poll of the route's printer is offered the head of the
queue; a submission waits with its bytes under a token of its own; a job leaves the queue only by a
confirmation that finds it. And whatever requests follow, what waits keeps its bytes until it is
confirmed, what was recorded of a confirmed job is not written again, and the head stays the head
while it waits. -/
theorem lifecycle (h : Reach step Retains {} s) (hp : s.find id = some p) :
    Accounted p ∧
      (∀ doc, (p.identityMatches (normaliseMac doc.printerMAC) true).1 = true →
        ∃ mediaTypes, s.answer (.poll id (.ok doc)) =
          some (.offer mediaTypes p.pending.head?)) ∧
      (∀ mediaTypes bytes bits token s', s.submit id mediaTypes bytes bits = .ok (token, s') →
        p.jobs token = none ∧ ∃ q, s'.find id = some q ∧ Waits q token bytes) ∧
      (∀ a t, t ∈ p.pending → ∃ q, (s.next a).find id = some q ∧ (t ∈ q.pending ∨
        ∃ query job, a = .confirm id query ∧
          p.locate (queryValue query (str "token")) = some (t, job) ∧
          q.jobs t = some (job.settle (confirmedCode query)))) ∧
      ∀ s', Reach step Retains s s' → ∃ q, s'.find id = some q ∧ Later p q := by
  have hs : Sound s := sound_of_reach sound_empty h
  have hacc : Accounted p := hs.accounted id p hp
  have hissued : ∀ t ∈ p.pending, Issued s.sequence t := fun t ht =>
    hs.issued id p t hp ((hacc.isSome_iff t).mpr (.inl ht))
  refine ⟨hacc, fun doc hmac => poll_offers_head hs hp hmac, ?_, ?_,
    fun s' hrun => later_of_reach hs hp hrun⟩
  · intro mediaTypes bytes bits token s' hsubmit
    obtain ⟨p', q, hp', hnew, hq, hwaits⟩ := submitted_waits hs hsubmit
    obtain rfl := Option.some.inj (hp.symm.trans hp')
    exact ⟨hnew, q, hq, hwaits⟩
  · intro a t ht
    obtain ⟨q, hq, -⟩ := next_find hacc hp a
    refine ⟨q, hq, ?_⟩
    by_cases hstays : t ∈ q.pending
    · exact .inl hstays
    · exact .inr (left_by_confirm hacc hp (retains_of_reach h id p hp) hissued ht hq hstays)

/-- The requests of a server with one route, to its first submission. -/
def firstJob : CloudPrntServer :=
  (({} : CloudPrntServer).next (.addPrinter { id := str "bar", maxHistory := 1 })).next
    (.submit (str "bar") [] (str "receipt") 7)

theorem lifecycle_firstJob :
    ∃ p, firstJob.find (str "bar") = some p ∧ p.pending.length = 1 ∧ Accounted p := by
  have hrun : Reach step Retains {} firstJob :=
    (Reach.init.step (.addPrinter { id := str "bar", maxHistory := 1 })
      (show 1 ≤ 1 from le_rfl) rfl).step (.submit (str "bar") [] (str "receipt") 7) trivial rfl
  have hfind : firstJob.find (str "bar") = some _ := rfl
  exact ⟨_, hfind, rfl, (lifecycle hrun hfind).1⟩

end PrinterDriver.Agent.Retention
