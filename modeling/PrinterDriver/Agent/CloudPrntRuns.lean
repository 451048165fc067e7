import PrinterDriver.Agent.CloudPrnt
import PrinterDriver.Lib.Runs
import Mathlib.Data.List.Nodup

/-! # What a request does to a route

A request touches the books of one route at most (`next_find_of_ne`), and does one of four things to
them (`Booked`): it leaves them, queues a new job, counts a download, or confirms a job. The queue,
the history and the table of every route agree in every state of a run (`sound_of_reached`). -/

namespace PrinterDriver.Agent.CloudPrntRuns

open PrinterDriver.Core.Types PrinterDriver.Lib.Runs
open PrinterDriver.Agent.Http PrinterDriver.Agent.CloudPrnt
open PrinterDriver.Core.Journal (decimal decimal_inj)

/-! ### Tokens -/

theorem hexDigits_length (bits : UInt64) : (hexDigits bits).length = 16 := by
  unfold hexDigits
  rw [List.length_map, List.length_range]

/-- The counter tells tokens apart, whatever the random bits. -/
theorem nextToken_inj {bits bits' : UInt64} {m n : ℕ}
    (h : nextToken bits m = nextToken bits' n) : m = n := by
  unfold nextToken at h
  have hlen : (str "cp-" ++ hexDigits bits ++ str "-").length =
      (str "cp-" ++ hexDigits bits' ++ str "-").length := by
    simp only [List.length_append, hexDigits_length]
  exact decimal_inj (List.append_inj h hlen).2

theorem nextToken_ne_nil (bits : UInt64) (n : ℕ) : nextToken bits n ≠ [] := by
  intro h
  have hlen := congrArg List.length h
  unfold nextToken at hlen
  rw [List.length_append, List.length_append, List.length_append, hexDigits_length] at hlen
  simp at hlen

/-- One of the first `n` tokens. -/
def Issued (n : ℕ) (token : Bytes) : Prop := ∃ bits, ∃ k ≤ n, token = nextToken bits k

theorem Issued.mono {m n : ℕ} {token : Bytes} (h : Issued m token) (hle : m ≤ n) :
    Issued n token := by
  obtain ⟨bits, k, hk, rfl⟩ := h
  exact ⟨bits, k, hk.trans hle, rfl⟩

theorem not_issued (bits : UInt64) (n : ℕ) : ¬ Issued n (nextToken bits (n + 1)) := by
  rintro ⟨bits', k, hk, he⟩
  have := nextToken_inj he
  omega

/-! ### The eviction -/

theorem evict_fst (n : ℕ) : ∀ (history : List Bytes) (jobs : Bytes → Option Job),
    (evict n history jobs).1 = history.drop (history.length - n)
  | [], _ => by simp [evict]
  | t :: ts, jobs => by
    unfold evict
    split_ifs with h
    · have hlen : (t :: ts).length - n = (ts.length - n) + 1 := by
        rw [List.length_cons] at h ⊢
        omega
      rw [evict_fst n ts, hlen, List.drop_succ_cons]
    · rw [Nat.sub_eq_zero_of_le (by omega), List.drop_zero]

theorem evict_snd (n : ℕ) : ∀ (history : List Bytes) (jobs : Bytes → Option Job) (t : Bytes),
    (evict n history jobs).2 t =
      if t ∈ history.take (history.length - n) then none else jobs t
  | [], _, _ => by simp [evict]
  | u :: us, jobs, t => by
    unfold evict
    by_cases h : n < (u :: us).length
    · have hlen : (u :: us).length - n = (us.length - n) + 1 := by
        rw [List.length_cons] at h ⊢
        omega
      rw [if_pos h, evict_snd n us, hlen, List.take_succ_cons]
      by_cases ht : t = u
      · subst ht
        simp
      · simp [ht]
    · rw [if_neg h, Nat.sub_eq_zero_of_le (by omega), List.take_zero]
      simp

/-! ### The books of a route -/

variable {p q : Printer} {s s' : CloudPrntServer} {id token key : Bytes} {job : Job}

/-- The queue, the history and the table of a route agree. -/
structure Accounted (p : Printer) : Prop where
  waiting : ∀ t ∈ p.pending, ∃ job, p.jobs t = some job ∧ job.confirmed = false
  retired : ∀ t ∈ p.history, ∃ job, p.jobs t = some job ∧ job.confirmed = true
  listed : ∀ t job, p.jobs t = some job →
    if job.confirmed then t ∈ p.history else t ∈ p.pending
  named : ∀ t job, p.jobs t = some job → job.token = t
  queuedOnce : p.pending.Nodup
  retiredOnce : p.history.Nodup
  bounded : p.history.length ≤ p.spec.maxHistory

/-- No job is both waiting and confirmed. -/
theorem Accounted.disjoint (h : Accounted p) {t : Bytes} (hp : t ∈ p.pending) :
    t ∉ p.history := by
  intro hh
  obtain ⟨job, hjob, hopen⟩ := h.waiting t hp
  obtain ⟨job', hjob', hdone⟩ := h.retired t hh
  rw [hjob] at hjob'
  obtain rfl := Option.some.inj hjob'
  rw [hopen] at hdone
  exact absurd hdone (by decide)

/-- The table holds the jobs of the queue and of the history, and no others. -/
theorem Accounted.isSome_iff (h : Accounted p) (t : Bytes) :
    (p.jobs t).isSome = true ↔ t ∈ p.pending ∨ t ∈ p.history := by
  constructor
  · intro ht
    obtain ⟨job, hjob⟩ := Option.isSome_iff_exists.mp ht
    have hlisted := h.listed t job hjob
    split_ifs at hlisted with hc
    · exact .inr hlisted
    · exact .inl hlisted
  · rintro (ht | ht)
    · obtain ⟨job, hjob, -⟩ := h.waiting t ht
      rw [hjob]
      rfl
    · obtain ⟨job, hjob, -⟩ := h.retired t ht
      rw [hjob]
      rfl

theorem Accounted.pending_of_open (h : Accounted p) {t : Bytes} (hjob : p.jobs t = some job)
    (hopen : job.confirmed = false) : t ∈ p.pending := by
  have hlisted := h.listed t job hjob
  rwa [hopen, if_neg (by decide)] at hlisted

/-- The same books: nothing a job depends on differs. -/
structure SameBooks (p q : Printer) : Prop where
  spec : q.spec = p.spec
  pending : q.pending = p.pending
  history : q.history = p.history
  jobs : q.jobs = p.jobs

theorem SameBooks.accounted (e : SameBooks p q) (h : Accounted p) : Accounted q where
  waiting := by rw [e.pending, e.jobs]; exact h.waiting
  retired := by rw [e.history, e.jobs]; exact h.retired
  listed := by rw [e.history, e.pending, e.jobs]; exact h.listed
  named := by rw [e.jobs]; exact h.named
  queuedOnce := by rw [e.pending]; exact h.queuedOnce
  retiredOnce := by rw [e.history]; exact h.retiredOnce
  bounded := by rw [e.history, e.spec]; exact h.bounded

theorem accounted_route (spec : CloudPrntSpec) : Accounted spec.route where
  waiting t ht := absurd ht List.not_mem_nil
  retired t ht := absurd ht List.not_mem_nil
  listed t job h := absurd h (by simp [CloudPrntSpec.route])
  named t job h := absurd h (by simp [CloudPrntSpec.route])
  queuedOnce := List.nodup_nil
  retiredOnce := List.nodup_nil
  bounded := Nat.zero_le _

/-- A new job is the last of the queue. -/
theorem Accounted.enqueue (h : Accounted p) (hnew : p.jobs job.token = none)
    (hopen : job.confirmed = false) : Accounted (p.enqueue job) := by
  have hjobs : (p.enqueue job).jobs = Function.update p.jobs job.token (some job) := by
    unfold Printer.enqueue
    rw [hnew]
    rfl
  have habsent : job.token ∉ p.pending ∧ job.token ∉ p.history := by
    have hn := mt (h.isSome_iff job.token).mpr (by simp [hnew])
    exact not_or.mp hn
  have hold : ∀ t, t ∈ p.pending ∨ t ∈ p.history → (p.enqueue job).jobs t = p.jobs t := by
    intro t ht
    rw [hjobs, Function.update_of_ne]
    rintro rfl
    exact ht.elim habsent.1 habsent.2
  refine ⟨fun t ht => ?_, fun t ht => ?_, fun t j hj => ?_, fun t j hj => ?_, ?_, h.retiredOnce,
    h.bounded⟩
  · rcases List.mem_append.mp ht with ht | ht
    · rw [hold t (.inl ht)]
      exact h.waiting t ht
    · rw [List.mem_singleton.mp ht, hjobs, Function.update_self]
      exact ⟨job, rfl, hopen⟩
  · rw [hold t (.inr ht)]
    exact h.retired t ht
  · rw [hjobs, Function.update_apply] at hj
    split_ifs at hj with ht
    · obtain rfl := Option.some.inj hj
      rw [hopen, if_neg (by decide), ht]
      exact List.mem_append_right _ (List.mem_singleton_self _)
    · have hlisted := h.listed t j hj
      split_ifs at hlisted ⊢ with hc
      · exact hlisted
      · exact List.mem_append_left _ hlisted
  · rw [hjobs, Function.update_apply] at hj
    split_ifs at hj with ht
    · obtain rfl := Option.some.inj hj
      exact ht.symm
    · exact h.named t j hj
  · refine List.nodup_append.mpr ⟨h.queuedOnce, List.nodup_singleton _, fun a ha b hb => ?_⟩
    rw [List.mem_singleton.mp hb]
    rintro rfl
    exact habsent.1 ha

/-- The record of a job changes, but not whether it is confirmed. -/
theorem Accounted.setJob (h : Accounted p) (hjob : p.jobs key = some job) {new : Job}
    (htoken : new.token = job.token) (hconf : new.confirmed = job.confirmed) :
    Accounted (p.setJob key new) := by
  have hsome : ∀ t j, (p.setJob key new).jobs t = some j →
      ∃ old, p.jobs t = some old ∧ j.token = old.token ∧ j.confirmed = old.confirmed := by
    intro t j hj
    change Function.update p.jobs key (some new) t = some j at hj
    rw [Function.update_apply] at hj
    split_ifs at hj with ht
    · obtain rfl := Option.some.inj hj
      exact ⟨job, ht ▸ hjob, htoken, hconf⟩
    · exact ⟨j, hj, rfl, rfl⟩
  have hback : ∀ t old, p.jobs t = some old →
      ∃ j, (p.setJob key new).jobs t = some j ∧ j.confirmed = old.confirmed := by
    intro t old hold
    change ∃ j, Function.update p.jobs key (some new) t = some j ∧ _
    rw [Function.update_apply]
    split_ifs with ht
    · rw [ht, hjob] at hold
      obtain rfl := Option.some.inj hold
      exact ⟨new, rfl, hconf⟩
    · exact ⟨old, hold, rfl⟩
  refine ⟨fun t ht => ?_, fun t ht => ?_, fun t j hj => ?_, fun t j hj => ?_, h.queuedOnce,
    h.retiredOnce, h.bounded⟩
  · obtain ⟨old, hold, hopen⟩ := h.waiting t ht
    obtain ⟨j, hj, hc⟩ := hback t old hold
    exact ⟨j, hj, hc.trans hopen⟩
  · obtain ⟨old, hold, hdone⟩ := h.retired t ht
    obtain ⟨j, hj, hc⟩ := hback t old hold
    exact ⟨j, hj, hc.trans hdone⟩
  · obtain ⟨old, hold, -, hc⟩ := hsome t j hj
    rw [hc]
    exact h.listed t old hold
  · obtain ⟨old, hold, htok, -⟩ := hsome t j hj
    exact htok.trans (h.named t old hold)

/-- A job in the table after a confirmation was there before, or is the confirmed one. -/
theorem retire_some {new : Job} {t : Bytes}
    (h : ((p.setJob key new).retire key).jobs t = some job) :
    t = key ∧ job = new ∨ t ≠ key ∧ p.jobs t = some job := by
  change (evict _ _ _).2 t = some job at h
  rw [evict_snd] at h
  split_ifs at h with htake
  change Function.update p.jobs key (some new) t = some job at h
  rw [Function.update_apply] at h
  split_ifs at h with he
  · exact .inl ⟨he, (Option.some.inj h).symm⟩
  · exact .inr ⟨he, h⟩

/-- A job other than the confirmed one keeps its record, or is forgotten. -/
theorem retire_other {new : Job} {t : Bytes} (hne : t ≠ key) :
    ((p.setJob key new).retire key).jobs t = p.jobs t ∨
      t ∈ p.history ∧ ((p.setJob key new).retire key).jobs t = none := by
  have hjobs : ((p.setJob key new).retire key).jobs t = if t ∈ (p.history ++ [key]).take
      ((p.history ++ [key]).length - p.spec.maxHistory) then none
      else Function.update p.jobs key (some new) t := evict_snd _ _ _ _
  rw [hjobs]
  split_ifs with htake
  · rcases List.mem_append.mp (List.mem_of_mem_take htake) with ht | ht
    · exact .inr ⟨ht, rfl⟩
    · exact absurd (List.mem_singleton.mp ht) hne
  · exact .inl (Function.update_of_ne hne ..)

/-- A confirmed job goes from the queue to the history, where the oldest make room for it. -/
theorem Accounted.retire (h : Accounted p) (hjob : p.jobs key = some job)
    (hopen : job.confirmed = false) {new : Job} (htoken : new.token = key)
    (hconf : new.confirmed = true) : Accounted ((p.setJob key new).retire key) := by
  have hpending : key ∈ p.pending := h.pending_of_open hjob hopen
  have habsent : key ∉ p.history := h.disjoint hpending
  have hall : (p.history ++ [key]).Nodup := List.nodup_append.mpr
    ⟨h.retiredOnce, List.nodup_singleton _, fun a ha b hb => by
      rw [List.mem_singleton.mp hb]
      rintro rfl
      exact habsent ha⟩
  generalize hk : (p.history ++ [key]).length - p.spec.maxHistory = k
  have hhist : ((p.setJob key new).retire key).history = (p.history ++ [key]).drop k := by
    rw [← hk]
    exact evict_fst _ _ _
  have hjobs : ∀ t, ((p.setJob key new).retire key).jobs t =
      if t ∈ (p.history ++ [key]).take k then none
      else Function.update p.jobs key (some new) t := by
    intro t
    rw [← hk]
    exact evict_snd _ _ _ _
  have hsplit : ∀ t ∈ p.history ++ [key],
      t ∈ (p.history ++ [key]).take k ∨ t ∈ (p.history ++ [key]).drop k := by
    intro t ht
    rwa [← List.mem_append, List.take_append_drop]
  have hdisjoint : ∀ t ∈ (p.history ++ [key]).drop k, t ∉ (p.history ++ [key]).take k := by
    intro t hd ht
    rw [← List.take_append_drop k (p.history ++ [key])] at hall
    exact (List.nodup_append.mp hall).2.2 t ht t hd rfl
  refine ⟨fun t ht => ?_, fun t ht => ?_, fun t j hj => ?_, fun t j hj => ?_,
    h.queuedOnce.erase key, ?_, ?_⟩
  · obtain ⟨hne, ht⟩ := (h.queuedOnce.mem_erase_iff).mp ht
    rw [(retire_other hne).resolve_right fun hr => h.disjoint ht hr.1]
    exact h.waiting t ht
  · rw [hhist] at ht
    rw [hjobs, if_neg (hdisjoint t ht), Function.update_apply]
    split_ifs with he
    · exact ⟨new, rfl, hconf⟩
    · rcases List.mem_append.mp (List.mem_of_mem_drop ht) with ht | ht
      · exact h.retired t ht
      · exact absurd (List.mem_singleton.mp ht) he
  · rw [hjobs] at hj
    split_ifs at hj with htake
    rw [Function.update_apply] at hj
    split_ifs at hj with he
    · obtain rfl := Option.some.inj hj
      rw [if_pos hconf, hhist]
      exact (hsplit t (he ▸ List.mem_append_right _ (List.mem_singleton_self _))).resolve_left htake
    · have hlisted := h.listed t j hj
      split_ifs at hlisted ⊢ with hc
      · rw [hhist]
        exact (hsplit t (List.mem_append_left _ hlisted)).resolve_left htake
      · exact (h.queuedOnce.mem_erase_iff).mpr ⟨he, hlisted⟩
  · rcases retire_some hj with ⟨rfl, rfl⟩ | ⟨-, hj⟩
    · exact htoken
    · exact h.named t j hj
  · rw [hhist]
    exact hall.sublist (List.drop_sublist _ _)
  · rw [hhist, List.length_drop]
    change _ ≤ p.spec.maxHistory
    omega

/-- The confirmed job is still recorded, unless no history is kept at all. -/
theorem retire_self (h : Accounted p) (hjob : p.jobs key = some job)
    (hopen : job.confirmed = false) (new : Job) (hkeeps : 1 ≤ p.spec.maxHistory) :
    ((p.setJob key new).retire key).jobs key = some new := by
  have habsent : key ∉ p.history := h.disjoint (h.pending_of_open hjob hopen)
  have hshort : (p.history ++ [key]).length - p.spec.maxHistory ≤ p.history.length := by
    rw [List.length_append, List.length_singleton]
    omega
  have hnot : key ∉ (p.history ++ [key]).take
      ((p.history ++ [key]).length - p.spec.maxHistory) := by
    rw [List.take_append_of_le_length hshort]
    exact fun ht => habsent (List.mem_of_mem_take ht)
  exact (evict_snd _ _ _ key).trans ((if_neg hnot).trans (Function.update_self ..))

/-! ### The parts of a request -/

/-- The route with one more refusal. -/
def refused (p : Printer) : Printer := { p with identityRefusals := p.identityRefusals + 1 }

theorem identityMatches_refused {mac : Bytes} {adopt : Bool}
    (h : (p.identityMatches mac adopt).1 = false) :
    (p.identityMatches mac adopt).2 = refused p := by
  unfold Printer.identityMatches at h ⊢
  split_ifs at h ⊢ <;> rfl

/-- A request that cannot bind the route leaves it as it is when it is let in. -/
theorem identityMatches_unbound {mac : Bytes} (h : (p.identityMatches mac false).1 = true) :
    (p.identityMatches mac false).2 = p := by
  unfold Printer.identityMatches at h ⊢
  split_ifs at h ⊢ <;> first | rfl | contradiction

theorem identityMatches_bound {mac : Bytes} (h : (p.identityMatches mac true).1 = true) :
    (p.identityMatches mac true).2 = p ∨
      p.mac = [] ∧ (p.identityMatches mac true).2 = { p with mac := mac } := by
  unfold Printer.identityMatches at h ⊢
  split_ifs at h ⊢ with _ _ hnone
  · exact .inl rfl
  · exact .inr ⟨hnone, rfl⟩
  · exact .inl rfl
  · exact .inl rfl

theorem sameBooks_identityMatches (mac : Bytes) (adopt : Bool) :
    SameBooks p (p.identityMatches mac adopt).2 := by
  unfold Printer.identityMatches
  split_ifs <;> exact ⟨rfl, rfl, rfl, rfl⟩

/-- No token at the head of the queue is missing from the table. -/
theorem skip_eq (h : Accounted p) : p.skip = p := by
  have hhead : p.pending.dropWhile (fun t => (p.jobs t).isNone) = p.pending := by
    rcases hl : p.pending with _ | ⟨t, ts⟩
    · rfl
    · obtain ⟨job, hjob, -⟩ := h.waiting t (by rw [hl]; exact List.mem_cons_self)
      rw [List.dropWhile_cons_of_neg]
      simp [hjob]
  unfold Printer.skip
  rw [hhead]

theorem locate_eq (h : p.locate token = some (key, job)) :
    p.jobs key = some job ∧ p.wanted token = some key := by
  unfold Printer.locate at h
  obtain ⟨t, ht, hmap⟩ := Option.bind_eq_some_iff.mp h
  obtain ⟨j, hj, he⟩ := Option.map_eq_some_iff.mp hmap
  obtain ⟨rfl, rfl⟩ := Prod.mk.inj he
  exact ⟨hj, ht⟩

/-! ### What a request does to the books -/

/-- The route a request is about. -/
def route : Request → Bytes
  | .addPrinter spec => spec.id
  | .submit id _ _ _ | .poll id _ | .fetchJob id _ | .confirm id _ => id

@[simp]
theorem find_set_self (q : Printer) : (s.set id q).find id = some q := Function.update_self ..

theorem find_set_of_ne {id' : Bytes} (h : id ≠ id') (q : Printer) :
    (s.set id' q).find id = s.find id := Function.update_of_ne h ..

theorem submit_eq_ok {mediaTypes : List Bytes} {bytes : Bytes} {bits : UInt64}
    (h : s.submit id mediaTypes bytes bits = .ok (token, s')) :
    ∃ p types, s.find id = some p ∧ bytes ≠ [] ∧ p.pending.length < p.spec.maxPending ∧
      token = nextToken bits (s.sequence + 1) ∧
      s' = s.draw.set id (p.enqueue (.queued token types bytes)) := by
  unfold CloudPrntServer.submit at h
  rcases hp : s.find id with _ | p
  · rw [hp] at h
    cases h
  · rw [hp] at h
    dsimp only at h
    split_ifs at h with hb hfull
    rcases ht : advertised p.spec mediaTypes with e | types
    · rw [ht] at h
      cases h
    · rw [ht] at h
      obtain ⟨rfl, rfl⟩ := Prod.mk.inj (Except.ok.inj h)
      exact ⟨p, _, rfl, hb, Nat.not_le.mp hfull, rfl, rfl⟩

theorem addPrinter_eq_ok {spec : CloudPrntSpec} (h : s.addPrinter spec = .ok s') :
    s.find spec.id = none ∧ s' = s.set spec.id spec.route := by
  unfold CloudPrntServer.addPrinter at h
  split_ifs at h with hempty howned
  exact ⟨by simpa using howned, (Except.ok.inj h).symm⟩

/-- What a poll answers and leaves. -/
theorem poll_cases (s : CloudPrntServer) (id : Bytes) (body : Except Bytes PollDocument) :
    (((∃ e, body = .error e) ∨ s.find id = none) ∧
        ∃ status message detail, s.poll id body = ((.fail status message detail, []), s)) ∨
      ∃ p doc, body = .ok doc ∧ s.find id = some p ∧
        ((p.identityMatches (normaliseMac doc.printerMAC) true).1 = false ∧
            s.poll id body = ((.fail 404 (str "not found")
              (str "cloudprnt route is bound to another printer"), []), s.set id (refused p)) ∨
          (p.identityMatches (normaliseMac doc.printerMAC) true).1 = true ∧
            ∃ q, q = ((p.identityMatches (normaliseMac doc.printerMAC) true).2.hear doc).2.skip ∧
              ∃ events, s.poll id body = ((q.offer, events), s.set id q)) := by
  unfold CloudPrntServer.poll
  rcases body with e | doc
  · exact .inl ⟨.inl ⟨e, rfl⟩, _, _, _, rfl⟩
  rcases hp : s.find id with _ | p
  · exact .inl ⟨.inr rfl, _, _, _, rfl⟩
  refine .inr ⟨p, doc, rfl, rfl, ?_⟩
  have hrefused := @identityMatches_refused p (normaliseMac doc.printerMAC) true
  rcases hm : p.identityMatches (normaliseMac doc.printerMAC) true with ⟨_ | _, q⟩
  · rw [hm] at hrefused
    obtain rfl := hrefused rfl
    refine .inl ⟨rfl, ?_⟩
    dsimp only
    rw [hm]
  · refine .inr ⟨rfl, _, rfl, (q.hear doc).1, ?_⟩
    dsimp only
    rw [hm]

/-- What a download answers and leaves. -/
theorem fetchJob_cases (s : CloudPrntServer) (id query : Bytes) :
    s.fetchJob id query = (unknownJob, s) ∨
      ∃ p, s.find id = some p ∧
        ((p.identityMatches (normaliseMac (queryValue query (str "mac"))) false).1 = false ∧
            s.fetchJob id query = (unknownJob, s.set id (refused p)) ∨
          (p.identityMatches (normaliseMac (queryValue query (str "mac"))) false).1 = true ∧
            ∃ served, served = p.fetch (queryValue query (str "token"))
                (queryValue query (str "type")) ∧
              s.fetchJob id query = (served.1, s.set id served.2)) := by
  unfold CloudPrntServer.fetchJob
  rcases hp : s.find id with _ | p
  · exact .inl rfl
  refine .inr ⟨p, rfl, ?_⟩
  have hrefused := @identityMatches_refused p (normaliseMac (queryValue query (str "mac"))) false
  have hunbound := @identityMatches_unbound p (normaliseMac (queryValue query (str "mac")))
  rcases hm : p.identityMatches (normaliseMac (queryValue query (str "mac"))) false with ⟨_ | _, q⟩
  · rw [hm] at hrefused
    obtain rfl := hrefused rfl
    refine .inl ⟨rfl, ?_⟩
    dsimp only
    rw [hm]
  · rw [hm] at hunbound
    obtain rfl := hunbound rfl
    refine .inr ⟨rfl, _, rfl, ?_⟩
    dsimp only
    rw [hm]

/-- What a confirmation answers and leaves. -/
theorem confirm_cases (s : CloudPrntServer) (id query : Bytes) :
    s.confirm id query = (unknownJob, s) ∨
      ∃ p, s.find id = some p ∧
        ((p.identityMatches (normaliseMac (queryValue query (str "mac"))) false).1 = false ∧
            s.confirm id query = (unknownJob, s.set id (refused p)) ∨
          (p.identityMatches (normaliseMac (queryValue query (str "mac"))) false).1 = true ∧
            ∃ confirmed, confirmed = p.confirm (queryValue query (str "token"))
                (queryValue? query (str "retry")) (confirmedCode query) ∧
              s.confirm id query = (confirmed.1, s.set id confirmed.2)) := by
  unfold CloudPrntServer.confirm
  rcases hp : s.find id with _ | p
  · exact .inl rfl
  refine .inr ⟨p, rfl, ?_⟩
  have hrefused := @identityMatches_refused p (normaliseMac (queryValue query (str "mac"))) false
  have hunbound := @identityMatches_unbound p (normaliseMac (queryValue query (str "mac")))
  rcases hm : p.identityMatches (normaliseMac (queryValue query (str "mac"))) false with ⟨_ | _, q⟩
  · rw [hm] at hrefused
    obtain rfl := hrefused rfl
    refine .inl ⟨rfl, ?_⟩
    dsimp only
    rw [hm]
  · rw [hm] at hunbound
    obtain rfl := hunbound rfl
    refine .inr ⟨rfl, _, rfl, ?_⟩
    dsimp only
    rw [hm]

/-- The same server, but for one route. -/
def OnlyRoute (id : Bytes) (s s' : CloudPrntServer) : Prop :=
  s' = s ∨ ∃ q, s' = s.set id q ∨ s' = s.draw.set id q

theorem onlyRoute_next (s : CloudPrntServer) (a : Request) : OnlyRoute (route a) s (s.next a) := by
  rcases a with spec | ⟨id, mediaTypes, bytes, bits⟩ | ⟨id, body⟩ | ⟨id, query⟩ | ⟨id, query⟩
  · rcases hs : s.addPrinter spec with e | s'
    · refine .inl ?_
      simp only [CloudPrntServer.next, hs]
    · obtain ⟨-, rfl⟩ := addPrinter_eq_ok hs
      refine .inr ⟨spec.route, .inl ?_⟩
      simp only [CloudPrntServer.next, hs]
      rfl
  · rcases hs : s.submit id mediaTypes bytes bits with e | ⟨token, s'⟩
    · refine .inl ?_
      simp only [CloudPrntServer.next, hs]
    · obtain ⟨p, types, -, -, -, -, rfl⟩ := submit_eq_ok hs
      refine .inr ⟨p.enqueue (.queued token types bytes), .inr ?_⟩
      simp only [CloudPrntServer.next, hs]
      rfl
  · change OnlyRoute id s (s.poll id body).2
    rcases poll_cases s id body with ⟨-, _, _, _, he⟩ | ⟨p, doc, -, -, ⟨-, he⟩ | ⟨-, q, -, _, he⟩⟩
    · exact .inl (by rw [he])
    · exact .inr ⟨_, .inl (by rw [he])⟩
    · exact .inr ⟨_, .inl (by rw [he])⟩
  · change OnlyRoute id s (s.fetchJob id query).2
    rcases fetchJob_cases s id query with he | ⟨p, -, ⟨-, he⟩ | ⟨-, q, -, he⟩⟩
    · exact .inl (by rw [he])
    · exact .inr ⟨_, .inl (by rw [he])⟩
    · exact .inr ⟨_, .inl (by rw [he])⟩
  · change OnlyRoute id s (s.confirm id query).2
    rcases confirm_cases s id query with he | ⟨p, -, ⟨-, he⟩ | ⟨-, q, -, he⟩⟩
    · exact .inl (by rw [he])
    · exact .inr ⟨_, .inl (by rw [he])⟩
    · exact .inr ⟨_, .inl (by rw [he])⟩

/-- A request is about one route. -/
theorem next_find_of_ne {a : Request} (h : id ≠ route a) : (s.next a).find id = s.find id := by
  rcases onlyRoute_next s a with he | ⟨q, he | he⟩
  · rw [he]
  · rw [he]
    exact find_set_of_ne h q
  · rw [he]
    exact find_set_of_ne h q

theorem sequence_le_next (s : CloudPrntServer) (a : Request) :
    s.sequence ≤ (s.next a).sequence := by
  rcases onlyRoute_next s a with he | ⟨q, he | he⟩
  · rw [he]
  · rw [he]
    exact le_rfl
  · rw [he]
    exact Nat.le_succ _

/-- What a request may do to the books of a route: nothing, queue a new job, count a download, or
confirm a job. -/
inductive Booked (s : CloudPrntServer) (id : Bytes) (p : Printer) : Request → Printer → Prop
  | same {a : Request} {q : Printer} (books : SameBooks p q) : Booked s id p a q
  | queued {requested : List Bytes} {bytes : Bytes} {bits : UInt64} (types : List Bytes)
      (given : bytes ≠ []) (room : p.pending.length < p.spec.maxPending)
      (accepted : ∃ s', s.submit id requested bytes bits =
        .ok (nextToken bits (s.sequence + 1), s')) :
      Booked s id p (.submit id requested bytes bits)
        (p.enqueue (.queued (nextToken bits (s.sequence + 1)) types bytes))
  | served {query key : Bytes} {job : Job}
      (found : p.locate (queryValue query (str "token")) = some (key, job))
      (opened : job.confirmed = false)
      (answered : ∃ type, (s.fetchJob id query).1 = .document type job.bytes) :
      Booked s id p (.fetchJob id query)
        (p.setJob key { job with deliveries := job.deliveries + 1 })
  | confirmed {query key : Bytes} {job : Job}
      (found : p.locate (queryValue query (str "token")) = some (key, job))
      (opened : job.confirmed = false)
      (known : (p.identityMatches (normaliseMac (queryValue query (str "mac"))) false).1 = true) :
      Booked s id p (.confirm id query)
        ((p.setJob key (job.settle (confirmedCode query))).retire key)

theorem sameBooks_refused : SameBooks p (refused p) := ⟨rfl, rfl, rfl, rfl⟩

theorem sameBooks_hear (doc : PollDocument) : SameBooks p (p.hear doc).2 := ⟨rfl, rfl, rfl, rfl⟩

theorem SameBooks.trans {r : Printer} (h : SameBooks p q) (h' : SameBooks q r) : SameBooks p r :=
  ⟨h'.spec.trans h.spec, h'.pending.trans h.pending, h'.history.trans h.history,
    h'.jobs.trans h.jobs⟩

/-- A poll that is let in leaves the books as they are. -/
theorem polled_books (h : Accounted p) (doc : PollDocument) :
    SameBooks p ((p.identityMatches (normaliseMac doc.printerMAC) true).2.hear doc).2.skip := by
  have hbooks : SameBooks p ((p.identityMatches (normaliseMac doc.printerMAC) true).2.hear doc).2 :=
    (sameBooks_identityMatches _ true).trans (sameBooks_hear doc)
  rw [skip_eq (hbooks.accounted h)]
  exact hbooks

theorem fetch_cases (p : Printer) (token type : Bytes) :
    (p.fetch token type).2 = p ∧ (∃ status message detail,
        (p.fetch token type).1 = .fail status message detail) ∨
      ∃ key job negotiated, p.locate token = some (key, job) ∧ job.confirmed = false ∧
        p.fetch token type = (.document negotiated job.bytes,
          p.setJob key { job with deliveries := job.deliveries + 1 }) := by
  unfold Printer.fetch
  rcases hl : p.locate token with _ | ⟨key, job⟩
  · exact .inl ⟨rfl, _, _, _, rfl⟩
  dsimp only
  by_cases hc : job.confirmed = true
  · rw [if_pos hc]
    exact .inl ⟨rfl, _, _, _, rfl⟩
  rw [if_neg hc]
  rcases job.negotiate (normaliseMedia type) with _ | negotiated
  · exact .inl ⟨rfl, _, _, _, rfl⟩
  · exact .inr ⟨key, job, negotiated, rfl, by simpa using hc, rfl⟩

theorem confirmed_cases (p : Printer) (token : Bytes) (retry : Option Bytes) (code : Option ℕ) :
    (p.locate token = none ∧ p.confirm token retry code = (unknownJob, p)) ∨
      ∃ key job, p.locate token = some (key, job) ∧
        (job.confirmed = true ∧ p.confirm token retry code =
            (.confirmation job.token retry true job.code job.result.outcome none, p) ∨
          job.confirmed = false ∧ p.confirm token retry code =
            (.confirmation job.token retry false (job.settle code).code
                (job.settle code).result.outcome (some (job.settle code).detail),
              (p.setJob key (job.settle code)).retire job.token)) := by
  unfold Printer.confirm
  rcases hl : p.locate token with _ | ⟨key, job⟩
  · exact .inl ⟨rfl, rfl⟩
  refine .inr ⟨key, job, rfl, ?_⟩
  dsimp only
  by_cases hc : job.confirmed = true
  · rw [if_pos hc]
    exact .inl ⟨hc, rfl⟩
  · rw [if_neg hc]
    exact .inr ⟨by simpa using hc, rfl⟩

/-- **What a request does.** A route stays, and its books change in one of the four ways. -/
theorem next_find (h : Accounted p) (hp : s.find id = some p) (a : Request) :
    ∃ q, (s.next a).find id = some q ∧ Booked s id p a q := by
  by_cases hid : id = route a
  swap
  · exact ⟨p, (next_find_of_ne hid).trans hp, .same ⟨rfl, rfl, rfl, rfl⟩⟩
  subst hid
  rcases a with spec | ⟨id, mediaTypes, bytes, bits⟩ | ⟨id, body⟩ | ⟨id, query⟩ | ⟨id, query⟩
  · rcases hs : s.addPrinter spec with e | s'
    · refine ⟨p, ?_, .same ⟨rfl, rfl, rfl, rfl⟩⟩
      simpa only [CloudPrntServer.next, hs] using hp
    · cases (addPrinter_eq_ok hs).1.symm.trans hp
  · rcases hs : s.submit id mediaTypes bytes bits with e | ⟨token, s'⟩
    · refine ⟨p, ?_, .same ⟨rfl, rfl, rfl, rfl⟩⟩
      simpa only [CloudPrntServer.next, hs] using hp
    · obtain ⟨p', types, hp', hb, hroom, rfl, rfl⟩ := submit_eq_ok hs
      obtain rfl := Option.some.inj (hp.symm.trans hp')
      have hnext : s.next (.submit id mediaTypes bytes bits) =
          s.draw.set id (p.enqueue (.queued (nextToken bits (s.sequence + 1)) types bytes)) := by
        simp only [CloudPrntServer.next, hs]
      refine ⟨_, ?_, .queued types hb hroom ⟨_, hs⟩⟩
      rw [hnext]
      exact find_set_self _
  · change ∃ q, (s.poll id body).2.find id = some q ∧ _
    rcases poll_cases s id body with ⟨-, _, _, _, he⟩ | ⟨p', doc, rfl, hp', hm⟩
    · rw [he]
      exact ⟨p, hp, .same ⟨rfl, rfl, rfl, rfl⟩⟩
    obtain rfl := Option.some.inj (hp.symm.trans hp')
    rcases hm with ⟨-, he⟩ | ⟨-, q, rfl, _, he⟩
    · rw [he]
      exact ⟨_, find_set_self _, .same sameBooks_refused⟩
    · rw [he]
      exact ⟨_, find_set_self _, .same (polled_books h doc)⟩
  · change ∃ q, (s.fetchJob id query).2.find id = some q ∧ _
    rcases fetchJob_cases s id query with he | ⟨p', hp', hm⟩
    · rw [he]
      exact ⟨p, hp, .same ⟨rfl, rfl, rfl, rfl⟩⟩
    obtain rfl := Option.some.inj (hp.symm.trans hp')
    rcases hm with ⟨-, he⟩ | ⟨-, served, rfl, he⟩
    · rw [he]
      exact ⟨_, find_set_self _, .same sameBooks_refused⟩
    refine ⟨_, by rw [he]; exact find_set_self _, ?_⟩
    rcases fetch_cases p (queryValue query (str "token")) (queryValue query (str "type")) with
      ⟨hkept, -⟩ | ⟨key, job, negotiated, hl, ho, hf⟩
    · rw [hkept]
      exact .same ⟨rfl, rfl, rfl, rfl⟩
    · have hanswer : (s.fetchJob id query).1 = .document negotiated job.bytes := by rw [he, hf]
      rw [hf]
      exact .served hl ho ⟨negotiated, hanswer⟩
  · change ∃ q, (s.confirm id query).2.find id = some q ∧ _
    rcases confirm_cases s id query with he | ⟨p', hp', hm⟩
    · rw [he]
      exact ⟨p, hp, .same ⟨rfl, rfl, rfl, rfl⟩⟩
    obtain rfl := Option.some.inj (hp.symm.trans hp')
    rcases hm with ⟨-, he⟩ | ⟨hknown, confirmed, rfl, he⟩
    · rw [he]
      exact ⟨_, find_set_self _, .same sameBooks_refused⟩
    rw [he]
    refine ⟨_, find_set_self _, ?_⟩
    rcases confirmed_cases p (queryValue query (str "token")) (queryValue? query (str "retry"))
      (confirmedCode query) with ⟨-, hf⟩ | ⟨key, job, hl, ⟨-, hf⟩ | ⟨ho, hf⟩⟩
    · rw [hf]
      exact .same ⟨rfl, rfl, rfl, rfl⟩
    · rw [hf]
      exact .same ⟨rfl, rfl, rfl, rfl⟩
    · rw [hf, h.named key job (locate_eq hl).1]
      exact .confirmed hl ho hknown

/-! ### Every state of a run -/

/-- The books of every route agree, and no token is issued twice. -/
structure Sound (s : CloudPrntServer) : Prop where
  accounted : ∀ id p, s.find id = some p → Accounted p
  issued : ∀ id p t, s.find id = some p → (p.jobs t).isSome = true → Issued s.sequence t
  apart : ∀ id id' p p' t, s.find id = some p → s.find id' = some p' →
    (p.jobs t).isSome = true → (p'.jobs t).isSome = true → id = id'

variable {a : Request}

/-- The table gains no job but the one that is queued. -/
theorem Booked.recorded (h : Booked s id p a q) {t : Bytes} (ht : (q.jobs t).isSome = true) :
    (p.jobs t).isSome = true ∨
      id = route a ∧ (s.next a).sequence = s.sequence + 1 ∧
        ∃ bits, t = nextToken bits (s.sequence + 1) := by
  rcases h with books | @⟨requested, bytes, bits, types, given, room, s', accepted⟩ |
    ⟨found, opened⟩ | ⟨found, opened⟩
  · rw [books.jobs] at ht
    exact .inl ht
  · by_cases hne : (p.jobs t).isSome = true
    · exact .inl hne
    refine .inr ⟨rfl, ?_, bits, ?_⟩
    · obtain ⟨_, _, -, -, -, -, rfl⟩ := submit_eq_ok accepted
      simp only [CloudPrntServer.next, accepted]
      rfl
    unfold Printer.enqueue at ht
    dsimp only at ht
    split_ifs at ht
    · exact absurd ht hne
    · rw [Function.update_apply] at ht
      split_ifs at ht with he
      · exact he
      · exact absurd ht hne
  · change (Function.update p.jobs _ _ t).isSome = true at ht
    rw [Function.update_apply] at ht
    split_ifs at ht with he
    · rw [he, (locate_eq found).1]
      exact .inl rfl
    · exact .inl ht
  · obtain ⟨j, hj⟩ := Option.isSome_iff_exists.mp ht
    rcases retire_some hj with ⟨rfl, -⟩ | ⟨-, hj⟩
    · rw [(locate_eq found).1]
      exact .inl rfl
    · rw [hj]
      exact .inl rfl

theorem Booked.accounted (h : Booked s id p a q) (hp : Accounted p)
    (hissued : ∀ t, (p.jobs t).isSome = true → Issued s.sequence t) : Accounted q := by
  rcases h with books | ⟨types, given, room, accepted⟩ | ⟨found, opened⟩ | ⟨found, opened⟩
  · exact books.accounted hp
  · refine hp.enqueue ?_ rfl
    rw [← Option.not_isSome_iff_eq_none]
    exact fun hs => not_issued _ _ (hissued _ hs)
  · exact hp.setJob (locate_eq found).1 rfl rfl
  · have hjob := (locate_eq found).1
    have hname := hp.named _ _ hjob
    exact hp.retire hjob opened hname rfl

/-- A route after a request was there before, or is new. -/
theorem find_next_cases (hs : Sound s) {a : Request} (hq : (s.next a).find id = some q) :
    (∃ p, s.find id = some p ∧ Booked s id p a q) ∨
      s.find id = none ∧ ∃ spec, a = .addPrinter spec ∧ q = spec.route := by
  rcases hp : s.find id with _ | p
  · refine .inr ⟨rfl, ?_⟩
    by_cases hid : id = route a
    swap
    · rw [next_find_of_ne hid, hp] at hq
      cases hq
    subst hid
    rcases a with spec | ⟨id, mediaTypes, bytes, bits⟩ | ⟨id, body⟩ | ⟨id, query⟩ | ⟨id, query⟩
    · rcases ha : s.addPrinter spec with e | s'
      · simp only [CloudPrntServer.next, ha] at hq
        cases hp.symm.trans hq
      · obtain ⟨-, rfl⟩ := addPrinter_eq_ok ha
        simp only [CloudPrntServer.next, ha] at hq
        exact ⟨spec, rfl, Option.some.inj (hq.symm.trans (find_set_self _))⟩
    · rcases ha : s.submit id mediaTypes bytes bits with e | ⟨token, s'⟩
      · simp only [CloudPrntServer.next, ha] at hq
        cases hp.symm.trans hq
      · obtain ⟨p, types, hp', -⟩ := submit_eq_ok ha
        cases hp.symm.trans hp'
    · change (s.poll id body).2.find id = some q at hq
      rcases poll_cases s id body with ⟨-, _, _, _, he⟩ | ⟨p, doc, -, hp', -⟩
      · rw [he] at hq
        cases hp.symm.trans hq
      · cases hp.symm.trans hp'
    · change (s.fetchJob id query).2.find id = some q at hq
      rcases fetchJob_cases s id query with he | ⟨p, hp', -⟩
      · rw [he] at hq
        cases hp.symm.trans hq
      · cases hp.symm.trans hp'
    · change (s.confirm id query).2.find id = some q at hq
      rcases confirm_cases s id query with he | ⟨p, hp', -⟩
      · rw [he] at hq
        cases hp.symm.trans hq
      · cases hp.symm.trans hp'
  · obtain ⟨q', hq', hb⟩ := next_find (hs.accounted id p hp) hp a
    obtain rfl := Option.some.inj (hq.symm.trans hq')
    exact .inl ⟨p, rfl, hb⟩

/-- A job in the table after a request was there before, or its token is new. -/
theorem recorded_cases (hs : Sound s) {a : Request} (hq : (s.next a).find id = some q) {t : Bytes}
    (ht : (q.jobs t).isSome = true) :
    (∃ p, s.find id = some p ∧ (p.jobs t).isSome = true) ∨
      id = route a ∧ (s.next a).sequence = s.sequence + 1 ∧
        ∃ bits, t = nextToken bits (s.sequence + 1) := by
  rcases find_next_cases hs hq with ⟨p, hp, hb⟩ | ⟨-, spec, rfl, rfl⟩
  · rcases hb.recorded ht with hold | hnew
    · exact .inl ⟨p, hp, hold⟩
    · exact .inr hnew
  · cases ht

theorem Sound.next (hs : Sound s) (a : Request) : Sound (s.next a) where
  accounted id q hq := by
    rcases find_next_cases hs hq with ⟨p, hp, hb⟩ | ⟨-, spec, rfl, rfl⟩
    · exact hb.accounted (hs.accounted id p hp) fun t => hs.issued id p t hp
    · exact accounted_route spec
  issued id q t hq ht := by
    rcases recorded_cases hs hq ht with ⟨p, hp, hold⟩ | ⟨-, hdrawn, bits, rfl⟩
    · exact (hs.issued id p t hp hold).mono (sequence_le_next s a)
    · exact ⟨bits, _, hdrawn.ge, rfl⟩
  apart id id' q q' t hq hq' ht ht' := by
    rcases recorded_cases hs hq ht with ⟨p, hp, hold⟩ | ⟨hid, -, bits, he⟩ <;>
      rcases recorded_cases hs hq' ht' with ⟨p', hp', hold'⟩ | ⟨hid', -, bits', he'⟩
    · exact hs.apart id id' p p' t hp hp' hold hold'
    · rw [he'] at hold
      exact absurd (hs.issued id p _ hp hold) (not_issued _ _)
    · rw [he] at hold'
      exact absurd (hs.issued id' p' _ hp' hold') (not_issued _ _)
    · exact hid.trans hid'.symm

theorem sound_empty : Sound {} where
  accounted id p hp := by cases hp
  issued id p t hp := by cases hp
  apart id id' p p' t hp := by cases hp

/-- A request as a move of the server. -/
def step (a : Request) (s : CloudPrntServer) : Option CloudPrntServer := some (s.next a)

variable {G : Request → CloudPrntServer → Prop}

/-- What a run from a sound state reaches is sound. -/
theorem sound_of_reach (hs : Sound s) (h : Reach step G s s') : Sound s' := by
  refine h.invariant hs fun a t t' ht _ hstep => ?_
  obtain rfl := Option.some.inj hstep
  exact ht.next a

end PrinterDriver.Agent.CloudPrntRuns
