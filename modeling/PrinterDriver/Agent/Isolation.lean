import PrinterDriver.Agent.CloudPrntRuns

/-! # A route and the requests that are not its printer's

Once a route is bound to a MAC it stays bound to it, and a request that carries another MAC, that is
sent to another route, or that downloads or confirms under a token of another route, learns nothing
of the route and changes nothing but the count of refusals (`isolated`). The token that a poll says
its printer is holding is only recorded: the poll is offered the head of its own route all the same
(`poll_with_foreign_token`). -/

namespace PrinterDriver.Agent.Isolation

open PrinterDriver.Core.Types PrinterDriver.Lib.Runs
open PrinterDriver.Agent.Http PrinterDriver.Agent.CloudPrnt PrinterDriver.Agent.CloudPrntRuns

/-- The MAC a printer's request carries. -/
def carriedMac : Request → Bytes
  | .poll _ (.ok doc) => normaliseMac doc.printerMAC
  | .fetchJob _ query | .confirm _ query => normaliseMac (queryValue query (str "mac"))
  | _ => []

/-- The token a printer's request names. -/
def namedToken : Request → Bytes
  | .poll _ (.ok doc) => doc.jobToken
  | .fetchJob _ query | .confirm _ query => queryValue query (str "token")
  | _ => []

/-- A request that a printer sends. -/
def Printed : Request → Prop
  | .addPrinter _ | .submit _ _ _ _ => False
  | .poll _ _ | .fetchJob _ _ | .confirm _ _ => True

/-- A download or a confirmation. -/
def Claims : Request → Prop
  | .fetchJob _ _ | .confirm _ _ => True
  | _ => False

/-- The token is that of a job of another route. -/
def TokenOfOther (s : CloudPrntServer) (id token : Bytes) : Prop :=
  ∃ other p, other ≠ id ∧ s.find other = some p ∧ (p.jobs token).isSome = true

/-- The token in an answer. -/
def tokenOf : HttpResponse → Option Bytes
  | .offer _ token => token
  | .confirmation token _ _ _ _ _ => some token
  | _ => none

/-- The answer gives away nothing of the route: no token of its jobs, and bytes only of a job of
another route. -/
def Silent (s : CloudPrntServer) (id : Bytes) (p : Printer) (r : HttpResponse) : Prop :=
  (∀ token, tokenOf r = some token → p.jobs token = none) ∧
    ∀ type body, r = .document type body → ∃ other q token job, other ≠ id ∧
      s.find other = some q ∧ q.jobs token = some job ∧ p.jobs token = none ∧ body = job.bytes

variable {s s' : CloudPrntServer} {id other token : Bytes} {p q : Printer} {a : Request}
  {r : HttpResponse}

theorem silent_fail (status : ℕ) (message detail : Bytes) :
    Silent s id p (.fail status message detail) :=
  ⟨fun token h => (by cases h), fun type body h => (by cases h)⟩

/-! ### The MAC of a route -/

theorem mac_skip_hear (doc : PollDocument) : (q.hear doc).2.skip.mac = q.mac := rfl

theorem mac_fetch (p : Printer) (token type : Bytes) : (p.fetch token type).2.mac = p.mac := by
  rcases fetch_cases p token type with ⟨he, -⟩ | ⟨key, job, negotiated, -, -, he⟩
  · rw [he]
  · rw [he]
    rfl

theorem mac_confirm (p : Printer) (token : Bytes) (retry : Option Bytes) (code : Option ℕ) :
    (p.confirm token retry code).2.mac = p.mac := by
  rcases confirmed_cases p token retry code with ⟨-, he⟩ | ⟨key, job, -, ⟨-, he⟩ | ⟨-, he⟩⟩
  · rw [he]
  · rw [he]
  · rw [he]
    rfl

/-- A route that is bound stays bound. -/
theorem mac_next (hp : s.find id = some p) (hm : p.mac ≠ []) (a : Request) :
    ∃ q, (s.next a).find id = some q ∧ q.mac = p.mac := by
  by_cases hid : id = route a
  swap
  · exact ⟨p, (next_find_of_ne hid).trans hp, rfl⟩
  subst hid
  rcases a with spec | ⟨id, mediaTypes, bytes, bits⟩ | ⟨id, body⟩ | ⟨id, query⟩ | ⟨id, query⟩
  · rcases hs : s.addPrinter spec with e | s'
    · exact ⟨p, by simpa only [CloudPrntServer.next, hs] using hp, rfl⟩
    · cases (addPrinter_eq_ok hs).1.symm.trans hp
  · rcases hs : s.submit id mediaTypes bytes bits with e | ⟨token, s'⟩
    · exact ⟨p, by simpa only [CloudPrntServer.next, hs] using hp, rfl⟩
    · obtain ⟨p', types, hp', -, -, rfl, rfl⟩ := submit_eq_ok hs
      obtain rfl := Option.some.inj (hp.symm.trans hp')
      refine ⟨p.enqueue (.queued (nextToken bits (s.sequence + 1)) types bytes), ?_, rfl⟩
      simp only [CloudPrntServer.next, hs]
      exact find_set_self _
  · change ∃ q, (s.poll id body).2.find id = some q ∧ _
    rcases poll_cases s id body with ⟨-, _, _, _, he⟩ | ⟨p', doc, rfl, hp', hi⟩
    · rw [he]
      exact ⟨p, hp, rfl⟩
    obtain rfl := Option.some.inj (hp.symm.trans hp')
    rcases hi with ⟨-, he⟩ | ⟨hin, q, rfl, _, he⟩
    · rw [he]
      exact ⟨_, find_set_self _, rfl⟩
    · rw [he]
      refine ⟨_, find_set_self _, ?_⟩
      rw [mac_skip_hear]
      rcases identityMatches_bound hin with hb | ⟨hnone, -⟩
      · rw [hb]
      · exact absurd hnone hm
  · change ∃ q, (s.fetchJob id query).2.find id = some q ∧ _
    rcases fetchJob_cases s id query with he | ⟨p', hp', hi⟩
    · rw [he]
      exact ⟨p, hp, rfl⟩
    obtain rfl := Option.some.inj (hp.symm.trans hp')
    rcases hi with ⟨-, he⟩ | ⟨-, served, rfl, he⟩
    · rw [he]
      exact ⟨_, find_set_self _, rfl⟩
    · rw [he]
      exact ⟨_, find_set_self _, mac_fetch p _ _⟩
  · change ∃ q, (s.confirm id query).2.find id = some q ∧ _
    rcases confirm_cases s id query with he | ⟨p', hp', hi⟩
    · rw [he]
      exact ⟨p, hp, rfl⟩
    obtain rfl := Option.some.inj (hp.symm.trans hp')
    rcases hi with ⟨-, he⟩ | ⟨-, confirmed, rfl, he⟩
    · rw [he]
      exact ⟨_, find_set_self _, rfl⟩
    · rw [he]
      exact ⟨_, find_set_self _, mac_confirm p _ _ _⟩

theorem mac_of_reach {G : Request → CloudPrntServer → Prop} (hp : s.find id = some p)
    (hm : p.mac ≠ []) (h : Reach step G s s') : ∃ q, s'.find id = some q ∧ q.mac = p.mac := by
  refine h.invariant (I := fun t => ∃ q, t.find id = some q ∧ q.mac = p.mac) ⟨p, hp, rfl⟩
    fun a t t' ht _ hstep => ?_
  obtain rfl := Option.some.inj hstep
  obtain ⟨q, hq, he⟩ := ht
  obtain ⟨r, hr, hr'⟩ := mac_next hq (he ▸ hm) a
  exact ⟨r, hr, hr'.trans he⟩

/-! ### Requests of others -/

/-- A job of one route is in no other route's table. -/
theorem absent_of_other (hs : Sound s) (hp : s.find id = some p) (hq : s.find other = some q)
    (hne : other ≠ id) {token : Bytes} (ht : (q.jobs token).isSome = true) :
    p.jobs token = none := by
  rw [← Option.not_isSome_iff_eq_none]
  exact fun hsome => hne (hs.apart other id q p token hq hp ht hsome)

/-- The poll of a route names and offers its own jobs. -/
theorem tokenOf_offer (h : Accounted q) (doc : PollDocument)
    (ht : tokenOf (((q.identityMatches (normaliseMac doc.printerMAC) true).2.hear doc).2.skip.offer) =
      some token) : (q.jobs token).isSome = true := by
  have hbooks := polled_books h doc
  unfold Printer.offer Printer.offered at ht
  rw [hbooks.pending, hbooks.jobs] at ht
  rcases hl : q.pending.head? with _ | t
  · rw [hl] at ht
    cases ht
  · obtain ⟨job, hj, -⟩ := h.waiting t (List.mem_of_mem_head? hl)
    rw [hl, Option.bind_some, hj] at ht
    have hname : job.token = token := Option.some.inj ht
    rw [← hname, h.named t job hj, hj]
    rfl

/-- What another route answers says nothing of this one. -/
theorem silent_of_ne (hs : Sound s) (hp : s.find id = some p) (hne : route a ≠ id)
    (hr : s.answer a = some r) : Silent s id p r := by
  rcases a with spec | ⟨other, mediaTypes, bytes, bits⟩ | ⟨other, body⟩ | ⟨other, query⟩ |
    ⟨other, query⟩
  · cases hr
  · cases hr
  · obtain rfl : (s.poll other body).1.1 = r := Option.some.inj hr
    rcases poll_cases s other body with ⟨-, _, _, _, he⟩ | ⟨q, doc, rfl, hq, hi⟩
    · rw [he]
      exact silent_fail ..
    rcases hi with ⟨-, he⟩ | ⟨-, q', rfl, _, he⟩
    · rw [he]
      exact silent_fail ..
    rw [he]
    refine ⟨fun token ht => ?_, fun type body hdoc => ?_⟩
    · exact absent_of_other hs hp hq hne (tokenOf_offer (hs.accounted other q hq) doc ht)
    · unfold Printer.offer at hdoc
      dsimp only at hdoc
      split at hdoc <;> cases hdoc
  · obtain rfl : (s.fetchJob other query).1 = r := Option.some.inj hr
    rcases fetchJob_cases s other query with he | ⟨q, hq, ⟨-, he⟩ | ⟨-, served, rfl, he⟩⟩
    · rw [he]
      exact silent_fail ..
    · rw [he]
      exact silent_fail ..
    rw [he]
    rcases fetch_cases q (queryValue query (str "token")) (queryValue query (str "type")) with
      ⟨-, _, _, _, hf⟩ | ⟨key, job, negotiated, hl, -, hf⟩
    · rw [hf]
      exact silent_fail ..
    · rw [hf]
      have hjob := (locate_eq hl).1
      have habsent : p.jobs key = none := absent_of_other hs hp hq hne (by rw [hjob]; rfl)
      refine ⟨fun token ht => (by cases ht), fun type body hdoc => ?_⟩
      obtain ⟨-, rfl⟩ := HttpResponse.document.inj hdoc
      exact ⟨other, q, key, job, hne, hq, hjob, habsent, rfl⟩
  · obtain rfl : (s.confirm other query).1 = r := Option.some.inj hr
    rcases confirm_cases s other query with he | ⟨q, hq, ⟨-, he⟩ | ⟨-, confirmed, rfl, he⟩⟩
    · rw [he]
      exact silent_fail ..
    · rw [he]
      exact silent_fail ..
    rw [he]
    have hnames : ∀ key job, q.locate (queryValue query (str "token")) = some (key, job) →
        p.jobs job.token = none := by
      intro key job hl
      have hjob := (locate_eq hl).1
      rw [(hs.accounted other q hq).named key job hjob]
      exact absent_of_other hs hp hq hne (by rw [hjob]; rfl)
    rcases confirmed_cases q (queryValue query (str "token")) (queryValue? query (str "retry"))
      (confirmedCode query) with ⟨-, hf⟩ | ⟨key, job, hl, ⟨-, hf⟩ | ⟨-, hf⟩⟩
    · rw [hf]
      exact silent_fail ..
    · rw [hf]
      refine ⟨fun token ht => ?_, fun type body hdoc => (by cases hdoc)⟩
      exact Option.some.inj ht ▸ hnames key job hl
    · rw [hf]
      refine ⟨fun token ht => ?_, fun type body hdoc => (by cases hdoc)⟩
      exact Option.some.inj ht ▸ hnames key job hl

/-- A request that carries another MAC than the bound route's is refused. -/
theorem identityMatches_of_ne {mac : Bytes} {adopt : Bool} (hm : p.mac ≠ []) (hmac : mac ≠ [])
    (hne : mac ≠ p.mac) : (p.identityMatches mac adopt).1 = false := by
  unfold Printer.identityMatches
  rw [if_neg hmac, if_neg hm, if_pos (Ne.symm hne)]

/-- The route is as it was, up to the count of refusals, and nothing of it is answered. -/
def Untouched (s : CloudPrntServer) (id : Bytes) (p : Printer) (a : Request) : Prop :=
  ((s.next a).find id = some p ∨ (s.next a).find id = some (refused p)) ∧
    ∀ r, s.answer a = some r → Silent s id p r

theorem untouched_of_ne (hs : Sound s) (hp : s.find id = some p) (hne : route a ≠ id) :
    Untouched s id p a :=
  ⟨.inl ((next_find_of_ne (Ne.symm hne)).trans hp), fun _ => silent_of_ne hs hp hne⟩

/-- A poll, download or confirmation with another MAC. -/
theorem untouched_of_mac (hp : s.find id = some p) (hm : p.mac ≠ []) (hroute : route a = id)
    (ha : Printed a) (hmac : carriedMac a ≠ []) (hne : carriedMac a ≠ p.mac) :
    Untouched s id p a := by
  subst hroute
  rcases a with spec | ⟨id, mediaTypes, bytes, bits⟩ | ⟨id, body⟩ | ⟨id, query⟩ | ⟨id, query⟩
  · exact ha.elim
  · exact ha.elim
  · change ((s.poll id body).2.find id = _ ∨ (s.poll id body).2.find id = _) ∧
      ∀ r, some (s.poll id body).1.1 = some r → _
    rcases poll_cases s id body with ⟨-, _, _, _, he⟩ | ⟨p', doc, rfl, hp', hi⟩
    · rw [he]
      exact ⟨.inl hp, fun r hr => Option.some.inj hr ▸ silent_fail ..⟩
    obtain rfl := Option.some.inj (hp.symm.trans hp')
    rcases hi with ⟨-, he⟩ | ⟨hin, -⟩
    · rw [he]
      exact ⟨.inr (find_set_self _), fun r hr => Option.some.inj hr ▸ silent_fail ..⟩
    · exact absurd (hin.symm.trans (identityMatches_of_ne hm hmac hne)) (by decide)
  · change ((s.fetchJob id query).2.find id = _ ∨ (s.fetchJob id query).2.find id = _) ∧
      ∀ r, some (s.fetchJob id query).1 = some r → _
    rcases fetchJob_cases s id query with he | ⟨p', hp', hi⟩
    · rw [he]
      exact ⟨.inl hp, fun r hr => Option.some.inj hr ▸ silent_fail ..⟩
    obtain rfl := Option.some.inj (hp.symm.trans hp')
    rcases hi with ⟨-, he⟩ | ⟨hin, -⟩
    · rw [he]
      exact ⟨.inr (find_set_self _), fun r hr => Option.some.inj hr ▸ silent_fail ..⟩
    · exact absurd (hin.symm.trans (identityMatches_of_ne hm hmac hne)) (by decide)
  · change ((s.confirm id query).2.find id = _ ∨ (s.confirm id query).2.find id = _) ∧
      ∀ r, some (s.confirm id query).1 = some r → _
    rcases confirm_cases s id query with he | ⟨p', hp', hi⟩
    · rw [he]
      exact ⟨.inl hp, fun r hr => Option.some.inj hr ▸ silent_fail ..⟩
    obtain rfl := Option.some.inj (hp.symm.trans hp')
    rcases hi with ⟨-, he⟩ | ⟨hin, -⟩
    · rw [he]
      exact ⟨.inr (find_set_self _), fun r hr => Option.some.inj hr ▸ silent_fail ..⟩
    · exact absurd (hin.symm.trans (identityMatches_of_ne hm hmac hne)) (by decide)

theorem locate_of_absent (htoken : token ≠ []) (h : p.jobs token = none) :
    p.locate token = none := by
  unfold Printer.locate Printer.wanted
  rw [if_neg htoken, Option.bind_some, h]
  rfl

/-- A download or confirmation under a token that the route does not have. -/
theorem untouched_of_absent (hp : s.find id = some p) (hroute : route a = id) (ha : Claims a)
    (htoken : namedToken a ≠ []) (habsent : p.jobs (namedToken a) = none) :
    Untouched s id p a := by
  subst hroute
  rcases a with spec | ⟨id, mediaTypes, bytes, bits⟩ | ⟨id, body⟩ | ⟨id, query⟩ | ⟨id, query⟩
  · exact ha.elim
  · exact ha.elim
  · exact ha.elim
  · have hl : p.locate (queryValue query (str "token")) = none := locate_of_absent htoken habsent
    change ((s.fetchJob id query).2.find id = _ ∨ (s.fetchJob id query).2.find id = _) ∧
      ∀ r, some (s.fetchJob id query).1 = some r → _
    rcases fetchJob_cases s id query with he | ⟨p', hp', hi⟩
    · rw [he]
      exact ⟨.inl hp, fun r hr => Option.some.inj hr ▸ silent_fail ..⟩
    obtain rfl := Option.some.inj (hp.symm.trans hp')
    rcases hi with ⟨-, he⟩ | ⟨-, served, rfl, he⟩
    · rw [he]
      exact ⟨.inr (find_set_self _), fun r hr => Option.some.inj hr ▸ silent_fail ..⟩
    · rcases fetch_cases p (queryValue query (str "token")) (queryValue query (str "type")) with
        ⟨hkept, _, _, _, hf⟩ | ⟨key, job, negotiated, hl', -⟩
      · rw [he, hkept, hf]
        exact ⟨.inl (find_set_self _), fun r hr => Option.some.inj hr ▸ silent_fail ..⟩
      · cases hl.symm.trans hl'
  · have hl : p.locate (queryValue query (str "token")) = none := locate_of_absent htoken habsent
    change ((s.confirm id query).2.find id = _ ∨ (s.confirm id query).2.find id = _) ∧
      ∀ r, some (s.confirm id query).1 = some r → _
    rcases confirm_cases s id query with he | ⟨p', hp', hi⟩
    · rw [he]
      exact ⟨.inl hp, fun r hr => Option.some.inj hr ▸ silent_fail ..⟩
    obtain rfl := Option.some.inj (hp.symm.trans hp')
    rcases hi with ⟨-, he⟩ | ⟨-, confirmed, rfl, he⟩
    · rw [he]
      exact ⟨.inr (find_set_self _), fun r hr => Option.some.inj hr ▸ silent_fail ..⟩
    · rcases confirmed_cases p (queryValue query (str "token"))
        (queryValue? query (str "retry")) (confirmedCode query) with
        ⟨-, hf⟩ | ⟨key, job, hl', -⟩
      · rw [he, hf]
        exact ⟨.inl (find_set_self _), fun r hr => Option.some.inj hr ▸ silent_fail ..⟩
      · cases hl.symm.trans hl'

/-- A poll of the route's own printer leaves the books, and is answered whatever token it names. -/
theorem poll_ignores_token (hs : Sound s) (hp : s.find id = some p) (doc : PollDocument)
    (token : Bytes) :
    (∃ q, (s.next (.poll id (.ok { doc with jobToken := token }))).find id = some q ∧
      SameBooks p q) ∧
      s.answer (.poll id (.ok { doc with jobToken := token })) =
        s.answer (.poll id (.ok doc)) := by
  refine ⟨?_, ?_⟩
  · obtain ⟨q, hq, hb⟩ :=
      next_find (hs.accounted id p hp) hp (.poll id (.ok { doc with jobToken := token }))
    obtain ⟨books⟩ := hb
    exact ⟨q, hq, books⟩
  · change some (s.poll id _).1.1 = some (s.poll id _).1.1
    unfold CloudPrntServer.poll
    rw [hp]
    dsimp only
    rcases p.identityMatches (normaliseMac doc.printerMAC) true with ⟨_ | _, q⟩
    · rfl
    · rfl

/-- **A route is its printer's.** In every state of a run, for every route that has a MAC: the MAC
stays, whatever requests follow; a poll, download or confirmation that carries another MAC or is
sent to another route, and a download or confirmation that names a token of another route, learns
nothing of the route and changes nothing of it but the count of refusals; and the token that a poll
names is only recorded. -/
theorem isolated (h : Reach step (fun _ _ => True) {} s) (hp : s.find id = some p)
    (hm : p.mac ≠ []) :
    (∀ s', Reach step (fun _ _ => True) s s' → ∃ q, s'.find id = some q ∧ q.mac = p.mac) ∧
      (∀ a, Printed a → route a ≠ id ∨ (carriedMac a ≠ [] ∧ carriedMac a ≠ p.mac) ∨
        (Claims a ∧ TokenOfOther s id (namedToken a)) → Untouched s id p a) ∧
      ∀ doc token,
        (∃ q, (s.next (.poll id (.ok { doc with jobToken := token }))).find id = some q ∧
          SameBooks p q) ∧
        s.answer (.poll id (.ok { doc with jobToken := token })) =
          s.answer (.poll id (.ok doc)) := by
  have hs : Sound s := sound_of_reach sound_empty h
  refine ⟨fun s' hrun => mac_of_reach hp hm hrun, fun a ha hforeign => ?_,
    fun doc token => poll_ignores_token hs hp doc token⟩
  by_cases hroute : route a = id
  swap
  · exact untouched_of_ne hs hp hroute
  rcases hforeign with hne | ⟨hmac, hne⟩ | ⟨hclaims, other, q, hne, hq, ht⟩
  · exact absurd hroute hne
  · exact untouched_of_mac hp hm hroute ha hmac hne
  · obtain ⟨bits, k, -, htoken⟩ := hs.issued other q _ hq ht
    refine untouched_of_absent hp hroute hclaims ?_ (absent_of_other hs hp hq hne ht)
    rw [htoken]
    exact nextToken_ne_nil bits k

/-- Two routes with a job each; the first is bound in the configuration. -/
def twoRoutes : List Request :=
  [.addPrinter { id := str "bar", mac := str "00:11:62:AA:BB:CC" },
    .addPrinter { id := str "counter" }, .submit (str "bar") [] (str "drinks") 7,
    .submit (str "counter") [] (str "food") 9]

/-- A stranger's download from the bound route. -/
theorem twoRoutes_isolated : ∃ s p, replay step (fun _ _ => True) twoRoutes {} = some s ∧
    s.find (str "bar") = some p ∧
    Untouched s (str "bar") p (.fetchJob (str "bar") (str "mac=00-11-62-dd-ee-ff")) := by
  have hrun : replay step (fun _ _ => True) twoRoutes {} =
      some (twoRoutes.foldl CloudPrntServer.next {}) := rfl
  have hfind : (twoRoutes.foldl CloudPrntServer.next {}).find (str "bar") = some _ := rfl
  have hroute := (isolated (reach_of_replay .init hrun) hfind (by decide)).2.1
  exact ⟨_, _, hrun, hfind, hroute _ trivial (.inr (.inl ⟨by decide, by decide⟩))⟩

/-- A poll that names a token of another route is offered its own route's job. -/
theorem poll_with_foreign_token :
    ¬ ∀ s id p, Reach step (fun _ _ => True) {} s → s.find id = some p → p.mac ≠ [] →
      ∀ a, Printed a → TokenOfOther s id (namedToken a) →
        ∀ r, s.answer a = some r → Silent s id p r := by
  intro hall
  have hrun : replay step (fun _ _ => True) twoRoutes {} = some _ := rfl
  have hsilent := hall _ (str "bar") _ (reach_of_replay .init hrun) rfl (by decide)
    (.poll (str "bar") (.ok { printerMAC := str "001162aabbcc", jobToken := nextToken 9 2 }))
    trivial ⟨str "counter", _, by decide, rfl, rfl⟩ _ rfl
  have habsent := hsilent.1 (nextToken 7 1) rfl
  cases habsent

end PrinterDriver.Agent.Isolation
