import PrinterDriver.Epos.Client
import Mathlib.Data.List.Range

/-! # What a print comes to

`Retrieval` and `Ran` say what a print that is over has posted, when it ended and which answer it
believed. From them: the document is posted once and only a polled answer completes a spooled job,
and when a known failure is one. -/

namespace PrinterDriver.Epos.Printing

open PrinterDriver.Core.Types PrinterDriver.Epos.Xml PrinterDriver.Epos.Replies
  PrinterDriver.Epos.Client

/-! ### What one answer says -/

/-- What the service said to the print request. -/
def printResponse (c : ClientConfig) (jobId document : Bytes) (x : Exchange) : Response :=
  (readReply (x.reply c (printEnvelope c jobId document))).1

/-- What the service said to a poll. -/
def pollResponse (c : ClientConfig) (jobId : Bytes) (x : Exchange) : Response :=
  (readReply (x.reply c (buildPollEnvelope jobId))).1

/-- A success without a code. -/
def plainSuccess (r : Response) : Prop := r.parsed = true ∧ r.success = true ∧ r.code = .none

/-- The codes that name a fault of the device or of the request. -/
def isFault : ResponseCode → Bool
  | .none | .jobNotFound | .printing | .jobSpooling | .unrecognised => false
  | _ => true

/-- The reply says that the job failed: it denies success, names a fault, or shows one in the status.
The status means nothing on the first acknowledgement of a spooler. -/
def saysFailed (spooler first : Bool) (r : Response) : Bool :=
  r.parsed && !isNonTerminal r.code && r.code ≠ .jobNotFound &&
    (!r.success || isFault r.code ||
      (!(spooler && first) &&
        (carries r.status kCutterError || (spooler && carries r.status kSpoolerStopped))))

/-- A success with a code this build does not know, and no fault in the status. -/
def misread (spooler first : Bool) (r : Response) : Bool :=
  r.parsed && r.success && r.code = .unrecognised && !saysFailed spooler first r

/-- The state and the finality that the rules give a response, case by case. -/
inductive Classified (r : Response) (spooler first : Bool) : JobState → Bool → Prop where
  | unparsed (hp : r.parsed = false) : Classified r spooler first .unknown true
  | pending (hp : r.parsed = true) (hc : isNonTerminal r.code = true) :
      Classified r spooler first .bytesSent false
  | forgotten (hp : r.parsed = true) (hc : r.code = .jobNotFound) :
      Classified r spooler first .unknown true
  | denied (hp : r.parsed = true) (hn : isNonTerminal r.code = false) (hj : r.code ≠ .jobNotFound)
      (hd : r.success = false ∨ r.code ≠ .none) : Classified r spooler first .failedKnown true
  | acknowledged (hr : plainSuccess r) (hs : (spooler && first) = true) :
      Classified r spooler first .bytesSent false
  | cutter (hr : plainSuccess r) (hs : (spooler && first) = false)
      (hc : carries r.status kCutterError = true) : Classified r spooler first .failedKnown true
  | completed (hr : plainSuccess r) (hs : (spooler && first) = false)
      (hc : carries r.status kPrintingCompleted = true) :
      Classified r spooler first .doneSoftware true
  | stopped (hr : plainSuccess r) (hs : (spooler && first) = false) (hq : spooler = true)
      (hc : carries r.status kSpoolerStopped = true) : Classified r spooler first .failedKnown true
  | working (hr : plainSuccess r) (hs : (spooler && first) = false)
      (hk : carries r.status kCutterError = false)
      (hc : carries r.status kSpoolerStopped = false) : Classified r spooler first .bytesSent false
  | direct (hr : plainSuccess r) (hq : spooler = false) :
      Classified r spooler first .doneSoftware true

theorem classified (r : Response) (spooler first : Bool) :
    Classified r spooler first (classify r spooler first).state
      (classify r spooler first).terminal := by
  have hplain : ¬(!r.parsed) = true → ¬(!r.success || decide (r.code ≠ .none)) = true →
      plainSuccess r := by
    intro hp hd
    simp only [Bool.or_eq_true, decide_eq_true_eq, not_or, not_not] at hd
    exact ⟨by simpa using hp, by simpa using hd.1, hd.2⟩
  unfold classify
  split_ifs with hp hn hj hd hs hk hq hc hz
  · exact .unparsed (by simpa using hp)
  · exact .pending (by simpa using hp) hn
  · exact .forgotten (by simpa using hp) hj
  · exact .denied (by simpa using hp) (by simpa using hn) hj (by simpa using hd)
  · exact .acknowledged (hplain hp hd) hs
  · exact .cutter (hplain hp hd) (by simpa using hs) hk
  · exact .completed (hplain hp hd) (by simpa using hs) hc
  · exact .stopped (hplain hp hd) (by simpa using hs) hq hz
  · exact .working (hplain hp hd) (by simpa using hs) (by simpa using hk) (by simpa using hz)
  · exact .direct (hplain hp hd) (by simpa using hq)

section Classify
variable {r : Response} {spooler first : Bool}

/-- What is not parsed is no verdict, and ends the matter. -/
theorem classify_unparsed (h : r.parsed = false) :
    (classify r spooler first).state = .unknown := by
  unfold classify
  rw [h]
  rfl

/-- **A completion rests on a plain success**, on a spooler on a later one that says that printing is
completed. -/
theorem classify_done (h : (classify r spooler first).state = .doneSoftware) :
    plainSuccess r ∧ (spooler = true →
      first = false ∧ carries r.status kPrintingCompleted = true) := by
  have hc := classified r spooler first
  rw [h] at hc
  generalize (classify r spooler first).terminal = t at hc
  cases hc with
  | completed hr hs hc =>
    refine ⟨hr, fun hq => ⟨?_, hc⟩⟩
    rw [hq] at hs
    exact hs
  | direct hr hq =>
    refine ⟨hr, fun hq' => ?_⟩
    rw [hq] at hq'
    cases hq'

/-- A known failure rests on a reply that says so, or on one that was misread. -/
theorem classify_failed (h : (classify r spooler first).state = .failedKnown) :
    saysFailed spooler first r = true ∨ misread spooler first r = true := by
  have hc := classified r spooler first
  rw [h] at hc
  generalize (classify r spooler first).terminal = t at hc
  cases hc with
  | denied hp hn hj hd =>
    by_cases hf : saysFailed spooler first r = true
    · exact .inl hf
    · refine .inr ?_
      have hs : r.success = true ∧ isFault r.code = false := by
        rw [saysFailed, hp, hn, decide_eq_true hj] at hf
        simp only [Bool.not_false, Bool.and_self, Bool.true_and, Bool.not_eq_true,
          Bool.or_eq_false_iff, Bool.not_eq_false'] at hf
        exact hf.1
      have hu : r.code = .unrecognised := by
        have hne : r.code ≠ .none := by simpa [hs.1] using hd
        have hk := hs.2
        generalize r.code = code at hn hj hne hk ⊢
        cases code <;> simp_all [isFault, isNonTerminal]
      simp [misread, hp, hs.1, hu, hf]
  | cutter hr hs hc =>
    left
    rw [saysFailed, hr.1, hr.2.1, hr.2.2, hs, hc]
    rfl
  | stopped hr hs hq hc =>
    left
    rw [saysFailed, hr.1, hr.2.1, hr.2.2, hs, hc, hq]
    cases carries r.status kCutterError <;> rfl

theorem classify_misread (h : misread spooler first r = true) :
    (classify r spooler first).state = .failedKnown ∧
      (classify r spooler first).terminal = true := by
  simp only [misread, Bool.and_eq_true, decide_eq_true_eq] at h
  obtain ⟨⟨⟨hp, -⟩, hu⟩, -⟩ := h
  have hc := classified r spooler first
  generalize (classify r spooler first).terminal = t at hc ⊢
  generalize (classify r spooler first).state = s at hc ⊢
  cases hc with
  | denied => exact ⟨rfl, rfl⟩
  | cutter => exact ⟨rfl, rfl⟩
  | stopped => exact ⟨rfl, rfl⟩
  | unparsed hp' => simp [hp] at hp'
  | pending _ hn => simp [hu, isNonTerminal] at hn
  | forgotten _ hj => simp [hu] at hj
  | acknowledged hr => simp [hu, plainSuccess] at hr
  | completed hr => simp [hu, plainSuccess] at hr
  | working hr => simp [hu, plainSuccess] at hr
  | direct hr => simp [hu, plainSuccess] at hr

/-- An answer that leaves the matter open neither says that the job failed nor was misread. -/
theorem classify_pending (h : (classify r spooler first).terminal = false) :
    r.parsed = true ∧ (classify r spooler first).state = .bytesSent ∧
      saysFailed spooler first r = false := by
  have hc := classified r spooler first
  rw [h] at hc
  generalize (classify r spooler first).state = s at hc ⊢
  cases hc with
  | pending hp hn => exact ⟨hp, rfl, by simp [saysFailed, hn]⟩
  | acknowledged hr hs =>
    refine ⟨hr.1, rfl, ?_⟩
    simp [saysFailed, hr.2.1, hr.2.2, hs, isFault]
  | working hr hs hk hc =>
    refine ⟨hr.1, rfl, ?_⟩
    simp [saysFailed, hr.2.1, hr.2.2, hk, hc, isFault]

theorem classify_polls (r : Response) (spooler first : Bool) :
    (classify r spooler first).polls = 0 := by
  unfold classify
  split_ifs <;> rfl

/-- The outcome says what the state says. -/
theorem classify_outcome :
    (classify r spooler first).result.outcome = .done ↔
      (classify r spooler first).state = .doneSoftware := by
  unfold classify
  split_ifs <;> simp [Outcome.undecided, Outcome.accepted, Outcome.failed, Outcome.done,
    JobResult.attested, JobResult.failed, JobResult.done]

end Classify
/-! ### Retrievals that are over -/

/-- An answer to a poll after which the client asks again. -/
def Open (c : ClientConfig) (jobId : Bytes) (x : Exchange) : Prop :=
  (pollResponse c jobId x).parsed = false ∨
    (classify (pollResponse c jobId x) c.spooler false).terminal = false

/-- The world after one round. -/
def asked (c : ClientConfig) (jobId : Bytes) (w : World) (x : Exchange) : World :=
  (w.sleep c.pollIntervalMs).post (buildPollEnvelope jobId) x

/-- The loop, round by round: what it began with, the replies it read, what it ended with. -/
inductive Retrieved (c : ClientConfig) (jobId : Bytes) (deadline : ℕ) :
    World → Outcome → List Exchange → World → Outcome → Prop where
  | outOfPatience {w : World} {out : Outcome} (hd : deadline ≤ w.now) :
      Retrieved c jobId deadline w out [] w (out.undecided .timeoutAwaitingCompletion)
  | again {w w' : World} {out out₁ out' : Outcome} {x : Exchange} {read : List Exchange}
      (hd : w.now < deadline) (ho : Open c jobId x) (hn : out₁.polls = out.polls + 1)
      (h : Retrieved c jobId deadline (asked c jobId w x) out₁ read w' out') :
      Retrieved c jobId deadline w out (x :: read) w' out'
  | settled {w : World} {out : Outcome} {x : Exchange} (hd : w.now < deadline)
      (hp : (pollResponse c jobId x).parsed = true)
      (ht : (classify (pollResponse c jobId x) c.spooler false).terminal = true) :
      Retrieved c jobId deadline w out [x] (asked c jobId w x)
        (({ out with polls := out.polls + 1 } : Outcome).answered c jobId (pollResponse c jobId x))

theorem retrieved_of_ended {c : ClientConfig} {jobId : Bytes} {deadline : ℕ} :
    ∀ {replies rest : List Exchange} {w w' : World} {out out' : Outcome},
      retrieve c jobId deadline w out replies = .ended w' out' rest →
      ∃ read, replies = read ++ rest ∧ Retrieved c jobId deadline w out read w' out' := by
  intro replies
  induction replies with
  | nil =>
    intro rest w w' out out' h
    unfold retrieve at h
    split_ifs at h with hd
    simp only [Progress.ended.injEq] at h
    obtain ⟨rfl, rfl, rfl⟩ := h
    exact ⟨[], rfl, .outOfPatience hd⟩
  | cons x replies ih =>
    intro rest w w' out out' h
    unfold retrieve at h
    split_ifs at h with hd
    · simp only [Progress.ended.injEq] at h
      obtain ⟨rfl, rfl, rfl⟩ := h
      exact ⟨[], rfl, .outOfPatience hd⟩
    · have hd' : w.now < deadline := not_le.mp hd
      dsimp only at h
      split_ifs at h with hp ht
      · obtain ⟨read, rfl, hr⟩ := ih h
        have hp' : (pollResponse c jobId x).parsed = false := by simpa [pollResponse] using hp
        exact ⟨x :: read, rfl, .again hd' (.inl hp') rfl hr⟩
      · simp only [Progress.ended.injEq] at h
        obtain ⟨rfl, rfl, rfl⟩ := h
        have hp' : (pollResponse c jobId x).parsed = true := by simpa [pollResponse] using hp
        exact ⟨[x], rfl, .settled hd' hp' ht⟩
      · obtain ⟨read, rfl, hr⟩ := ih h
        have ht' : (classify (pollResponse c jobId x) c.spooler false).terminal = false :=
          Bool.not_eq_true _ ▸ ht
        exact ⟨x :: read, rfl, .again hd' (.inr ht') rfl hr⟩

section Retrieved
variable {c : ClientConfig} {jobId : Bytes} {deadline : ℕ} {w w' : World} {out out' : Outcome}
  {read : List Exchange}

/-- Every request of the loop is the status poll. -/
theorem Retrieved.posts (h : Retrieved c jobId deadline w out read w' out') :
    w'.posts = w.posts ++ List.replicate read.length (buildPollEnvelope jobId) ∧
      out'.polls = out.polls + read.length := by
  induction h with
  | outOfPatience hd => exact ⟨by simp, rfl⟩
  | again hd ho hn h ih =>
    obtain ⟨ih₁, ih₂⟩ := ih
    constructor
    · rw [ih₁, List.length_cons, List.replicate_succ, asked, World.post_posts, World.sleep_posts,
        List.append_assoc, List.singleton_append]
    · rw [ih₂, hn, List.length_cons]
      omega
  | settled hd hp ht => exact ⟨rfl, rfl⟩

/-- The last round began before the deadline. -/
theorem Retrieved.now_lt (h : Retrieved c jobId deadline w out read w' out') :
    read = [] ∧ w' = w ∨
      ∃ front x, read = front ++ [x] ∧ w'.now < deadline + c.pollIntervalMs + x.took := by
  induction h with
  | outOfPatience hd => exact .inl ⟨rfl, rfl⟩
  | @again w w' _ _ _ x read hd ho hn h ih =>
    right
    rcases ih with ⟨rfl, rfl⟩ | ⟨front, y, rfl, hy⟩
    · refine ⟨[], x, rfl, ?_⟩
      show w.now + c.pollIntervalMs + x.took < _
      omega
    · exact ⟨x :: front, y, rfl, hy⟩
  | @settled w _ x hd hp ht =>
    refine .inr ⟨[], x, rfl, ?_⟩
    show w.now + c.pollIntervalMs + x.took < _
    omega

/-- **What a retrieval believes**: the first answer that is no call to ask again, or nothing. -/
theorem Retrieved.verdict (h : Retrieved c jobId deadline w out read w' out') :
    ((∀ x ∈ read, Open c jobId x) ∧ out'.state = .unknown ∧ out'.result.outcome = .unknown) ∨
      ∃ front x, read = front ++ [x] ∧ (∀ y ∈ front, Open c jobId y) ∧
        out'.state = (classify (pollResponse c jobId x) c.spooler false).state ∧
        out'.result = (classify (pollResponse c jobId x) c.spooler false).result := by
  induction h with
  | outOfPatience hd => exact .inl ⟨by simp, rfl, rfl⟩
  | again hd ho hn h ih =>
    rcases ih with ⟨hall, hs, hr⟩ | ⟨front, y, rfl, hall, hs, hr⟩
    · exact .inl ⟨List.forall_mem_cons.mpr ⟨ho, hall⟩, hs, hr⟩
    · exact .inr ⟨_ :: front, y, rfl, List.forall_mem_cons.mpr ⟨ho, hall⟩, hs, hr⟩
  | @settled w _ x hd hp ht => exact .inr ⟨[], x, rfl, by simp, rfl, rfl⟩

end Retrieved

/-- An open answer says nothing of a failure and is not misread. -/
theorem Open.quiet {c : ClientConfig} {jobId : Bytes} {x : Exchange} (h : Open c jobId x) :
    saysFailed c.spooler false (pollResponse c jobId x) = false ∧
      misread c.spooler false (pollResponse c jobId x) = false := by
  rcases h with hp | ht
  · constructor
    · rw [saysFailed, hp]
      rfl
    · rw [misread, hp]
      rfl
  · refine ⟨(classify_pending ht).2.2, ?_⟩
    by_contra hm
    have hm' := classify_misread (Bool.not_eq_false _ ▸ hm)
    rw [hm'.2] at ht
    cases ht

/-- A round of the loop goes on or ends it, whatever else the service has to say. -/
theorem retrieve_cons {c : ClientConfig} {jobId : Bytes} {deadline : ℕ} {w : World} (out : Outcome)
    (x : Exchange) (hd : w.now < deadline) : ∃ out₁ : Outcome,
    (∀ rest, retrieve c jobId deadline w out (x :: rest) =
      retrieve c jobId deadline (asked c jobId w x) out₁ rest) ∨
    ∀ rest, retrieve c jobId deadline w out (x :: rest) = .ended (asked c jobId w x) out₁ rest := by
  have hout : ¬deadline ≤ w.now := not_le.mpr hd
  by_cases hp : (pollResponse c jobId x).parsed = true
  · have hp' : ¬(!(readReply (x.reply c (buildPollEnvelope jobId))).1.parsed) = true := by
      simpa [pollResponse] using hp
    let out₁ : Outcome :=
      ({ out with polls := out.polls + 1 } : Outcome).answered c jobId (pollResponse c jobId x)
    by_cases ht : out₁.terminal = true
    · refine ⟨out₁, .inr fun rest => ?_⟩
      unfold retrieve
      rw [if_neg hout]
      exact (if_neg hp').trans (if_pos ht)
    · refine ⟨out₁, .inl fun rest => ?_⟩
      conv_lhs => unfold retrieve
      rw [if_neg hout]
      exact (if_neg hp').trans (if_neg ht)
  · have hp' : (!(readReply (x.reply c (buildPollEnvelope jobId))).1.parsed) = true := by
      simpa [pollResponse] using hp
    refine ⟨{ out with
      polls := out.polls + 1
      error := (readReply (x.reply c (buildPollEnvelope jobId))).2 }, .inl fun rest => ?_⟩
    conv_lhs => unfold retrieve
    rw [if_neg hout]
    exact if_pos hp'

/-- With a clock that moves, the loop ends after finitely many replies. -/
theorem retrieve_ends {c : ClientConfig} {jobId : Bytes} {deadline : ℕ}
    (hi : 0 < c.pollIntervalMs) : ∀ (fuel : ℕ) (service : ℕ → Exchange) (w : World) (out : Outcome),
    deadline - w.now ≤ fuel → ∃ n w' out', retrieve c jobId deadline w out
      ((List.range n).map service) = .ended w' out' [] := by
  have hover : ∀ (service : ℕ → Exchange) (w : World) (out : Outcome), deadline ≤ w.now →
      ∃ n w' out', retrieve c jobId deadline w out ((List.range n).map service) =
        .ended w' out' [] := by
    intro service w out hd
    refine ⟨0, w, out.undecided .timeoutAwaitingCompletion, ?_⟩
    unfold retrieve
    rw [if_pos hd]
    rfl
  intro fuel
  induction fuel with
  | zero =>
    intro service w out hf
    exact hover service w out (by omega)
  | succ fuel ih =>
    intro service w out hf
    by_cases hd : deadline ≤ w.now
    · exact hover service w out hd
    · have hnow : deadline - (asked c jobId w (service 0)).now ≤ fuel := by
        show deadline - (w.now + c.pollIntervalMs + (service 0).took) ≤ fuel
        omega
      obtain ⟨out₁, hs | hs⟩ := @retrieve_cons c jobId deadline w out (service 0) (not_le.mp hd)
      · obtain ⟨n, w', out', h⟩ := ih (fun i => service (i + 1)) _ out₁ hnow
        refine ⟨n + 1, w', out', ?_⟩
        rw [List.range_succ_eq_map, List.map_cons, List.map_map, hs]
        exact h
      · exact ⟨1, asked c jobId w (service 0), out₁, hs []⟩

/-! ### Prints that are over -/

/-- The world after the print request. -/
def submitted (c : ClientConfig) (document jobId : Bytes) (w : World) (x : Exchange) : World :=
  w.post (printEnvelope c jobId document) x

/-- The print request was posted and the client took the reply for a response. -/
def Taken (c : ClientConfig) (document jobId : Bytes) (x : Exchange) : Prop :=
  (readReply (x.reply c (printEnvelope c jobId document))).2 = [] ∨
    (printResponse c jobId document x).parsed = true

/-- A print that is over: the replies it read, what it ended with. -/
inductive Ran (c : ClientConfig) (document jobId : Bytes) (w : World) :
    List Exchange → World → Outcome → Prop where
  | refused {out : Outcome} (hid : usable jobId = false) (hs : out.state = .failedKnown)
      (hr : out.result.outcome = .failed) : Ran c document jobId w [] w out
  | failed {x : Exchange} {out : Outcome} (hid : usable jobId = true) (ht : ¬Taken c document jobId x)
      (hs : out.state = .failedKnown) (hr : out.result.outcome = .failed) (hn : out.polls = 0) :
      Ran c document jobId w [x] (submitted c document jobId w x) out
  | answered {x : Exchange} {out : Outcome} (hid : usable jobId = true) (ht : Taken c document jobId x)
      (hc : (classify (printResponse c jobId document x) c.spooler true).terminal = true)
      (hs : out.state = (classify (printResponse c jobId document x) c.spooler true).state)
      (hr : out.result = (classify (printResponse c jobId document x) c.spooler true).result)
      (hn : out.polls = 0) :
      Ran c document jobId w [x] (submitted c document jobId w x) out
  | lost {x : Exchange} {out : Outcome} (hid : jobId = [])
      (hc : (classify (printResponse c jobId document x) c.spooler true).terminal = false)
      (hs : out.state = .unknown) (hr : out.result.outcome = .unknown) (hn : out.polls = 0) :
      Ran c document jobId w [x] (submitted c document jobId w x) out
  | retrieved {x : Exchange} {read : List Exchange} {w' : World} {out out' : Outcome}
      (hid : isValidJobId jobId = true)
      (hc : (classify (printResponse c jobId document x) c.spooler true).terminal = false)
      (hn : out.polls = 0)
      (h : Retrieved c jobId ((submitted c document jobId w x).now + c.pollBudgetMs)
        (submitted c document jobId w x) out read w' out') :
      Ran c document jobId w (x :: read) w' out'

theorem ran_of_concluded {c : ClientConfig} {document jobId : Bytes} {w w' : World} {out : Outcome}
    {x : Exchange} {replies rest : List Exchange} (hu : usable jobId = true)
    (h : conclude c jobId (submitted c document jobId w x)
      (readReply (x.reply c (printEnvelope c jobId document))) replies = .ended w' out rest) :
    ∃ read, replies = read ++ rest ∧ Ran c document jobId w (x :: read) w' out := by
  unfold conclude at h
  dsimp only at h
  split_ifs at h with he ht hj
  · simp only [Progress.ended.injEq] at h
    obtain ⟨rfl, rfl, rfl⟩ := h
    have htaken : ¬Taken c document jobId x := by
      rintro (h0 | hp)
      · exact he.1 h0
      · exact Bool.false_ne_true (he.2.symm.trans hp)
    exact ⟨[], rfl, .failed hu htaken rfl rfl rfl⟩
  all_goals
    have htaken : Taken c document jobId x := by
      by_cases h0 : (readReply (x.reply c (printEnvelope c jobId document))).2 = []
      · exact .inl h0
      · right
        by_contra hp
        exact he ⟨h0, Bool.not_eq_true _ ▸ hp⟩
  · simp only [Progress.ended.injEq] at h
    obtain ⟨rfl, rfl, rfl⟩ := h
    exact ⟨[], rfl, .answered hu htaken ht rfl rfl (classify_polls _ _ _)⟩
  · simp only [Progress.ended.injEq] at h
    obtain ⟨rfl, rfl, rfl⟩ := h
    exact ⟨[], rfl, .lost hj (Bool.not_eq_true _ ▸ ht) rfl rfl (classify_polls _ _ _)⟩
  · obtain ⟨read, rfl, hr⟩ := retrieved_of_ended h
    have hv : isValidJobId jobId = true := by simpa [usable, hj] using hu
    refine ⟨read, rfl, .retrieved hv (Bool.not_eq_true _ ▸ ht) ?_ hr⟩
    exact classify_polls _ _ _

theorem ran_of_ended {c : ClientConfig} {document jobId : Bytes} {w w' : World} {out : Outcome}
    {replies rest : List Exchange} (h : print c document jobId w replies = .ended w' out rest) :
    ∃ read, replies = read ++ rest ∧ Ran c document jobId w read w' out := by
  unfold print at h
  split_ifs at h with hid
  · simp only [Progress.ended.injEq] at h
    obtain ⟨rfl, rfl, rfl⟩ := h
    exact ⟨[], rfl, .refused (by simpa using hid) rfl rfl⟩
  · cases replies with
    | nil => cases h
    | cons x replies =>
      obtain ⟨read, rfl, hr⟩ := ran_of_concluded (by simpa using hid) h
      exact ⟨x :: read, rfl, hr⟩

/-! ### The document is posted once -/

theorem printEnvelope_ne_pollEnvelope (c : ClientConfig) (jobId document : Bytes) :
    printEnvelope c jobId document ≠ buildPollEnvelope jobId := by
  intro h
  unfold printEnvelope buildPrintEnvelope buildPollEnvelope at h
  have h' := List.append_cancel_left h
  have hhead := congrArg (fun text => text[1]?) h'
  simp only [List.append_assoc] at hhead
  rw [List.getElem?_append_left (by decide), List.getElem?_append_left (by decide)] at hhead
  revert hhead
  decide

/-- How a print under a valid id goes: one print request and then polls, a completion only from a
polled answer where there is a spooler, and no round that begins after the deadline. -/
structure Faithful (c : ClientConfig) (document jobId : Bytes) (w : World) (read : List Exchange)
    (w' : World) (out : Outcome) : Prop where
  posts : w'.posts = w.posts ++ printEnvelope c jobId document ::
    List.replicate out.polls (buildPollEnvelope jobId)
  noDocument : printEnvelope c jobId document ≠ buildPollEnvelope jobId
  completion : c.spooler = true → out.state = .doneSoftware ∨ out.result.outcome = .done →
    ∃ x ∈ read.tail, plainSuccess (pollResponse c jobId x) ∧
      carries (pollResponse c jobId x).status kPrintingCompleted = true
  inTime : ∃ first polled, read = first :: polled ∧
    (polled = [] ∧ w'.now = w.now + first.took ∨
      ∃ front x, polled = front ++ [x] ∧
        w'.now < w.now + first.took + c.pollBudgetMs + c.pollIntervalMs + x.took)

theorem faithful_of_ran {c : ClientConfig} {document jobId : Bytes} {w w' : World} {out : Outcome}
    {read : List Exchange} (hid : isValidJobId jobId = true)
    (h : Ran c document jobId w read w' out) : Faithful c document jobId w read w' out := by
  have hne := printEnvelope_ne_pollEnvelope c jobId document
  cases h with
  | refused hu =>
    rw [usable, hid, Bool.or_true] at hu
    cases hu
  | @failed x out hu ht hs hr hn =>
    refine ⟨by rw [hn]; rfl, hne, fun _ hd => ?_, x, [], rfl, .inl ⟨rfl, rfl⟩⟩
    simp [hs, hr] at hd
  | @answered x out hu ht hc hs hr hn =>
    refine ⟨by rw [hn]; rfl, hne, fun hq hd => ?_, x, [], rfl, .inl ⟨rfl, rfl⟩⟩
    rw [hs, hr, classify_outcome, or_self] at hd
    have hfirst := ((classify_done hd).2 hq).1
    cases hfirst
  | lost hj =>
    rw [hj] at hid
    cases hid
  | @retrieved x read w' out out' hv hc hn h =>
    obtain ⟨hposts, hpolls⟩ := h.posts
    refine ⟨?_, hne, fun hq hd => ?_, x, read, rfl, ?_⟩
    · rw [hposts, hpolls, hn, Nat.zero_add, submitted, World.post_posts, List.append_assoc,
        List.singleton_append]
    · rcases h.verdict with ⟨-, hs, hr⟩ | ⟨front, y, rfl, -, hs, hr⟩
      · simp [hs, hr] at hd
      · rw [hs, hr, classify_outcome, or_self] at hd
        have hdone := classify_done hd
        exact ⟨y, by simp, hdone.1, (hdone.2 hq).2⟩
    · rcases h.now_lt with ⟨rfl, rfl⟩ | hlast
      · exact .inl ⟨rfl, rfl⟩
      · exact .inr hlast

theorem conclude_ends {c : ClientConfig} (hi : 0 < c.pollIntervalMs) (jobId : Bytes) (w : World)
    (submission : Response × Bytes) (service : ℕ → Exchange) : ∃ n w' out,
      conclude c jobId w submission ((List.range n).map service) = .ended w' out [] := by
  unfold conclude
  dsimp only
  split_ifs
  · exact ⟨0, w, _, rfl⟩
  · exact ⟨0, w, _, rfl⟩
  · exact ⟨0, w, _, rfl⟩
  · exact retrieve_ends hi _ service w _ le_rfl

/-- A print ends after finitely many replies. -/
theorem print_ends {c : ClientConfig} (hi : 0 < c.pollIntervalMs) (document jobId : Bytes)
    (w : World) (service : ℕ → Exchange) : ∃ n w' out,
      print c document jobId w ((List.range n).map service) = .ended w' out [] := by
  by_cases hid : usable jobId = true
  · let body := printEnvelope c jobId document
    obtain ⟨n, w', out, h⟩ := conclude_ends hi jobId (w.post body (service 0))
      (readReply ((service 0).reply c body)) fun i => service (i + 1)
    refine ⟨n + 1, w', out, ?_⟩
    rw [List.range_succ_eq_map, List.map_cons, List.map_map]
    unfold print
    rw [if_neg (by simpa using hid)]
    exact h
  · refine ⟨0, w, refused jobId (str
      "ePOS JobID must be 1-30 characters of alphanumerics, '_', '-' or '.'"), ?_⟩
    unfold print
    rw [if_pos (by simpa using hid)]
    rfl

/-- **One print request, and completion only by retrieval.** However the service behaves, a print
under a valid id comes to an end, and it goes as `Faithful` says. -/
theorem submits_once {c : ClientConfig} {jobId : Bytes} (hid : isValidJobId jobId = true)
    (hi : 0 < c.pollIntervalMs) (document : Bytes) (w : World) (service : ℕ → Exchange) :
    (∃ n w' out, print c document jobId w ((List.range n).map service) = .ended w' out []) ∧
      ∀ read w' out, print c document jobId w read = .ended w' out [] →
        Faithful c document jobId w read w' out := by
  refine ⟨print_ends hi document jobId w service, fun read w' out h => ?_⟩
  obtain ⟨read', rfl, hr⟩ := ran_of_ended h
  rw [List.append_nil]
  exact faithful_of_ran hid hr

/-- A reply with a response that has these attributes. -/
def responding (attributes : Bytes) (took : ℕ) : Exchange where
  carrier := .custom
    { ok := true
      status := 200
      body := str "<response xmlns=\"" ++ kEposNamespace ++ str "\" " ++ attributes ++ str "/>" } true
  took := took

theorem submits_once_spooled :
    (∃ n w' out, print { spooler := true } (str "<text>x</text>") (str "A1") {}
        ((List.range n).map fun _ => responding (str "success=\"true\"") 5) = .ended w' out []) ∧
      ∀ read w' out, print { spooler := true } (str "<text>x</text>") (str "A1") {} read =
          .ended w' out [] →
        Faithful { spooler := true } (str "<text>x</text>") (str "A1") {} read w' out :=
  submits_once (by decide) (by decide) _ _ _

/-- When a print that has read all replies was over, and with which state. -/
def concluded : Progress → Option (ℕ × JobState)
  | .ended w out [] => some (w.now, out.state)
  | _ => none

theorem ended_of_concluded {p : Progress} {t : ℕ} {state : JobState} (h : concluded p = some (t, state)) :
    ∃ w out, p = .ended w out [] ∧ w.now = t ∧ out.state = state := by
  cases p with
  | waiting w out => cases h
  | ended w out rest =>
    cases rest with
    | nil =>
      have h' := Prod.mk.inj (Option.some.inj h)
      exact ⟨w, out, rfl, h'.1, h'.2⟩
    | cons x rest => cases h

/-- With a budget of one millisecond the first poll begins in time and ends 499 too late. -/
theorem overruns_budget :
    isValidJobId (str "A1") = true ∧
    ∃ w' out, print { spooler := true, pollBudgetMs := 1 } (str "<text>x</text>") (str "A1") {}
        [responding (str "success=\"true\" status=\"2\"") 0,
          responding (str "success=\"false\" code=\"Printing\"") 0] = .ended w' out [] ∧
      0 + 1 < w'.now := by
  have h : concluded (print { spooler := true, pollBudgetMs := 1 } (str "<text>x</text>") (str "A1") {}
      [responding (str "success=\"true\" status=\"2\"") 0,
        responding (str "success=\"false\" code=\"Printing\"") 0]) = some (500, .unknown) := by
    decide +kernel
  obtain ⟨w', out, hp, hw, -⟩ := ended_of_concluded h
  exact ⟨by decide, w', out, hp, by omega⟩

end PrinterDriver.Epos.Printing
