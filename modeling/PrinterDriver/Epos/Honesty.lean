import PrinterDriver.Epos.Printing

/-! # When a known failure is known

`Honest` is what a failure and an unanswered request should come to; `Legible` is what the service and
the line between have to do for it, and `honest_iff` says that nothing else will do. -/

namespace PrinterDriver.Epos.Honesty

open PrinterDriver.Core.Types PrinterDriver.Epos.Xml PrinterDriver.Epos.Replies
  PrinterDriver.Epos.Client PrinterDriver.Epos.Printing

/-! ### What a post came to -/

theorem ne_nil_of_replyOf {raw : Bytes} (h : (replyOf raw).ok = true) : raw ≠ [] := by
  rintro rfl
  revert h
  decide

/-- A post that was answered came to the service. -/
theorem reached_of_ok {c : ClientConfig} {body : Bytes} {x : Exchange}
    (h : (x.reply c body).ok = true) : x.reached c body = true := by
  obtain ⟨carrier, took⟩ := x
  cases carrier with
  | custom reply delivers =>
    have hok : reply.ok = true := h
    show (delivers || reply.ok) = true
    rw [hok, Bool.or_true]
  | socket link =>
    have hok : (socketPost c body link).reply.ok = true := h
    have hraw : (socketPost c body link).raw ≠ [] := by
      unfold socketPost at hok ⊢
      split_ifs at hok ⊢
      split at hok
      · cases hok
      · split at hok
        · cases hok
        · exact ne_nil_of_replyOf hok
    show ((link.delivers && decide (0 < (socketPost c body link).sent)) ||
      decide ((socketPost c body link).raw ≠ [])) = true
    rw [decide_eq_true hraw, Bool.or_true]

/-- What is parsed came in a reply. -/
theorem ok_of_parsed {reply : HttpReply} (h : (readReply reply).1.parsed = true) :
    reply.ok = true := by
  by_contra hok
  unfold readReply at h
  rw [if_pos (by simpa using hok)] at h
  cases h

/-- A reply without a response has an error text. -/
theorem readReply_unparsed {reply : HttpReply} (hok : reply.ok = true)
    (hp : (readReply reply).1.parsed = false) : (readReply reply).2 ≠ [] := by
  unfold readReply at hp ⊢
  rw [if_neg (by simp [hok])] at hp ⊢
  dsimp only at hp ⊢
  rw [if_neg (by simp [hp])]
  simp [str]

theorem readReply_failed {reply : HttpReply} (hok : reply.ok = false) :
    readReply reply = ({}, reply.error) := by
  unfold readReply
  rw [if_pos (by simp [hok])]

/-! ### Honesty -/

/-- A known failure is one that reached nothing or that the service reported; a print request that came
to the service and was not answered, or not intelligibly, leaves the matter open. -/
structure Honest (c : ClientConfig) (document jobId : Bytes) (read : List Exchange) (out : Outcome) :
    Prop where
  failed : out.state = .failedKnown →
    (∀ x ∈ read.head?, x.reached c (printEnvelope c jobId document) = false) ∨
      (∃ x ∈ read.head?, saysFailed c.spooler true (printResponse c jobId document x) = true) ∨
      ∃ x ∈ read.tail, saysFailed c.spooler false (pollResponse c jobId x) = true
  unanswered : ∀ x ∈ read.head?, (x.reply c (printEnvelope c jobId document)).ok = false →
    x.reached c (printEnvelope c jobId document) = true → out.state = .unknown
  unparsable : ∀ x ∈ read.head?, (x.reply c (printEnvelope c jobId document)).ok = true →
    (printResponse c jobId document x).parsed = false → out.state = .unknown

/-- No failure with a text after the print request came to the service, no reply to it without a
response, and no success with an unknown code. -/
structure Legible (c : ClientConfig) (document jobId : Bytes) (read : List Exchange) : Prop where
  answered : ∀ x ∈ read.head?, (x.reply c (printEnvelope c jobId document)).ok = false →
    x.reached c (printEnvelope c jobId document) = true →
      (x.reply c (printEnvelope c jobId document)).error = []
  parsable : ∀ x ∈ read.head?, (x.reply c (printEnvelope c jobId document)).ok = true →
    (printResponse c jobId document x).parsed = true
  first : ∀ x ∈ read.head?, misread c.spooler true (printResponse c jobId document x) = false
  later : ∀ x ∈ read.tail, misread c.spooler false (pollResponse c jobId x) = false

section Honesty
variable {c : ClientConfig} {document jobId : Bytes} {w w' : World} {out : Outcome}
  {read : List Exchange}

/-- A print request that the client did not take for answered, by the way its reply went. -/
theorem taken_of_legible {x : Exchange} (hl : Legible c document jobId (x :: read))
    (hr : x.reached c (printEnvelope c jobId document) = true) : Taken c document jobId x := by
  by_cases hok : (x.reply c (printEnvelope c jobId document)).ok = true
  · exact .inr (hl.parsable x rfl hok)
  · have hok' := Bool.not_eq_true _ ▸ hok
    left
    rw [readReply_failed hok']
    exact hl.answered x rfl hok' hr

/-- A reply that failed without a text is no verdict. -/
theorem classify_of_failed {x : Exchange} (spooler first : Bool)
    (hok : (x.reply c (printEnvelope c jobId document)).ok = false) :
    (classify (printResponse c jobId document x) spooler first).state = .unknown ∧
      (printResponse c jobId document x).parsed = false := by
  have hp : (printResponse c jobId document x).parsed = false := by
    rw [printResponse, readReply_failed hok]
  exact ⟨classify_unparsed hp, hp⟩

/-- **Legible answers make an honest print.** -/
theorem honest_of_legible (h : Ran c document jobId w read w' out)
    (hl : Legible c document jobId read) : Honest c document jobId read out := by
  cases h with
  | refused hid hs hr => exact ⟨fun _ => .inl (by simp), by simp, by simp⟩
  | @failed x out hid ht hs hr hn =>
    have hreached : x.reached c (printEnvelope c jobId document) = false := by
      by_contra hr
      exact ht (taken_of_legible hl (Bool.not_eq_false _ ▸ hr))
    refine ⟨fun _ => .inl ?_, ?_, ?_⟩
    · rintro y ⟨⟩
      exact hreached
    · rintro y ⟨⟩ - hr
      rw [hreached] at hr
      cases hr
    · rintro y ⟨⟩ hok -
      rw [reached_of_ok hok] at hreached
      cases hreached
  | @answered x out hid ht hc hs hr hn =>
    refine ⟨fun hf => .inr (.inl ⟨x, rfl, ?_⟩), ?_, ?_⟩
    · rw [hs] at hf
      exact (classify_failed hf).resolve_right (by rw [hl.first x rfl]; decide)
    · rintro y ⟨⟩ hok -
      rw [hs]
      exact (classify_of_failed c.spooler true hok).1
    · rintro y ⟨⟩ hok hp
      rw [hl.parsable _ rfl hok] at hp
      cases hp
  | @lost x out hid hc hs hr hn =>
    refine ⟨fun hf => ?_, fun y _ _ _ => hs, fun y _ _ _ => hs⟩
    rw [hs] at hf
    cases hf
  | @retrieved x read w' out out' hv hc hn h =>
    have hp := (classify_pending hc).1
    refine ⟨fun hf => ?_, ?_, ?_⟩
    · rcases h.verdict with ⟨-, hs, -⟩ | ⟨front, y, rfl, -, hs, -⟩
      · rw [hs] at hf
        cases hf
      · rw [hs] at hf
        have hm := hl.later y (by simp)
        exact .inr (.inr ⟨y, by simp, (classify_failed hf).resolve_right (by rw [hm]; decide)⟩)
    · rintro y ⟨⟩ hok -
      rw [(classify_of_failed c.spooler true hok).2] at hp
      cases hp
    · rintro y ⟨⟩ - hp'
      rw [hp'] at hp
      cases hp

/-- A print request whose answer left the matter open. -/
theorem legible_of_pending {x : Exchange}
    (hc : (classify (printResponse c jobId document x) c.spooler true).terminal = false)
    (hlater : ∀ y ∈ read, misread c.spooler false (pollResponse c jobId y) = false) :
    Legible c document jobId (x :: read) := by
  have hp := (classify_pending hc).1
  have hok := ok_of_parsed hp
  refine ⟨?_, ?_, ?_, hlater⟩
  · rintro y ⟨⟩ hok'
    rw [hok] at hok'
    cases hok'
  · rintro y ⟨⟩ -
    exact hp
  · rintro y ⟨⟩
    by_contra hm
    rw [(classify_misread (Bool.not_eq_false _ ▸ hm)).2] at hc
    cases hc

/-- **Only they do.** -/
theorem legible_of_honest (h : Ran c document jobId w read w' out)
    (hh : Honest c document jobId read out) : Legible c document jobId read := by
  cases h with
  | refused hid hs hr => exact ⟨by simp, by simp, by simp, by simp⟩
  | @failed x out hid ht hs hr hn =>
    have hne : out.state ≠ .unknown := by rw [hs]; decide
    refine ⟨?_, ?_, ?_, by simp⟩
    · rintro y ⟨⟩ hok hr
      exact absurd (hh.unanswered x rfl hok hr) hne
    · rintro y ⟨⟩ hok
      by_contra hp
      exact hne (hh.unparsable x rfl hok (Bool.not_eq_true _ ▸ hp))
    · rintro y ⟨⟩
      have hp : (printResponse c jobId document x).parsed = false :=
        Bool.not_eq_true _ ▸ (not_or.mp ht).2
      rw [misread, hp]
      rfl
  | @answered x out hid ht hc hs hr hn =>
    have hunread : (x.reply c (printEnvelope c jobId document)).ok = false →
        (x.reply c (printEnvelope c jobId document)).error = [] := by
      intro hok
      rcases ht with he | hp
      · rw [readReply_failed hok] at he
        exact he
      · rw [(classify_of_failed true true hok).2] at hp
        cases hp
    have hparsed : (x.reply c (printEnvelope c jobId document)).ok = true →
        (printResponse c jobId document x).parsed = true := by
      intro hok
      rcases ht with he | hp
      · by_contra hp
        exact readReply_unparsed hok (Bool.not_eq_true _ ▸ hp) he
      · exact hp
    refine ⟨?_, ?_, ?_, by simp⟩
    · rintro y ⟨⟩ hok -
      exact hunread hok
    · rintro y ⟨⟩ hok
      exact hparsed hok
    · rintro y ⟨⟩
      by_contra hm
      have hm' := Bool.not_eq_false _ ▸ hm
      have hf : out.state = .failedKnown := hs.trans (classify_misread hm').1
      simp only [misread, Bool.and_eq_true, Bool.not_eq_true', decide_eq_true_eq] at hm'
      rcases hh.failed hf with hr | ⟨z, ⟨⟩, hz⟩ | ⟨z, hz, -⟩
      · have hr' := hr x rfl
        rw [reached_of_ok (ok_of_parsed hm'.1.1.1)] at hr'
        cases hr'
      · rw [hm'.2] at hz
        cases hz
      · cases hz
  | lost hid hc hs hr hn => exact legible_of_pending hc (by simp)
  | @retrieved x read w' out out' hv hc hn h =>
    refine legible_of_pending hc ?_
    rcases h.verdict with ⟨hall, -, -⟩ | ⟨front, y, rfl, hall, hs, -⟩
    · exact fun z hz => (hall z hz).quiet.2
    · intro z hz
      rcases List.mem_append.mp hz with hz | hz
      · exact (hall z hz).quiet.2
      · rw [List.mem_singleton] at hz
        subst hz
        by_contra hm
        have hm' := Bool.not_eq_false _ ▸ hm
        have hf := hh.failed (hs.trans (classify_misread hm').1)
        rcases hf with hr | ⟨u, ⟨⟩, hu⟩ | ⟨u, hu, hu'⟩
        · have hr' := hr x rfl
          rw [reached_of_ok (ok_of_parsed (classify_pending hc).1)] at hr'
          cases hr'
        · rw [(classify_pending hc).2.2] at hu
          cases hu
        · rcases List.mem_append.mp hu with hu | hu
          · rw [(hall u hu).quiet.1] at hu'
            cases hu'
          · rw [List.mem_singleton] at hu
            subst hu
            simp only [misread, Bool.and_eq_true, Bool.not_eq_true'] at hm'
            rw [hm'.2] at hu'
            cases hu'

end Honesty

/-- **When the print is honest**: exactly when its answers were legible. -/
theorem honest_iff {c : ClientConfig} {document jobId : Bytes} {w w' : World} {out : Outcome}
    {read : List Exchange} (h : print c document jobId w read = .ended w' out []) :
    Honest c document jobId read out ↔ Legible c document jobId read := by
  obtain ⟨read', rfl, hr⟩ := ran_of_ended h
  rw [List.append_nil]
  exact ⟨legible_of_honest hr, honest_of_legible hr⟩

/-- The whole request is sent, and then nothing comes back. -/
def silent : Exchange where
  carrier := .socket { sends := [.wrote 100000] }
  took := 20000

theorem concluded_silent :
    concluded (print {} (str "<text>x</text>") (str "A1") {} [silent]) =
      some (20000, .failedKnown) := by
  decide +kernel

theorem honest_iff_silent :
    ∃ w' out, print {} (str "<text>x</text>") (str "A1") {} [silent] = .ended w' out [] ∧
      (Honest {} (str "<text>x</text>") (str "A1") [silent] out ↔
        Legible {} (str "<text>x</text>") (str "A1") [silent]) := by
  obtain ⟨w', out, h, -⟩ := ended_of_concluded concluded_silent
  exact ⟨w', out, h, honest_iff h⟩

/-- A request that was sent and never answered is reported as a known failure. -/
theorem silence_is_failure :
    ∃ w' out, print {} (str "<text>x</text>") (str "A1") {} [silent] = .ended w' out [] ∧
      ¬Honest {} (str "<text>x</text>") (str "A1") [silent] out := by
  obtain ⟨w', out, h, -, hs⟩ := ended_of_concluded concluded_silent
  refine ⟨w', out, h, fun hh => ?_⟩
  have hu := hh.unanswered silent rfl (by decide +kernel) (by decide +kernel)
  rw [hs] at hu
  cases hu

end PrinterDriver.Epos.Honesty
