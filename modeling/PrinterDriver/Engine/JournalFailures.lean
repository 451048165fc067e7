import PrinterDriver.Engine.Lifecycle

/-! # Exceptions inside a job

An append that fails throws `StoreError`. No engine function and not the worker loop has a handler,
so the exception leaves the task and the process ends. `contained_iff` says when a job ends as it
should: its exceptions caught, one result delivered, and the worker at the jobs behind it. -/

namespace PrinterDriver.Engine.JournalFailures

open PrinterDriver.Lib.Programs PrinterDriver.Core.Types PrinterDriver.Engine.Ops
  PrinterDriver.Engine.RunJob PrinterDriver.Engine.Lifecycle

open Prog

/-! ### The worker loop -/

/-- The appends of a running job. -/
def isAppend : Call → Bool
  | .recordState _ _ _ _ _ | .recordTokens _ _ => true
  | _ => false

/-- The calls that can throw: the appends, a lease when every token is in use, and the builders of
the wire bytes. -/
def Throws (c : Call) : Prop := isAppend c = true ∨ c = .acquireTokens ∨ c = .uncaught

/-- The worker loop over the tasks of its queue, and the calls of each task that was begun. A task
that throws takes the process down. -/
inductive Work : List JobRun → List (List (Made Worker)) → Prop
  | idle : Work [] []
  | next {j : JobRun} {t : List (Made Worker)} {behind : List JobRun}
      {runs : List (List (Made Worker))} (h : Ran Throws j.runJob t (some ()))
      (rest : Work behind runs) : Work (j :: behind) (t :: runs)
  | died {j : JobRun} {t : List (Made Worker)} {behind : List JobRun}
      (h : Ran Throws j.runJob t none) : Work (j :: behind) [t]

/-- The progress of a job after the calls that answered. -/
def after (g : Progress) (t : List (Made Worker)) : Progress :=
  t.foldl (fun g m => match m.2 with | some a => g.post ⟨m.1, a⟩ | none => g) g

/-- The failure of a call does not leave the task, the job has one result, which is `FailedKnown`
only if no byte of the payload was accepted, and the worker goes on. -/
structure Contained (g : Progress) (t : List (Made Worker)) (behind : List JobRun)
    (runs : List (List (Made Worker))) : Prop where
  returned : ∀ m ∈ t, m.2.isSome = true
  once : t.countP (fun m => isFinish m.1) = 1
  sound : ∀ m ∈ t, ∀ id result, m.1 = .finish id result → result.outcome = .failed →
    (after g t).accepted = false
  onward : behind ≠ [] → runs ≠ []

/-- No append failed and nothing else threw, and the cutter's fault bit was not read after bytes of
the payload had been accepted. -/
structure Undisturbed (g : Progress) (t : List (Made Worker)) : Prop where
  appended : ∀ m ∈ t, isAppend m.1 = true → m.2.isSome = true
  built : ∀ m ∈ t, isAppend m.1 = false → m.2.isSome = true
  uncut : ¬((after g t).accepted = true ∧ (after g t).cutterFault = true)

/-! ### What a run of a job leaves -/

section
variable {j : JobRun} {g : Progress} {throws : Call → Prop} {p : Prog Worker Unit}
  {t : List (Made Worker)} {r : Option Unit}

theorem after_cons (g : Progress) (c : Call) (a : c.Answer) (t : List (Made Worker)) :
    after g (⟨c, some a⟩ :: t) = after (g.post ⟨c, a⟩) t := rfl

/-- A terminal state says `FailedKnown` of accepted bytes only after a fault of the cutter, and then
always. -/
def Told (g : Progress) : Prop :=
  g.state.isTerminal = true → g.accepted = true → (g.state = .failedKnown ↔ g.cutterFault = true)

theorem told_post {c : Call} (h : Admits j c g) (ht : Told g) (a : c.Answer) :
    Told (g.post ⟨c, a⟩) := by
  cases c with
  | recordState id state confidence reason evidence => exact fun _ ha => h.2.2.2.2.2.2 ha
  | write part data =>
    cases part with
    | payload => exact fun hs => by simp [Progress.post, h.2.2, JobState.isTerminal] at hs
    | _ => exact ht
  | awaitRealtime part count =>
    cases part with
    | cutterStatus => exact fun hs => by simp [Progress.post, h.2, JobState.isTerminal] at hs
    | _ => exact ht
  | _ => exact ht

/-- Nothing is counted any more once the job is over. -/
theorem after_finished {Q : Unit → Progress → Prop} (h : Ran throws p t r) :
    ∀ {g : Progress}, Safe (log j) Q p g → g.finished = true →
      after g t = g ∧ t.countP (fun m => isFinish m.1) = 0 := by
  induction h with
  | ret a => exact fun _ _ => ⟨rfl, rfl⟩
  | @answer c k a t r _ ih =>
    intro g hs hf
    obtain ⟨ha, hk⟩ := safe_observe_call.mp hs
    obtain ⟨pair, rfl⟩ := releases_of_admits ha hf
    obtain ⟨h1, h2⟩ := ih (hk a) hf
    exact ⟨h1, by simpa [isFinish] using h2⟩
  | @throw c k _ =>
    intro g hs hf
    obtain ⟨pair, rfl⟩ := releases_of_admits (safe_observe_call.mp hs).1 hf
    exact ⟨rfl, rfl⟩

/-- What is true of a run that returned. -/
structure Ended (g' : Progress) (t : List (Made Worker)) : Prop where
  finished : g'.finished = true
  once : t.countP (fun m => isFinish m.1) = 1
  told : Told g'
  result : ∀ m ∈ t, ∀ id result, m.1 = .finish id result →
    g'.state.isTerminal = true ∧ (result.outcome = .failed ↔ g'.state = .failedKnown)

theorem ended_of_ran (h : Ran throws p t r) : r.isSome = true →
    ∀ {g : Progress}, Safe (log j) (fun _ g => g.finished = true) p g → g.finished = false →
      Told g → Ended (after g t) t := by
  induction h with
  | ret a =>
    intro _ g hs hf
    simp [safe_observe_ret.mp hs] at hf
  | @answer c k a t r hran ih =>
    intro hr g hs hf ht
    obtain ⟨ha, hk⟩ := safe_observe_call.mp hs
    rw [after_cons]
    cases hc : isFinish c with
    | false =>
      have hrun : (g.post ⟨c, a⟩).finished = false := by simp [finished_post, hf, hc]
      have he := ih hr (hk a) hrun (told_post ha ht a)
      refine ⟨he.finished, by simpa [hc] using he.once, he.told, fun m hm id result hfin => ?_⟩
      rcases List.mem_cons.mp hm with rfl | hm
      · simp [show c = .finish id result from hfin, isFinish] at hc
      · exact he.result m hm id result hfin
    | true =>
      have hover : (g.post ⟨c, a⟩).finished = true := by simp [finished_post, hc]
      obtain ⟨hsame, hzero⟩ := after_finished hran (hk a) hover
      rw [hsame]
      refine ⟨hover, by simp [hc, hzero], told_post ha ht a, fun m hm id result hfin => ?_⟩
      rcases List.mem_cons.mp hm with rfl | hm
      · obtain rfl : c = .finish id result := hfin
        exact ⟨ha.2.2.2.1, ha.2.2.2.2⟩
      · have := List.countP_eq_zero.mp hzero m hm
        simp [hfin, isFinish] at this
  | throw _ => exact fun hr => by simp at hr

end

/-! ### The queue of a worker -/

/-- **Exceptions inside a job.** For every job that a worker takes from its queue, every behaviour of
its device and every choice of the calls that throw: the job is contained exactly if its run was
undisturbed. -/
theorem contained_iff {j : JobRun} {g : Progress} {t : List (Made Worker)} {behind : List JobRun}
    {runs : List (List (Made Worker))} (hg : Fresh j g) (h : Work (j :: behind) (t :: runs)) :
    Contained g t behind runs ↔ Undisturbed g t := by
  have hsafe := runJob_progress hg
  have htold : Told g := fun hs => by
    rcases hg.state with hq | hq <;> simp [hq, JobState.isTerminal] at hs
  cases h with
  | died hran =>
    have hthrown : ¬∀ m ∈ t, m.2.isSome = true := fun hall => by simpa using hran.returned.mpr hall
    refine ⟨fun hc => absurd hc.returned hthrown, fun hu => absurd (fun m hm => ?_) hthrown⟩
    cases ha : isAppend m.1 with
    | true => exact hu.appended m hm ha
    | false => exact hu.built m hm ha
  | next hran hrest =>
    have hall := hran.returned.mp rfl
    have he := ended_of_ran hran rfl hsafe hg.running htold
    refine ⟨fun hc => ⟨fun m hm _ => hall m hm, fun m hm _ => hall m hm, fun ⟨ha, hf⟩ => ?_⟩,
      fun hu => ⟨hall, he.once, fun m hm id result hfin ho => ?_, fun hb hr => ?_⟩⟩
    · obtain ⟨m, hm, hfin⟩ := List.countP_pos_iff.mp (by rw [he.once]; exact Nat.one_pos)
      obtain ⟨id, result, hfin⟩ : ∃ id result, m.1 = .finish id result := by
        cases hm1 : m.1 <;> simp [hm1, isFinish] at hfin
        exact ⟨_, _, rfl⟩
      obtain ⟨hterm, hout⟩ := he.result m hm id result hfin
      have := hc.sound m hm id result hfin (hout.mpr ((he.told hterm ha).mpr hf))
      simp [ha] at this
    · obtain ⟨hterm, hout⟩ := he.result m hm id result hfin
      by_contra ha
      rw [Bool.not_eq_false] at ha
      exact hu.uncut ⟨ha, (he.told hterm ha).mp (hout.mp ho)⟩
    · cases hrest with
      | idle => exact hb rfl
      | next _ _ => cases hr
      | died _ => cases hr

/-! ### A printer that cannot be reached -/

def receipt : JobRun where
  id := str "job-1"
  key := str "order-7"
  payload := .raw (str "hello")
  options := {}
  attempt := 1
  banner := false
  profile := {}
  widthDots := 576
  codecs := Core.Encoder.plainCodecs
  completionMethod := fun _ => none

def refused : JobResult := (JobResult.failed .transportUnreachable).attested noEvidence

def recordRefused : Call :=
  .recordState receipt.id .failedKnown .transportAccepted .transportUnreachable
    ⟨refused.grade, refused.authority, refused.method⟩

/-- The append of the outcome returns, or it throws. -/
def unreached (appended : Bool) : List (Made Worker) :=
  if appended then
    [⟨.ensureConnected, some false⟩, ⟨recordRefused, some ()⟩,
      ⟨.emit receipt.id ⟨.failedKnown, .transportAccepted, some .transportUnreachable⟩, some ()⟩,
      ⟨.finish receipt.id refused, some ()⟩]
  else [⟨.ensureConnected, some false⟩, ⟨recordRefused, none⟩]

theorem ran_unreached : Ran Throws receipt.runJob (unreached true) (some ()) :=
  .answer (.answer (.answer (.answer (.ret ()))))

theorem ran_unreached_throws : Ran Throws receipt.runJob (unreached false) none :=
  .answer (.throw (.inl rfl))

theorem unreached_contained : Fresh receipt {} ∧ Work [receipt] [unreached true] ∧
    Contained {} (unreached true) [] [] := by
  have hfresh : Fresh receipt {} := ⟨.inl rfl, rfl, rfl, rfl, rfl, rfl⟩
  have hwork : Work [receipt] [unreached true] := .next ran_unreached .idle
  refine ⟨hfresh, hwork, (contained_iff hfresh hwork).mpr ⟨?_, ?_, by decide⟩⟩
  all_goals
    intro m hm _
    exact ran_unreached.returned.mp rfl m hm

/-- A job behind one whose append throws is never begun. -/
theorem unreached_escapes : ¬ ∀ (j : JobRun) (g : Progress) (t : List (Made Worker))
    (behind : List JobRun) (runs : List (List (Made Worker))), Fresh j g →
      Work (j :: behind) (t :: runs) → Contained g t behind runs := by
  intro h
  have hfresh : Fresh receipt {} := ⟨.inl rfl, rfl, rfl, rfl, rfl, rfl⟩
  exact (h receipt {} _ [receipt] [] hfresh (.died ran_unreached_throws)).onward (by simp) rfl

end PrinterDriver.Engine.JournalFailures
