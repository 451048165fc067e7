import PrinterDriver.Engine.Fleet

/-! # Attribution of `GS ( H` echoes

A token is filed only when its echo is read as one, and a wait looks for its own token only. A held
pair differs from all pairs leased after it, and from those leased before it as long as the sequence
did not come round between the two: slots that are passed over count, and so does the wrap of the
32-bit counter (`confirmed_by_own_echo`). -/

namespace PrinterDriver.Engine.GsParenH

open PrinterDriver.Lib.Programs PrinterDriver.Lib.Threads PrinterDriver.Core PrinterDriver.Core.Types
  PrinterDriver.Core.Profile PrinterDriver.Core.EscposParser PrinterDriver.Engine.Io
  PrinterDriver.Engine.Ops PrinterDriver.Engine.RunJob PrinterDriver.Engine.QuietCalls
  PrinterDriver.Engine.EscposRuns PrinterDriver.Engine.StarRuns PrinterDriver.Engine.Markers
  PrinterDriver.Engine.Fleet

open Prog
open Session (Choice serveIo)

/-- The fences of the job are answered by tokens. -/
def Fenced (j : JobRun) : Prop := j.profile.completion = .gsParenH ∨ j.custom.isSome

/-- The token of the job under way was echoed to it, or reported by its registered matcher. -/
def Echoed {ι : Type} (token : MarkerPair → Bytes) (st : Station ι) : Prop :=
  ∀ j ∈ st.job, Fenced j → ∃ l ∈ st.lease,
    token l.pair ∈ if j.custom.isSome then st.io.customTokens else st.heard

/-! ### What happens at one runtime -/

section Stations
variable {ι : Type} {nonce : Bytes}

/-- A token that is filed was echoed. -/
theorem mem_gshTokens {s : IoState} {x t : Bytes} (h : t ∈ (s.onBytes nonce x).2.gshTokens) :
    t ∈ s.gshTokens ∨ s.starMode = false ∧ t ∈ echoes (s.parser.feed x).1 := by
  cases hm : s.starMode with
  | true =>
    obtain ⟨_, _, hs⟩ := s.onBytes_star_frame nonce x hm
    exact .inl (by simpa [hs] using h)
  | false =>
    obtain ⟨_, _, hs⟩ := s.onBytes_filed nonce x hm
    rw [hs] at h
    refine (List.mem_append.mp h).imp id fun ht => ⟨rfl, ?_⟩
    obtain ⟨e, he, hte⟩ := List.mem_filterMap.mp ht
    refine List.mem_filterMap.mpr ⟨e, he, ?_⟩
    cases e with
    | gsHAck token =>
      dsimp only at hte ⊢
      split_ifs at hte
      exact hte
    | _ => cases hte

theorem filed_receive {st : Station ι} {data : Bytes} (h : ∀ t ∈ st.io.gshTokens, t ∈ st.heard) :
    ∀ t ∈ (st.receive nonce data).io.gshTokens, t ∈ (st.receive nonce data).heard := by
  intro t ht
  simp only [Station.receive] at ht ⊢
  rcases mem_gshTokens ht with ht | ⟨hm, ht⟩
  · split_ifs
    · exact h t ht
    · exact List.mem_append_left _ (h t ht)
  · simp [hm, ht]

/-- The calls file no token. -/
theorem filed_serve {st st' : Station ι} {c : Call} {ch : Choice} {a : c.Answer}
    (h : ∀ t ∈ st.io.gshTokens, t ∈ st.heard) (hs : st.serve c ch = some (a, st')) :
    ∀ t ∈ st'.io.gshTokens, t ∈ st'.heard := by
  obtain ⟨⟨b, io⟩, hio, he⟩ := Option.map_eq_some_iff.mp hs
  obtain ⟨rfl, rfl⟩ := Prod.mk.inj he
  cases c with
  | io op =>
    cases ch <;> cases hio
    cases op with
    | beginJobIo => exact fun t ht => absurd ht (List.not_mem_nil)
    | _ => exact h
  | armStarFence part completion =>
    cases ch with
    | go =>
      obtain rfl := congrArg Prod.snd (Option.some.inj hio)
      simp only [IoState.armStarFence]
      split_ifs <;> exact h
    | _ => cases hio
  | await part w =>
    cases ch with
    | go =>
      obtain rfl := congrArg Prod.snd (Option.some.inj hio)
      cases w with
      | queued =>
        simp only [Wait.apply, IoState.awaitQueued]
        split_ifs <;> exact h
      | _ => exact h
    | _ => cases hio
  | _ => cases ch <;> cases hio <;> exact h

theorem serve_lease {st st' : Station ι} {c : Call} {ch : Choice} {a : c.Answer}
    (hs : st.serve c ch = some (a, st')) : st'.lease = st.lease ∧ st'.job = st.job := by
  obtain ⟨⟨b, io⟩, hio, he⟩ := Option.map_eq_some_iff.mp hs
  obtain ⟨rfl, rfl⟩ := Prod.mk.inj he
  cases c with
  | io op => cases op <;> exact ⟨rfl, rfl⟩
  | _ => exact ⟨rfl, rfl⟩

theorem serve_local {st st' : Station ι} {c : Call} {ch : Choice} {a : c.Answer} (hc : Local c)
    (hs : st.serve c ch = some (a, st')) : st' = st := by
  obtain ⟨⟨b, io⟩, hio, he⟩ := Option.map_eq_some_iff.mp hs
  obtain ⟨rfl, rfl⟩ := Prod.mk.inj he
  rw [serveIo_local hc hio]
  cases c with
  | io => exact hc.elim
  | _ => rfl

/-- What the printer and the transport keep. -/
structure Lasting (nonce : Bytes) (P : Station ι → Prop) : Prop where
  receive : ∀ st data, P st → P (st.receive nonce data)
  link : ∀ (st : Station ι) linkDown stopping, P st →
    P { st with io := { st.io with linkDown := linkDown, stopping := stopping } }

theorem lasting_job {o : Option JobRun} : Lasting nonce fun st : Station ι => st.job = o :=
  ⟨fun _ _ h => h, fun _ _ _ h => h⟩

theorem mem_customTokens {s : IoState} {x t : Bytes} (h : t ∈ s.customTokens) :
    t ∈ (s.onBytes nonce x).2.customTokens := by
  cases hm : s.starMode with
  | true =>
    obtain ⟨_, _, hs⟩ := s.onBytes_star_frame nonce x hm
    simpa [hs] using h
  | false =>
    simp only [IoState.onBytes, hm, Bool.false_eq_true, if_false, IoState.onEscposBytes,
      IoState.absorb_filed, IoState.onCustomBytes]
    repeat' split
    all_goals simp [h]

theorem mem_of_mem_customTokens {s : IoState} {x t : Bytes}
    (h : t ∈ (s.onBytes nonce x).2.customTokens) :
    t ∈ s.customTokens ∨ ∃ m ∈ s.customMethod, m.matcher (s.customRx ++ x) = .matched t := by
  cases hm : s.starMode with
  | true =>
    obtain ⟨_, _, hs⟩ := s.onBytes_star_frame nonce x hm
    exact .inl (by simpa [hs] using h)
  | false =>
    simp only [IoState.onBytes, hm, Bool.false_eq_true, if_false, IoState.onEscposBytes,
      IoState.absorb_filed, IoState.onCustomBytes] at h
    split at h
    next m _ hmethod =>
      split at h
      next token hmatch =>
        split at h
        · exact .inl h
        · rcases List.mem_append.mp h with h | h
          · exact .inl h
          · obtain rfl := List.mem_singleton.mp h
            exact .inr ⟨m, hmethod, hmatch⟩
      · exact .inl h
      · exact .inl h
    · exact .inl h

theorem lasting_echoed {token : MarkerPair → Bytes} : Lasting nonce (Echoed (ι := ι) token) where
  receive st data h := by
    intro j hj hf
    obtain ⟨l, hl, ht⟩ := h j hj hf
    refine ⟨l, hl, ?_⟩
    split_ifs at ht ⊢ with hc
    · exact mem_customTokens ht
    · simp only [Station.receive]
      split_ifs
      · exact ht
      · exact List.mem_append_left _ ht
  link _ _ _ h := h

/-- The lease that `leaseTokens` gave the job is held. -/
def Holds (j : JobRun) (lease : Option MarkerPair) (st : Station ι) : Prop :=
  st.job = some j ∧ ∀ pair ∈ lease, ∃ l ∈ st.lease, l.pair = pair

structure Held (j : JobRun) (lease : Option MarkerPair) (st : Station ι) : Prop where
  holds : Holds j lease st
  leased : Fenced j → lease.isSome

/-- The token of the fence of a part. -/
def tokenOf : Part → MarkerPair → Bytes
  | .cut => MarkerPair.cutToken
  | _ => MarkerPair.printToken

def Confirmed (j : JobRun) (part : Part) (lease : Option MarkerPair) (st : Station ι) : Prop :=
  Held j lease st ∧ Echoed (tokenOf part) st

theorem lasting_holds {j : JobRun} {lease : Option MarkerPair} :
    Lasting nonce (Holds (ι := ι) j lease) := ⟨fun _ _ h => h, fun _ _ _ h => h⟩

theorem lasting_held {j : JobRun} {lease : Option MarkerPair} :
    Lasting nonce (Held (ι := ι) j lease) :=
  ⟨fun _ _ h => ⟨h.holds, h.leased⟩, fun _ _ _ h => ⟨h.holds, h.leased⟩⟩

theorem lasting_confirmed {j : JobRun} {part : Part} {lease : Option MarkerPair} :
    Lasting nonce (Confirmed (ι := ι) j part lease) :=
  ⟨fun _ _ h => ⟨lasting_held.receive _ _ h.1, lasting_echoed.receive _ _ h.2⟩,
    fun _ _ _ h => ⟨⟨h.1.holds, h.1.leased⟩, h.2⟩⟩

/-- A wait is signalled only by the token it looks for. -/
theorem await_signalled {st st' : Station ι} {j : JobRun} {part : Part} {token : Bytes}
    {ch : Choice} (hfiled : ∀ t ∈ st.io.gshTokens, t ∈ st.heard) (hf : Fenced j)
    (hs : st.serve (.await part (j.fenceWait token)) ch = some (.signalled, st')) :
    token ∈ if j.custom.isSome then st'.io.customTokens else st'.heard := by
  obtain ⟨⟨b, io⟩, hio, he⟩ := Option.map_eq_some_iff.mp hs
  obtain ⟨rfl, rfl⟩ := Prod.mk.inj he
  cases ch with
  | go =>
    have hw := Option.some.inj hio
    by_cases hc : j.custom.isSome = true
    · rw [if_pos hc]
      simp only [JobRun.fenceWait, hc, if_true, Wait.apply, IoState.awaitCustomToken,
        Prod.mk.injEq, IoState.waitOutcome_eq_signalled, List.contains_iff_mem] at hw
      obtain ⟨hmem, rfl⟩ := hw
      exact hmem
    · rw [if_neg hc]
      have hg : j.profile.completion = .gsParenH := hf.resolve_right hc
      simp only [JobRun.fenceWait, hc, hg, if_true, if_false, Bool.false_eq_true, Wait.apply,
        IoState.awaitToken, Prod.mk.injEq, IoState.waitOutcome_eq_signalled,
        List.contains_iff_mem] at hw
      obtain ⟨hmem, rfl⟩ := hw
      exact hfiled _ hmem
  | _ => cases hio

/-! ### What an echo changes -/

/-- What is left of an echo of `t` that was read as one: no expectation is used up, nothing is
answered, and every wait goes as it would have gone, except one for that token, if it is ours. What
a registered matcher makes of the bytes is its own matter. -/
structure EchoOnly (nonce data t : Bytes) (s s' : IoState) : Prop where
  realtime : s'.parser.realtime = s.parser.realtime
  queued : s'.parser.queued = s.parser.queued
  queuedAnswers : s'.queuedAnswers = s.queuedAnswers
  realtimeAnswers : s'.realtimeAnswers = s.realtimeAnswers
  waits : ∀ w : Wait, (w = .token t → isOurs nonce t = false) →
    (∀ token m, w = .customToken token → s.customMethod = some m →
      m.matcher (s.customRx ++ data) ≠ .matched token) →
    (w.apply s').1 = (w.apply s).1

theorem echoOnly (nonce data t : Bytes) (s : IoState) (hm : s.starMode = false)
    (h : (s.parser.feed data).1 = [.gsHAck t]) :
    EchoOnly nonce data t s (s.onBytes nonce data).2 := by
  obtain ⟨rx, custom, hs⟩ := s.onBytes_filed nonce data hm
  have hk := ResponseParser.feed_kinds s.parser data
  have hq := ResponseParser.feed_queued s.parser data
  have hcustom : ∀ u, u ∈ (s.onBytes nonce data).2.customTokens →
      u ∈ s.customTokens ∨ ∃ m ∈ s.customMethod, m.matcher (s.customRx ++ data) = .matched u :=
    fun u => mem_of_mem_customTokens
  have hkeep : ∀ u, u ∈ s.customTokens → u ∈ (s.onBytes nonce data).2.customTokens :=
    fun u => mem_customTokens
  rw [h] at hk hq
  simp only [hs, h] at hcustom hkeep ⊢
  refine ⟨hk.symm, by simpa [ParsedEvent.isQueued] using hq, by simp [ParsedEvent.isQueued],
    by simp [ParsedEvent.isRealtime], fun w hw hwc => ?_⟩
  cases w with
  | token u =>
    have hc : (s.gshTokens ++ IoState.filedTokens nonce [.gsHAck t]).contains u =
        s.gshTokens.contains u := by
      by_cases hu : u = t
      · subst hu
        simp [IoState.filedTokens, hw rfl]
      · simp only [IoState.filedTokens, List.filterMap_cons, List.filterMap_nil]
        split <;> simp_all
    simp only [Wait.apply, IoState.awaitToken, IoState.waitOutcome, hc]
  | customToken u =>
    have hc : custom.contains u = s.customTokens.contains u := by
      refine Bool.eq_iff_iff.mpr ⟨fun hu => ?_, fun hu => ?_⟩ <;>
        rw [List.contains_iff_mem] at hu ⊢
      · rcases hcustom u hu with hu | ⟨m, hmethod, hmatch⟩
        · exact hu
        · exact absurd hmatch (hwc u m rfl hmethod)
      · exact hkeep u hu
    simp only [Wait.apply, IoState.awaitCustomToken, IoState.waitOutcome, hc]
  | queued =>
    simp [Wait.apply, IoState.awaitQueued, IoState.waitOutcome, ParsedEvent.isQueued]
    split <;> rfl
  | star => rfl

end Stations

section Runs
variable {ι : Type} [DecidableEq ι]

/-- A worker gives back what it holds, and confirms a fence by an echo of its token. -/
def allowed (i : ι) (c : Call) (s : State ι) : Prop :=
  match c with
  | .releaseTokens pair => ∃ l ∈ (s.stations i).lease, l.pair = pair
  | .recordState _ .printConfirmed _ _ _ => Echoed MarkerPair.printToken (s.stations i)
  | .recordState _ .cutCommandProcessed _ _ _ => Echoed MarkerPair.cutToken (s.stations i)
  | _ => True

abbrev contract (ι : Type) (nonce : Bytes) : Machine.Contract Worker ι (State ι) where
  inv := Sound nonce
  rest _ _ := True
  allowed := allowed

/-- The world of a worker. -/
abbrev fleetWorld (nonce : Bytes) (i : ι) : World Worker (State ι) :=
  (fleet ι).world (.none _) (contract ι nonce) i

/-- The calls that need nothing but the runtime. -/
def Single : Call → Prop
  | .acquireTokens | .releaseTokens _ => False
  | _ => True

omit [DecidableEq ι] in
theorem Quiet.single {c : Call} (h : Quiet c) : Single c := by
  cases c <;> trivial

theorem serve_single {c : Call} (hc : Single c) (i : ι) (ch : (fleet ι).Choice) (s : State ι) :
    (fleet ι).serve i c ch s = ((s.stations i).serve c ch).map fun r => (r.1, s.set i r.2) := by
  cases c <;> first | rfl | cases hc

variable {nonce : Bytes} {i : ι}

/-- What the others do to a runtime. -/
theorem others_station {s s' : State ι}
    (h : (fleet ι).Others (.none _) (contract ι nonce) i s s') :
    s'.stations i = s.stations i ∨
      (∃ data, s'.stations i = (s.stations i).receive nonce data) ∨
      ∃ linkDown stopping, s'.stations i =
        { s.stations i with
          io := { (s.stations i).io with linkDown := linkDown, stopping := stopping } } := by
  have hset : ∀ {j : ι} {st : Station ι}, j ≠ i → (s.set j st).stations i = s.stations i :=
    fun hj => Function.update_of_ne hj.symm _ _
  cases h with
  | event e hi _ he =>
    cases e with
    | receive j data =>
      cases he
      by_cases hj : j = i
      · subst hj
        exact .inr (.inl ⟨data, by rw [hi.ours]; exact Function.update_self ..⟩)
      · exact .inl (hset hj)
    | disconnect j | stop j =>
      cases he
      by_cases hj : j = i
      · subst hj
        exact .inr (.inr ⟨_, _, Function.update_self ..⟩)
      · exact .inl (hset hj)
  | serve j hj c ch a hi _ _ hs =>
    refine .inl ?_
    cases c with
    | acquireTokens =>
      cases ch with
      | go =>
        obtain ⟨slot, -, -, -, -, rfl⟩ := hi.acquire_spec hs
        exact hset hj
      | _ => cases hs
    | releaseTokens pair =>
      cases ch <;> cases hs
      exact hset hj
    | _ =>
      rw [serve_single (by trivial)] at hs
      obtain ⟨r, -, he⟩ := Option.map_eq_some_iff.mp hs
      cases he
      exact hset hj
  | start j hj t p hi hs =>
    cases hs
    exact .inl (hset hj)

theorem Lasting.stable {P : Station ι → Prop} (hP : Lasting nonce P) :
    Stable (fleetWorld nonce i) fun s => P (s.stations i) := by
  intro s s' h ho
  rcases others_station ho with he | ⟨data, he⟩ | ⟨linkDown, stopping, he⟩ <;> rw [he]
  · exact h
  · exact hP.receive _ _ h
  · exact hP.link _ _ _ h

/-- The rule for a call that needs nothing but the runtime. -/
theorem triple_single {c : Call} {P : Station ι → Prop} {Q : c.Answer → Station ι → Prop}
    (hc : Single c) (hP : Lasting nonce P) (ha : ∀ s, P (s.stations i) → allowed i c s)
    (hQ : ∀ a, Lasting nonce (Q a))
    (h : ∀ st ch a st', (∀ t ∈ st.io.gshTokens, t ∈ st.heard) → P st →
      st.serve c ch = some (a, st') → Q a st') :
    Triple (fleetWorld nonce i) (fun s => P (s.stations i)) (perform (E := Worker) c)
      fun a s => Q a (s.stations i) := by
  refine Triple.perform hP.stable ha (fun a => (hQ a).stable) fun s a s' hs ⟨hi, ch, _, hserve⟩ => ?_
  rw [serve_single hc] at hserve
  obtain ⟨⟨b, st⟩, hst, he⟩ := Option.map_eq_some_iff.mp hserve
  obtain ⟨rfl, rfl⟩ := Prod.mk.inj he
  simp only [State.set, Function.update_self]
  exact h _ ch _ st (hi.filed i) hs hst

omit [DecidableEq ι] in
theorem allowed_of_quiet {c : Call} {s : State ι} (h : Quiet c) : allowed i c s := by
  cases c with
  | recordState id state => cases state <;> trivial
  | releaseTokens => exact h.elim
  | _ => trivial

theorem Lasting.kept {P : Station ι → Prop} (hP : Lasting nonce P) :
    Kept (fleetWorld nonce i) fun s => P (s.stations i) := by
  refine ⟨hP.stable, fun hp => Triple.only hp hP.stable (fun _ _ hc _ => allowed_of_quiet hc) ?_⟩
  intro c s a s' hc hs ⟨hi, ch, _, hserve⟩
  rw [serve_single (Quiet.single hc)] at hserve
  obtain ⟨⟨b, st⟩, hst, he⟩ := Option.map_eq_some_iff.mp hserve
  obtain ⟨rfl, rfl⟩ := Prod.mk.inj he
  simp only [State.set, Function.update_self]
  rwa [serve_local hc.isLocal hst]

/-! ### The stages of a job -/

def assertions (j : JobRun) (i : ι) : Assertions (State ι) where
  Idle s := (s.stations i).job = some j
  Begun s := (s.stations i).job = some j
  Ready s := (s.stations i).job = some j
  Held lease s := Held j lease (s.stations i)
  Over lease s := Holds j lease (s.stations i)
  Asked _ lease s := Holds j lease (s.stations i)
  Read _ lease _ s := Holds j lease (s.stations i)
  Cleared _ s := (s.stations i).job = some j
  Armed _ lease s := Held j lease (s.stations i)
  Confirmed part lease s := Confirmed j part lease (s.stations i)

section Outline
variable {j : JobRun} {lease : Option MarkerPair}

/-- A call that the assertion survives. -/
theorem triple_keeps {c : Call} {P : Station ι → Prop} {Q : c.Answer → Station ι → Prop}
    (hc : Single c) (hr : Unrecorded c) (hP : Lasting nonce P) (hQ : ∀ a, Lasting nonce (Q a))
    (h : ∀ st st' a, st'.job = st.job → st'.lease = st.lease → P st → Q a st') :
    Triple (fleetWorld nonce i) (fun s => P (s.stations i)) (perform (E := Worker) c)
      fun a s => Q a (s.stations i) := by
  refine triple_single hc hP (fun s _ => ?_) hQ fun st ch a st' _ hp hs =>
    h st st' a (serve_lease hs).2 (serve_lease hs).1 hp
  cases c with
  | releaseTokens => exact hc.elim
  | recordState => exact hr.elim
  | _ => trivial

theorem triple_job {c : Call} (hc : Single c) (hr : Unrecorded c) {o : Option JobRun} :
    Triple (fleetWorld nonce i) (fun s => (s.stations i).job = o) (perform (E := Worker) c)
      fun _ s => (s.stations i).job = o :=
  triple_keeps (P := fun st => st.job = o) (Q := fun _ st => st.job = o) hc hr lasting_job
    (fun _ => lasting_job) fun _ _ _ hj _ h => hj.trans h

theorem triple_holds {c : Call} (hc : Single c) (hr : Unrecorded c) :
    Triple (fleetWorld nonce i) (fun s => Holds j lease (s.stations i)) (perform (E := Worker) c)
      fun _ s => Holds j lease (s.stations i) :=
  triple_keeps (Q := fun _ => Holds j lease) hc hr lasting_holds (fun _ => lasting_holds)
    fun st st' _ hj hl h => ⟨hj.trans h.1, by rw [hl]; exact h.2⟩

theorem triple_held {c : Call} (hc : Single c) (hr : Unrecorded c) :
    Triple (fleetWorld nonce i) (fun s => Held j lease (s.stations i)) (perform (E := Worker) c)
      fun _ s => Held j lease (s.stations i) :=
  triple_keeps (Q := fun _ => Held j lease) hc hr lasting_held (fun _ => lasting_held)
    fun st st' _ hj hl h => ⟨⟨hj.trans h.holds.1, by rw [hl]; exact h.holds.2⟩, h.leased⟩

/-- A wait is signalled only by the job's own token. -/
theorem triple_await {part : Part} :
    Triple (fleetWorld nonce i) (fun s => Held j lease (s.stations i))
      (perform (E := Worker)
        (.await part (j.fenceWait ((lease.map (tokenOf part)).getD []))))
      fun ack s => if ack = .signalled then Confirmed j part lease (s.stations i)
        else Holds j lease (s.stations i) := by
  refine triple_single (c := .await part (j.fenceWait ((lease.map (tokenOf part)).getD [])))
    (Q := fun (ack : WaitOutcome) st => if ack = .signalled then Confirmed j part lease st
      else Holds j lease st) trivial lasting_held (fun _ _ => trivial)
    (fun (ack : WaitOutcome) => ?_) ?_
  · by_cases ha : ack = .signalled
    · simpa only [ha, if_true] using lasting_confirmed
    · simpa only [ha, if_false] using lasting_holds
  intro st ch (ack : WaitOutcome) st' hfiled h hs
  obtain ⟨hl, hj⟩ := serve_lease hs
  have hheld : Held j lease st' := ⟨⟨hj.trans h.holds.1, by rw [hl]; exact h.holds.2⟩, h.leased⟩
  by_cases ha : ack = .signalled
  · simp only [ha, if_true]
    refine ⟨hheld, fun j' hj' hf => ?_⟩
    obtain rfl : j' = j := Option.some.inj (hj'.symm.trans hheld.holds.1)
    obtain ⟨pair, rfl⟩ := Option.isSome_iff_exists.mp (h.leased hf)
    obtain ⟨l, hmem, rfl⟩ := hheld.holds.2 pair rfl
    subst ha
    exact ⟨l, hmem, await_signalled hfiled hf hs⟩
  · simp only [ha, if_false]
    exact hheld.holds

/-- A job takes its tokens. -/
theorem triple_acquire :
    Triple (fleetWorld nonce i) (fun s => (s.stations i).job = some j)
      (perform (E := Worker) .acquireTokens)
      fun (pair : MarkerPair) s => Held j (some pair) (s.stations i) := by
  refine Triple.perform lasting_job.stable (fun _ _ => trivial) (fun _ => lasting_held.stable)
    fun s pair s' hj ⟨hi, ch, _, hs⟩ => ?_
  cases ch with
  | go =>
    obtain ⟨slot, -, -, -, -, rfl⟩ := hi.acquire_spec hs
    refine ⟨⟨by simpa [State.set] using hj, fun p hp => ?_⟩, fun _ => rfl⟩
    cases hp
    exact ⟨⟨i, slot, pair⟩, by simp [State.set], rfl⟩
  | _ => cases hs

theorem triple_lease :
    Triple (fleetWorld nonce i) (fun s => (s.stations i).job = some j) j.leaseTokens
      fun lease s => Held j lease (s.stations i) := by
  unfold JobRun.leaseTokens
  split
  next h =>
    refine Triple.ret lasting_job.stable fun s hj => ⟨⟨hj, nofun⟩, fun hf => ?_⟩
    rcases hf with hf | hf
    · exact absurd hf h.1
    · simp [Option.isNone_iff_eq_none.mp h.2] at hf
  · refine Triple.bind triple_acquire fun (pair : MarkerPair) => ?_
    refine Triple.bind (triple_held trivial trivial) fun _ => ?_
    refine Triple.bind (triple_held trivial trivial) fun _ => ?_
    refine Triple.bind (triple_held trivial trivial) fun _ => ?_
    exact Triple.ret lasting_held.stable fun _ h => h

/-- A job gives its tokens back. -/
theorem triple_release :
    Triple (fleetWorld nonce i) (fun s => Holds j lease (s.stations i)) (JobRun.releaseTokens lease)
      fun _ s => (s.stations i).job = some j := by
  cases lease with
  | none => exact Triple.ret lasting_holds.stable fun _ h => h.1
  | some pair =>
    refine Triple.perform lasting_holds.stable (fun s h => h.2 pair rfl)
      (fun _ => lasting_job.stable) fun s a s' h ⟨hi, ch, _, hs⟩ => ?_
    cases ch with
    | go =>
      cases hs
      simpa [State.release, State.set] using h.1
    | _ => cases hs

/-- The records that confirm no fence. -/
theorem triple_records {α : Type} {p : Prog Worker α} {P : Station ι → Prop} (hP : Lasting nonce P)
    (hp : p.Only fun c => Local c ∧ Single c ∧ ∀ s, P (s.stations i) → allowed i c s) :
    Triple (fleetWorld nonce i) (fun s => P (s.stations i)) p fun _ s => P (s.stations i) := by
  refine Triple.only hp hP.stable (fun c s hc => hc.2.2 s) ?_
  intro c s a s' ⟨hl, hc, _⟩ h ⟨hi, ch, _, hs⟩
  rw [serve_single hc] at hs
  obtain ⟨⟨b, st⟩, hst, he⟩ := Option.map_eq_some_iff.mp hs
  obtain ⟨rfl, rfl⟩ := Prod.mk.inj he
  simp only [State.set, Function.update_self]
  rwa [serve_local hl hst]

/-- A confirmation is recorded and published. -/
theorem triple_confirm {part : Part} {id : Bytes} {state : JobState} {c : ConfidenceLevel}
    {r : FailureReason} {e : JobEvidence}
    (h : ∀ s, Confirmed j part lease (s.stations i) → allowed i (.recordState id state c r e) s) :
    Triple (fleetWorld nonce i) (fun s => Confirmed j part lease (s.stations i))
      (advance id state c r e) fun _ s => Held j lease (s.stations i) :=
  (triple_records lasting_confirmed
    (advance_only (fun _ _ => ⟨trivial, trivial, fun _ _ => trivial⟩)
      ⟨trivial, trivial, h⟩)).conseq (fun _ h => h) fun _ _ h => h.1

theorem outline (hj : (j.profile.drivableByEscposEngine || j.custom.isSome) = true) :
    EscposOutline (fleetWorld nonce i) j (assertions j i) where
  idle := lasting_job.kept
  ready := lasting_job.kept
  held _ := lasting_held.kept
  ends _ := lasting_holds.kept
  asked _ _ _ := lasting_holds.kept
  read _ _ _ := lasting_holds.kept
  cleared _ := lasting_job.kept
  armed _ _ := lasting_held.kept
  connect := triple_job (by trivial) (by trivial)
  begun := triple_job (by trivial) (by trivial)
  custom := triple_job (by trivial) (by trivial)
  askPreflight := (triple_job (by trivial) (by trivial)).conseq (fun _ h => h) fun _ _ h => ⟨h, nofun⟩
  readPreflight := triple_holds (by trivial) (by trivial)
  clearPreflight _ := (triple_job (by trivial) (by trivial)).pre fun _ h => h.1
  refuse _ _ _ _ _ := triple_records lasting_job
    (terminate_only (fun _ _ => ⟨trivial, trivial, fun _ _ => trivial⟩)
      (fun _ _ => ⟨trivial, trivial, fun _ _ => trivial⟩) ⟨trivial, trivial, fun _ _ => trivial⟩)
  healthy _ _ _ _ _ := triple_records lasting_job
    (advance_only (fun _ _ => ⟨trivial, trivial, fun _ _ => trivial⟩)
      ⟨trivial, trivial, fun _ _ => trivial⟩)
  unread _ h := h
  lease := triple_lease
  release _ := triple_release
  armPrint _ := triple_armPrintFence lasting_held.kept
    (fun _ => triple_held (by trivial) (by trivial)) (fun _ => triple_held (by trivial) (by trivial)) hj
  awaitPrint _ := triple_await
  printConfirmed _ _ _ := triple_confirm fun _ h => h.2
  armCut _ := triple_armCut lasting_held.kept (fun _ => triple_held (by trivial) (by trivial))
    fun _ => triple_held (by trivial) (by trivial)
  awaitCut _ := triple_await
  cutConfirmed _ _ _ := triple_confirm fun _ h => h.2
  clearCutter _ := triple_held (by trivial) (by trivial)
  askCutter _ := (triple_held (by trivial) (by trivial)).conseq (fun _ h => h) fun _ _ h => h.holds
  readCutter _ := triple_holds (by trivial) (by trivial)
  unasked _ _ h := h
  fault _ _ _ _ _ := triple_records lasting_holds
    (terminate_only (fun _ _ => ⟨trivial, trivial, fun _ _ => trivial⟩)
      (fun _ _ => ⟨trivial, trivial, fun _ _ => trivial⟩) ⟨trivial, trivial, fun _ _ => trivial⟩)
  faultFree _ _ _ _ _ := triple_records lasting_holds
    (terminate_only (fun _ _ => ⟨trivial, trivial, fun _ _ => trivial⟩)
      (fun _ _ => ⟨trivial, trivial, fun _ _ => trivial⟩) ⟨trivial, trivial, fun _ _ => trivial⟩)
  overIdle _ h := h.1
  heldOver _ _ h := h.holds
  askedOver _ _ _ h := h
  readOver _ _ _ _ h := h
  armedOver _ _ _ h := h.holds

omit [DecidableEq ι] in
theorem unfenced {s : State ι} {token : MarkerPair → Bytes} (hf : ¬ Fenced j)
    (h : (s.stations i).job = some j) : Echoed token (s.stations i) := by
  intro j' hj' hf'
  exact absurd (Option.some.inj (hj'.symm.trans h) ▸ hf') hf

/-- A Star job confirms no fence by a token. -/
theorem starOutline (hf : ¬ Fenced j) :
    StarOutline (fleetWorld nonce i) j (fun s => (s.stations i).job = some j)
      (fun s => (s.stations i).job = some j) (fun s => (s.stations i).job = some j)
      (fun _ s => (s.stations i).job = some j) fun _ s => (s.stations i).job = some j where
  idle := lasting_job.kept
  ready := lasting_job.kept
  armed _ := lasting_job.kept
  connect := triple_job (by trivial) (by trivial)
  begun := triple_job (by trivial) (by trivial)
  enter := triple_job (by trivial) (by trivial)
  zero _ := triple_job (by trivial) (by trivial)
  arm _ := triple_job (by trivial) (by trivial)
  await _ := (triple_job (by trivial) (by trivial)).conseq (fun _ h => h) fun _ _ h => by
    split_ifs <;> exact h
  printConfirmed _ _ := triple_records lasting_job
    (advance_only (fun _ _ => ⟨trivial, trivial, fun _ _ => trivial⟩)
      ⟨trivial, trivial, fun _ h => unfenced hf h⟩)
  cutConfirmed _ _ := triple_records lasting_job
    (advance_only (fun _ _ => ⟨trivial, trivial, fun _ _ => trivial⟩)
      ⟨trivial, trivial, fun _ h => unfenced hf h⟩)
  disarmed _ _ h := h
  ends _ h := h

theorem triple_runJob : Triple (fleetWorld nonce i) (fun s => (s.stations i).job = some j) j.runJob
    fun _ _ => True := by
  unfold JobRun.runJob JobRun.runStages
  refine Triple.bind (R := fun _ s => (s.stations i).job = some j) ?_ fun _ =>
    Triple.ret lasting_job.stable fun _ _ => trivial
  split
  next hj => exact (outline hj).triple_runEscposJob
  next hj =>
    split
    next hstar =>
      have hf : ¬ Fenced j := by
        rintro (hf | hf)
        · simp [CapabilityProfile.drivableByStarEngine, isDrivableByStarEngine, hf] at hstar
        · simp [hf] at hj
      exact (starOutline hf).triple_runStarJob
    · exact lasting_job.kept.2 (failKnown_quiet (by decide) rfl)

end Outline

theorem guarded : Machine.Guarded (fleet ι) (.none _) (contract ι nonce) where
  serve i c ch s a s' hi _ ha hs := by
    cases c with
    | acquireTokens =>
      cases ch with
      | go => exact hi.acquire hs
      | _ => cases hs
    | releaseTokens pair =>
      obtain ⟨l, hl, rfl⟩ := ha
      cases ch <;> cases hs
      exact hi.release hl
    | _ =>
      rw [serve_single (by trivial)] at hs
      obtain ⟨⟨b, st⟩, hst, he⟩ := Option.map_eq_some_iff.mp hs
      cases he
      exact hi.set (serve_lease hst).1 (filed_serve (hi.filed i) hst)
  event e s s' hi _ he := by
    cases e with
    | receive j data =>
      cases he
      exact hi.set rfl (filed_receive (hi.filed j))
    | disconnect j | stop j =>
      cases he
      exact hi.set rfl (hi.filed j)
  start i t s p s' hi hs := by
    cases hs
    exact hi.set rfl (hi.filed i)
  restart := nofun
  program i t s p s' hi _ hs := by
    cases hs
    cases t with
    | job j _ => exact triple_runJob _ (by simp [State.set, taskJob])
    | refresh profile =>
      refine Triple.only refreshStatus_only (P := fun _ => True) (fun _ _ _ _ => trivial)
        (fun c s hc _ => ?_) (fun _ _ _ _ _ _ _ => trivial) _ trivial
      cases c <;> trivial

/-! ### Attribution -/

omit [DecidableEq ι] in
/-- From the older lease to the newer one the sequence does not come round: fewer than 4418 slots
lie between, drawn or passed over, and the doubled 32-bit counter does not wrap. -/
def Near (l l' : Lease ι) : Prop := l'.slot < l.slot + 4418 ∧ l.slot / 2 ^ 31 = l'.slot / 2 ^ 31

/-- The token of the worker's own lease was echoed, and it is a token of no other lease near it. -/
def Attributed (token : MarkerPair → Bytes) (s : State ι) (i : ι) (j : JobRun) : Prop :=
  ∃ l ∈ (s.stations i).lease, l ∈ s.leases ∧
    (token l.pair ∈ if j.custom.isSome then (s.stations i).io.customTokens
      else (s.stations i).heard) ∧
    l.pair.printToken ≠ l.pair.cutToken ∧
    ∀ l' ∈ s.leases, l' ≠ l → (l'.slot < l.slot → Near l' l) → Apart l.pair l'.pair

omit [DecidableEq ι] in
theorem attributed {s : State ι} {j : JobRun} {token : MarkerPair → Bytes} (hi : Sound nonce s)
    (he : Echoed token (s.stations i)) (hj : (s.stations i).job = some j) (hf : Fenced j) :
    Attributed token s i j := by
  obtain ⟨l, hl, ht⟩ := he j hj hf
  obtain ⟨hmem, -, -⟩ := hi.held i l hl
  obtain ⟨-, hpair⟩ := hi.drawn l hmem
  refine ⟨l, hl, hmem, ht, ?_, fun l' hl' hne hnear => ?_⟩
  · rw [hpair]
    exact printToken_ne_cutToken _ _ _
  · rcases lt_trichotomy l.slot l'.slot with hlt | heq | hgt
    · exact hi.later i l hl l' hl' hlt
    · exact absurd (hi.unique hl' hmem heq.symm) hne
    · obtain ⟨hn, hw⟩ := hnear hgt
      rw [hpair, (hi.drawn l' hl').2]
      exact (apart_of_near hgt hn hw).symm

/-- **Attribution of `GS ( H` echoes.** In every run of every number of printers, a job whose fences
are answered by tokens records `PrintConfirmed` only after an echo of its own print token was read
since it began, and `CutCommandProcessed` only after one of its own cut token; both differ from
the tokens of every other lease near its own. An echo that is read as one is nothing else: it uses
up no expectation and ends no other wait, and none at all if it is not ours. -/
theorem confirmed_by_own_echo (nonce : Bytes) {cfg : Config Worker ι (State ι)}
    (h : (fleet ι).Reach (.none _) (begin ι nonce) cfg) :
    (∀ (i : ι) (id : Bytes) (state : JobState) (c : ConfidenceLevel) (r : FailureReason)
      (e : JobEvidence) (k : Unit → Prog Worker Unit) (j : JobRun),
      cfg.prog i = .call (.recordState id state c r e : Call) k →
      (cfg.state.stations i).job = some j → Fenced j →
      (state = .printConfirmed → Attributed MarkerPair.printToken cfg.state i j) ∧
        (state = .cutCommandProcessed → Attributed MarkerPair.cutToken cfg.state i j)) ∧
    ∀ (s : IoState) (data t : Bytes), s.starMode = false →
      (s.parser.feed data).1 = [.gsHAck t] →
      EchoOnly nonce data t s (s.onBytes nonce data).2 := by
  refine ⟨fun i id state c r e k j hc hj hf => ?_, fun s data t => echoOnly nonce data t s⟩
  have hrest : ∀ i, Safe (fleetWorld nonce i) (fun _ _ => True) (.ret ()) (begin ι nonce) :=
    fun _ _ _ => trivial
  have hi : Sound nonce cfg.state := (guarded.reach sound_begin hrest h).1
  have ha : allowed i _ cfg.state := guarded.allowed sound_begin hrest h hc
  refine ⟨fun hs => ?_, fun hs => ?_⟩ <;> subst hs <;> exact attributed hi ha hj hf

end Runs

/-! ### Receipts -/

section Receipts

def receiptJob (preflight : PreflightMode) : JobRun where
  id := str "job"
  key := []
  payload := .raw (str "hi")
  options := { preflight := preflight, printVerificationId := false }
  attempt := 1
  banner := false
  profile := { completion := .gsParenH }
  widthDots := 576
  codecs := Encoder.plainCodecs
  completionMethod := fun _ => none

def receipt : AnyTask := .job (receiptJob .skip) trivial

def toLease : List Choice := [.connected true, .go, .go]

/-- From the lease to the wait for the print fence. -/
def toFence : List Choice :=
  [.go, .go, .go, .go, .go, .wrote ⟨true, 0⟩, .wrote ⟨true, 0⟩, .go, .go]

/-- From the lease to the end, when the payload is refused. -/
def toRefusal : List Choice :=
  [.go, .go, .go, .go, .go, .wrote ⟨false, 0⟩, .go, .go, .go, .go]

def toEnd : List Choice := [.go, .go, .go, .go]

def echo (t : Bytes) : Bytes := [0x37, 0x22] ++ t ++ [0]

def nonce : Bytes := str "PD"

/-- The tokens of slot 1, and of other slots. -/
def pair₁ : MarkerPair := ⟨str "PD!#", str "PD!$"⟩


abbrev Two : Machine Worker Bool (State Bool) := fleet Bool

/-- A call that changes nothing. -/
theorem drive_still {c : Call} {ch : Choice} {chs : List Choice} {k : c.Answer → Prog Worker Unit}
    {s : State Bool} (a : c.Answer) (hc : Single c) (hb : ∀ st : Station Bool, st.hear c = st)
    (h : ∀ io, serveIo c ch io = some (a, io)) :
    Two.drive true (ch :: chs) (.call c k) s = Two.drive true chs (k a) s := by
  have hs : Two.serve true c ch s = some (a, s) := by
    refine (serve_single hc true ch s).trans ?_
    simp only [Station.serve, h, Option.map_some, hb, State.set, Function.update_eq_self]
  unfold Machine.drive
  rw [hs]
  rfl

/-- The draws and the leases. -/
def ledger (s : State Bool) : ℕ × List (Lease Bool) := (s.drawn, s.leases)

/-- From the wait on: confirmed when it is signalled, else over. -/
def Ends (k : WaitOutcome → Prog Worker Unit) : Prop :=
  (∃ k', k .signalled =
    .call (.recordState (str "job") .printConfirmed .printConfirmed .none {}) k') ∧
  ∀ ack s, ack ≠ .signalled → ∃ s', Two.drive true toEnd (k ack) s = some (.ret (), s') ∧
    s'.markers = s.markers.release pair₁ ∧ ledger s' = ledger s

/-- From the lease on: over when the payload is refused, else the wait. -/
def Rest (k : MarkerPair → Prog Worker Unit) : Prop :=
  (∀ pair s, ∃ s', Two.drive true toRefusal (k pair) s = some (.ret (), s') ∧
    s'.markers = s.markers.release pair ∧ ledger s' = ledger s) ∧
  ∃ k', (∀ s, Two.drive true toFence (k pair₁) s =
      some (.call (.await .printFence (.token pair₁.printToken)) k', s)) ∧ Ends k'

/-- What a receipt on the second printer does, in every state. -/
theorem drive_receipt (s : State Bool) :
    ∃ (k : MarkerPair → Prog Worker Unit) (s₁ : State Bool),
      Two.drive true toLease (receiptJob .skip).runJob s = some (.call .acquireTokens k, s₁) ∧
      s₁.markers = s.markers ∧ ledger s₁ = ledger s ∧
      ((s₁.stations true).heard = [] ∧ (s₁.stations true).io.gshTokens = [] ∧
        (s₁.stations true).io.parser = {} ∧ (s₁.stations true).io.starMode = false) ∧
      Rest k := by
  refine ⟨_, _, rfl, rfl, rfl, ⟨rfl, rfl, rfl, rfl⟩,
    fun pair s₂ => ⟨s₂.release true pair, ?_, rfl, rfl⟩, ?k, fun s₂ => ?send,
    ?confirm, fun ack s₄ ha => ?fail⟩
  · iterate 5 refine Eq.trans (drive_still () trivial (fun _ => rfl) fun _ => rfl) ?_
    refine Eq.trans (drive_still (⟨false, 0⟩ : TransportResult) trivial (fun _ => rfl) fun _ => rfl) ?_
    iterate 3 refine Eq.trans (drive_still () trivial (fun _ => rfl) fun _ => rfl) ?_
    rfl
  case send =>
    iterate 5 refine Eq.trans (drive_still () trivial (fun _ => rfl) fun _ => rfl) ?_
    iterate 2 refine Eq.trans (drive_still (⟨true, 0⟩ : TransportResult) trivial
      (fun _ => rfl) fun _ => rfl) ?_
    iterate 2 refine Eq.trans (drive_still () trivial (fun _ => rfl) fun _ => rfl) ?_
    rfl
  case confirm => exact ⟨_, rfl⟩
  case fail =>
    refine ⟨s₄.release true pair₁, ?_, rfl, rfl⟩
    cases ack with
    | signalled => exact absurd rfl ha
    | _ =>
      iterate 3 refine Eq.trans (drive_still () trivial (fun _ => rfl) fun _ => rfl) ?_
      rfl

abbrev Reached (cfg : Config Worker Bool (State Bool)) : Prop :=
  Two.Reach (.none _) (begin Bool nonce) cfg

/-- The second printer is idle; the allocator, the draws and the leases are as given. -/
structure Idle (markers : MarkerAllocator) (drawn : ℕ) (leases : List (Lease Bool))
    (cfg : Config Worker Bool (State Bool)) : Prop where
  reached : Reached cfg
  idle : cfg.prog true = .ret ()
  markers : cfg.state.markers = markers
  book : ledger cfg.state = (drawn, leases)

variable {cfg : Config Worker Bool (State Bool)} {a a' : MarkerAllocator}
  {d : ℕ} {L : List (Lease Bool)} {pair : MarkerPair}

theorem Idle.start (h : Idle a d L cfg) : ∃ cfg', Reached cfg' ∧
    cfg'.prog true = (receiptJob .skip).runJob ∧ cfg'.state.markers = a ∧
    ledger cfg'.state = (d, L) := by
  refine ⟨⟨Function.update cfg.prog true (receiptJob .skip).runJob,
    cfg.state.set true { cfg.state.stations true with job := some (receiptJob .skip) }⟩,
    h.reached.step (.start true receipt) trivial ?_,
    Function.update_self true _ cfg.prog, h.markers, h.book⟩
  simp only [Machine.step, h.idle]
  rfl

/-- The lease that is taken when the slots up to `a'` are drawn. -/
def newLease (a a' : MarkerAllocator) (d : ℕ) (pair : MarkerPair) : Lease Bool :=
  ⟨true, d + (a'.next - a.next).toNat - 1, pair⟩

theorem serve_acquire {s : State Bool} (h : s.markers.acquire = some (pair, a')) :
    ∃ s₂, Two.serve true .acquireTokens Choice.go s = some (pair, s₂) ∧ s₂.markers = a' ∧
      ledger s₂ = (s.drawn + (a'.next - s.markers.next).toNat,
        newLease s.markers a' s.drawn pair :: s.leases) ∧
      (s₂.stations true).lease = some (newLease s.markers a' s.drawn pair) ∧
      (s₂.stations true).io = (s.stations true).io ∧
      (s₂.stations true).heard = (s.stations true).heard :=
  ⟨_, congrArg (Option.map _) h, rfl, rfl, rfl, rfl, rfl⟩

/-- A receipt up to its lease. -/
theorem Idle.lease (h : Idle a d L cfg) (ha : a.acquire = some (pair, a')) :
    ∃ (k : MarkerPair → Prog Worker Unit) (cfg' : Config Worker Bool (State Bool)),
      Reached cfg' ∧ cfg'.prog true = k pair ∧ cfg'.state.markers = a' ∧
      ledger cfg'.state = (d + (a'.next - a.next).toNat, newLease a a' d pair :: L) ∧
      (cfg'.state.stations true).lease = some (newLease a a' d pair) ∧
      ((cfg'.state.stations true).heard = [] ∧ (cfg'.state.stations true).io.gshTokens = [] ∧
        (cfg'.state.stations true).io.parser = {} ∧
        (cfg'.state.stations true).io.starMode = false) ∧
      Rest k := by
  obtain ⟨cfg₁, hr, hp₁, hm₁, hb₁⟩ := h.start
  obtain ⟨k, s₁, hd, hm, hb, hst, hrest⟩ := drive_receipt cfg₁.state
  obtain ⟨s₂, hs, hm', hb', hlease, hio, hheard⟩ := serve_acquire (by rw [hm, hm₁, ha])
  obtain ⟨hd₁, hl₁⟩ := Prod.mk.inj (hb.trans hb₁)
  rw [hd₁, hl₁, hm, hm₁] at hb'
  rw [hd₁, hm, hm₁] at hlease
  obtain ⟨mid, hr, hcall, rfl, -⟩ := Machine.reach_of_drive hr (by rw [hp₁]; exact hd)
  have hall : Two.drive true [.go] (mid.prog true) mid.state = some (k pair, s₂) := by
    rw [hcall]
    exact congrArg (fun o => o.bind fun r => some (k r.1, r.2)) hs
  obtain ⟨cfg', hr, hp', rfl, -⟩ := Machine.reach_of_drive hr hall
  refine ⟨k, cfg', hr, hp', hm', hb', hlease, ?_, hrest⟩
  rw [hheard, hio]
  exact hst

/-- A receipt whose payload is refused. -/
theorem Idle.refused (h : Idle a d L cfg) (ha : a.acquire = some (pair, a')) :
    ∃ cfg' l, Idle (a'.release pair) (d + (a'.next - a.next).toNat) (l :: L) cfg' := by
  obtain ⟨k, mid, hr, hp, hm, hb, -, -, hrest⟩ := h.lease ha
  obtain ⟨s₃, hd, hm', hb'⟩ := hrest.1 pair mid.state
  obtain ⟨cfg', hr', hp', rfl, -⟩ := Machine.reach_of_drive hr (by rw [hp]; exact hd)
  exact ⟨cfg', _, hr', hp', hm'.trans (by rw [hm]), hb'.trans hb⟩

/-- A receipt that waits for the echo of its print token. -/
structure Waiting (k : WaitOutcome → Prog Worker Unit) (a : MarkerAllocator) (d : ℕ)
    (l : Lease Bool) (L : List (Lease Bool)) (cfg : Config Worker Bool (State Bool)) : Prop where
  reached : Reached cfg
  waits : cfg.prog true = .call (.await .printFence (.token pair₁.printToken)) k
  markers : cfg.state.markers = a
  book : ledger cfg.state = (d, l :: L)
  lease : (cfg.state.stations true).lease = some l
  fresh : (cfg.state.stations true).heard = [] ∧ (cfg.state.stations true).io.gshTokens = [] ∧
    (cfg.state.stations true).io.parser = {} ∧ (cfg.state.stations true).io.starMode = false
  ends : Ends k

theorem Idle.waiting (h : Idle a d L cfg) (ha : a.acquire = some (pair₁, a')) :
    ∃ k cfg', Waiting k a' (d + (a'.next - a.next).toNat) (newLease a a' d pair₁) L cfg' := by
  obtain ⟨k, mid, hr, hp, hm, hb, hlease, hfresh, hrest⟩ := h.lease ha
  obtain ⟨k', hd, hends⟩ := hrest.2
  obtain ⟨cfg', hr', hp', hs, -⟩ := Machine.reach_of_drive hr (by rw [hp]; exact hd mid.state)
  rw [← hs] at hm hb hlease hfresh
  exact ⟨k', cfg', hr', hp', hm, hb, hlease, hfresh, hends⟩

variable {k : WaitOutcome → Prog Worker Unit} {l : Lease Bool}

/-- The wait times out. -/
theorem Waiting.unanswered (h : Waiting k a d l L cfg) :
    ∃ cfg', Idle (a.release pair₁) d (l :: L) cfg' := by
  have hout : (cfg.state.stations true).io.awaitToken pair₁.printToken ≠ .signalled := by
    rw [IoState.awaitToken, h.fresh.2.1]
    exact fun hw => absurd (IoState.waitOutcome_eq_signalled.mp hw) (by decide)
  have hserve : Two.serve true (.await .printFence (.token pair₁.printToken)) Choice.go cfg.state =
      some ((cfg.state.stations true).io.awaitToken pair₁.printToken,
        cfg.state.set true (cfg.state.stations true)) := rfl
  obtain ⟨s₅, hd, hm, hl⟩ := h.ends.2 _ (cfg.state.set true (cfg.state.stations true)) hout
  have hall : Two.drive true (.go :: toEnd) (cfg.prog true) cfg.state = some (.ret (), s₅) := by
    rw [h.waits]
    exact (congrArg (fun o => o.bind fun r => Two.drive true toEnd (k r.1) r.2) hserve).trans hd
  obtain ⟨cfg', hr, hp, rfl, -⟩ := Machine.reach_of_drive h.reached hall
  exact ⟨cfg', hr, hp, hm.trans (by rw [State.set]; exact congrArg (·.release pair₁) h.markers),
    hl.trans h.book⟩

theorem receive_echo {st : Station Bool} (hheard : st.heard = []) (hgsh : st.io.gshTokens = [])
    (hparser : st.io.parser = {}) (hmode : st.io.starMode = false) :
    (st.receive nonce (echo pair₁.printToken)).heard = [pair₁.printToken] ∧
      (st.receive nonce (echo pair₁.printToken)).io.gshTokens = [pair₁.printToken] := by
  have hfeed : st.io.parser.feed (echo pair₁.printToken) = ([.gsHAck pair₁.printToken], {}) := by
    rw [hparser]
    rfl
  obtain ⟨rx, custom, hf⟩ := st.io.onBytes_filed nonce (echo pair₁.printToken) hmode
  constructor
  · simp only [Station.receive, hmode, hheard, hfeed]
    rfl
  · simp only [Station.receive, hf, hgsh, hfeed]
    rfl

/-- The echo arrives, and the receipt is confirmed. -/
theorem Waiting.answered (h : Waiting k a d l L cfg) (hn : a.nonce = nonce) :
    ∃ (cfg' : Config Worker Bool (State Bool)) (k' : Unit → Prog Worker Unit), Reached cfg' ∧
      cfg'.prog true =
        .call (.recordState (str "job") .printConfirmed .printConfirmed .none {}) k' ∧
      (cfg'.state.stations true).lease = some l ∧
      (cfg'.state.stations true).heard = [pair₁.printToken] ∧ cfg'.state.leases = l :: L := by
  obtain ⟨hheard, hgsh, hparser, hmode⟩ := h.fresh
  obtain ⟨k', hk'⟩ := h.ends.1
  obtain ⟨hheard', hgsh'⟩ := receive_echo hheard hgsh hparser hmode
  have hnonce : cfg.state.markers.nonce = nonce := by rw [h.markers, hn]
  obtain ⟨st, hst⟩ : ∃ st, st = (cfg.state.stations true).receive nonce (echo pair₁.printToken) :=
    ⟨_, rfl⟩
  have hr : Reached ⟨cfg.prog, cfg.state.set true st⟩ := by
    refine h.reached.step (.event (.receive true (echo pair₁.printToken))) trivial ?_
    rw [hst, ← hnonce]
    rfl
  have hstation : ∀ s : State Bool, (s.set true st).stations true = st :=
    fun s => by simp [State.set]
  have hserve : Two.serve true (.await .printFence (.token pair₁.printToken)) Choice.go
      (cfg.state.set true st) = some (.signalled, (cfg.state.set true st).set true st) := by
    refine (serve_single (by trivial) true Choice.go _).trans ?_
    rw [hstation]
    have hw : st.io.awaitToken pair₁.printToken = .signalled := by
      rw [IoState.awaitToken, hst, hgsh']
      rfl
    simp only [Station.serve, serveIo, Wait.apply, hw, Station.hear, Option.map_some]
  have hall : Two.drive true [.go] (cfg.prog true) (cfg.state.set true st) =
      some (k .signalled, (cfg.state.set true st).set true st) := by
    rw [h.waits]
    exact congrArg (fun o => o.bind fun r => some (k r.1, r.2)) hserve
  obtain ⟨cfg', hr', hp', hs', -⟩ := Machine.reach_of_drive hr hall
  refine ⟨cfg', k', hr', hp'.trans hk', ?_⟩
  rw [hs', hstation, hst]
  exact ⟨h.lease, hheard', congrArg Prod.snd h.book⟩

/-! ### Runs in which the sequence comes round -/

/-- The tokens of the slot are not in use. -/
def Free (inUse : List Bytes) (slot : ℕ) : Prop :=
  (pairAt nonce (UInt32.ofNat slot)).printToken ∉ inUse ∧
    (pairAt nonce (UInt32.ofNat slot)).cutToken ∉ inUse

variable {inUse : List Bytes} {m : ℕ}

theorem acquire_free (h : Free inUse m) : MarkerAllocator.acquire ⟨nonce, UInt32.ofNat m, inUse⟩ =
    some (pairAt nonce (UInt32.ofNat m), ⟨nonce, UInt32.ofNat (m + 1),
      (pairAt nonce (UInt32.ofNat m)).printToken ::
        (pairAt nonce (UInt32.ofNat m)).cutToken :: inUse⟩) := by
  show MarkerAllocator.acquireWithin (4417 + 1) _ = _
  unfold MarkerAllocator.acquireWithin
  simp only [Bool.or_eq_true, List.contains_iff_mem, h.1, h.2, or_self, if_false, UInt32.ofNat_add]
  rfl

theorem release_free {pair : MarkerPair}
    (h : pair.printToken ∉ inUse ∧ pair.cutToken ∉ inUse) (next : UInt32) : MarkerAllocator.release
      ⟨nonce, next, pair.printToken :: pair.cutToken :: inUse⟩ pair = ⟨nonce, next, inUse⟩ := by
  simp only [MarkerAllocator.release, List.filter_cons, ne_eq, decide_not, decide_true,
    Bool.not_true, Bool.false_and, Bool.and_false, Bool.false_eq_true, if_false]
  congr 1
  refine List.filter_eq_self.mpr fun t ht => ?_
  simp only [Bool.and_eq_true, Bool.not_eq_true', decide_eq_false_iff_not]
  exact ⟨fun he => h.1 (he ▸ ht), fun he => h.2 (he ▸ ht)⟩

theorem draws_one : (UInt32.ofNat (m + 1) - UInt32.ofNat m).toNat = 1 := by
  rw [UInt32.ofNat_add, UInt32.add_comm, UInt32.add_sub_cancel]
  rfl

/-- Any number of receipts whose payloads are refused, one slot each. -/
theorem Idle.refusals : ∀ (n : ℕ) {m : ℕ} {L : List (Lease Bool)}
    {cfg : Config Worker Bool (State Bool)}, Idle ⟨nonce, UInt32.ofNat m, inUse⟩ m L cfg →
    (∀ slot, m ≤ slot → slot < m + n → Free inUse slot) →
    ∃ cfg' newer, Idle ⟨nonce, UInt32.ofNat (m + n), inUse⟩ (m + n) (newer ++ L) cfg' ∧
      newer.length = n
  | 0, _, _, _, h, _ => ⟨_, [], h, rfl⟩
  | n + 1, m, L, cfg, h, hfree => by
    have hm : Free inUse m := hfree m (le_refl m) (by omega)
    obtain ⟨mid, l, hmid⟩ := h.refused (acquire_free hm)
    rw [release_free hm, draws_one] at hmid
    obtain ⟨cfg', newer, h', hlen⟩ := hmid.refusals n fun slot hge hlt =>
      hfree slot (by omega) (by omega)
    refine ⟨cfg', newer ++ [l], ?_, by simp [hlen]⟩
    rw [List.append_assoc, List.singleton_append, show m + (n + 1) = m + 1 + n by omega]
    exact h'

/-- A job is confirmed by the echo of the token of another one, although it has taken its lease
fewer than 4418 leases later. -/
def Misattributed (slots : ℕ → ℕ → Prop) : Prop :=
  ∃ (cfg : Config Worker Bool (State Bool)) (l l' : Lease Bool) (newer older : List (Lease Bool))
    (id : Bytes) (c : ConfidenceLevel) (r : FailureReason) (e : JobEvidence)
    (k : Unit → Prog Worker Unit), Reached cfg ∧
      cfg.prog true = .call (.recordState id .printConfirmed c r e) k ∧
      (cfg.state.stations true).lease = some l' ∧
      (cfg.state.stations true).heard = [l.pair.printToken] ∧
      cfg.state.leases = l' :: newer ++ l :: older ∧ newer.length + 1 < 4418 ∧ slots l.slot l'.slot

/-- A receipt that is given up at slot `m`, `n` others, and one that is leased the same tokens. -/
theorem Idle.misattributed {n : ℕ} (h : Idle ⟨nonce, UInt32.ofNat m, inUse⟩ m L cfg)
    (hpair : pairAt nonce (UInt32.ofNat m) = pair₁) (hn : n + 1 < 4418)
    (hfree : ∀ slot, m ≤ slot → slot < m + 1 + n → Free inUse slot)
    (hlast : MarkerAllocator.acquire ⟨nonce, UInt32.ofNat (m + 1 + n), inUse⟩ = some (pair₁, a))
    (ha : a.nonce = nonce) : Misattributed fun slot slot' => slot = m ∧
      slot' = m + 1 + n + (a.next - UInt32.ofNat (m + 1 + n)).toNat - 1 := by
  have hm : Free inUse m := hfree m (le_refl m) (by omega)
  have hacq := acquire_free hm
  have hrel := release_free hm (UInt32.ofNat (m + 1))
  rw [hpair] at hacq hrel
  obtain ⟨k, cfg₁, hw⟩ := h.waiting hacq
  obtain ⟨cfg₂, hidle⟩ := hw.unanswered
  rw [hrel, draws_one] at hidle
  obtain ⟨cfg₃, newer, hidle, hlen⟩ := hidle.refusals n fun slot hge hlt =>
    hfree slot (by omega) hlt
  obtain ⟨k', cfg₄, hw'⟩ := hidle.waiting hlast
  obtain ⟨cfg', k'', hr, hc, hlease, hheard, hl⟩ := hw'.answered ha
  exact ⟨cfg', _, _, newer, L, _, _, _, _, k'', hr, hc, hlease, hheard, hl, by omega,
    by rw [newLease, draws_one, Nat.add_sub_cancel], rfl⟩

/-- The calls of a worker, answered one after another. -/
def served {ι : Type} [DecidableEq ι] (i : ι) (chs : List Choice) : List (fleet ι).Move :=
  chs.map fun ch => .serve i ch

theorem echo_receipt_confirmed : ∃ cfg : Config Worker Unit (State Unit),
    (fleet Unit).Reach (.none _) (begin Unit nonce) cfg ∧
      Attributed MarkerPair.printToken cfg.state () (receiptJob .skip) := by
  let token := (pairAt nonce 0).printToken
  have hp : (Machine.pending (.none (fleet Unit))
      (.start () receipt :: served () (toLease ++ [.go] ++ toFence) ++
        [.event (.receive () (echo token))] ++ served () [.go]) (begin Unit nonce) ()).map
        (fun x => (x.1, (x.2.stations ()).job)) =
      some (.recordState (str "job") .printConfirmed .printConfirmed .none {},
        some (receiptJob .skip)) := by rfl
  obtain ⟨cfg, c, k, hr, hk, hf⟩ := Machine.reach_of_pending hp
  obtain ⟨rfl, hj⟩ := Prod.mk.inj hf
  exact ⟨cfg, hr, ((confirmed_by_own_echo nonce hr).1 () _ _ _ _ _ k _ hk hj (.inl rfl)).1 rfl⟩

/-- The first printer has leased slot 0 and prints on. -/
theorem first_leases : ∃ cfg L, Idle ⟨nonce, UInt32.ofNat 1,
    [(pairAt nonce 0).printToken, (pairAt nonce 0).cutToken]⟩ 1 L cfg := by
  have hr : Machine.replay (.none Two) (.start false receipt :: served false (toLease ++ [.go]))
      (Machine.idle (begin Bool nonce)) = some _ := rfl
  exact ⟨_, _, Machine.reach_of_replay .init hr, rfl, rfl, rfl⟩

/-- The bytes of one echo of a foreign token, cut by the start of a job. -/
def tornEcho : List (fleet Unit).Move :=
  let token := str "XY22"
  .start () (.job (receiptJob .strict) trivial) :: served () [.connected true] ++
    [.event (.receive () ((echo token).take 4))] ++ served () [.go, .go, .go] ++
    [.event (.receive () ((echo token).drop 4))]

/-- Fewer than 4418 leases are not enough when slots are passed over, nor when the doubled counter
wraps between them; and an echo that is cut in two by the start of a job is read byte by byte, so that
a foreign one answers two of the four requests of the preflight. -/
theorem echo_misattributed :
    Misattributed (fun slot slot' => slot / 2 ^ 31 = slot' / 2 ^ 31) ∧
    Misattributed (fun slot slot' => slot' < slot + 4418) ∧
    ∃ cfg, Machine.replay (.none (fleet Unit)) tornEcho (Machine.idle (begin Unit nonce)) = some cfg ∧
      (cfg.state.stations ()).io.parser.realtime = [.errorCause, .paperSensor] := by
  refine ⟨?_, ?_, _, rfl, rfl⟩
  · obtain ⟨cfg, L, h⟩ := first_leases
    have hfree : ∀ slot, 1 ≤ slot → slot < 1 + 1 + 4416 →
        Free [(pairAt nonce 0).printToken, (pairAt nonce 0).cutToken] slot := by
      intro slot hge hlt
      have hapart : Apart (pairAt nonce (UInt32.ofNat 0)) (pairAt nonce (UInt32.ofNat slot)) :=
        apart_of_near (by omega) (by omega) (by omega)
      obtain ⟨h1, h2, h3, h4⟩ := hapart.symm
      exact ⟨by simpa using ⟨h1, h2⟩, by simpa using ⟨h3, h4⟩⟩
    obtain ⟨cfg', l, l', newer, older, id, c, r, e, k, hr, hc, hl, hh, hL, hn, hm, hm'⟩ :=
      h.misattributed (n := 4416) rfl (by omega) hfree rfl rfl
    exact ⟨cfg', l, l', newer, older, id, c, r, e, k, hr, hc, hl, hh, hL, hn, by rw [hm, hm']; rfl⟩
  · have hfree : ∀ slot, Free [] slot := fun _ => ⟨List.not_mem_nil, List.not_mem_nil⟩
    have hbegin : Idle ⟨nonce, UInt32.ofNat 0, []⟩ 0 [] (Machine.idle (begin Bool nonce)) :=
      ⟨.init, rfl, rfl, rfl⟩
    obtain ⟨cfg, newer, h, -⟩ := hbegin.refusals (2 ^ 31 - 4297) fun slot _ _ => hfree slot
    rw [Nat.zero_add] at h
    obtain ⟨cfg', l, l', newer, older, id, c, r, e, k, hr, hc, hl, hh, hL, hn, hm, hm'⟩ :=
      h.misattributed (n := 4297) rfl (by omega) (fun slot _ _ => hfree slot)
        ((acquire_free (hfree _)).trans rfl) rfl
    refine ⟨cfg', l, l', newer, older, id, c, r, e, k, hr, hc, hl, hh, hL, hn, ?_⟩
    rw [hm, hm', draws_one]
    omega

end Receipts

end PrinterDriver.Engine.GsParenH
