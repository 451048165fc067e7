import PrinterDriver.Engine.DriverRuns

/-! # The index of the keys

In every reachable state the file says what the store says (`Lasting`), and the index of the keys
stands for the same jobs as the store's own index (`Indexed`), whatever processes have died. A process
that starts finds, for each of its records, one of the records there were (`reopened`). -/

namespace PrinterDriver.Engine.Keys

open PrinterDriver.Lib.Programs PrinterDriver.Lib.Threads PrinterDriver.Core.Types PrinterDriver.Core.Journal
  PrinterDriver.Core.Store PrinterDriver.Core.StoreRuns PrinterDriver.Core.FailedAppends
  PrinterDriver.Core.Crashes PrinterDriver.Engine.Ops PrinterDriver.Engine.RunJob
  PrinterDriver.Engine.Driver
  PrinterDriver.Engine.DriverRuns

open State

/-! ### The store's own index -/

section Store
variable {jobs : List JobRecord} {key id : Bytes}

/-- A key stands for a record that has it. -/
theorem indexKeys_eq_some (h : indexKeys jobs key = some id) :
    key ≠ [] ∧ ∃ r ∈ jobs, r.id = id ∧ r.key = key := by
  induction jobs using List.reverseRecOn with
  | nil => cases h
  | append_singleton jobs r ih =>
    rw [indexKeys_append] at h
    by_cases hnil : r.key = []
    · rw [if_pos hnil] at h
      obtain ⟨hkey, t, ht, hid, htk⟩ := ih h
      exact ⟨hkey, t, List.mem_append_left _ ht, hid, htk⟩
    · rw [if_neg hnil] at h
      by_cases hk : key = r.key
      · subst hk
        rw [Function.update_self] at h
        exact ⟨hnil, r, List.mem_append_right _ (List.mem_singleton.mpr rfl), Option.some.inj h, rfl⟩
      · rw [Function.update_of_ne hk] at h
        obtain ⟨hkey, t, ht, hid, htk⟩ := ih h
        exact ⟨hkey, t, List.mem_append_left _ ht, hid, htk⟩

/-- Every record's key stands for a record. -/
theorem indexKeys_isSome {r : JobRecord} (hr : r ∈ jobs) (hkey : r.key ≠ []) :
    (indexKeys jobs r.key).isSome = true := by
  induction jobs using List.reverseRecOn with
  | nil => cases hr
  | append_singleton jobs t ih =>
    rw [indexKeys_append]
    split_ifs with hnil
    · rcases List.mem_append.mp hr with hr | hr
      · exact ih hr
      · rw [List.mem_singleton.mp hr] at hkey
        exact absurd hnil hkey
    · by_cases hk : r.key = t.key
      · rw [hk, Function.update_self]
        rfl
      · rw [Function.update_of_ne hk]
        refine ih ((List.mem_append.mp hr).resolve_right fun ht => hk ?_)
        rw [List.mem_singleton.mp ht]

end Store

/-! ### What is in the file -/

/-- The file says what the store says, also before the append that is under way. -/
structure Lasting (s : State) : Prop where
  durable : Durable s.store
  prior : ∀ store op, s.prior = some (store, op) →
    Durable store ∧ op.Admitted store ∧ (op.apply store none).2 = s.store

/-- What a record of a new process was before. -/
inductive Source (s : State) (t : JobRecord) : Prop
  | kept (r : JobRecord) (hr : r ∈ s.store.jobs) (h : t = r.forget)
  | before (store : JobStore) (op : StoreOp) (hprior : s.prior = some (store, op)) (r : JobRecord)
      (hr : r ∈ store.jobs) (h : After op r.forget t)
  | created (store : JobStore) (op : StoreOp) (hprior : s.prior = some (store, op))
      (h : Created op t)

section Lasting
variable {s s' : State} {op : StoreOp}

theorem Lasting.same (h : Lasting s) (hstore : s'.store = s.store) (hprior : s'.prior = none) :
    Lasting s' :=
  ⟨hstore ▸ h.durable, fun _ _ he => by rw [hprior] at he; cases he⟩

theorem Lasting.clear (h : Lasting s) : Lasting { s with prior := none } := h.same rfl rfl

theorem lasting_opened {now : Bytes → UInt64} {file nonce : Bytes} {trails : Bytes → Trail}
    {leases : List (Bytes × MarkerPair)} :
    Lasting (opened (JobStore.open now file) nonce trails leases) := by
  refine ⟨?_, fun _ _ he => ?_⟩
  · rw [opened_store]
    exact durable_open now file
  · rw [opened_prior] at he
    cases he

/-- A new job of an operation is in the store that the operation leaves. -/
theorem mem_of_created {store : JobStore} {t : JobRecord} (ha : op.Admitted store)
    (h : Created op t) : ∃ r ∈ (op.apply store none).2.jobs, r.id = t.id ∧ r.key = t.key ∧
      r.printerId = t.printerId ∧ r.attempt = t.attempt := by
  obtain ⟨now, record, rfl, hid, hkey, hprinter, hattempt, -⟩ := h.op
  rw [apply_ok ha]
  have hnew : (record.fresh now).id ∉ store.ids := ha
  have hjobs : ((store.toRecords.replay
      ((StoreOp.createJob now record).entries.map JournalEntry.readBack)).jobs) =
        store.jobs ++ [(record.fresh now).forget] := Records.jobs_replay_snapshot hnew
  refine ⟨(record.fresh now).forget, ?_, ?_⟩
  · show _ ∈ (store.toRecords.replay _).jobs
    rw [hjobs]
    exact List.mem_append_right _ (List.mem_singleton.mpr rfl)
  · exact ⟨hid.symm, hkey.symm, hprinter.symm, hattempt.symm⟩

/-- An operation keeps the records there are. -/
theorem mem_of_kept {store : JobStore} {r : JobRecord} (ha : op.Admitted store)
    (hr : r ∈ store.jobs) : ∃ t ∈ (op.apply store none).2.jobs, After op r t := by
  have hnew : ∀ now record, op = .createJob now record → record.id ∉ store.ids := by
    rintro now record rfl
    exact ha
  obtain ⟨t, ht, hafter⟩ := (partial_all op).find_after hnew (find?_of_mem hr)
  rw [apply_ok ha]
  exact ⟨t, mem_of_find? ht, hafter⟩

theorem after_same {r t : JobRecord} (h : After op r t) :
    t.id = r.id ∧ t.key = r.key ∧ t.printerId = r.printerId ∧ t.attempt = r.attempt := by
  cases h <;> exact ⟨rfl, rfl, rfl, rfl⟩

/-- A record of a new process was a record of the store that is gone. -/
theorem Source.record {t : JobRecord} (hl : Lasting s) (h : Source s t) :
    ∃ r ∈ s.store.jobs, r.id = t.id ∧ r.key = t.key ∧ r.printerId = t.printerId ∧
      r.attempt = t.attempt := by
  cases h with
  | kept r hr h =>
    subst h
    exact ⟨r, hr, rfl, rfl, rfl, rfl⟩
  | before store op hprior r hr h =>
    obtain ⟨-, ha, hstore⟩ := hl.prior store op hprior
    obtain ⟨u, hu, hafter⟩ := mem_of_kept ha hr
    obtain ⟨hid, hkey, hprinter, hattempt⟩ := after_same h
    obtain ⟨hid', hkey', hprinter', hattempt'⟩ := after_same hafter
    exact ⟨u, hstore ▸ hu, hid'.trans hid.symm, hkey'.trans hkey.symm,
      hprinter'.trans hprinter.symm, hattempt'.trans hattempt.symm⟩
  | created store op hprior h =>
    obtain ⟨-, ha, hstore⟩ := hl.prior store op hprior
    rw [← hstore]
    exact mem_of_created ha h

/-- **What a new process finds.** -/
theorem reopened (hl : Lasting s) {cut : Option ℕ} {file : Bytes} (hfile : s.remains cut = some file)
    {now : Bytes → UInt64} {r : JobRecord} (hr : r ∈ (JobStore.open now file).jobs) :
    ∃ t, r = t.recover (now t.id) ∧ Source s t := by
  obtain ⟨t, ht, he⟩ := List.mem_map.mp hr
  refine ⟨t, he.symm, ?_⟩
  clear hr he
  change t ∈ (({} : Records).replay (readJournal file)).jobs at ht
  cases cut with
  | none =>
    obtain rfl := Option.some.inj hfile
    have hfiled : ({} : Records).replay (readJournal s.store.journal) =
        s.store.change JobRecord.forget Records.keeps_forget := hl.durable.filed
    rw [hfiled] at ht
    obtain ⟨old, hold, rfl⟩ := List.mem_map.mp ht
    exact .kept old hold rfl
  | some n =>
    obtain ⟨⟨store, op⟩, hprior, rfl⟩ := Option.map_eq_some_iff.mp hfile
    obtain ⟨hd, ha, -⟩ := hl.prior store op hprior
    obtain ⟨lines, hpartial, hfiled⟩ := filed_cut hd ha n
    change t ∈ (filed (op.apply store (some n)).2).jobs at ht
    rw [hfiled] at ht
    have hnew : ∀ now record, op = .createJob now record →
        record.id ∉ (store.change JobRecord.forget Records.keeps_forget).ids := by
      rintro now record rfl
      rw [Records.ids_change]
      exact ha
    obtain ⟨f, new, hjobs, hf, hcreated, -⟩ := hpartial.jobs hnew
    rw [hjobs, List.mem_append, List.mem_map] at ht
    rcases ht with ⟨t, ht, rfl⟩ | ht
    · obtain ⟨old, hold, rfl⟩ := List.mem_map.mp ht
      exact .before store op hprior old hold (hf _)
    · exact .created store op hprior (hcreated t ht)

/-- A record of the new process, by what the file holds. -/
theorem find?_open {now : Bytes → UInt64} {file : Bytes} {id : Bytes} :
    (JobStore.open now file).find? id =
      ((({} : Records).replay (readJournal file)).find? id).map fun t => t.recover (now t.id) :=
  find?_change (keeps_recover now)

/-- A job of a store that was not in the middle of an append. -/
theorem find?_reopened (hl : Lasting s) {file : Bytes} (hfile : s.remains none = some file)
    {now : Bytes → UInt64} {id : Bytes} {r : JobRecord} (hr : s.store.find? id = some r) :
    (JobStore.open now file).find? id = some (r.forget.recover (now id)) := by
  obtain rfl := Option.some.inj hfile
  have hfiled : ({} : Records).replay (readJournal s.store.journal) =
      s.store.change JobRecord.forget Records.keeps_forget := hl.durable.filed
  rw [find?_open, hfiled, find?_change, hr, ← id_of_find? hr]
  rfl

/-- A job of a store in the middle of an append: a part of what was appended has become of it. -/
theorem find?_reopened_cut (hl : Lasting s) {n : ℕ} {file : Bytes}
    (hfile : s.remains (some n) = some file) {now : Bytes → UInt64} {id : Bytes} :
    ∃ store op, s.prior = some (store, op) ∧ ∀ r, store.find? id = some r →
      ∃ t, After op r.forget t ∧
        (JobStore.open now file).find? id = some (t.recover (now t.id)) := by
  obtain ⟨⟨store, op⟩, hprior, rfl⟩ := Option.map_eq_some_iff.mp hfile
  refine ⟨store, op, hprior, fun r hr => ?_⟩
  obtain ⟨hd, ha, -⟩ := hl.prior store op hprior
  obtain ⟨lines, hpartial, hfiled⟩ := filed_cut hd ha n
  have hnew : ∀ now record, op = .createJob now record →
      record.id ∉ (store.change JobRecord.forget Records.keeps_forget).ids := by
    rintro now record rfl
    rw [Records.ids_change]
    exact ha
  have hforget : (store.change JobRecord.forget Records.keeps_forget).find? id = some r.forget := by
    rw [find?_change, hr]
    rfl
  obtain ⟨t, ht, hafter⟩ := hpartial.find_after hnew hforget
  have hread : (({} : Records).replay (readJournal (op.apply store (some n)).2.journal)).find? id =
      some t := by
    change (filed (op.apply store (some n)).2).find? id = some t
    rw [hfiled]
    exact ht
  exact ⟨t, hafter, by rw [find?_open, hread]; rfl⟩

end Lasting

/-! ### The store after a move -/

/-- What a move does to the store: nothing, or an append. -/
inductive Wrote (s s' : State) : Prop
  | same (hstore : s'.store = s.store) (hprior : s'.prior = none)
  | commit (op : StoreOp) (ha : op.Admitted s.store)
      (hstore : s'.store = (op.apply s.store none).2) (hprior : s'.prior = some (s.store, op))

section Wrote
variable {s s' u : State}

theorem wrote_commit {op : StoreOp} (h : s.commit op = some s') : Wrote s s' := by
  obtain ⟨ha, rfl⟩ := commit_eq_some.mp h
  exact .commit op ha rfl rfl

theorem Lasting.wrote (h : Lasting s) (hw : Wrote s s') : Lasting s' := by
  cases hw with
  | same hstore hprior => exact h.same hstore hprior
  | commit op ha hstore hprior =>
    refine ⟨hstore ▸ h.durable.apply ha, fun store op' he => ?_⟩
    obtain ⟨rfl, rfl⟩ := Prod.mk.inj (Option.some.inj (hprior.symm.trans he))
    exact ⟨h.durable, ha, hstore.symm⟩

theorem serve_wrote {c : Call} {ch : Choice} {a : c.Answer} (hnone : s.prior = none)
    (h : s.serve c ch = some (a, s')) : Wrote s s' := by
  cases c with
  | recordState id st cf rs ev =>
    obtain ⟨u, hu, he⟩ := Option.map_eq_some_iff.mp h
    obtain rfl := (Prod.mk.inj he).2
    exact wrote_commit hu
  | recordTokens id pair =>
    obtain ⟨u, hu, he⟩ := Option.map_eq_some_iff.mp h
    obtain rfl := (Prod.mk.inj he).2
    exact wrote_commit hu
  | emit | finish | setTokens | releaseTokens =>
    cases h
    exact .same rfl hnone
  | registerTokens id pair =>
    cases h
    exact .same (by simp) (by simpa using hnone)
  | _ =>
    obtain ⟨u, hu, he⟩ := Option.map_eq_some_iff.mp h
    obtain rfl := (Prod.mk.inj he).2
    exact .same rfl hnone

end Wrote

/-! ### The index of the keys -/

/-- The index of the keys is that of the store. -/
structure Indexed (s : State) : Prop where
  lasting : Lasting s
  keyed : ∀ r ∈ s.store.jobs, r.key ≠ []
  record : ∀ i p, s.jobs i = some p → ∃ r, s.store.find? i = some r ∧ r.key = p.key
  newest : ∀ key, (s.byKey key).map JobEntry.job = s.store.idByKey key

/-- Two stores with the same jobs under the same keys. -/
structure SameKeys (store store' : JobStore) : Prop where
  idByKey : store'.idByKey = store.idByKey
  keys : ∀ r' ∈ store'.jobs, ∃ r ∈ store.jobs, r'.key = r.key
  find : ∀ i r, store.find? i = some r → ∃ r', store'.find? i = some r' ∧ r'.key = r.key

section Indexed
variable {s s' : State} {i : Bytes}

theorem SameKeys.refl (store : JobStore) : SameKeys store store :=
  ⟨rfl, fun r hr => ⟨r, hr, rfl⟩, fun _ r hr => ⟨r, hr, rfl⟩⟩

theorem sameKeys_change {store store' : JobStore} {f : JobRecord → JobRecord} (hf : Keeps f)
    (h : store'.toRecords = store.change f hf) : SameKeys store store' := by
  refine ⟨?_, fun r' hr' => ?_, fun i r hr => ⟨f r, ?_, (hf r).2⟩⟩
  · rw [h]
    rfl
  · rw [h] at hr'
    obtain ⟨r, hr, rfl⟩ := List.mem_map.mp hr'
    exact ⟨r, hr, (hf r).2⟩
  · rw [h, find?_change, hr]
    rfl

/-- An operation on a job that exists changes no key. -/
theorem sameKeys_apply {store : JobStore} {op : StoreOp} (ha : op.Admitted store)
    (hop : ∀ now record, op ≠ .createJob now record) :
    SameKeys store (op.apply store none).2 := by
  cases op with
  | createJob now record => exact absurd rfl (hop now record)
  | recordState now id st c rs ev =>
    rw [apply_ok ha]
    exact sameKeys_change (keeps_setState.onlyAt id) rfl
  | recordTokens id p c =>
    rw [apply_ok ha]
    exact sameKeys_change (keeps_setTokens.onlyAt id) rfl

theorem serve_sameKeys {c : Call} {ch : Choice} {a : c.Answer} (h : s.serve c ch = some (a, s')) :
    SameKeys s.store s'.store := by
  cases c with
  | recordState id st cf rs ev =>
    obtain ⟨u, hu, he⟩ := Option.map_eq_some_iff.mp h
    obtain rfl := (Prod.mk.inj he).2
    obtain ⟨ha, rfl⟩ := commit_eq_some.mp hu
    exact sameKeys_apply ha fun _ _ => by simp
  | recordTokens id pair =>
    obtain ⟨u, hu, he⟩ := Option.map_eq_some_iff.mp h
    obtain rfl := (Prod.mk.inj he).2
    obtain ⟨ha, rfl⟩ := commit_eq_some.mp hu
    exact sameKeys_apply ha fun _ _ => by simp
  | emit | finish | setTokens | releaseTokens =>
    cases h
    exact .refl _
  | registerTokens id pair =>
    cases h
    simpa using SameKeys.refl s.store
  | _ =>
    obtain ⟨u, hu, he⟩ := Option.map_eq_some_iff.mp h
    obtain rfl := (Prod.mk.inj he).2
    exact .refl _

/-- The store behind a new job. -/
theorem jobs_createJob {store : JobStore} {now : UInt64} {record : JobRecord}
    (h : (record.fresh now).forget.id ∉ store.ids) :
    ((StoreOp.createJob now record).apply store none).2.toRecords =
      store.add (record.fresh now).forget h := by
  rw [show (StoreOp.createJob now record).apply store none = _ from apply_ok h]
  exact Records.ext (Records.jobs_replay_snapshot (r := record.fresh now) h)

/-- The index of a new process: that of the store, or that of the store before the job that was being
created when the process died. -/
theorem idByKey_reopened (hl : Lasting s) {cut : Option ℕ} {file : Bytes}
    (hfile : s.remains cut = some file) {now : Bytes → UInt64} :
    (JobStore.open now file).idByKey = s.store.idByKey ∨
      ∃ store at' record, s.prior = some (store, .createJob at' record) ∧
        record.id ∉ (JobStore.open now file).ids ∧
          (JobStore.open now file).idByKey = store.idByKey := by
  have hids : (JobStore.open now file).ids = (({} : Records).replay (readJournal file)).ids :=
    Records.ids_change _ (keeps_recover now)
  rw [hids]
  change (({} : Records).replay (readJournal file)).idByKey = _ ∨ ∃ store at' record, _ ∧ _ ∧
    (({} : Records).replay (readJournal file)).idByKey = _
  cases cut with
  | none =>
    obtain rfl := Option.some.inj hfile
    have hfiled : ({} : Records).replay (readJournal s.store.journal) =
        s.store.change JobRecord.forget Records.keeps_forget := hl.durable.filed
    rw [hfiled]
    exact .inl rfl
  | some n =>
    obtain ⟨⟨store, op⟩, hprior, rfl⟩ := Option.map_eq_some_iff.mp hfile
    obtain ⟨hd, ha, hstore⟩ := hl.prior store op hprior
    obtain ⟨lines, hpartial, hfiled⟩ := filed_cut hd ha n
    have hread : ({} : Records).replay (readJournal (op.apply store (some n)).2.journal) =
        (store.change JobRecord.forget Records.keeps_forget).replay lines := hfiled
    dsimp only
    rw [hread, ← hstore]
    cases op with
    | recordState at' id st cf rs ev =>
      left
      rw [(sameKeys_apply ha fun _ _ => by simp).idByKey]
      cases hpartial <;> rfl
    | recordTokens id p c =>
      left
      rw [(sameKeys_apply ha fun _ _ => by simp).idByKey]
      cases hpartial <;> rfl
    | createJob at' record =>
      have hnew : record.id ∉ store.ids := ha
      have hadd : ((StoreOp.createJob at' record).apply store none).2.idByKey =
          if record.key = [] then store.idByKey
          else Function.update store.idByKey record.key (some record.id) := by
        rw [jobs_createJob (show (record.fresh at').forget.id ∉ store.ids from hnew)]
        rfl
      have hnew' : record.id ∉ (store.change JobRecord.forget Records.keeps_forget).ids := by
        rw [Records.ids_change]
        exact hnew
      -- a line that has the job's id and key enters it as the whole operation does
      have henter : ∀ t : JobRecord, t.id = record.id → t.key = record.key →
          ((store.change JobRecord.forget Records.keeps_forget).enter (.job t)).idByKey =
            if record.key = [] then store.idByKey
            else Function.update store.idByKey record.key (some record.id) := by
        intro t hid hkey
        rw [Records.enter, dif_neg (hid ▸ hnew')]
        change (if t.key = [] then store.idByKey else Function.update store.idByKey t.key (some t.id)) =
          _
        rw [hid, hkey]
      rw [hadd]
      cases hpartial with
      | nothing => exact .inr ⟨store, at', record, hprior, hnew', rfl⟩
      | created h ht =>
        obtain ⟨_, _, he, hid, hkey, -⟩ := (created_of_cutShort h ht).op
        cases he
        exact .inl (henter _ hid hkey)
      | queued => exact .inl (henter _ rfl rfl)

/-- A move that makes no job. -/
theorem Indexed.keeps (h : Indexed s) (hl : Lasting s') (hstore : SameKeys s.store s'.store)
    (hjobs : ∀ i p', s'.jobs i = some p' → ∃ p, s.jobs i = some p ∧ p'.key = p.key)
    (hkeys : ∀ key, (s'.byKey key).map JobEntry.job = (s.byKey key).map JobEntry.job) :
    Indexed s' := by
  refine ⟨hl, fun r' hr' => ?_, fun i p' hp' => ?_, fun key => ?_⟩
  · obtain ⟨r, hr, hkey⟩ := hstore.keys r' hr'
    rw [hkey]
    exact h.keyed r hr
  · obtain ⟨p, hp, hkey⟩ := hjobs i p' hp'
    obtain ⟨r, hr, hrkey⟩ := h.record i p hp
    obtain ⟨r', hr', hr'key⟩ := hstore.find i r hr
    exact ⟨r', hr', by rw [hr'key, hrkey, hkey]⟩
  · rw [hkeys, hstore.idByKey]
    exact h.newest key

theorem Indexed.clear (h : Indexed s) : Indexed { s with prior := none } :=
  ⟨h.lasting.clear, h.keyed, h.record, h.newest⟩

theorem Indexed.serve {c : Call} {ch : Choice} {a : c.Answer} (h : Indexed s)
    (hs : s.serveAs i c ch = some (a, s')) : Indexed s' := by
  obtain ⟨u, hu, rfl⟩ := serveAs_eq_some.mp hs
  have hserved := serve_served hu
  have hl : Lasting u := h.lasting.clear.wrote (serve_wrote rfl hu)
  have hu : Indexed u := by
    refine h.clear.keeps hl (serve_sameKeys hu) (fun i p' hp' => ?_) fun key => ?_
    · cases hp : s.jobs i with
      | none => rw [hserved.absent i hp] at hp'; cases hp'
      | some p =>
        obtain ⟨p'', hp'', hsame⟩ := hserved.same i p hp
        obtain rfl := Option.some.inj (hp'.symm.trans hp'')
        exact ⟨p, rfl, hsame.key⟩
    · rw [hserved.byKey]
  exact ⟨⟨hu.lasting.durable, hu.lasting.prior⟩, hu.keyed, hu.record, hu.newest⟩

theorem effectiveKey_ne_nil {key : Bytes} {d : Draw} : effectiveKey key d ≠ [] := by
  unfold effectiveKey
  split_ifs with h
  · exact List.append_ne_nil_of_left_ne_nil (by decide) _
  · exact h

theorem Indexed.minted {d : Draw} {key printerId : Bytes} {attempt : UInt32}
    {payload : Option Payload} {phase : Phase} (h : Indexed s) (hkey : key ≠ [])
    (hm : Minted s s' d key printerId attempt payload phase) : Indexed s' := by
  obtain ⟨record, hid, hrkey, -, -, -, -, rfl⟩ := hm.eq
  have hnew : (record.fresh d.now).forget.id ∉ s.store.ids := hid ▸ hm.fresh
  have hrkey' : (record.fresh d.now).forget.key = key := hrkey
  have hid' : (record.fresh d.now).forget.id = d.id := hid
  have hstore : ((StoreOp.createJob d.now record).apply s.store none).2.toRecords =
      s.store.add (record.fresh d.now).forget hnew := jobs_createJob hnew
  refine ⟨h.lasting.wrote (.commit (.createJob d.now record) hnew rfl rfl), fun r hr => ?_,
    fun i p hp => ?_, fun k => ?_⟩
  · change r ∈ ((StoreOp.createJob d.now record).apply s.store none).2.jobs at hr
    rw [hstore] at hr
    rcases List.mem_append.mp hr with hr | hr
    · exact h.keyed r hr
    · rw [List.mem_singleton.mp hr, hrkey']
      exact hkey
  · change ∃ r, ((StoreOp.createJob d.now record).apply s.store none).2.find? i = some r ∧ _
    rw [hstore, find?_add, hid']
    by_cases hi : d.id = i
    · subst hi
      rw [if_pos rfl]
      simp only [Function.update_self, Option.some.injEq] at hp
      exact ⟨_, rfl, by rw [hrkey', ← hp]⟩
    · rw [if_neg hi]
      simp only [Function.update_of_ne (Ne.symm hi)] at hp
      exact h.record i p hp
  · change (Function.update s.byKey key _ k).map _ =
      ((StoreOp.createJob d.now record).apply s.store none).2.idByKey k
    rw [hstore]
    change _ = (if (record.fresh d.now).forget.key = [] then s.store.idByKey
      else Function.update s.store.idByKey _ (some (record.fresh d.now).forget.id)) k
    rw [hrkey', if_neg hkey, hid']
    by_cases hk : k = key
    · subst hk
      rw [Function.update_self, Function.update_self]
      rfl
    · rw [Function.update_of_ne hk, Function.update_of_ne hk]
      exact h.newest k

theorem Indexed.step {e : Event} (h : Indexed s) (hnone : s.prior = none) (hs : Stepped s e s') :
    Indexed s' := by
  cases hs with
  | same => exact h
  | submit hv hauto hm => exact h.minted effectiveKey_ne_nil hm
  | reserve hv hauto hm => exact h.minted effectiveKey_ne_nil hm
  | @submitReserved id payload options p hp hr hphase =>
    refine h.keeps (h.lasting.same rfl hnone) (.refl _) (fun j q hq => ?_) fun key => ?_
    · by_cases hj : j = id
      · subst hj
        refine ⟨p, hp, ?_⟩
        simp only [State.change, Function.update_self, hp, Option.map_some, Option.some.injEq] at hq
        rw [← hq]
        rfl
      · simp only [State.change, Function.update_of_ne hj] at hq
        exact ⟨q, hq, rfl⟩
    · dsimp only
      by_cases hk : key = p.key
      · subst hk
        rw [Function.update_self, Option.map_map]
        rfl
      · rw [Function.update_of_ne hk]

theorem Indexed.begin {w : Work} {q : Prog Worker Unit} (h : Indexed s) (hnone : s.prior = none)
    (hs : s.begin i w = some (q, s')) : Indexed s' := by
  obtain ⟨p, phase, trails, -, -, -, rfl, -, -⟩ := begin_outline hs
  refine h.keeps (h.lasting.same rfl hnone) (.refl _) (fun j q hq => ?_) fun key => rfl
  by_cases hj : j = i
  · subst hj
    simp only [State.change, Function.update_self, Option.map_eq_some_iff] at hq
    obtain ⟨p, hp, rfl⟩ := hq
    exact ⟨p, hp, rfl⟩
  · simp only [State.change, Function.update_of_ne hj] at hq
    exact ⟨q, hq, rfl⟩

/-- The index that records are entered in. -/
theorem foldl_enter_byKey {rs : List JobRecord} (h : ∀ r ∈ rs, r.key ≠ []) (key : Bytes) :
    ((rs.foldl State.enter s).byKey key).map JobEntry.job =
      (indexKeys rs key).or ((s.byKey key).map JobEntry.job) := by
  induction rs using List.reverseRecOn with
  | nil => rfl
  | append_singleton rs r ih =>
    have hr : r.key ≠ [] := h r (List.mem_append_right _ (List.mem_singleton.mpr rfl))
    rw [List.foldl_append, List.foldl_cons, List.foldl_nil, enter_byKey, indexKeys_append,
      if_neg hr]
    by_cases hk : key = r.key
    · subst hk
      rw [Function.update_self, Function.update_self]
      rfl
    · rw [Function.update_of_ne hk, Function.update_of_ne hk]
      exact ih fun r hr => h r (List.mem_append_left _ hr)

theorem indexed_opened {now : Bytes → UInt64} {file nonce : Bytes} {trails : Bytes → Trail}
    {leases : List (Bytes × MarkerPair)} (h : ∀ r ∈ (JobStore.open now file).jobs, r.key ≠ []) :
    Indexed (opened (JobStore.open now file) nonce trails leases) := by
  refine ⟨lasting_opened, ?_, fun i p hp => ?_, fun key => ?_⟩
  · rw [opened_store]
    exact h
  · rw [opened_jobs] at hp
    obtain ⟨r, hr, rfl⟩ := Option.map_eq_some_iff.mp hp
    rw [opened_store]
    exact ⟨r, hr, rfl⟩
  · rw [opened_store, (JobStore.open now file).indexed]
    exact (foldl_enter_byKey h key).trans (by simp)

theorem key_recover {r : JobRecord} {now : UInt64} : (r.recover now).key = r.key := by
  unfold JobRecord.recover
  split_ifs <;> rfl

theorem Indexed.restart {r : Restart} (h : Indexed s) (hs : driver.restart r s = some s') :
    Indexed s' := by
  obtain ⟨file, hfile, rfl⟩ := Option.map_eq_some_iff.mp hs
  refine indexed_opened fun r hr => ?_
  obtain ⟨t, rfl, hsource⟩ := reopened h.lasting hfile hr
  obtain ⟨old, hold, -, hkey, -⟩ := hsource.record h.lasting
  rw [key_recover, ← hkey]
  exact h.keyed old hold

/-- **The index of the keys**, in every run. -/
theorem indexed_of_reached {G : driver.Guard} {nonce : Bytes} {cfg : Config Worker Bytes State}
    (h : Reached G nonce cfg) : Known cfg.state ∧ Indexed cfg.state := by
  have hreach := driver_guarded.invariant known_opened (fun i => safe_ret_rest rest_opened)
    (I := Indexed) (indexed_opened fun r hr => by cases hr)
    (fun i c ch s a s' _ hi _ _ hs => hi.serve hs)
    (fun e s s' _ hi _ hs => hi.clear.step rfl (step_stepped hs))
    (fun i w s q s' _ hi _ hs => hi.clear.begin rfl hs)
    (fun r s s' _ hi _ hs => hi.restart hs) h
  exact ⟨hreach.1.1, hreach.2⟩

/-- The job of an entry has its key. -/
theorem Indexed.holder (h : Indexed s) (hk : Known s) {key : Bytes} {e : JobEntry}
    (he : s.byKey key = some e) : key ≠ [] ∧ ∃ p, s.jobs e.job = some p ∧ p.key = key := by
  have hid : indexKeys s.store.jobs key = some e.job := by
    rw [← s.store.indexed, ← h.newest, he]
    rfl
  obtain ⟨hkey, r, hr, hrid, hrkey⟩ := indexKeys_eq_some hid
  have hmem : e.job ∈ s.store.ids := hrid ▸ List.mem_map_of_mem hr
  obtain ⟨p, hp⟩ := Option.isSome_iff_exists.mp ((hk e.job).mpr hmem)
  obtain ⟨t, ht, htkey⟩ := h.record e.job p hp
  have hrt : r = t := by
    have hfind := find?_of_mem hr
    rw [hrid, ht] at hfind
    exact (Option.some.inj hfind).symm
  exact ⟨hkey, p, hp, by rw [← htkey, ← hrt, hrkey]⟩

/-- The key of a job has an entry. -/
theorem Indexed.entry (h : Indexed s) {p : Job} (hp : s.jobs i = some p) :
    p.key ≠ [] ∧ ∃ e, s.byKey p.key = some e := by
  obtain ⟨r, hr, hkey⟩ := h.record i p hp
  have hmem := mem_of_find? hr
  have hne : r.key ≠ [] := h.keyed r hmem
  obtain ⟨id, hid⟩ := Option.isSome_iff_exists.mp (indexKeys_isSome hmem hne)
  rw [← s.store.indexed, ← h.newest, Option.map_eq_some_iff] at hid
  obtain ⟨e, he, -⟩ := hid
  rw [← hkey]
  exact ⟨hne, e, he⟩

end Indexed

end PrinterDriver.Engine.Keys
