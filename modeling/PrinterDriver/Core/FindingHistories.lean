import PrinterDriver.Core.StoredFindings
import PrinterDriver.Core.ProbeRuns

/-! # Findings by endpoint

Records are replaced by key and looked up by endpoint. Over a history of saves of what probes returned,
and of reloads, an endpoint finds what was last saved for it exactly if keys and endpoints correspond
(`endpoint_found_iff`): two printers that report one identity, or two probes that were cut short, take
each other's record away. -/

namespace PrinterDriver.Core.FindingHistories

open PrinterDriver.Core.Types PrinterDriver.Core.Profile PrinterDriver.Core.Probe
open PrinterDriver.Core.ProbeRuns (ask_of_dead ask_unwritten ask_written foldl_live all_eq ask_completion
  askCustom_completion)
open PrinterDriver.Core.StoredFindings PrinterDriver.Lib PrinterDriver.Lib.Keyed

variable {F : Type}

/-! ### The store and its file -/

theorem readBack_readBack (f : Findings F) : f.readBack.readBack = f.readBack := by
  simp [Findings.readBack, StoredFindings.CapabilityFindings.readBack, Option.filter_filter]

theorem after_concat (h : List (Op (Findings F))) (op : Op (Findings F)) :
    FindingsStore.after (h ++ [op]) = (FindingsStore.after h).apply op := by
  rw [FindingsStore.after, List.foldl_append]
  rfl

/-- **The store is records kept by key**, and its file loads them. -/
theorem after_eq (h : List (Op (Findings F))) :
    (FindingsStore.after h).records = run Findings.key Findings.readBack h ∧
      FindingsStore.load (FindingsStore.after h).file =
        (FindingsStore.after h).records.map Findings.readBack := by
  induction h using List.reverseRecOn with
  | nil => exact ⟨rfl, rfl⟩
  | append_singleton h op ih =>
    obtain ⟨hr, hf⟩ := ih
    rw [after_concat, run_concat, ← hr]
    rcases op with f | _
    · exact ⟨rfl, load_fileText _⟩
    · have htwice : Findings.readBack ∘ Findings.readBack = (Findings.readBack : Findings F → _) :=
        funext readBack_readBack
      refine ⟨hf, ?_⟩
      show FindingsStore.load (FindingsStore.after h).file =
        (FindingsStore.load (FindingsStore.after h).file).map Findings.readBack
      rw [hf, List.map_map, htwice]

/-! ### Keys -/

theorem sanitize_append (a b : Bytes) : sanitize (a ++ b) = sanitize a ++ sanitize b :=
  List.map_append

theorem sanitizeByte_keyByte (c : UInt8) : sanitizeByte (keyByte c) = keyByte c := by
  have hall : ∀ k < 256, sanitizeByte (keyByte (UInt8.ofNat k)) = keyByte (UInt8.ofNat k) := by
    decide +kernel
  have hc := hall c.toNat c.toNat_lt
  rwa [UInt8.ofNat_toNat] at hc

theorem keyByte_sanitizeByte (c : UInt8) : keyByte (sanitizeByte c) = keyByte c := by
  have hall : ∀ k < 256, keyByte (sanitizeByte (UInt8.ofNat k)) = keyByte (UInt8.ofNat k) := by
    decide +kernel
  have hc := hall c.toNat c.toNat_lt
  rwa [UInt8.ofNat_toNat] at hc

theorem sanitize_appendPart {key : Bytes} (h : sanitize key = key) (part : Bytes) :
    sanitize (appendPart key part) = appendPart key part := by
  have hpart : sanitize (part.map keyByte) = part.map keyByte := by
    rw [sanitize, List.map_map]
    exact List.map_congr_left fun c _ => sanitizeByte_keyByte c
  have hdash : sanitize (str "-") = str "-" := by decide
  unfold appendPart
  split_ifs
  · exact h
  · rw [sanitize_append, hpart]
    rfl
  · rw [sanitize_append, sanitize_append, hpart, hdash, h]

/-- A key has nothing to replace. -/
theorem sanitize_identityKey (reported : GsIStrings) (endpoint : Bytes) :
    sanitize (identityKey reported endpoint) = identityKey reported endpoint := by
  have hnil : sanitize [] = [] := rfl
  have hkey := sanitize_appendPart
    (sanitize_appendPart (sanitize_appendPart hnil reported.model) reported.firmware) reported.serial
  unfold identityKey
  dsimp only
  split_ifs
  · decide
  · rw [sanitize_append, sanitize_appendPart hkey, show sanitize (str "endpoint-") = str "endpoint-"
      by decide]
  · exact hkey

theorem appendPart_sanitize (key part : Bytes) :
    appendPart key (sanitize part) = appendPart key part := by
  have hpart : (sanitize part).map keyByte = part.map keyByte := by
    rw [sanitize, List.map_map]
    exact List.map_congr_left fun c _ => keyByte_sanitizeByte c
  unfold appendPart
  simp only [sanitize_eq_nil, hpart]

/-- The identity with its texts as they are stored. -/
def stored (s : GsIStrings) : GsIStrings :=
  { s with
    manufacturer := sanitize s.manufacturer
    model := sanitize s.model
    firmware := sanitize s.firmware
    serial := sanitize s.serial }

/-- What is replaced in a text does not show in the key. -/
theorem identityKey_stored (s : GsIStrings) (endpoint : Bytes) :
    identityKey (stored s) endpoint = identityKey s endpoint := by
  unfold identityKey stored
  dsimp only
  rw [appendPart_sanitize, appendPart_sanitize, appendPart_sanitize]

/-! ### Probes -/

theorem run_eq (o : ProbeOptions F) (t : Transcript) :
    Probe.run o t =
      if (lastRun o t).live then
        { (lastRun o t).findings with
          completion := completionFrom (lastRun o t).findings
          unclassified := (lastRun o t).probe.unclassified }
      else (lastRun o t).findings := rfl

theorem isSome_record (p : CapabilityProbe) (f : CapabilityFindings F) (q : Query) :
    (f.gsHProcessId.isSome → (record p f q).gsHProcessId.isSome) ∧
      (f.gsR1.isSome → (record p f q).gsR1.isSome) := by
  rcases q with kind | field | field | _ | _ | _
  · cases kind <;> exact ⟨id, id⟩
  · exact ⟨id, id⟩
  · unfold record
    dsimp only
    split_ifs <;> exact ⟨id, id⟩
  · exact ⟨fun _ => rfl, id⟩
  · exact ⟨id, fun _ => rfl⟩
  · exact ⟨id, id⟩

/-- A fence that was asked stays asked. -/
theorem isSome_foldl (o : ProbeOptions F) (t : Transcript) (qs : List Query) (r : Run F) :
    (r.findings.gsHProcessId.isSome → (qs.foldl (ask o t) r).findings.gsHProcessId.isSome) ∧
      (r.findings.gsR1.isSome → (qs.foldl (ask o t) r).findings.gsR1.isSome) := by
  induction qs generalizing r with
  | nil => exact ⟨id, id⟩
  | cons q qs ih =>
    have hask : (r.findings.gsHProcessId.isSome → (ask o t r q).findings.gsHProcessId.isSome) ∧
        (r.findings.gsR1.isSome → (ask o t r q).findings.gsR1.isSome) := by
      rcases hl : r.live with _ | _
      · rw [ask_of_dead o t q hl]
        exact ⟨id, id⟩
      · rcases hw : (t.window q).wrote with _ | _
        · rw [(ask_unwritten o t hl hw).2]
          exact ⟨id, id⟩
        · rw [(ask_written o t hl hw).2]
          exact isSome_record _ _ q
    exact ⟨(ih _).1 ∘ hask.1, (ih _).2 ∘ hask.2⟩

/-- A probe that came past its queries has asked for both fences. -/
theorem isSome_of_live (o : ProbeOptions F) (t : Transcript)
    (h : (Query.all.foldl (ask o t) (begun t)).live = true) :
    (Query.all.foldl (ask o t) (begun t)).findings.gsHProcessId.isSome ∧
      (Query.all.foldl (ask o t) (begun t)).findings.gsR1.isSome := by
  have hlive : t.reset.wrote = true ∧ ∀ q ∈ Query.all, (t.window q).wrote = true := by
    rw [foldl_live, Bool.and_eq_true, List.all_eq_true] at h
    exact h
  have hasked : ∀ q ∈ Query.all, ∃ r : Run F, r.live = true ∧ (t.window q).wrote = true ∧
      ∃ post : List Query,
        Query.all.foldl (ask o t) (begun t) = post.foldl (ask o t) (ask o t r q) := by
    intro q hq
    obtain ⟨post, hall, -, -⟩ := all_eq q
    refine ⟨(Query.all.takeWhile (· ≠ q)).foldl (ask o t) (begun t), ?_, hlive.2 q hq, post, ?_⟩
    · rw [foldl_live, Bool.and_eq_true, List.all_eq_true]
      exact ⟨hlive.1, fun q' hq' => hlive.2 q' ((List.takeWhile_sublist _).mem hq')⟩
    · conv_lhs => rw [hall]
      rw [List.foldl_append, List.foldl_cons]
  constructor
  · obtain ⟨r, hl, hw, post, hr⟩ := hasked .processId (by decide)
    rw [hr]
    refine (isSome_foldl o t post _).1 ?_
    rw [(ask_written o t hl hw).2]
    rfl
  · obtain ⟨r, hl, hw, post, hr⟩ := hasked .queued (by decide)
    rw [hr]
    refine (isSome_foldl o t post _).2 ?_
    rw [(ask_written o t hl hw).2]
    rfl

/-- A registered step leaves both fences alone, and goes on only when the probe does. -/
theorem foldl_askCustom (t : Transcript) (steps : List (ProbeStep F × ℕ)) (r : Run F) :
    (steps.foldl (askCustom t) r).findings.gsHProcessId = r.findings.gsHProcessId ∧
      (steps.foldl (askCustom t) r).findings.gsR1 = r.findings.gsR1 ∧
      ((steps.foldl (askCustom t) r).live = true → r.live = true) := by
  induction steps generalizing r with
  | nil => exact ⟨rfl, rfl, id⟩
  | cons step steps ih =>
    have hkeep : (askCustom t r step).findings.gsHProcessId = r.findings.gsHProcessId ∧
        (askCustom t r step).findings.gsR1 = r.findings.gsR1 := by
      unfold askCustom
      dsimp only
      split_ifs <;> exact ⟨rfl, rfl⟩
    have hlive : (askCustom t r step).live = true → r.live = true := by
      intro h
      by_contra hl
      rw [askCustom, if_pos (by simp [hl])] at h
      exact hl h
    obtain ⟨h1, h2, h3⟩ := ih (askCustom t r step)
    exact ⟨h1.trans hkeep.1, h2.trans hkeep.2, hlive ∘ h3⟩

theorem completionFrom_isSome {f : CapabilityFindings F} (hh : f.gsHProcessId.isSome)
    (hr : f.gsR1.isSome) : (completionFrom f).isSome := by
  unfold completionFrom
  split_ifs with h1 h2 h3
  · rfl
  · rfl
  · rfl
  · exact absurd (by rw [hh, hr]; rfl) h3

theorem lastRun_completion (o : ProbeOptions F) (t : Transcript) :
    (lastRun o t).findings.completion = none := by
  have hasked : ∀ (qs : List Query) (r : Run F), r.findings.completion = none →
      (qs.foldl (ask o t) r).findings.completion = none := by
    intro qs
    induction qs with
    | nil => exact fun _ hr => hr
    | cons q qs ih => exact fun r hr => ih _ ((ask_completion o t r q).trans hr)
  have hcustom : ∀ (steps : List (ProbeStep F × ℕ)) (r : Run F), r.findings.completion = none →
      (steps.foldl (askCustom t) r).findings.completion = none := by
    intro steps
    induction steps with
    | nil => exact fun _ hr => hr
    | cons step steps ih => exact fun r hr => ih _ ((askCustom_completion t r step).trans hr)
  exact hcustom _ _ (hasked _ _ rfl)

/-- **Only a probe that came to its end names a fence.** -/
theorem completion_isSome (o : ProbeOptions F) (t : Transcript) :
    (Probe.run o t).completion.isSome = (lastRun o t).live := by
  rw [run_eq]
  split_ifs with h
  · obtain ⟨h1, h2, h3⟩ := foldl_askCustom t o.customSteps.zipIdx
      (Query.all.foldl (ask o t) (begun t))
    obtain ⟨hh, hr⟩ := isSome_of_live o t (h3 h)
    rw [h]
    refine completionFrom_isSome ?_ ?_
    · show (lastRun o t).findings.gsHProcessId.isSome
      rw [lastRun, h1]
      exact hh
    · show (lastRun o t).findings.gsR1.isSome
      rw [lastRun, h2]
      exact hr
  · rw [lastRun_completion, Bool.eq_false_of_not_eq_true h]
    rfl

/-- Findings that a probe returned for an endpoint without control characters and equals signs. -/
def Probed (f : Findings F) : Prop :=
  Clean f.endpoint ∧ ∃ now o t, f = probed f.endpoint now o t

/-- Flags, fence and reported identity, as they are stored. -/
def kept (f : Findings F) : CapabilityFindings F :=
  { f.found with reported := stored f.found.reported, unclassified := [], customProbe := [] }

/-- What the file leaves alone. -/
structure Storable (f : Findings F) : Prop where
  key : sanitize f.key = f.key
  endpoint : sanitize f.endpoint = f.endpoint
  completion : f.found.completion.filter (· ∈ kStoredMechanisms) = f.found.completion

theorem filter_completionFrom (f : CapabilityFindings F) :
    (completionFrom f).filter (· ∈ kStoredMechanisms) = completionFrom f := by
  unfold completionFrom
  split_ifs <;> rfl

theorem Probed.storable {f : Findings F} (h : Probed f) : Storable f := by
  obtain ⟨hclean, now, o, t, hf⟩ := h
  refine ⟨?_, hclean.sanitize, ?_⟩
  · rw [hf]
    unfold probed
    dsimp only
    split_ifs
    · exact sanitize_identityKey _ _
    · rfl
  · rw [hf]
    show (Probe.run o t).completion.filter _ = (Probe.run o t).completion
    rw [run_eq]
    split_ifs
    · exact filter_completionFrom _
    · rw [lastRun_completion]
      rfl

/-- Reading a record back shows neither in its key and its endpoint nor in what is kept. -/
theorem neutral : Neutral Findings.key Findings.endpoint Findings.readBack kept
    (Storable : Findings F → Prop) where
  closed f hf := by
    refine ⟨sanitize_sanitize _, sanitize_sanitize _, ?_⟩
    show (f.found.completion.filter _).filter _ = f.found.completion.filter _
    rw [hf.completion, hf.completion]
  key f hf := hf.key
  attr f hf := hf.endpoint
  view f hf := by
    have hstored : stored (stored f.found.reported) = stored f.found.reported := by
      simp [stored]
    show CapabilityFindings.mk _ _ _ _ _ _ _ _ _ _ (f.found.completion.filter _)
      (stored (stored f.found.reported)) [] [] = _
    rw [hf.completion, hstored]
    rfl

/-- What is kept of a probe says which key it has. -/
theorem key_eq_of_kept {a b : Findings F} (ha : Probed a) (hb : Probed b)
    (he : a.endpoint = b.endpoint) (hk : kept a = kept b) : a.key = b.key := by
  obtain ⟨-, now, o, t, hpa⟩ := ha
  obtain ⟨-, now', o', t', hpb⟩ := hb
  have hc : (kept a).completion = (kept b).completion := by rw [hk]
  have hr : (kept a).reported = (kept b).reported := by rw [hk]
  change a.found.completion = b.found.completion at hc
  change stored a.found.reported = stored b.found.reported at hr
  have hfa : a.found = Probe.run o t := congrArg Findings.found hpa
  have hfb : b.found = Probe.run o' t' := congrArg Findings.found hpb
  have hlive : (lastRun o t).live = (lastRun o' t').live := by
    rw [← completion_isSome, ← completion_isSome, ← hfa, ← hfb, hc]
  have hkey : identityKey (Probe.run o t).reported a.endpoint =
      identityKey (Probe.run o' t').reported b.endpoint := by
    rw [← identityKey_stored, ← identityKey_stored (Probe.run o' t').reported, ← hfa, ← hfb, hr, he]
  have hka : a.key = if (lastRun o t).live then identityKey (Probe.run o t).reported a.endpoint
    else [] := congrArg Findings.key hpa
  have hkb : b.key = if (lastRun o' t').live then identityKey (Probe.run o' t').reported b.endpoint
    else [] := congrArg Findings.key hpb
  rw [hka, hkb, hlive, hkey]

/-! ### Histories -/

section

variable {h : List (Op (Findings F))} (hp : ∀ a ∈ puts h, Probed a)
include hp

/-- Without a save for the empty endpoint, the look-up is a search through the records. -/
theorem findByEndpoint_eq (hne : ∀ a ∈ puts h, a.endpoint ≠ []) (e : Bytes) :
    (FindingsStore.after h).findByEndpoint e =
      (run Findings.key Findings.readBack h).find? fun r => decide (r.endpoint = e) := by
  unfold FindingsStore.findByEndpoint
  rw [(after_eq h).1]
  split_ifs with he
  · refine (List.find?_eq_none.mpr fun r hr hre => ?_).symm
    obtain ⟨-, a, ha, -, hattr, -⟩ :=
      exists_put_of_mem_run neutral (fun c hc => (hp c hc).storable) hr
    exact hne a ha (hattr.symm.trans ((of_decide_eq_true hre).trans he))
  · rfl

end

/-- **An endpoint finds what was last saved for it, after every save and every reload, exactly if the
saved findings have one key for each endpoint**, and none was saved for the empty one. -/
theorem endpoint_found_iff (h : List (Op (Findings F))) (hp : ∀ a ∈ puts h, Probed a) :
    (∀ p, p <+: h → ∀ e, ((FindingsStore.after p).findByEndpoint e).map kept =
        (latest Findings.endpoint e p).map kept) ↔
      (∀ a ∈ puts h, a.endpoint ≠ []) ∧
        ∀ a ∈ puts h, ∀ b ∈ puts h, a.key = b.key ↔ a.endpoint = b.endpoint := by
  have hpre : ∀ p, p <+: h → ∀ a ∈ puts p, a ∈ puts h := by
    rintro p ⟨t, rfl⟩ a ha
    exact mem_puts_append ha
  have hiff := found_iff neutral (fun a ha => (hp a ha).storable) fun a ha b hb =>
    key_eq_of_kept (hp a ha) (hp b hb)
  have hsame : (∀ a ∈ puts h, a.endpoint ≠ []) → ∀ p, p <+: h → ∀ e,
      (FindingsStore.after p).findByEndpoint e =
        (run Findings.key Findings.readBack p).find? fun r => decide (r.endpoint = e) :=
    fun hne p hph => findByEndpoint_eq (fun a ha => hp a (hpre p hph a ha))
      fun a ha => hne a (hpre p hph a ha)
  constructor
  · intro hf
    have hne : ∀ a ∈ puts h, a.endpoint ≠ [] := by
      intro a ha he
      have hlast := congrArg Option.isSome (hf h List.prefix_rfl a.endpoint)
      rw [Option.isSome_map, Option.isSome_map, latest_isSome ha, FindingsStore.findByEndpoint,
        if_pos he] at hlast
      cases hlast
    refine ⟨hne, hiff.mp fun p hph e => ?_⟩
    rw [← hsame hne p hph]
    exact hf p hph e
  · rintro ⟨hne, hc⟩ p hph e
    rw [hsame hne p hph]
    exact hiff.mpr hc p hph e

/-- A probe that was cut short at its first write. -/
def cutShort (endpoint : Bytes) : Findings Unit := probed endpoint 0 {} { reset := { wrote := false } }

theorem probed_cutShort {endpoint : Bytes} (h : Clean endpoint) : Probed (cutShort endpoint) :=
  ⟨h, 0, {}, { reset := { wrote := false } }, rfl⟩

/-- **The second probe that was cut short takes the first one's record.** -/
theorem cut_short_lost : ¬∀ h : List (Op (Findings Unit)), (∀ a ∈ puts h, Probed a) → ∀ e,
    ((FindingsStore.after h).findByEndpoint e).map kept = (latest Findings.endpoint e h).map kept := by
  intro hall
  have hlost := hall [.put (cutShort (str "192.0.2.1")), .put (cutShort (str "192.0.2.2"))]
    (fun a ha => by
      rcases List.mem_cons.mp ha with rfl | ha
      · exact probed_cutShort (by decide)
      · rw [List.mem_singleton.mp ha]
        exact probed_cutShort (by decide)) (str "192.0.2.1")
  have hsome := congrArg Option.isSome hlost
  rw [Option.isSome_map, Option.isSome_map] at hsome
  revert hsome
  decide

/-- One printer, probed and read back: its endpoint finds what was saved. -/
theorem single_printer_found :
    ((FindingsStore.after [.put (cutShort (str "192.0.2.1")), .refresh]).findByEndpoint
        (str "192.0.2.1")).map kept =
      (latest Findings.endpoint (str "192.0.2.1")
        [.put (cutShort (str "192.0.2.1")), .refresh]).map kept := by
  have hputs : ∀ a ∈ puts [.put (cutShort (str "192.0.2.1")), .refresh],
      a = cutShort (str "192.0.2.1") := fun a ha => List.mem_singleton.mp ha
  refine (endpoint_found_iff _ fun a ha => ?_).mpr ⟨fun a ha => ?_, fun a ha b hb => ?_⟩ _
    List.prefix_rfl _
  · rw [hputs a ha]
    exact probed_cutShort (by decide)
  · rw [hputs a ha]
    decide
  · rw [hputs a ha, hputs b hb]
    simp

end PrinterDriver.Core.FindingHistories
