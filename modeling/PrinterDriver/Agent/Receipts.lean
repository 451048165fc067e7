import PrinterDriver.Agent.Evidence
import PrinterDriver.Engine.CrashSafety

/-! # From the paper to the job

A receipt shows the print token of its job, and `jobByToken` resolves it to the job that holds the
token last. What a token is worth over any number of processes: a receipt resolves while fewer than
4418 leases are younger than its own, unless its token is drawn again before that, or a job behind
its own in the journal has it when a process starts. -/

namespace PrinterDriver.Agent.Receipts

open PrinterDriver.Lib.Programs PrinterDriver.Lib.Threads PrinterDriver.Core.Types
  PrinterDriver.Core.Journal PrinterDriver.Core.Store PrinterDriver.Core.StoreRuns
  PrinterDriver.Core.Crashes PrinterDriver.Engine.Ops PrinterDriver.Engine.RunJob
  PrinterDriver.Engine.Lifecycle PrinterDriver.Engine.Leasing PrinterDriver.Engine.Markers
  PrinterDriver.Engine.Driver PrinterDriver.Engine.DriverRuns PrinterDriver.Engine.Keys
  PrinterDriver.Engine.Bookkeeping PrinterDriver.Engine.CrashSafety PrinterDriver.Agent.Evidence

open PrinterDriver.Engine.OpenDriver

open PrinterDriver.Engine.Retries (obliging print)

open Machine State

/-! ### Receipts -/

/-- The pair that a run was given. -/
def given : Tokens → Option MarkerPair
  | .unleased => none
  | .leased pair | .held pair | .filed pair | .registered pair | .released pair => some pair

/-- The pair that a run keeps from others. -/
def keeps : Tokens → Option MarkerPair
  | .leased pair | .held pair | .filed pair | .registered pair => some pair
  | .unleased | .released _ => none

/-- The pair that is in the index. -/
def indexed : Tokens → Option MarkerPair
  | .registered pair | .released pair => some pair
  | .unleased | .leased _ | .held _ | .filed _ => none

/-- The tokens of the lease were entered, and the transport took a byte of the payload. -/
structure Receipt (s : State) (l : Bytes × MarkerPair) : Prop where
  entered : indexed (s.trails l.1).tokens = some l.2
  printed : (s.trails l.1).progress.accepted = true

instance (s : State) (l : Bytes × MarkerPair) : Decidable (Receipt s l) :=
  decidable_of_iff (indexed (s.trails l.1).tokens = some l.2 ∧
    (s.trails l.1).progress.accepted = true) ⟨fun h => ⟨h.1, h.2⟩, fun h => ⟨h.1, h.2⟩⟩

/-- A receipt with fewer than 4418 later leases resolves to its job. -/
def Resolves (s : State) : Prop :=
  ∀ l ∈ s.leases.take 4418, Receipt s l → jobByToken s l.2.printToken = some l.1

/-! ### The condition -/

/-- The pair that is drawn next has the print token of a receipt with fewer than 4417 later leases. -/
def Repeats (s : State) : Prop :=
  ∃ drawn ∈ s.markers.acquire, ∃ l ∈ s.leases.take 4417,
    Receipt s l ∧ l.2.printToken = drawn.1.printToken

/-- The jobs behind a job, in the order of the journal. -/
def behind (id : Bytes) (rs : List JobRecord) : List JobRecord :=
  (rs.dropWhile fun r => r.id ≠ id).tail

def bears (token : Bytes) (r : JobRecord) : Bool := r.printToken = token || r.cutToken = token

/-- In the journal that is left, a job behind that of a recent receipt has its print token. -/
def Displaces (s : State) (cut : Option ℕ) : Prop :=
  ∃ file ∈ s.remains cut, ∃ l ∈ s.leases.take 4418, Receipt s l ∧
    (behind l.1 (({} : Records).replay (readJournal file)).jobs).any (bears l.2.printToken) = true

def acquires : Call → Bool
  | .acquireTokens => true
  | _ => false

/-- No token is drawn again too early, and no start of a process turns the order of two holders. -/
def unrepeated : driver.Guard where
  serve _ c _ s := acquires c = true → ¬Repeats s
  restart r s := ¬Displaces s r.cut

instance (s : State) : Decidable (Repeats s) :=
  inferInstanceAs (Decidable (∃ drawn ∈ s.markers.acquire, ∃ l ∈ s.leases.take 4417,
    Receipt s l ∧ l.2.printToken = drawn.1.printToken))

instance (s : State) (cut : Option ℕ) : Decidable (Displaces s cut) :=
  inferInstanceAs (Decidable (∃ file ∈ s.remains cut, ∃ l ∈ s.leases.take 4418, Receipt s l ∧
    (behind l.1 (({} : Records).replay (readJournal file)).jobs).any (bears l.2.printToken) = true))

/-! ### What a call does with tokens -/

/-- The job is of this process. -/
def Live (s : State) (i : Bytes) : Prop := ∃ p, s.jobs i = some p ∧ p.phase ≠ .reloaded

/-- An entry in the index of the tokens. -/
def enterToken (index : Bytes → List Bytes) (token id : Bytes) : Bytes → List Bytes :=
  if token = [] then index else Function.update index token (index token ++ [id])

/-- What a call of a job does to the allocator, the leases and the index. -/
inductive Marked (s s' : State) (i : Bytes) : Call → Prop
  | drew {pair : MarkerPair} {m : MarkerAllocator} (h : s.markers.acquire = some (pair, m))
      (hbefore : (s.trails i).tokens = .unleased) (hafter : (s'.trails i).tokens = .leased pair)
      (hmarkers : s'.markers = m) (hleases : s'.leases = (i, pair) :: s.leases)
      (hindex : s'.byToken = s.byToken) : Marked s s' i .acquireTokens
  | entered {pair : MarkerPair} {c : Call} (hbefore : (s.trails i).tokens = .filed pair)
      (hafter : (s'.trails i).tokens = .registered pair) (hmarkers : s'.markers = s.markers)
      (hleases : s'.leases = s.leases)
      (hindex : s'.byToken = enterToken (enterToken s.byToken pair.printToken i) pair.cutToken i) :
      Marked s s' i c
  | released {pair : MarkerPair} {c : Call} (hbefore : (s.trails i).tokens = .registered pair)
      (hafter : (s'.trails i).tokens = .released pair)
      (hmarkers : s'.markers = s.markers.release pair) (hleases : s'.leases = s.leases)
      (hindex : s'.byToken = s.byToken) : Marked s s' i c
  | quiet {c : Call} (hgiven : given (s'.trails i).tokens = given (s.trails i).tokens)
      (hkeeps : keeps (s'.trails i).tokens = keeps (s.trails i).tokens)
      (hentered : indexed (s'.trails i).tokens = indexed (s.trails i).tokens)
      (hprinted : (s'.trails i).progress.accepted = true →
        (s.trails i).progress.accepted = true ∨ (s.trails i).tokens.Settled)
      (hmarkers : s'.markers = s.markers) (hleases : s'.leases = s.leases)
      (hindex : s'.byToken = s.byToken) : Marked s s' i c

section Serve
variable {s s' : State} {i : Bytes} {c : Call} {ch : Choice} {a : c.Answer}

theorem registerToken_byToken (s : State) (token id : Bytes) :
    (s.registerToken token id).byToken = enterToken s.byToken token id := by
  unfold registerToken enterToken
  split_ifs <;> rfl

/-- A call that neither draws a pair, nor enters it, nor gives it back. -/
theorem marked_quiet {u : State} (hu : serve { s with prior := none } c ch = some (a, u))
    (htokens : (s.trails i).tokens.post ⟨c, a⟩ = (s.trails i).tokens ∨
      ∃ pair, (s.trails i).tokens = .leased pair ∧ (s.trails i).tokens.post ⟨c, a⟩ = .held pair ∨
        (s.trails i).tokens = .held pair ∧ (s.trails i).tokens.post ⟨c, a⟩ = .filed pair)
    (hprinted : ((s.trails i).progress.post ⟨c, a⟩).accepted = true →
      (s.trails i).progress.accepted = true ∨ (s.trails i).tokens.Settled)
    (hmarkers : u.markers = s.markers) (hleases : u.leasesAfter i ⟨c, a⟩ = u.leases)
    (hindex : u.byToken = s.byToken) : Marked s (u.note i ⟨c, a⟩) i c := by
  have htrails : u.trails = s.trails := (serve_served hu).trails
  have hself : (u.note i ⟨c, a⟩).trails i = (s.trails i).note ⟨c, a⟩ := by
    rw [note_trails_self, htrails]
  have hsame : ∀ f : Tokens → Option MarkerPair,
      (∀ pair, f (.leased pair) = f (.held pair) ∧ f (.held pair) = f (.filed pair)) →
      f ((s.trails i).tokens.post ⟨c, a⟩) = f (s.trails i).tokens := by
    intro f hf
    rcases htokens with h | ⟨pair, ⟨hb, ha⟩ | ⟨hb, ha⟩⟩
    · rw [h]
    · rw [ha, hb, (hf pair).1]
    · rw [ha, hb, (hf pair).2]
  refine .quiet ?_ ?_ ?_ ?_ hmarkers (hleases.trans (serve_served hu).leases) hindex <;>
    rw [hself]
  · exact hsame given fun _ => ⟨rfl, rfl⟩
  · exact hsame keeps fun _ => ⟨rfl, rfl⟩
  · exact hsame indexed fun _ => ⟨rfl, rfl⟩
  · exact hprinted

theorem serve_marked (hc : contract.allowed i c s) (hs : s.serveAs i c ch = some (a, s')) :
    Marked s s' i c := by
  obtain ⟨u, hu, rfl⟩ := serveAs_eq_some.mp hs
  obtain ⟨-, hid, hadmits, horder⟩ := hc
  have htrails : u.trails = s.trails := (serve_served hu).trails
  have hself : (u.note i ⟨c, a⟩).trails i = (s.trails i).note ⟨c, a⟩ := by
    rw [note_trails_self, htrails]
  cases c with
  | acquireTokens =>
    obtain ⟨⟨pair, m⟩, hacquire, he⟩ := Option.map_eq_some_iff.mp hu
    obtain ⟨rfl, rfl⟩ := Prod.mk.inj he
    exact .drew hacquire horder (by rw [hself]; rfl) rfl rfl rfl
  | registerTokens id pair =>
    obtain rfl : id = i := hadmits.2.trans hid
    have hleases : (u.note id ⟨.registerTokens id pair, a⟩).leases = s.leases :=
      (serve_served hu).leases
    cases hu
    refine .entered horder (by rw [hself]; rfl) (by simp [note]) hleases ?_
    show ((State.registerToken _ pair.printToken id).registerToken pair.cutToken id).byToken = _
    rw [registerToken_byToken, registerToken_byToken]
  | releaseTokens pair =>
    cases hu
    exact .released horder (by rw [hself]; rfl) rfl rfl rfl
  | write part data =>
    obtain ⟨b, -, he⟩ := Option.map_eq_some_iff.mp hu
    obtain ⟨rfl, rfl⟩ := Prod.mk.inj he
    refine marked_quiet hu (.inl rfl) (fun hp => ?_) rfl rfl rfl
    cases part with
    | payload => exact .inr horder
    | _ => exact .inl hp
  | recordTokens id pair =>
    obtain ⟨w, hw, he⟩ := Option.map_eq_some_iff.mp hu
    obtain ⟨-, rfl⟩ := Prod.mk.inj he
    obtain ⟨-, rfl⟩ := commit_eq_some.mp hw
    exact marked_quiet hu (.inr ⟨pair, .inr ⟨horder, rfl⟩⟩) .inl rfl rfl rfl
  | setTokens id pair =>
    have hquiet := hu
    cases hu
    exact marked_quiet hquiet (.inr ⟨pair, .inl ⟨horder, rfl⟩⟩) .inl rfl rfl rfl
  | recordState id st cf rs ev =>
    obtain ⟨w, hw, he⟩ := Option.map_eq_some_iff.mp hu
    obtain ⟨-, rfl⟩ := Prod.mk.inj he
    obtain ⟨-, rfl⟩ := commit_eq_some.mp hw
    exact marked_quiet hu (.inl rfl) .inl rfl rfl rfl
  | emit | finish =>
    have hquiet := hu
    cases hu
    exact marked_quiet hquiet (.inl rfl) .inl rfl rfl rfl
  | awaitRealtime part wait =>
    obtain ⟨b, -, he⟩ := Option.map_eq_some_iff.mp hu
    obtain ⟨rfl, rfl⟩ := Prod.mk.inj he
    cases part <;> exact marked_quiet hu (.inl rfl) .inl rfl rfl rfl
  | _ =>
    obtain ⟨b, -, he⟩ := Option.map_eq_some_iff.mp hu
    obtain ⟨rfl, rfl⟩ := Prod.mk.inj he
    exact marked_quiet hu (.inl rfl) .inl rfl rfl rfl

theorem serve_elsewhere (hs : s.serveAs i c ch = some (a, s')) {j : Bytes} (hj : j ≠ i) :
    s'.trails j = s.trails j := by
  obtain ⟨u, hu, rfl⟩ := serveAs_eq_some.mp hs
  rw [note_trails_of_ne hj, (serve_served hu).trails]

theorem serve_live (hs : s.serveAs i c ch = some (a, s')) {j : Bytes} : Live s' j ↔ Live s j := by
  obtain ⟨u, hu, rfl⟩ := serveAs_eq_some.mp hs
  have hserved := serve_served hu
  constructor
  · rintro ⟨p, hp, hlive⟩
    cases hq : s.jobs j with
    | none =>
      have hnone : u.jobs j = none := hserved.absent j hq
      rw [show u.jobs j = some p from hp] at hnone
      cases hnone
    | some q =>
      obtain ⟨p', hp', hsame⟩ := hserved.same j q hq
      obtain rfl := Option.some.inj (hp'.symm.trans hp)
      exact ⟨q, hq, hsame.phase ▸ hlive⟩
  · rintro ⟨q, hq, hlive⟩
    obtain ⟨p, hp, hsame⟩ := hserved.same j q hq
    exact ⟨p, hp, hsame.phase.symm ▸ hlive⟩

end Serve

/-! ### Moves that do nothing with tokens -/

/-- A move that is no call leaves every job that had a lease as it is. -/
structure Calm (s s' : State) : Prop where
  markers : s'.markers = s.markers
  leases : s'.leases = s.leases
  index : s'.byToken = s.byToken
  trails : ∀ j, ((s'.trails j).tokens = (s.trails j).tokens ∧
      (s'.trails j).progress.accepted = (s.trails j).progress.accepted ∧ (Live s' j → Live s j)) ∨
    (j ∉ s.store.ids ∧ s'.trails j = Trail.new j)
  records : ∀ j ∈ s.store.ids, s'.store.find? j = s.store.find? j
  prior : ∀ store op, s'.prior = some (store, op) →
    store = s.store ∧ ∀ j printToken cutToken, op ≠ .recordTokens j printToken cutToken

section Calm
variable {s s' : State} {i : Bytes}

theorem live_setPhase {phase : Phase} {p : Job} (hp : s.jobs i = some p) (hlive : p.phase ≠ .reloaded)
    {j : Bytes} (h : Live (s.change i (Job.setPhase phase)) j) : Live s j := by
  obtain ⟨q, hq, hq'⟩ := h
  rw [change_jobs] at hq
  split_ifs at hq with hij
  · subst hij
    exact ⟨p, hp, hlive⟩
  · exact ⟨q, hq, hq'⟩

theorem Minted.calm {d : Draw} {key printerId : Bytes} {attempt : UInt32}
    {payload : Option Payload} {phase : Phase}
    (h : Minted s s' d key printerId attempt payload phase) : Calm s s' := by
  obtain ⟨record, hid, -, -, -, -, -, rfl⟩ := h.eq
  have hfresh : record.id ∉ s.store.ids := hid ▸ h.fresh
  refine ⟨rfl, rfl, rfl, fun j => ?_, fun j hj => ?_, fun store op hp => ?_⟩
  · by_cases hj : j = d.id
    · refine .inr ⟨hj ▸ h.fresh, ?_⟩
      rw [hj]
      exact Function.update_self ..
    · have htrails : Function.update s.trails d.id (Trail.new d.id) j = s.trails j :=
        Function.update_of_ne hj ..
      refine .inl ⟨congrArg Trail.tokens htrails,
        congrArg (fun t : Trail => t.progress.accepted) htrails, ?_⟩
      rintro ⟨p, hp, hlive⟩
      change Function.update s.jobs d.id _ j = some p at hp
      rw [Function.update_of_ne hj] at hp
      exact ⟨p, hp, hlive⟩
  · change ((StoreOp.createJob d.now record).apply s.store none).2.find? j = _
    rw [find?_createJob hfresh, if_neg fun he : record.id = j => hfresh (he ▸ hj)]
  · obtain ⟨rfl, rfl⟩ := Prod.mk.inj (Option.some.inj hp)
    exact ⟨rfl, fun _ _ _ he => by cases he⟩

theorem event_calm {e : Event} (hnone : s.prior = none) (h : Stepped s e s') : Calm s s' := by
  have hprior : ∀ (store : JobStore) (op : StoreOp), s.prior = some (store, op) →
      store = s.store ∧ ∀ j printToken cutToken, op ≠ .recordTokens j printToken cutToken := by
    intro store op hp
    rw [hnone] at hp
    cases hp
  cases h with
  | same => exact ⟨rfl, rfl, rfl, fun _ => .inl ⟨rfl, rfl, fun h => h⟩, fun _ _ => rfl, hprior⟩
  | submit hv hauto hm => exact Minted.calm hm
  | reserve hv hauto hm => exact Minted.calm hm
  | @submitReserved id payload options p hp hr hphase =>
    refine ⟨rfl, rfl, rfl, fun j => .inl ⟨rfl, rfl, fun hj => ?_⟩, fun _ _ => rfl, hprior⟩
    exact live_setPhase hp (by rcases hphase with he | he <;> rw [he] <;> simp) hj

theorem begin_calm {w : Work} {q : Prog Worker Unit} (hnone : s.prior = none)
    (h : s.begin i w = some (q, s')) : Calm s s' := by
  obtain ⟨p, phase, trails, hp, hlive, -, rfl, hsame, -⟩ := begin_outline h
  refine ⟨rfl, rfl, rfl, fun j => .inl ⟨(hsame j).2, ?_, fun hj => ?_⟩, fun _ _ => rfl, ?_⟩
  · exact congrArg Progress.accepted (hsame j).1
  · exact live_setPhase hp hlive hj
  · intro store op hprior
    change s.prior = some (store, op) at hprior
    rw [hnone] at hprior
    cases hprior

end Calm

/-! ### Leases -/

/-- Every lease is that of a job in the store, also before the append that is under way, and its pair
is one of the allocator's. -/
structure Leased (s : State) : Prop where
  mine : ∀ i pair, given (s.trails i).tokens = some pair ↔ (i, pair) ∈ s.leases
  known : ∀ l ∈ s.leases, l.1 ∈ s.store.ids
  prior : ∀ store op, s.prior = some (store, op) → ∀ l ∈ s.leases, l.1 ∈ store.ids
  drawn : ∀ l ∈ s.leases, ∃ slot, l.2 = pairAt s.markers.nonce slot

section Leased
variable {s s' : State} {i : Bytes}

theorem acquire_spec {m m' : MarkerAllocator} {pair : MarkerPair} (h : m.acquire = some (pair, m')) :
    m'.nonce = m.nonce ∧ (∃ slot, pair = pairAt m.nonce slot) ∧
      m'.inUse = pair.printToken :: pair.cutToken :: m.inUse ∧
      pair.printToken ∉ m.inUse ∧ pair.cutToken ∉ m.inUse := by
  obtain ⟨k, -, hpair, rfl, hfree⟩ := MarkerAllocator.acquireWithin_spec h
  exact ⟨rfl, ⟨_, hpair⟩, rfl, hfree⟩

theorem Leased.calm (h : Leased s) (hm : Calm s s') : Leased s' := by
  have hids : ∀ j ∈ s.store.ids, j ∈ s'.store.ids := by
    intro j hj
    obtain ⟨r, hr⟩ := exists_of_mem_ids hj
    exact find?_isSome.mp (by rw [hm.records j hj, hr]; rfl)
  refine ⟨fun j pair => ?_, ?_, fun store op hprior => ?_, ?_⟩
  · rw [hm.leases]
    rcases hm.trails j with ⟨htokens, -, -⟩ | ⟨hj, hnew⟩
    · rw [htokens]
      exact h.mine j pair
    · rw [hnew]
      refine ⟨fun he => ?_, fun hmem => absurd (h.known _ hmem) hj⟩
      cases he
  · rw [hm.leases]
    exact fun l hl => hids _ (h.known l hl)
  · obtain ⟨rfl, -⟩ := hm.prior store op hprior
    rw [hm.leases]
    exact h.known
  · rw [hm.leases, hm.markers]
    exact h.drawn

theorem Leased.serve {c : Call} {ch : Choice} {a : c.Answer} (h : Leased s) (hk : Known s)
    (hc : contract.allowed i c s) (hs : s.serveAs i c ch = some (a, s')) : Leased s' := by
  have hmarked := serve_marked hc hs
  have helse : ∀ {j : Bytes}, j ≠ i → s'.trails j = s.trails j := serve_elsewhere hs
  obtain ⟨p, hp, -⟩ := hc.1
  have hi : i ∈ s.store.ids := (hk i).mp (by rw [hp]; rfl)
  obtain ⟨u, hu, rfl⟩ := serveAs_eq_some.mp hs
  have hids : u.store.ids = s.store.ids := (serve_served hu).ids
  have hprior : ∀ store op, u.prior = some (store, op) → store = s.store :=
    fun store op hp => (serve_prior rfl hu hp).1
  -- a call that draws nothing leaves the leases and what the jobs were given
  have hsame : (u.note i ⟨c, a⟩).leases = s.leases →
      given ((u.note i ⟨c, a⟩).trails i).tokens = given (s.trails i).tokens →
      (u.note i ⟨c, a⟩).markers.nonce = s.markers.nonce → Leased (u.note i ⟨c, a⟩) := by
    intro hleases hgiven hnonce
    refine ⟨fun j pair => ?_, ?_, fun store op he => ?_, ?_⟩ <;> rw [hleases]
    · by_cases hj : j = i
      · rw [hj, hgiven]
        exact h.mine i pair
      · rw [helse hj]
        exact h.mine j pair
    · change ∀ l ∈ s.leases, l.1 ∈ u.store.ids
      rw [hids]
      exact h.known
    · obtain rfl := hprior store op he
      exact h.known
    · rw [hnonce]
      exact h.drawn
  cases hmarked with
  | @drew pair m hacquire hbefore hafter hmarkers hleases hindex =>
    obtain ⟨hnonce, hslot, -⟩ := acquire_spec hacquire
    refine ⟨fun j q => ?_, ?_, fun store op he => ?_, ?_⟩ <;> rw [hleases]
    · rw [List.mem_cons, Prod.mk.injEq]
      by_cases hj : j = i
      · subst hj
        have hnone : (j, q) ∉ s.leases := fun hmem => by
          have := (h.mine j q).mpr hmem
          rw [hbefore] at this
          cases this
        rw [hafter]
        simp [given, hnone, eq_comm]
      · rw [helse hj, h.mine j q]
        simp [hj]
    · rw [List.forall_mem_cons]
      change i ∈ u.store.ids ∧ ∀ l ∈ s.leases, l.1 ∈ u.store.ids
      rw [hids]
      exact ⟨hi, h.known⟩
    · obtain rfl := hprior store op he
      exact List.forall_mem_cons.mpr ⟨hi, h.known⟩
    · rw [hmarkers, hnonce]
      exact List.forall_mem_cons.mpr ⟨hslot, h.drawn⟩
  | entered hbefore hafter hmarkers hleases hindex =>
    exact hsame hleases (by rw [hbefore, hafter]; rfl) (by rw [hmarkers])
  | released hbefore hafter hmarkers hleases hindex =>
    exact hsame hleases (by rw [hbefore, hafter]; rfl) (by rw [hmarkers]; rfl)
  | quiet hgiven hkeeps hentered hprinted hmarkers hleases hindex =>
    exact hsame hleases hgiven (by rw [hmarkers])

/-- The job of a lease is in the store of the next process. -/
theorem Leased.reopened (h : Leased s) (hl : Lasting s) {cut : Option ℕ} {file : Bytes}
    (hfile : s.remains cut = some file) {now : Bytes → UInt64} {l : Bytes × MarkerPair}
    (hmem : l ∈ s.leases) : l.1 ∈ (JobStore.open now file).ids := by
  cases cut with
  | none =>
    obtain ⟨r, hr⟩ := exists_of_mem_ids (h.known l hmem)
    exact find?_isSome.mp (by rw [find?_reopened hl hfile hr]; rfl)
  | some n =>
    obtain ⟨store, op, hprior, hfind⟩ := find?_reopened_cut hl hfile
    obtain ⟨r, hr⟩ := exists_of_mem_ids (h.prior store op hprior l hmem)
    obtain ⟨t, -, ht⟩ := hfind r hr
    exact find?_isSome.mp (by rw [ht]; rfl)

theorem Leased.restart {r : Restart} (h : Leased s) (hl : Lasting s)
    (hs : driver.restart r s = some s') : Leased s' := by
  obtain ⟨file, hfile, rfl⟩ := Option.map_eq_some_iff.mp hs
  refine ⟨?_, ?_, fun store op hp => ?_, ?_⟩
  · rw [opened_trails, opened_leases]
    exact h.mine
  · rw [opened_store, opened_leases]
    exact fun l hmem => h.reopened hl hfile hmem
  · rw [opened_prior] at hp
    cases hp
  · rw [opened_leases, opened_markers]
    exact h.drawn

/-- **The leases**, in every run. -/
theorem leased_of_reached {G : driver.Guard} {nonce : Bytes} {cfg : Config Worker Bytes State}
    (h : Reached G nonce cfg) : Leased cfg.state := by
  have hfirst : Leased (first nonce) := by
    refine ⟨fun i pair => ⟨fun he => ?_, fun hl => ?_⟩, fun l hl => ?_, fun _ _ hp => ?_,
      fun l hl => ?_⟩
    · cases he
    · cases hl
    · cases hl
    · cases hp
    · cases hl
  have hclear : ∀ {s : State}, Leased s → Leased { s with prior := none } :=
    fun h => ⟨h.mine, h.known, (fun _ _ hp => by cases hp), h.drawn⟩
  exact driver_guarded.further known_opened (fun i => safe_ret_rest rest_opened)
    (J := fun s => Known s ∧ Indexed s) indexed_of_reached hfirst
    (fun i c ch s a s' hj hi hc _ hs => hi.serve hj.1 hc hs)
    (fun e s s' _ hi _ hs => (hclear hi).calm (event_calm rfl (step_stepped hs)))
    (fun i w s q s' _ hi _ hs => (hclear hi).calm (begin_calm rfl hs))
    (fun r s s' hj hi _ hs => hi.restart hj.2.lasting hs) h

end Leased

/-! ### The journal -/

/-- The journal has the print token of the job. -/
def Recorded (store : JobStore) (i : Bytes) (pair : MarkerPair) : Prop :=
  ∃ r, store.find? i = some r ∧ r.printToken = pair.printToken

/-- Tokens are in the journal before they are entered. -/
structure Filed (s : State) : Prop where
  filed : ∀ i pair, Live s i → (s.trails i).tokens = .filed pair → Recorded s.store i pair
  entered : ∀ i pair, indexed (s.trails i).tokens = some pair → Recorded s.store i pair
  prior : ∀ store op, s.prior = some (store, op) → ∀ i pair,
    indexed (s.trails i).tokens = some pair →
      Recorded store i pair ∧ ∀ printToken cutToken, op ≠ .recordTokens i printToken cutToken

section Filed
variable {s s' : State} {i : Bytes}

theorem Filed.calm (h : Filed s) (hl : Leased s) (hm : Calm s s') : Filed s' := by
  -- a job that was given tokens is not new
  have hold : ∀ {j : Bytes}, given (s'.trails j).tokens ≠ none → j ∈ s.store.ids →
      (s'.trails j).tokens = (s.trails j).tokens ∧ (Live s' j → Live s j) := by
    intro j hne hj
    rcases hm.trails j with ⟨htokens, -, hlive⟩ | ⟨hnew, -⟩
    · exact ⟨htokens, hlive⟩
    · exact absurd hj hnew
  have hids : ∀ {j : Bytes} {pair : MarkerPair}, given (s'.trails j).tokens = some pair →
      j ∈ s.store.ids := by
    intro j pair hgiven
    have hmem : (j, pair) ∈ s.leases := by
      rw [← hm.leases]
      exact ((hl.calm hm).mine j pair).mp hgiven
    exact hl.known _ hmem
  have hrecord : ∀ {j : Bytes} {pair : MarkerPair}, j ∈ s.store.ids → Recorded s.store j pair →
      Recorded s'.store j pair := by
    rintro j pair hj ⟨r, hr, hp⟩
    exact ⟨r, by rw [hm.records j hj, hr], hp⟩
  have hgiven : ∀ {t : Tokens} {pair : MarkerPair}, indexed t = some pair →
      given t = some pair := by
    intro t pair ht
    cases t <;> first | exact ht | cases ht
  refine ⟨fun j pair hlive ht => ?_, fun j pair ht => ?_, fun store op hp j pair ht => ?_⟩
  · have hj := @hids j pair (by rw [ht]; rfl)
    obtain ⟨htokens, hback⟩ := hold (j := j) (by rw [ht]; simp [given]) hj
    exact hrecord hj (h.filed j pair (hback hlive) (htokens ▸ ht))
  · have hj := hids (hgiven ht)
    obtain ⟨htokens, -⟩ := hold (j := j) (by rw [hgiven ht]; simp) hj
    exact hrecord hj (h.entered j pair (htokens ▸ ht))
  · have hj := hids (hgiven ht)
    obtain ⟨htokens, -⟩ := hold (j := j) (by rw [hgiven ht]; simp) hj
    obtain ⟨rfl, hop⟩ := hm.prior store op hp
    exact ⟨h.entered j pair (htokens ▸ ht), hop j⟩

theorem recordUpdate_printToken {c : Call} {now : UInt64} {r : JobRecord}
    (hc : ∀ id pair, c ≠ .recordTokens id pair) :
    (recordUpdate now c r).printToken = r.printToken := by
  cases c with
  | recordTokens id pair => exact absurd rfl (hc id pair)
  | _ => rfl

theorem Filed.serve {c : Call} {ch : Choice} {a : c.Answer} (h : Filed s) (hk : Known s)
    (hc : contract.allowed i c s) (hs : s.serveAs i c ch = some (a, s')) : Filed s' := by
  have hlive : ∀ {j : Bytes}, Live s' j → Live s j := fun hj => (serve_live hs).mp hj
  have helse : ∀ {j : Bytes}, j ≠ i → s'.trails j = s.trails j := serve_elsewhere hs
  obtain ⟨hself, hid, hadmits, horder⟩ := hc
  obtain ⟨u, hu, rfl⟩ := serveAs_eq_some.mp hs
  have htokens : ((u.note i ⟨c, a⟩).trails i).tokens = (s.trails i).tokens.post ⟨c, a⟩ := by
    rw [note_trails_self, (serve_served hu).trails]
    rfl
  have hother : ∀ {j : Bytes} {pair : MarkerPair}, j ≠ i → Recorded s.store j pair →
      Recorded u.store j pair := by
    intro j pair hj hr
    unfold Recorded
    rw [(serve_others hid hadmits hu hj).2]
    exact hr
  have hmine : ∀ {pair : MarkerPair}, (∀ id pair, c ≠ .recordTokens id pair) →
      Recorded s.store i pair → Recorded u.store i pair := by
    rintro pair hquiet ⟨r, hr, hp⟩
    refine ⟨recordUpdate ch.now c r, ?_, (recordUpdate_printToken hquiet).trans hp⟩
    rw [(serve_self hid hadmits hu).2, hr]
    rfl
  -- what the job has after its call it had before, or has just filed, or had filed
  have hcall : ∀ pair, (((u.note i ⟨c, a⟩).trails i).tokens = .filed pair ∨
      indexed ((u.note i ⟨c, a⟩).trails i).tokens = some pair) → Recorded u.store i pair := by
    intro pair ht
    rw [htokens] at ht
    cases c with
    | recordTokens id filed =>
      obtain rfl : id = i := hadmits.2.trans hid
      obtain ⟨p, hp, -⟩ := hself
      obtain ⟨r, hr⟩ := exists_of_mem_ids ((hk id).mp (by rw [hp]; rfl))
      have hpair : filed = pair := by
        rcases ht with ht | ht <;> cases ht
        rfl
      refine ⟨recordUpdate ch.now (.recordTokens id filed) r, ?_, ?_⟩
      · rw [(serve_self hid hadmits hu).2, hr]
        rfl
      · rw [← hpair]
        rfl
    | acquireTokens | setTokens => rcases ht with ht | ht <;> cases ht
    | registerTokens id filed =>
      have hpair : filed = pair := by
        rcases ht with ht | ht <;> cases ht
        rfl
      exact hmine (by simp) (h.filed i pair hself (hpair ▸ horder))
    | releaseTokens held =>
      have hpair : held = pair := by
        rcases ht with ht | ht <;> cases ht
        rfl
      have hbefore : (s.trails i).tokens = .registered pair := hpair ▸ horder
      exact hmine (by simp) (h.entered i pair (by rw [hbefore]; rfl))
    | _ =>
      rcases ht with ht | ht
      · exact hmine (by simp) (h.filed i pair hself ht)
      · exact hmine (by simp) (h.entered i pair ht)
  refine ⟨fun j pair hj ht => ?_, fun j pair ht => ?_, fun store op hp j pair ht => ?_⟩
  · by_cases hji : j = i
    · subst hji
      exact hcall pair (.inl ht)
    · rw [helse hji] at ht
      exact hother hji (h.filed j pair (hlive hj) ht)
  · by_cases hji : j = i
    · subst hji
      exact hcall pair (.inr ht)
    · rw [helse hji] at ht
      exact hother hji (h.entered j pair ht)
  · obtain ⟨rfl, hop⟩ := serve_prior rfl hu hp
    by_cases hji : j = i
    · subst hji
      rw [htokens] at ht
      rcases hop with ⟨id, st, cf, rs, ev, rfl, rfl⟩ | ⟨id, filed, rfl, rfl⟩
      · exact ⟨h.entered j pair ht, fun _ _ he => by cases he⟩
      · cases ht
    · rw [helse hji] at ht
      refine ⟨h.entered j pair ht, fun printToken cutToken he => ?_⟩
      rcases hop with ⟨id, st, cf, rs, ev, rfl, rfl⟩ | ⟨id, filed, rfl, rfl⟩
      · cases he
      · obtain rfl : id = j := by cases he; rfl
        exact hji (hadmits.2.trans hid)

theorem printToken_recover {r : JobRecord} {now : UInt64} :
    (r.recover now).printToken = r.printToken := by
  unfold JobRecord.recover
  split_ifs <;> rfl

theorem printToken_after {op : StoreOp} {r t : JobRecord} (h : After op r t)
    (hop : ∀ printToken cutToken, op ≠ .recordTokens r.id printToken cutToken) :
    t.printToken = r.printToken := by
  cases h with
  | same => rfl
  | state => rfl
  | tokens htokens => exact absurd htokens (hop _ _)

/-- The next process finds the token in the journal. -/
theorem Filed.reopened (h : Filed s) (hl : Lasting s) {cut : Option ℕ} {file : Bytes}
    (hfile : s.remains cut = some file) {now : Bytes → UInt64} {pair : MarkerPair}
    (ht : indexed (s.trails i).tokens = some pair) :
    Recorded (JobStore.open now file) i pair := by
  cases cut with
  | none =>
    obtain ⟨r, hr, hp⟩ := h.entered i pair ht
    exact ⟨_, find?_reopened hl hfile hr, printToken_recover.trans hp⟩
  | some n =>
    obtain ⟨store, op, hprior, hfind⟩ := find?_reopened_cut hl hfile
    obtain ⟨⟨r, hr, hp⟩, hop⟩ := h.prior store op hprior i pair ht
    obtain ⟨t, hafter, ht⟩ := hfind r hr
    have hid : r.forget.id = i := (id_of_find? hr : r.id = i)
    refine ⟨_, ht, printToken_recover.trans ((printToken_after hafter ?_).trans hp)⟩
    rw [hid]
    exact hop

theorem not_live_opened {store : JobStore} {nonce : Bytes} {trails : Bytes → Trail}
    {leases : List (Bytes × MarkerPair)} : ¬Live (opened store nonce trails leases) i := by
  rintro ⟨p, hp, hlive⟩
  rw [opened_jobs] at hp
  obtain ⟨r, -, rfl⟩ := Option.map_eq_some_iff.mp hp
  exact hlive rfl

theorem Filed.restart {r : Restart} (h : Filed s) (hl : Lasting s)
    (hs : driver.restart r s = some s') : Filed s' := by
  obtain ⟨file, hfile, rfl⟩ := Option.map_eq_some_iff.mp hs
  refine ⟨fun j pair hj _ => absurd hj not_live_opened, fun j pair ht => ?_, fun _ _ hp => ?_⟩
  · rw [opened_trails] at ht
    rw [opened_store]
    exact h.reopened hl hfile ht
  · rw [opened_prior] at hp
    cases hp

/-- **The tokens in the journal**, in every run. -/
theorem filed_of_reached {G : driver.Guard} {nonce : Bytes} {cfg : Config Worker Bytes State}
    (h : Reached G nonce cfg) : Filed cfg.state := by
  have hfirst : Filed (first nonce) :=
    ⟨fun _ _ hj _ => absurd hj not_live_opened, fun _ _ ht => (by cases ht), fun _ _ hp => by cases hp⟩
  have hclear : ∀ {s : State}, Filed s → Filed { s with prior := none } :=
    fun h => ⟨h.filed, h.entered, fun _ _ hp => by cases hp⟩
  have hleased : ∀ {s : State}, Leased s → Leased { s with prior := none } :=
    fun h => ⟨h.mine, h.known, (fun _ _ hp => by cases hp), h.drawn⟩
  exact driver_guarded.further known_opened (fun i => safe_ret_rest rest_opened)
    (J := fun s => (Known s ∧ Indexed s) ∧ Leased s)
    (fun h => ⟨indexed_of_reached h, leased_of_reached h⟩) hfirst
    (fun i c ch s a s' hj hi hc _ hs => hi.serve hj.1.1 hc hs)
    (fun e s s' hj hi _ hs => (hclear hi).calm (hleased hj.2) (event_calm rfl (step_stepped hs)))
    (fun i w s q s' hj hi _ hs => (hclear hi).calm (hleased hj.2) (begin_calm rfl hs))
    (fun r s s' hj hi _ hs => hi.restart hj.1.2.lasting hs) h

end Filed

/-! ### One holder -/

theorem given_of_keeps {t : Tokens} {pair : MarkerPair} (h : keeps t = some pair) :
    given t = some pair := by
  cases t <;> first | exact h | cases h

/-- The job of the lease is at work, and keeps its tokens from others. -/
structure Holder (s : State) (l : Bytes × MarkerPair) : Prop where
  live : Live s l.1
  keeps : keeps (s.trails l.1).tokens = some l.2

/-- The lease has the print token of a later one. -/
def Same (a b : Bytes × MarkerPair) : Prop := a.2.printToken = b.2.printToken

/-- Leases are listed with the last one first. A token that is drawn again is neither kept by a job nor
on a recent receipt, and the last job that entered the token of a recent receipt is its own. -/
structure Sole (s : State) : Prop where
  held : ∀ l, Holder s l → l.2.printToken ∈ s.markers.inUse
  alone : s.leases.Pairwise fun a b => Same a b → ¬Holder s b
  fresh : (s.leases.take 4418).Pairwise fun a b => Same a b → ¬Receipt s b
  last : ∀ l ∈ s.leases.take 4418, indexed (s.trails l.1).tokens = some l.2 →
    (s.trails l.1).progress.accepted = true ∨ Holder s l →
      (s.byToken l.2.printToken).getLast? = some l.1

section Sole
variable {s s' : State} {i : Bytes} {l m : Bytes × MarkerPair}

theorem Holder.mem (h : Holder s l) (hl : Leased s) : l ∈ s.leases :=
  (hl.mine l.1 l.2).mp (given_of_keeps h.keeps)

theorem Leased.eq_of_fst (hl : Leased s) (h : l ∈ s.leases) (hm : m ∈ s.leases)
    (he : l.1 = m.1) : l = m := by
  have hgiven : given (s.trails l.1).tokens = some l.2 := (hl.mine l.1 l.2).mpr h
  rw [he, (hl.mine m.1 m.2).mpr hm] at hgiven
  exact Prod.ext he (Option.some.inj hgiven).symm

/-- Of two elements one stands before the other. -/
theorem pairwise_or {α : Type} {R : α → α → Prop} {xs : List α} {a b : α} (h : xs.Pairwise R)
    (ha : a ∈ xs) (hb : b ∈ xs) (hne : a ≠ b) : R a b ∨ R b a := by
  have hall := List.Pairwise.forall_of_forall_of_flip (l := xs)
    (R := fun a b => a ≠ b → R a b ∨ R b a) (fun _ _ hne => absurd rfl hne)
    (h.imp fun hab _ => .inl hab) (h.imp fun hab _ => .inr hab)
  exact hall ha hb hne

/-- Two jobs at work do not keep one token. -/
theorem Sole.holder_unique (h : Sole s) (hl : Leased s) (ha : Holder s l) (hb : Holder s m)
    (he : Same l m) : l = m := by
  by_contra hne
  rcases pairwise_or h.alone (ha.mem hl) (hb.mem hl) hne with hab | hba
  · exact hab he hb
  · exact hba he.symm ha

/-- A recent receipt does not have the token that another job keeps. -/
theorem Sole.receipt_unique (h : Sole s) (hl : Leased s) (hmem : l ∈ s.leases.take 4418)
    (ha : Receipt s l) (hb : Holder s m) (he : Same l m) : l = m := by
  by_contra hne
  have hsplit : m ∈ s.leases.take 4418 ++ s.leases.drop 4418 := by
    rw [List.take_append_drop]
    exact hb.mem hl
  have halone : (s.leases.take 4418 ++ s.leases.drop 4418).Pairwise
      fun a b => Same a b → ¬Holder s b := by
    rw [List.take_append_drop]
    exact h.alone
  rw [List.pairwise_append] at halone
  rcases List.mem_append.mp hsplit with hm | hm
  · rcases pairwise_or (halone.1.and h.fresh) hmem hm hne with hab | hba
    · exact hab.1 he hb
    · exact hba.2 he.symm ha
  · exact halone.2.2 l hmem m hm he hb

/-- A move that draws nothing. -/
theorem Sole.carry (h : Sole s) (hleases : s'.leases = s.leases)
    (hheld : ∀ l, Holder s' l → l.2.printToken ∈ s'.markers.inUse)
    (hholder : ∀ l ∈ s.leases, Holder s' l → Holder s l)
    (hreceipt : ∀ l ∈ s.leases, Receipt s' l → Receipt s l ∨ Holder s l)
    (hlast : ∀ l ∈ s.leases.take 4418, indexed (s'.trails l.1).tokens = some l.2 →
      (s'.trails l.1).progress.accepted = true ∨ Holder s' l →
        (s'.byToken l.2.printToken).getLast? = some l.1) : Sole s' := by
  have hrecent : ∀ {l}, l ∈ s.leases.take 4418 → l ∈ s.leases := List.mem_of_mem_take
  have halone := h.alone.sublist (List.take_sublist 4418 s.leases)
  refine ⟨hheld, ?_, ?_, ?_⟩ <;> rw [hleases]
  · exact h.alone.imp_of_mem fun _ hb hab hsame hk => hab hsame (hholder _ hb hk)
  · refine (h.fresh.and halone).imp_of_mem fun _ hb hab hsame hr => ?_
    rcases hreceipt _ (hrecent hb) hr with hr | hk
    · exact hab.1 hsame hr
    · exact hab.2 hsame hk
  · exact hlast

/-! ### The index -/

theorem pairAt_ne_nil (nonce : Bytes) (slot : UInt32) : (pairAt nonce slot).printToken ≠ [] := by
  intro h
  have hlength := congrArg List.length h
  simp [pairAt, encodeBase94] at hlength

theorem enterToken_self {index : Bytes → List Bytes} {token id : Bytes} (h : token ≠ []) :
    (enterToken index token id) token = index token ++ [id] := by
  rw [enterToken, if_neg h, Function.update_self]

theorem enterToken_of_ne {index : Bytes → List Bytes} {token other id : Bytes} (h : other ≠ token) :
    (enterToken index token id) other = index other := by
  unfold enterToken
  split_ifs
  · rfl
  · exact Function.update_of_ne h ..

/-- No print token is a cut token. -/
theorem Leased.parity (hl : Leased s) (h : l ∈ s.leases) (hm : m ∈ s.leases) :
    l.2.printToken ≠ m.2.cutToken := by
  obtain ⟨a, ha⟩ := hl.drawn l h
  obtain ⟨b, hb⟩ := hl.drawn m hm
  rw [ha, hb, ← UInt32.ofNat_toNat (x := a), ← UInt32.ofNat_toNat (x := b)]
  exact printToken_ne_cutToken _ _ _

theorem Leased.ne_nil (hl : Leased s) (h : l ∈ s.leases) : l.2.printToken ≠ [] := by
  obtain ⟨a, ha⟩ := hl.drawn l h
  rw [ha]
  exact pairAt_ne_nil _ _

/-! ### A call -/

section Call
variable {c : Call} {ch : Choice} {a : c.Answer}

/-- A lease of a token that no job keeps, and that is on no recent receipt. -/
theorem Sole.drew {pair : MarkerPair} {k : MarkerAllocator} (h : Sole s) (hl : Leased s)
    (hs : s.serveAs i c ch = some (a, s')) (hacquire : s.markers.acquire = some (pair, k))
    (hbefore : (s.trails i).tokens = .unleased) (hafter : (s'.trails i).tokens = .leased pair)
    (hmarkers : s'.markers = k) (hleases : s'.leases = (i, pair) :: s.leases)
    (hindex : s'.byToken = s.byToken) (hg : ¬Repeats s) : Sole s' := by
  obtain ⟨-, -, hinUse, hfree, -⟩ := acquire_spec hacquire
  have helse : ∀ {j : Bytes}, j ≠ i → s'.trails j = s.trails j := serve_elsewhere hs
  have hlive : ∀ {j : Bytes}, Live s' j ↔ Live s j := serve_live hs
  have hother : ∀ {l}, l ∈ s.leases → l.1 ≠ i := by
    intro l hmem he
    have hgiven := (hl.mine l.1 l.2).mpr hmem
    rw [he, hbefore] at hgiven
    cases hgiven
  have hholder : ∀ {l}, l.1 ≠ i → Holder s' l → Holder s l := by
    intro l hne hk
    exact ⟨hlive.mp hk.live, by rw [← helse hne]; exact hk.keeps⟩
  have hreceipt : ∀ {l}, l.1 ≠ i → Receipt s' l → Receipt s l := by
    intro l hne hr
    exact ⟨by rw [← helse hne]; exact hr.entered, by rw [← helse hne]; exact hr.printed⟩
  have htake : ∀ {l}, l ∈ s.leases.take 4417 → l ∈ s.leases.take 4418 := by
    intro l hmem
    exact (List.take_sublist_take_left (Nat.le_succ 4417)).subset hmem
  have hrecent : ∀ {l}, l ∈ s.leases.take 4418 → l ∈ s.leases := List.mem_of_mem_take
  refine ⟨fun l hk => ?_, ?_, ?_, ?_⟩
  · rw [hmarkers, hinUse]
    by_cases he : l.1 = i
    · have hkeeps := hk.keeps
      rw [he, hafter] at hkeeps
      rw [← Option.some.inj hkeeps]
      exact List.mem_cons_self ..
    · exact List.mem_cons_of_mem _ (List.mem_cons_of_mem _ (h.held l (hholder he hk)))
  · rw [hleases, List.pairwise_cons]
    refine ⟨fun b hb hsame hk => ?_, h.alone.imp_of_mem fun _ hb hab hsame hk => ?_⟩
    · have hin := h.held b (hholder (hother hb) hk)
      rw [← hsame] at hin
      exact hfree hin
    · exact hab hsame (hholder (hother hb) hk)
  · rw [hleases, List.take_succ_cons, List.pairwise_cons]
    refine ⟨fun b hb hsame hr => ?_, ?_⟩
    · have hback := hreceipt (hother (hrecent (htake hb))) hr
      exact hg ⟨(pair, k), hacquire, b, hb, hback, hsame.symm⟩
    · have hfresh := h.fresh.sublist (List.take_sublist_take_left (Nat.le_succ 4417))
      refine hfresh.imp_of_mem fun _ hb hab hsame hr => ?_
      exact hab hsame (hreceipt (hother (hrecent (htake hb))) hr)
  · rw [hleases, List.take_succ_cons]
    intro l hmem hentered hcase
    rcases List.mem_cons.mp hmem with rfl | hmem
    · rw [hafter] at hentered
      cases hentered
    · have hne := hother (hrecent (htake hmem))
      rw [helse hne] at hentered hcase
      rw [hindex]
      exact h.last l (htake hmem) hentered (hcase.imp_right (hholder hne))

/-- The tokens of a job are entered in the index. -/
theorem Sole.entered {pair : MarkerPair} (h : Sole s) (hl : Leased s) (hi : Live s i)
    (hs : s.serveAs i c ch = some (a, s')) (hbefore : (s.trails i).tokens = .filed pair)
    (hafter : (s'.trails i).tokens = .registered pair) (hmarkers : s'.markers = s.markers)
    (hleases : s'.leases = s.leases)
    (hindex : s'.byToken = enterToken (enterToken s.byToken pair.printToken i) pair.cutToken i) :
    Sole s' := by
  have helse : ∀ {j : Bytes}, j ≠ i → s'.trails j = s.trails j := serve_elsewhere hs
  have hlive : ∀ {j : Bytes}, Live s' j ↔ Live s j := serve_live hs
  have hown : Holder s (i, pair) := ⟨hi, by rw [hbefore]; rfl⟩
  have hmine : (i, pair) ∈ s.leases := hown.mem hl
  have hholder : ∀ l, Holder s' l → Holder s l := by
    intro l hk
    refine ⟨hlive.mp hk.live, ?_⟩
    have hkeeps := hk.keeps
    by_cases he : l.1 = i
    · rw [he, hafter] at hkeeps
      rw [he, hbefore]
      exact hkeeps
    · rw [← helse he]
      exact hkeeps
  refine h.carry hleases (fun l hk => ?_) (fun l _ => hholder l) (fun l hmem hr => ?_)
    fun l hmem hentered hcase => ?_
  · rw [hmarkers]
    exact h.held l (hholder l hk)
  · by_cases he : l.1 = i
    · exact .inr (hl.eq_of_fst hmem hmine he ▸ hown)
    · exact .inl ⟨by rw [← helse he]; exact hr.entered, by rw [← helse he]; exact hr.printed⟩
  · have hrecent : l ∈ s.leases := List.mem_of_mem_take hmem
    rw [hindex, enterToken_of_ne (hl.parity hrecent hmine)]
    by_cases he : l.1 = i
    · obtain rfl := hl.eq_of_fst hrecent hmine he
      rw [enterToken_self (hl.ne_nil hmine)]
      exact List.getLast?_concat ..
    · rw [helse he] at hentered hcase
      have hne : l.2.printToken ≠ pair.printToken := by
        intro hsame
        have hsame : Same l (i, pair) := hsame
        rcases hcase with hprinted | hk
        · exact he (congrArg Prod.fst (h.receipt_unique hl hmem ⟨hentered, hprinted⟩ hown hsame))
        · exact he (congrArg Prod.fst (h.holder_unique hl (hholder l hk) hown hsame))
      rw [enterToken_of_ne hne]
      exact h.last l hmem hentered (hcase.imp_right (hholder l))

/-- The tokens of a job are given back. -/
theorem Sole.released {pair : MarkerPair} (h : Sole s) (hl : Leased s) (hi : Live s i)
    (hs : s.serveAs i c ch = some (a, s')) (hbefore : (s.trails i).tokens = .registered pair)
    (hafter : (s'.trails i).tokens = .released pair)
    (hmarkers : s'.markers = s.markers.release pair) (hleases : s'.leases = s.leases)
    (hindex : s'.byToken = s.byToken) : Sole s' := by
  have helse : ∀ {j : Bytes}, j ≠ i → s'.trails j = s.trails j := serve_elsewhere hs
  have hlive : ∀ {j : Bytes}, Live s' j ↔ Live s j := serve_live hs
  have hown : Holder s (i, pair) := ⟨hi, by rw [hbefore]; rfl⟩
  have hmine : (i, pair) ∈ s.leases := hown.mem hl
  have hne : ∀ {l}, Holder s' l → l.1 ≠ i := by
    intro l hk he
    have hkeeps := hk.keeps
    rw [he, hafter] at hkeeps
    cases hkeeps
  have hholder : ∀ l, Holder s' l → Holder s l := by
    intro l hk
    exact ⟨hlive.mp hk.live, by rw [← helse (hne hk)]; exact hk.keeps⟩
  refine h.carry hleases (fun l hk => ?_) (fun l _ => hholder l) (fun l hmem hr => ?_)
    fun l hmem hentered hcase => ?_
  · have hback := hholder l hk
    have hprint : l.2.printToken ≠ pair.printToken := by
      intro hsame
      exact hne hk (congrArg Prod.fst (h.holder_unique hl hback hown hsame))
    rw [hmarkers]
    exact MarkerAllocator.mem_release (h.held l hback) hprint (hl.parity (hback.mem hl) hmine)
  · by_cases he : l.1 = i
    · exact .inr (hl.eq_of_fst hmem hmine he ▸ hown)
    · exact .inl ⟨by rw [← helse he]; exact hr.entered, by rw [← helse he]; exact hr.printed⟩
  · have hrecent : l ∈ s.leases := List.mem_of_mem_take hmem
    rw [hindex]
    by_cases he : l.1 = i
    · obtain rfl := hl.eq_of_fst hrecent hmine he
      exact h.last _ hmem (by rw [hbefore]; rfl) (.inr hown)
    · rw [helse he] at hentered hcase
      exact h.last l hmem hentered (hcase.imp_right (hholder l))

/-- What a job was given and entered stays as it is. -/
theorem Sole.quiet (h : Sole s) (hi : Live s i)
    (hs : s.serveAs i c ch = some (a, s'))
    (hkeeps : keeps (s'.trails i).tokens = keeps (s.trails i).tokens)
    (hentered : indexed (s'.trails i).tokens = indexed (s.trails i).tokens)
    (hprinted : (s'.trails i).progress.accepted = true →
      (s.trails i).progress.accepted = true ∨ (s.trails i).tokens.Settled)
    (hmarkers : s'.markers = s.markers) (hleases : s'.leases = s.leases)
    (hindex : s'.byToken = s.byToken) : Sole s' := by
  have helse : ∀ {j : Bytes}, j ≠ i → s'.trails j = s.trails j := serve_elsewhere hs
  have hlive : ∀ {j : Bytes}, Live s' j ↔ Live s j := serve_live hs
  have hholder : ∀ l, Holder s' l → Holder s l := by
    intro l hk
    refine ⟨hlive.mp hk.live, ?_⟩
    have hkept := hk.keeps
    by_cases he : l.1 = i
    · rw [he, hkeeps] at hkept
      rw [he]
      exact hkept
    · rw [← helse he]
      exact hkept
  have hindexed : ∀ l : Bytes × MarkerPair, indexed (s'.trails l.1).tokens = some l.2 →
      indexed (s.trails l.1).tokens = some l.2 := by
    intro l hin
    by_cases he : l.1 = i
    · rw [he, hentered] at hin
      rw [he]
      exact hin
    · rw [← helse he]
      exact hin
  -- the payload is sent with tokens that are entered, and kept
  have haccepted : ∀ l : Bytes × MarkerPair, indexed (s.trails l.1).tokens = some l.2 →
      (s'.trails l.1).progress.accepted = true →
        (s.trails l.1).progress.accepted = true ∨ Holder s l := by
    intro l hin hp
    by_cases he : l.1 = i
    · rw [he] at hp hin ⊢
      rcases hprinted hp with hp | hunleased | ⟨pair, hregistered⟩
      · exact .inl hp
      · rw [hunleased] at hin
        cases hin
      · rw [hregistered] at hin
        refine .inr ⟨he ▸ hi, ?_⟩
        rw [he, hregistered]
        exact hin
    · rw [helse he] at hp
      exact .inl hp
  refine h.carry hleases (fun l hk => ?_) (fun l _ => hholder l) (fun l _ hr => ?_)
    fun l hmem hin hcase => ?_
  · rw [hmarkers]
    exact h.held l (hholder l hk)
  · have hin := hindexed l hr.entered
    exact (haccepted l hin hr.printed).imp_left fun hp => ⟨hin, hp⟩
  · rw [hindex]
    have hback := hindexed l hin
    refine h.last l hmem hback ?_
    rcases hcase with hp | hk
    · exact haccepted l hback hp
    · exact .inr (hholder l hk)

theorem Sole.serve (h : Sole s) (hl : Leased s) (hc : contract.allowed i c s)
    (hg : acquires c = true → ¬Repeats s) (hs : s.serveAs i c ch = some (a, s')) : Sole s' := by
  have hi : Live s i := hc.1
  have hmarked := serve_marked hc hs
  generalize hcall : c = d at hmarked
  cases hmarked with
  | drew hacquire hbefore hafter hmarkers hleases hindex =>
    exact h.drew hl hs hacquire hbefore hafter hmarkers hleases hindex (hg (by rw [hcall]; rfl))
  | entered hbefore hafter hmarkers hleases hindex =>
    exact h.entered hl hi hs hbefore hafter hmarkers hleases hindex
  | released hbefore hafter hmarkers hleases hindex =>
    exact h.released hl hi hs hbefore hafter hmarkers hleases hindex
  | quiet hgiven hkeeps hentered hprinted hmarkers hleases hindex =>
    exact h.quiet hi hs hkeeps hentered hprinted hmarkers hleases hindex

end Call

/-! ### The other moves -/

theorem Sole.calm (h : Sole s) (hl : Leased s) (hl' : Leased s') (hm : Calm s s') : Sole s' := by
  -- the job of a lease is not new
  have hold : ∀ l ∈ s.leases, (s'.trails l.1).tokens = (s.trails l.1).tokens ∧
      (s'.trails l.1).progress.accepted = (s.trails l.1).progress.accepted ∧
        (Live s' l.1 → Live s l.1) := by
    intro l hmem
    rcases hm.trails l.1 with hsame | ⟨hnew, -⟩
    · exact hsame
    · exact absurd (hl.known l hmem) hnew
  have hholder : ∀ l ∈ s.leases, Holder s' l → Holder s l := by
    intro l hmem hk
    obtain ⟨htokens, -, hlive⟩ := hold l hmem
    exact ⟨hlive hk.live, by rw [← htokens]; exact hk.keeps⟩
  refine h.carry hm.leases (fun l hk => ?_) hholder (fun l hmem hr => .inl ?_)
    fun l hmem hentered hcase => ?_
  · have hmem : l ∈ s.leases := by
      rw [← hm.leases]
      exact hk.mem hl'
    rw [hm.markers]
    exact h.held l (hholder l hmem hk)
  · obtain ⟨htokens, haccepted, -⟩ := hold l hmem
    exact ⟨by rw [← htokens]; exact hr.entered, by rw [← haccepted]; exact hr.printed⟩
  · have hrecent : l ∈ s.leases := List.mem_of_mem_take hmem
    obtain ⟨htokens, haccepted, -⟩ := hold l hrecent
    rw [htokens] at hentered
    rw [haccepted] at hcase
    rw [hm.index]
    exact h.last l hmem hentered (hcase.imp_right (hholder l hrecent))

/-- What a record adds to an entry of the index. -/
def entries (token : Bytes) (r : JobRecord) : List Bytes :=
  (if r.printToken = token then [r.id] else []) ++ if r.cutToken = token then [r.id] else []

theorem enter_byToken {r : JobRecord} {token : Bytes} (ht : token ≠ []) :
    (s.enter r).byToken token = s.byToken token ++ entries token r := by
  have hself : ∀ {index : Bytes → List Bytes} {t : Bytes}, enterToken index t r.id token =
      index token ++ if t = token then [r.id] else [] := by
    intro index t
    by_cases he : t = token
    · rw [he, if_pos rfl]
      exact enterToken_self ht
    · rw [if_neg he, List.append_nil]
      exact enterToken_of_ne fun h => he h.symm
  unfold State.enter entries
  rw [registerToken_byToken, registerToken_byToken, hself, hself, List.append_assoc]

theorem foldl_enter_byToken {token : Bytes} (ht : token ≠ []) : ∀ (rs : List JobRecord) (s : State),
    (rs.foldl State.enter s).byToken token = s.byToken token ++ rs.flatMap (entries token)
  | [], s => by simp
  | r :: rs, s => by
    rw [List.foldl_cons, foldl_enter_byToken ht rs, enter_byToken ht, List.flatMap_cons,
      List.append_assoc]

/-- The last record with a token is the last entry of its index. -/
theorem last_opened {store : JobStore} {nonce token : Bytes} {trails : Bytes → Trail}
    {leases : List (Bytes × MarkerPair)} {r : JobRecord} (hr : store.find? i = some r)
    (hp : r.printToken = token) (ht : token ≠ [])
    (hbehind : (behind i store.jobs).any (bears token) = false) :
    ((opened store nonce trails leases).byToken token).getLast? = some i := by
  obtain ⟨hid, front, back, hjobs, hfront⟩ := List.find?_eq_some_iff_append.mp hr
  have hid : r.id = i := of_decide_eq_true hid
  have hback : behind i store.jobs = back := by
    have hdrop : store.jobs.dropWhile (fun r => r.id ≠ i) = r :: back := by
      rw [hjobs, List.dropWhile_append_of_pos fun t ht => by simpa using hfront t ht,
        List.dropWhile_cons_of_neg (by simp [hid])]
    rw [behind, hdrop, List.tail_cons]
  rw [hback, List.any_eq_false] at hbehind
  have hnone : back.flatMap (entries token) = [] := by
    rw [List.flatMap_eq_nil_iff]
    intro t hmem
    have hbears := hbehind t hmem
    simp only [bears, Bool.or_eq_true, decide_eq_true_eq, not_or] at hbears
    rw [entries, if_neg hbears.1, if_neg hbears.2]
    rfl
  have hmine : ∃ front, entries token r = front ++ [i] := by
    unfold entries
    rw [if_pos hp, hid]
    by_cases hcut : r.cutToken = token
    · exact ⟨[i], by rw [if_pos hcut]⟩
    · exact ⟨[], by rw [if_neg hcut]; rfl⟩
  obtain ⟨before, hmine⟩ := hmine
  rw [opened, foldl_enter_byToken ht, hjobs, List.flatMap_append, List.flatMap_cons, hnone, hmine,
    List.append_nil, ← List.append_assoc, ← List.append_assoc]
  exact List.getLast?_concat ..

/-- Recovery keeps the order of the records and their tokens. -/
theorem behind_open {now : Bytes → UInt64} {file token : Bytes} :
    (behind i (JobStore.open now file).jobs).any (bears token) =
      (behind i (({} : Records).replay (readJournal file)).jobs).any (bears token) := by
  have hjobs : (JobStore.open now file).jobs =
      (({} : Records).replay (readJournal file)).jobs.map fun r => r.recover (now r.id) := rfl
  have hid : ∀ r : JobRecord, (r.recover (now r.id)).id = r.id := fun r => (keeps_recover now r).1
  have hbears : ∀ r : JobRecord, bears token (r.recover (now r.id)) = bears token r := by
    intro r
    have hcut : (r.recover (now r.id)).cutToken = r.cutToken := by
      unfold JobRecord.recover
      split_ifs <;> rfl
    rw [bears, bears, printToken_recover, hcut]
  rw [hjobs, behind, behind, List.dropWhile_map, ← List.map_tail, List.any_map]
  simp only [Function.comp_def, hid, hbears]

theorem Sole.restart {r : Restart} (h : Sole s) (hf : Filed s) (hl : Leased s) (hk : Lasting s)
    (hg : ¬Displaces s r.cut) (hs : driver.restart r s = some s') : Sole s' := by
  obtain ⟨file, hfile, rfl⟩ := Option.map_eq_some_iff.mp hs
  have hnone : ∀ l, ¬Holder (opened (JobStore.open r.now file) s.markers.nonce s.trails s.leases) l :=
    fun l hk => not_live_opened hk.live
  have hreceipt : ∀ l,
      Receipt (opened (JobStore.open r.now file) s.markers.nonce s.trails s.leases) l →
        Receipt s l := by
    intro l hr
    have hentered := hr.entered
    have hprinted := hr.printed
    rw [opened_trails] at hentered hprinted
    exact ⟨hentered, hprinted⟩
  refine h.carry opened_leases (fun l hk => absurd hk (hnone l)) (fun l _ hk => absurd hk (hnone l))
    (fun l _ hr => .inl (hreceipt l hr)) fun l hmem hentered hcase => ?_
  have hr : Receipt s l := by
    rcases hcase with hp | hk
    · exact hreceipt l ⟨hentered, hp⟩
    · exact absurd hk (hnone l)
  have hrecorded : Recorded (JobStore.open r.now file) l.1 l.2 := hf.reopened hk hfile hr.entered
  obtain ⟨t, ht, hp⟩ := hrecorded
  have hrecent : l ∈ s.leases := List.mem_of_mem_take hmem
  refine last_opened ht hp (hl.ne_nil hrecent) ?_
  rw [behind_open, ← Bool.not_eq_true]
  exact fun hany => hg ⟨file, hfile, l, hmem, hr, hany⟩

/-- The holders of the tokens, in every run that meets the guard. -/
theorem sole_of_reached {nonce : Bytes} {cfg : Config Worker Bytes State}
    (h : Reached unrepeated nonce cfg) : Sole cfg.state := by
  have hfirst : Sole (first nonce) := by
    have hleases : (first nonce).leases = [] := opened_leases
    refine ⟨fun l hk => absurd hk.live not_live_opened, ?_, ?_, fun l hmem => ?_⟩
    · rw [hleases]
      exact List.Pairwise.nil
    · rw [hleases]
      exact List.Pairwise.nil
    · rw [hleases] at hmem
      cases hmem
  have hclear : ∀ {s : State}, Sole s → Sole { s with prior := none } := by
    intro s h
    have hholder : ∀ l, Holder { s with prior := none } l → Holder s l :=
      fun _ hk => ⟨hk.live, hk.keeps⟩
    exact h.carry rfl (fun l hk => h.held l (hholder l hk)) (fun l _ => hholder l)
      (fun _ _ hr => .inl ⟨hr.entered, hr.printed⟩)
      fun l hmem hentered hcase => h.last l hmem hentered (hcase.imp_right (hholder l))
  have hleased : ∀ {s : State}, Leased s → Leased { s with prior := none } :=
    fun h => ⟨h.mine, h.known, (fun _ _ hp => by cases hp), h.drawn⟩
  refine driver_guarded.further known_opened (fun i => safe_ret_rest rest_opened)
    (J := fun s => (Indexed s ∧ Leased s) ∧ Filed s)
    (fun h => ⟨⟨(indexed_of_reached h).2, leased_of_reached h⟩, filed_of_reached h⟩) hfirst
    (fun i c ch s a s' hj hi hc hg hs => hi.serve hj.1.2 hc hg hs) ?_ ?_
    (fun r s s' hj hi hg hs => hi.restart hj.2 hj.1.2 hj.1.1.lasting hg hs) h
  · intro e s s' hj hi _ hs
    have hcalm := event_calm rfl (step_stepped hs)
    exact (hclear hi).calm (hleased hj.1.2) ((hleased hj.1.2).calm hcalm) hcalm
  · intro i w s q s' hj hi _ hs
    have hcalm := begin_calm rfl hs
    exact (hclear hi).calm (hleased hj.1.2) ((hleased hj.1.2).calm hcalm) hcalm

end Sole

/-! ### The receipts -/

/-- **Receipts resolve.** In every run in which no token is drawn again too early, no start of a
process turns the order of two holders, and every job is handed over once, each receipt with fewer
than 4418 later leases resolves to its job, whatever the number of processes. -/
theorem resolves_of_reached {nonce : Bytes} {cfg : Config Worker Bytes OpenState}
    (h : OpenReached (regular unrepeated) nonce cfg) : Resolves cfg.state.base :=
  fun l hmem hr => (sole_of_reached (reached_of_regular h).2).last l hmem hr.entered
    (.inl hr.printed)

/-! ### Two processes -/

instance {i : Bytes} {c : Call} {ch : driver.Choice} {s : State} :
    Decidable (unrepeated.serve i c ch s) :=
  inferInstanceAs (Decidable (acquires c = true → ¬Repeats s))

instance {e : driver.Event} {s : State} : Decidable (unrepeated.event e s) := .isTrue trivial

instance {r : driver.Restart} {s : State} : Decidable (unrepeated.restart r s) :=
  inferInstanceAs (Decidable (¬Displaces s r.cut))

/-- A printer that echoes every fence. -/
def echoing : (c : Call) → Option c.Answer
  | .await _ _ => some .signalled
  | c => obliging c

def receiptOptions (key : Bytes) : JobOptions := { key := key, preflight := .skip, cut := .none }

/-- A receipt on a printer with the `GS ( H` fence. -/
def receiptRun (id key : Bytes) : JobRun :=
  { idleRun id with
    key := key, payload := .raw [65], options := receiptOptions key
    profile := { completion := .gsParenH } }

def receiptPrinted (id key : Bytes) : List driver.Move :=
  [.event (.submit (print (str "kitchen") (.raw [65]) (receiptOptions key)) ⟨0, id, []⟩),
    .start id (.run (receiptRun id key))] ++
  List.replicate 20 (.serve id { answer := echoing })

/-- A receipt, and the next process. -/
def reopened : List driver.Move := receiptPrinted (str "1") (str "K") ++ [.restart {}]

/-- Where a list of moves of the driver leads. -/
def stateAfter (moves : List driver.Move) : State := (openAfter (moves.map openMove)).state.base

/-- The receipt of an earlier process resolves. -/
theorem reopened_resolves : jobByToken (stateAfter reopened) (str "Q7!!") = some (str "1") := by
  have hlease : (str "1", pairAt (str "Q7") 0) ∈ (stateAfter reopened).leases.take 4418 := by
    decide +kernel
  have hreceipt : Receipt (stateAfter reopened) (str "1", pairAt (str "Q7") 0) := by
    decide +kernel
  exact resolves_of_reached (openReached_after (by decide +kernel)) _ hlease hreceipt

/-- The first lease of the next process draws the token again, and the older receipt is lost. -/
theorem redrawn_lost : ¬∀ (nonce : Bytes) (cfg : Config Worker Bytes OpenState),
    OpenReached (regular (.none _)) nonce cfg → Resolves cfg.state.base := by
  intro hall
  have hresolves : Resolves (stateAfter (reopened ++ receiptPrinted (str "2") (str "L"))) :=
    hall (str "Q7") (openAfter ((reopened ++ receiptPrinted (str "2") (str "L")).map openMove))
      (openReached_after (by decide +kernel))
  have hlease : (str "1", pairAt (str "Q7") 0) ∈
      (stateAfter (reopened ++ receiptPrinted (str "2") (str "L"))).leases.take 4418 := by
    decide +kernel
  have hreceipt : Receipt (stateAfter (reopened ++ receiptPrinted (str "2") (str "L")))
      (str "1", pairAt (str "Q7") 0) := by
    decide +kernel
  have hother : jobByToken (stateAfter (reopened ++ receiptPrinted (str "2") (str "L")))
      (pairAt (str "Q7") 0).printToken = some (str "2") := by
    decide +kernel
  rw [hresolves _ hlease hreceipt] at hother
  revert hother
  decide

end PrinterDriver.Agent.Receipts
