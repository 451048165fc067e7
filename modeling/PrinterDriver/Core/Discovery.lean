import Mathlib.Data.List.Nodup
import PrinterDriver.Lib.Pools
import PrinterDriver.Core.Subnets

/-! # Sweeping a subnet

`discover` connects to every host address of a block from a number of threads that draw the addresses
from one atomic counter. What it returns is what one thread would have found that goes through the
addresses in their order (`sweep_exact`). -/

namespace PrinterDriver.Core.Discovery

open PrinterDriver.Lib.Runs PrinterDriver.Lib.Pools PrinterDriver.Core.Types
  PrinterDriver.Core.Subnets

open PrinterDriver.Core.Journal (decimal)

/-! ### One address -/

/-- Three bytes, none of which prints. -/
def kDiscoveryProbe : Bytes := [0x10, 0x04, 0x01]

def kMinDiscoveryPrefix : UInt8 := 16

structure DiscoveryOptions where
  port : UInt16 := 9100
  concurrency : UInt32 := 32
  probeBackchannel : Bool := true

structure DiscoveredDevice where
  ip : Bytes
  port : UInt16 := 9100
  port9100Open : Bool := false
  dleEotResponse : Bytes := []
  deriving DecidableEq, Repr

inductive ConnectAnswer where
  | connected
  | inProgress
  | failed
  deriving DecidableEq, Repr

/-- What the socket layer does with one address: the socket, the connect with the wait for it, the send
and the read. `pending` is the error that is pending on the socket, if it can be asked for. -/
structure Contact where
  created : Bool := true
  nonBlocking : Bool := true
  connect : ConnectAnswer := .connected
  ready : ℤ := 1
  pollError : Bool := false
  pending : Option ℤ := some 0
  sent : ℤ := 3
  readable : Bool := true
  received : Bytes := []
  deriving DecidableEq, Repr

/-- The connection stands. -/
def Contact.opens (c : Contact) : Bool :=
  c.created && c.nonBlocking &&
    match c.connect with
    | .connected => true
    | .inProgress => decide (0 < c.ready) && !c.pollError && decide (c.pending = some 0)
    | .failed => false

def probeAddress (address : UInt32) (o : DiscoveryOptions) (c : Contact) : DiscoveredDevice :=
  { ip := formatIpv4 address
    port := o.port
    port9100Open := c.opens
    dleEotResponse :=
      if c.opens && o.probeBackchannel && decide (c.sent = kDiscoveryProbe.length) && c.readable then
        c.received.take 64
      else [] }

/-! ### The sweep -/

/-- Which callbacks there are. -/
structure DiscoveryCallbacks where
  onFound : Bool := true
  onProgress : Bool := true

inductive Callback where
  | found (device : DiscoveredDevice)
  | progress (device : DiscoveredDevice) (completed : ℕ) (total : ℕ)
  deriving DecidableEq, Repr

/-- The addresses that are probed lie between these two. -/
def firstHost (s : Subnet) : UInt32 := if 31 ≤ s.prefixLength then s.first else s.first + 1

def lastHost (s : Subnet) : UInt32 := if 31 ≤ s.prefixLength then s.last else s.last - 1

def total (s : Subnet) : ℕ := s.hostCount.toNat

/-- A block that is too wide is refused. -/
def checkWidth (s : Subnet) : Except Bytes Unit :=
  if s.prefixLength < kMinDiscoveryPrefix then
    .error (str "refusing to sweep " ++ s.toString ++ str ": /" ++
      decimal kMinDiscoveryPrefix.toNat ++ str " is the widest supported prefix")
  else .ok ()

/-- The block that a text asks for. -/
def requested (cidr : Bytes) : Except Bytes Subnet :=
  match parseCidr cidr with
  | none => .error (str "not a CIDR block: " ++ cidr)
  | some s => (checkWidth s).map fun _ => s

/-- What the workers share and where each of them is. `filed` is what the model remembers: the index
that each result belongs to. -/
structure Sweep where
  next : ℕ := 0
  workers : List (Phase Callback)
  found : List DiscoveredDevice := []
  completed : ℕ := 0
  calls : List Callback := []
  filed : List (ℕ × DiscoveredDevice) := []

section
variable (subnet : Subnet) (o : DiscoveryOptions) (callbacks : DiscoveryCallbacks)

/-- The callbacks behind the lock. -/
def callsFor (device : DiscoveredDevice) (completed : ℕ) : List Callback :=
  (if device.port9100Open && callbacks.onFound then [.found device] else []) ++
    if callbacks.onProgress then [.progress device completed (total subnet)] else []

/-- A worker draws an index, or stops. -/
def draw (index : ℕ) : Phase Callback :=
  if total subnet ≤ index then .stopped
  else if lastHost subnet < firstHost subnet + UInt32.ofNat index then .stopped
  else .busy index

/-- A move of a worker; the result of its probe is chosen by the network. -/
def step : Move Contact → Sweep → Option Sweep
  | .draw w, s =>
    match s.workers[w]? with
    | some (.telling []) =>
      some { s with next := s.next + 1, workers := s.workers.set w (draw subnet s.next) }
    | _ => none
  | .file w contact, s =>
    match s.workers[w]? with
    | some (.busy i) =>
      let device := probeAddress (firstHost subnet + UInt32.ofNat i) o contact
      some
        { s with
          completed := s.completed + 1
          found := if device.port9100Open then s.found ++ [device] else s.found
          workers := s.workers.set w (.telling (callsFor subnet callbacks device (s.completed + 1)))
          filed := s.filed ++ [(i, device)] }
    | _ => none
  | .tell w, s =>
    match s.workers[w]? with
    | some (.telling (call :: rest)) =>
      some { s with calls := s.calls ++ [call], workers := s.workers.set w (.telling rest) }
    | _ => none

def workerCount : ℕ := max 1 (min (max 1 o.concurrency.toNat) (total subnet))

/-- The sweep before anything is drawn. -/
def begun : Sweep := { workers := List.replicate (workerCount subnet o) (.telling []) }

/-- The index that a move probes, with what the network does there. -/
def contactOf : Move Contact → Sweep → Option (ℕ × Contact)
  | .file w contact, s =>
    match s.workers[w]? with
    | some (.busy i) => some (i, contact)
    | _ => none
  | .draw _, _ | .tell _, _ => none

/-- The contacts of a run, each with the index that its worker had drawn. -/
def contacts : List (Move Contact) → Sweep → List (ℕ × Contact)
  | [], _ => []
  | m :: moves, s =>
    (contactOf m s).toList ++ ((step subnet o callbacks m s).map (contacts moves)).getD []

/-- The address that a device is sorted by. -/
def sortKey (d : DiscoveredDevice) : UInt32 := (parseIpv4 d.ip).getD 0

/-- What is returned when the threads have been joined. -/
def sorted (s : Sweep) : List DiscoveredDevice :=
  s.found.mergeSort fun a b => decide (sortKey a ≤ sortKey b)

/-- The host addresses of the block, in their order. -/
def hosts : List UInt32 := (List.range (total subnet)).map fun i => firstHost subnet + UInt32.ofNat i

/-- What one thread finds that goes through the addresses in their order. -/
def plainSweep (net : UInt32 → Contact) : List DiscoveredDevice :=
  ((hosts subnet).map fun a => probeAddress a o (net a)).filter DiscoveredDevice.port9100Open

end

/-! ### The host addresses -/

section Hosts
variable {s : Subnet}

/-- The hosts follow one another. -/
theorem hosts_bounds (h : checkWidth s = .ok ()) :
    0 < total s ∧ (lastHost s).toNat + 1 = (firstHost s).toNat + total s ∧
      (firstHost s).toNat = s.first.toNat + (if 31 ≤ s.prefixLength then 0 else 1) ∧
      (lastHost s).toNat + (if 31 ≤ s.prefixLength then 0 else 1) = s.last.toNat := by
  have hlength : 16 ≤ s.prefixLength.toNat := by
    unfold checkWidth at h
    split_ifs at h with hlt
    exact UInt8.le_iff_toNat_le.mp (UInt8.not_lt.mp hlt)
  have hpos : 0 < 2 ^ s.hostBits := Nat.two_pow_pos _
  have hlast := last_toNat s
  have hlt : s.last.toNat < 2 ^ 32 := s.last.toNat_lt
  have hcount := hostCount_toNat s
  unfold total firstHost lastHost
  by_cases h31 : 31 ≤ s.prefixLength
  · rw [if_pos h31] at hcount
    simp only [if_pos h31, hcount]
    omega
  · have hless : s.prefixLength.toNat < 31 := UInt8.lt_iff_toNat_lt.mp (UInt8.not_le.mp h31)
    have hfour : 2 ^ 2 ≤ 2 ^ s.hostBits :=
      Nat.pow_le_pow_right (by omega) (by unfold Subnet.hostBits; omega)
    have hone : (1 : UInt32).toNat = 1 := rfl
    have hfirst : (s.first + 1).toNat = s.first.toNat + 1 := by
      rw [UInt32.toNat_add, hone]
      omega
    have hbefore : (s.last - 1).toNat = s.last.toNat - 1 :=
      UInt32.toNat_sub_of_le _ _ (UInt32.le_iff_toNat_le.mpr (by rw [hone]; omega))
    rw [if_neg h31] at hcount
    simp only [if_neg h31]
    rw [hcount, hfirst, hbefore]
    omega

theorem host_toNat (h : checkWidth s = .ok ()) {i : ℕ} (hi : i < total s) :
    (firstHost s + UInt32.ofNat i).toNat = (firstHost s).toNat + i := by
  obtain ⟨-, hlast, -, -⟩ := hosts_bounds h
  have hlt : (lastHost s).toNat < 2 ^ 32 := (lastHost s).toNat_lt
  rw [UInt32.toNat_add, UInt32.toNat_ofNat', Nat.mod_eq_of_lt (by omega : i < 2 ^ 32)]
  exact Nat.mod_eq_of_lt (by omega)

/-- The second bound of the loop is never met first. -/
theorem draw_eq (h : checkWidth s = .ok ()) (i : ℕ) :
    draw s i = if i < total s then .busy i else .stopped := by
  obtain ⟨-, hlast, -, -⟩ := hosts_bounds h
  unfold draw
  by_cases hi : i < total s
  · have hhost := host_toNat h hi
    have hin : ¬lastHost s < firstHost s + UInt32.ofNat i := by
      rw [UInt32.lt_iff_toNat_lt, hhost]
      omega
    rw [if_neg (by omega), if_neg hin, if_pos hi]
  · rw [if_pos (by omega), if_neg hi]

/-- The addresses of the block; of four and more, the first and the last are no hosts. -/
def IsHost (s : Subnet) (a : UInt32) : Prop :=
  s.first ≤ a ∧ a ≤ s.last ∧ (s.prefixLength < 31 → a ≠ s.first ∧ a ≠ s.last)

theorem mem_hosts (h : checkWidth s = .ok ()) {a : UInt32} : a ∈ hosts s ↔ IsHost s a := by
  obtain ⟨-, hlast, hfirst, hblock⟩ := hosts_bounds h
  have hrange : a ∈ hosts s ↔
      (firstHost s).toNat ≤ a.toNat ∧ a.toNat ≤ (lastHost s).toNat := by
    unfold hosts
    rw [List.mem_map]
    constructor
    · rintro ⟨i, hi, rfl⟩
      have hi := List.mem_range.mp hi
      rw [host_toNat h hi]
      omega
    · rintro ⟨hlow, hhigh⟩
      have hi : a.toNat - (firstHost s).toNat < total s := by omega
      refine ⟨a.toNat - (firstHost s).toNat, List.mem_range.mpr hi, ?_⟩
      apply UInt32.toNat_inj.mp
      rw [host_toNat h hi]
      omega
  rw [hrange, IsHost, UInt32.le_iff_toNat_le, UInt32.le_iff_toNat_le, Ne, Ne, ← UInt32.toNat_inj,
    ← UInt32.toNat_inj]
  by_cases h31 : 31 ≤ s.prefixLength
  · rw [if_pos h31] at hfirst hblock
    have hnot : ¬s.prefixLength < 31 := UInt8.not_lt.mpr h31
    simp only [hnot, false_imp_iff, and_true]
    omega
  · rw [if_neg h31] at hfirst hblock
    have hless : s.prefixLength < 31 := UInt8.not_le.mp h31
    simp only [hless, true_imp_iff]
    omega

/-- The hosts are in ascending order. -/
theorem pairwise_hosts (h : checkWidth s = .ok ()) : (hosts s).Pairwise (· < ·) := by
  unfold hosts
  rw [List.pairwise_map]
  refine List.pairwise_lt_range.imp_of_mem fun {i j} hi hj hij => ?_
  rw [UInt32.lt_iff_toNat_lt, host_toNat h (List.mem_range.mp hi),
    host_toNat h (List.mem_range.mp hj)]
  omega

end Hosts

/-! ### The sweep is a pool -/

section Refinement
variable {subnet : Subnet} {o : DiscoveryOptions} {callbacks : DiscoveryCallbacks} {s s' : Sweep}

def Sweep.pool (s : Sweep) : Pool DiscoveredDevice Callback where
  next := s.next
  workers := s.workers
  filed := s.filed
  told := s.calls

/-- What is told of a device does not depend on its index. -/
def noticesOf (subnet : Subnet) (callbacks : DiscoveryCallbacks) :
    Notices DiscoveredDevice Callback :=
  fun _ device completed => callsFor subnet callbacks device completed

/-- The counter and the list of what was found are those of the results. -/
structure Kept (subnet : Subnet) (o : DiscoveryOptions) (s : Sweep) : Prop where
  completed : s.completed = s.filed.length
  found : s.found = (s.filed.map Prod.snd).filter DiscoveredDevice.port9100Open
  workers : s.workers.length = workerCount subnet o

theorem kept_begun : Kept subnet o (begun subnet o) :=
  ⟨rfl, rfl, List.length_replicate⟩

/-- A move of the sweep is a move of the pool, and keeps its books. -/
theorem step_refines (h : checkWidth subnet = .ok ()) (hk : Kept subnet o s) {m : Move Contact}
    (hs : step subnet o callbacks m s = some s') : Kept subnet o s' ∧
      ∃ m', Lib.Pools.step (total subnet) (noticesOf subnet callbacks) m' s.pool = some s'.pool := by
  cases m with
  | draw w =>
    rw [step] at hs
    split at hs
    next hw =>
      obtain rfl := Option.some.inj hs
      refine ⟨⟨hk.completed, hk.found, ?_⟩, .draw w, ?_⟩
      · rw [List.length_set, hk.workers]
      · have hpool : s.pool.workers[w]? = some (.telling []) := hw
        rw [Lib.Pools.step, hpool, draw_eq h]
        rfl
    · cases hs
  | file w contact =>
    rw [step] at hs
    split at hs
    next i hw =>
      let device := probeAddress (firstHost subnet + UInt32.ofNat i) o contact
      obtain rfl := Option.some.inj hs
      refine ⟨⟨?_, ?_, ?_⟩, .file w device, ?_⟩
      · show s.completed + 1 = (s.filed ++ [(i, device)]).length
        rw [List.length_append, hk.completed]
        rfl
      · show (if device.port9100Open then s.found ++ [device] else s.found) =
          ((s.filed ++ [(i, device)]).map Prod.snd).filter DiscoveredDevice.port9100Open
        rw [List.map_append, List.filter_append, ← hk.found]
        by_cases hopen : device.port9100Open = true
        · simp [hopen]
        · simp [hopen]
      · rw [List.length_set, hk.workers]
      · have hpool : s.pool.workers[w]? = some (.busy i) := hw
        have hlength : s.pool.filed.length = s.completed := hk.completed.symm
        rw [Lib.Pools.step, hpool]
        dsimp only
        rw [hlength]
        rfl
    · cases hs
  | tell w =>
    rw [step] at hs
    split at hs
    next call rest hw =>
      obtain rfl := Option.some.inj hs
      refine ⟨⟨hk.completed, hk.found, ?_⟩, .tell w, ?_⟩
      · rw [List.length_set, hk.workers]
      · have hpool : s.pool.workers[w]? = some (.telling (call :: rest)) := hw
        rw [Lib.Pools.step, hpool]
        rfl
    · cases hs

/-- The runs of the sweep are runs of the pool. -/
theorem replay_pool (h : checkWidth subnet = .ok ()) : ∀ {moves : List (Move Contact)} {s t : Sweep},
    Kept subnet o s →
      replay (step subnet o callbacks) (fun _ _ => True) moves s = some t →
        Kept subnet o t ∧ ∃ moves', moves'.length = moves.length ∧
          replay (Lib.Pools.step (total subnet) (noticesOf subnet callbacks)) (fun _ _ => True)
            moves' s.pool = some t.pool
  | [], s, t, hk, hr => by
    obtain rfl := Option.some.inj hr
    exact ⟨hk, [], rfl, rfl⟩
  | m :: moves, s, t, hk, hr => by
    rw [replay, if_pos trivial] at hr
    obtain ⟨mid, hs, hrest⟩ := Option.bind_eq_some_iff.mp hr
    obtain ⟨hmid, m', hm'⟩ := step_refines h hk hs
    obtain ⟨ht, moves', hlength, hmoves⟩ := replay_pool h hmid hrest
    refine ⟨ht, m' :: moves', by rw [List.length_cons, hlength, List.length_cons], ?_⟩
    rw [replay, if_pos trivial, hm']
    exact hmoves

/-- A worker that has not stopped can move. -/
theorem exists_move {p : Phase Callback} (hp : p ∈ s.workers) (hover : p ≠ .stopped) :
    ∃ m, (step subnet o callbacks m s).isSome = true := by
  obtain ⟨w, hw⟩ := List.getElem?_of_mem hp
  cases p with
  | telling calls =>
    cases calls with
    | nil => exact ⟨.draw w, by simp [step, hw]⟩
    | cons call rest => exact ⟨.tell w, by simp [step, hw]⟩
  | busy i => exact ⟨.file w {}, by simp [step, hw]⟩
  | stopped => exact absurd rfl hover

end Refinement

/-! ### What the sweep finds -/

section Exact
variable {subnet : Subnet} {o : DiscoveryOptions} {callbacks : DiscoveryCallbacks} {s : Sweep}

def Callback.foundDevice : Callback → Option DiscoveredDevice
  | .found device => some device
  | .progress .. => none

def Callback.progressDevice : Callback → Option DiscoveredDevice
  | .found _ => none
  | .progress device .. => some device

def Callback.completed : Callback → Option ℕ
  | .found _ => none
  | .progress _ completed _ => some completed

/-- The device that is made of a contact. -/
def resultOf (subnet : Subnet) (o : DiscoveryOptions) (x : ℕ × Contact) : ℕ × DiscoveredDevice :=
  (x.1, probeAddress (firstHost subnet + UInt32.ofNat x.1) o x.2)

/-- A move files what its own contact comes to. -/
theorem filed_of_step {s' : Sweep} {m : Move Contact}
    (hs : step subnet o callbacks m s = some s') :
    s'.filed = s.filed ++ (contactOf m s).toList.map (resultOf subnet o) := by
  cases m with
  | draw w =>
    rw [step] at hs
    split at hs
    · obtain rfl := Option.some.inj hs
      simp [contactOf]
    · cases hs
  | file w contact =>
    rw [step] at hs
    split at hs
    next i hw =>
      obtain rfl := Option.some.inj hs
      simp [contactOf, hw, resultOf]
    · cases hs
  | tell w =>
    rw [step] at hs
    split at hs
    · obtain rfl := Option.some.inj hs
      simp [contactOf]
    · cases hs

theorem filed_of_replay : ∀ {moves : List (Move Contact)} {s t : Sweep},
    replay (step subnet o callbacks) (fun _ _ => True) moves s = some t →
      t.filed = s.filed ++ (contacts subnet o callbacks moves s).map (resultOf subnet o)
  | [], s, t, hr => by
    obtain rfl := Option.some.inj hr
    simp [contacts]
  | m :: moves, s, t, hr => by
    rw [replay, if_pos trivial] at hr
    obtain ⟨mid, hs, hrest⟩ := Option.bind_eq_some_iff.mp hr
    rw [filed_of_replay hrest, filed_of_step hs, contacts, hs, List.map_append, List.append_assoc]
    rfl

/-- The network answers at each host as the contact of its index says. -/
def AnswersAs (subnet : Subnet) (net : UInt32 → Contact) (answers : List (ℕ × Contact)) : Prop :=
  ∀ x ∈ answers, net (firstHost subnet + UInt32.ofNat x.1) = x.2

/-- Contacts of different indices are the answers of one network. -/
theorem exists_net (h : checkWidth subnet = .ok ()) {answers : List (ℕ × Contact)}
    (hindices : (answers.map Prod.fst).Perm (List.range (total subnet))) :
    ∃ net, AnswersAs subnet net answers := by
  have hnodup : (answers.map Prod.fst).Nodup := hindices.nodup_iff.mpr List.nodup_range
  have hlt : ∀ x ∈ answers, x.1 < total subnet := fun x hx =>
    List.mem_range.mp (hindices.mem_iff.mp (List.mem_map_of_mem hx))
  have hanswer : ∀ a : UInt32, ∃ contact, ∀ x ∈ answers,
      firstHost subnet + UInt32.ofNat x.1 = a → contact = x.2 := by
    intro a
    by_cases hex : ∃ x ∈ answers, firstHost subnet + UInt32.ofNat x.1 = a
    · obtain ⟨x, hx, hxa⟩ := hex
      refine ⟨x.2, fun y hy hya => ?_⟩
      have hindex : y.1 = x.1 := by
        have hsame := congrArg UInt32.toNat (hya.trans hxa.symm)
        rw [host_toNat h (hlt y hy), host_toNat h (hlt x hx)] at hsame
        omega
      rw [List.inj_on_of_nodup_map hnodup hy hx hindex]
    · exact ⟨{}, fun x hx hxa => absurd ⟨x, hx, hxa⟩ hex⟩
  choose net hnet using hanswer
  exact ⟨net, fun x hx => hnet _ x hx rfl⟩

/-- The results of such contacts are those of the hosts, in some order. -/
theorem results_perm {answers : List (ℕ × Contact)} {net : UInt32 → Contact}
    (hindices : (answers.map Prod.fst).Perm (List.range (total subnet)))
    (hnet : AnswersAs subnet net answers) :
    ((answers.map (resultOf subnet o)).map Prod.snd).Perm
      ((hosts subnet).map fun a => probeAddress a o (net a)) := by
  have hmap : (answers.map (resultOf subnet o)).map Prod.snd = (answers.map Prod.fst).map fun i =>
      probeAddress (firstHost subnet + UInt32.ofNat i) o
        (net (firstHost subnet + UInt32.ofNat i)) := by
    rw [List.map_map, List.map_map]
    refine List.map_congr_left fun x hx => ?_
    show probeAddress _ o x.2 = probeAddress _ o (net _)
    rw [hnet x hx]
  have hhosts : ((hosts subnet).map fun a => probeAddress a o (net a)) =
      (List.range (total subnet)).map fun i =>
        probeAddress (firstHost subnet + UInt32.ofNat i) o
          (net (firstHost subnet + UInt32.ofNat i)) := by
    unfold hosts
    rw [List.map_map]
    rfl
  rw [hmap, hhosts]
  exact hindices.map _

/-- What the callbacks are told of the results. -/
theorem announced_calls (filed : List (ℕ × DiscoveredDevice)) (n : ℕ) :
    let calls := (filed.zipIdx n).flatMap fun x => callsFor subnet callbacks x.1.2 (x.2 + 1)
    (callbacks.onFound = true → calls.filterMap Callback.foundDevice =
        (filed.map Prod.snd).filter DiscoveredDevice.port9100Open) ∧
      (callbacks.onProgress = true → calls.filterMap Callback.progressDevice = filed.map Prod.snd ∧
        calls.filterMap Callback.completed = List.range' (n + 1) filed.length) := by
  induction filed generalizing n with
  | nil => simp
  | cons x filed ih =>
    obtain ⟨hfound, hprogress⟩ := ih (n + 1)
    dsimp only at hfound hprogress ⊢
    rw [List.zipIdx_cons, List.flatMap_cons]
    simp only [List.filterMap_append]
    refine ⟨fun hf => ?_, fun hp => ?_⟩
    · rw [hfound hf, List.map_cons, List.filter_cons]
      unfold callsFor
      by_cases hopen : x.2.port9100Open = true <;> by_cases hp : callbacks.onProgress = true <;>
        simp [hf, hp, hopen, Callback.foundDevice]
    · obtain ⟨hdevices, hcounts⟩ := hprogress hp
      rw [hdevices, hcounts, List.length_cons, List.range'_succ, List.map_cons]
      unfold callsFor
      by_cases hopen : x.2.port9100Open = true <;> by_cases hf : callbacks.onFound = true <;>
        simp [hf, hp, hopen, List.filterMap_cons, Callback.progressDevice, Callback.completed]

theorem sortKey_probeAddress (a : UInt32) (contact : Contact) :
    sortKey (probeAddress a o contact) = a := by
  have hread : parseIpv4 (formatIpv4 a) = some a := parseIpv4_eq_some.mpr (quad_formatIpv4 a)
  show (parseIpv4 (formatIpv4 a)).getD 0 = a
  rw [hread]
  rfl

/-- Sorting by address puts the devices in the order of one thread. -/
theorem sorted_eq (h : checkWidth subnet = .ok ()) {net : UInt32 → Contact}
    (hfound : s.found.Perm (plainSweep subnet o net)) : sorted s = plainSweep subnet o net := by
  have hplain : (plainSweep subnet o net).Pairwise fun a b => sortKey a < sortKey b := by
    refine List.Pairwise.filter _ ?_
    rw [List.pairwise_map]
    refine (pairwise_hosts h).imp fun {a b} hab => ?_
    rw [sortKey_probeAddress, sortKey_probeAddress]
    exact hab
  have hle : (plainSweep subnet o net).Pairwise fun a b => decide (sortKey a ≤ sortKey b) = true :=
    hplain.imp fun hab => decide_eq_true (UInt32.le_of_lt hab)
  have hsorted : (sorted s).Pairwise fun a b => decide (sortKey a ≤ sortKey b) = true := by
    refine List.pairwise_mergeSort (fun a b c hab hbc => ?_) (fun a b => ?_) _
    · exact decide_eq_true (UInt32.le_trans (of_decide_eq_true hab) (of_decide_eq_true hbc))
    · rcases UInt32.le_total (sortKey a) (sortKey b) with hab | hba
      · simp [hab]
      · simp [hba]
  have hperm : (sorted s).Perm (plainSweep subnet o net) :=
    (List.mergeSort_perm _ _).trans hfound
  refine List.Perm.eq_of_pairwise (fun a b ha hb hab hba => ?_) hsorted hle hperm
  have hkey : sortKey a = sortKey b :=
    UInt32.le_antisymm (of_decide_eq_true hab) (of_decide_eq_true hba)
  have hnodup : ((plainSweep subnet o net).map sortKey).Nodup := by
    unfold List.Nodup
    rw [List.pairwise_map]
    exact hplain.imp fun hab he => absurd (he ▸ hab) (UInt32.lt_irrefl _)
  exact List.inj_on_of_nodup_map hnodup (hperm.mem_iff.mp ha) hb hkey

/-- What a sweep comes to: the result of one thread, a progress call for every host and for every
number of hosts that are done, and a call for each device that was found. -/
structure Swept (subnet : Subnet) (o : DiscoveryOptions) (callbacks : DiscoveryCallbacks)
    (net : UInt32 → Contact) (s : Sweep) : Prop where
  result : sorted s = plainSweep subnet o net
  progress : callbacks.onProgress = true →
    (s.calls.filterMap Callback.progressDevice).Perm
        ((hosts subnet).map fun a => probeAddress a o (net a)) ∧
      (s.calls.filterMap Callback.completed).Perm (List.range' 1 (total subnet))
  found : callbacks.onFound = true →
    (s.calls.filterMap Callback.foundDevice).Perm (plainSweep subnet o net)

theorem length_callsFor (device : DiscoveredDevice) (completed : ℕ) :
    (callsFor subnet callbacks device completed).length ≤ 2 := by
  unfold callsFor
  rw [List.length_append]
  split_ifs <;> simp

/-- A sweep that filed the results of the hosts, and made the calls that they stand for. -/
theorem swept_of_filed (h : checkWidth subnet = .ok ()) {net : UInt32 → Contact}
    (hfound : s.found = (s.filed.map Prod.snd).filter DiscoveredDevice.port9100Open)
    (hcalls : s.calls.Perm ((s.filed.zipIdx 0).flatMap fun x =>
      callsFor subnet callbacks x.1.2 (x.2 + 1)))
    (hlength : s.filed.length = total subnet)
    (hnet : (s.filed.map Prod.snd).Perm ((hosts subnet).map fun a => probeAddress a o (net a))) :
    Swept subnet o callbacks net s := by
  obtain ⟨hdevice, hprogress⟩ := @announced_calls subnet callbacks s.filed 0
  have hplain : ((s.filed.map Prod.snd).filter DiscoveredDevice.port9100Open).Perm
      (plainSweep subnet o net) := hnet.filter _
  refine ⟨sorted_eq h (hfound ▸ hplain), fun hp => ?_, fun hf => ?_⟩
  · obtain ⟨hdevices, hcounts⟩ := hprogress hp
    have hdevices' := (hcalls.filterMap Callback.progressDevice).trans (.of_eq hdevices)
    have hcounts' := (hcalls.filterMap Callback.completed).trans (.of_eq hcounts)
    rw [hlength] at hcounts'
    exact ⟨hdevices'.trans hnet, hcounts'⟩
  · have hfound' := (hcalls.filterMap Callback.foundDevice).trans (.of_eq (hdevice hf))
    exact hfound'.trans hplain

/-- **A sweep finds what one thread would find.** It probes the hosts of the block and none of its
other addresses. However the workers interleave, they have all stopped after at most four moves for each
host and one for each worker; then every host has been probed once, and the result is that of the
network which gave the contacts. -/
theorem sweep_exact (h : checkWidth subnet = .ok ()) :
    (∀ a, a ∈ hosts subnet ↔ IsHost subnet a) ∧ (hosts subnet).Pairwise (· < ·) ∧
    ∀ moves s, replay (step subnet o callbacks) (fun _ _ => True) moves (begun subnet o) = some s →
      moves.length ≤ workerCount subnet o + total subnet * 4 ∧
      ((∃ p ∈ s.workers, p ≠ .stopped) → ∃ m, (step subnet o callbacks m s).isSome = true) ∧
      ((∀ p ∈ s.workers, p = .stopped) →
        let answers := contacts subnet o callbacks moves (begun subnet o)
        (answers.map Prod.fst).Perm (List.range (total subnet)) ∧
          (∃ net, AnswersAs subnet net answers) ∧
          ∀ net, AnswersAs subnet net answers → Swept subnet o callbacks net s) := by
  refine ⟨fun a => mem_hosts h, pairwise_hosts h, fun moves s hr => ?_⟩
  obtain ⟨hk, moves', hmoves, hpool⟩ := replay_pool h kept_begun hr
  have hmost : ∀ i device completed,
      (noticesOf subnet callbacks i device completed).length ≤ 2 :=
    fun _ device completed => length_callsFor device completed
  have hbound := length_add_left hmost hpool
  have hstart : left 2 (total subnet) (begun subnet o).pool =
      workerCount subnet o + total subnet * 4 := left_start 2 _
  refine ⟨by omega, fun ⟨p, hp, hnot⟩ => exists_move hp hnot, fun hover => ?_⟩
  have hsome : s.workers ≠ [] := by
    intro hnone
    have hcount := hk.workers
    rw [hnone] at hcount
    unfold workerCount at hcount
    simp only [List.length_nil] at hcount
    omega
  obtain ⟨hfiled, hcalls⟩ :=
    (books_of_reach (reach_of_replay .init hpool)).finished hover hsome
  have hresults : s.filed =
      (contacts subnet o callbacks moves (begun subnet o)).map (resultOf subnet o) :=
    filed_of_replay hr
  have hindices : ((contacts subnet o callbacks moves (begun subnet o)).map Prod.fst).Perm
      (List.range (total subnet)) := by
    have hsame : s.pool.filed.map Prod.fst =
        (contacts subnet o callbacks moves (begun subnet o)).map Prod.fst := by
      show s.filed.map Prod.fst = _
      rw [hresults, List.map_map]
      rfl
    exact hsame ▸ hfiled
  have hlength : s.filed.length = total subnet := by
    have hsame := hfiled.length_eq
    rwa [List.length_map, List.length_range] at hsame
  refine ⟨hindices, exists_net h hindices, fun net hanswers => ?_⟩
  refine swept_of_filed h hk.found hcalls hlength ?_
  rw [hresults]
  exact results_perm hindices hanswers

/-- The second of two hosts answers before the first one refuses. -/
def twoHostMoves : List (Move Contact) :=
  [.draw 1, .draw 0, .file 0 { received := [0x16] }, .tell 0, .file 1 { connect := .failed },
    .tell 0, .tell 1, .draw 0, .draw 1]

/-- The first host refuses. -/
def twoHostNet (a : UInt32) : Contact :=
  if a = 0xC0A80001 then { connect := .failed } else { received := [0x16] }

theorem two_hosts_swept : ∃ s,
    replay (step ⟨0xC0A80000, 30⟩ {} {}) (fun _ _ => True) twoHostMoves
        (begun ⟨0xC0A80000, 30⟩ {}) = some s ∧
      Swept ⟨0xC0A80000, 30⟩ {} {} twoHostNet s := by
  have hover : (replay (step ⟨0xC0A80000, 30⟩ {} {}) (fun _ _ => True) twoHostMoves
      (begun ⟨0xC0A80000, 30⟩ {})).any (fun s => s.workers.all (· = .stopped)) = true := by
    decide +kernel
  obtain ⟨s, hs, hall⟩ := Option.any_eq_true _ _ |>.mp hover
  have hstopped : ∀ p ∈ s.workers, p = .stopped := fun p hp =>
    of_decide_eq_true (List.all_eq_true.mp hall p hp)
  have hanswers : ∀ x ∈ contacts ⟨0xC0A80000, 30⟩ {} {} twoHostMoves (begun ⟨0xC0A80000, 30⟩ {}),
      twoHostNet (firstHost ⟨0xC0A80000, 30⟩ + UInt32.ofNat x.1) = x.2 := by
    decide +kernel
  obtain ⟨-, -, hswept⟩ := ((sweep_exact (by decide)).2.2 twoHostMoves s hs).2.2 hstopped
  exact ⟨s, hs, hswept twoHostNet hanswers⟩

end Exact

end PrinterDriver.Core.Discovery
