import PrinterDriver.Core.Journal
import Mathlib.Algebra.GroupWithZero.Nat
import Mathlib.Tactic.SplitIfs

/-! # Subnets

IPv4 addresses and CIDR blocks, in host byte order, and how they are written. A block that is written
reads back as itself (`parseCidr_toString`); what is read is four octets of at most three digits, with
or without a length of at most two (`parseCidr_iff`). -/

namespace PrinterDriver.Core.Subnets

open PrinterDriver.Core.Types

open PrinterDriver.Core.Journal (decimal)

/-! ### Blocks -/

/-- `prefixLength` is the CIDR length. -/
structure Subnet where
  network : UInt32 := 0
  prefixLength : UInt8 := 32
  deriving DecidableEq, Repr

namespace Subnet

def mask (s : Subnet) : UInt32 :=
  if s.prefixLength = 0 then 0
  else if 32 ≤ s.prefixLength then 0xFFFFFFFF
  else ~~~((1 <<< (32 - s.prefixLength.toUInt32)) - 1)

def first (s : Subnet) : UInt32 := s.network &&& s.mask

def last (s : Subnet) : UInt32 := s.first ||| ~~~s.mask

/-- A pair and a single host have no network and no broadcast address. -/
def hostCount (s : Subnet) : UInt64 :=
  let size := (s.last - s.first).toUInt64 + 1
  if 31 ≤ s.prefixLength then size else size - 2

end Subnet

/-! ### Texts -/

def formatIpv4 (address : UInt32) : Bytes :=
  decimal ((address >>> 24) &&& 0xFF).toNat ++ 46 :: decimal ((address >>> 16) &&& 0xFF).toNat ++
    46 :: decimal ((address >>> 8) &&& 0xFF).toNat ++ 46 :: decimal (address &&& 0xFF).toNat

def Subnet.toString (s : Subnet) : Bytes :=
  formatIpv4 s.first ++ 47 :: decimal s.prefixLength.toNat

def isDigit (c : UInt8) : Bool := 48 ≤ c && c ≤ 57

def digitOf (c : UInt8) : ℕ := c.toNat - 48

/-- The digits of an octet behind those that have been read. -/
def octetFrom (number digits : ℕ) : Bytes → Option (ℕ × Bytes)
  | [] => some (number, [])
  | c :: rest =>
    if isDigit c then
      if 255 < number * 10 + digitOf c ∨ 3 < digits + 1 then none
      else octetFrom (number * 10 + digitOf c) (digits + 1) rest
    else some (number, c :: rest)

def octet : Bytes → Option (ℕ × Bytes)
  | [] => none
  | c :: rest => if isDigit c then octetFrom 0 0 (c :: rest) else none

/-- The octets that are left, each but the last with a dot behind it. -/
def octets : ℕ → UInt32 → Bytes → Option (UInt32 × Bytes)
  | 0, value, text => some (value, text)
  | n + 1, value, text =>
    (octet text).bind fun r =>
      let value := (value <<< 8) ||| UInt32.ofNat r.1
      if n = 0 then octets n value r.2
      else
        match r.2 with
        | [] => none
        | c :: rest => if c = 46 then octets n value rest else none

def parseIpv4 (text : Bytes) : Option UInt32 :=
  (octets 4 0 text).bind fun r => if r.2 = [] then some r.1 else none

/-- What stands in front of the slash, and what stands behind it. -/
def splitSlash (text : Bytes) : Bytes × Option Bytes :=
  (text.takeWhile (· ≠ 47), match text.dropWhile (· ≠ 47) with
    | [] => none
    | _ :: suffix => some suffix)

def parseLength (suffix : Bytes) : Option UInt8 :=
  if suffix = [] ∨ 2 < suffix.length ∨ ¬suffix.all isDigit then none
  else
    let number := suffix.foldl (fun n c => n * 10 + digitOf c) 0
    if 32 < number then none else some (UInt8.ofNat number)

def parseCidr (text : Bytes) : Option Subnet :=
  if text = [] then none
  else
    (parseIpv4 (splitSlash text).1).bind fun value =>
      let block (length : UInt8) : Subnet :=
        { network := (⟨value, length⟩ : Subnet).first, prefixLength := length }
      match (splitSlash text).2 with
      | none => some (block 32)
      | some suffix => (parseLength suffix).map block

/-! ### The addresses of a block -/

/-- How many bits tell the addresses of a block apart. -/
def Subnet.hostBits (s : Subnet) : ℕ := 32 - s.prefixLength.toNat

section Block
variable {s : Subnet}

theorem hostBits_le : s.hostBits ≤ 32 := Nat.sub_le _ _

theorem mask_toNat (s : Subnet) : s.mask.toNat = 2 ^ 32 - 2 ^ s.hostBits := by
  have hall : ∀ n < 256, (⟨0, UInt8.ofNat n⟩ : Subnet).mask.toNat = 2 ^ 32 - 2 ^ (32 - n) := by
    decide +kernel
  have hlt : s.prefixLength.toNat < 256 := s.prefixLength.toNat_lt
  have h := hall s.prefixLength.toNat hlt
  rw [UInt8.ofNat_toNat] at h
  exact h

theorem two_pow_hostBits : 2 ^ s.hostBits ≤ 2 ^ 32 :=
  Nat.pow_le_pow_right (by omega) hostBits_le

/-- The host bits are cleared. -/
theorem first_toNat (s : Subnet) :
    s.first.toNat = s.network.toNat / 2 ^ s.hostBits * 2 ^ s.hostBits := by
  have hpos : 0 < 2 ^ s.hostBits := Nat.two_pow_pos _
  have hle : 2 ^ s.hostBits ≤ 2 ^ 32 := two_pow_hostBits
  have hlt : s.network.toNat < 2 ^ 32 := s.network.toNat_lt
  rw [Subnet.first, UInt32.toNat_and, mask_toNat]
  have hmask : 2 ^ 32 - 2 ^ s.hostBits = 2 ^ 32 - ((2 ^ s.hostBits - 1) + 1) := by omega
  refine Nat.eq_of_testBit_eq fun i => ?_
  rw [Nat.testBit_and, hmask, Nat.testBit_two_pow_sub_succ (by omega), Nat.testBit_two_pow_sub_one,
    Nat.testBit_mul_two_pow, Nat.testBit_div_two_pow]
  by_cases hi : s.hostBits ≤ i
  · have hback : i - s.hostBits + s.hostBits = i := Nat.sub_add_cancel hi
    by_cases h32 : i < 32
    · simp [hi, h32, hback, Nat.not_lt.mpr hi]
    · have hzero : s.network.toNat.testBit i = false :=
        Nat.testBit_lt_two_pow (Nat.lt_of_lt_of_le hlt (Nat.pow_le_pow_right (by omega) (by omega)))
      simp [hi, h32, hback, hzero]
  · simp [hi, Nat.not_le.mp hi]

/-- The last address has all of them set. -/
theorem last_toNat (s : Subnet) : s.last.toNat = s.first.toNat + (2 ^ s.hostBits - 1) := by
  have hpos : 0 < 2 ^ s.hostBits := Nat.two_pow_pos _
  have hle : 2 ^ s.hostBits ≤ 2 ^ 32 := two_pow_hostBits
  have hsize : UInt32.size = 2 ^ 32 := rfl
  have hnot : (~~~s.mask).toNat = 2 ^ s.hostBits - 1 := by
    rw [UInt32.toNat_not, mask_toNat, hsize]
    omega
  rw [Subnet.last, UInt32.toNat_or, hnot, first_toNat, ← Nat.shiftLeft_eq]
  exact (Nat.shiftLeft_add_eq_or_of_lt (by omega) _).symm

theorem first_le_last (s : Subnet) : s.first.toNat ≤ s.last.toNat := by
  rw [last_toNat]
  omega

theorem hostCount_toNat (s : Subnet) : s.hostCount.toNat =
    if 31 ≤ s.prefixLength then 2 ^ s.hostBits else 2 ^ s.hostBits - 2 := by
  have hpos : 0 < 2 ^ s.hostBits := Nat.two_pow_pos _
  have hle : 2 ^ s.hostBits ≤ 2 ^ 32 := two_pow_hostBits
  have hlast := last_toNat s
  have hlt : s.last.toNat < 2 ^ 32 := s.last.toNat_lt
  have hsize : (s.last - s.first).toUInt64.toNat = 2 ^ s.hostBits - 1 := by
    rw [UInt32.toNat_toUInt64, UInt32.toNat_sub_of_le _ _ (UInt32.le_iff_toNat_le.mpr (first_le_last s))]
    omega
  have hone : (1 : UInt64).toNat = 1 := rfl
  have htwo : (2 : UInt64).toNat = 2 := rfl
  have hsum : ((s.last - s.first).toUInt64 + 1).toNat = 2 ^ s.hostBits := by
    rw [UInt64.toNat_add, hsize, hone]
    omega
  unfold Subnet.hostCount
  dsimp only
  split_ifs with h31
  · exact hsum
  · have hlength : s.prefixLength.toNat < 31 := UInt8.lt_iff_toNat_lt.mp (UInt8.not_le.mp h31)
    have hfour : 2 ^ 2 ≤ 2 ^ s.hostBits :=
      Nat.pow_le_pow_right (by omega) (by unfold Subnet.hostBits; omega)
    have hle2 : (2 : UInt64) ≤ (s.last - s.first).toUInt64 + 1 := by
      rw [UInt64.le_iff_toNat_le, hsum, htwo]
      omega
    rw [UInt64.toNat_sub_of_le _ _ hle2, hsum, htwo]

end Block

/-! ### Octets -/

/-- One to three digits with a value of at most 255. -/
structure IsOctet (text : Bytes) (n : ℕ) : Prop where
  nonempty : text ≠ []
  short : text.length ≤ 3
  digits : ∀ c ∈ text, isDigit c = true
  value : text.foldl (fun n c => n * 10 + digitOf c) 0 = n
  bound : n ≤ 255

/-- No digit is next. -/
def Ends (rest : Bytes) : Prop := ∀ c ∈ rest.head?, isDigit c = false

theorem isOctet_decimal {n : ℕ} (h : n ≤ 255) : IsOctet (decimal n) n := by
  have hall : ∀ m < 256, (decimal m).length ≤ 3 ∧ (decimal m).all isDigit = true ∧
      (decimal m).foldl (fun n c => n * 10 + digitOf c) 0 = m := by
    decide +kernel
  obtain ⟨hshort, hdigits, hvalue⟩ := hall n (by omega)
  exact ⟨Core.Journal.decimal_ne_nil n, hshort, List.all_eq_true.mp hdigits, hvalue, h⟩

section Octet
variable {text rest : Bytes} {n : ℕ}

/-- The value of digits is at least that of those in front. -/
theorem le_foldl_digits : ∀ (text : Bytes) (n : ℕ),
    n ≤ text.foldl (fun n c => n * 10 + digitOf c) n
  | [], n => Nat.le_refl n
  | c :: text, n => by
    have h := le_foldl_digits text (n * 10 + digitOf c)
    rw [List.foldl_cons]
    omega

theorem octetFrom_ends {number digits : ℕ} (h : Ends rest) :
    octetFrom number digits rest = some (number, rest) := by
  cases rest with
  | nil => rfl
  | cons c rest =>
    have hc : isDigit c = false := h c rfl
    unfold octetFrom
    rw [if_neg (by rw [hc]; exact Bool.false_ne_true)]

theorem octetFrom_append (hends : Ends rest) : ∀ {text : Bytes} {number digits : ℕ},
    (∀ c ∈ text, isDigit c = true) → digits + text.length ≤ 3 →
      text.foldl (fun n c => n * 10 + digitOf c) number ≤ 255 →
        octetFrom number digits (text ++ rest) =
          some (text.foldl (fun n c => n * 10 + digitOf c) number, rest)
  | [], number, digits, _, _, _ => octetFrom_ends hends
  | c :: text, number, digits, hdigits, hshort, hbound => by
    have hc := hdigits c (List.mem_cons_self ..)
    have htail : ∀ d ∈ text, isDigit d = true := fun d hd => hdigits d (List.mem_cons_of_mem _ hd)
    rw [List.length_cons] at hshort
    rw [List.foldl_cons] at hbound
    have hnumber : number * 10 + digitOf c ≤ 255 :=
      Nat.le_trans (le_foldl_digits text _) hbound
    have ih : octetFrom (number * 10 + digitOf c) (digits + 1) (text ++ rest) =
        some (text.foldl (fun n c => n * 10 + digitOf c) (number * 10 + digitOf c), rest) :=
      octetFrom_append hends htail (by omega) hbound
    rw [List.cons_append, octetFrom, if_pos hc, if_neg (by omega), ih, List.foldl_cons]

theorem octetFrom_eq_some : ∀ {text : Bytes} {number digits : ℕ},
    number ≤ 255 → digits ≤ 3 → octetFrom number digits text = some (n, rest) →
      ∃ front, text = front ++ rest ∧ (∀ c ∈ front, isDigit c = true) ∧
        digits + front.length ≤ 3 ∧ front.foldl (fun n c => n * 10 + digitOf c) number = n ∧
        n ≤ 255 ∧ Ends rest
  | [], number, digits, hnumber, hdigits, h => by
    obtain ⟨rfl, rfl⟩ := Prod.mk.inj (Option.some.inj h)
    exact ⟨[], rfl, by simp, hdigits, rfl, hnumber, by simp [Ends]⟩
  | c :: text, number, digits, hnumber, hdigits, h => by
    unfold octetFrom at h
    split_ifs at h with hc hover
    · have hnext : number * 10 + digitOf c ≤ 255 ∧ digits + 1 ≤ 3 := by omega
      obtain ⟨front, rfl, hall, hshort, hvalue, hbound, hends⟩ :=
        octetFrom_eq_some hnext.1 hnext.2 h
      refine ⟨c :: front, rfl, ?_, ?_, hvalue, hbound, hends⟩
      · exact List.forall_mem_cons.mpr ⟨hc, hall⟩
      · rw [List.length_cons]
        omega
    · obtain ⟨rfl, rfl⟩ := Prod.mk.inj (Option.some.inj h)
      refine ⟨[], rfl, by simp, hdigits, rfl, hnumber, fun d hd => ?_⟩
      obtain rfl := Option.some.inj hd
      exact Bool.eq_false_iff.mpr hc

/-- An octet is read up to the first byte that is no digit. -/
theorem octet_eq_some : octet text = some (n, rest) ↔
    ∃ front, text = front ++ rest ∧ IsOctet front n ∧ Ends rest := by
  constructor
  · intro h
    cases text with
    | nil => cases h
    | cons c tail =>
      rw [octet] at h
      split_ifs at h with hc
      obtain ⟨front, htext, hall, hshort, hvalue, hbound, hends⟩ :=
        octetFrom_eq_some (Nat.zero_le _) (Nat.zero_le _) h
      refine ⟨front, htext, ⟨fun hnil => ?_, by omega, hall, hvalue, hbound⟩, hends⟩
      rw [hnil, List.nil_append] at htext
      have hfalse := hends c (by rw [← htext]; rfl)
      rw [hc] at hfalse
      cases hfalse
  · rintro ⟨front, rfl, hoctet, hends⟩
    obtain ⟨hnonempty, hshort, hdigits, hvalue, hbound⟩ := hoctet
    cases front with
    | nil => exact absurd rfl hnonempty
    | cons c front =>
      have hc := hdigits c (List.mem_cons_self ..)
      have hread : octetFrom 0 0 (c :: front ++ rest) =
          some ((c :: front).foldl (fun n c => n * 10 + digitOf c) 0, rest) :=
        octetFrom_append hends hdigits (by omega) (by rw [hvalue]; exact hbound)
      rw [hvalue] at hread
      rw [List.cons_append, octet, if_pos hc]
      exact hread

end Octet

/-! ### Addresses -/

/-- The address of four octets. -/
def addressOf (a b c d : ℕ) : UInt32 := UInt32.ofNat (((a * 256 + b) * 256 + c) * 256 + d)

/-- Four octets with dots between them. -/
def Quad (text : Bytes) (address : UInt32) : Prop :=
  ∃ p q r s a b c d, IsOctet p a ∧ IsOctet q b ∧ IsOctet r c ∧ IsOctet s d ∧
    text = p ++ 46 :: (q ++ 46 :: (r ++ 46 :: s)) ∧ address = addressOf a b c d

section Address
variable {text rest : Bytes} {address : UInt32}

/-- An octet is put behind the others. -/
theorem shift_octet {m n : ℕ} (hm : m < 2 ^ 24) (hn : n ≤ 255) :
    (UInt32.ofNat m <<< 8) ||| UInt32.ofNat n = UInt32.ofNat (m * 256 + n) := by
  have h8 : (8 : UInt32).toNat = 8 := rfl
  apply UInt32.toNat_inj.mp
  have hfront : m % 2 ^ 32 = m := Nat.mod_eq_of_lt (by omega)
  have hoctet : n % 2 ^ 32 = n := Nat.mod_eq_of_lt (by omega)
  have hall : (m * 256 + n) % 2 ^ 32 = m * 256 + n := Nat.mod_eq_of_lt (by omega)
  have hshift : m <<< 8 % 2 ^ 32 = m <<< 8 := by
    rw [Nat.shiftLeft_eq]
    exact Nat.mod_eq_of_lt (by omega)
  rw [UInt32.toNat_or, UInt32.toNat_shiftLeft, h8, UInt32.toNat_ofNat', UInt32.toNat_ofNat',
    UInt32.toNat_ofNat', hfront, hoctet, hall, hshift, ← Nat.shiftLeft_add_eq_or_of_lt (by omega),
    Nat.shiftLeft_eq]

theorem ends_dot : Ends (46 :: rest) := by
  intro c hc
  obtain rfl := Option.some.inj hc
  rfl

theorem ends_nil : Ends [] := by simp [Ends]

/-- One octet and its dot. -/
theorem octets_dot {n m : ℕ} {result : UInt32 × Bytes} (hm : m < 2 ^ 24) :
    octets (n + 2) (UInt32.ofNat m) text = some result ↔
      ∃ p a behind, IsOctet p a ∧ text = p ++ 46 :: behind ∧
        octets (n + 1) (UInt32.ofNat (m * 256 + a)) behind = some result := by
  rw [octets, Option.bind_eq_some_iff]
  constructor
  · rintro ⟨⟨a, behind⟩, hoctet, h⟩
    obtain ⟨p, rfl, hp, -⟩ := octet_eq_some.mp hoctet
    dsimp only at h
    rw [if_neg (by omega), shift_octet hm hp.bound] at h
    cases behind with
    | nil => cases h
    | cons c behind =>
      dsimp only at h
      split_ifs at h with hc
      exact ⟨p, a, behind, hp, by rw [hc], h⟩
  · rintro ⟨p, a, behind, hp, rfl, h⟩
    refine ⟨(a, 46 :: behind), octet_eq_some.mpr ⟨p, rfl, hp, ends_dot⟩, ?_⟩
    dsimp only
    rw [if_neg (by omega), shift_octet hm hp.bound, if_pos rfl]
    exact h

/-- The last octet. -/
theorem octets_last {m : ℕ} (hm : m < 2 ^ 24) :
    octets 1 (UInt32.ofNat m) text = some (address, []) ↔
      ∃ a, IsOctet text a ∧ address = UInt32.ofNat (m * 256 + a) := by
  rw [octets, Option.bind_eq_some_iff]
  constructor
  · rintro ⟨⟨a, behind⟩, hoctet, h⟩
    obtain ⟨p, rfl, hp, -⟩ := octet_eq_some.mp hoctet
    dsimp only at h
    rw [if_pos rfl, shift_octet hm hp.bound] at h
    obtain ⟨rfl, rfl⟩ := Prod.mk.inj (Option.some.inj h)
    rw [List.append_nil]
    exact ⟨a, hp, rfl⟩
  · rintro ⟨a, ha, rfl⟩
    have hoctet : octet text = some (a, []) :=
      octet_eq_some.mpr ⟨text, (List.append_nil _).symm, ha, ends_nil⟩
    refine ⟨(a, []), hoctet, ?_⟩
    dsimp only
    rw [if_pos rfl, shift_octet hm ha.bound]
    rfl

/-- **What is read as an address.** -/
theorem parseIpv4_eq_some : parseIpv4 text = some address ↔ Quad text address := by
  have hzero : (0 : UInt32) = UInt32.ofNat 0 := rfl
  have hread : parseIpv4 text = some address ↔ octets 4 (UInt32.ofNat 0) text = some (address, []) := by
    rw [parseIpv4, hzero, Option.bind_eq_some_iff]
    constructor
    · rintro ⟨⟨value, behind⟩, hoctets, h⟩
      dsimp only at h
      split_ifs at h with hnil
      rw [hoctets, hnil, Option.some.inj h]
    · intro h
      exact ⟨(address, []), h, if_pos rfl⟩
  rw [hread]
  constructor
  · intro h
    obtain ⟨p, a, t₁, hp, htext, h₁⟩ := (octets_dot (by omega)).mp h
    have ha := hp.bound
    obtain ⟨q, b, t₂, hq, rfl, h₂⟩ := (octets_dot (by omega)).mp h₁
    have hb := hq.bound
    obtain ⟨r, c, t₃, hr, rfl, h₃⟩ := (octets_dot (by omega)).mp h₂
    have hc := hr.bound
    obtain ⟨d, hs, rfl⟩ := (octets_last (by omega)).mp h₃
    exact ⟨p, q, r, t₃, a, b, c, d, hp, hq, hr, hs, htext, by simp [addressOf]⟩
  · rintro ⟨p, q, r, s, a, b, c, d, hp, hq, hr, hs, rfl, rfl⟩
    have ha := hp.bound
    have hb := hq.bound
    have hc := hr.bound
    refine (octets_dot (by omega)).mpr ⟨p, a, _, hp, rfl, ?_⟩
    refine (octets_dot (by omega)).mpr ⟨q, b, _, hq, rfl, ?_⟩
    refine (octets_dot (by omega)).mpr ⟨r, c, _, hr, rfl, ?_⟩
    exact (octets_last (by omega)).mpr ⟨d, hs, by simp [addressOf]⟩

/-- The octets of an address. -/
theorem octetAt_toNat {k : ℕ} (hk : k < 32) :
    ((address >>> UInt32.ofNat k) &&& 0xFF).toNat = address.toNat / 2 ^ k % 256 := by
  have h255 : (0xFF : UInt32).toNat = 2 ^ 8 - 1 := rfl
  rw [UInt32.toNat_and, UInt32.toNat_shiftRight, h255, Nat.and_two_pow_sub_one_eq_mod,
    UInt32.toNat_ofNat', Nat.mod_eq_of_lt (by omega : k < 2 ^ 32), Nat.mod_eq_of_lt hk,
    Nat.shiftRight_eq_div_pow]

theorem quad_formatIpv4 (address : UInt32) : Quad (formatIpv4 address) address := by
  have h24 : ((address >>> 24) &&& 0xFF).toNat = address.toNat / 2 ^ 24 % 256 :=
    octetAt_toNat (by decide)
  have h16 : ((address >>> 16) &&& 0xFF).toNat = address.toNat / 2 ^ 16 % 256 :=
    octetAt_toNat (by decide)
  have h8 : ((address >>> 8) &&& 0xFF).toNat = address.toNat / 2 ^ 8 % 256 :=
    octetAt_toNat (by decide)
  have h0 : (address &&& 0xFF).toNat = address.toNat % 256 := by
    have h255 : (0xFF : UInt32).toNat = 2 ^ 8 - 1 := rfl
    rw [UInt32.toNat_and, h255, Nat.and_two_pow_sub_one_eq_mod]
  have hlt : address.toNat < 2 ^ 32 := address.toNat_lt
  have hoctet : ∀ n, IsOctet (decimal (n % 256)) (n % 256) := fun n => isOctet_decimal (by omega)
  refine ⟨_, _, _, _, _, _, _, _, hoctet (address.toNat / 2 ^ 24), hoctet (address.toNat / 2 ^ 16),
    hoctet (address.toNat / 2 ^ 8), hoctet address.toNat, ?_, ?_⟩
  · rw [formatIpv4, h24, h16, h8, h0]
    simp
  · rw [addressOf]
    apply UInt32.toNat_inj.mp
    rw [UInt32.toNat_ofNat', Nat.mod_eq_of_lt (by omega)]
    omega

end Address

/-! ### CIDR blocks -/

namespace Subnet

/-- The block without its host bits. -/
def canonical (s : Subnet) : Subnet := { network := s.first, prefixLength := s.prefixLength }

theorem first_canonical (s : Subnet) : s.canonical.first = s.first := by
  have hpos : 0 < 2 ^ s.hostBits := Nat.two_pow_pos _
  have hbits : s.canonical.hostBits = s.hostBits := rfl
  have hnetwork : s.canonical.network = s.first := rfl
  apply UInt32.toNat_inj.mp
  rw [first_toNat s.canonical, hbits, hnetwork, first_toNat s, Nat.mul_div_cancel _ hpos]

end Subnet

/-- A length of one or two digits, at most 32. -/
structure IsLength (text : Bytes) (length : UInt8) : Prop where
  nonempty : text ≠ []
  short : text.length ≤ 2
  digits : ∀ c ∈ text, isDigit c = true
  bound : text.foldl (fun n c => n * 10 + digitOf c) 0 ≤ 32
  value : length = UInt8.ofNat (text.foldl (fun n c => n * 10 + digitOf c) 0)

/-- An address alone is a block of one host; what stands behind a slash is the length. -/
def Denotes (text : Bytes) (s : Subnet) : Prop :=
  ∃ address length value, Quad address value ∧ s = (⟨value, length⟩ : Subnet).canonical ∧
    (text = address ∧ length = 32 ∨
      ∃ suffix, text = address ++ 47 :: suffix ∧ IsLength suffix length)

section Cidr
variable {text : Bytes} {s : Subnet}

theorem parseLength_eq_some {length : UInt8} : parseLength text = some length ↔
    IsLength text length := by
  unfold parseLength
  dsimp only
  split_ifs with hform hbound
  · refine iff_of_false (by simp) fun h => ?_
    rcases hform with hnil | hlong | hdigits
    · exact h.nonempty hnil
    · exact absurd h.short (Nat.not_le.mpr hlong)
    · exact hdigits (List.all_eq_true.mpr h.digits)
  · exact iff_of_false (by simp) fun h => absurd h.bound (Nat.not_le.mpr hbound)
  · simp only [not_or, not_not, Nat.not_lt] at hform
    obtain ⟨hnil, hshort, hdigits⟩ := hform
    rw [Option.some.injEq]
    constructor
    · rintro rfl
      exact ⟨hnil, hshort, List.all_eq_true.mp hdigits, Nat.not_lt.mp hbound, rfl⟩
    · exact fun h => h.value.symm

/-- A quad has no slash. -/
theorem Quad.slash {address : Bytes} {value : UInt32} (h : Quad address value) : 47 ∉ address := by
  obtain ⟨p, q, r, t, a, b, c, d, hp, hq, hr, ht, rfl, -⟩ := h
  have hdigits : ∀ {u : Bytes} {n : ℕ}, IsOctet u n → 47 ∉ u := by
    intro u n hu hmem
    have hfalse := hu.digits 47 hmem
    revert hfalse
    decide
  simp [hdigits hp, hdigits hq, hdigits hr, hdigits ht]

theorem splitSlash_append {address suffix : Bytes} (h : 47 ∉ address) :
    splitSlash (address ++ 47 :: suffix) = (address, some suffix) := by
  have hfront : ∀ c ∈ address, decide (c ≠ 47) = true := by
    intro c hc
    exact decide_eq_true fun he => h (he ▸ hc)
  have htake : (47 :: suffix).takeWhile (fun c => decide (c ≠ 47)) = [] := rfl
  have hdrop : (47 :: suffix).dropWhile (fun c => decide (c ≠ 47)) = 47 :: suffix := rfl
  unfold splitSlash
  rw [List.takeWhile_append_of_pos hfront, List.dropWhile_append_of_pos hfront, htake, hdrop,
    List.append_nil]

theorem splitSlash_of_notMem {address : Bytes} (h : 47 ∉ address) :
    splitSlash address = (address, none) := by
  have hfront : ∀ c ∈ address, decide (c ≠ 47) = true := by
    intro c hc
    exact decide_eq_true fun he => h (he ▸ hc)
  unfold splitSlash
  rw [List.takeWhile_eq_self_iff.mpr hfront, List.dropWhile_eq_nil_iff.mpr hfront]

/-- A text is its two parts. -/
theorem splitSlash_cases (text : Bytes) : splitSlash text = (text, none) ∧ 47 ∉ text ∨
    ∃ address suffix, text = address ++ 47 :: suffix ∧
      splitSlash text = (address, some suffix) := by
  by_cases h : 47 ∈ text
  · obtain ⟨address, suffix, rfl, hfront⟩ := List.eq_append_cons_of_mem h
    exact .inr ⟨address, suffix, rfl, splitSlash_append hfront⟩
  · exact .inl ⟨splitSlash_of_notMem h, h⟩

/-- **What is read as a block.** -/
theorem parseCidr_iff : parseCidr text = some s ↔ Denotes text s := by
  have hnil : ∀ value, ¬Quad [] value := by
    rintro value ⟨p, q, r, t, a, b, c, d, -, -, -, -, htext, -⟩
    simp at htext
  rcases splitSlash_cases text with ⟨hsplit, hslash⟩ | ⟨address, suffix, rfl, hsplit⟩
  · have hread : parseCidr text = some s ↔
        ∃ value, Quad text value ∧ (⟨value, 32⟩ : Subnet).canonical = s := by
      unfold parseCidr
      rw [hsplit]
      split_ifs with htext
      · refine iff_of_false (by simp) ?_
        rintro ⟨value, hquad, -⟩
        exact hnil value (htext ▸ hquad)
      · simp only [Option.bind_eq_some_iff, parseIpv4_eq_some, Option.some.injEq]
        rfl
    rw [hread]
    constructor
    · rintro ⟨value, hquad, rfl⟩
      exact ⟨text, 32, value, hquad, rfl, .inl ⟨rfl, rfl⟩⟩
    · rintro ⟨address, length, value, hquad, rfl, ⟨rfl, rfl⟩ | ⟨suffix, rfl, -⟩⟩
      · exact ⟨value, hquad, rfl⟩
      · simp at hslash
  · have hread : parseCidr (address ++ 47 :: suffix) = some s ↔ ∃ value length,
        Quad address value ∧ IsLength suffix length ∧
          (⟨value, length⟩ : Subnet).canonical = s := by
      unfold parseCidr
      rw [hsplit, if_neg (by simp)]
      simp only [Option.bind_eq_some_iff, parseIpv4_eq_some, Option.map_eq_some_iff,
        parseLength_eq_some]
      constructor
      · rintro ⟨value, hquad, length, hlength, rfl⟩
        exact ⟨value, length, hquad, hlength, rfl⟩
      · rintro ⟨value, length, hquad, hlength, rfl⟩
        exact ⟨value, hquad, length, hlength, rfl⟩
    rw [hread]
    constructor
    · rintro ⟨value, length, hquad, hlength, rfl⟩
      exact ⟨address, length, value, hquad, rfl, .inr ⟨suffix, rfl, hlength⟩⟩
    · rintro ⟨front, length, value, hquad, rfl, ⟨htext, -⟩ | ⟨behind, htext, hlength⟩⟩
      · have hslash := hquad.slash
        rw [← htext] at hslash
        simp at hslash
      · have hsame : splitSlash (front ++ 47 :: behind) = (front, some behind) :=
          splitSlash_append hquad.slash
        rw [← htext, hsplit] at hsame
        obtain ⟨rfl, hsuffix⟩ := Prod.mk.inj hsame
        obtain rfl := Option.some.inj hsuffix
        exact ⟨value, length, hquad, hlength, rfl⟩

theorem parseCidr_toString_of_le (h : s.prefixLength ≤ 32) :
    parseCidr s.toString = some s.canonical := by
  have hlength : s.prefixLength.toNat ≤ 32 := UInt8.le_iff_toNat_le.mp h
  obtain ⟨hnonempty, -, hdigits, hvalue, -⟩ := isOctet_decimal (n := s.prefixLength.toNat) (by omega)
  have htwo : ∀ n < 33, (decimal n).length ≤ 2 := by decide +kernel
  refine parseCidr_iff.mpr ⟨formatIpv4 s.first, s.prefixLength, s.first, quad_formatIpv4 _, ?_,
    .inr ⟨decimal s.prefixLength.toNat, rfl, hnonempty, htwo _ (by omega), hdigits, ?_, ?_⟩⟩
  · have hfirst := Subnet.first_canonical s
    show s.canonical = ⟨s.canonical.first, s.prefixLength⟩
    rw [hfirst]
    rfl
  · rw [hvalue]
    exact hlength
  · rw [hvalue, UInt8.ofNat_toNat]

theorem parseCidr_toString_of_lt (h : 32 < s.prefixLength) : parseCidr s.toString = none := by
  have hlength : 32 < s.prefixLength.toNat := UInt8.lt_iff_toNat_lt.mp h
  have hlt : s.prefixLength.toNat < 256 := s.prefixLength.toNat_lt
  have hvalue := (isOctet_decimal (n := s.prefixLength.toNat) (by omega)).value
  have hslash := (quad_formatIpv4 s.first).slash
  rw [Option.eq_none_iff_forall_not_mem]
  intro t ht
  obtain ⟨address, length, value, hquad, -, ⟨htext, -⟩ | ⟨suffix, htext, hsuffix⟩⟩ :=
    parseCidr_iff.mp ht
  · have hnone := hquad.slash
    rw [← htext] at hnone
    simp [Subnet.toString] at hnone
  · have hsame : splitSlash s.toString = (formatIpv4 s.first, some (decimal s.prefixLength.toNat)) :=
      splitSlash_append hslash
    rw [htext, splitSlash_append hquad.slash] at hsame
    obtain rfl := Option.some.inj (Prod.mk.inj hsame).2
    have hbound := hsuffix.bound
    omega

/-- **CIDR blocks as text.** What is read is a dotted quad, alone or with a length behind a slash, and
the block has no host bits; a block that is written reads back as itself, if it is one. -/
theorem cidr_texts :
    (∀ text s, parseCidr text = some s ↔ Denotes text s) ∧
    ∀ s : Subnet, parseCidr s.toString = if s.prefixLength ≤ 32 then some s.canonical else none := by
  refine ⟨fun _ _ => parseCidr_iff, fun s => ?_⟩
  split_ifs with h
  · exact parseCidr_toString_of_le h
  · exact parseCidr_toString_of_lt (UInt8.not_le.mp h)

end Cidr

end PrinterDriver.Core.Subnets
