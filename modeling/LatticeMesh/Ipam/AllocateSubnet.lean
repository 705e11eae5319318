import LatticeMesh.Ipam.Address
import LatticeMesh.Lib.GoMap
import LatticeMesh.Lib.Threads

/-! # Allocation of subnets -/

namespace LatticeMesh.Ipam.Subnets

open List Program

inductive IP where
  | v4 (a : ℕ)
  | v6
  deriving DecidableEq

def ipToUint32 : IP → ℕ
  | .v4 a => a
  | .v6 => 0

def ipToHex : IP → String
  | .v4 a => Ipam.ipToHex a
  | .v6 => ""

structure PoolSpec where
  cidr : CIDR
  subnetMask : Int

def stride (maskBits : Int) : ℕ := shl32 (sub32 32 (maskBits % 2 ^ 32).toNat)

def nextSubnet (ip : IP) (maskBits : Int) : IP := .v4 (add32 (ipToUint32 ip) (stride maskBits))

def startIP : CIDR → IP
  | .v4 n => .v4 n.base
  | .v6 _ | .invalid _ => .v6

def Contains : CIDR → IP → Prop
  | .v4 n, .v4 a => n.Contains a
  | .v6 _, .v6 => True
  | _, _ => False

instance : ∀ c ip, Decidable (Contains c ip)
  | .v4 n, .v4 a => inferInstanceAs (Decidable (n.Contains a))
  | .v6 _, .v6 => isTrue trivial
  | .v4 _, .v6 => isFalse id
  | .v6 _, .v4 _ => isFalse id
  | .invalid _, _ => isFalse id

structure Subnet where
  ip : IP
  mask : Int
  deriving DecidableEq

def Subnet.net : Subnet → Option IPv4Net
  | ⟨.v4 a, mask⟩ =>
    if h : a < 2 ^ 32 ∧ 0 ≤ mask ∧ mask ≤ 32 then some ⟨a, mask.toNat, h.1, by omega⟩ else none
  | ⟨.v6, _⟩ => none

structure Allocation where
  networkName : String
  cidr : Subnet
  fromPool : Bool

def subnetName (ip : IP) : String := "subnet-" ++ ipToHex ip

def trimPrefix (p s : String) : String :=
  if p.toList.isPrefixOf s.toList then String.ofList (s.toList.drop p.toList.length) else s

def validName (name : String) : Bool := name.toList.getLast?.any Char.isAlphanum

structure Shared where
  allocations : GoMap String Allocation
  ever : List String := []

structure Answer where
  err : Option String := none
  listed : List String := []

def maxRetries : ℕ := 10

inductive Point where
  | list (network : String) (attempt : ℕ)
  | scan (network : String) (attempt : ℕ) (used : List String) (curr : IP)
  | create (network : String) (attempt : ℕ) (ip : IP)
  | returned (result : Except String Subnet)
  deriving DecidableEq

def allocateSubnet (pool : PoolSpec) (network : String) : Point :=
  match pool.cidr with
  | .invalid err => .returned (.error ("invalid pool CIDR: " ++ err))
  | .v4 _ | .v6 _ => .list network 0

def noSubnet : String := "no available subnet in pool"

def used (s : Shared) (listed : List String) : List String :=
  (listed.filter fun name => name ∈ s.ever).map (trimPrefix "subnet-")

def next (pool : PoolSpec) (o : Answer) (s : Shared) : Point → Point
  | .list network attempt =>
    match o.err with
    | some err => .returned (.error err)
    | none => .scan network attempt (used s o.listed) (startIP pool.cidr)
  | .scan network attempt used curr =>
    if Contains pool.cidr curr then
      if ipToHex curr ∈ used then .scan network attempt used (nextSubnet curr pool.subnetMask)
      else .create network attempt curr
    else .returned (.error noSubnet)
  | .create network attempt ip =>
    match o.err with
    | some err => .returned (.error err)
    | none =>
      if validName (subnetName ip) then
        if (s.allocations.get (subnetName ip)).isSome then
          if attempt + 1 < maxRetries then .list network (attempt + 1)
          else .returned (.error noSubnet)
        else .returned (.ok ⟨ip, pool.subnetMask⟩)
      else .returned (.error "metadata.name: Invalid value")
  | .returned result => .returned result

namespace Shared

def add (s : Shared) (name : String) (a : Allocation) : Shared where
  allocations := s.allocations.set name a
  ever := s.ever ++ [name]

end Shared

def effect (pool : PoolSpec) (o : Answer) (s : Shared) : Point → Shared
  | .create network _ ip =>
    if o.err = none ∧ validName (subnetName ip) ∧ s.allocations.get (subnetName ip) = none then
      s.add (subnetName ip) ⟨network, ⟨ip, pool.subnetMask⟩, true⟩
    else s
  | .list _ _ | .scan _ _ _ _ | .returned _ => s

inductive Event where
  | call (network : String)
  | other (name : String) (a : Allocation)
  | delete (name : String)

inductive Env (pool : PoolSpec) (s : Shared) : Event → Shared → List Point → Prop
  | call (network : String) : Env pool s (.call network) s [allocateSubnet pool network]
  | other (name : String) (a : Allocation) (hfree : s.allocations.get name = none)
      (ha : a.fromPool = false) : Env pool s (.other name a) (s.add name a) []
  | delete (name : String) :
    Env pool s (.delete name) { s with allocations := s.allocations.delete name } []

def program (pool : PoolSpec) : Program Shared Point Answer Event where
  init s := s = { allocations := GoMap.empty }
  enabled _ p := ∀ result, p ≠ .returned result
  effect := effect pool
  next := next pool
  spawn _ _ _ := []
  env := Env pool

instance (pool : PoolSpec) (s : Shared) : (p : Point) → Decidable ((program pool).enabled s p)
  | .returned result => .isFalse fun h => h result rfl
  | .list _ _ | .scan _ _ _ _ | .create _ _ _ => .isTrue fun _ => nofun

def MaskFits (pool : PoolSpec) : Prop :=
  ∀ n, pool.cidr = .v4 n → 1 ≤ n.ones ∧ n.ones ≤ pool.subnetMask ∧ pool.subnetMask ≤ 32

variable {pool : PoolSpec} {p : Point} {s : Shared}

theorem MaskFits.exists_nat (h : MaskFits pool) {n : IPv4Net} (hn : pool.cidr = .v4 n) :
    ∃ m : ℕ, pool.subnetMask = m ∧ 1 ≤ n.ones ∧ n.ones ≤ m ∧ m ≤ 32 := by
  obtain ⟨hpos, hm, hle⟩ := h n hn
  obtain ⟨m, hmask⟩ := Int.eq_ofNat_of_zero_le (Int.le_trans (Int.natCast_nonneg _) hm)
  rw [hmask] at hm hle
  exact ⟨m, hmask, hpos, Int.ofNat_le.1 hm, Int.ofNat_le.1 hle⟩

theorem stride_eq {m : ℕ} (hpos : 1 ≤ m) (hle : m ≤ 32) : stride m = 2 ^ (32 - m) := by
  have hmod : ((m : Int) % 2 ^ 32).toNat = m := by omega
  unfold stride sub32
  rw [hmod, show (32 + 2 ^ 32 - m) % 2 ^ 32 = 32 - m by omega, shl32_of_lt (by omega)]

section Fits

variable {n : IPv4Net} {m : ℕ} (hpos : 1 ≤ n.ones) (hm : n.ones ≤ m) (hle : m ≤ 32)
include hpos hm hle

theorem stride_dvd_size : stride m ∣ n.size := by
  rw [stride_eq (hpos.trans hm) hle]
  exact Nat.pow_dvd_pow 2 (Nat.sub_le_sub_left hm 32)

theorem stride_pos : 0 < stride m := by
  rw [stride_eq (hpos.trans hm) hle]
  exact Nat.two_pow_pos _

theorem stride_le_size : stride m ≤ n.size :=
  Nat.le_of_dvd n.size_pos (stride_dvd_size hpos hm hle)

omit hm hle in
theorem two_mul_size_le : 2 * n.size ≤ 2 ^ 32 := by
  have hpow : n.size ≤ 2 ^ 31 := Nat.pow_le_pow_right (by decide) (by omega)
  omega

theorem add_stride {a : ℕ} (ha : n.Contains a) :
    add32 a (stride m) = a + stride m ∨ ¬ n.Contains (add32 a (stride m)) := by
  have hlast := n.base_add_size_le
  have hhalf := two_mul_size_le hpos
  have hstr := stride_le_size hpos hm hle
  obtain ⟨hbase, hlt⟩ := n.contains_iff.1 ha
  by_cases hwrap : a + stride m < 2 ^ 32
  · exact .inl (add32_of_lt hwrap)
  refine .inr fun hc => ?_
  obtain ⟨hge, -⟩ := n.contains_iff.1 hc
  unfold add32 at hge
  obtain hend | hend := Nat.lt_or_eq_of_le hlast
  · -- The pool ends a whole pool size before the end of the address space.
    have hnext := add_le_of_dvd
      (Nat.dvd_add n.size_dvd_base (Nat.dvd_refl n.size)) n.size_dvd hend
    omega
  · omega

end Fits

def left : CIDR → IP → ℕ
  | .v4 n, .v4 a => if n.Contains a then n.base + n.size - a else 0
  | .v6 _, .v6 => 1
  | _, _ => 0

variable {ip : IP}

theorem left_next_lt (h : MaskFits pool) (hc : Contains pool.cidr ip) :
    left pool.cidr (nextSubnet ip pool.subnetMask) < left pool.cidr ip := by
  obtain ⟨cidr, mask⟩ := pool
  cases cidr with
  | invalid err => exact hc.elim
  | v6 ones =>
    cases ip with
    | v4 a => exact hc.elim
    | v6 => exact Nat.one_pos
  | v4 n =>
    cases ip with
    | v6 => exact hc.elim
    | v4 a =>
      obtain ⟨m, rfl, hpos, hm, hle⟩ := h.exists_nat rfl
      have hc : n.Contains a := hc
      obtain ⟨hbase, hlt⟩ := n.contains_iff.1 hc
      have hstr := stride_pos hpos hm hle
      change (if n.Contains (add32 a (stride m)) then n.base + n.size - add32 a (stride m) else 0) <
        if n.Contains a then n.base + n.size - a else 0
      rw [if_pos hc]
      split
      · next hnext =>
        obtain heq | hout := add_stride hpos hm hle hc
        · rw [heq]
          omega
        · exact absurd hnext hout
      · omega

def rank (pool : PoolSpec) : Point → ℕ
  | .list _ attempt => (10 - attempt) * (left pool.cidr (startIP pool.cidr) + 3)
  | .scan _ attempt _ curr =>
    (9 - attempt) * (left pool.cidr (startIP pool.cidr) + 3) + left pool.cidr curr + 2
  | .create _ attempt _ => (9 - attempt) * (left pool.cidr (startIP pool.cidr) + 3) + 1
  | .returned _ => 0

def Point.Tries : Point → Prop
  | .list _ attempt | .scan _ attempt _ _ | .create _ attempt _ => attempt < maxRetries
  | .returned _ => True

theorem ten_sub_mul {attempt k : ℕ} (h : attempt < maxRetries) :
    (10 - attempt) * k = (9 - attempt) * k + k := by
  have hsub : 10 - attempt = 9 - attempt + 1 := by
    unfold maxRetries at h
    omega
  rw [hsub, Nat.succ_mul]

variable {o : Answer}

theorem next_tries (h : MaskFits pool) (hp : p.Tries) (hen : (program pool).enabled s p) :
    (next pool o s p).Tries ∧ rank pool (next pool o s p) < rank pool p := by
  cases p with
  | list network attempt =>
    unfold next
    dsimp only
    split
    · refine ⟨trivial, ?_⟩
      dsimp only [rank]
      rw [ten_sub_mul hp]
      exact Nat.add_pos_right _ (Nat.succ_pos _)
    refine ⟨hp, ?_⟩
    dsimp only [rank]
    rw [ten_sub_mul hp]
    omega
  | scan network attempt used curr =>
    unfold next
    dsimp only
    split
    · next hc =>
      split
      · have hlt := left_next_lt h hc
        exact ⟨hp, by dsimp only [rank]; omega⟩
      · exact ⟨hp, by dsimp only [rank]; omega⟩
    · exact ⟨trivial, Nat.succ_pos _⟩
  | create network attempt ip =>
    unfold next
    dsimp only
    split
    · exact ⟨trivial, Nat.succ_pos _⟩
    split
    · split
      · split
        · next hlt =>
          refine ⟨hlt, ?_⟩
          dsimp only [rank]
          rw [show 10 - (attempt + 1) = 9 - attempt by omega]
          exact Nat.lt_succ_self _
        · exact ⟨trivial, Nat.succ_pos _⟩
      · exact ⟨trivial, Nat.succ_pos _⟩
    · exact ⟨trivial, Nat.succ_pos _⟩
  | returned result => exact absurd rfl (hen result)

theorem call_ends (h : MaskFits pool) (hp : p.Tries) :
    (program pool).Ends p :=
  ends_of_rank (rank pool) (fun _ _ _ => next_tries h) hp

namespace Subnet

def Within (sub : Subnet) (cidr : CIDR) : Prop :=
  ∃ net, sub.net = some net ∧ ∀ a, net.Contains a → Contains cidr (.v4 a)

def Disjoint (sub sub' : Subnet) : Prop :=
  ∀ net net', sub.net = some net → sub'.net = some net' → ∀ a, net.Contains a → ¬ net'.Contains a

end Subnet

def Aligned (pool : PoolSpec) (ip : IP) : Prop :=
  ∀ n x, pool.cidr = .v4 n → ip = .v4 x → stride pool.subnetMask ∣ x

structure Part (pool : PoolSpec) (ip : IP) : Prop where
  contains : Contains pool.cidr ip
  aligned : Aligned pool ip

theorem aligned_startIP (h : MaskFits pool) :
    Aligned pool (startIP pool.cidr) := by
  intro n x hn hx
  obtain ⟨m, hmask, hpos, hm, hle⟩ := h.exists_nat hn
  rw [hn] at hx
  cases hx
  rw [hmask]
  exact (stride_dvd_size hpos hm hle).trans n.size_dvd_base

theorem aligned_nextSubnet (h : MaskFits pool) (hc : Contains pool.cidr ip) (hip : Aligned pool ip) :
    Aligned pool (nextSubnet ip pool.subnetMask) := by
  intro n x hn hx
  obtain ⟨m, hmask, hpos, hm, hle⟩ := h.exists_nat hn
  cases ip with
  | v6 =>
    rw [hn] at hc
    exact hc.elim
  | v4 a =>
    cases hx
    have ha := hip n a hn rfl
    rw [hmask] at ha ⊢
    have hspa := (stride_dvd_size hpos hm hle).trans n.size_dvd
    exact (Nat.dvd_mod_iff hspa).2 (Nat.dvd_add ha (Nat.dvd_refl _))

theorem not_validName_v6 : validName (subnetName .v6) = false := by decide +kernel

theorem Part.exists_net (h : MaskFits pool) (hip : Part pool ip)
    (hname : validName (subnetName ip) = true) :
    ∃ n x net, pool.cidr = .v4 n ∧ ip = .v4 x ∧ x < 2 ^ 32 ∧
      (⟨ip, pool.subnetMask⟩ : Subnet).net = some net ∧ net.base = x ∧
      net.size = stride pool.subnetMask ∧ stride pool.subnetMask ∣ x ∧
      x + stride pool.subnetMask ≤ n.base + n.size ∧ n.base ≤ x := by
  obtain ⟨cidr, mask⟩ := pool
  obtain ⟨hc, hali⟩ := hip
  cases ip with
  | v6 =>
    rw [not_validName_v6] at hname
    cases hname
  | v4 x =>
    cases cidr with
    | invalid err => exact hc.elim
    | v6 ones => exact hc.elim
    | v4 n =>
      obtain ⟨m, rfl, hpos, hm, hle⟩ := h.exists_nat rfl
      have hdvd : stride m ∣ x := hali n x rfl rfl
      obtain ⟨hbase, hlt⟩ := n.contains_iff.1 (show n.Contains x from hc)
      have hlast := n.base_add_size_le
      have hend := add_le_of_dvd hdvd (Nat.dvd_add
        ((stride_dvd_size hpos hm hle).trans n.size_dvd_base) (stride_dvd_size hpos hm hle)) hlt
      have hx : x < 2 ^ 32 := by omega
      have hnet : (⟨.v4 x, m⟩ : Subnet).net = some ⟨x, m, hx, hle⟩ :=
        dif_pos ⟨hx, Int.natCast_nonneg m, by omega⟩
      have hsize : (⟨x, m, hx, hle⟩ : IPv4Net).size = stride m :=
        (stride_eq (hpos.trans hm) hle).symm
      refine ⟨n, x, _, rfl, rfl, hx, hnet, ?_, hsize, hdvd, hend, hbase⟩
      unfold IPv4Net.base IPv4Net.mask
      rw [hsize]
      exact Nat.div_mul_cancel hdvd

theorem Part.within (h : MaskFits pool) (hip : Part pool ip)
    (hname : validName (subnetName ip) = true) :
    (⟨ip, pool.subnetMask⟩ : Subnet).Within pool.cidr := by
  obtain ⟨n, x, net, hn, -, -, hnet, hbase, hsize, -, hend, hle⟩ := hip.exists_net h hname
  refine ⟨net, hnet, fun a ha => ?_⟩
  rw [net.contains_iff, hbase, hsize] at ha
  rw [hn]
  exact n.contains_iff.2 (by omega)

theorem Part.disjoint (h : MaskFits pool) {ip' : IP} (hip : Part pool ip) (hip' : Part pool ip')
    (hname : validName (subnetName ip) = true) (hname' : validName (subnetName ip') = true)
    (hne : ip ≠ ip') :
    (⟨ip, pool.subnetMask⟩ : Subnet).Disjoint ⟨ip', pool.subnetMask⟩ := by
  obtain ⟨n, x, net, hn, rfl, -, hnet, hbase, hsize, hdvd, -⟩ := hip.exists_net h hname
  obtain ⟨n', x', net', hn', rfl, -, hnet', hbase', hsize', hdvd', -⟩ := hip'.exists_net h hname'
  intro _ _ hsome hsome' a ha ha'
  cases hnet.symm.trans hsome
  cases hnet'.symm.trans hsome'
  rw [net.contains_iff, hbase, hsize] at ha
  rw [net'.contains_iff, hbase', hsize'] at ha'
  obtain hlt | heq | hlt := Nat.lt_trichotomy x x'
  · have hstep := add_le_of_dvd hdvd hdvd' hlt
    omega
  · exact hne (congrArg IP.v4 heq)
  · have hstep := add_le_of_dvd hdvd' hdvd hlt
    omega

def Allocation.Named (pool : PoolSpec) (name : String) (a : Allocation) : Prop :=
  a.fromPool = true → ∃ ip, name = subnetName ip ∧ a.cidr = ⟨ip, pool.subnetMask⟩ ∧
    Part pool ip ∧ validName (subnetName ip) = true

def Stored (pool : PoolSpec) (s : Shared) : Prop :=
  ∀ name a, s.allocations.get name = some a → a.Named pool name

def Point.Walks (pool : PoolSpec) : Point → Prop
  | .list _ _ => True
  | .scan _ _ _ curr => Aligned pool curr
  | .create _ _ ip => Part pool ip
  | .returned _ => True

theorem stored_add (hs : Stored pool s) {name : String} {a : Allocation} (ha : a.Named pool name) :
    Stored pool (s.add name a) :=
  fun _ _ => GoMap.forall_get_set hs ha

theorem stored_effect (hs : Stored pool s) (hp : p.Walks pool) :
    Stored pool (effect pool o s p) := by
  unfold effect
  split
  · next network attempt ip =>
    split
    · next h => exact stored_add hs fun _ => ⟨ip, rfl, rfl, hp, h.2.1⟩
    · exact hs
  all_goals exact hs

theorem walks_next (h : MaskFits pool) (hp : p.Walks pool) :
    (next pool o s p).Walks pool := by
  cases p with
  | list network attempt =>
    unfold next
    dsimp only
    split
    · trivial
    · exact aligned_startIP h
  | scan network attempt used curr =>
    unfold next
    dsimp only
    split
    · next hc =>
      split
      · exact aligned_nextSubnet h hc hp
      · exact ⟨hc, hp⟩
    · trivial
  | create network attempt ip =>
    unfold next
    dsimp only
    split
    · trivial
    split
    · split
      · split <;> trivial
      · trivial
    · trivial
  | returned result => trivial

theorem invariant (h : MaskFits pool) {s : Pool Shared Point}
    (hs : (program pool).system.Reachable s) :
    Program.Holds (Stored pool) (fun _ p => p.Tries ∧ p.Walks pool) s := by
  refine Program.holds (M := program pool) (G := fun _ _ => True) ?_ ?_ ?_ ?_
    (hs.guarded fun _ _ => trivial)
  · rintro s rfl name a hget
    cases hget
  · intro s i o p hs hi hen _
    obtain ⟨htri, hwal⟩ := hs.2 p (mem_of_getElem? hi)
    exact ⟨stored_effect hs.1 hwal, ⟨(next_tries h htri hen).1, walks_next h hwal⟩,
      fun _ hq => (nomatch hq)⟩
  · intro s i o p q j hs _ _ _ _ hj
    exact hs.2 q (mem_of_getElem? hj)
  intro s e t new hs he _
  cases he with
  | call network =>
    refine ⟨hs.1, fun q hq => ?_, hs.2⟩
    rw [mem_singleton.1 hq]
    unfold allocateSubnet
    split
    · exact ⟨trivial, trivial⟩
    all_goals exact ⟨Nat.succ_pos 9, trivial⟩
  | other name a hfree ha =>
    refine ⟨stored_add hs.1 fun htrue => ?_, fun _ hq => (nomatch hq), hs.2⟩
    rw [ha] at htrue
    cases htrue
  | delete name =>
    exact ⟨fun j a hget => hs.1 j a (GoMap.get_of_get_delete hget), fun _ hq => (nomatch hq),
      hs.2⟩

def Returns (pool : PoolSpec) (o : Answer) (s : Shared) (p : Point) (sub : Subnet) : Prop :=
  (program pool).enabled s p ∧ next pool o s p = .returned (.ok sub)

theorem Returns.cases {sub : Subnet} (h : Returns pool o s p sub) :
    ∃ network attempt ip, p = .create network attempt ip ∧
      validName (subnetName ip) = true ∧ s.allocations.get (subnetName ip) = none ∧
      sub = ⟨ip, pool.subnetMask⟩ := by
  obtain ⟨hen, hnext⟩ := h
  cases p with
  | list network attempt =>
    unfold next at hnext
    dsimp only at hnext
    split at hnext <;> cases hnext
  | scan network attempt used curr =>
    unfold next at hnext
    dsimp only at hnext
    split at hnext
    · split at hnext <;> cases hnext
    · cases hnext
  | create network attempt ip =>
    unfold next at hnext
    dsimp only at hnext
    split at hnext
    · cases hnext
    split at hnext
    · next hname =>
      split at hnext
      · split at hnext <;> cases hnext
      next hfree =>
      cases hnext
      exact ⟨network, attempt, ip, rfl, hname, Option.not_isSome_iff_eq_none.1 hfree, rfl⟩
    · cases hnext
  | returned result => exact absurd rfl (hen result)

structure Sound (pool : PoolSpec) (s : Pool Shared Point) : Prop where
  ends : ∀ p ∈ s.threads, (program pool).Ends p
  within : ∀ p ∈ s.threads, ∀ o sub, Returns pool o s.shared p sub → sub.Within pool.cidr
  disjoint : ∀ p ∈ s.threads, ∀ o sub, Returns pool o s.shared p sub →
    ∀ name a, s.shared.allocations.get name = some a → a.fromPool = true → a.cidr.Disjoint sub

theorem sound_of_fits (h : MaskFits pool) {s : Pool Shared Point}
    (hs : (program pool).system.Reachable s) : Sound pool s := by
  obtain ⟨hsto, hthr⟩ := invariant h hs
  refine ⟨fun p hp => call_ends h (hthr p hp).1, fun p hp o sub hret => ?_,
    fun p hp o sub hret name a hget hpool => ?_⟩
  all_goals
    obtain ⟨network, attempt, ip, rfl, hname, hfree, rfl⟩ := hret.cases
    have hpart : Part pool ip := (hthr _ hp).2
  · exact hpart.within h hname
  obtain ⟨ip', rfl, hcidr, hpart', hname'⟩ := hsto name a hget hpool
  rw [hcidr]
  refine hpart'.disjoint h hpart hname' hname ?_
  rintro rfl
  rw [hfree] at hget
  cases hget

theorem trimPrefix_append (p s : String) : trimPrefix p (p ++ s) = s := by
  unfold trimPrefix
  rw [String.toList_append, if_pos (List.isPrefixOf_iff_prefix.2 (prefix_append ..)),
    drop_left, String.ofList_toList]

theorem validName_v4 (a : ℕ) : validName (subnetName (.v4 a)) = true := by
  have hdig : ∀ d < 16, (Nat.digitChar d).isAlphanum = true := by decide
  change (("subnet-" ++ String.ofList (lowerHex 8 a)).toList.getLast?.any Char.isAlphanum) = true
  rw [String.toList_append, String.toList_ofList (l := lowerHex 8 a), lowerHex,
    ← append_assoc, getLast?_concat]
  exact hdig _ (Nat.mod_lt a (by decide))

section Unfit

variable {n : IPv4Net} {mask : Int}

theorem creating_reachable : (program ⟨.v4 n, mask⟩).system.Reachable
    ⟨{ allocations := GoMap.empty }, [.create "" 0 (.v4 n.base)]⟩ := by
  have hinit : (program ⟨.v4 n, mask⟩).system.Reachable ⟨{ allocations := GoMap.empty }, []⟩ :=
    .init ⟨rfl, rfl⟩
  have hcall : (program ⟨.v4 n, mask⟩).system.Reachable
      ⟨{ allocations := GoMap.empty }, [.list "" 0]⟩ :=
    hinit.step (l := .env (.call "")) (.env (.call ""))
  have hlist : (program ⟨.v4 n, mask⟩).system.Reachable
      ⟨{ allocations := GoMap.empty }, [.scan "" 0 [] (.v4 n.base)]⟩ :=
    hcall.step (Program.Step.run (M := program ⟨.v4 n, mask⟩) (i := 0) (c := {})
      (p := .list "" 0) rfl fun _ => nofun)
  have hnext : next ⟨.v4 n, mask⟩ {} { allocations := GoMap.empty } (.scan "" 0 [] (.v4 n.base)) =
      .create "" 0 (.v4 n.base) := if_pos n.contains_base
  rw [← hnext]
  exact hlist.step (Program.Step.run (M := program ⟨.v4 n, mask⟩) (i := 0) (c := {})
    (p := .scan "" 0 [] (.v4 n.base)) rfl fun _ => nofun)

theorem returns_base : Returns ⟨.v4 n, mask⟩ {} { allocations := GoMap.empty }
    (.create "" 0 (.v4 n.base)) ⟨.v4 n.base, mask⟩ :=
  ⟨fun _ => nofun, if_pos (validName_v4 _)⟩

theorem ones_le_of_within (h : (⟨.v4 n.base, mask⟩ : Subnet).Within (.v4 n)) :
    (n.ones : Int) ≤ mask ∧ mask ≤ 32 := by
  obtain ⟨net, hnet, hwit⟩ := h
  unfold Subnet.net at hnet
  split at hnet
  · next a mask' heq =>
    cases heq
    split at hnet
    · next hval =>
      cases hnet
      refine ⟨Int.le_of_not_gt fun hgt => ?_, hval.2.2⟩
      have hones := n.ones_le
      let net : IPv4Net := ⟨n.base, mask.toNat, hval.1, by omega⟩
      have hfst : n.Contains net.base := hwit _ net.contains_base
      have hpos := net.size_pos
      have hlast : n.Contains (net.base + net.size - 1) :=
        hwit _ (net.contains_iff.2 (by omega))
      rw [n.contains_iff] at hfst hlast
      have hlar : n.size < net.size :=
        Nat.pow_lt_pow_right Nat.one_lt_two (show 32 - n.ones < 32 - mask.toNat by omega)
      omega
    · cases hnet
  · cases hnet

theorem exists_ever (pool : PoolSpec) (names : List String) :
    ∃ s, (program pool).system.Reachable s ∧ s.threads = [] ∧ ∀ x ∈ names, x ∈ s.shared.ever := by
  induction names with
  | nil =>
    exact ⟨⟨{ allocations := GoMap.empty }, []⟩, .init ⟨rfl, rfl⟩, rfl, fun _ hx => (nomatch hx)⟩
  | cons name names ih =>
    obtain ⟨⟨s, threads⟩, hs, rfl, hever⟩ := ih
    have hdel := hs.step (Program.Step.env (M := program pool) (Env.delete name))
    have hoth := hdel.step (Program.Step.env (M := program pool)
      (Env.other name ⟨"", ⟨.v6, 0⟩, false⟩ (by rw [GoMap.get_delete, if_pos rfl]) rfl))
    refine ⟨_, hoth, rfl, fun x hx => ?_⟩
    obtain rfl | hx := mem_cons.1 hx
    · exact mem_append_right _ (mem_singleton_self _)
    · exact mem_append_left _ (hever x hx)

theorem not_ends_scan (hones : n.ones = 0) {taken : List String}
    (htak : ∀ a < 2 ^ 32, Ipam.ipToHex a ∈ taken) {a : ℕ} (ha : a < 2 ^ 32) :
    ¬ (program ⟨.v4 n, mask⟩).Ends (.scan "" 0 taken (.v4 a)) := by
  have hall : ∀ a < 2 ^ 32, n.Contains a := by
    have hbase : n.size = 2 ^ 32 := by rw [IPv4Net.size, hones]
    have hlast := n.base_add_size_le
    intro a ha
    exact n.contains_iff.2 (by omega)
  refine not_ends (I := fun p => ∃ a < 2 ^ 32, p = .scan "" 0 taken (.v4 a)) ?_ ⟨a, ha, rfl⟩
  rintro _ ⟨a, ha, rfl⟩
  refine ⟨{}, { allocations := GoMap.empty }, fun _ => nofun, add32 a (stride mask), add32_lt ..,
    ?_⟩
  have hc : Contains (.v4 n) (.v4 a) := hall a ha
  change (if Contains (.v4 n) (.v4 a) then if Ipam.ipToHex a ∈ taken then _ else _ else _) = _
  rw [if_pos hc, if_pos (htak a ha)]
  rfl

theorem exists_not_ends (hones : n.ones = 0) :
    ∃ s, (program ⟨.v4 n, mask⟩).system.Reachable s ∧
      ∃ p ∈ s.threads, ¬ (program ⟨.v4 n, mask⟩).Ends p := by
  obtain ⟨names, hnam⟩ : ∃ names, ∀ a < 2 ^ 32, subnetName (.v4 a) ∈ names :=
    ⟨(List.range (2 ^ 32)).map fun a => subnetName (.v4 a),
      fun a ha => List.mem_map.2 ⟨a, mem_range.2 ha, rfl⟩⟩
  obtain ⟨⟨s, threads⟩, hs, rfl, hever⟩ := exists_ever ⟨.v4 n, mask⟩ names
  have hcall := hs.step (Program.Step.env (M := program ⟨.v4 n, mask⟩) (Env.call ""))
  have hlist := hcall.step (Program.Step.run (M := program ⟨.v4 n, mask⟩) (i := 0)
    (c := ⟨none, names⟩) (p := .list "" 0) rfl fun _ => nofun)
  refine ⟨_, hlist, _, mem_cons_self, not_ends_scan hones (fun a ha => ?_) n.base_lt⟩
  have hmem := hnam a ha
  exact List.mem_map.2 ⟨_, mem_filter.2 ⟨hmem, decide_eq_true (hever _ hmem)⟩,
    trimPrefix_append ..⟩

theorem fits_of_sound
    (h : ∀ s, (program ⟨.v4 n, mask⟩).system.Reachable s → Sound ⟨.v4 n, mask⟩ s) :
    1 ≤ n.ones ∧ n.ones ≤ mask ∧ mask ≤ 32 := by
  obtain ⟨hle, hmask⟩ := ones_le_of_within
    ((h _ creating_reachable).within _ (mem_singleton_self _) _ _ returns_base)
  refine ⟨Nat.one_le_iff_ne_zero.2 fun hones => ?_, hle, hmask⟩
  obtain ⟨s, hs, p, hp, hends⟩ : ∃ s, (program ⟨.v4 n, mask⟩).system.Reachable s ∧
      ∃ p ∈ s.threads, ¬ (program ⟨.v4 n, mask⟩).Ends p := exists_not_ends hones
  exact hends ((h s hs).ends p hp)

end Unfit

def SoundRuns (pool : PoolSpec) : Prop :=
  ∀ s, (program pool).system.Reachable s → Sound pool s

theorem allocateSubnet_sound_iff (pool : PoolSpec) : SoundRuns pool ↔ MaskFits pool := by
  constructor
  · intro h n hn
    obtain ⟨cidr, mask⟩ := pool
    cases hn
    exact fits_of_sound h
  · exact fun h _ hs => sound_of_fits h hs

def unfitPool : PoolSpec := ⟨.v4 tenWideNet, 40⟩

theorem second_call_endless : ∃ s, (program unfitPool).system.Reachable s ∧
    s.threads = [.returned (.ok ⟨.v4 0x0a000000, 40⟩),
      .scan "b" 0 ["0a000000"] (.v4 0x0a000000)] ∧
    ¬ (⟨.v4 0x0a000000, 40⟩ : Subnet).Within unfitPool.cidr ∧
    ¬ (program unfitPool).Ends (.scan "b" 0 ["0a000000"] (.v4 0x0a000000)) := by
  have hinit : ((program unfitPool).system.guard (Program.onlyIf fun _ _ => True)).Reachable
      ⟨{ allocations := GoMap.empty }, []⟩ := .init ⟨rfl, rfl⟩
  have hcal := reachable_env (reachable_env hinit (Env.call "a")) (Env.call "b")
  obtain ⟨s, hs, hthr⟩ := exists_of_exec (Q := fun s =>
    s.threads = [.returned (.ok ⟨.v4 0x0a000000, 40⟩),
      .scan "b" 0 ["0a000000"] (.v4 0x0a000000)]) hcal
    [(0, {}), (0, {}), (0, {}), (1, ⟨none, ["subnet-0a000000"]⟩)] (by decide +kernel)
  refine ⟨s, hs.of_guard, hthr, ?_, ?_⟩
  · rintro ⟨net, hnet, -⟩
    cases hnet
  refine not_ends (I := (· = .scan "b" 0 ["0a000000"] (.v4 0x0a000000))) ?_ rfl
  rintro _ rfl
  exact ⟨{}, { allocations := GoMap.empty }, fun _ => nofun, by decide +kernel⟩

end LatticeMesh.Ipam.Subnets
