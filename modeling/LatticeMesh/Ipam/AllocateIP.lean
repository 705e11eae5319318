import LatticeMesh.Ipam.Address
import LatticeMesh.Lib.GoMap
import LatticeMesh.Lib.Threads

/-! # Allocation of peer addresses -/

namespace LatticeMesh.Ipam

open List IPv4Net Program

structure Endpoint where
  name : String
  address : ℕ
  peerRef : String

def hexName (a : ℕ) : String := "ip-" ++ ipToHex a

variable {a : ℕ}

theorem hexName_inj {b : ℕ} (ha : a < 2 ^ 32) (hb : b < 2 ^ 32) (h : hexName a = hexName b) :
    a = b := ipToHex_inj ha hb (String.append_right_inj "ip-" |>.1 h)

structure Request where
  network : String
  cidr : CIDR
  peer : String
  deriving DecidableEq

namespace CIDR

def number : CIDR → ℕ
  | .v4 n => n.base
  | .v6 _ | .invalid _ => 0

def hostBits : CIDR → ℕ
  | .v4 n => 32 - n.ones
  | .v6 ones => 128 - ones
  | .invalid _ => 0

def startInt (c : CIDR) : ℕ := add32 c.number 2

def totalIPs (c : CIDR) : ℕ := shl32 c.hostBits

def endInt (c : CIDR) : ℕ := sub32 (add32 c.number c.totalIPs) 2

end CIDR

structure Answer where
  err : Option String := none
  listed : List Endpoint := []

inductive Alloc where
  | list
  | scan (used : List String) (i : ℕ)
  | returned (result : Except String ℕ)

abbrev Endpoints := GoMap String Endpoint

def claims (r : Request) (o : Answer) (endpoints : Endpoints) : Alloc → Option ℕ
  | .scan used i =>
    if i ≤ r.cidr.endInt ∧ hexName i ∉ used ∧ o.err = none ∧ endpoints.get (hexName i) = none then
      some i
    else none
  | .list | .returned _ => none

def allocateIP (r : Request) : Alloc :=
  match r.cidr with
  | .invalid err => .returned (.error ("invalid network CIDR: " ++ err))
  | .v4 _ | .v6 _ => .list

def allocNext (r : Request) (o : Answer) (endpoints : Endpoints) : Alloc → Alloc
  | .list =>
    match o.err with
    | some err => .returned (.error err)
    | none =>
      match o.listed.find? fun a => a.peerRef = r.peer with
      | some a => .returned (.ok a.address)
      | none => .scan (o.listed.map Endpoint.name) r.cidr.startInt
  | .scan used i =>
    if i ≤ r.cidr.endInt then
      if hexName i ∈ used then .scan used (add32 i 1)
      else
        match o.err with
        | some err => .returned (.error err)
        | none =>
          if (endpoints.get (hexName i)).isSome then .scan used (add32 i 1)
          else .returned (.ok i)
    else .returned (.error ("no available IP addresses in network " ++ r.network))
  | .returned result => .returned result

structure Held where
  request : Request
  addr : ℕ
  deriving DecidableEq

structure Shared where
  endpoints : Endpoints
  held : List Held := []

structure Point where
  request : Request
  pc : Alloc

namespace Shared

def claim (s : Shared) (r : Request) (a : ℕ) : Shared where
  endpoints := s.endpoints.set (hexName a) ⟨hexName a, a, r.peer⟩
  held := s.held ++ [⟨r, a⟩]

def release (s : Shared) (a : ℕ) : Shared where
  endpoints := s.endpoints.delete (hexName a)
  held := s.held.filter fun h => hexName h.addr ≠ hexName a

end Shared

def effect (o : Answer) (s : Shared) (p : Point) : Shared :=
  match claims p.request o s.endpoints p.pc with
  | some a => s.claim p.request a
  | none => s

inductive Event where
  | call (r : Request)
  | release (a : ℕ)

inductive Env (s : Shared) : Event → Shared → List Point → Prop
  | call (r : Request) : Env s (.call r) s [⟨r, allocateIP r⟩]
  | release (a : ℕ) : Env s (.release a) (s.release a) []

def program : Program Shared Point Answer Event where
  init s := s.held = []
  enabled _ p := ∀ result, p.pc ≠ .returned result
  effect := effect
  next o s p := ⟨p.request, allocNext p.request o s.endpoints p.pc⟩
  spawn _ _ _ := []
  env := Env

instance (s : Shared) : ∀ p : Point, Decidable (program.enabled s p)
  | ⟨_, .list⟩ => isTrue fun _ => nofun
  | ⟨_, .scan _ _⟩ => isTrue fun _ => nofun
  | ⟨_, .returned result⟩ => isFalse fun h => h result rfl

namespace IPv4Net

variable {n : IPv4Net}

def AtEnd (n : IPv4Net) : Prop := n.ones = 31 ∧ n.base = 2 ^ 32 - 2

instance (n : IPv4Net) : Decidable n.AtEnd := inferInstanceAs (Decidable (_ ∧ _))

theorem two_le_size (h : n.ones ≤ 31) : 2 ≤ n.size := by
  calc 2 = 2 ^ 1 := rfl
    _ ≤ n.size := Nat.pow_le_pow_right (by decide) (by omega)

theorem totalIPs_v4 (n : IPv4Net) : (CIDR.v4 n).totalIPs = n.size % 2 ^ 32 := by
  change shl32 (32 - n.ones) = 2 ^ (32 - n.ones) % 2 ^ 32
  unfold shl32
  split
  · next h => exact (Nat.mod_eq_of_lt (Nat.pow_lt_pow_right Nat.one_lt_two h)).symm
  next h =>
  have hones : n.ones = 0 := by omega
  rw [hones]
  rfl

theorem endInt_v4 (h : n.ones ≤ 31) : (CIDR.v4 n).endInt = n.base + n.size - 2 := by
  have hsize := two_le_size h
  have hlast := n.base_add_size_le
  change sub32 (add32 n.base (CIDR.v4 n).totalIPs) 2 = _
  rw [totalIPs_v4]
  unfold add32 sub32
  omega

theorem base_add_two_lt_iff (h : n.ones ≤ 31) : n.base + 2 < 2 ^ 32 ↔ ¬ n.AtEnd := by
  have hsize := two_le_size h
  have hlast := n.base_add_size_le
  unfold AtEnd
  constructor
  · rintro hlt ⟨-, hbase⟩
    omega
  intro hne
  refine Nat.lt_of_le_of_ne (by omega) fun heq => hne ⟨?_, by omega⟩
  have htwo : n.size = 2 ^ 1 := by omega
  have hbits : 32 - n.ones = 1 := Nat.pow_right_injective (Nat.le_refl 2) htwo
  omega

theorem startInt_eq_iff (h : n.ones ≤ 31) :
    (CIDR.v4 n).startInt = n.base + 2 ↔ ¬ n.AtEnd := by
  rw [← base_add_two_lt_iff h]
  change (n.base + 2) % 2 ^ 32 = n.base + 2 ↔ _
  omega

end IPv4Net

def Point.rank (p : Point) : ℕ :=
  match p.pc with
  | .list => p.request.cidr.endInt + 3
  | .scan _ i => p.request.cidr.endInt + 1 - i + 1
  | .returned _ => 0

theorem rank_scan_lt {r : Request} {used : List String} {i : ℕ}
    (hend : r.cidr.endInt + 1 < 2 ^ 32) (hi : i ≤ r.cidr.endInt) :
    (⟨r, .scan used (add32 i 1)⟩ : Point).rank < (⟨r, .scan used i⟩ : Point).rank := by
  unfold Point.rank
  rw [add32_of_lt (by omega)]
  dsimp only
  omega

section Steps

variable (r : Request) (o : Answer) (endpoints : Endpoints)

theorem allocNext_list : (∃ result, allocNext r o endpoints .list = .returned result) ∨
    ∃ used, allocNext r o endpoints .list = .scan used r.cidr.startInt := by
  unfold allocNext
  dsimp only
  split
  · exact .inl ⟨_, rfl⟩
  split
  · exact .inl ⟨_, rfl⟩
  · exact .inr ⟨_, rfl⟩

theorem allocNext_scan (used : List String) (i : ℕ) :
    (∃ result, allocNext r o endpoints (.scan used i) = .returned result) ∨
      i ≤ r.cidr.endInt ∧ allocNext r o endpoints (.scan used i) = .scan used (add32 i 1) := by
  unfold allocNext
  dsimp only
  split
  · next hi =>
    split
    · exact .inr ⟨hi, rfl⟩
    split
    · exact .inl ⟨_, rfl⟩
    split
    · exact .inr ⟨hi, rfl⟩
    · exact .inl ⟨_, rfl⟩
  · exact .inl ⟨_, rfl⟩

variable {r o endpoints} in
theorem of_claims {pc : Alloc} (h : claims r o endpoints pc = some a) :
    ∃ used, pc = .scan used a ∧ a ≤ r.cidr.endInt ∧ endpoints.get (hexName a) = none ∧
      o.err = none := by
  unfold claims at h
  split at h
  · next used i =>
    split at h
    · next hi =>
      cases h
      exact ⟨used, rfl, hi.1, hi.2.2.2, hi.2.2.1⟩
    · cases h
  · cases h
  · cases h

end Steps

variable {s : Shared} {p : Point}

theorem rank_next_lt {o : Answer} (hend : p.request.cidr.endInt + 1 < 2 ^ 32)
    (hen : program.enabled s p) :
    (program.next o s p).rank < p.rank := by
  obtain ⟨r, pc⟩ := p
  change (⟨r, allocNext r o s.endpoints pc⟩ : Point).rank < _
  cases pc with
  | list =>
    obtain ⟨result, hnext⟩ | ⟨used, hnext⟩ := allocNext_list r o s.endpoints
    all_goals
      rw [hnext]
      dsimp only [Point.rank]
      omega
  | scan used i =>
    obtain ⟨result, hnext⟩ | ⟨hi, hnext⟩ := allocNext_scan r o s.endpoints used i
    · rw [hnext]
      exact Nat.succ_pos _
    · rw [hnext]
      exact rank_scan_lt hend hi
  | returned result => exact absurd rfl (hen result)

theorem call_ends (hend : p.request.cidr.endInt + 1 < 2 ^ 32) : program.Ends p :=
  ends_of_rank (I := fun p => p.request.cidr.endInt + 1 < 2 ^ 32) Point.rank
    (fun _ _ _ hp hen => ⟨hp, rank_next_lt hp hen⟩) hend

def IPv4Net.Usable (n : IPv4Net) (a : ℕ) : Prop := n.base + 2 ≤ a ∧ a ≤ n.broadcast - 1

def Held.Endpoint (s : Shared) (h : Held) : Prop :=
  s.endpoints.get (hexName h.addr) = some ⟨hexName h.addr, h.addr, h.request.peer⟩

theorem claim_endpoint {r : Request} (hfree : s.endpoints.get (hexName a) = none)
    (hs : ∀ h ∈ s.held, h.Endpoint s) :
    ∀ h ∈ (s.claim r a).held, h.Endpoint (s.claim r a) := by
  intro h hh
  unfold Held.Endpoint Shared.claim
  rw [GoMap.get_set]
  obtain hh | hh := mem_append.1 hh
  · have hold : s.endpoints.get (hexName h.addr) = _ := hs h hh
    rw [if_neg, hold]
    intro heq
    rw [heq, hfree] at hold
    cases hold
  · rw [mem_singleton.1 hh, if_pos rfl]

theorem release_endpoint (hs : ∀ h ∈ s.held, h.Endpoint s) :
    ∀ h ∈ (s.release a).held, h.Endpoint (s.release a) := by
  intro h hh
  obtain ⟨hh, hne⟩ := mem_filter.1 hh
  unfold Held.Endpoint Shared.release
  rw [GoMap.get_delete, if_neg (of_decide_eq_true hne)]
  exact hs h hh

section Runs

variable (net : IPv4Net)

structure Good (s : Shared) : Prop where
  endpoint : ∀ h ∈ s.held, h.Endpoint s
  usable : ∀ h ∈ s.held, h.request.cidr = .v4 net → net.Usable h.addr

def Point.Started (p : Point) : Prop :=
  ∀ used i, p.pc = .scan used i → p.request.cidr = .v4 net → net.base + 2 ≤ i

variable {net} (hones : net.ones ≤ 31)
include hones

theorem endInt_lt : (CIDR.v4 net).endInt + 1 < 2 ^ 32 := by
  have hlast := net.base_add_size_le
  have hsize := two_le_size hones
  rw [endInt_v4 hones]
  omega

theorem started_next (hend : ¬ net.AtEnd) {o : Answer} (hp : p.Started net) :
    (program.next o s p).Started net := by
  obtain ⟨r, pc⟩ := p
  intro used i hpc hcidr
  change allocNext r o s.endpoints pc = .scan used i at hpc
  change r.cidr = .v4 net at hcidr
  cases pc with
  | list =>
    obtain ⟨result, hnext⟩ | ⟨used', hnext⟩ := allocNext_list r o s.endpoints
    all_goals
      rw [hnext] at hpc
      cases hpc
    rw [hcidr, (startInt_eq_iff hones).2 hend]
  | scan used' j =>
    obtain ⟨result, hnext⟩ | ⟨hj, hnext⟩ := allocNext_scan r o s.endpoints used' j
    all_goals
      rw [hnext] at hpc
      cases hpc
    have hlt := endInt_lt hones
    rw [hcidr] at hj
    rw [add32_of_lt (by omega)]
    exact Nat.le_succ_of_le (hp used j rfl hcidr)
  | returned result => cases hpc

theorem good_effect {o : Answer} (hs : Good net s) (hp : p.Started net) :
    Good net (program.effect o s p) := by
  change Good net (effect o s p)
  unfold effect
  split
  · next a hclm =>
    obtain ⟨used, hpc, hle, hfree, -⟩ := of_claims hclm
    refine ⟨claim_endpoint hfree hs.endpoint, fun h hh hcidr => ?_⟩
    obtain hh | hh := mem_append.1 hh
    · exact hs.usable h hh hcidr
    rw [mem_singleton.1 hh] at hcidr ⊢
    have hst := hp used a hpc hcidr
    have hsize := two_le_size hones
    rw [hcidr, endInt_v4 hones] at hle
    unfold IPv4Net.Usable IPv4Net.broadcast
    dsimp only
    omega
  · exact hs

theorem good_reachable (hend : ¬ net.AtEnd) {s : Pool Shared Point}
    (h : program.system.Reachable s) : Good net s.shared := by
  refine (Program.holds (M := program) (G := fun _ _ => True) (I := Good net)
    (P := fun _ => Point.Started net) ?_ ?_ ?_ ?_ (h.guarded fun _ _ => trivial)).1
  · intro s hs
    change s.held = [] at hs
    constructor <;> rw [hs] <;> exact fun _ hh => nomatch hh
  · intro s i o p hs hi _ _
    have hp := hs.2 p (mem_of_getElem? hi)
    exact ⟨good_effect hones hs.1 hp, started_next hones hend hp, fun _ hq => nomatch hq⟩
  · intro s i o p q j hs _ _ _ _ hj
    exact hs.2 q (mem_of_getElem? hj)
  intro s e t new hs he _
  cases he with
  | call r =>
    refine ⟨hs.1, fun q hq => ?_, hs.2⟩
    rw [mem_singleton.1 hq]
    intro used i hpc
    change allocateIP r = _ at hpc
    unfold allocateIP at hpc
    split at hpc <;> cases hpc
  | release a =>
    refine ⟨⟨release_endpoint hs.1.endpoint, fun h hh => ?_⟩, fun _ hq => (nomatch hq), hs.2⟩
    exact hs.1.usable h (mem_filter.1 hh).1

end Runs

structure Correct (net : IPv4Net) (s : Pool Shared Point) : Prop where
  ends : ∀ p ∈ s.threads, p.request.cidr = .v4 net → program.Ends p
  usable : ∀ h ∈ s.shared.held, h.request.cidr = .v4 net → net.Usable h.addr
  distinct : ∀ h ∈ s.shared.held, ∀ h' ∈ s.shared.held, h.request.peer ≠ h'.request.peer →
    h.addr ≠ h'.addr

theorem addr_ne_of_peer_ne {h h' : Held} (hh : h.Endpoint s) (hh' : h'.Endpoint s)
    (hne : h.request.peer ≠ h'.request.peer) : h.addr ≠ h'.addr := by
  intro heq
  unfold Held.Endpoint at hh hh'
  rw [heq, hh'] at hh
  exact hne (congrArg Endpoint.peerRef (Option.some.inj hh)).symm

def scanning (r : Request) : Pool Shared Point :=
  ⟨{ endpoints := GoMap.empty }, [⟨r, .scan [] r.cidr.startInt⟩]⟩

theorem scanning_reachable {r : Request} (hr : allocateIP r = .list) :
    program.system.Reachable (scanning r) := by
  have hinit : program.system.Reachable ⟨{ endpoints := GoMap.empty }, []⟩ := .init ⟨rfl, rfl⟩
  have hcall : program.system.Reachable ⟨{ endpoints := GoMap.empty }, [⟨r, allocateIP r⟩]⟩ :=
    hinit.step (l := .env (.call r)) (.env (.call r))
  rw [hr] at hcall
  exact hcall.step (Program.Step.run (M := program) (i := 0) (c := {}) (p := ⟨r, .list⟩) rfl
    fun _ => nofun)

theorem effect_scanning {r : Request} (hle : r.cidr.startInt ≤ r.cidr.endInt) :
    effect {} { endpoints := GoMap.empty } ⟨r, .scan [] r.cidr.startInt⟩ =
      Shared.claim { endpoints := GoMap.empty } r r.cidr.startInt := by
  have hclm : claims r {} GoMap.empty (.scan [] r.cidr.startInt) = some r.cidr.startInt :=
    if_pos ⟨hle, not_mem_nil, rfl, rfl⟩
  unfold effect
  rw [hclm]

theorem startInt_atEnd {net : IPv4Net} (hend : net.AtEnd) : (CIDR.v4 net).startInt = 0 := by
  change (net.base + 2) % 2 ^ 32 = 0
  rw [hend.2]
  rfl

theorem not_correct_atEnd {net : IPv4Net} (hend : net.AtEnd) :
    ∃ s, program.system.Reachable s ∧ ¬ Correct net s := by
  let r : Request := ⟨"", .v4 net, ""⟩
  have hst : r.cidr.startInt = 0 := startInt_atEnd hend
  have hstep : program.system.Reachable
      (program.after (scanning r) 0 {} ⟨r, .scan [] r.cidr.startInt⟩) :=
    (scanning_reachable rfl).step (Program.Step.run (M := program) rfl fun _ => nofun)
  refine ⟨_, hstep, fun hcor => ?_⟩
  have hheld : ⟨r, 0⟩ ∈ (effect {} { endpoints := GoMap.empty }
      ⟨r, .scan [] r.cidr.startInt⟩).held := by
    rw [effect_scanning (by rw [hst]; exact Nat.zero_le _), hst]
    exact mem_singleton_self _
  have hus : net.base + 2 ≤ 0 := (hcor.usable _ hheld rfl).1
  omega

theorem allocateIP_correct_iff (net : IPv4Net) (hones : net.ones ≤ 31) :
    (∀ s, program.system.Reachable s → Correct net s) ↔ ¬ net.AtEnd := by
  constructor
  · intro hcor hend
    obtain ⟨s, hs, hnot⟩ := not_correct_atEnd hend
    exact hnot (hcor s hs)
  intro hend s hs
  have hgood := good_reachable hones hend hs
  refine ⟨fun p _ hcidr => call_ends ?_, hgood.usable, fun h hh h' hh' hne => ?_⟩
  · rw [hcidr]
    exact endInt_lt hones
  · exact addr_ne_of_peer_ne (hgood.endpoint h hh) (hgood.endpoint h' hh') hne

theorem two_peers_served : ∃ s, program.system.Reachable s ∧ Correct tenNet s ∧
    s.shared.held.map (fun h => (h.request.peer, h.addr)) =
      [("a", 0x0a000002), ("b", 0x0a000003)] := by
  let a : Request := ⟨"net", .v4 tenNet, "a"⟩
  let b : Request := ⟨"net", .v4 tenNet, "b"⟩
  have hinit : (program.system.guard (Program.onlyIf fun _ _ => True)).Reachable
      ⟨{ endpoints := GoMap.empty }, []⟩ := .init ⟨rfl, rfl⟩
  have hcal := reachable_env (reachable_env hinit (Env.call a)) (Env.call b)
  obtain ⟨s, hs, hheld⟩ := exists_of_exec (Q := fun s =>
    s.shared.held.map (fun h => (h.request.peer, h.addr)) =
      [("a", 0x0a000002), ("b", 0x0a000003)]) hcal
    [(0, {}), (1, {}), (0, {}), (1, {}), (1, {})] (by decide +kernel)
  exact ⟨s, hs.of_guard, (allocateIP_correct_iff tenNet (by decide)).2 (by decide) s hs.of_guard,
    hheld⟩

def endNet : IPv4Net := ⟨0xfffffffe, 31, by decide, by decide⟩

theorem zero_address_claimed : ∃ s, program.system.Reachable s ∧
    s.shared.held.map (fun h => (h.request.peer, h.addr)) = [("a", 0)] ∧ ¬ Correct endNet s := by
  have hinit : (program.system.guard (Program.onlyIf fun _ _ => True)).Reachable
      ⟨{ endpoints := GoMap.empty }, []⟩ := .init ⟨rfl, rfl⟩
  have hcall := reachable_env hinit (Env.call ⟨"net", .v4 endNet, "a"⟩)
  obtain ⟨s, hs, hheld⟩ := exists_of_exec (Q := fun s =>
    s.shared.held = [⟨⟨"net", .v4 endNet, "a"⟩, 0⟩]) hcall [(0, {}), (0, {})] (by decide +kernel)
  refine ⟨s, hs.of_guard, by rw [hheld]; rfl, fun hcor => ?_⟩
  have hus := hcor.usable ⟨⟨"net", .v4 endNet, "a"⟩, 0⟩ (by rw [hheld]; exact .head _) rfl
  exact absurd hus.1 (by decide)

end LatticeMesh.Ipam
