import Mathlib
import LatticeMesh.Agent.ExitTakeover
import LatticeMesh.Split.CNSet

/-! # The routes of the Apple engine -/

namespace LatticeMesh.Apple

open Agent Split Text List Option

structure NetPrefix where
  is6 : Bool
  addr : ℕ
  bits : ℕ

structure Netip where
  parsePrefix : String → Option NetPrefix
  addrString : ℕ → String

inductive V6Mode where
  | off | tunnel | blackhole
  deriving DecidableEq

inductive Payload where
  | bare (routes : List String)
  | object (routes excluded : List String) (overlay6 : String)

def Payload.included : Payload → List String
  | .bare routes | .object routes _ _ => routes

structure Engine where
  exitPeerAppID : String
  exitGateClosed : Bool
  splitRouting : Bool
  tun : Option V6Mode

def exitRoute : String := "0.0.0.0/0"

def exitRoute6 : String := "::/0"

def withoutExitRoute (included : List String) : List String := included.filter (· ≠ exitRoute)

def v6ModeFor (included : List String) (hasOverlay6 : Bool) : V6Mode :=
  if !hasOverlay6 then .off
  else if exitRoute ∉ included then .off
  else if exitRoute6 ∈ included then .tunnel
  else .blackhole

def splitExcluded (included : List String) (enabled : Bool) (set : Option CNSet) (budget : Int) :
    List String :=
  match enabled, set with
  | true, some set => if exitRoute ∈ included then routes set budget else []
  | _, _ => []

def routesPayload (included excluded : List String) (overlay6 : String) : Payload :=
  if excluded = [] ∧ overlay6 = "" then .bare included else .object included excluded overlay6

def maxStaticExcludes : Int := 0

def NetPrefix.isOverlay6Host (p : NetPrefix) : Bool :=
  p.is6 && p.bits = 128 && p.addr / 2 ^ 64 = 0xfd6c72706c740000

namespace Netip

variable (net : Netip)

def isOverlay6HostRoute (cidr : String) : Bool :=
  (net.parsePrefix cidr).any NetPrefix.isOverlay6Host

def isDefaultRoute (cidr : String) : Bool := (net.parsePrefix cidr).any (·.bits = 0)

def hostFromAllowedIPs (allowed : String) : Option ℕ :=
  (((split ',' allowed).filterMap (net.parsePrefix <| trimSpace ·)).find?
    NetPrefix.isOverlay6Host).map NetPrefix.addr

def extraRoutes (p : Peer) : List String :=
  ((split ',' p.allowedIPs).map trimSpace).filter fun cidr =>
    cidr ≠ "" && cidr ≠ p.address.getD "" ++ "/32" && !net.isOverlay6HostRoute cidr

def computeExtraRoutes (peers : List Peer) : List String :=
  (peers.flatMap net.extraRoutes).dedup.insertionSort (· ≤ ·)

def currentRoutes (set : Option CNSet) (e : Engine) (peers : List Peer) (self : Option Peer) :
    Engine × Payload :=
  let routes := net.computeExtraRoutes peers
  let included := if e.exitGateClosed then withoutExitRoute routes else routes
  let v6 := self.bind fun lp => net.hostFromAllowedIPs lp.allowedIPs
  let mode := v6ModeFor included v6.isSome
  let overlay6 := if mode ≠ .off then net.addrString (v6.getD 0) else ""
  ({ e with exitPeerAppID := (exitProvider peers).getD "", tun := e.tun.map fun _ => mode },
    routesPayload included (splitExcluded included e.splitRouting set maxStaticExcludes) overlay6)

variable {net}

variable {peers : List Peer}

theorem mem_computeExtraRoutes {r : String} :
    r ∈ net.computeExtraRoutes peers ↔ ∃ p ∈ peers, r ∈ net.extraRoutes p := by
  unfold computeExtraRoutes
  rw [(perm_insertionSort _ _).mem_iff, mem_dedup, mem_flatMap]

theorem included_routesPayload (included excluded : List String) (overlay6 : String) :
    (routesPayload included excluded overlay6).included = included := by
  unfold routesPayload
  split <;> rfl

theorem v6ModeFor_eq_tunnel_iff {included : List String} {hasOverlay6 : Bool} :
    v6ModeFor included hasOverlay6 = .tunnel ↔
      hasOverlay6 = true ∧ exitRoute ∈ included ∧ exitRoute6 ∈ included := by
  unfold v6ModeFor
  cases hasOverlay6 <;> by_cases h4 : exitRoute ∈ included <;>
    by_cases h6 : exitRoute6 ∈ included <;> simp [h4, h6]

theorem mem_included_iff {set : Option CNSet} {e : Engine} {self : Option Peer} {r : String} :
    r ∈ (net.currentRoutes set e peers self).2.included ↔
      (∃ p ∈ peers, r ∈ net.extraRoutes p) ∧ (e.exitGateClosed = true → r ≠ exitRoute) := by
  rw [currentRoutes, included_routesPayload]
  split
  · next hcl =>
    rw [withoutExitRoute, mem_filter, mem_computeExtraRoutes]
    simp [hcl]
  · next hopen => rw [mem_computeExtraRoutes, and_iff_left fun h => absurd h hopen]

theorem tun_eq_tunnel_iff {set : Option CNSet} {e : Engine} {self : Option Peer} :
    (net.currentRoutes set e peers self).1.tun = some .tunnel ↔
      e.tun.isSome = true ∧ (∃ lp ∈ self, (net.hostFromAllowedIPs lp.allowedIPs).isSome = true) ∧
      exitRoute ∈ (net.currentRoutes set e peers self).2.included ∧
      exitRoute6 ∈ (net.currentRoutes set e peers self).2.included := by
  have hinc : (net.currentRoutes set e peers self).2.included =
      if e.exitGateClosed then withoutExitRoute (net.computeExtraRoutes peers)
      else net.computeExtraRoutes peers := included_routesPayload _ _ _
  rw [hinc, currentRoutes, map_eq_some_iff]
  simp only [v6ModeFor_eq_tunnel_iff, exists_and_right, isSome_iff_exists,
    bind_eq_some_iff, mem_def, @exists_comm ℕ, exists_and_left]

/-- **Routes and IPv6 mode.** They agree exactly if `::/0` is only listed by a peer while the packet
path is there, this node has an overlay address, the gate is open and a peer lists `0.0.0.0/0`, and
while the gate is closed no default route is listed in another form than that one. -/
theorem routes_agree_iff (net : Netip) (set : Option CNSet) (e : Engine) (peers : List Peer)
    (self : Option Peer) :
    ((exitRoute6 ∈ (net.currentRoutes set e peers self).2.included →
        (net.currentRoutes set e peers self).1.tun = some .tunnel) ∧
      (e.exitGateClosed = true → ∀ r ∈ (net.currentRoutes set e peers self).2.included,
        net.isDefaultRoute r = false)) ↔
    ((∃ p ∈ peers, exitRoute6 ∈ net.extraRoutes p) → e.tun.isSome = true ∧
      (∃ lp ∈ self, (net.hostFromAllowedIPs lp.allowedIPs).isSome = true) ∧
      e.exitGateClosed = false ∧ ∃ p ∈ peers, exitRoute ∈ net.extraRoutes p) ∧
    (e.exitGateClosed = true → ∀ p ∈ peers, ∀ r ∈ net.extraRoutes p,
      net.isDefaultRoute r = true → r = exitRoute) := by
  have hsix : exitRoute6 ≠ exitRoute := by decide
  refine and_congr ?_ (imp_congr_right fun hcl => ?_)
  · rw [tun_eq_tunnel_iff, mem_included_iff, mem_included_iff, and_iff_left fun _ => hsix]
    refine imp_congr_right fun hlis => and_congr_right fun _ => and_congr_right fun _ => ?_
    rw [and_iff_left hlis, and_comm]
    simp only [ne_eq, not_true_eq_false, imp_false, Bool.not_eq_true]
  constructor
  · intro h p hp r hr hdef
    by_contra hne
    exact Bool.false_ne_true ((h r (mem_included_iff.2 ⟨⟨p, hp, hr⟩, fun _ => hne⟩)).symm.trans
      hdef)
  intro h r hr
  obtain ⟨⟨p, hp, hr⟩, hne⟩ := mem_included_iff.1 hr
  exact Bool.eq_false_iff.2 fun hdef => hne hcl (h p hp r hr hdef)

def sampleNetip : Netip where
  parsePrefix s :=
    if s = "::/0" then some ⟨true, 0, 0⟩
    else if s = "fd6c:7270:6c74::a60:2/128" then
      some ⟨true, 0xfd6c72706c740000000000000a600002, 128⟩
    else none
  addrString _ := "fd6c:7270:6c74::a60:2"

theorem default_route_left_in_payload :
    let out := sampleNetip.currentRoutes none ⟨"", true, false, some .tunnel⟩
      [⟨"exit", some "10.96.0.4", "", "", "", "", "10.96.0.4/32, 0.0.0.0/0, ::/0"⟩]
      (some ⟨"me", some "10.96.0.2", "", "", "", "", "10.96.0.2/32, fd6c:7270:6c74::a60:2/128"⟩)
    out.2.included = ["::/0"] ∧ out.1.tun = some .off ∧
      sampleNetip.isDefaultRoute "::/0" = true := by
  decide +kernel

end Netip

end LatticeMesh.Apple
