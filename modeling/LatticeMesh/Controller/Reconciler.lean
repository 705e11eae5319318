import LatticeMesh.Lib.LTS
import LatticeMesh.Controller.ConfigHash
import LatticeMesh.Netmap.ConfigVersion
import LatticeMesh.Netmap.Grants

/-! # The ConfigMap of a peer -/

namespace LatticeMesh.Controller

open Firewall Netmap List Function

variable {σ η : Type} {lib : Library σ η} {cluster : Cluster σ} {current : LatticePeer}

structure ConfigMap (η : Type) where
  configJSON : Message String
  configHash : η

structure ConfigState (η : Type) where
  configMap : Option (ConfigMap η)
  currentHash : Option η

def newConfigmap (lib : Library σ η) (m : Message String) : ConfigMap η :=
  ⟨m, computeMessageHash lib m⟩

def ConfigState.write (s : ConfigState η) (lib : Library σ η) (m : Message String)
    (recorded : Bool) : ConfigState η where
  configMap := some (newConfigmap lib m)
  currentHash := if recorded then some (computeMessageHash lib m) else s.currentHash

inductive LastReconcile (lib : Library σ η) (cluster : Cluster σ) (current : LatticePeer)
    (s : ConfigState η) : Bool → ConfigState η → Prop
  | create (g : Generation lib cluster current) (recorded : Bool) (h : s.configMap = none) :
      LastReconcile lib cluster current s true (s.write lib g.message recorded)
  | createFailed (h : s.configMap = none) : LastReconcile lib cluster current s false s
  | unchanged (g : Generation lib cluster current) (h : s.configMap.isSome)
      (hhash : s.currentHash = some (computeMessageHash lib g.message)) :
      LastReconcile lib cluster current s false s
  | update (g : Generation lib cluster current) (recorded : Bool) (h : s.configMap.isSome)
      (hhash : s.currentHash ≠ some (computeMessageHash lib g.message)) :
      LastReconcile lib cluster current s true (s.write lib g.message recorded)
  | updateFailed (g : Generation lib cluster current) (h : s.configMap.isSome)
      (hhash : s.currentHash ≠ some (computeMessageHash lib g.message)) :
      LastReconcile lib cluster current s false s

def Settled (lib : Library σ η) (cluster : Cluster σ) (current : LatticePeer)
    (s : ConfigState η) : Prop :=
  s.configMap.isSome ∧ ∃ g : Generation lib cluster current,
    s.currentHash = some (computeMessageHash lib g.message)

def reconciles (lib : Library σ η) (cluster : Cluster σ) (current : LatticePeer) :
    LTS (ConfigState η) Bool where
  init := Settled lib cluster current
  step := LastReconcile lib cluster current

def NeverRewrites (lib : Library σ η) (cluster : Cluster σ) (current : LatticePeer) : Prop :=
  ∀ s s' wrote, (reconciles lib cluster current).Reachable s →
    (reconciles lib cluster current).step s wrote s' → wrote = false

theorem step_settled (hstb : HashStable lib cluster current) {s s' : ConfigState η}
    {wrote : Bool} (hs : Settled lib cluster current s)
    (h : LastReconcile lib cluster current s wrote s') : wrote = false ∧ s' = s := by
  obtain ⟨hmap, g, hg⟩ := hs
  cases h with
  | create _ _ hnone | createFailed hnone =>
    rw [hnone] at hmap
    cases hmap
  | unchanged => exact ⟨rfl, rfl⟩
  | update g' _ _ hne | updateFailed g' _ hne => exact absurd (hg.trans (by rw [hstb g g'])) hne

theorem neverRewrites_iff : NeverRewrites lib cluster current ↔ HashStable lib cluster current := by
  constructor
  · intro hnev g g'
    by_contra hne
    let s : ConfigState η :=
      ⟨some (newConfigmap lib g.message), some (computeMessageHash lib g.message)⟩
    have hupd : LastReconcile lib cluster current s true (s.write lib g'.message true) :=
      .update g' true rfl fun h => hne (Option.some.inj h)
    cases hnev s _ true (.init ⟨rfl, g, rfl⟩) hupd
  intro hstb s s' wrote hrea hstep
  have hset : Settled lib cluster current s := by
    refine LTS.Reachable.invariant (fun s hs => hs) ?_ hrea
    intro s wrote t _ hs hst
    exact (step_settled hstb hs hst).2 ▸ hs
  exact (step_settled hstb hset hstep).1

/-- **Config versions**, of the standalone control plane and of the Kubernetes one. -/
theorem config_versions {ν : Type} {std : Netmap.Library ν} (hstd : Function.Injective std.hash)
    (hlib : Function.Injective lib.hash) :
    (∀ b db clock appID token, VersionStable std b db clock appID token ↔
      ∀ c, Served std db clock appID token c → OnePolicyKey std db clock c.workspaceID) ∧
    (∀ b b' db db' clock clock' appID appID' token token' m m',
      BuildsForAppID std b db clock appID token (.ok m) →
      BuildsForAppID std b' db' clock' appID' token' (.ok m') →
      m.configVersion.isSome → m.configVersion = m'.configVersion → SameNetmap m m') ∧
    ∀ cluster current,
      (HashStable lib cluster current ↔
        (NoPanic lib cluster current → OrderFree lib cluster current)) ∧
      (NeverRewrites lib cluster current ↔
        (NoPanic lib cluster current → OrderFree lib cluster current)) := by
  refine ⟨fun b db clock appID token => versionStable_iff hstd, ?_, ?_⟩
  · intro b b' db db' clock clock' appID appID' token token' m m' hm hm' hsome h
    exact sameNetmap_of_version hstd hm hm' hsome h
  · intro cluster current
    exact ⟨hashStable_iff hlib, neverRewrites_iff.trans (hashStable_iff hlib)⟩

def tableLibrary : Library Unit (Message String) where
  case := tableCase
  selector _ := some fun _ => true
  parseUint _ := 0
  shortHash _ := ""
  hash := id

def gateway (annotations : GoMap String String) : LatticePeer where
  name := "gateway"
  uid := "u1"
  labels := .empty
  annotations := annotations
  appID := "gateway"
  interfaceName := "wg0"
  platform := "linux"
  publicKey := "key-gateway"
  peerID := ""
  network := none
  allocatedAddress := some "10.0.1.1"

def gatewayCluster (annotations : GoMap String String) : Cluster Unit where
  networks := []
  peers := [gateway annotations]
  policies := []
  peers_unique := pairwise_singleton _ _
  uids_unique := pairwise_singleton _ _
  policies_unique := .nil

def twoPeerings : GoMap String String :=
  (GoMap.empty.set "alattice.io/peering-route-a" "10.0.2.0/24").set
    "alattice.io/peering-route-b" "10.0.3.0/24"

theorem noPanic_gateway (annotations : GoMap String String) :
    NoPanic tableLibrary (gatewayCluster annotations) (gateway annotations) :=
  fun _ hp => absurd hp.mem not_mem_nil

theorem orderFree_gateway :
    OrderFree tableLibrary (gatewayCluster .empty) (gateway .empty) where
  policy _ _ hp := absurd hp.mem not_mem_nil
  key := by
    rintro d k k' ⟨p, hp, -⟩
    exact absurd hp.mem not_mem_nil
  own := by
    intro k v k' v' hk
    cases hk
  routes := by
    rintro q ⟨-, -, name, hname, -⟩
    cases hname

def policyDatabase : Database :=
  { pairDatabase false with
    policies := [⟨"ws", .active, none, ⟨"web", "Allow", hostSpec⟩⟩,
      ⟨"ws", .active, none, ⟨"block", "Deny", subnetSpec⟩⟩]
    policies_unique := by
      refine pairwise_pair.2 fun _ h => ?_
      exact absurd (show "web" = "block" from h) (by decide) }

theorem config_versions_stable :
    VersionStable Netmap.tableLibrary (newPeerService (dualStack "")) (pairDatabase false)
      ⟨0, 0, 0, 0⟩ "phone" "enroll" ∧
    HashStable tableLibrary (gatewayCluster .empty) (gateway .empty) ∧
    NeverRewrites tableLibrary (gatewayCluster .empty) (gateway .empty) := by
  obtain ⟨hstd, -, hkube⟩ := @config_versions _ _ tableLibrary _ Netmap.tableLibrary
    injective_id injective_id
  obtain ⟨hstb, hnev⟩ := hkube (gatewayCluster .empty) (gateway .empty)
  refine ⟨(hstd _ _ _ _ _).2 ?_, hstb.2 fun _ => orderFree_gateway,
    hnev.2 fun _ => orderFree_gateway⟩
  rintro c -
  refine ⟨fun p hp => absurd hp not_mem_nil, ?_⟩
  rintro d k k' ⟨row, hrow, -⟩
  exact absurd hrow not_mem_nil

theorem two_orders_two_versions :
    ¬ VersionStable Netmap.tableLibrary (newPeerService (dualStack "")) policyDatabase
      ⟨0, 0, 0, 0⟩ "phone" "enroll" ∧
    ¬ HashStable tableLibrary (gatewayCluster twoPeerings) (gateway twoPeerings) ∧
    ¬ NeverRewrites tableLibrary (gatewayCluster twoPeerings) (gateway twoPeerings) := by
  have hhash : ¬ HashStable tableLibrary (gatewayCluster twoPeerings) (gateway twoPeerings) := by
    rw [hashStable_iff injective_id]
    intro hfree
    have hswap := (hfree (noPanic_gateway twoPeerings)).own "alattice.io/peering-route-a"
      "10.0.2.0/24" "alattice.io/peering-route-b" "10.0.3.0/24" (by decide +kernel)
      (by decide +kernel) (by decide +kernel) (by decide +kernel)
    exact absurd hswap (by unfold Swappable; decide +kernel)
  refine ⟨?_, hhash, fun hnev => hhash (neverRewrites_iff.1 hnev)⟩
  rw [versionStable_iff injective_id]
  intro hcond
  have hser : Served Netmap.tableLibrary policyDatabase ⟨0, 0, 0, 0⟩ "phone" "enroll" phone :=
    ⟨rfl, by decide, rfl, .inr rfl, by decide +kernel⟩
  have hone := (hcond phone hser).1 ⟨"web", "Allow", hostSpec⟩ (by decide +kernel)
    ⟨"block", "Deny", subnetSpec⟩ (by decide +kernel)
  exact absurd hone (by decide +kernel)

end LatticeMesh.Controller
