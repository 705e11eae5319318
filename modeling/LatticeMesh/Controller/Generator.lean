import LatticeMesh.Netmap.Message

/-! # The message generator of the Kubernetes control plane -/

namespace LatticeMesh.Controller

open Firewall Netmap Text

structure Library (σ η : Type) where
  case : Casing
  selector : σ → Option (Labels → Bool)
  parseUint : String → UInt64
  shortHash : String → String
  hash : Message String → η

def Library.plain : Library Unit Unit where
  case := ⟨id, id, fun a b => a == b, fun s => by simp⟩
  selector _ := none
  parseUint _ := 0
  shortHash := id
  hash _ := ()

structure LatticePeer where
  name : String
  uid : String
  labels : Labels
  annotations : GoMap String String
  appID : String
  interfaceName : String
  platform : String
  publicKey : String
  peerID : String
  network : Option String
  allocatedAddress : Option String

structure LatticeNetwork where
  name : String
  specName : String

structure PeerSelection (σ : Type) where
  peerSelector : Option σ
  ipBlock : Option String

structure PolicyRule (σ : Type) where
  selections : List (PeerSelection σ)
  ports : List NetworkPolicyPort

structure LatticePolicy (σ : Type) where
  name : String
  network : String
  peerSelector : σ
  ingress : List (PolicyRule σ)
  egress : List (PolicyRule σ)
  action : String

def LatticePolicy.rules {σ : Type} (p : LatticePolicy σ) : Direction → List (PolicyRule σ)
  | .ingress => p.ingress
  | .egress => p.egress

structure Cluster (σ : Type) where
  networks : List LatticeNetwork
  peers : List LatticePeer
  policies : List (LatticePolicy σ)
  peers_unique : peers.Pairwise fun p q => p.name ≠ q.name
  uids_unique : peers.Pairwise fun p q => p.uid ≠ q.uid
  policies_unique : policies.Pairwise fun p q => p.name ≠ q.name

variable {σ η : Type} (lib : Library σ η)

def safeKeyName (start name : String) : String :=
  if (start ++ name).length ≤ 63 then start ++ name
  else start ++ String.ofList (name.toList.take (63 - start.length - 9)) ++ "-" ++ lib.shortHash name

def networkLabelKey (networkName : String) : String :=
  "alattice.io/" ++ safeKeyName lib "network-" networkName

def Labelled (networkName : String) (p : LatticePeer) : Prop :=
  (networkLabelKey lib networkName, "true") ∈ p.labels.entries

instance (networkName : String) (p : LatticePeer) : Decidable (Labelled lib networkName p) :=
  inferInstanceAs (Decidable (_ ∈ _))

def annotationShadowAllowedIPs : String := "alattice.io/shadow-allowed-ips"

def annotationPeeringRoutePrefix : String := "alattice.io/peering-route-"

def IsPeeringRoute (e : String × String) : Prop :=
  annotationPeeringRoutePrefix.toList <+: e.1.toList ∧ e.2 ≠ ""

instance (e : String × String) : Decidable (IsPeeringRoute e) := inferInstanceAs (Decidable (_ ∧ _))

def addRoutes (allowedIPs routes : String) : String :=
  if allowedIPs = "" then routes else allowedIPs ++ "," ++ routes

def extraRoutes (order : List (String × String)) : List String :=
  (order.filter fun e => IsPeeringRoute e).map Prod.snd

def baseAllowedIPs (p : LatticePeer) : String :=
  let own := match p.allocatedAddress with
    | some address => address ++ "/32"
    | none => ""
  let shadowCIDR := (p.annotations.get annotationShadowAllowedIPs).getD ""
  if shadowCIDR = "" then own else addRoutes own shadowCIDR

def transferToPeer (p : LatticePeer) (order : List (String × String)) : Peer where
  peerID := if p.peerID = "" then 0 else lib.parseUint p.peerID
  name := p.name
  appID := if p.appID = "" then p.name else p.appID
  platform := p.platform
  interfaceName := p.interfaceName
  address := p.allocatedAddress
  endpoint := ""
  hostname := ""
  networkID := ""
  publicKey := p.publicKey
  privateKey := ""
  allowedIPs :=
    let extra := extraRoutes order
    if extra = [] then baseAllowedIPs p else addRoutes (baseAllowedIPs p) (join ',' extra)
  relayURL := ""
  approvalStatus := .unset
  labels := p.labels
  advertisedRoutes := []

structure PeerStateSnapshot (σ : Type) where
  network : Option LatticeNetwork
  policies : List (LatticePolicy σ)
  peers : List LatticePeer

def filterPoliciesForNode (listed : List (LatticePolicy σ)) (peer : LatticePeer) :
    List (LatticePolicy σ) :=
  let own := listed.filter fun p => p.network = peer.network.getD ""
  if ∀ p ∈ own, (lib.selector p.peerSelector).isSome then
    own.filter fun p => (lib.selector p.peerSelector).any fun accepts => accepts peer.labels
  else []

variable (cluster : Cluster σ) (current : LatticePeer)

def getNetwork (name : String) : Option LatticeNetwork :=
  cluster.networks.find? fun n => n.name = name

def getPeerStateSnapshot (peers : List LatticePeer) (policies : List (LatticePolicy σ)) :
    PeerStateSnapshot σ :=
  match current.network with
  | none => ⟨none, filterPoliciesForNode lib policies current, []⟩
  | some name =>
    match getNetwork cluster name with
    | none => ⟨none, [], []⟩
    | some network =>
      ⟨some network, filterPoliciesForNode lib policies current,
        peers.filter fun p => Labelled lib network.name p⟩

def ListsPeers (networkName : String) (selects : Labels → Bool) (l : List LatticePeer) : Prop :=
  l.Perm (cluster.peers.filter fun q =>
    selects q.labels ∧ (networkName = "" ∨ Labelled lib networkName q))

def found (lists : List (List LatticePeer)) : GoMap String String :=
  lists.flatten.foldl (fun m q => m.set q.uid q.name) .empty

def selectors (selections : List (PeerSelection σ)) : Option (List (Labels → Bool)) :=
  (selections.filterMap PeerSelection.peerSelector).mapM lib.selector

def PeerNamesByLabels (networkName : String) (selections : List (PeerSelection σ))
    (names : Option (List String)) : Prop :=
  match selectors lib selections with
  | none => names = none
  | some all => ∃ lists order, all.Forall₂ (ListsPeers lib cluster networkName) lists ∧
      (found lists).Ranges order ∧ names = some (sortOn id (order.map Prod.snd))

def extractCIDRs (selections : List (PeerSelection σ)) : List String :=
  (selections.filterMap PeerSelection.ipBlock).filter (· ≠ "")

def LatticePolicy.wireAction (p : LatticePolicy σ) : String :=
  if p.action = "" then "ALLOW" else p.action

def wireRules (action : String) (r : PolicyRule σ) (names : Option (List String)) : List Rule :=
  match names with
  | none => []
  | some names => (wirePorts r.ports).map fun port =>
      ⟨names, extractCIDRs r.selections, [], port.protocol, port.port, action⟩

def BuildsRules (p : LatticePolicy σ) (rules : List (PolicyRule σ)) (wire : List Rule) : Prop :=
  ∃ names, rules.Forall₂ (fun r => PeerNamesByLabels lib cluster p.network r.selections) names ∧
    wire = (List.zipWith (wireRules p.wireAction) rules names).flatten

def BuildsPolicy (p : LatticePolicy σ) (wire : Policy) : Prop :=
  wire.policyName = p.name ∧ wire.action = p.wireAction ∧
    BuildsRules lib cluster p p.ingress wire.ingress ∧ BuildsRules lib cluster p p.egress wire.egress

def resolveSelectionToPeers (allPeers : List Peer) (selection : PeerSelection σ) :
    Option (List Peer) :=
  if allPeers = [] then some []
  else match selection.peerSelector with
    | none => some []
    | some s => (lib.selector s).map fun accepts => allPeers.filter fun p => accepts p.labels

def addPeers (currentName : String) (m : GoMap String Peer) (peers : List Peer) :
    GoMap String Peer :=
  (peers.filter fun p => p.name ≠ currentName).foldl (fun m p => m.set p.name p) m

def addPolicy (current : Peer) (allPeers : List Peer) (m : GoMap String Peer)
    (policy : LatticePolicy σ) : Option (GoMap String Peer) := do
  let accepts ← lib.selector policy.peerSelector
  if !accepts current.labels then
    return m
  let selections := (policy.egress ++ policy.ingress).flatMap PolicyRule.selections
  let matched ← selections.mapM (resolveSelectionToPeers lib allPeers)
  let m := addPeers current.name m matched.flatten
  return if m.toList = [] then addPeers current.name m allPeers else m

def finalPeersMap (current : Peer) (allPeers : List Peer) (policies : List (LatticePolicy σ)) :
    Option (GoMap String Peer) :=
  policies.foldlM (addPolicy lib current allPeers) .empty

def network (snapshot : PeerStateSnapshot σ) (routes : LatticePeer → List (String × String)) :
    Network :=
  match snapshot.network with
  | none => ⟨"", "", []⟩
  | some n => ⟨n.name, n.specName, sortOn Peer.name
      ((snapshot.peers.filter fun p => p.allocatedAddress.isSome).map fun p =>
        transferToPeer lib p (routes p))⟩

def resolve (current : LatticePeer) (net : Network) (rule : Rule) : List String :=
  resolveRulePeers (some fun _ => []) (net.peers.map Peer.net) current.name rule

structure Generation where
  peers : List LatticePeer
  peers_listed : peers.Perm cluster.peers
  policies : List (LatticePolicy σ)
  policies_listed : policies.Perm cluster.policies
  own : List (String × String)
  own_ranges : current.annotations.Ranges own
  routes : LatticePeer → List (String × String)
  routes_ranges : ∀ q : LatticePeer, q.annotations.Ranges (routes q)
  computed : GoMap String Peer
  computed_eq : finalPeersMap lib (transferToPeer lib current own)
    (network lib (getPeerStateSnapshot lib cluster current peers policies) routes).peers
    (getPeerStateSnapshot lib cluster current peers policies).policies = some computed
  visited : List (String × Peer)
  visited_ranges : computed.Ranges visited
  wire : List Policy
  wire_built : (getPeerStateSnapshot lib cluster current peers policies).policies.Forall₂
    (BuildsPolicy lib cluster) wire
  rules : FirewallRule
  evaluates : Evaluates lib.case (resolve current
    (network lib (getPeerStateSnapshot lib cluster current peers policies) routes))
    current.platform wire rules
  version : String
  now : Registry.Time

variable {lib cluster current}

namespace Generation

variable (g : Generation lib cluster current)

def snapshot : PeerStateSnapshot σ := getPeerStateSnapshot lib cluster current g.peers g.policies

def net : Network := network lib g.snapshot g.routes

def message : Message String where
  eventType := .nodeUpdate
  configVersion := some g.version
  timestamp := g.now
  current := transferToPeer lib current g.own
  network := some g.net
  policies := g.wire
  computedPeers := sortOn Peer.name (g.visited.map Prod.snd)
  computedRules := some g.rules

end Generation

variable (lib) in
def computeMessageHash (m : Message String) : η :=
  lib.hash { m with configVersion := none, timestamp := 0 }

end LatticeMesh.Controller
