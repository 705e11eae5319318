import LatticeMesh.Netmap.Message
import LatticeMesh.Netmap.Overlay6

/-! # The netmap builder -/

namespace LatticeMesh.Netmap

open Firewall Registry Text

structure Content where
  current : Peer
  network : Network
  policies : List Policy
  rules : FirewallRule

structure Library (ν : Type) where
  case : Casing
  unmarshalRoutes : String → Option (List String)
  unmarshalLabels : String → Labels
  unmarshalSpec : String → Option PolicySpec
  parseCIDR : String → Bool
  isIPv6 : String → Bool
  hash : Content → ν

variable {ν : Type}

def Library.parseIP (lib : Library ν) (s : String) : Bool := (parseIPv4 s).isSome || lib.isIPv6 s

structure NetmapBuilder where
  relayURL : String
  selfRelayURL : String
  providerLive : Option (String → Bool)
  ipv6Enabled : Bool
  ipv6Egress : Option (String → Bool)

def Contains (s part : String) : Prop := part.toList <:+: s.toList

instance (s part : String) : Decidable (Contains s part) := inferInstanceAs (Decidable (_ <:+: _))

def Tokenised (url : String) : Prop := Contains url "?token=" ∨ Contains url "&token="

instance (url : String) : Decidable (Tokenised url) := inferInstanceAs (Decidable (_ ∨ _))

structure Config where
  relayAdvertiseURL : String
  relayAuthToken : String
  overlayIPv6 : Bool
  presence : Option ((String → Bool) × (String → Bool))
  queryEscape : String → String

def relayURLWithToken (queryEscape : String → String) (advertise token : String) : String :=
  if token = "" ∨ Tokenised advertise then advertise
  else
    let sep := if Contains advertise "?" then "&" else "?"
    advertise ++ sep ++ "token=" ++ queryEscape token

def newPeerService (cfg : Config) : NetmapBuilder where
  relayURL := cfg.relayAdvertiseURL
  selfRelayURL :=
    if cfg.relayAdvertiseURL = "" then ""
    else relayURLWithToken cfg.queryEscape cfg.relayAdvertiseURL cfg.relayAuthToken
  providerLive := cfg.presence.map Prod.fst
  ipv6Enabled := cfg.overlayIPv6 && cfg.presence.isSome
  ipv6Egress := cfg.presence.map Prod.snd

inductive PolicyStatus where
  | pending
  | approved
  | active
  | failed
  | expired
  deriving DecidableEq

structure PolicyRecord where
  workspaceID : String
  status : PolicyStatus
  expiresAt : Option Registry.Time
  row : PolicyRow

structure IdentityRecord where
  networkID : String
  row : PeerIdentity

structure RouteSelection where
  workspaceID : String
  consumerPeerID : String
  providerPeerID : String
  deriving DecidableEq

structure Database where
  peers : PeerTable
  policies : List PolicyRecord
  identities : List IdentityRecord
  selections : List RouteSelection
  policies_unique : policies.Pairwise fun p q => p.workspaceID = q.workspaceID →
    p.row.name ≠ q.row.name
  identities_unique : identities.Pairwise fun p q => p.networkID = q.networkID →
    p.row.name ≠ q.row.name

namespace Database

variable (db : Database)

def listActiveByWorkspace (workspaceID : String) (now : Registry.Time) : List PolicyRow :=
  (db.policies.filter fun p => p.workspaceID = workspaceID ∧ p.status = .active ∧
    ∀ t ∈ p.expiresAt, now < t).map PolicyRecord.row

def listByNetwork (networkID : String) : List PeerIdentity :=
  (db.identities.filter fun p => p.networkID = networkID).map IdentityRecord.row

def listProviderIDsForConsumer (workspaceID consumerPeerID : String) : List String :=
  (db.selections.filter fun p => p.workspaceID = workspaceID ∧
    p.consumerPeerID = consumerPeerID).map RouteSelection.providerPeerID

end Database

def Approved (peer : PeerRow) : Prop :=
  peer.approvalStatus = .unset ∨ peer.approvalStatus = .approved

instance (peer : PeerRow) : Decidable (Approved peer) := inferInstanceAs (Decidable (_ ∨ _))

def Listed (row : PeerRow) : Prop := Approved row ∧ row.address ≠ ""

instance (row : PeerRow) : Decidable (Listed row) := inferInstanceAs (Decidable (_ ∧ _))

def Online (b : NetmapBuilder) (r : PeerRow) : Prop := ∀ live ∈ b.providerLive, live r.appID = true

instance (b : NetmapBuilder) (r : PeerRow) : Decidable (Online b r) :=
  inferInstanceAs (Decidable (∀ live ∈ b.providerLive, _))

def ReportsIPv6Egress (b : NetmapBuilder) (r : PeerRow) : Prop :=
  ∃ egress ∈ b.ipv6Egress, egress r.appID = true

instance (b : NetmapBuilder) (r : PeerRow) : Decidable (ReportsIPv6Egress b r) :=
  inferInstanceAs (Decidable (∃ egress ∈ b.ipv6Egress, _))

section

variable (lib : Library ν) (b : NetmapBuilder)

def parseAdvertisedRoutes (raw : String) : List String :=
  if raw = "" then []
  else match lib.unmarshalRoutes raw with
    | none => []
    | some routes => routes.filter lib.parseCIDR

def dbToInfraPeer (p : PeerRow) : Peer where
  peerID := 0
  name := p.name
  appID := p.appID
  platform := p.platform
  interfaceName := ""
  address := some p.address
  endpoint := p.endpoint
  hostname := p.hostname
  networkID := p.workspaceID
  publicKey := p.publicKey
  privateKey := ""
  allowedIPs := if lib.parseIP p.address then p.address ++ "/32" else ""
  relayURL := ""
  approvalStatus := p.approvalStatus
  labels := if p.labels = "" then .empty else lib.unmarshalLabels p.labels
  advertisedRoutes := parseAdvertisedRoutes lib p.advertisedRoutes

def toInfraPeer (p : PeerRow) : Peer :=
  let peer := dbToInfraPeer lib p
  if b.ipv6Enabled ∧ peer.allowedIPs ≠ "" then
    { peer with allowedIPs := hostAllowedIPs p.address true }
  else peer

def providerRoutes (row : PeerRow) : List String :=
  let extra := parseAdvertisedRoutes lib row.advertisedRoutes
  if b.ipv6Enabled ∧ ReportsIPv6Egress b row ∧ "0.0.0.0/0" ∈ extra then extra ++ ["::/0"]
  else extra

def Granted (providers : List String) (row : PeerRow) : Prop :=
  row.id ∈ providers ∧ Online b row

instance (providers : List String) (row : PeerRow) : Decidable (Granted b providers row) :=
  inferInstanceAs (Decidable (_ ∧ _))

def entry (providers : List String) (row : PeerRow) : Peer :=
  let p := toInfraPeer lib b row
  let p := if b.relayURL ≠ "" then { p with relayURL := b.relayURL } else p
  let extra := providerRoutes lib b row
  if Granted b providers row ∧ extra ≠ [] then
    { p with allowedIPs := join ',' (p.allowedIPs :: extra) }
  else p

def currentPeer (peer : PeerRow) : Peer :=
  let p := { toInfraPeer lib b peer with privateKey := peer.privateKey }
  if b.selfRelayURL ≠ "" then { p with relayURL := b.selfRelayURL } else p

def network (peer : PeerRow) (providers : List String) (rows : List PeerRow) : Network where
  networkID := peer.workspaceID
  networkName := peer.workspaceID
  peers := sortOn Peer.name ((rows.filter Listed).map (entry lib b providers))

def computedPeers (peer : PeerRow) (providers : List String) (rows : List PeerRow) : List Peer :=
  ((rows.filter Listed).filter fun row => row.id ≠ peer.id).map (entry lib b providers)

def resolve (peer : PeerRow) (net : Network) : Rule → List String :=
  resolveRulePeers none (net.peers.map Peer.net) peer.name

def pendingMessage (peer : PeerRow) : Message ν where
  eventType := .joinNetwork
  configVersion := none
  timestamp := 0
  current := { dbToInfraPeer lib peer with address := some "", privateKey := peer.privateKey }
  network := none
  policies := []
  computedPeers := []
  computedRules := none

end

structure Clock where
  listed : Registry.Time
  wired : Registry.Time
  ruled : Registry.Time
  sent : Registry.Time

structure Build (lib : Library ν) (b : NetmapBuilder) (db : Database) (clock : Clock)
    (peer : PeerRow) where
  rows : List PeerRow
  rows_listed : db.peers.Lists peer.workspaceID rows
  policies : List PolicyRow
  policies_listed : policies.Perm (db.listActiveByWorkspace peer.workspaceID clock.listed)
  identities : List PeerIdentity
  identities_listed : identities.Perm (db.listByNetwork peer.workspaceID)
  providers : List String
  providers_listed : providers.Perm (db.listProviderIDsForConsumer peer.workspaceID peer.id)
  wire : List Policy
  wire_eq : buildWirePolicies lib.case (newPolicyIdentityResolver identities) lib.unmarshalSpec
    policies clock.wired = some wire
  ruled : List Policy
  ruled_eq : buildWirePolicies lib.case (newPolicyIdentityResolver identities) lib.unmarshalSpec
    policies clock.ruled = some ruled
  rules : FirewallRule
  evaluates : Evaluates lib.case (resolve peer (network lib b peer providers rows)) peer.platform
    ruled rules

namespace Build

variable {lib : Library ν} {b : NetmapBuilder} {db : Database} {clock : Clock} {peer : PeerRow}

def content (x : Build lib b db clock peer) : Content where
  current := currentPeer lib b peer
  network := Netmap.network lib b peer x.providers x.rows
  policies := x.wire
  rules := x.rules

def message (x : Build lib b db clock peer) : Message ν where
  eventType := .nodeUpdate
  configVersion := some (lib.hash x.content)
  timestamp := clock.sent
  current := x.content.current
  network := some x.content.network
  policies := x.wire
  computedPeers := computedPeers lib b peer x.providers x.rows
  computedRules := some x.rules

end Build

inductive BuildError where
  | notFound
  | tokenMismatch (peer : String)
  | disabled (peer : String)
  | invalidSpec

section

variable (lib : Library ν) (b : NetmapBuilder) (db : Database) (clock : Clock)
  (appID token : String)

def Opens (peer : PeerRow) : Prop := peer.token ≠ "" ∧ token ≠ "" ∧ peer.token = token

instance (peer : PeerRow) : Decidable (Opens token peer) :=
  inferInstanceAs (Decidable (_ ∧ _ ∧ _))

inductive BuildsForAppID : Except BuildError (Message ν) → Prop
  | notFound (h : db.peers.getByAppID appID = none) : BuildsForAppID (.error .notFound)
  | tokenMismatch {peer : PeerRow} (h : db.peers.getByAppID appID = some peer)
      (ht : ¬ Opens token peer) : BuildsForAppID (.error (.tokenMismatch peer.name))
  | disabled {peer : PeerRow} (h : db.peers.getByAppID appID = some peer) (ht : Opens token peer)
      (hd : peer.disabled = true) : BuildsForAppID (.error (.disabled peer.name))
  | pending {peer : PeerRow} (h : db.peers.getByAppID appID = some peer) (ht : Opens token peer)
      (hd : peer.disabled = false) (ha : ¬ Approved peer) :
      BuildsForAppID (.ok (pendingMessage lib peer))
  | invalidSpec {peer : PeerRow} (h : db.peers.getByAppID appID = some peer)
      (ht : Opens token peer) (hd : peer.disabled = false) (ha : Approved peer)
      (hp : ∃ row ∈ db.listActiveByWorkspace peer.workspaceID clock.listed,
        lib.unmarshalSpec row.spec = none) : BuildsForAppID (.error .invalidSpec)
  | built {peer : PeerRow} (h : db.peers.getByAppID appID = some peer) (ht : Opens token peer)
      (hd : peer.disabled = false) (ha : Approved peer) (x : Build lib b db clock peer) :
      BuildsForAppID (.ok x.message)

end

section

variable {lib : Library ν} {b : NetmapBuilder} {db : Database} {clock : Clock} {peer row : PeerRow}
  {providers : List String}

theorem toInfraPeer_eq (lib : Library ν) (b : NetmapBuilder) (row : PeerRow) : ∃ allowedIPs,
    toInfraPeer lib b row = { dbToInfraPeer lib row with allowedIPs := allowedIPs } := by
  unfold toInfraPeer
  dsimp only
  split <;> exact ⟨_, rfl⟩

theorem entry_eq (lib : Library ν) (b : NetmapBuilder) (providers : List String) (row : PeerRow) :
    ∃ allowedIPs, entry lib b providers row =
      { dbToInfraPeer lib row with relayURL := b.relayURL, allowedIPs := allowedIPs } := by
  obtain ⟨host, hhost⟩ := toInfraPeer_eq lib b row
  have hrel : (if b.relayURL ≠ "" then
      { dbToInfraPeer lib row with allowedIPs := host, relayURL := b.relayURL }
      else { dbToInfraPeer lib row with allowedIPs := host }) =
      { dbToInfraPeer lib row with allowedIPs := host, relayURL := b.relayURL } := by
    split
    · rfl
    next hemp =>
    rw [not_not] at hemp
    rw [hemp]
    rfl
  unfold entry
  dsimp only
  rw [hhost, hrel]
  split <;> exact ⟨_, rfl⟩

@[simp] theorem entry_name : (entry lib b providers row).name = row.name := by
  obtain ⟨allowedIPs, h⟩ := entry_eq lib b providers row
  rw [h]
  rfl

@[simp] theorem entry_networkID : (entry lib b providers row).networkID = row.workspaceID := by
  obtain ⟨allowedIPs, h⟩ := entry_eq lib b providers row
  rw [h]
  rfl

namespace Build

variable (x : Build lib b db clock peer)

theorem mem_rows {r : PeerRow} : r ∈ x.rows ↔ r ∈ db.peers ∧ r.workspaceID = peer.workspaceID :=
  x.rows_listed.mem_iff

theorem row_eq_of_name {row r : PeerRow} (hrow : row ∈ x.rows) (hr : r ∈ db.peers)
    (hws : r.workspaceID = peer.workspaceID) (hname : row.name = r.name) : row = r := by
  obtain ⟨hmem, hroww⟩ := x.mem_rows.1 hrow
  have hid := db.peers.unique row r hmem hr (hroww.trans hws.symm) hname
  exact Option.some.inj (hmem.symm.trans (hid ▸ hr))

variable {p : Peer}

theorem mem_network : p ∈ x.content.network.peers ↔
    ∃ r ∈ x.rows, Listed r ∧ entry lib b x.providers r = p := by
  simp only [content, network, mem_sortOn, List.mem_map, List.mem_filter, decide_eq_true_eq,
    and_assoc]

theorem mem_computedPeers : p ∈ x.message.computedPeers ↔
    ∃ r ∈ x.rows, Listed r ∧ r.id ≠ peer.id ∧ entry lib b x.providers r = p := by
  simp only [message, computedPeers, List.mem_map, List.mem_filter, decide_eq_true_eq, and_assoc]

theorem mem_entries : p ∈ x.message.entries ↔
    ∃ r ∈ x.rows, Listed r ∧ entry lib b x.providers r = p := by
  unfold Message.entries
  rw [List.mem_append, mem_computedPeers]
  constructor
  · rintro (hp | ⟨r, hr, hl, -, hp⟩)
    · exact x.mem_network.1 hp
    · exact ⟨r, hr, hl, hp⟩
  · intro hp
    exact .inl (x.mem_network.2 hp)

end Build

end

end LatticeMesh.Netmap
