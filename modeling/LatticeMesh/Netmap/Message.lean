import LatticeMesh.Firewall.Evaluator
import LatticeMesh.Registry.Store

/-! # Netmap messages -/

namespace LatticeMesh.Netmap

open Firewall Registry

structure Labels where
  entries : List (String × String)
  sorted : entries.Pairwise fun e e' => e.1 < e'.1
  deriving DecidableEq

def Labels.empty : Labels := ⟨[], .nil⟩

structure Peer where
  peerID : UInt64
  name : String
  appID : String
  platform : String
  interfaceName : String
  address : Option String
  endpoint : String
  hostname : String
  networkID : String
  publicKey : String
  privateKey : String
  allowedIPs : String
  relayURL : String
  approvalStatus : ApprovalStatus
  labels : Labels
  advertisedRoutes : List String
  deriving DecidableEq

def Peer.net (p : Peer) : NetPeer := ⟨p.name, p.address⟩

structure Network where
  networkID : String
  networkName : String
  peers : List Peer

inductive EventType where
  | joinNetwork
  | leaveNetwork
  | nodeUpdate
  | nodeAdd
  | nodeRemove
  | ipChange
  | keyChanged
  | networkChanged
  | policyChanged
  | none

structure Message (ν : Type) where
  eventType : EventType
  configVersion : Option ν
  timestamp : Registry.Time
  current : Peer
  network : Option Network
  policies : List Policy
  computedPeers : List Peer
  computedRules : Option FirewallRule

variable {ν : Type}

def Message.entries (m : Message ν) : List Peer :=
  (m.network.map Network.peers).getD [] ++ m.computedPeers

def Message.trafficRules (m : Message ν) : List TrafficRule :=
  (m.computedRules.map fun fw => fw.ingress ++ fw.egress).getD []

end LatticeMesh.Netmap
