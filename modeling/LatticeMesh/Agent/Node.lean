import LatticeMesh.Transport.ProbeFactory

/-! # The node -/

namespace LatticeMesh.Agent

open Transport

structure Overlay6 where
  hostAllowedIPs : String → Bool → String
  hostFromAllowedIPs : String → Bool

structure Node where
  factory : ProbeFactory
  current : String
  messageHandler : Bool
  netmap : List Peer

namespace Node

def startPeer (c : Codec) (n : Node) (peer : Peer) : Node × Bool :=
  match c.parseKey peer.publicKey with
  | none => (n, false)
  | some key =>
    let (f, r) := n.factory.get ⟨peer.appID, key⟩
    ({ n with factory := (f.syncAllowedIPs r peer.allowedIPs).startProbe r }, true)

def addPeer (c : Codec) (n : Node) (peer : Peer) : Node × Bool :=
  let pm := n.factory.peerManager.addPeer c.parseKey peer.appID peer
  let n := { n with factory := { n.factory with peerManager := pm }, netmap := peer :: n.netmap }
  if peer.publicKey = n.current then (n, true) else n.startPeer c peer

def removePeer (n : Node) (peer : Peer) : Node :=
  { n with factory := n.factory.remove peer.appID }

def prunePeer (c : Codec) (n : Node) (peer : Peer) : Node :=
  let f := n.factory.remove peer.appID
  { n with factory := { f with peerManager := f.peerManager.removePeer c.parseKey peer.appID } }

def prunePeersExcept (c : Codec) (n : Node) (keep : List String) : Node :=
  let all := n.factory.peerManager.peers.toList.filterMap fun e => n.factory.peerManager.heap[e.2]?
  (all.filter fun p => p.appID ∉ keep).foldl (fun n p => n.prunePeer c p) n

def addPeers (c : Codec) (n : Node) : List Peer → Node
  | [] => n
  | peer :: rest =>
    let (n', ok) := n.addPeer c peer
    if ok then n'.addPeers c rest else n'

def applyRemotePeers (c : Codec) (n : Node) (current : Peer) (computedPeers : List Peer) : Node :=
  let self := if current.appID = "" then [] else [current.appID]
  (n.prunePeersExcept c (self ++ computedPeers.map Peer.appID)).addPeers c computedPeers

def withHostRoute (address : String) (peer : Peer) : Peer :=
  if peer.allowedIPs = "" then { peer with allowedIPs := hostRoute address } else peer

def applyFullConfig (c : Codec) (n : Node) (msg : Message) : Node :=
  match msg.current with
  | none => n
  | some current =>
    match current.address with
    | none => n
    | some address =>
      if address = "" then n
      else
        let current := withHostRoute address current
        let (n', ok) := n.addPeer c current
        if ok then n'.applyRemotePeers c current msg.computedPeers else n'

def readdressed (o : Overlay6) (changes : Changes) (current : Peer) : Peer :=
  match changes.addressChanged, current.address with
  | true, some address =>
    { current with
      allowedIPs := o.hostAllowedIPs address (o.hostFromAllowedIPs current.allowedIPs) }
  | _, _ => current

def applyChanges (c : Codec) (n : Node) (changes : Changes) (current : Peer) : Node :=
  let added := changes.peersAdded.filter fun p => p.publicKey ≠ current.publicKey
  changes.peersRemoved.foldl removePeer (added.foldl (fun n p => (n.addPeer c p).1) n)

def handleEvent (c : Codec) (o : Overlay6) (n : Node) (msg : Message) : Node :=
  match msg.current with
  | none => n
  | some current =>
    match msg.changes.filter fun ch => ch.totalChanges > 0 with
    | none => n.applyFullConfig c msg
    | some changes =>
      (n.applyChanges c changes current).applyFullConfig c
        { msg with current := some (readdressed o changes current) }

def handle (c : Codec) (o : Overlay6) (n : Node) (packet : SignalPacket) : Node × Option Message :=
  if packet.type = .message then
    if n.messageHandler then
      match packet.message with
      | none => ({ n with factory := { n.factory with crashed := true } }, none)
      | some content =>
        match c.message content with
        | none => (n, none)
        | some msg => (n.handleEvent c o msg, some msg)
    else (n, none)
  else ({ n with factory := n.factory.handleSignal c packet }, none)

end Node

def keyB : Key := List.replicate 32 2

def textB : String := "AgICAgICAgICAgICAgICAgICAgICAgICAgICAgICAgI="

def peerB : Peer := ⟨"b", some "10.0.0.2", "", textB, "", "", "10.0.0.2/32"⟩

def describe (appID allowedIPs : String) : List UInt8 := Text.ascii <|
  "\x7b\"appId\":\"" ++ appID ++ "\",\"address\":\"10.0.0.2\",\"publicKey\":\"" ++ textB ++
  "\",\"allowedIps\":\"" ++ allowedIPs ++ "\"\x7d"

def infoB : List UInt8 := describe "b" "10.0.0.2/32"

def infoA : List UInt8 := describe "a" "10.0.0.2/32"

def infoExit : List UInt8 := describe "b" "0.0.0.0/0"

def describeCodec : Codec where
  packet _ := none
  peer data := if data = infoB then some peerB
    else if data = infoA then some { peerB with appID := "a" }
    else if data = infoExit then some { peerB with allowedIPs := "0.0.0.0/0" } else none
  message _ := none
  parseKey text := if text = textB then some keyB else none
  peer_nil := by decide +kernel
  parseKey_empty := by decide +kernel

def overlayB : Overlay6 where
  hostAllowedIPs v4 dual := if v4 = "10.0.0.2" then
    (if dual then "10.0.0.2/32,fd6c:7270:6c74::a00:2/128" else "10.0.0.2/32") else ""
  hostFromAllowedIPs _ := false

def fresh : Node := ⟨.new, "", true, []⟩

def netmapB : Message := ⟨some ⟨"me", some "10.0.0.1", "", "", "", "", ""⟩, none, [peerB]⟩

def knowsB : Node := fresh.applyFullConfig describeCodec netmapB

def synFromB (info : List UInt8) : SignalPacket :=
  ⟨.handshakeSyn, .relay, fromKey keyB, some ⟨info, false⟩, none, none⟩

end LatticeMesh.Agent
