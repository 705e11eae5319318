import LatticeMesh.Lib.Noninterference
import LatticeMesh.Relay.Client
import LatticeMesh.Transport.ProbeFactory

/-! # What the dialers tell other peers -/

namespace LatticeMesh.Transport.Signaling

open Agent Option

structure Record extends Peer where
  name : String := ""
  interfaceName : String := ""
  platform : String := ""
  description : String := ""
  networkId : String := ""
  createdBy : String := ""
  userId : UInt64 := 0
  hostname : String := ""
  remove : Bool := false
  persistentKeepalive : Int := 0
  peerID : UInt64 := 0
  replacePeers : Bool := false
  port : Int := 0
  groupName : String := ""
  version : UInt64 := 0
  lastUpdatedAt : String := ""
  token : String := ""
  relayURL : String := ""
  enforcerMode : String := ""
  tier : String := ""
  approvalStatus : String := ""
  labels : List (String × String) := []
  advertisedRoutes : List String := []
  deriving DecidableEq

def Record.withoutSecrets (r : Record) : Record :=
  { r with privateKey := "", presharedKey := "", token := "", relayURL := "" }

structure Stored extends Record where
  noPrivateKey : privateKey = ""
  noPresharedKey : presharedKey = ""

def Record.scrubbed (peer : Record) : Stored :=
  if h : peer.privateKey ≠ "" ∨ peer.presharedKey ≠ "" then
    { toRecord := { peer with privateKey := "", presharedKey := "" }
      noPrivateKey := rfl
      noPresharedKey := rfl }
  else
    { toRecord := peer
      noPrivateKey := not_not.1 (not_or.1 h).1
      noPresharedKey := not_not.1 (not_or.1 h).2 }

structure Store where
  peers : GoMap String Stored
  byID : GoMap PeerID Stored

namespace Store

variable (parseKey : String → Option Key) (s : Store)

def new : Store := ⟨.empty, .empty⟩

def addPeer (appId : String) (peer : Record) : Store where
  peers := s.peers.set appId peer.scrubbed
  byID := match PeerManager.keyID parseKey peer.publicKey with
    | some id => s.byID.set id peer.scrubbed
    | none => s.byID

def removePeer (appId : String) : Store where
  peers := s.peers.delete appId
  byID := match (s.peers.get appId).bind fun peer => PeerManager.keyID parseKey peer.publicKey with
    | some id => s.byID.delete id
    | none => s.byID

def getIdentity (id : PeerID) : Option PeerIdentity :=
  match s.byID.get id with
  | none => none
  | some peer =>
    if peer.publicKey = "" then none
    else (parseKey peer.publicKey).map fun key => ⟨peer.appID, key⟩

end Store

def signalingPeer (lp : Stored) : Record := { lp.toRecord with token := "", relayURL := "" }

def getLocalPeer (localId : PeerIdentity) (s : Store) : Option Record :=
  (s.peers.get localId.appID).map fun stored =>
    let lp := signalingPeer stored
    match lp.address with
    | some address => if lp.allowedIPs = "" then { lp with allowedIPs := hostRoute address } else lp
    | none => lp

def onPeerReceived (parseKey : String → Option Key) (s : Store) (peer : Record) : Store :=
  match s.peers.get peer.appID with
  | some existing =>
    if existing.allowedIPs = "" then s.addPeer parseKey peer.appID peer
    else s.addPeer parseKey peer.appID
      { peer with allowedIPs := mergeAllowedIPs existing.allowedIPs peer.allowedIPs }
  | none => s.addPeer parseKey peer.appID peer

structure Handshake extends Agent.Handshake where
  timestamp : Int
  attemptID : String
  deriving DecidableEq

structure Offer extends Agent.Offer where
  ufrag : String
  pwd : String
  tieBreaker : UInt64 := 0
  candidate : String
  vip : String := ""
  publicKey : String
  deriving DecidableEq

structure Packet where
  type : PacketType
  dialer : DialerType
  senderID : UInt64
  handshake : Option Handshake := none
  offer : Option Offer := none
  answer : Option Offer := none
  message : Option (List UInt8) := none
  deriving DecidableEq

def Packet.signal (p : Packet) : SignalPacket where
  type := p.type
  dialer := p.dialer
  senderID := p.senderID
  handshake := p.handshake.map (·.toHandshake)
  offer := p.offer.map (·.toOffer)
  message := p.message

structure Wire where
  marshalPeer : Option Record → Option (List UInt8)
  unmarshalPeer : List UInt8 → Option Record
  marshalPacket : Packet → Option (List UInt8)
  parseKey : String → Option Key
  keyText : Key → String
  unmarshalCandidate : String → Option String

inductive Via where
  | nats
  | relay

structure Transmission where
  via : Via
  dest : PeerID
  data : List UInt8

def second : Int := 1000000000

structure Env where
  now : Int
  natsUp : Bool
  natsOk : Bool
  stalled : Bool
  relayUp : Bool
  relayOk : Bool
  agent : Option (String × String)
  credentials : Bool
  gathers : Bool
  addsRemote : Bool
  deriving DecidableEq

def sendFrom (env : Env) (dest : PeerID) (data : List UInt8) : List Transmission × Bool :=
  let nats := if env.natsUp then [⟨.nats, dest, data⟩] else []
  let natsOk := env.natsUp && env.natsOk
  if natsOk && !env.stalled then (nats, true)
  else if !env.relayUp || data.length > Relay.maxProbePayload then (nats, natsOk)
  else (nats ++ [⟨.relay, dest, data⟩], natsOk || env.relayOk)

def sendMarshalled (w : Wire) (env : Env) (dest : PeerID) (p : Packet) : List Transmission × Bool :=
  match w.marshalPacket p with
  | none => ([], false)
  | some data => sendFrom env dest data

def selfDescription (w : Wire) (env : Env) (lp : Option Record) : Handshake where
  timestamp := env.now / second
  peerInfo := (lp.bind fun lp => w.marshalPeer (some lp)).getD []
  isUpgradeProbe := false
  attemptID := ""

structure Outcome (δ : Type) where
  store : Store
  dialer : δ
  sent : List Transmission := []
  crashed : Bool := false

structure IceDialer where
  remoteId : PeerIdentity
  closed : Bool := false
  agent : Option (String × String) := none
  credentialsInited : Bool := false
  rUfrag : String := ""
  rPwd : String := ""
  gathered : Bool := false
  offerReady : Bool := false
  loops : Bool := false
  pendingCandidates : List String := []
  gatheredCandidates : List String := []
  remoteCandidates : List String := []

namespace IceDialer

variable (w : Wire) (localId : PeerIdentity) (env : Env)

def packet (d : IceDialer) (lp : Option Record) (type : PacketType) (candidate : Option String) :
    Option Packet :=
  match type with
  | .handshakeSyn | .handshakeAck =>
    some ⟨type, .ice, localId.id, some (selfDescription w env lp), none, none, none⟩
  | .offer =>
    match d.agent, candidate with
    | some (ufrag, pwd), some c =>
      if env.credentials then
        some ⟨type, .ice, localId.id, none,
          some ⟨⟨(w.marshalPeer lp).getD [], ""⟩, ufrag, pwd, 0, c, "", w.keyText localId.publicKey⟩,
          none, none⟩
      else none
    | _, _ => none
  | _ => some ⟨type, .ice, localId.id, none, none, none, none⟩

def sendPacket (d : IceDialer) (s : Store) (type : PacketType) (candidate : Option String) :
    List Transmission × Bool :=
  if d.closed then ([], true)
  else
    match d.packet w localId env (getLocalPeer localId s) type candidate with
    | none => ([], false)
    | some p => sendMarshalled w env d.remoteId.id p

def extract (d : IceDialer) (s : Store) (info : List UInt8) : Outcome IceDialer :=
  if info = [] ∨ d.credentialsInited then ⟨s, d, [], false⟩
  else
    match w.unmarshalPeer info with
    | none => ⟨s, { d with credentialsInited := true }, [], false⟩
    | some peer =>
      ⟨onPeerReceived w.parseKey s peer, { d with credentialsInited := true }, [], false⟩

def replay (d : IceDialer) (pending : List String) : IceDialer :=
  { d with
    remoteCandidates := if env.addsRemote then d.remoteCandidates ++ pending else d.remoteCandidates
    offerReady := d.offerReady || !pending.isEmpty }

def answerSyn (d : IceDialer) (s : Store) : Outcome IceDialer :=
  match env.agent with
  | none => ⟨s, d, [], false⟩
  | some agent =>
    let withAgent := { d with agent := some agent, pendingCandidates := [] }
    let ack := withAgent.sendPacket w localId env s .handshakeAck none
    if !ack.2 then ⟨s, withAgent, ack.1, false⟩
    else if !d.gathered && !env.gathers then ⟨s, { withAgent with gathered := true }, ack.1, false⟩
    else ⟨s, replay env { withAgent with gathered := true } d.pendingCandidates, ack.1, false⟩

def takeCredentials (d : IceDialer) (offer : Offer) : IceDialer :=
  if d.rUfrag = "" then { d with rUfrag := offer.ufrag, rPwd := offer.pwd } else d

def takeOffer (d : IceDialer) (s : Store) (offer : Offer) : Outcome IceDialer :=
  let known := (d.takeCredentials offer).extract w s offer.current
  let d := { known.dialer with credentialsInited := true }
  match w.unmarshalCandidate offer.candidate with
  | none => ⟨known.store, d, [], false⟩
  | some c =>
    match d.agent with
    | none => ⟨known.store, { d with pendingCandidates := d.pendingCandidates ++ [c] }, [], false⟩
    | some _ =>
      if env.addsRemote then
        let d := { d with remoteCandidates := d.remoteCandidates ++ [c], offerReady := true }
        ⟨known.store, d, [], false⟩
      else ⟨known.store, d, [], false⟩

def handle (d : IceDialer) (s : Store) (p : Packet) : Outcome IceDialer :=
  match p.type with
  | .handshakeAck =>
    if (p.handshake.any (·.isUpgradeProbe)) || d.closed || d.agent.isNone then ⟨s, d, [], false⟩
    else
      let known := d.extract w s ((p.handshake.map (·.peerInfo)).getD [])
      ⟨known.store, { known.dialer with loops := false, gathered := true }, [], false⟩
  | .handshakeSyn =>
    if (p.handshake.any (·.isUpgradeProbe)) || d.closed then ⟨s, d, [], false⟩
    else
      let known := d.extract w s ((p.handshake.map (·.peerInfo)).getD [])
      match known.dialer.agent with
      | some _ =>
        ⟨known.store, known.dialer,
          (known.dialer.sendPacket w localId env known.store .handshakeAck none).1, false⟩
      | none => known.dialer.answerSyn w localId env known.store
  | .offer | .answer =>
    if d.closed then ⟨s, d, [], false⟩
    else
      match p.offer with
      | none => ⟨s, d, [], true⟩
      | some offer =>
        if offer.attemptID ≠ "" then ⟨s, d, [], false⟩ else d.takeOffer w env s offer
  | _ => ⟨s, d, [], false⟩

def prepare (d : IceDialer) (s : Store) : Outcome IceDialer :=
  if d.remoteId.id < localId.id then
    match d.agent with
    | some _ =>
      ⟨s, { d with loops := true }, (d.sendPacket w localId env s .handshakeSyn none).1, false⟩
    | none =>
      match env.agent with
      | none => ⟨s, d, [], false⟩
      | some agent =>
        let d' := replay env { d with agent := some agent, pendingCandidates := [], gathered := true }
          d.pendingCandidates
        if !d.gathered && !env.gathers then ⟨s, d', [], false⟩
        else
          ⟨s, { d' with loops := true }, (d'.sendPacket w localId env s .handshakeSyn none).1, false⟩
  else
    ⟨s, { d with loops := true }, (d.sendPacket w localId env s .restartNotify none).1, false⟩

def tick (d : IceDialer) (s : Store) : List Transmission :=
  if !d.loops then []
  else if d.remoteId.id < localId.id then (d.sendPacket w localId env s .handshakeSyn none).1
  else if d.offerReady || d.closed then []
  else (d.sendPacket w localId env s .restartNotify none).1

def onCandidate (d : IceDialer) (s : Store) (c : String) : Outcome IceDialer :=
  let d := { d with gatheredCandidates := d.gatheredCandidates ++ [c] }
  ⟨s, d, (d.sendPacket w localId env s .offer (some c)).1, false⟩

def resend (d : IceDialer) (s : Store) (c : String) : List Transmission :=
  if c ∈ d.gatheredCandidates then (d.sendPacket w localId env s .offer (some c)).1 else []

def close (d : IceDialer) : IceDialer := { d with closed := true, loops := false, agent := none }

end IceDialer

def relaySynGrace : Int := 5 * second

structure RelayDialer where
  remoteId : PeerIdentity
  relay : Bool
  active : Bool := false
  activeAt : Int := 0
  ready : Bool := false
  loops : Bool := false

namespace RelayDialer

variable (w : Wire) (localId : PeerIdentity) (env : Env)

def sendPacket (d : RelayDialer) (s : Store) (type : PacketType) : List Transmission × Bool :=
  match type with
  | .handshakeSyn | .handshakeAck =>
    sendMarshalled w env d.remoteId.id ⟨type, .relay, localId.id,
      some (selfDescription w env (getLocalPeer localId s)), none, none, none⟩
  | _ => sendMarshalled w env d.remoteId.id ⟨type, .relay, localId.id, none, none, none, none⟩

def sendOfferFromRelay (d : RelayDialer) (s : Store) (type : PacketType) : Outcome RelayDialer :=
  match w.marshalPeer (getLocalPeer localId s) with
  | none => ⟨s, d, [], false⟩
  | some current =>
    let offer : Offer := ⟨⟨current, ""⟩, "", "", 0, "", "", w.keyText localId.publicKey⟩
    match w.marshalPacket ⟨type, .relay, localId.id, none, some offer, none, none⟩ with
    | none => ⟨s, d, [], false⟩
    | some data =>
      if d.relay then ⟨s, d, [⟨.relay, d.remoteId.id, data⟩], false⟩ else ⟨s, d, [], true⟩

def learn (s : Store) (info : List UInt8) : Store :=
  if info = [] then s
  else
    match w.unmarshalPeer info with
    | none => s
    | some peer => onPeerReceived w.parseKey s peer

def activate (d : RelayDialer) : RelayDialer :=
  { d with active := true, activeAt := env.now, loops := false, ready := true }

def handle (d : RelayDialer) (s : Store) (p : Packet) : Outcome RelayDialer :=
  match p.type with
  | .handshakeSyn =>
    if p.handshake.any (·.isUpgradeProbe) then ⟨s, d, [], false⟩
    else
      let s := learn w s ((p.handshake.map (·.peerInfo)).getD [])
      if d.active && !(env.now - d.activeAt < relaySynGrace) then
        ⟨s, { d with active := false }, [], false⟩
      else ⟨s, d, (d.sendPacket w localId env s .handshakeAck).1, false⟩
  | .handshakeAck =>
    let s := learn w s ((p.handshake.map (·.peerInfo)).getD [])
    if d.remoteId.id < localId.id then
      { d with loops := false }.sendOfferFromRelay w localId s .offer
    else ⟨s, { d with loops := false }, [], false⟩
  | .offer =>
    match p.offer with
    | none => ⟨s, d, [], true⟩
    | some offer =>
      match w.unmarshalPeer offer.current with
      | none => ⟨s, d, [], false⟩
      | some peer =>
        (d.activate env).sendOfferFromRelay w localId (onPeerReceived w.parseKey s peer) .answer
  | .answer =>
    match p.offer with
    | none => ⟨s, d, [], true⟩
    | some offer =>
      match w.unmarshalPeer offer.current with
      | none => ⟨s, d, [], false⟩
      | some peer => ⟨onPeerReceived w.parseKey s peer, d.activate env, [], false⟩
  | _ => ⟨s, d, [], false⟩

def prepare (d : RelayDialer) (s : Store) : Outcome RelayDialer :=
  ⟨s, { d with loops := true }, (d.sendPacket w localId env s .handshakeSyn).1, false⟩

def tick (d : RelayDialer) (s : Store) : List Transmission :=
  if d.loops then (d.sendPacket w localId env s .handshakeSyn).1 else []

def close (d : RelayDialer) : RelayDialer := { d with loops := false }

end RelayDialer

structure Node where
  localId : PeerIdentity
  store : Store
  ices : List IceDialer
  relays : List RelayDialer
  probes : GoMap String (Nat × Nat)
  crashed : Bool

def Node.new (publicKey : Key → Key) (appID : String) (privateKey : Key) : Node where
  localId := ⟨appID, publicKey privateKey⟩
  store := .new
  ices := []
  relays := []
  probes := .empty
  crashed := false

inductive Event where
  | addPeer (peer : Record)
  | removePeer (appId : String)
  | newDialers (remoteId : PeerIdentity) (relay : Bool)
  | removeProbe (appId : String)
  | prepareIce (i : Nat) (env : Env)
  | tickIce (i : Nat) (env : Env)
  | candidate (i : Nat) (c : String) (env : Env)
  | resend (i : Nat) (c : String) (env : Env)
  | closeIce (i : Nat)
  | prepareRelay (i : Nat) (env : Env)
  | tickRelay (i : Nat) (env : Env)
  | closeRelay (i : Nat)
  | receive (senderID : PeerID) (p : Packet) (relay : Bool) (env : Env)
  deriving DecidableEq

def Event.withoutSecrets : Event → Event
  | .addPeer peer => .addPeer peer.withoutSecrets
  | e => e

namespace Node

variable (w : Wire)

def newDialers (n : Node) (remoteId : PeerIdentity) (relay : Bool) : Node :=
  { n with
    ices := n.ices ++ [{ remoteId }]
    relays := n.relays ++ [{ remoteId, relay }]
    probes := n.probes.set remoteId.appID (n.ices.length, n.relays.length) }

def iceDone (n : Node) (i : Nat) (o : Outcome IceDialer) : Node × List Transmission :=
  ({ n with store := o.store, ices := n.ices.set i o.dialer, crashed := o.crashed }, o.sent)

def relayDone (n : Node) (i : Nat) (o : Outcome RelayDialer) : Node × List Transmission :=
  ({ n with store := o.store, relays := n.relays.set i o.dialer, crashed := o.crashed }, o.sent)

def onIce (n : Node) (i : Nat) (call : IceDialer → Store → Outcome IceDialer) :
    Node × List Transmission :=
  match n.ices[i]? with
  | none => (n, [])
  | some d => n.iceDone i (call d n.store)

def onRelay (n : Node) (i : Nat) (call : RelayDialer → Store → Outcome RelayDialer) :
    Node × List Transmission :=
  match n.relays[i]? with
  | none => (n, [])
  | some d => n.relayDone i (call d n.store)

def handle (n : Node) (probe : Nat × Nat) (p : Packet) (env : Env) : Node × List Transmission :=
  if p.signal.isUpgradeSignal then (n, [])
  else
    match p.dialer with
    | .ice => n.onIce probe.1 fun d s => d.handle w n.localId env s p
    | .relay => n.onRelay probe.2 fun d s => d.handle w n.localId env s p
    | .other _ => (n, [])

def receive (n : Node) (senderID : PeerID) (p : Packet) (relay : Bool) (env : Env) :
    Node × List Transmission :=
  match n.store.getIdentity w.parseKey senderID with
  | none => (n, [])
  | some remoteId =>
    match n.probes.get remoteId.appID with
    | some probe => n.handle w probe p env
    | none =>
      (n.newDialers remoteId relay).handle w (n.ices.length, n.relays.length) p env

def react (n : Node) : Event → Node × List Transmission
  | .addPeer peer => ({ n with store := n.store.addPeer w.parseKey peer.appID peer }, [])
  | .removePeer appId => ({ n with store := n.store.removePeer w.parseKey appId }, [])
  | .newDialers remoteId relay => (n.newDialers remoteId relay, [])
  | .removeProbe appId => ({ n with probes := n.probes.delete appId }, [])
  | .prepareIce i env => n.onIce i fun d s => d.prepare w n.localId env s
  | .tickIce i env => n.onIce i fun d s => ⟨s, d, d.tick w n.localId env s, false⟩
  | .candidate i c env => n.onIce i fun d s => d.onCandidate w n.localId env s c
  | .resend i c env => n.onIce i fun d s => ⟨s, d, d.resend w n.localId env s c, false⟩
  | .closeIce i => n.onIce i fun d s => ⟨s, d.close, [], false⟩
  | .prepareRelay i env => n.onRelay i fun d s => d.prepare w n.localId env s
  | .tickRelay i env => n.onRelay i fun d s => ⟨s, d, d.tick w n.localId env s, false⟩
  | .closeRelay i => n.onRelay i fun d s => ⟨s, d.close, [], false⟩
  | .receive senderID p relay env => n.receive w senderID p relay env

section

-- the equations are derived once, before the proofs
attribute [local simp] react

end

def step (n : Node) (e : Event) : Node × List Transmission :=
  if n.crashed then (n, []) else n.react w e

end Node

def node (w : Wire) : Machine Node Event Transmission := ⟨Node.step w⟩

structure Store.Alike (s t : Store) : Prop where
  peers (a : String) : (s.peers.get a).map (·.withoutSecrets) =
    (t.peers.get a).map (·.withoutSecrets)
  byID (id : PeerID) : (s.byID.get id).map (·.withoutSecrets) =
    (t.byID.get id).map (·.withoutSecrets)

theorem scrubbed_withoutSecrets (peer : Record) :
    peer.scrubbed.withoutSecrets = peer.withoutSecrets := by
  unfold Record.scrubbed
  split <;> rfl

theorem signalingPeer_eq (lp : Stored) : signalingPeer lp = lp.withoutSecrets := by
  obtain ⟨⟨⟨appID, address, endpoint, publicKey, privateKey, presharedKey, allowedIPs⟩⟩, h₁, h₂⟩ := lp
  cases (h₁ : privateKey = "")
  cases (h₂ : presharedKey = "")
  rfl

theorem alike_cases {o o' : Option Stored}
    (h : o.map (·.withoutSecrets) = o'.map (·.withoutSecrets)) :
    (o = none ∧ o' = none) ∨
      ∃ r r' : Stored, o = some r ∧ o' = some r' ∧ r.withoutSecrets = r'.withoutSecrets := by
  cases o with
  | none => exact .inl ⟨rfl, map_eq_none_iff.1 h.symm⟩
  | some r =>
    obtain ⟨r', hr', heq⟩ := map_eq_some_iff.1 h.symm
    exact .inr ⟨r, r', rfl, hr', heq.symm⟩

namespace Store.Alike

variable {parseKey : String → Option Key} {s t : Store}

theorem refl (s : Store) : s.Alike s := ⟨fun _ => rfl, fun _ => rfl⟩

theorem addPeer (h : s.Alike t) (a : String) {r r' : Record}
    (hr : r.withoutSecrets = r'.withoutSecrets) :
    (s.addPeer parseKey a r).Alike (t.addPeer parseKey a r') where
  peers b := by
    unfold Store.addPeer
    simp only [GoMap.get_set]
    split
    · simp only [map_some, scrubbed_withoutSecrets, hr]
    · exact h.peers b
  byID id := by
    have hkey : r.publicKey = r'.publicKey := congrArg (·.publicKey) hr
    unfold Store.addPeer
    rw [hkey]
    cases PeerManager.keyID parseKey r'.publicKey with
    | none => exact h.byID id
    | some k =>
      simp only [GoMap.get_set]
      split
      · simp only [map_some, scrubbed_withoutSecrets, hr]
      · exact h.byID id

theorem removePeer (h : s.Alike t) (a : String) :
    (s.removePeer parseKey a).Alike (t.removePeer parseKey a) where
  peers b := by
    unfold Store.removePeer
    simp only [GoMap.get_delete]
    split
    · rfl
    · exact h.peers b
  byID id := by
    have hkey : ((s.peers.get a).bind fun peer => PeerManager.keyID parseKey peer.publicKey) =
        (t.peers.get a).bind fun peer => PeerManager.keyID parseKey peer.publicKey := by
      obtain ⟨hs, ht⟩ | ⟨r, r', hs, ht, hr⟩ := alike_cases (h.peers a)
      · rw [hs, ht]
      · rw [hs, ht]
        exact congrArg (fun p => PeerManager.keyID parseKey p.publicKey) hr
    unfold Store.removePeer
    rw [hkey]
    split
    · simp only [GoMap.get_delete]
      split
      · rfl
      · exact h.byID id
    · exact h.byID id

theorem getIdentity (h : s.Alike t) (id : PeerID) :
    s.getIdentity parseKey id = t.getIdentity parseKey id := by
  unfold Store.getIdentity
  obtain ⟨hs, ht⟩ | ⟨r, r', hs, ht, hr⟩ := alike_cases (h.byID id)
  · rw [hs, ht]
  have hkey : r.publicKey = r'.publicKey := congrArg (·.publicKey) hr
  have happ : r.appID = r'.appID := congrArg (·.appID) hr
  rw [hs, ht]
  simp only [hkey, happ]

theorem getLocalPeer (h : s.Alike t) (localId : PeerIdentity) :
    getLocalPeer localId s = getLocalPeer localId t := by
  unfold Signaling.getLocalPeer
  obtain ⟨hs, ht⟩ | ⟨r, r', hs, ht, hr⟩ := alike_cases (h.peers localId.appID)
  · rw [hs, ht]
  · rw [hs, ht, map_some, map_some, signalingPeer_eq, signalingPeer_eq, hr]

theorem onPeerReceived (h : s.Alike t) (peer : Record) :
    (onPeerReceived parseKey s peer).Alike (onPeerReceived parseKey t peer) := by
  unfold Signaling.onPeerReceived
  obtain ⟨hs, ht⟩ | ⟨r, r', hs, ht, hr⟩ := alike_cases (h.peers peer.appID)
  · rw [hs, ht]
    exact h.addPeer _ rfl
  have hips : r.allowedIPs = r'.allowedIPs := congrArg (·.allowedIPs) hr
  rw [hs, ht]
  simp only [hips]
  split <;> exact h.addPeer _ rfl

end Store.Alike

structure Outcome.Alike {δ : Type} (o o' : Outcome δ) : Prop where
  store : o.store.Alike o'.store
  dialer : o.dialer = o'.dialer
  sent : o.sent = o'.sent
  crashed : o.crashed = o'.crashed

section Dialers

variable {w : Wire} {localId : PeerIdentity} {env : Env} {s t : Store} (h : s.Alike t)
include h

namespace IceDialer

variable (d : IceDialer)

theorem sendPacket_alike (type : PacketType) (c : Option String) :
    d.sendPacket w localId env s type c = d.sendPacket w localId env t type c := by
  unfold sendPacket
  rw [h.getLocalPeer]

theorem extract_alike (info : List UInt8) : (d.extract w s info).Alike (d.extract w t info) := by
  unfold extract
  split
  · exact ⟨h, rfl, rfl, rfl⟩
  cases w.unmarshalPeer info with
  | none => exact ⟨h, rfl, rfl, rfl⟩
  | some peer => exact ⟨h.onPeerReceived peer, rfl, rfl, rfl⟩

theorem answerSyn_alike :
    (d.answerSyn w localId env s).Alike (d.answerSyn w localId env t) := by
  unfold answerSyn
  cases env.agent with
  | none => exact ⟨h, rfl, rfl, rfl⟩
  | some agent =>
    dsimp only
    rw [sendPacket_alike h]
    (repeat' split) <;> exact ⟨h, rfl, rfl, rfl⟩

theorem takeOffer_alike (offer : Offer) :
    (d.takeOffer w env s offer).Alike (d.takeOffer w env t offer) := by
  have hkno := extract_alike (w := w) h (d.takeCredentials offer) offer.current
  unfold takeOffer
  dsimp only
  rw [hkno.dialer]
  (repeat' split) <;> exact ⟨hkno.store, rfl, rfl, rfl⟩

theorem handle_alike (p : Packet) :
    (d.handle w localId env s p).Alike (d.handle w localId env t p) := by
  have hkno := extract_alike (w := w) h d ((p.handshake.map (·.peerInfo)).getD [])
  unfold handle
  cases p.type with
  | handshakeAck =>
    dsimp only
    rw [hkno.dialer]
    split
    · exact ⟨h, rfl, rfl, rfl⟩
    · exact ⟨hkno.store, rfl, rfl, rfl⟩
  | handshakeSyn =>
    dsimp only
    rw [hkno.dialer]
    split
    · exact ⟨h, rfl, rfl, rfl⟩
    split
    · rw [sendPacket_alike hkno.store]
      exact ⟨hkno.store, rfl, rfl, rfl⟩
    · exact answerSyn_alike hkno.store _
  | offer | answer =>
    dsimp only
    split
    · exact ⟨h, rfl, rfl, rfl⟩
    split
    · exact ⟨h, rfl, rfl, rfl⟩
    split
    · exact ⟨h, rfl, rfl, rfl⟩
    · exact takeOffer_alike h d _
  | unknown | message | restartNotify | other => exact ⟨h, rfl, rfl, rfl⟩

theorem prepare_alike : (d.prepare w localId env s).Alike (d.prepare w localId env t) := by
  unfold prepare
  dsimp only
  simp only [sendPacket_alike h]
  (repeat' split) <;> exact ⟨h, rfl, rfl, rfl⟩

theorem tick_alike : d.tick w localId env s = d.tick w localId env t := by
  unfold tick
  simp only [sendPacket_alike h]

theorem resend_alike (c : String) : d.resend w localId env s c = d.resend w localId env t c := by
  unfold resend
  simp only [sendPacket_alike h]

end IceDialer

namespace RelayDialer

variable (d : RelayDialer)

theorem sendPacket_alike (type : PacketType) :
    d.sendPacket w localId env s type = d.sendPacket w localId env t type := by
  unfold sendPacket
  rw [h.getLocalPeer]

theorem sendOfferFromRelay_alike (type : PacketType) :
    (d.sendOfferFromRelay w localId s type).Alike (d.sendOfferFromRelay w localId t type) := by
  unfold sendOfferFromRelay
  rw [h.getLocalPeer]
  dsimp only
  (repeat' split) <;> exact ⟨h, rfl, rfl, rfl⟩

theorem learn_alike (info : List UInt8) : (learn w s info).Alike (learn w t info) := by
  unfold learn
  split
  · exact h
  cases w.unmarshalPeer info with
  | none => exact h
  | some peer => exact h.onPeerReceived peer

theorem handle_alike (p : Packet) :
    (d.handle w localId env s p).Alike (d.handle w localId env t p) := by
  have hlea := learn_alike (w := w) h ((p.handshake.map (·.peerInfo)).getD [])
  unfold handle
  cases p.type with
  | handshakeSyn =>
    dsimp only
    rw [sendPacket_alike hlea]
    (repeat' split) <;> first | exact ⟨h, rfl, rfl, rfl⟩ | exact ⟨hlea, rfl, rfl, rfl⟩
  | handshakeAck =>
    dsimp only
    split
    · exact sendOfferFromRelay_alike hlea _ _
    · exact ⟨hlea, rfl, rfl, rfl⟩
  | offer =>
    dsimp only
    (repeat' split) <;> first | exact ⟨h, rfl, rfl, rfl⟩ |
      exact sendOfferFromRelay_alike (h.onPeerReceived _) _ _
  | answer =>
    dsimp only
    (repeat' split) <;> first | exact ⟨h, rfl, rfl, rfl⟩ | exact ⟨h.onPeerReceived _, rfl, rfl, rfl⟩
  | unknown | message | restartNotify | other => exact ⟨h, rfl, rfl, rfl⟩

theorem prepare_alike : (d.prepare w localId env s).Alike (d.prepare w localId env t) :=
  ⟨h, rfl, congrArg Prod.fst (sendPacket_alike h d _), rfl⟩

theorem tick_alike : d.tick w localId env s = d.tick w localId env t := by
  unfold tick
  rw [sendPacket_alike h]

end RelayDialer

end Dialers

theorem Event.alike_cases {e e' : Event} (h : e.withoutSecrets = e'.withoutSecrets) :
    (∃ r r', e = .addPeer r ∧ e' = .addPeer r' ∧ r.withoutSecrets = r'.withoutSecrets) ∨
      e = e' := by
  cases e with
  | addPeer r =>
    cases e' with
    | addPeer r' => exact .inl ⟨r, r', rfl, rfl, Event.addPeer.inj h⟩
    | _ => cases h
  | _ =>
    cases e' with
    | addPeer r' => cases h
    | _ => exact .inr h

namespace Node

structure Alike (n m : Node) : Prop where
  store : n.store.Alike m.store
  rest : { n with store := m.store } = m

def SameReaction (a b : Node × List Transmission) : Prop := a.1.Alike b.1 ∧ a.2 = b.2

variable {w : Wire} {n m : Node}

theorem Alike.withStore {s t : Store} (h : s.Alike t) (n : Node) :
    Alike { n with store := s } { n with store := t } := ⟨h, rfl⟩

theorem onIce_alike {s t : Store} (h : s.Alike t) (i : ℕ)
    {call : IceDialer → Store → Outcome IceDialer}
    (hcall : ∀ d : IceDialer, (call d s).Alike (call d t)) :
    SameReaction ({ n with store := s }.onIce i call) ({ n with store := t }.onIce i call) := by
  unfold onIce
  dsimp only
  split
  · exact ⟨.withStore h n, rfl⟩
  next d _ =>
  have hd := hcall d
  unfold iceDone
  rw [hd.dialer, hd.crashed]
  exact ⟨⟨hd.store, rfl⟩, hd.sent⟩

theorem onRelay_alike {s t : Store} (h : s.Alike t) (i : ℕ)
    {call : RelayDialer → Store → Outcome RelayDialer}
    (hcall : ∀ d : RelayDialer, (call d s).Alike (call d t)) :
    SameReaction ({ n with store := s }.onRelay i call) ({ n with store := t }.onRelay i call) := by
  unfold onRelay
  dsimp only
  split
  · exact ⟨.withStore h n, rfl⟩
  next d _ =>
  have hd := hcall d
  unfold relayDone
  rw [hd.dialer, hd.crashed]
  exact ⟨⟨hd.store, rfl⟩, hd.sent⟩

theorem handle_alike {s t : Store} (h : s.Alike t) (probe : ℕ × ℕ) (p : Packet) (env : Env) :
    SameReaction ({ n with store := s }.handle w probe p env)
      ({ n with store := t }.handle w probe p env) := by
  unfold handle
  split
  · exact ⟨.withStore h n, rfl⟩
  cases p.dialer with
  | ice => exact onIce_alike h _ fun d => d.handle_alike h p
  | relay => exact onRelay_alike h _ fun d => d.handle_alike h p
  | other => exact ⟨.withStore h n, rfl⟩

theorem receive_alike {s t : Store} (h : s.Alike t) (senderID : PeerID) (p : Packet) (relay : Bool)
    (env : Env) : SameReaction ({ n with store := s }.receive w senderID p relay env)
      ({ n with store := t }.receive w senderID p relay env) := by
  unfold receive
  dsimp only
  rw [h.getIdentity]
  split
  · exact ⟨.withStore h n, rfl⟩
  split
  · exact handle_alike h _ p env
  · next remoteId _ _ _ => exact handle_alike (n := n.newDialers remoteId relay) h _ p env

theorem react_alike {s t : Store} (h : s.Alike t) (e : Event) :
    SameReaction ({ n with store := s }.react w e) ({ n with store := t }.react w e) := by
  cases e with
  | addPeer peer => exact ⟨.withStore (h.addPeer _ rfl) n, rfl⟩
  | removePeer appId => exact ⟨.withStore (h.removePeer appId) n, rfl⟩
  | newDialers remoteId relay => exact ⟨.withStore h (n.newDialers remoteId relay), rfl⟩
  | removeProbe appId => exact ⟨⟨h, rfl⟩, rfl⟩
  | prepareIce i env => exact onIce_alike h i fun d => d.prepare_alike h
  | tickIce i env => exact onIce_alike h i fun d => ⟨h, rfl, d.tick_alike h, rfl⟩
  | candidate i c env =>
    exact onIce_alike h i fun d =>
      ⟨h, rfl, congrArg Prod.fst (IceDialer.sendPacket_alike h _ _ _), rfl⟩
  | resend i c env => exact onIce_alike h i fun d => ⟨h, rfl, d.resend_alike h c, rfl⟩
  | closeIce i => exact onIce_alike h i fun d => ⟨h, rfl, rfl, rfl⟩
  | prepareRelay i env => exact onRelay_alike h i fun d => d.prepare_alike h
  | tickRelay i env => exact onRelay_alike h i fun d => ⟨h, rfl, d.tick_alike h, rfl⟩
  | closeRelay i => exact onRelay_alike h i fun d => ⟨h, rfl, rfl, rfl⟩
  | receive senderID p relay env => exact receive_alike h senderID p relay env

theorem addPeer_alike {s t : Store} (h : s.Alike t) {r r' : Record}
    (hr : r.withoutSecrets = r'.withoutSecrets) :
    SameReaction ({ n with store := s }.react w (.addPeer r))
      ({ n with store := t }.react w (.addPeer r')) := by
  have happ : r.appID = r'.appID := congrArg (·.appID) hr
  refine ⟨⟨?_, rfl⟩, rfl⟩
  show (s.addPeer _ r.appID r).Alike (t.addPeer _ r'.appID r')
  rw [happ]
  exact h.addPeer _ hr

theorem step_alike (h : n.Alike m) {e e' : Event} (he : e.withoutSecrets = e'.withoutSecrets) :
    SameReaction (n.step w e) (m.step w e') := by
  have hcra : m.crashed = n.crashed := (congrArg Node.crashed h.rest).symm
  unfold step
  rw [hcra]
  split
  · exact ⟨h, rfl⟩
  rw [← h.rest]
  obtain ⟨r, r', rfl, rfl, hr⟩ | rfl := Event.alike_cases he
  · exact addPeer_alike (n := n) h.store hr
  · exact react_alike (n := n) h.store e

end Node

theorem node_unwinding (w : Wire) :
    (node w).Unwinding Node.Alike fun e e' => e.withoutSecrets = e'.withoutSecrets where
  state h he := (Node.step_alike h he).1
  outputs h he := (Node.step_alike h he).2

/-- **Secrets stay at home.** Two runs of a node whose private keys have one public key, and whose
records differ in private keys, preshared keys, tokens and relay URLs only, send the same bytes. -/
theorem signaling_independent_of_secrets (w : Wire) (publicKey : Key → Key) (appID : String)
    {k k' : Key} (hkey : publicKey k = publicKey k') {es es' : List Event}
    (hes : es.map Event.withoutSecrets = es'.map Event.withoutSecrets) :
    ((node w).run (.new publicKey appID k) es).2 =
      ((node w).run (.new publicKey appID k') es').2 := by
  have hst : (Node.new publicKey appID k).Alike (.new publicKey appID k') := by
    unfold Node.new
    rw [hkey]
    exact ⟨.refl _, rfl⟩
  have heve : List.Forall₂ (fun e e' : Event => e.withoutSecrets = e'.withoutSecrets) es es' := by
    have heq : List.Forall₂ (· = ·) (es.map Event.withoutSecrets) (es'.map Event.withoutSecrets) := by
      rw [hes]
      exact List.forall₂_refl _
    rwa [List.forall₂_map_left_iff, List.forall₂_map_right_iff] at heq
  exact (node_unwinding w).run hst heve

def plainRecord (r : Record) : List UInt8 := Text.ascii <|
  r.appID ++ "," ++ r.allowedIPs ++ "," ++ r.privateKey ++ "," ++ r.presharedKey ++ "," ++
    r.token ++ "," ++ r.relayURL

def plainWire : Wire where
  marshalPeer := fun lp => some ((lp.map plainRecord).getD [])
  unmarshalPeer := fun _ => none
  marshalPacket := fun p => some ((p.handshake.map (·.peerInfo)).getD [])
  parseKey := fun _ => none
  keyText := fun _ => ""
  unmarshalCandidate := some

def clampedKey (k : Key) : Key := k.modify 0 (· &&& 248)

def goodEnv : Env := ⟨0, true, true, false, true, true, some ("u", "p"), true, true, true⟩

def introduction (privateKey token relayURL : String) : List Event :=
  let record : Record :=
    { appID := "a", address := some "10.0.0.1", endpoint := "", publicKey := "", privateKey,
      presharedKey := "", allowedIPs := "", token, relayURL }
  [.addPeer record, .newDialers ⟨"b", [7]⟩ true, .prepareRelay 0 goodEnv,
    .addPeer { record with presharedKey := token, allowedIPs := "10.0.0.1/32,fd00::1/128" },
    .tickRelay 0 goodEnv]

theorem introductions_alike :
    ((node plainWire).run (.new clampedKey "a" [17]) (introduction "k" "t" "wss://relay?token=t")).2 =
        ((node plainWire).run (.new clampedKey "a" [18]) (introduction "l" "u" "")).2 ∧
      ((node plainWire).run (.new clampedKey "a" [17])
          (introduction "k" "t" "wss://relay?token=t")).2.map (·.data) =
        [Text.ascii "a,10.0.0.1/32,,,,", Text.ascii "a,10.0.0.1/32,fd00::1/128,,,,"] :=
  ⟨signaling_independent_of_secrets plainWire clampedKey "a" (by decide) (by decide), by decide⟩

end LatticeMesh.Transport.Signaling
