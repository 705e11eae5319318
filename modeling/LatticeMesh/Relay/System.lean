import LatticeMesh.Relay.QuicServer
import LatticeMesh.Relay.RoutingTables

/-! # The relay as a whole -/

namespace LatticeMesh.Relay

open Bytes

def Stream.conn : Stream → ConnRef
  | .readWriter c | .quicControl c => c

inductive Phase where
  | fresh
  | tcp (h : Handler) (sess : Option SessionRef)
  | quicAuth (fromId : UInt64) (ch : Challenge)
  | quicControl (fromId : UInt64) (pending : Option Challenge) (sess : Option SessionRef)
  | closed

structure InFlight where
  src : ConnRef
  fromId : UInt64
  toID : UInt64
  frame : List UInt8
  snap : SessionManager.Snapshot
  deriving DecidableEq

structure Delivery where
  src : ConnRef
  fromId : UInt64
  toID : UInt64
  frame : List UInt8
  conn : ConnRef

structure System where
  routing : Routing
  phase : ConnRef → Phase
  datagrams : ConnRef → Option UInt64
  inFlight : List InFlight
  delivered : List Delivery
  proved : List (ConnRef × UInt64)

namespace System

def start (cfg : ServerConfig) : System where
  routing := .start cfg.requirePeerAuth
  phase _ := .fresh
  datagrams _ := none
  inFlight := []
  delivered := []
  proved := []

def call (st : System) (c : Call) : System := { st with routing := st.routing.exec c }

def setPhase (st : System) (c : ConnRef) (p : Phase) : System :=
  { st with phase := Function.update st.phase c p }

def startRelay (st : System) (c : ConnRef) (fromId toID : UInt64) (frame : List UInt8) : System :=
  { st with inFlight :=
      ⟨c, fromId, toID, frame, st.routing.mgr.snapshot toID⟩ :: st.inFlight }

def reached (st : System) : SessionManager.Handoff → Option ConnRef
  | .datagram conn => some conn
  | .enqueue s => st.routing.mgr.heap[s]?.map fun x => x.stream.conn
  | .notFound => none

def deliver (st : System) (r : InFlight) : System :=
  let dest := st.reached (st.routing.mgr.handoff r.snap)
  { st with
    inFlight := st.inFlight.erase r
    delivered := (dest.map fun conn => ⟨r.src, r.fromId, r.toID, r.frame, conn⟩).toList ++
      st.delivered }

def prove (st : System) (c : ConnRef) (id : UInt64) : System :=
  { st with proved := (c, id) :: st.proved }

def perform (c : ConnRef) (fromId : UInt64) (p : System × Option SessionRef) :
    Event → System × Option SessionRef
  | .register verified =>
    let r := p.1.routing.mgr.heap.length
    ((p.1.call (.newTCPSession fromId (.readWriter c) verified)).call (.register fromId (some r)),
      some r)
  | .markVerified => (p.1.call (.markVerified fromId p.2), p.2)
  | .relay toID frame => (p.1.startRelay c fromId toID frame, p.2)
  | .unregister => (p.1.call (.unregister fromId p.2), none)
  | .header _ => p

def tcpTurn (st : System) (c : ConnRef) (h : Handler) (sess : Option SessionRef)
    (ev : List Event) : System :=
  let p := ev.foldl (perform c h.fromId) (st, sess)
  p.1.setPhase c (.tcp h p.2)

def quicServe (st : System) (c : ConnRef) (fromId : UInt64) (pending : Option Challenge)
    (register : Call) : System :=
  let st' := (st.call register).setPhase c
    (.quicControl fromId pending (some st.routing.mgr.heap.length))
  { st' with datagrams := Function.update st'.datagrams c (some fromId) }

def proofAccepted (cfg : ServerConfig) (fromId : UInt64) (pending : Option Challenge)
    (hdr : Header) (rest : List UInt8) : Bool :=
  match pending with
  | none => false
  | some ch =>
    match readFull hdr.payloadLen.toNat rest with
    | none => false
    | some (payload, _) =>
      hdr.cmd = Cmd.authResponse ∧ ch.verifyResponse cfg.x25519 fromId.toUInt32 payload = .ok ()

def proveIf (st : System) (c : ConnRef) (id : UInt64) (b : Bool) : System :=
  if b then st.prove c id else st

inductive Step (cfg : ServerConfig) (st : System) : System → Prop
  | reject {c : ConnRef} (hp : st.phase c = .fresh ∨ ∃ id ch, st.phase c = .quicAuth id ch) :
      Step cfg st (st.setPhase c .closed)
  | tcpClose {c : ConnRef} {h : Handler} {sess : Option SessionRef}
      (hp : st.phase c = .tcp h sess) :
      Step cfg st ((st.call (.unregister h.fromId sess)).setPhase c .closed)
  | quicClose {c : ConnRef} {fromId : UInt64} {pending : Option Challenge}
      {sess : Option SessionRef} (hp : st.phase c = .quicControl fromId pending sess) :
      Step cfg st ((st.call (.unregister fromId sess)).setPhase c .closed)
  | tcpRegister {c : ConnRef} {input rest : List UInt8} {challenge : Option Challenge}
      {fromId : UInt64} {h : Handler} {ev : List Event} (hp : st.phase c = .fresh)
      (hr : readRegister cfg input = some (fromId, rest))
      (ha : startSession cfg fromId challenge = some (h, ev)) :
      Step cfg st (st.tcpTurn c h none ev)
  | tcpFrame {c : ConnRef} {h h' : Handler} {sess : Option SessionRef}
      {headBuf rest rest' : List UInt8} {hdr : Header} {ev : List Event}
      (hp : st.phase c = .tcp h sess) (hu : unmarshal headBuf = .ok hdr)
      (hi : iterate cfg h headBuf hdr rest = .again h' rest' ev) :
      Step cfg st ((st.proveIf c h.fromId (proofAccepted cfg h.fromId h.pending hdr rest)).tcpTurn
        c h' sess ev)
  | quicRegister {c : ConnRef} {input rest : List UInt8} {pending : Option Challenge}
      {fromId : UInt64} (hlenient : cfg.requirePeerAuth = false) (hp : st.phase c = .fresh)
      (hr : readRegister cfg input = some (fromId, rest)) :
      Step cfg st (st.quicServe c fromId pending (.registerQUIC fromId (.quicControl c) (some c)))
  | quicChallenge {c : ConnRef} {input rest : List UInt8} {ch : Challenge} {fromId : UInt64}
      (hstrict : cfg.requirePeerAuth = true) (hp : st.phase c = .fresh)
      (hr : readRegister cfg input = some (fromId, rest)) :
      Step cfg st (st.setPhase c (.quicAuth fromId ch))
  | quicProof {c : ConnRef} {input rest : List UInt8} {ch : Challenge} {fromId : UInt64}
      (hp : st.phase c = .quicAuth fromId ch)
      (hr : readAuthResponse cfg fromId (some ch) input = .ok rest) :
      Step cfg st ((st.prove c fromId).quicServe c fromId none
        (.registerQUICVerified fromId (.quicControl c) (some c)))
  | quicControl {c : ConnRef} {rest rest' : List UInt8} {hdr : Header} {fromId : UInt64}
      {pending : Option Challenge} {sess : Option SessionRef}
      (hp : st.phase c = .quicControl fromId pending sess)
      (hc : controlFrame cfg fromId pending hdr rest = .again rest') :
      Step cfg st st
  | quicVerified {c : ConnRef} {rest rest' : List UInt8} {hdr : Header} {fromId : UInt64}
      {pending : Option Challenge} {sess : Option SessionRef}
      (hp : st.phase c = .quicControl fromId pending sess)
      (hc : controlFrame cfg fromId pending hdr rest = .verified rest') :
      Step cfg st
        (((st.proveIf c fromId (proofAccepted cfg fromId pending hdr rest)).call
          (.markVerified fromId sess)).setPhase c (.quicControl fromId none sess))
  | datagram {c : ConnRef} {fromId toID : UInt64} {data frame : List UInt8}
      (hd : st.datagrams c = some fromId)
      (hr : relayDatagram fromId data = some (toID, frame)) :
      Step cfg st (st.startRelay c fromId toID frame)
  | datagramEnd {c : ConnRef} {fromId : UInt64} (hd : st.datagrams c = some fromId) :
      Step cfg st { st with datagrams := Function.update st.datagrams c none }
  | deliver {r : InFlight} (hr : r ∈ st.inFlight) : Step cfg st (st.deliver r)
  | resume (i : Nat) : Step cfg st (st.call (.resume i))

def system (cfg : ServerConfig) : LTS System Unit where
  init st := st = start cfg
  step st _ st' := Step cfg st st'

end System

end LatticeMesh.Relay
