import LatticeMesh.Transport.AllowedIPs
import LatticeMesh.Transport.Probe

/-! # The probe factory -/

namespace LatticeMesh.Transport

open Agent

abbrev ProbeRef := Nat

structure ProbeFactory where
  peerManager : PeerManager
  probes : GoMap String ProbeRef
  heap : List Probe
  installs : List Install
  crashed : Bool

namespace ProbeFactory

def new : ProbeFactory := ⟨.new, .empty, [], [], false⟩

def modify (f : ProbeFactory) (r : ProbeRef) (g : Probe → Probe) : ProbeFactory :=
  { f with heap := f.heap.modify r g }

def registerPeer (f : ProbeFactory) (r : ProbeRef) (allowedIPs : String) : ProbeFactory :=
  match f.heap[r]? with
  | none => f
  | some p =>
    if p.registered = some allowedIPs then f
    else
      { f.modify r fun p => { p with registered := some allowedIPs } with
        installs := ⟨p.remoteId.publicKey, allowedIPs, ""⟩ :: f.installs }

def endpointAllowedIPs (remotePeer : Option Peer) : String :=
  match remotePeer with
  | none => ""
  | some rp =>
    if rp.allowedIPs = "" then (rp.address.map hostRoute).getD "" else rp.allowedIPs

def setEndpoint (f : ProbeFactory) (r : ProbeRef) (endpoint : String) : ProbeFactory :=
  match f.heap[r]? with
  | none => f
  | some p =>
    { f with installs :=
        ⟨p.remoteId.publicKey, endpointAllowedIPs p.remotePeer, endpoint⟩ :: f.installs }

def onPeerKnown (f : ProbeFactory) (r : ProbeRef) (peer : Peer) : ProbeFactory :=
  match peer.address with
  | none => f
  | some address =>
    let allowedIPs := if peer.allowedIPs = "" then hostRoute address else peer.allowedIPs
    let f := f.registerPeer r allowedIPs
    match f.heap[r]? with
    | none => f
    | some p =>
      if p.peerKnownDone then f
      else
        let f := f.modify r fun p => { p with peerKnownDone := true }
        if peer.endpoint = "" then f else f.setEndpoint r peer.endpoint

def merged (f : ProbeFactory) (peer : Peer) : Peer :=
  match f.peerManager.getPeer peer.appID with
  | none => peer
  | some existing =>
    if existing.allowedIPs = "" then peer
    else { peer with allowedIPs := mergeAllowedIPs existing.allowedIPs peer.allowedIPs }

def onPeerReceived (c : Codec) (f : ProbeFactory) (r : ProbeRef) (peer : Peer) : ProbeFactory :=
  let peer := f.merged peer
  let f := { f with peerManager := f.peerManager.addPeer c.parseKey peer.appID peer }
  let f := f.modify r fun p => { p with remotePeer := some peer }
  f.onPeerKnown r peer

def newProbe (f : ProbeFactory) (remoteId : PeerIdentity) : ProbeFactory × ProbeRef :=
  ({ f with
      heap := f.heap ++ [.new remoteId]
      probes := f.probes.set remoteId.appID f.heap.length }, f.heap.length)

def get (f : ProbeFactory) (remoteId : PeerIdentity) : ProbeFactory × ProbeRef :=
  match f.probes.get remoteId.appID with
  | none => f.newProbe remoteId
  | some r =>
    match f.heap[r]? with
    | none => f.newProbe remoteId
    | some p => if p.state = .closed then f.newProbe remoteId else (f, r)

def syncAllowedIPs (f : ProbeFactory) (r : ProbeRef) (allowedIPs : String) : ProbeFactory :=
  if allowedIPs = "" then f else f.registerPeer r allowedIPs

def startProbe (f : ProbeFactory) (r : ProbeRef) : ProbeFactory :=
  f.modify r fun p =>
    if p.state = .created ∨ p.state = .failed then { p with state := .probing } else p

def remove (f : ProbeFactory) (appId : String) : ProbeFactory :=
  match f.probes.get appId with
  | none => f
  | some r =>
    { f.modify r fun p => { p with iceDialer := none, relayDialer := false } with
      probes := f.probes.delete appId }

def dispatch (c : Codec) (f : ProbeFactory) (remoteId : PeerIdentity) (packet : SignalPacket) :
    ProbeFactory :=
  let (f, r) := f.get remoteId
  match f.heap[r]? with
  | none => f
  | some p =>
    let f := if p.state = .created then f.startProbe r else f
    match (p.handle c packet).2 with
    | .panics => { f with crashed := true }
    | .nothing => f.modify r fun p => (p.handle c packet).1
    | .received peer => (f.modify r fun p => (p.handle c packet).1).onPeerReceived c r peer

def handleSignal (c : Codec) (f : ProbeFactory) (packet : SignalPacket) : ProbeFactory :=
  match f.peerManager.getIdentity c.parseKey packet.senderID with
  | none => f
  | some remoteId => f.dispatch c remoteId packet

variable {c : Codec} {f : ProbeFactory}

theorem modify_heap {r j : ProbeRef} {g : Probe → Probe} {p' : Probe}
    (h : (f.modify r g).heap[j]? = some p') :
    ∃ p, f.heap[j]? = some p ∧ p' = if r = j then g p else p := by
  unfold modify at h
  rw [List.getElem?_modify] at h
  obtain ⟨p, hp, rfl⟩ := Option.map_eq_some_iff.1 h
  exact ⟨p, hp, rfl⟩

theorem modify_heap_remoteId {r j : ProbeRef} {g : Probe → Probe} {p' : Probe}
    (hid : ∀ p, (g p).remoteId = p.remoteId) (h : (f.modify r g).heap[j]? = some p') :
    ∃ p, f.heap[j]? = some p ∧ p'.remoteId = p.remoteId := by
  obtain ⟨p, hp, rfl⟩ := modify_heap h
  refine ⟨p, hp, ?_⟩
  split
  · exact hid p
  · rfl

theorem peerManager_registerPeer (r : ProbeRef) (allowedIPs : String) :
    (f.registerPeer r allowedIPs).peerManager = f.peerManager := by
  unfold registerPeer
  split
  · rfl
  · split <;> rfl

theorem peerManager_setEndpoint (r : ProbeRef) (endpoint : String) :
    (f.setEndpoint r endpoint).peerManager = f.peerManager := by
  unfold setEndpoint
  split <;> rfl

theorem peerManager_onPeerKnown (r : ProbeRef) (peer : Peer) :
    (f.onPeerKnown r peer).peerManager = f.peerManager := by
  unfold onPeerKnown
  split
  · rfl
  dsimp only
  split
  · exact peerManager_registerPeer ..
  split
  · exact peerManager_registerPeer ..
  split
  · exact peerManager_registerPeer ..
  · rw [peerManager_setEndpoint]
    exact peerManager_registerPeer ..

theorem peerManager_get (remoteId : PeerIdentity) :
    (f.get remoteId).1.peerManager = f.peerManager := by
  unfold get
  split
  · rfl
  split
  · rfl
  · split <;> rfl

def probeFor (f : ProbeFactory) (remoteId : PeerIdentity) : Probe :=
  match (f.probes.get remoteId.appID).bind fun r => f.heap[r]? with
  | none => .new remoteId
  | some p => if p.state = .closed then .new remoteId else p

theorem newProbe_heap (remoteId : PeerIdentity) :
    (f.newProbe remoteId).1.heap[(f.newProbe remoteId).2]? = some (.new remoteId) := by
  simp [newProbe]

theorem get_heap (remoteId : PeerIdentity) :
    (f.get remoteId).1.heap[(f.get remoteId).2]? = some (f.probeFor remoteId) := by
  unfold get probeFor
  cases f.probes.get remoteId.appID with
  | none => exact newProbe_heap remoteId
  | some r =>
    dsimp only [Option.bind_some]
    cases hp : f.heap[r]? with
    | none => exact newProbe_heap remoteId
    | some p =>
      dsimp only
      split
      · exact newProbe_heap remoteId
      · exact hp

theorem merged_appID (peer : Peer) : (f.merged peer).appID = peer.appID := by
  unfold merged
  split
  · rfl
  · split <;> rfl

theorem merged_publicKey (peer : Peer) : (f.merged peer).publicKey = peer.publicKey := by
  unfold merged
  split
  · rfl
  · split <;> rfl

theorem merged_congr {g : ProbeFactory} (h : g.peerManager = f.peerManager) (peer : Peer) :
    g.merged peer = f.merged peer := by
  unfold merged
  rw [h]

theorem peerManager_onPeerReceived (r : ProbeRef) (peer : Peer) :
    (f.onPeerReceived c r peer).peerManager =
      f.peerManager.addPeer c.parseKey peer.appID (f.merged peer) := by
  unfold onPeerReceived
  rw [peerManager_onPeerKnown, merged_appID]
  rfl

def started (f : ProbeFactory) (remoteId : PeerIdentity) : ProbeFactory :=
  if (f.probeFor remoteId).state = .created then (f.get remoteId).1.startProbe (f.get remoteId).2
  else (f.get remoteId).1

theorem dispatch_eq (remoteId : PeerIdentity) (packet : SignalPacket) :
    f.dispatch c remoteId packet =
      match ((f.probeFor remoteId).handle c packet).2 with
      | .panics => { f.started remoteId with crashed := true }
      | .nothing =>
        (f.started remoteId).modify (f.get remoteId).2 fun p => (p.handle c packet).1
      | .received peer =>
        ((f.started remoteId).modify (f.get remoteId).2
          fun p => (p.handle c packet).1).onPeerReceived c (f.get remoteId).2 peer := by
  unfold dispatch
  dsimp only
  rw [get_heap]
  rfl

theorem peerManager_started (remoteId : PeerIdentity) :
    (f.started remoteId).peerManager = f.peerManager := by
  unfold started
  split <;> exact peerManager_get remoteId

theorem started_remoteId {remoteId : PeerIdentity} {p : Probe}
    (h : (f.started remoteId).heap[(f.get remoteId).2]? = some p) :
    p.remoteId = (f.probeFor remoteId).remoteId := by
  have hget : ∀ q, (f.get remoteId).1.heap[(f.get remoteId).2]? = some q →
      q.remoteId = (f.probeFor remoteId).remoteId := by
    intro q hq
    rw [get_heap] at hq
    rw [Option.some.inj hq]
  unfold started at h
  split at h
  · obtain ⟨q, hq, hid⟩ := modify_heap_remoteId (fun _ => by split <;> rfl) h
    rw [hid]
    exact hget q hq
  · exact hget p h

theorem peerManager_dispatch (remoteId : PeerIdentity) (packet : SignalPacket) :
    (f.dispatch c remoteId packet).peerManager =
      match (f.probeFor remoteId).reads c packet with
      | none => f.peerManager
      | some peer => f.peerManager.addPeer c.parseKey peer.appID (f.merged peer) := by
  rw [dispatch_eq]
  cases hrea : ((f.probeFor remoteId).handle c packet).2 with
  | received peer =>
    have hpm : ((f.started remoteId).modify (f.get remoteId).2
        fun p => (p.handle c packet).1).peerManager = f.peerManager := peerManager_started remoteId
    rw [Probe.handle_received.1 hrea, peerManager_onPeerReceived, merged_congr hpm, hpm]
  | nothing | panics =>
    have hread : (f.probeFor remoteId).reads c packet = none := by
      cases hr : (f.probeFor remoteId).reads c packet with
      | none => rfl
      | some peer =>
        rw [Probe.handle_received.2 hr] at hrea
        cases hrea
    rw [hread]
    exact peerManager_started remoteId

end ProbeFactory

end LatticeMesh.Transport
