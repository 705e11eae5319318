import LatticeMesh.Agent.Signal

/-! # What a probe learns from a packet -/

namespace LatticeMesh.Transport

open Agent

inductive PeerState where
  | created
  | probing
  | iceReady
  | relayReady
  | failed
  | closed
  deriving DecidableEq

structure IceDialer where
  closed : Bool
  agent : Bool
  credentialsInited : Bool

structure Probe where
  remoteId : PeerIdentity
  state : PeerState
  iceDialer : Option IceDialer
  relayDialer : Bool
  remotePeer : Option Peer
  peerKnownDone : Bool
  registered : Option String

def Probe.new (remoteId : PeerIdentity) : Probe where
  remoteId := remoteId
  state := .created
  iceDialer := some ⟨false, false, false⟩
  relayDialer := true
  remotePeer := none
  peerKnownDone := false
  registered := none

inductive Reaction where
  | nothing
  | received (peer : Peer)
  | panics

def Reaction.ofOption : Option Peer → Reaction
  | some peer => .received peer
  | none => .nothing

def peerInfo (packet : SignalPacket) : Option (List UInt8) :=
  packet.handshake.bind fun hs => if hs.peerInfo = [] then none else some hs.peerInfo

def IceDialer.extract (c : Codec) (d : IceDialer) (info : Option (List UInt8)) :
    IceDialer × Reaction :=
  match info with
  | none => (d, .nothing)
  | some data =>
    if d.credentialsInited then (d, .nothing)
    else ({ d with credentialsInited := true }, .ofOption (c.peer data))

def IceDialer.handle (c : Codec) (d : IceDialer) (packet : SignalPacket) : IceDialer × Reaction :=
  match packet.type with
  | .handshakeAck =>
    if packet.handshake.any fun hs => hs.isUpgradeProbe then (d, .nothing)
    else if d.closed ∨ d.agent = false then (d, .nothing)
    else d.extract c (peerInfo packet)
  | .handshakeSyn =>
    if packet.handshake.any fun hs => hs.isUpgradeProbe then (d, .nothing)
    else if d.closed then (d, .nothing)
    else d.extract c (peerInfo packet)
  | .offer | .answer =>
    if d.closed then (d, .nothing)
    else
      match packet.offer with
      | none => (d, .panics)
      | some offer =>
        if offer.attemptID ≠ "" then (d, .nothing)
        else if offer.current = [] then ({ d with credentialsInited := true }, .nothing)
        else d.extract c (some offer.current)
  | _ => (d, .nothing)

def relayHandle (c : Codec) (packet : SignalPacket) : Reaction :=
  match packet.type with
  | .handshakeSyn =>
    if packet.handshake.any fun hs => hs.isUpgradeProbe then .nothing
    else .ofOption ((peerInfo packet).bind c.peer)
  | .handshakeAck => .ofOption ((peerInfo packet).bind c.peer)
  | .offer | .answer =>
    match packet.offer with
    | none => .panics
    | some offer => .ofOption (c.peer offer.current)
  | _ => .nothing

def Probe.handle (c : Codec) (p : Probe) (packet : SignalPacket) : Probe × Reaction :=
  if packet.isUpgradeSignal then (p, .nothing)
  else
    match packet.dialer with
    | .ice =>
      match p.iceDialer with
      | none => (p, .nothing)
      | some d =>
        let (d', r) := d.handle c packet
        ({ p with iceDialer := some d' }, r)
    | .relay => if p.relayDialer then (p, relayHandle c packet) else (p, .nothing)
    | .other _ => (p, .nothing)

def Probe.listens (p : Probe) (packet : SignalPacket) : Bool :=
  match packet.dialer with
  | .ice => p.iceDialer.any fun d =>
      !d.closed && !d.credentialsInited && (packet.type ≠ .handshakeAck || d.agent)
  | .relay => p.relayDialer
  | .other _ => false

def Probe.reads (c : Codec) (p : Probe) (packet : SignalPacket) : Option Peer :=
  if packet.isUpgradeSignal then none
  else if p.listens packet then packet.description.bind c.peer
  else none

variable {peer : Peer} {packet : SignalPacket}

theorem Reaction.ofOption_eq_received {o : Option Peer} :
    Reaction.ofOption o = .received peer ↔ o = some peer := by
  cases o <;> simp [Reaction.ofOption]

theorem peerInfo_bind (c : Codec) (packet : SignalPacket) :
    (peerInfo packet).bind c.peer = (packet.handshake.map Handshake.peerInfo).bind c.peer := by
  unfold peerInfo
  cases packet.handshake with
  | none => rfl
  | some hs =>
    by_cases h : hs.peerInfo = []
    · simp [h, c.peer_nil]
    · simp [h]

variable {c : Codec}

theorem IceDialer.extract_received {d : IceDialer} {info : Option (List UInt8)} :
    (d.extract c info).2 = .received peer ↔
      d.credentialsInited = false ∧ info.bind c.peer = some peer := by
  unfold IceDialer.extract
  cases info with
  | none => simp
  | some data => cases d.credentialsInited <;> simp [Reaction.ofOption_eq_received]

theorem not_upgrade (h : packet.isUpgradeSignal = false) :
    (packet.handshake.any fun hs => hs.isUpgradeProbe) = false ∧
      ∀ offer, packet.offer = some offer → offer.attemptID = "" := by
  unfold SignalPacket.isUpgradeSignal at h
  rw [Bool.or_eq_false_iff] at h
  refine ⟨h.1, ?_⟩
  intro offer ho
  simpa [ho] using h.2

theorem IceDialer.handle_received {d : IceDialer} (h : packet.isUpgradeSignal = false) :
    (d.handle c packet).2 = .received peer ↔
      (!d.closed && !d.credentialsInited && (packet.type ≠ .handshakeAck || d.agent)) = true ∧
        packet.description.bind c.peer = some peer := by
  obtain ⟨hs, ho⟩ := not_upgrade h
  unfold IceDialer.handle SignalPacket.description
  cases htype : packet.type with
  | handshakeAck =>
    by_cases hcl : d.closed = true ∨ d.agent = false
    · have : ¬ (d.closed = false ∧ d.agent = true) := by grind
      simp [hs, hcl]
      grind
    · simp only [hs, hcl, Bool.false_eq_true, if_false, extract_received, peerInfo_bind]
      grind
  | handshakeSyn =>
    simp only [hs, Bool.false_eq_true, if_false]
    split
    · next hcl => simp [hcl]
    next hcl =>
    rw [extract_received, peerInfo_bind]
    simp [hcl]
  | offer | answer =>
    dsimp only
    split
    · next hcl => simp [hcl]
    next hcl =>
    cases hoff : packet.offer with
    | none => simp
    | some offer =>
      simp only [ho offer hoff, ne_eq, not_true_eq_false, if_false]
      split
      · next hnil => simp [hnil, c.peer_nil]
      · rw [extract_received]
        simp [hcl]
  | unknown | message | restartNotify | other => simp

theorem relayHandle_received (h : packet.isUpgradeSignal = false) :
    relayHandle c packet = .received peer ↔ packet.description.bind c.peer = some peer := by
  obtain ⟨hs, _⟩ := not_upgrade h
  unfold relayHandle SignalPacket.description
  cases packet.type with
  | handshakeSyn =>
    simp only [hs, Bool.false_eq_true, if_false]
    rw [Reaction.ofOption_eq_received, peerInfo_bind]
  | handshakeAck => rw [Reaction.ofOption_eq_received, peerInfo_bind]
  | offer | answer =>
    cases packet.offer with
    | none => simp
    | some offer => exact Reaction.ofOption_eq_received
  | unknown | message | restartNotify | other => simp

theorem Probe.handle_received {p : Probe} :
    (p.handle c packet).2 = .received peer ↔ p.reads c packet = some peer := by
  unfold Probe.handle Probe.reads Probe.listens
  cases hup : packet.isUpgradeSignal with
  | true => simp
  | false =>
    simp only [Bool.false_eq_true, if_false]
    cases packet.dialer with
    | ice =>
      cases p.iceDialer with
      | none => simp
      | some d => simp [IceDialer.handle_received hup]
    | relay =>
      cases p.relayDialer with
      | false => simp
      | true => simp [relayHandle_received hup]
    | other => simp

theorem Probe.handle_fst (c : Codec) (p : Probe) (packet : SignalPacket) :
    ∃ d, (p.handle c packet).1 = { p with iceDialer := d } := by
  unfold Probe.handle
  split
  · exact ⟨p.iceDialer, rfl⟩
  split
  · split
    · exact ⟨p.iceDialer, rfl⟩
    · exact ⟨_, rfl⟩
  · split <;> exact ⟨p.iceDialer, rfl⟩
  · exact ⟨p.iceDialer, rfl⟩

end LatticeMesh.Transport
