import LatticeMesh.Agent.Node

/-! # What a signaling packet changes in the peer manager -/

namespace LatticeMesh.Agent

open Transport PeerManager ProbeFactory

structure FrameKept (own : PeerIdentity) (pm pm' : PeerManager) : Prop where
  peers : ∀ a, a ≠ own.appID → pm'.peers.get a = pm.peers.get a
  byID : ∀ id, id ≠ own.id → pm'.byID.get id = pm.byID.get id
  heap : pm.heap <+: pm'.heap

def NamesOnly (c : Codec) (own : PeerIdentity) (peer : Peer) : Prop :=
  peer.appID = own.appID ∧ ∀ key, c.parseKey peer.publicKey = some key → fromKey key = own.id

variable {c : Codec} {pm : PeerManager} {own : PeerIdentity}

theorem FrameKept.refl : FrameKept own pm pm := ⟨fun _ _ => rfl, fun _ _ => rfl, List.prefix_rfl⟩

theorem frameKept_addPeer_iff (peer : Peer) :
    FrameKept own pm (pm.addPeer c.parseKey peer.appID peer) ↔ NamesOnly c own peer := by
  constructor
  · intro hk
    constructor
    · by_contra hne
      have h := hk.peers peer.appID hne
      rw [peers_addPeer, if_pos rfl] at h
      exact absurd (pm.peers_lt _ _ h.symm) (Nat.lt_irrefl _)
    intro key hkey
    by_contra hne
    have h := hk.byID (fromKey key) hne
    rw [byID_addPeer, c.keyID_eq, hkey, Option.map_some, if_pos rfl] at h
    exact absurd (pm.byID_lt _ _ h.symm) (Nat.lt_irrefl _)
  intro hn
  refine ⟨?_, ?_, List.prefix_append ..⟩
  · intro a ha
    rw [peers_addPeer, if_neg (hn.1 ▸ ha)]
  intro id hid
  rw [byID_addPeer, c.keyID_eq, if_neg]
  intro hkey
  obtain ⟨key, hpar, rfl⟩ := Option.map_eq_some_iff.1 hkey
  exact hid (hn.2 key hpar)

theorem namesOnly_merged {f : ProbeFactory} {peer : Peer} :
    NamesOnly c own (f.merged peer) ↔ NamesOnly c own peer := by
  unfold NamesOnly
  rw [merged_appID, merged_publicKey]

/-- **A packet changes no other peer's entry exactly when it names no other peer.** -/
theorem handle_frameKept_iff (o : Overlay6) (n : Node) (packet : SignalPacket)
    (htype : packet.type ≠ .message)
    (hown : n.factory.peerManager.getIdentity c.parseKey packet.senderID = some own) :
    FrameKept own n.factory.peerManager (n.handle c o packet).1.factory.peerManager ↔
      ∀ peer, (n.factory.probeFor own).reads c packet = some peer → NamesOnly c own peer := by
  have hpm : (n.handle c o packet).1.factory.peerManager =
      (n.factory.dispatch c own packet).peerManager := by
    unfold Node.handle ProbeFactory.handleSignal
    rw [if_neg htype, hown]
  rw [hpm, peerManager_dispatch]
  cases (n.factory.probeFor own).reads c packet with
  | none => exact iff_of_true .refl (by simp)
  | some peer =>
    dsimp only
    rw [← merged_appID (f := n.factory), frameKept_addPeer_iff, namesOnly_merged]
    simp

theorem foreign_description_stored :
    knowsB.factory.peerManager.getIdentity describeCodec.parseKey (synFromB infoA).senderID =
        some ⟨"b", keyB⟩ ∧
      ¬ FrameKept ⟨"b", keyB⟩ knowsB.factory.peerManager
        (knowsB.handle describeCodec overlayB (synFromB infoA)).1.factory.peerManager := by
  refine ⟨by decide +kernel, ?_⟩
  intro hk
  have hbef : knowsB.factory.peerManager.peers.get "a" = none := by decide +kernel
  have haft : (knowsB.handle describeCodec overlayB
      (synFromB infoA)).1.factory.peerManager.peers.get "a" = some 2 := by decide +kernel
  have hfra := hk.peers "a" (by decide)
  rw [hbef, haft] at hfra
  cases hfra

theorem own_description_frameKept :
    FrameKept ⟨"b", keyB⟩ knowsB.factory.peerManager
      (knowsB.handle describeCodec overlayB (synFromB infoB)).1.factory.peerManager := by
  refine (handle_frameKept_iff overlayB knowsB (synFromB infoB) (by decide)
    (by decide +kernel)).2 ?_
  intro peer hrea
  have hself : (knowsB.factory.probeFor ⟨"b", keyB⟩).reads describeCodec (synFromB infoB) =
      some peerB := by decide +kernel
  rw [hself, Option.some.injEq] at hrea
  subst hrea
  refine ⟨rfl, ?_⟩
  intro key hkey
  have hkeyB : describeCodec.parseKey peerB.publicKey = some keyB := by decide +kernel
  rw [hkeyB, Option.some.injEq] at hkey
  rw [← hkey]
  rfl

end LatticeMesh.Agent
