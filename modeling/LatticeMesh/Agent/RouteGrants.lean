import LatticeMesh.Lib.LTS
import LatticeMesh.Agent.Node

/-! # Routes and the netmap -/

namespace LatticeMesh.Agent

open Transport List Option PeerManager ProbeFactory

section

variable (c : Codec) (o : Overlay6)

def Grants (netmap : List Peer) (k : Key) (q : String) : Prop :=
  ∃ g ∈ netmap, c.parseKey g.publicKey = some k ∧ (q ∈ prefixes g.allowedIPs ∨
    ∃ a, g.address = some a ∧
      (q ∈ prefixes (hostRoute a) ∨ q ∈ prefixes (o.hostAllowedIPs a true)))

def Covered (netmap : List Peer) (k : Key) (allowedIPs : String) : Prop :=
  ∀ q ∈ prefixes allowedIPs, Grants c o netmap k q

def RoutesGranted (n : Node) : Prop :=
  ∀ i ∈ n.factory.installs, ∀ line ∈ i.allowed,
    ∃ q, Grants c o n.netmap i.key q ∧ line ∈ allowedLines "allowed_ip" q

structure Honest (netmap : List Peer) (own : PeerIdentity) (peer : Peer) : Prop where
  appID : peer.appID = own.appID
  key : ∀ k, c.parseKey peer.publicKey = some k → k = own.publicKey
  allowedIPs : Covered c o netmap own.publicKey peer.allowedIPs
  address : ∀ a, peer.address = some a → Covered c o netmap own.publicKey (hostRoute a)
  endpoint : '\n' ∉ peer.endpoint.toList

end

variable {c : Codec} {o : Overlay6} {M M' : List Peer} {κ : String → Option Key}

theorem Covered.mono (hM : M ⊆ M') {k : Key} {s : String} (h : Covered c o M k s) :
    Covered c o M' k s := by
  intro q hq
  obtain ⟨g, hg, hrest⟩ := h q hq
  exact ⟨g, hM hg, hrest⟩

theorem covered_empty (k : Key) : Covered c o M k "" := by
  intro q hq
  have hnil : prefixes "" = [] := by decide
  rw [hnil] at hq
  cases hq

theorem covered_merge {k : Key} {a b : String} (ha : Covered c o M k a) (hb : Covered c o M k b) :
    Covered c o M k (mergeAllowedIPs a b) := by
  intro q hq
  exact (mem_prefixes_merge.1 hq).elim (ha q) (hb q)

structure ProbeOk (c : Codec) (o : Overlay6) (κ : String → Option Key) (M : List Peer)
    (p : Probe) : Prop where
  key : κ p.remoteId.appID = some p.remoteId.publicKey
  routes : Covered c o M p.remoteId.publicKey (ProbeFactory.endpointAllowedIPs p.remotePeer)

structure FactoryOk (c : Codec) (o : Overlay6) (κ : String → Option Key) (M : List Peer)
    (f : ProbeFactory) : Prop where
  peers : ∀ a p k, f.peerManager.getPeer a = some p → κ a = some k → Covered c o M k p.allowedIPs
  byID : ∀ id p k, f.peerManager.getByPeerID id = some p → c.parseKey p.publicKey = some k →
    κ p.appID = some k
  probes : ∀ a r p, f.probes.get a = some r → f.heap[r]? = some p → p.remoteId.appID = a
  bounds : ∀ a r, f.probes.get a = some r → r < f.heap.length
  heap : ∀ (r : ProbeRef) p, f.heap[r]? = some p → ProbeOk c o κ M p
  installs : ∀ i ∈ f.installs, Covered c o M i.key i.allowedIPs ∧ '\n' ∉ i.endpoint.toList

namespace FactoryOk

variable {f : ProbeFactory}

theorem mono (hM : M ⊆ M') (h : FactoryOk c o κ M f) : FactoryOk c o κ M' f where
  peers a p k hp hk := (h.peers a p k hp hk).mono hM
  byID := h.byID
  probes := h.probes
  bounds := h.bounds
  heap r p hp := ⟨(h.heap r p hp).key, (h.heap r p hp).routes.mono hM⟩
  installs i hi := ⟨(h.installs i hi).1.mono hM, (h.installs i hi).2⟩

variable {r : ProbeRef} {own : PeerIdentity}

theorem modify (h : FactoryOk c o κ M f) {g : Probe → Probe}
    (hid : ∀ p, (g p).remoteId = p.remoteId)
    (hok : ∀ p, f.heap[r]? = some p → ProbeOk c o κ M (g p)) :
    FactoryOk c o κ M (f.modify r g) := by
  refine ⟨h.peers, h.byID, ?_, ?_, ?_, h.installs⟩
  · intro a j p' ha hp'
    obtain ⟨p, hp, hp'id⟩ := modify_heap_remoteId hid hp'
    rw [hp'id]
    exact h.probes a j p ha hp
  · intro a j ha
    unfold ProbeFactory.modify
    rw [length_modify]
    exact h.bounds a j ha
  intro j p' hp'
  obtain ⟨p, hp, rfl⟩ := modify_heap hp'
  split
  · next hj => exact hok p (hj ▸ hp)
  · exact h.heap j p hp

theorem modify_same (h : FactoryOk c o κ M f) {g : Probe → Probe}
    (hid : ∀ p, (g p).remoteId = p.remoteId) (hpeer : ∀ p, (g p).remotePeer = p.remotePeer) :
    FactoryOk c o κ M (f.modify r g) := by
  refine h.modify hid ?_
  intro p hp
  have hok := h.heap r p hp
  refine ⟨?_, ?_⟩
  · rw [hid]
    exact hok.key
  · rw [hid, hpeer]
    exact hok.routes

theorem install (h : FactoryOk c o κ M f) {i : Install} (hi : Covered c o M i.key i.allowedIPs)
    (he : '\n' ∉ i.endpoint.toList) : FactoryOk c o κ M { f with installs := i :: f.installs } where
  peers := h.peers
  byID := h.byID
  probes := h.probes
  bounds := h.bounds
  heap := h.heap
  installs j hj := by
    rcases mem_cons.1 hj with rfl | hold
    · exact ⟨hi, he⟩
    · exact h.installs j hold

theorem registerPeer (h : FactoryOk c o κ M f) {s : String}
    (hs : ∀ p, f.heap[r]? = some p → Covered c o M p.remoteId.publicKey s) :
    FactoryOk c o κ M (f.registerPeer r s) := by
  unfold ProbeFactory.registerPeer
  cases hp : f.heap[r]? with
  | none => exact h
  | some p =>
    dsimp only
    split
    · exact h
    have hmod : FactoryOk c o κ M
        (f.modify r fun p => { p with registered := some s }) :=
      h.modify_same (fun _ => rfl) fun _ => rfl
    exact hmod.install (i := ⟨p.remoteId.publicKey, s, ""⟩) (hs p hp) (by simp)

theorem setEndpoint (h : FactoryOk c o κ M f) (r : ProbeRef) {e : String} (he : '\n' ∉ e.toList) :
    FactoryOk c o κ M (f.setEndpoint r e) := by
  unfold ProbeFactory.setEndpoint
  cases hp : f.heap[r]? with
  | none => exact h
  | some p => exact h.install (h.heap r p hp).routes he

theorem startProbe (h : FactoryOk c o κ M f) (r : ProbeRef) :
    FactoryOk c o κ M (f.startProbe r) :=
  h.modify_same (fun _ => by split <;> rfl) fun _ => by split <;> rfl

theorem remove (h : FactoryOk c o κ M f) (appId : String) : FactoryOk c o κ M (f.remove appId) := by
  unfold ProbeFactory.remove
  split
  · exact h
  next r hr =>
  have hcl := h.modify_same (r := r)
    (g := fun p => { p with iceDialer := none, relayDialer := false }) (fun _ => rfl) fun _ => rfl
  exact ⟨hcl.peers, hcl.byID,
    fun a j p ha => hcl.probes a j p (GoMap.get_of_get_delete ha),
    fun a j ha => hcl.bounds a j (GoMap.get_of_get_delete ha), hcl.heap,
    hcl.installs⟩

theorem newProbe (h : FactoryOk c o κ M f) (hown : κ own.appID = some own.publicKey) :
    FactoryOk c o κ M (f.newProbe own).1 := by
  have hcell : ∀ (j : ProbeRef) p, (f.heap ++ [Probe.new own])[j]? = some p →
      f.heap[j]? = some p ∨ j = f.heap.length ∧ p = Probe.new own := by
    intro j p hp
    rw [getElem?_append] at hp
    split at hp
    · exact .inl hp
    next hge =>
    rw [getElem?_singleton] at hp
    split at hp
    · next hzero =>
      have hj : j = f.heap.length :=
        Nat.le_antisymm (Nat.le_of_sub_eq_zero hzero) (Nat.le_of_not_lt hge)
      exact .inr ⟨hj, (Option.some.inj hp).symm⟩
    · cases hp
  refine ⟨h.peers, h.byID, ?_, ?_, ?_, h.installs⟩
  · intro a j p ha hp
    unfold ProbeFactory.newProbe at ha hp
    dsimp only at ha hp
    rw [GoMap.get_set] at ha
    split at ha
    · next haown =>
      cases ha
      rw [getElem?_concat_length] at hp
      cases hp
      exact haown.symm
    rcases hcell j p hp with hold | ⟨rfl, rfl⟩
    · exact h.probes a j p ha hold
    · exact absurd (h.bounds a _ ha) (Nat.lt_irrefl _)
  · intro a j ha
    unfold ProbeFactory.newProbe at ha ⊢
    dsimp only at ha ⊢
    rw [length_append, length_singleton]
    refine GoMap.forall_get_set (P := fun _ r => r < f.heap.length + 1) ?_ (Nat.lt_succ_self _) ha
    intro b r hr
    exact Nat.lt_succ_of_lt (h.bounds b r hr)
  intro j p hp
  rcases hcell j p hp with hold | ⟨_, rfl⟩
  · exact h.heap j p hold
  · exact ⟨hown, covered_empty _⟩

theorem get (h : FactoryOk c o κ M f) (hown : κ own.appID = some own.publicKey) :
    FactoryOk c o κ M (f.get own).1 := by
  unfold ProbeFactory.get
  split
  · exact h.newProbe hown
  split
  · exact h.newProbe hown
  split
  · exact h.newProbe hown
  · exact h

theorem probeFor_key (h : FactoryOk c o κ M f) (hown : κ own.appID = some own.publicKey) :
    (f.probeFor own).remoteId.publicKey = own.publicKey := by
  unfold ProbeFactory.probeFor
  split
  · rfl
  next p hp =>
  obtain ⟨r, hr, hcell⟩ := bind_eq_some_iff.1 hp
  split
  · rfl
  have hkey := (h.heap r p hcell).key
  rw [h.probes _ r p hr hcell, hown] at hkey
  exact (Option.some.inj hkey).symm

theorem addPeer (h : FactoryOk c o κ M f) (peer : Peer)
    (hrts : ∀ k, κ peer.appID = some k → Covered c o M k peer.allowedIPs)
    (hkey : ∀ k, c.parseKey peer.publicKey = some k → κ peer.appID = some k) :
    FactoryOk c o κ M
      { f with peerManager := f.peerManager.addPeer c.parseKey peer.appID peer } where
  peers a p k hp hk := by
    rw [getPeer_addPeer] at hp
    split at hp
    · next ha =>
      cases hp
      exact hrts k (ha ▸ hk)
    · exact h.peers a p k hp hk
  byID id p k hp hk := by
    rw [getByPeerID_addPeer] at hp
    split at hp
    · cases hp
      exact hkey k hk
    · exact h.byID id p k hp hk
  probes := h.probes
  bounds := h.bounds
  heap := h.heap
  installs := h.installs

theorem removePeer (h : FactoryOk c o κ M f) (appId : String) :
    FactoryOk c o κ M
      { f with peerManager := f.peerManager.removePeer c.parseKey appId } where
  peers a p k hp := h.peers a p k (getPeer_of_removePeer hp)
  byID id p k hp := h.byID id p k (getByPeerID_of_removePeer hp)
  probes := h.probes
  bounds := h.bounds
  heap := h.heap
  installs := h.installs

theorem identity (h : FactoryOk c o κ M f) {id : PeerID}
    (hown : f.peerManager.getIdentity c.parseKey id = some own) :
    κ own.appID = some own.publicKey := by
  unfold PeerManager.getIdentity at hown
  split at hown
  · cases hown
  next peer hp =>
  split at hown
  · cases hown
  · obtain ⟨k, hk, rfl⟩ := map_eq_some_iff.1 hown
    exact h.byID id peer k hp hk

variable {peer : Peer}

theorem merged (h : FactoryOk c o κ M f) (hown : κ own.appID = some own.publicKey)
    (hon : Honest c o M own peer) :
    Honest c o M own (f.merged peer) := by
  unfold ProbeFactory.merged
  split
  · exact hon
  next existing hex =>
  split
  · exact hon
  have hold := h.peers _ existing own.publicKey hex (hon.appID ▸ hown)
  refine ⟨hon.appID, hon.key, ?_, hon.address, hon.endpoint⟩
  dsimp only
  exact covered_merge hold hon.allowedIPs

theorem endpointRoutes (hon : Honest c o M own peer) :
    Covered c o M own.publicKey (ProbeFactory.endpointAllowedIPs (some peer)) := by
  unfold ProbeFactory.endpointAllowedIPs
  dsimp only
  split
  · cases ha : peer.address with
    | none => exact covered_empty _
    | some a => exact hon.address a ha
  · exact hon.allowedIPs

theorem onPeerKnown (h : FactoryOk c o κ M f)
    (hr : ∀ p, f.heap[r]? = some p → p.remoteId.publicKey = own.publicKey)
    (hon : Honest c o M own peer) : FactoryOk c o κ M (f.onPeerKnown r peer) := by
  unfold ProbeFactory.onPeerKnown
  cases ha : peer.address with
  | none => exact h
  | some address =>
    dsimp only
    have hcov : Covered c o M own.publicKey
        (if peer.allowedIPs = "" then hostRoute address else peer.allowedIPs) := by
      split
      · exact hon.address address ha
      · exact hon.allowedIPs
    have hreg := h.registerPeer (r := r) fun p hp => hr p hp ▸ hcov
    split
    · exact hreg
    split
    · exact hreg
    have hdone := hreg.modify_same (r := r)
      (g := fun p => { p with peerKnownDone := true }) (fun _ => rfl) fun _ => rfl
    split
    · exact hdone
    · exact hdone.setEndpoint r hon.endpoint

theorem onPeerReceived (h : FactoryOk c o κ M f) (hown : κ own.appID = some own.publicKey)
    (hr : ∀ p, f.heap[r]? = some p → p.remoteId.publicKey = own.publicKey)
    (hon : Honest c o M own peer) : FactoryOk c o κ M (f.onPeerReceived c r peer) := by
  have hm := h.merged hown hon
  have hsto := h.addPeer (f.merged peer)
    (fun k hk => by
      rw [hm.appID, hown] at hk
      exact Option.some.inj hk ▸ hm.allowedIPs)
    (fun k hk => by
      rw [hm.appID, hown, hm.key k hk])
  have hset := hsto.modify (r := r)
    (g := fun p => { p with remotePeer := some (f.merged peer) }) (fun _ => rfl)
    (fun p hp => ⟨(h.heap r p hp).key, by
      rw [hr p hp]
      exact endpointRoutes hm⟩)
  refine hset.onPeerKnown ?_ hm
  intro p' hp'
  obtain ⟨p, hp, hid⟩ := modify_heap_remoteId
    (g := fun p => { p with remotePeer := some (f.merged peer) }) (fun _ => rfl) hp'
  rw [hid]
  exact hr p hp

theorem dispatch (h : FactoryOk c o κ M f) {own : PeerIdentity}
    (hown : κ own.appID = some own.publicKey) {packet : SignalPacket}
    (hon : ∀ peer, (f.probeFor own).reads c packet = some peer → Honest c o M own peer) :
    FactoryOk c o κ M (f.dispatch c own packet) := by
  have hkeep : ∀ p : Probe, (p.handle c packet).1.remoteId = p.remoteId ∧
      (p.handle c packet).1.remotePeer = p.remotePeer := by
    intro p
    obtain ⟨d, hd⟩ := Probe.handle_fst c p packet
    rw [hd]
    exact ⟨rfl, rfl⟩
  have hget := h.get hown
  have hst : FactoryOk c o κ M (f.started own) := by
    unfold ProbeFactory.started
    split
    · exact hget.startProbe _
    · exact hget
  have hcell : ∀ p, (f.started own).heap[(f.get own).2]? = some p →
      p.remoteId.publicKey = own.publicKey := by
    intro p hp
    rw [started_remoteId hp]
    exact h.probeFor_key hown
  rw [dispatch_eq]
  split
  · exact ⟨hst.peers, hst.byID, hst.probes, hst.bounds, hst.heap, hst.installs⟩
  · exact hst.modify_same (fun p => (hkeep p).1) fun p => (hkeep p).2
  next peer hrea =>
  have hpeer := hon peer (Probe.handle_received.1 hrea)
  refine (hst.modify_same (fun p => (hkeep p).1) fun p => (hkeep p).2).onPeerReceived hown
    ?_ hpeer
  intro p' hp'
  obtain ⟨p, hp, hid⟩ := modify_heap_remoteId (fun p => (hkeep p).1) hp'
  rw [hid]
  exact hcell p hp

end FactoryOk

structure NodeOk (c : Codec) (o : Overlay6) (κ : String → Option Key) (n : Node) : Prop where
  factory : FactoryOk c o κ n.netmap n.factory

def Keyed (c : Codec) (κ : String → Option Key) (peer : Peer) : Prop :=
  c.parseKey peer.publicKey = κ peer.appID

namespace NodeOk

variable {n : Node}

theorem startPeer (h : NodeOk c o κ n) {peer : Peer} (hkey : Keyed c κ peer)
    (hmem : peer ∈ n.netmap) : NodeOk c o κ (n.startPeer c peer).1 := by
  unfold Node.startPeer
  split
  · exact h
  next key hpar =>
  have hown : κ (PeerIdentity.mk peer.appID key).appID =
      some (PeerIdentity.mk peer.appID key).publicKey := hkey.symm.trans hpar
  have hget := h.factory.get hown
  have hcov : Covered c o n.netmap key peer.allowedIPs :=
    fun q hq => ⟨peer, hmem, hpar, .inl hq⟩
  have hcell : ∀ p, (n.factory.get ⟨peer.appID, key⟩).1.heap[
      (n.factory.get ⟨peer.appID, key⟩).2]? = some p →
      Covered c o n.netmap p.remoteId.publicKey peer.allowedIPs := by
    intro p hp
    rw [get_heap, Option.some.injEq] at hp
    rw [← hp, h.factory.probeFor_key hown]
    exact hcov
  have hsync : FactoryOk c o κ n.netmap ((n.factory.get ⟨peer.appID, key⟩).1.syncAllowedIPs
      (n.factory.get ⟨peer.appID, key⟩).2 peer.allowedIPs) := by
    unfold ProbeFactory.syncAllowedIPs
    split
    · exact hget
    · exact hget.registerPeer hcell
  exact ⟨hsync.startProbe _⟩

theorem addPeer (h : NodeOk c o κ n) {peer : Peer} (hkey : Keyed c κ peer) :
    NodeOk c o κ (n.addPeer c peer).1 := by
  have hmono : FactoryOk c o κ (peer :: n.netmap) n.factory :=
    h.factory.mono (subset_cons_self ..)
  have hsto := hmono.addPeer peer
    (fun k hk q hq => ⟨peer, mem_cons_self, hkey.trans hk, .inl hq⟩)
    (fun k hk => hkey.symm.trans hk)
  unfold Node.addPeer
  dsimp only
  split
  · exact ⟨hsto⟩
  · exact startPeer ⟨hsto⟩ hkey mem_cons_self

theorem removePeer (h : NodeOk c o κ n) (peer : Peer) : NodeOk c o κ (n.removePeer peer) :=
  ⟨h.factory.remove peer.appID⟩

theorem prunePeer (h : NodeOk c o κ n) (peer : Peer) : NodeOk c o κ (n.prunePeer c peer) :=
  ⟨(h.factory.remove peer.appID).removePeer peer.appID⟩

variable {peers : List Peer}

theorem foldl {step : Node → Peer → Node}
    (hstep : ∀ n, NodeOk c o κ n → ∀ p ∈ peers, NodeOk c o κ (step n p)) (h : NodeOk c o κ n) :
    NodeOk c o κ (peers.foldl step n) := by
  induction peers generalizing n with
  | nil => exact h
  | cons p rest ih =>
    exact ih (fun n hn q hq => hstep n hn q (mem_cons_of_mem _ hq))
      (hstep n h p mem_cons_self)

theorem addPeers (h : NodeOk c o κ n) (hkey : ∀ p ∈ peers, Keyed c κ p) :
    NodeOk c o κ (n.addPeers c peers) := by
  induction peers generalizing n with
  | nil => exact h
  | cons p rest ih =>
    have hp := h.addPeer (hkey p mem_cons_self)
    unfold Node.addPeers
    dsimp only
    split
    · exact ih hp fun q hq => hkey q (mem_cons_of_mem _ hq)
    · exact hp

theorem applyRemotePeers (h : NodeOk c o κ n) (current : Peer) (hkey : ∀ p ∈ peers, Keyed c κ p) :
    NodeOk c o κ (n.applyRemotePeers c current peers) := by
  unfold Node.applyRemotePeers Node.prunePeersExcept
  exact (foldl (fun _ hn p _ => hn.prunePeer p) h).addPeers hkey

theorem applyFullConfig (h : NodeOk c o κ n) {msg : Message}
    (hcur : ∀ p, msg.current = some p → Keyed c κ p)
    (hkey : ∀ p ∈ msg.computedPeers, Keyed c κ p) : NodeOk c o κ (n.applyFullConfig c msg) := by
  unfold Node.applyFullConfig
  split
  · exact h
  next current hc =>
  split
  · exact h
  next address _ =>
  split
  · exact h
  have hself : Keyed c κ (Node.withHostRoute address current) := by
    unfold Node.withHostRoute
    split
    · exact hcur current hc
    · exact hcur current hc
  have hadd := h.addPeer hself
  dsimp only
  split
  · exact hadd.applyRemotePeers _ hkey
  · exact hadd

theorem applyChanges (h : NodeOk c o κ n) {changes : Changes} (current : Peer)
    (hkey : ∀ p ∈ changes.peersAdded, Keyed c κ p) :
    NodeOk c o κ (n.applyChanges c changes current) := by
  unfold Node.applyChanges
  refine foldl (fun _ hn p _ => hn.removePeer p) (foldl ?_ h)
  intro n hn p hp
  exact hn.addPeer (hkey p (mem_of_mem_filter hp))

end NodeOk

def Message.entries (msg : Message) : List Peer :=
  msg.current.toList ++ msg.computedPeers ++
    (msg.changes.map Changes.peersAdded).getD []

variable {n : Node}

theorem NodeOk.applyFullConfig_entries (h : NodeOk c o κ n) {msg : Message}
    (hkey : ∀ p ∈ msg.entries, Keyed c κ p) : NodeOk c o κ (n.applyFullConfig c msg) := by
  unfold Message.entries at hkey
  refine h.applyFullConfig ?_ ?_
  · intro p hp
    exact hkey p (by simp [hp])
  · intro p hp
    exact hkey p (by simp [hp])

theorem NodeOk.handleEvent (h : NodeOk c o κ n) {msg : Message}
    (hkey : ∀ p ∈ msg.entries, Keyed c κ p) : NodeOk c o κ (n.handleEvent c o msg) := by
  unfold Node.handleEvent
  split
  · exact h
  next current hc =>
  split
  · exact h.applyFullConfig_entries hkey
  next changes hch =>
  obtain ⟨hch, -⟩ := filter_eq_some_iff.1 hch
  unfold Message.entries at hkey
  refine (h.applyChanges current ?_).applyFullConfig ?_ ?_
  · intro p hp
    exact hkey p (by simp [hch, hp])
  · intro p hp
    cases hp
    have hself : Keyed c κ current := hkey current (by simp [hc])
    unfold Node.readdressed
    split
    · exact hself
    · exact hself
  · intro p hp
    exact hkey p (by simp [hp])

structure Endpoint where
  text : String
  oneLine : '\n' ∉ text.toList

structure Lifecycle where
  state : PeerState
  iceDialer : Option IceDialer
  relayDialer : Bool
  peerKnownDone : Bool
  registered : Option String

def Lifecycle.apply (l : Lifecycle) (p : Probe) : Probe :=
  ⟨p.remoteId, l.state, l.iceDialer, l.relayDialer, p.remotePeer, l.peerKnownDone, l.registered⟩

inductive Action where
  | message (msg : Message)
  | fetched (msg : Message)
  | packet (packet : SignalPacket)
  | connected (r : ProbeRef) (endpoint : Endpoint)
  | lifecycle (r : ProbeRef) (change : Lifecycle)

def meshNode (c : Codec) (o : Overlay6) : LTS Node Action where
  init n := n.factory = .new ∧ n.netmap = []
  step n action n' :=
    match action with
    | .message msg => n' = n.handleEvent c o msg
    | .fetched msg => n' = n.applyFullConfig c msg
    | .packet packet => packet.type ≠ .message ∧ n' = (n.handle c o packet).1
    | .connected r e => n' = { n with factory := n.factory.setEndpoint r e.text }
    | .lifecycle r change => n' = { n with factory := n.factory.modify r change.apply }

def HonestStep (c : Codec) (o : Overlay6) (κ : String → Option Key) (n : Node) : Action → Prop
  | .message msg | .fetched msg => ∀ p ∈ msg.entries, Keyed c κ p
  | .packet packet =>
    ∀ own, n.factory.peerManager.getIdentity c.parseKey packet.senderID = some own →
      ∀ peer, (n.factory.probeFor own).reads c packet = some peer → Honest c o n.netmap own peer
  | .connected .. | .lifecycle .. => True

theorem nodeOk_init (h : (meshNode c o).init n) : NodeOk c o κ n := by
  obtain ⟨hf, hn⟩ := h
  refine ⟨?_⟩
  rw [hf]
  constructor <;> simp [ProbeFactory.new, PeerManager.new, PeerManager.getPeer,
    PeerManager.getByPeerID]

theorem NodeOk.packet (h : NodeOk c o κ n) {packet : SignalPacket} (htype : packet.type ≠ .message)
    (hon : HonestStep c o κ n (.packet packet)) :
    NodeOk c o κ (n.handle c o packet).1 := by
  unfold Node.handle
  rw [if_neg htype]
  refine ⟨?_⟩
  unfold ProbeFactory.handleSignal
  dsimp only
  split
  · exact h.factory
  · next own hown => exact h.factory.dispatch (h.factory.identity hown) (hon own hown)

theorem nodeOk_step {n' : Node} {action : Action} (h : NodeOk c o κ n)
    (hon : HonestStep c o κ n action) (hs : (meshNode c o).step n action n') : NodeOk c o κ n' := by
  cases action with
  | message msg =>
    cases hs
    exact h.handleEvent hon
  | fetched msg =>
    cases hs
    exact h.applyFullConfig_entries hon
  | packet packet =>
    obtain ⟨htype, rfl⟩ := hs
    exact h.packet htype hon
  | connected r e =>
    cases hs
    exact ⟨h.factory.setEndpoint r e.oneLine⟩
  | lifecycle r change =>
    cases hs
    exact ⟨h.factory.modify_same (fun _ => rfl) fun _ => rfl⟩

theorem NodeOk.routesGranted (h : NodeOk c o κ n) : RoutesGranted c o n := by
  intro i hi line hline
  obtain ⟨hcov, hend⟩ := h.factory.installs i hi
  unfold Install.allowed at hline
  rw [allowedLines_endpoint hend, append_nil] at hline
  obtain ⟨q, hq, hl⟩ := mem_flatMap.1 hline
  exact ⟨q, hcov q hq, hl⟩

theorem reachable_knowsB : (meshNode describeCodec overlayB).Reachable knowsB :=
  .step (l := .fetched netmapB) (.init (s := fresh) ⟨rfl, rfl⟩) rfl

theorem knowsB_grants {q : String} (h : Grants describeCodec overlayB
    (knowsB.handle describeCodec overlayB (synFromB infoExit)).1.netmap keyB q) :
    q = "10.0.0.2/32" ∨ q = "fd6c:7270:6c74::a00:2/128" := by
  have hnet : (knowsB.handle describeCodec overlayB (synFromB infoExit)).1.netmap =
      [peerB, ⟨"me", some "10.0.0.1", "", "", "", "", "10.0.0.1/32"⟩] := by decide +kernel
  rw [hnet] at h
  obtain ⟨g, hg, hkey, hq⟩ := h
  rcases mem_cons.1 hg with rfl | hg
  · have hown : prefixes peerB.allowedIPs = ["10.0.0.2/32"] := by decide +kernel
    have hhost : prefixes (hostRoute "10.0.0.2") = ["10.0.0.2/32"] := by decide +kernel
    have hdual : prefixes (overlayB.hostAllowedIPs "10.0.0.2" true) =
        ["10.0.0.2/32", "fd6c:7270:6c74::a00:2/128"] := by decide +kernel
    rcases hq with hq | ⟨a, ha, hq⟩
    · rw [hown] at hq
      exact .inl (mem_singleton.1 hq)
    cases ha
    rw [hhost, hdual] at hq
    simpa using hq
  rw [mem_singleton.1 hg] at hkey
  have hself : describeCodec.parseKey "" = none := describeCodec.parseKey_empty
  rw [hself] at hkey
  cases hkey

def keyOf (appID : String) : Option Key := if appID = "b" then some keyB else none

theorem honest_peerB :
    Honest describeCodec overlayB knowsB.netmap ⟨"b", keyB⟩ peerB := by
  have hmem : peerB ∈ knowsB.netmap := by decide +kernel
  have hkey : describeCodec.parseKey peerB.publicKey = some keyB := by decide +kernel
  refine ⟨rfl, ?_, ?_, ?_, by decide +kernel⟩
  · intro k hk
    exact Option.some.inj (hk.symm.trans hkey)
  · intro q hq
    exact ⟨peerB, hmem, hkey, .inl hq⟩
  · intro a ha q hq
    exact ⟨peerB, hmem, hkey, .inr ⟨a, ha, .inl hq⟩⟩

end LatticeMesh.Agent
