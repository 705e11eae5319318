import LatticeMesh.Lib.Bytes
import LatticeMesh.Lib.GoMap
import LatticeMesh.Lib.Text

/-! # Peers and the peer manager -/

namespace LatticeMesh.Agent

open Bytes List Option GoMap

abbrev Key := List UInt8

abbrev PeerID := UInt64

def fromKey (key : Key) : PeerID := UInt64.ofNat (beNat (key.take 8))

structure PeerIdentity where
  appID : String
  publicKey : Key
  deriving DecidableEq

def PeerIdentity.id (p : PeerIdentity) : PeerID := fromKey p.publicKey

structure Peer where
  appID : String
  address : Option String
  endpoint : String
  publicKey : String
  privateKey : String
  presharedKey : String
  allowedIPs : String
  deriving DecidableEq

abbrev PeerRef := Nat

structure PeerManager where
  peers : GoMap String PeerRef
  byID : GoMap PeerID PeerRef
  heap : List Peer
  peers_lt : ∀ a r, peers.get a = some r → r < heap.length
  byID_lt : ∀ id r, byID.get id = some r → r < heap.length

namespace PeerManager

variable (parseKey : String → Option Key) (pm : PeerManager)

def new : PeerManager := ⟨.empty, .empty, [], by simp, by simp⟩

def scrubbed (peer : Peer) : Peer := { peer with privateKey := "", presharedKey := "" }

def keyID (publicKey : String) : Option PeerID :=
  if publicKey = "" then none else (parseKey publicKey).map fromKey

def addPeer (appId : String) (peer : Peer) : PeerManager where
  peers := pm.peers.set appId pm.heap.length
  byID := match keyID parseKey peer.publicKey with
    | some id => pm.byID.set id pm.heap.length
    | none => pm.byID
  heap := pm.heap ++ [scrubbed peer]
  peers_lt a r h := by
    have hold : ∀ a r, pm.peers.get a = some r → r < (pm.heap ++ [scrubbed peer]).length := by
      intro a r hr
      exact Nat.lt_of_lt_of_le (pm.peers_lt a r hr) (by simp)
    exact forall_get_set hold (by simp) h
  byID_lt id r h := by
    have hold : ∀ id r, pm.byID.get id = some r → r < (pm.heap ++ [scrubbed peer]).length := by
      intro id r hr
      exact Nat.lt_of_lt_of_le (pm.byID_lt id r hr) (by simp)
    split at h
    · exact forall_get_set hold (by simp) h
    · exact hold id r h

def getPeer (appId : String) : Option Peer := (pm.peers.get appId).bind fun r => pm.heap[r]?

def getByPeerID (id : PeerID) : Option Peer := (pm.byID.get id).bind fun r => pm.heap[r]?

def removePeer (appId : String) : PeerManager where
  peers := pm.peers.delete appId
  byID := match (pm.getPeer appId).bind fun peer => keyID parseKey peer.publicKey with
    | some id => pm.byID.delete id
    | none => pm.byID
  heap := pm.heap
  peers_lt a r h := pm.peers_lt a r (get_of_get_delete h)
  byID_lt id r h := by
    split at h
    · exact pm.byID_lt id r (get_of_get_delete h)
    · exact pm.byID_lt id r h

def getIdentity (id : PeerID) : Option PeerIdentity :=
  match pm.getByPeerID id with
  | none => none
  | some peer =>
    if peer.publicKey = "" then none
    else (parseKey peer.publicKey).map fun key => ⟨peer.appID, key⟩

end PeerManager

namespace PeerManager

variable {parseKey : String → Option Key} {pm : PeerManager}

theorem peers_addPeer (appId a : String) (peer : Peer) :
    (pm.addPeer parseKey appId peer).peers.get a =
      if a = appId then some pm.heap.length else pm.peers.get a :=
  get_set ..

theorem byID_addPeer (appId : String) (peer : Peer) (id : PeerID) :
    (pm.addPeer parseKey appId peer).byID.get id =
      if keyID parseKey peer.publicKey = some id then some pm.heap.length
      else pm.byID.get id := by
  unfold addPeer
  dsimp only
  cases hk : keyID parseKey peer.publicKey with
  | none => simp
  | some j =>
    simp only [get_set, Option.some.injEq]
    by_cases h : id = j
    · rw [if_pos h, if_pos h.symm]
    · rw [if_neg h, if_neg (Ne.symm h)]

theorem getPeer_addPeer (appId a : String) (peer : Peer) :
    (pm.addPeer parseKey appId peer).getPeer a =
      if a = appId then some (scrubbed peer) else pm.getPeer a := by
  unfold getPeer
  rw [peers_addPeer]
  split
  · exact getElem?_concat_length
  cases hr : pm.peers.get a with
  | none => rfl
  | some r => exact getElem?_append_left (pm.peers_lt a r hr)

theorem getByPeerID_addPeer (appId : String) (peer : Peer) (id : PeerID) :
    (pm.addPeer parseKey appId peer).getByPeerID id =
      if keyID parseKey peer.publicKey = some id then some (scrubbed peer)
      else pm.getByPeerID id := by
  unfold getByPeerID
  rw [byID_addPeer]
  split
  · exact getElem?_concat_length
  cases hr : pm.byID.get id with
  | none => rfl
  | some r => exact getElem?_append_left (pm.byID_lt id r hr)

variable {appId : String} {peer : Peer}

theorem getPeer_of_removePeer {a : String}
    (h : (pm.removePeer parseKey appId).getPeer a = some peer) : pm.getPeer a = some peer := by
  obtain ⟨r, hr, hp⟩ := bind_eq_some_iff.1 h
  exact bind_eq_some_iff.2 ⟨r, get_of_get_delete hr, hp⟩

theorem getByPeerID_of_removePeer {id : PeerID}
    (h : (pm.removePeer parseKey appId).getByPeerID id = some peer) :
    pm.getByPeerID id = some peer := by
  obtain ⟨r, hr, hp⟩ := bind_eq_some_iff.1 h
  refine bind_eq_some_iff.2 ⟨r, ?_, hp⟩
  unfold removePeer at hr
  dsimp only at hr
  split at hr
  · exact get_of_get_delete hr
  · exact hr

section Indexes

variable (parseKey : String → Option Key)

def keyAt (pm : PeerManager) (r : PeerRef) : Option PeerID :=
  pm.heap[r]?.bind fun peer => keyID parseKey peer.publicKey

structure InSync (pm : PeerManager) : Prop where
  indexed : ∀ a r, pm.peers.get a = some r →
    ∃ id, pm.keyAt parseKey r = some id ∧ pm.byID.get id = some r
  only : ∀ id r, pm.byID.get id = some r →
    pm.keyAt parseKey r = some id ∧ ∃ a, pm.peers.get a = some r
  apart : ∀ a b r, pm.peers.get a = some r → pm.peers.get b = some r → a = b

inductive Op where
  | add (appId : String) (peer : Peer)
  | remove (appId : String)

def apply (pm : PeerManager) : Op → PeerManager
  | .add appId peer => pm.addPeer parseKey appId peer
  | .remove appId => pm.removePeer parseKey appId

def Fits (pm : PeerManager) : Op → Prop
  | .add appId peer => ∃ id, keyID parseKey peer.publicKey = some id ∧
      (∀ r, pm.byID.get id = some r → pm.peers.get appId = some r) ∧
      ∀ r, pm.peers.get appId = some r → pm.keyAt parseKey r = some id
  | .remove _ => True

end Indexes

theorem keyAt_addPeer_self (appId : String) (peer : Peer) :
    (pm.addPeer parseKey appId peer).keyAt parseKey pm.heap.length =
      keyID parseKey peer.publicKey := by
  simp [keyAt, addPeer, scrubbed]

theorem keyAt_addPeer {r : PeerRef} (appId : String) (peer : Peer) (h : r < pm.heap.length) :
    (pm.addPeer parseKey appId peer).keyAt parseKey r = pm.keyAt parseKey r := by
  unfold keyAt addPeer
  rw [getElem?_append_left h]

namespace InSync

theorem new : InSync parseKey new := ⟨by simp [PeerManager.new], by simp [PeerManager.new],
  by simp [PeerManager.new]⟩

theorem byID_eq (h : InSync parseKey pm) {a : String} {r : PeerRef} {id : PeerID}
    (ha : pm.peers.get a = some r) (hid : pm.keyAt parseKey r = some id) :
    pm.byID.get id = some r := by
  obtain ⟨id', hid', hr⟩ := h.indexed a r ha
  rw [hid, Option.some.injEq] at hid'
  exact hid' ▸ hr

theorem addPeer (h : InSync parseKey pm) (hfits : Fits parseKey pm (.add appId peer)) :
    InSync parseKey (pm.addPeer parseKey appId peer) := by
  obtain ⟨id, hid, hfree, hsame⟩ := hfits
  have hoth : ∀ a r, a ≠ appId → pm.peers.get a = some r → pm.keyAt parseKey r ≠ some id :=
    fun a r hne ha hr => hne (h.apart a appId r ha (hfree r (h.byID_eq ha hr)))
  refine ⟨fun a r ha => ?_, fun id' r hr => ?_, fun a b r ha hb => ?_⟩
  · rw [peers_addPeer] at ha
    split at ha
    · cases ha
      exact ⟨id, (keyAt_addPeer_self ..).trans hid, by rw [byID_addPeer, if_pos hid]⟩
    next hne =>
    obtain ⟨id', hid', hr⟩ := h.indexed a r ha
    have hne' : id ≠ id' := fun heq => hoth a r hne ha (heq ▸ hid')
    refine ⟨id', (keyAt_addPeer _ _ (pm.peers_lt a r ha)).trans hid', ?_⟩
    rw [byID_addPeer, hid, if_neg fun heq => hne' (Option.some.inj heq), hr]
  · rw [byID_addPeer, hid] at hr
    split at hr
    · next heq =>
      cases hr
      exact ⟨(keyAt_addPeer_self ..).trans (hid.trans heq), appId, by rw [peers_addPeer, if_pos rfl]⟩
    next hne =>
    obtain ⟨hid', a, ha⟩ := h.only id' r hr
    have hne' : a ≠ appId := by
      rintro rfl
      exact hne ((hsame r ha).symm.trans hid')
    exact ⟨(keyAt_addPeer _ _ (pm.byID_lt id' r hr)).trans hid', a,
      by rw [peers_addPeer, if_neg hne', ha]⟩
  rw [peers_addPeer] at ha hb
  split at ha <;> split at hb
  · next ha' hb' => rw [ha', hb']
  · cases ha
    exact absurd (pm.peers_lt b _ hb) (Nat.lt_irrefl _)
  · cases hb
    exact absurd (pm.peers_lt a _ ha) (Nat.lt_irrefl _)
  · exact h.apart a b r ha hb

theorem fits (h : InSync parseKey pm) (haft : InSync parseKey (pm.addPeer parseKey appId peer)) :
    Fits parseKey pm (.add appId peer) := by
  have hnew : (pm.addPeer parseKey appId peer).peers.get appId = some pm.heap.length := by
    rw [peers_addPeer, if_pos rfl]
  obtain ⟨id, hid, -⟩ := haft.indexed appId _ hnew
  rw [keyAt_addPeer_self] at hid
  refine ⟨id, hid, fun r hr => ?_, fun r ha => ?_⟩
  · -- the entry is overwritten, so the AppID that it was for must be this one
    obtain ⟨hr', a, ha⟩ := h.only id r hr
    by_contra hne
    have hne' : a ≠ appId := fun heq => hne (heq ▸ ha)
    have hover := haft.byID_eq (a := a) (by rw [peers_addPeer, if_neg hne', ha])
      ((keyAt_addPeer _ _ (pm.byID_lt id r hr)).trans hr')
    rw [byID_addPeer, if_pos hid, Option.some.injEq] at hover
    exact absurd (pm.byID_lt id r hr) (hover ▸ Nat.lt_irrefl _)
  obtain ⟨id', hid', hr⟩ := h.indexed appId r ha
  by_contra hne
  have hold : (pm.addPeer parseKey appId peer).byID.get id' = some r := by
    rw [byID_addPeer, hid, if_neg fun heq => hne (hid'.trans heq.symm), hr]
  obtain ⟨-, b, hb⟩ := haft.only id' r hold
  rw [peers_addPeer] at hb
  split at hb
  · cases hb
    exact absurd (pm.peers_lt appId _ ha) (Nat.lt_irrefl _)
  · next hb' => exact hb' (h.apart b appId r hb ha)

theorem removePeer (h : InSync parseKey pm) (appId : String) :
    InSync parseKey (pm.removePeer parseKey appId) := by
  have hps : ∀ a r, (pm.removePeer parseKey appId).peers.get a = some r ↔
      a ≠ appId ∧ pm.peers.get a = some r := by
    intro a r
    simp [PeerManager.removePeer, GoMap.get_delete]
  have hbyID : ∀ id r, (pm.removePeer parseKey appId).byID.get id = some r ↔
      pm.byID.get id = some r ∧ pm.peers.get appId ≠ some r := by
    intro id r
    unfold PeerManager.removePeer getPeer
    dsimp only
    cases happ : pm.peers.get appId with
    | none => simp
    | some r₀ =>
      obtain ⟨id₀, hid₀, hr₀⟩ := h.indexed appId r₀ happ
      have hkey : ((some r₀).bind fun r => pm.heap[r]?).bind
          (fun peer => keyID parseKey peer.publicKey) = some id₀ := hid₀
      simp only [hkey, GoMap.get_delete, ne_eq, Option.some.injEq]
      split
      · next heq =>
        subst heq
        simp [hr₀]
      next hne =>
      refine ⟨fun hr => ⟨hr, fun heq => hne ?_⟩, And.left⟩
      exact Option.some.inj ((h.only id r hr).1.symm.trans (heq ▸ hid₀))
  refine ⟨fun a r ha => ?_, fun id r hr => ?_, fun a b r ha hb => ?_⟩
  · obtain ⟨hne, ha⟩ := (hps a r).1 ha
    obtain ⟨id, hid, hr⟩ := h.indexed a r ha
    exact ⟨id, hid, (hbyID id r).2 ⟨hr, fun happ => hne (h.apart a appId r ha happ)⟩⟩
  · obtain ⟨hr, hne⟩ := (hbyID id r).1 hr
    obtain ⟨hid, a, ha⟩ := h.only id r hr
    exact ⟨hid, a, (hps a r).2 ⟨fun heq => hne (heq ▸ ha), ha⟩⟩
  · exact h.apart a b r ((hps a r).1 ha).2 ((hps b r).1 hb).2

theorem apply_iff (h : InSync parseKey pm) (op : Op) :
    InSync parseKey (pm.apply parseKey op) ↔ Fits parseKey pm op := by
  cases op with
  | add appId peer => exact ⟨h.fits, h.addPeer⟩
  | remove appId => exact ⟨fun _ => trivial, fun _ => h.removePeer appId⟩

theorem run_iff (h : InSync parseKey pm) (ops : List Op) :
    (∀ n, InSync parseKey ((ops.take n).foldl (apply parseKey) pm)) ↔
      ∀ n op, ops[n]? = some op → Fits parseKey ((ops.take n).foldl (apply parseKey) pm) op := by
  induction ops generalizing pm with
  | nil => simp [h]
  | cons op ops ih =>
    constructor
    · intro hall n op' hop
      cases n with
      | zero =>
        cases hop
        exact (h.apply_iff op).1 (hall 1)
      | succ n => exact (ih (hall 1)).1 (fun m => hall (m + 1)) n op' hop
    intro hall n
    cases n with
    | zero => exact h
    | succ n =>
      exact (ih ((h.apply_iff op).2 (hall 0 op rfl))).2 (fun m op' hop => hall (m + 1) op' hop) n

end InSync

/-- **The indexes of the peer manager.** They are in sync all along a sequence of calls exactly if
every peer that is added has a key of its own, the same as before if its AppID was stored. -/
theorem indexes_in_sync_iff (ops : List Op) :
    (∀ n, InSync parseKey ((ops.take n).foldl (apply parseKey) PeerManager.new)) ↔
      ∀ n op, ops[n]? = some op →
        Fits parseKey ((ops.take n).foldl (apply parseKey) PeerManager.new) op :=
  InSync.new.run_iff ops

def asciiKey (text : String) : Option Key := some (Text.ascii text)

def laptop (publicKey : String) : Peer := ⟨"laptop", none, "", publicKey, "", "", ""⟩

theorem rekeyed_peer_left_behind :
    ∃ r, ([Op.add "laptop" (laptop "a"), .add "laptop" (laptop "b")].foldl (apply asciiKey)
        PeerManager.new).byID.get 97 = some r ∧
      (∀ a, ([Op.add "laptop" (laptop "a"), .add "laptop" (laptop "b")].foldl (apply asciiKey)
        PeerManager.new).peers.get a ≠ some r) := by
  refine ⟨0, by decide +kernel, fun a => ?_⟩
  simp only [foldl_cons, foldl_nil, apply, peers_addPeer]
  split
  · decide
  · simp [PeerManager.new]

end PeerManager

end LatticeMesh.Agent
