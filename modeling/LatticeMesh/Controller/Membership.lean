import Mathlib
import LatticeMesh.Controller.Generator
import LatticeMesh.Ipam.AllocateIP
import LatticeMesh.Lib.Workers

/-! # The reconciler of peers -/

namespace LatticeMesh.Controller.Membership

open List

open Ipam (CIDR Endpoint Endpoints hexName)

inductive Phase where
  | unset
  | pending
  | provisioning
  | ready
  | failed
  deriving DecidableEq

def Phase.Initial : Phase → Prop
  | .unset | .provisioning => True
  | .pending | .ready | .failed => False

structure Status where
  phase : Phase
  activeNetwork : Option String
  allocatedAddress : Option ℕ
  deriving DecidableEq

structure Keys where
  privateKey : String
  publicKey : String
  peerID : String
  deriving DecidableEq

structure KeyPair extends Keys where
  generated : privateKey ≠ ""

instance : Inhabited KeyPair := ⟨⟨⟨"k", "k", "1"⟩, by decide⟩⟩

structure Labels where
  entries : List (String × String)
  nodup : (entries.map Prod.fst).Nodup
  deriving DecidableEq

namespace Labels

def empty : Labels := ⟨[], nodup_nil⟩

def single (key value : String) : Labels := ⟨[(key, value)], nodup_singleton key⟩

def changed (old new : Labels) : List (String × String) := new.entries.filter (· ∉ old.entries)

def Kept (old new : Labels) (l : String × String) : Prop :=
  (l.1 ∈ old.entries.map Prod.fst → l.1 ∈ new.entries.map Prod.fst) ∧
    l.1 ∉ (changed old new).map Prod.fst

instance (old new : Labels) : DecidablePred (Kept old new) :=
  fun _ => inferInstanceAs (Decidable (_ ∧ _))

def patch (old new live : Labels) : Labels where
  entries := live.entries.filter (Kept old new) ++ changed old new
  nodup := by
    rw [map_append]
    refine nodup_append.2 ⟨live.nodup.sublist (filter_sublist.map _),
      new.nodup.sublist (filter_sublist.map _), ?_⟩
    rintro key hkey _ hchanged rfl
    obtain ⟨l, hl, rfl⟩ := List.mem_map.1 hkey
    exact (of_decide_eq_true (mem_filter.1 hl).2).2 hchanged

end Labels

structure Peer where
  deleting : Bool
  finalizer : Bool
  shadow : Bool
  networkLabels : Labels
  network : Option String
  keys : Keys
  status : Status
  deriving DecidableEq

structure Shared where
  peers : GoMap String Peer
  endpoints : Endpoints
  networks : GoMap String (Option CIDR)
  past : List (String × Peer) := []

namespace Shared

def update (s : Shared) (name : String) (f : Peer → Peer) : Shared :=
  match s.peers.get name with
  | none => s
  | some p => { s with peers := s.peers.set name (f p), past := s.past ++ [(name, p)] }

def remove (s : Shared) (name : String) : Shared :=
  match s.peers.get name with
  | none => s
  | some p => { s with peers := s.peers.delete name, past := s.past ++ [(name, p)] }

end Shared

structure Answer where
  err : Option String := none
  conflict : Bool := false
  listed : List Endpoint := []
  stale : Option Peer := none
  keys : KeyPair := default

inductive Point where
  | get
  | addFinalizer
  | finalize
  | patchKeys (peer : Peer) (new : Keys)
  | setPhase (peer : Peer) (phase : Phase) (last : Bool)
  | getNetwork (peer : Peer) (network : String)
  | ensurePeerSpec (peer : Peer) (network : String) (cidr : CIDR)
  | patchLabels (peer : Peer) (network : String) (cidr : CIDR)
  | allocate (peer : Peer) (network : String) (cidr : CIDR) (pc : Ipam.Alloc)
  | join (peer : Peer) (network : String) (address : ℕ)
  | release (peer : Peer) (address : ℕ)
  | clearLabels (peer : Peer)
  | leave (peer : Peer)
  | lastReconcile

def merge {α : Type} [DecidableEq α] (old new live : α) : α := if new = old then live else new

variable {α : Type}

theorem merge_same [DecidableEq α] (old live : α) : merge old old live = live :=
  if_pos rfl

theorem merge_ne [DecidableEq α] {old new : α} (h : new ≠ old) (live : α) :
    merge old new live = new := if_neg h

theorem merge_self [DecidableEq α] (old new : α) : merge old new old = new := by
  unfold merge
  split
  · next h => exact h.symm
  · rfl

def Status.patch (old new live : Status) : Status where
  phase := merge old.phase new.phase live.phase
  activeNetwork := merge old.activeNetwork new.activeNetwork live.activeNetwork
  allocatedAddress := merge old.allocatedAddress new.allocatedAddress live.allocatedAddress

def Keys.patch (old new live : Keys) : Keys where
  privateKey := merge old.privateKey new.privateKey live.privateKey
  publicKey := merge old.publicKey new.publicKey live.publicKey
  peerID := merge old.peerID new.peerID live.peerID

section

variable {σ η : Type} (lib : Library σ η) (peerIDOf : String → Except String String)

def ensureKeys (generated : Keys) (keys : Keys) : Except String (Option Keys) :=
  if keys.privateKey ≠ "" then .ok none
  else if keys.publicKey ≠ "" then
    if keys.peerID ≠ "" then .ok none
    else
      match peerIDOf keys.publicKey with
      | .error err => .error ("parse public key: " ++ err)
      | .ok id => if id = "" then .ok none else .ok (some { keys with peerID := id })
  else .ok (some generated)

def handleInitialization (o : Answer) (peer : Peer) : Option Point :=
  match ensureKeys peerIDOf o.keys.toKeys peer.keys with
  | .error _ => none
  | .ok (some new) => some (.patchKeys peer new)
  | .ok none => some (.setPhase peer .pending false)

def joinNetwork (peer : Peer) (network : String) : Option Point :=
  if peer.status.activeNetwork = some network then none else some (.getNetwork peer network)

def leaveNetwork (peer : Peer) : Option Point :=
  match peer.status.allocatedAddress with
  | some address => some (.release peer address)
  | none => some (.clearLabels peer)

def handlePending (peer : Peer) : Option Point :=
  match peer.network, peer.status.activeNetwork with
  | none, none => some (.setPhase peer .ready true)
  | none, some _ => leaveNetwork peer
  | some spec, some active => if active ≠ spec then leaveNetwork peer else joinNetwork peer spec
  | some spec, none => joinNetwork peer spec

def handleReady (peer : Peer) : Option Point :=
  if peer.network ≠ peer.status.activeNetwork then some (.setPhase peer .pending false)
  else some .lastReconcile

def handleFailed (peer : Peer) : Option Point := some (.setPhase peer .pending false)

def reconcile (o : Answer) (peer : Peer) : Option Point :=
  if peer.deleting then if peer.finalizer then some .finalize else none
  else if ¬ peer.finalizer then some .addFinalizer
  else if peer.shadow then none
  else
    match peer.status.phase with
    | .unset | .provisioning => handleInitialization peerIDOf o peer
    | .pending => handlePending peer
    | .ready => handleReady peer
    | .failed => handleFailed peer

def Shared.read (s : Shared) (o : Answer) (name : String) : Option Peer :=
  match o.stale with
  | some old => if (name, old) ∈ s.past then some old else s.peers.get name
  | none => s.peers.get name

def Answer.Fails (o : Answer) (s : Shared) (name : String) : Prop :=
  o.err.isSome ∨ (s.peers.get name).isNone

instance (o : Answer) (s : Shared) (name : String) : Decidable (o.Fails s name) :=
  inferInstanceAs (Decidable (_ ∨ _))

def request (network : String) (cidr : CIDR) (name : String) : Ipam.Request := ⟨network, cidr, name⟩

def Answer.ipam (o : Answer) : Ipam.Answer := ⟨o.err, o.listed⟩

def afterAllocate (peer : Peer) (network : String) (cidr : CIDR) : Ipam.Alloc → Point
  | .returned (.ok address) => .join peer network address
  | .returned (.error _) => .setPhase peer .failed false
  | pc => .allocate peer network cidr pc

def networkLabels (network : String) : Labels := .single (networkLabelKey lib network) "true"

def Peer.cleared (peer live : Peer) : Peer :=
  { peer with
    network := live.network
    keys := live.keys
    networkLabels := Labels.patch peer.networkLabels .empty live.networkLabels }

def next (o : Answer) (s : Shared) (name : String) : Point → Option Point
  | .get => if o.err.isSome then none else (s.read o name).bind (reconcile peerIDOf o)
  | .addFinalizer | .finalize => none
  | .patchKeys peer _ =>
    if o.Fails s name then none
    else if o.conflict then some (.setPhase peer .pending false) else none
  | .setPhase _ _ last => if ¬ o.Fails s name ∧ last then some .lastReconcile else none
  | .getNetwork peer network =>
    match if o.err.isSome then none else s.networks.get network with
    | none => some (.setPhase peer .failed false)
    | some none => some (.setPhase peer peer.status.phase false)
    | some (some cidr) => some (.ensurePeerSpec peer network cidr)
  | .ensurePeerSpec peer network cidr =>
    if o.err.isSome ∨ (s.networks.get network).isNone then some (.setPhase peer .failed false)
    else if peer.networkLabels = networkLabels lib network then
      some (afterAllocate peer network cidr (Ipam.allocateIP (request network cidr name)))
    else some (.patchLabels peer network cidr)
  | .patchLabels peer network cidr =>
    if o.Fails s name then some (.setPhase peer .failed false)
    else if o.conflict then
      some (afterAllocate peer network cidr (Ipam.allocateIP (request network cidr name)))
    else none
  | .allocate peer network cidr pc =>
    some (afterAllocate peer network cidr
      (Ipam.allocNext (request network cidr name) o.ipam s.endpoints pc))
  | .join _ _ _ => if o.Fails s name then none else some .lastReconcile
  | .release peer _ => if o.err.isSome then none else some (.clearLabels peer)
  | .clearLabels peer =>
    if peer.networkLabels = .empty then some (.leave peer)
    else
      match if o.err.isSome then none else s.peers.get name with
      | none => some (.setPhase peer .failed false)
      | some live => some (.leave (if o.conflict then peer else peer.cleared live))
  | .leave peer =>
    if o.Fails s name ∨ peer.network.isSome then none else some .lastReconcile
  | .lastReconcile => none

def Point.Patches : Point → Prop
  | .allocate _ _ _ _ | .release _ _ => False
  | _ => True

instance : DecidablePred Point.Patches := fun p => by
  cases p <;> dsimp only [Point.Patches] <;> infer_instance

def write (o : Answer) (s : Shared) (name : String) : Point → Shared
  | .addFinalizer => s.update name fun p => { p with finalizer := true }
  | .finalize => s.remove name
  | .patchKeys peer new => s.update name fun p => { p with keys := Keys.patch peer.keys new p.keys }
  | .setPhase peer phase _ => s.update name fun p =>
    { p with status := Status.patch peer.status { peer.status with phase := phase } p.status }
  | .patchLabels peer network _ => s.update name fun p =>
    { p with
      networkLabels :=
        Labels.patch peer.networkLabels (networkLabels lib network) p.networkLabels }
  | .allocate _ network cidr pc =>
    match Ipam.claims (request network cidr name) o.ipam s.endpoints pc with
    | some a => { s with endpoints := s.endpoints.set (hexName a) ⟨hexName a, a, name⟩ }
    | none => s
  | .join peer network address => s.update name fun p =>
    { p with
      status := Status.patch peer.status ⟨.ready, some network, some address⟩ p.status }
  | .release _ address => { s with endpoints := s.endpoints.delete (hexName address) }
  | .clearLabels peer =>
    if peer.networkLabels = .empty then s
    else s.update name fun p =>
      { p with networkLabels := Labels.patch peer.networkLabels .empty p.networkLabels }
  | .leave peer => s.update name fun p =>
    { p with status := Status.patch peer.status ⟨.ready, none, none⟩ p.status }
  | .get | .getNetwork _ _ | .ensurePeerSpec _ _ _ | .lastReconcile => s

section

-- the equations are derived once, before the proofs
attribute [local simp] next write

end

def effect (o : Answer) (s : Shared) (name : String) (p : Point) : Shared :=
  if o.err.isSome ∨ (o.conflict ∧ p.Patches) then s else write lib o s name p

inductive Event where
  | setNetwork (name : String) (network : Option String)
  | createNetwork (network : String)
  | assignCIDR (network : String) (cidr : CIDR)
  | deletePeer (name : String)
  | collect (endpoint : String)

inductive Env (s : Shared) : Event → Shared → Prop
  | setNetwork (name : String) (network : Option String) :
    Env s (.setNetwork name network) (s.update name fun p => { p with network := network })
  | createNetwork (network : String) (h : s.networks.get network = none) :
    Env s (.createNetwork network) { s with networks := s.networks.set network none }
  | assignCIDR (network : String) (cidr : CIDR) (h : s.networks.get network = some none) :
    Env s (.assignCIDR network cidr) { s with networks := s.networks.set network (some cidr) }
  | deletePeer (name : String) (p : Peer) (h : s.peers.get name = some p) :
    Env s (.deletePeer name)
      (if p.finalizer then s.update name fun p => { p with deleting := true } else s.remove name)
  | collect (endpoint : String) (e : Endpoint) (he : s.endpoints.get endpoint = some e)
      (hpeer : s.peers.get e.peerRef = none) :
    Env s (.collect endpoint) { s with endpoints := s.endpoints.delete endpoint }

structure Fresh (s : Shared) : Prop where
  peers : ∀ name p, s.peers.get name = some p → p.status = ⟨.unset, none, none⟩
  endpoints : s.endpoints = GoMap.empty
  past : s.past = []

def workers : Workers String Shared Point Answer Event where
  init := Fresh
  start _ := .get
  effect := effect lib
  next := next lib peerIDOf
  env := Env

end

section Writes

variable {s : Shared} {name : String} {f : Peer → Peer}

theorem get_update (other : String) :
    (s.update name f).peers.get other =
      if other = name then (s.peers.get name).map f else s.peers.get other := by
  unfold Shared.update
  split
  · next h =>
    split
    · next heq => rw [heq, h, Option.map_none]
    · rfl
  next p h =>
  rw [GoMap.get_set]
  split
  · rw [h, Option.map_some]
  · rfl

theorem update_endpoints : (s.update name f).endpoints = s.endpoints := by
  unfold Shared.update
  split <;> rfl

theorem update_networks : (s.update name f).networks = s.networks := by
  unfold Shared.update
  split <;> rfl

theorem get_remove (other : String) :
    (s.remove name).peers.get other = if other = name then none else s.peers.get other := by
  unfold Shared.remove
  split
  · next h =>
    split
    · next heq => rw [heq, h]
    · rfl
  · exact GoMap.get_delete ..

theorem remove_endpoints : (s.remove name).endpoints = s.endpoints := by
  unfold Shared.remove
  split <;> rfl

theorem remove_networks : (s.remove name).networks = s.networks := by
  unfold Shared.remove
  split <;> rfl

variable {e : String × Peer}

theorem mem_past_push {p : Peer} (hp : s.peers.get name = some p) (he : e ∈ s.past ++ [(name, p)]) :
    e ∈ s.past ∨ s.peers.get e.1 = some e.2 := by
  obtain he | he := mem_append.1 he
  · exact .inl he
  · rw [mem_singleton.1 he]
    exact .inr hp

theorem mem_past_update (he : e ∈ (s.update name f).past) :
    e ∈ s.past ∨ s.peers.get e.1 = some e.2 := by
  unfold Shared.update at he
  split at he
  · exact .inl he
  · next p hp => exact mem_past_push hp he

theorem mem_past_remove (he : e ∈ (s.remove name).past) :
    e ∈ s.past ∨ s.peers.get e.1 = some e.2 := by
  unfold Shared.remove at he
  split at he
  · exact .inl he
  · next p hp => exact mem_past_push hp he

end Writes

inductive Wrote (name : String) (s : Shared) : Point → Shared → Prop
  | same (p : Point) : Wrote name s p s
  | update (p : Point) (f : Peer → Peer) : Wrote name s p (s.update name f)
  | remove : Wrote name s .finalize (s.remove name)
  | claim (peer : Peer) (network : String) (cidr : CIDR) (pc : Ipam.Alloc) (a : ℕ)
      (hfree : s.endpoints.get (hexName a) = none) :
    Wrote name s (.allocate peer network cidr pc)
      { s with endpoints := s.endpoints.set (hexName a) ⟨hexName a, a, name⟩ }
  | release (peer : Peer) (a : ℕ) :
    Wrote name s (.release peer a) { s with endpoints := s.endpoints.delete (hexName a) }

theorem effect_wrote {σ η : Type} (lib : Library σ η) (o : Answer) (s : Shared) (name : String)
    (p : Point) : Wrote name s p (effect lib o s name p) := by
  unfold effect
  split
  · exact .same p
  cases p with
  | allocate peer network cidr pc =>
    dsimp only [write]
    split
    · next a hclm =>
      obtain ⟨-, -, -, hfree, -⟩ := Ipam.of_claims hclm
      exact .claim peer network cidr pc a hfree
    · exact .same _
  | clearLabels peer =>
    dsimp only [write]
    split
    · exact .same _
    · exact .update _ _
  | release peer a => exact .release peer a
  | finalize => exact .remove
  | addFinalizer => exact .update _ _
  | patchKeys peer new => exact .update _ _
  | setPhase peer phase last => exact .update _ _
  | patchLabels peer network cidr => exact .update _ _
  | join peer network a => exact .update _ _
  | leave peer => exact .update _ _
  | _ => exact .same _

theorem assigned_set {networks : GoMap String (Option CIDR)} {network other : String}
    {cidr : CIDR} {c : Option CIDR} (hoth : networks.get other ≠ some (some cidr))
    (h : networks.get network = some (some cidr)) :
    (networks.set other c).get network = some (some cidr) := by
  rw [GoMap.get_set, if_neg]
  · exact h
  · rintro rfl
    exact hoth h

theorem env_assigned {s t : Shared} {e : Event} (h : Env s e t) {network : String} {cidr : CIDR}
    (hcidr : s.networks.get network = some (some cidr)) :
    t.networks.get network = some (some cidr) := by
  cases h with
  | setNetwork name network =>
    rw [update_networks]
    exact hcidr
  | createNetwork other hnone | assignCIDR other cidr' hnone =>
    exact assigned_set (by rw [hnone]; exact nofun) hcidr
  | deletePeer name p hp =>
    split
    · rw [update_networks]
      exact hcidr
    · rw [remove_networks]
      exact hcidr
  | collect endpoint e he hpeer => exact hcidr

structure Peer.Live (peer : Peer) : Prop where
  deleting : peer.deleting = false
  finalizer : peer.finalizer = true
  shadow : peer.shadow = false

inductive Decides (peerIDOf : String → Except String String) (o : Answer) (peer : Peer) :
    Point → Prop
  | finalize (h : peer.deleting = true) (hfinalizer : peer.finalizer = true) :
    Decides peerIDOf o peer .finalize
  | addFinalizer (h : peer.deleting = false) (hfinalizer : peer.finalizer = false) :
    Decides peerIDOf o peer .addFinalizer
  | patchKeys {new : Keys} (h : peer.Live) (hphase : peer.status.phase.Initial)
      (hkeys : ensureKeys peerIDOf o.keys.toKeys peer.keys = .ok (some new)) :
    Decides peerIDOf o peer (.patchKeys peer new)
  | initialized (h : peer.Live) (hphase : peer.status.phase.Initial)
      (hkeys : ensureKeys peerIDOf o.keys.toKeys peer.keys = .ok none) :
    Decides peerIDOf o peer (.setPhase peer .pending false)
  | changed (h : peer.Live) (hphase : peer.status.phase = .ready)
      (hne : peer.network ≠ peer.status.activeNetwork) :
    Decides peerIDOf o peer (.setPhase peer .pending false)
  | retry (h : peer.Live) (hphase : peer.status.phase = .failed) :
    Decides peerIDOf o peer (.setPhase peer .pending false)
  | idle (h : peer.Live) (hphase : peer.status.phase = .pending) (hnetwork : peer.network = none)
      (hactive : peer.status.activeNetwork = none) :
    Decides peerIDOf o peer (.setPhase peer .ready true)
  | leave {p : Point} (h : peer.Live) (hphase : peer.status.phase = .pending)
      (hactive : peer.status.activeNetwork ≠ none)
      (hne : peer.network ≠ peer.status.activeNetwork) (hp : leaveNetwork peer = some p) :
    Decides peerIDOf o peer p
  | join {network : String} (h : peer.Live) (hphase : peer.status.phase = .pending)
      (hnetwork : peer.network = some network) (hactive : peer.status.activeNetwork = none) :
    Decides peerIDOf o peer (.getNetwork peer network)
  | last (h : peer.Live) (hphase : peer.status.phase = .ready)
      (heq : peer.network = peer.status.activeNetwork) :
    Decides peerIDOf o peer .lastReconcile

section Decisions

variable {peerIDOf : String → Except String String} {o : Answer} {peer : Peer} {p : Point}

theorem handlePending_eq_some_iff : handlePending peer = some p ↔
    (peer.network = none ∧ peer.status.activeNetwork = none ∧ p = .setPhase peer .ready true) ∨
    (peer.status.activeNetwork ≠ none ∧ peer.network ≠ peer.status.activeNetwork ∧
      leaveNetwork peer = some p) ∨
    ∃ network, peer.network = some network ∧ peer.status.activeNetwork = none ∧
      p = .getNetwork peer network := by
  unfold handlePending joinNetwork
  cases peer.network <;> cases peer.status.activeNetwork <;> grind

theorem handleInitialization_eq_some_iff : handleInitialization peerIDOf o peer = some p ↔
    (∃ new, ensureKeys peerIDOf o.keys.toKeys peer.keys = .ok (some new) ∧
      p = .patchKeys peer new) ∨
    (ensureKeys peerIDOf o.keys.toKeys peer.keys = .ok none ∧
      p = .setPhase peer .pending false) := by
  unfold handleInitialization
  cases ensureKeys peerIDOf o.keys.toKeys peer.keys with
  | error err => simp
  | ok r => cases r <;> grind

theorem reconcile_live (h : peer.Live) : reconcile peerIDOf o peer =
    match peer.status.phase with
    | .unset | .provisioning => handleInitialization peerIDOf o peer
    | .pending => handlePending peer
    | .ready => handleReady peer
    | .failed => handleFailed peer := by
  unfold reconcile
  rw [h.deleting, h.finalizer, h.shadow]
  rfl

theorem reconcile_initial (h : peer.Live) (hph : peer.status.phase.Initial) :
    reconcile peerIDOf o peer = handleInitialization peerIDOf o peer := by
  rw [reconcile_live h]
  split
  · rfl
  · rfl
  all_goals
    next heq =>
    rw [heq] at hph
    exact hph.elim

theorem reconcile_eq_some_iff : reconcile peerIDOf o peer = some p ↔ Decides peerIDOf o peer p := by
  constructor
  · intro h
    cases hdel : peer.deleting with
    | true =>
      unfold reconcile at h
      rw [if_pos hdel] at h
      split at h <;> cases h
      next hfin => exact .finalize hdel hfin
    | false =>
    cases hfin : peer.finalizer with
    | false =>
      unfold reconcile at h
      rw [hdel, hfin] at h
      cases h
      exact .addFinalizer hdel hfin
    | true =>
    cases hsha : peer.shadow with
    | true =>
      unfold reconcile at h
      rw [hdel, hfin, hsha] at h
      cases h
    | false =>
    have hlive : peer.Live := ⟨hdel, hfin, hsha⟩
    have hini : peer.status.phase.Initial → Decides peerIDOf o peer p := by
      intro hph
      rw [reconcile_initial hlive hph, handleInitialization_eq_some_iff] at h
      obtain ⟨new, hkeys, rfl⟩ | ⟨hkeys, rfl⟩ := h
      · exact .patchKeys hlive hph hkeys
      · exact .initialized hlive hph hkeys
    rw [reconcile_live hlive] at h
    cases hph : peer.status.phase with
    | unset | provisioning => exact hini (hph ▸ trivial)
    | pending =>
      rw [hph] at h
      obtain ⟨hnet, hact, rfl⟩ | ⟨hact, hne, hp⟩ | ⟨network, hnet, hact, rfl⟩ :=
        handlePending_eq_some_iff.1 h
      · exact .idle hlive hph hnet hact
      · exact .leave hlive hph hact hne hp
      · exact .join hlive hph hnet hact
    | ready =>
      rw [hph] at h
      dsimp only [handleReady] at h
      split at h <;> cases h
      · next hne => exact .changed hlive hph hne
      · next heq => exact .last hlive hph (not_not.1 heq)
    | failed =>
      rw [hph] at h
      cases h
      exact .retry hlive hph
  intro h
  cases h with
  | finalize h hfin =>
    unfold reconcile
    rw [if_pos h, if_pos hfin]
  | addFinalizer h hfin =>
    unfold reconcile
    rw [h, hfin]
    rfl
  | patchKeys h hph hkeys =>
    rw [reconcile_initial h hph]
    exact handleInitialization_eq_some_iff.2 (.inl ⟨_, hkeys, rfl⟩)
  | initialized h hph hkeys =>
    rw [reconcile_initial h hph]
    exact handleInitialization_eq_some_iff.2 (.inr ⟨hkeys, rfl⟩)
  | changed h hph hne =>
    rw [reconcile_live h, hph]
    exact if_pos hne
  | retry h hph =>
    rw [reconcile_live h, hph]
    rfl
  | idle h hph hnet hact =>
    rw [reconcile_live h, hph]
    exact handlePending_eq_some_iff.2 (.inl ⟨hnet, hact, rfl⟩)
  | leave h hph hact hne hp =>
    rw [reconcile_live h, hph]
    exact handlePending_eq_some_iff.2 (.inr (.inl ⟨hact, hne, hp⟩))
  | join h hph hnet hact =>
    rw [reconcile_live h, hph]
    exact handlePending_eq_some_iff.2 (.inr (.inr ⟨_, hnet, hact, rfl⟩))
  | last h hph heq =>
    rw [reconcile_live h, hph]
    exact if_neg (not_not.2 heq)

end Decisions

def newPeer : Peer where
  deleting := false
  finalizer := true
  shadow := false
  networkLabels := networkLabels .plain "net"
  network := some "net"
  keys := ⟨"k", "k", "1"⟩
  status := ⟨.unset, none, none⟩

def twoPeers : Shared where
  peers := (GoMap.empty.set "p" newPeer).set "q" newPeer
  endpoints := GoMap.empty
  networks := (GoMap.empty.set "net" (some (.v4 Ipam.tenNet))).set "net2"
    (some (.v4 Ipam.tenOneNet))

abbrev Moves := List (Action String Answer Event)

theorem twoPeers_reachable {C : Answer → Shared → String → Point → Prop} :
    ((workers .plain (fun _ => .error "")).system.guard (Workers.callsIf C)).Reachable
      ⟨twoPeers, fun _ => none⟩ := by
  have hfr : ∀ {m : GoMap String Peer} {k : String},
      (∀ j p, m.get j = some p → p.status = ⟨.unset, none, none⟩) →
      ∀ j p, (m.set k newPeer).get j = some p → p.status = ⟨.unset, none, none⟩ :=
    fun hm => fun _ _ => GoMap.forall_get_set hm rfl
  exact .init ⟨⟨hfr (hfr fun _ _ h => by cases h), rfl, rfl⟩, rfl⟩

def apply (s : Shared) : Event → Option Shared
  | .setNetwork name network => some (s.update name fun p => { p with network := network })
  | _ => none

theorem env_of_apply {s t : Shared} {e : Event} (h : apply s e = some t) : Env s e t := by
  cases e with
  | setNetwork name network =>
    cases h
    exact .setNetwork name network
  | _ => cases h

def reconciles (name : String) (n : ℕ) : Moves := .start name :: List.replicate n (.call name {})

def joins (name : String) : Moves := reconciles name 2 ++ reconciles name 7

end LatticeMesh.Controller.Membership
