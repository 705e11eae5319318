import LatticeMesh.Controller.Generator
import LatticeMesh.Lib.Workers

/-! # Peerings and their cleanup -/

namespace LatticeMesh.Controller.Peering

open List Option GoMap

abbrev Map := String → Option String

def Map.mergePatch (old new live : Map) : Map := fun k => if new k = old k then live k else new k

structure Peer where
  labels : Map
  annotations : Map
  appID : String
  publicKey : String
  peerID : String
  allocatedAddress : Option String
  phase : String

structure Network where
  ready : Bool
  activeCIDR : String

inductive PolicyKind where
  | gwAccess
  | shadow
  deriving DecidableEq

structure Policy where
  label : String
  network : String
  kind : PolicyKind

abbrev Key := String × String

inductive Side where
  | a
  | b
  deriving DecidableEq

def Side.other : Side → Side
  | .a => .b
  | .b => .a

structure Spec where
  name : String
  namespaceA : String
  networkA : String
  namespaceB : String
  networkB : String

namespace Spec

def ns (spec : Spec) : Side → String
  | .a => spec.namespaceA
  | .b => spec.namespaceB

def network (spec : Spec) : Side → String
  | .a => spec.networkA
  | .b => spec.networkB

def shadowPeerName (spec : Spec) : String := "peering-shadow-" ++ spec.name

def policyName (spec : Spec) : PolicyKind → String
  | .gwAccess => "lattice-peering-" ++ spec.name ++ "-gw-access"
  | .shadow => "lattice-peering-" ++ spec.name ++ "-shadow"

def cleanupNetwork (spec : Spec) (side : Side) : String :=
  if spec.ns side = spec.namespaceB then spec.networkB else spec.networkA

end Spec

structure Object where
  finalizer : Bool
  deleting : Bool

structure Shared where
  peering : Option Object
  peers : GoMap Key Peer
  policies : GoMap Key Policy
  networks : GoMap Key Network

inductive Target where
  | shadowPeer (side : Side)
  | policy (side : Side) (kind : PolicyKind)
  deriving DecidableEq

inductive Task where
  | annotate (side : Side)
  | shadow (side : Side)
  | policy (side : Side) (kind : PolicyKind)

structure Gateways where
  cidrA : String
  cidrB : String
  gatewayA : String × Peer
  gatewayB : String × Peer

namespace Gateways

def gateway (g : Gateways) : Side → String × Peer
  | .a => g.gatewayA
  | .b => g.gatewayB

def cidr (g : Gateways) : Side → String
  | .a => g.cidrA
  | .b => g.cidrB

end Gateways

structure Answer where
  err : Option String := none
  first : String := ""

inductive Point where
  | get
  | addFinalizer
  | networkA
  | networkB (cidrA : String)
  | gatewayA (cidrA cidrB : String)
  | gatewayB (cidrA cidrB : String) (gatewayA : String × Peer)
  | task (g : Gateways) (tasks : List Task)
  | create (g : Gateways) (t : Task) (rest : List Task)
  | patchShadow (g : Gateways) (side : Side) (existing : Peer) (rest : List Task)
  | patchPolicy (g : Gateways) (side : Side) (kind : PolicyKind) (existing : Policy)
      (rest : List Task)
  | shadowStatus (g : Gateways) (side : Side) (rest : List Task)
  | find (sides : List Side)
  | unannotate (side : Side) (gateway : String) (rest : List Side)
  | remove (targets : List Target)
  | finalize

def tasks : List Task :=
  [.annotate .a, .annotate .b, .shadow .b, .shadow .a, .policy .a .gwAccess, .policy .a .shadow,
    .policy .b .gwAccess, .policy .b .shadow]

def targets : List Target :=
  [.shadowPeer .a, .policy .a .gwAccess, .policy .a .shadow,
    .shadowPeer .b, .policy .b .gwAccess, .policy .b .shadow]

def labelGateway : String := "alattice.io/gateway"

def labelShadow : String := "alattice.io/shadow"

section

variable {σ η : Type} (lib : Library σ η) (spec : Spec)

def peeringRouteAnnotationKey : String :=
  "alattice.io/" ++ safeKeyName lib "peering-route-" spec.name

def Matches (networkName : String) (p : Peer) : Prop :=
  p.labels labelGateway = some "true" ∧ p.labels (networkLabelKey lib networkName) = some "true"

instance (networkName : String) (p : Peer) : Decidable (Matches lib networkName p) :=
  inferInstanceAs (Decidable (_ ∧ _))

def findGateway (s : Shared) (ns networkName first : String) : Option (String × Peer) :=
  match (s.peers.get (ns, first)).filter (Matches lib networkName) with
  | some p => some (first, p)
  | none =>
    (s.peers.toList.find? fun e => e.1.1 = ns ∧ Matches lib networkName e.2).map fun e =>
      (e.1.2, e.2)

def getReadyNetwork (o : Answer) (s : Shared) (side : Side) : Option String :=
  if o.err.isSome then none
  else
    match s.networks.get (spec.ns side, spec.network side) with
    | none => none
    | some n => if n.ready ∧ n.activeCIDR ≠ "" then some n.activeCIDR else none

def desiredShadow (g : Gateways) (side : Side) : Peer :=
  let src := (g.gateway side.other).2
  { labels := fun k =>
      if k = networkLabelKey lib (spec.network side) ∨ k = labelShadow then some "true" else none
    annotations := fun k =>
      if k = annotationShadowAllowedIPs then some (g.cidr side.other) else none
    appID := src.appID
    publicKey := src.publicKey
    peerID := src.peerID
    allocatedAddress := none
    phase := "" }

def safeLabelValue (name : String) : String :=
  if name.length ≤ 63 then name
  else String.ofList (name.toList.take 54) ++ "-" ++ lib.shortHash name

def desiredPolicy (side : Side) (kind : PolicyKind) : Policy :=
  ⟨safeLabelValue lib spec.name, spec.network side, kind⟩

def Gateways.route (g : Gateways) (side : Side) : String := g.cidr side.other

def Gateways.Current (g : Gateways) (side : Side) : Prop :=
  ((g.gateway side).2.annotations (peeringRouteAnnotationKey lib spec)).getD "" = g.route side

instance (g : Gateways) (side : Side) : Decidable (g.Current lib spec side) :=
  inferInstanceAs (Decidable (_ = _))

def Gateways.key (g : Gateways) (side : Side) : Key := (spec.ns side, (g.gateway side).1)

def shadowKey (side : Side) : Key := (spec.ns side, spec.shadowPeerName)

def policyKey (side : Side) (kind : PolicyKind) : Key := (spec.ns side, spec.policyName kind)

def Gateways.syncs (g : Gateways) (side : Side) (existing : Option String) : Bool :=
  match (g.gateway side.other).2.allocatedAddress with
  | none => false
  | some address => existing ≠ some address

def next (o : Answer) (s : Shared) : Point → Option Point
  | .get =>
    match if o.err.isSome then none else s.peering with
    | none => none
    | some obj =>
      if obj.deleting then some (.find [.a, .b])
      else if obj.finalizer then some .networkA
      else some .addFinalizer
  | .addFinalizer => none
  | .networkA => (getReadyNetwork spec o s .a).map .networkB
  | .networkB cidrA => (getReadyNetwork spec o s .b).map (.gatewayA cidrA)
  | .gatewayA cidrA cidrB =>
    if o.err.isSome then none
    else (findGateway lib s spec.namespaceA spec.networkA o.first).map (.gatewayB cidrA cidrB)
  | .gatewayB cidrA cidrB gatewayA =>
    if o.err.isSome then none
    else (findGateway lib s spec.namespaceB spec.networkB o.first).map fun gatewayB =>
      .task ⟨cidrA, cidrB, gatewayA, gatewayB⟩ tasks
  | .task _ [] => none
  | .task g (.annotate side :: rest) =>
    if g.Current lib spec side then some (.task g rest)
    else if o.err.isSome ∨ (s.peers.get (g.key spec side)).isNone then none
    else some (.task g rest)
  | .task g (.shadow side :: rest) =>
    if o.err.isSome then none
    else
      match s.peers.get (shadowKey spec side) with
      | none => some (.create g (.shadow side) rest)
      | some existing => some (.patchShadow g side existing rest)
  | .task g (.policy side kind :: rest) =>
    if o.err.isSome then none
    else
      match s.policies.get (policyKey spec side kind) with
      | none => some (.create g (.policy side kind) rest)
      | some existing => some (.patchPolicy g side kind existing rest)
  | .create _ (.annotate _) _ => none
  | .create g (.shadow side) rest =>
    if o.err.isSome ∨ (s.peers.get (shadowKey spec side)).isSome then none
    else if g.syncs side none then some (.shadowStatus g side rest) else some (.task g rest)
  | .create g (.policy side kind) rest =>
    if o.err.isSome ∨ (s.policies.get (policyKey spec side kind)).isSome then none
    else some (.task g rest)
  | .patchShadow g side existing rest =>
    if o.err.isSome ∨ (s.peers.get (shadowKey spec side)).isNone then none
    else if g.syncs side existing.allocatedAddress then some (.shadowStatus g side rest)
    else some (.task g rest)
  | .patchPolicy g side kind _ rest =>
    if o.err.isSome ∨ (s.policies.get (policyKey spec side kind)).isNone then none
    else some (.task g rest)
  | .shadowStatus g side rest =>
    if o.err.isSome ∨ (s.peers.get (shadowKey spec side)).isNone then none
    else some (.task g rest)
  | .find [] => some (.remove targets)
  | .find (side :: rest) =>
    match if o.err.isSome then none
      else findGateway lib s (spec.ns side) (spec.cleanupNetwork side) o.first with
    | none => some (.find rest)
    | some gw =>
      if (gw.2.annotations (peeringRouteAnnotationKey lib spec)).isSome then
        some (.unannotate side gw.1 rest)
      else some (.find rest)
  | .unannotate _ _ rest => some (.find rest)
  | .remove [] => some .finalize
  | .remove (_ :: rest) => some (.remove rest)
  | .finalize => none

namespace Shared

def annotate (s : Shared) (k : Key) (name : String) (value : Option String) : Shared :=
  { s with
    peers := s.peers.modify k fun p =>
      { p with annotations := fun j => if j = name then value else p.annotations j } }

def delete (spec : Spec) (s : Shared) : Target → Shared
  | .shadowPeer side => { s with peers := s.peers.delete (shadowKey spec side) }
  | .policy side kind => { s with policies := s.policies.delete (policyKey spec side kind) }

end Shared

def Peer.patch (existing desired live : Peer) : Peer :=
  { live with
    labels := Map.mergePatch existing.labels desired.labels live.labels
    annotations := Map.mergePatch existing.annotations desired.annotations live.annotations
    publicKey :=
      if desired.publicKey = existing.publicKey then live.publicKey else desired.publicKey
    appID := if desired.appID = existing.appID then live.appID else desired.appID
    peerID := if desired.peerID = existing.peerID then live.peerID else desired.peerID }

def effect (o : Answer) (s : Shared) (p : Point) : Shared :=
  if o.err.isSome then s
  else
    match p with
    | .addFinalizer => { s with peering := s.peering.map fun obj => { obj with finalizer := true } }
    | .task g (.annotate side :: _) =>
      if g.Current lib spec side then s
      else s.annotate (g.key spec side) (peeringRouteAnnotationKey lib spec) (g.route side)
    | .create g (.shadow side) _ =>
      if (s.peers.get (shadowKey spec side)).isSome then s
      else { s with peers := s.peers.set (shadowKey spec side) (desiredShadow lib spec g side) }
    | .create _ (.policy side kind) _ =>
      if (s.policies.get (policyKey spec side kind)).isSome then s
      else
        { s with
          policies := s.policies.set (policyKey spec side kind) (desiredPolicy lib spec side kind) }
    | .patchShadow g side existing _ =>
      { s with
        peers := s.peers.modify (shadowKey spec side)
          (Peer.patch existing (desiredShadow lib spec g side)) }
    | .patchPolicy _ side kind existing _ =>
      { s with
        policies := s.policies.modify (policyKey spec side kind) fun live =>
          { live with
            network := if spec.network side = existing.network then live.network
              else spec.network side
            kind := if kind = existing.kind then live.kind else kind } }
    | .shadowStatus g side _ =>
      { s with
        peers := s.peers.modify (shadowKey spec side) fun live =>
          { live with
            allocatedAddress := (g.gateway side.other).2.allocatedAddress
            phase := "Ready" } }
    | .unannotate side gateway _ =>
      s.annotate (spec.ns side, gateway) (peeringRouteAnnotationKey lib spec) none
    | .remove (t :: _) => s.delete spec t
    | .finalize => { s with peering := none }
    | _ => s

section

-- the equations are derived once, before the proofs
attribute [local simp] next effect

end

inductive Event where
  | editPeer (k : Key) (p : Peer)
  | deletePeer (k : Key)
  | editPolicy (k : Key) (p : Policy)
  | deletePolicy (k : Key)
  | editNetwork (k : Key) (n : Network)
  | deletePeering

inductive Env (s : Shared) : Event → Shared → Prop
  | editPeer (k : Key) (p : Peer)
      (hroute : p.annotations (peeringRouteAnnotationKey lib spec) ≠ none →
        ∃ old, s.peers.get k = some old ∧
          old.annotations (peeringRouteAnnotationKey lib spec) ≠ none)
      (hname : k.2 = spec.shadowPeerName → (s.peers.get k).isSome) :
    Env s (.editPeer k p) { s with peers := s.peers.set k p }
  | deletePeer (k : Key) : Env s (.deletePeer k) { s with peers := s.peers.delete k }
  | editPolicy (k : Key) (p : Policy)
      (hname : (∃ kind, k.2 = spec.policyName kind) → (s.policies.get k).isSome) :
    Env s (.editPolicy k p) { s with policies := s.policies.set k p }
  | deletePolicy (k : Key) : Env s (.deletePolicy k) { s with policies := s.policies.delete k }
  | editNetwork (k : Key) (n : Network) :
    Env s (.editNetwork k n) { s with networks := s.networks.set k n }
  | deletePeering : Env s .deletePeering
      { s with
        peering := s.peering.bind fun obj =>
          if obj.finalizer then some { obj with deleting := true } else none }

def Unannotated (s : Shared) (ns : String) : Prop :=
  ∀ name p, s.peers.get (ns, name) = some p →
    p.annotations (peeringRouteAnnotationKey lib spec) = none

def Absent (s : Shared) : Target → Prop
  | .shadowPeer side => s.peers.get (shadowKey spec side) = none
  | .policy side kind => s.policies.get (policyKey spec side kind) = none

structure Clean (s : Shared) : Prop where
  unannotated : ∀ side, Unannotated lib spec s (spec.ns side)
  absent : ∀ t, Absent spec s t

def workers : Workers Unit Shared Point Answer Event where
  init s := s.peering = some ⟨false, false⟩ ∧ Clean lib spec s
  start _ := .get
  effect o s _ p := effect lib spec o s p
  next o s _ p := next lib spec o s p
  env := Env lib spec

def Annotated (p : Peer) : Prop := p.annotations (peeringRouteAnnotationKey lib spec) ≠ none

instance (p : Peer) : Decidable (Annotated lib spec p) := inferInstanceAs (Decidable (¬ _))

def Single (s : Shared) (side : Side) : Prop :=
  ∀ e ∈ s.peers.toList, e.1.1 = spec.ns side → Annotated lib spec e.2 →
    Matches lib (spec.cleanupNetwork side) e.2 ∧
    ∀ e' ∈ s.peers.toList, e'.1.1 = spec.ns side →
      Matches lib (spec.cleanupNetwork side) e'.2 → e'.1 = e.1

def Effective (o : Answer) (s : Shared) : Point → Prop
  | .find (side :: _) => Single lib spec s side ∧
    ((∃ e ∈ s.peers.toList, e.1.1 = spec.ns side ∧ Annotated lib spec e.2) → o.err = none)
  | .unannotate side gateway _ =>
    (s.peers.get (spec.ns side, gateway)).any (Annotated lib spec) → o.err = none
  | .remove (t :: _) => ¬ Absent spec s t → o.err = none
  | _ => True

instance (s : Shared) (side : Side) : Decidable (Single lib spec s side) :=
  inferInstanceAs (Decidable (∀ e ∈ s.peers.toList, _))

instance (s : Shared) : (t : Target) → Decidable (Absent spec s t)
  | .shadowPeer _ => inferInstanceAs (Decidable (_ = none))
  | .policy _ _ => inferInstanceAs (Decidable (_ = none))

instance (o : Answer) (s : Shared) : (p : Point) → Decidable (Effective lib spec o s p)
  | .find (_ :: _) => inferInstanceAs (Decidable (_ ∧ _))
  | .unannotate _ _ _ => inferInstanceAs (Decidable (_ → _))
  | .remove (_ :: _) => inferInstanceAs (Decidable (¬ _ → _))
  | .find [] | .remove [] | .get | .addFinalizer | .networkA | .networkB _ | .gatewayA _ _
  | .gatewayB _ _ _ | .task _ _ | .create _ _ _ | .patchShadow _ _ _ _ | .patchPolicy _ _ _ _ _
  | .shadowStatus _ _ _ | .finalize => isTrue trivial

def apply (s : Shared) : Event → Option Shared
  | .editPeer k p =>
    if (Annotated lib spec p → (s.peers.get k).any (Annotated lib spec)) ∧
        (k.2 = spec.shadowPeerName → (s.peers.get k).isSome) then
      some { s with peers := s.peers.set k p }
    else none
  | .deletePeering => some
      { s with
        peering := s.peering.bind fun obj =>
          if obj.finalizer then some { obj with deleting := true } else none }
  | _ => none

end

section Proofs

variable {σ η : Type} {lib : Library σ η} {spec : Spec}

variable {s : Shared} {p : Point} {o : Answer} {rest : List Side} {side : Side}

variable {ns name : String}

theorem findGateway_some {networkName first : String} {p : Peer}
    (h : findGateway lib s ns networkName first = some (name, p)) :
    s.peers.get (ns, name) = some p ∧ Matches lib networkName p := by
  unfold findGateway at h
  split at h
  · next q hq =>
    cases h
    obtain ⟨hget, hmt⟩ := filter_eq_some_iff.1 hq
    exact ⟨hget, of_decide_eq_true hmt⟩
  obtain ⟨⟨⟨ns', name'⟩, q⟩, he, heq⟩ := map_eq_some_iff.1 h
  cases heq
  have hfnd := find?_some he
  obtain ⟨rfl, hmt⟩ := of_decide_eq_true hfnd
  exact ⟨GoMap.mem_toList.1 (mem_of_find?_eq_some he), hmt⟩

theorem not_matches_of_findGateway_none {networkName first : String} {p : Peer}
    (h : findGateway lib s ns networkName first = none) (hp : s.peers.get (ns, name) = some p) :
    ¬ Matches lib networkName p := by
  intro hmt
  unfold findGateway at h
  split at h
  · cases h
  have hall := find?_eq_none.1 (map_eq_none_iff.1 h) ((ns, name), p)
    (GoMap.mem_toList.2 hp)
  exact hall (decide_eq_true ⟨rfl, hmt⟩)

structure Fewer (lib : Library σ η) (spec : Spec) (s t : Shared) : Prop where
  annotated : ∀ k p, t.peers.get k = some p → Annotated lib spec p →
    ∃ old, s.peers.get k = some old ∧ Annotated lib spec old
  absent : ∀ target, Absent spec s target → Absent spec t target

namespace Fewer

variable {s t : Shared}

theorem unannotated (h : Fewer lib spec s t) (hs : Unannotated lib spec s ns) :
    Unannotated lib spec t ns := by
  intro name p hp
  by_contra hann
  obtain ⟨old, hold, hne⟩ := h.annotated _ p hp hann
  exact hne (hs name old hold)

theorem clean (h : Fewer lib spec s t) (hs : Clean lib spec s) : Clean lib spec t :=
  ⟨fun side => h.unannotated (hs.unannotated side),
    fun target => h.absent target (hs.absent target)⟩

theorem refl (s : Shared) : Fewer lib spec s s := ⟨fun _ p hp h => ⟨p, hp, h⟩, fun _ h => h⟩

theorem of_eq (hps : t.peers = s.peers) (hpol : t.policies = s.policies) :
    Fewer lib spec s t := by
  refine ⟨fun k p hp h => ⟨p, hps ▸ hp, h⟩, fun target h => ?_⟩
  cases target with
  | shadowPeer side => exact (congrArg (GoMap.get · _) hps).trans h
  | policy side kind => exact (congrArg (GoMap.get · _) hpol).trans h

theorem annotate (s : Shared) (k : Key) :
    Fewer lib spec s (s.annotate k (peeringRouteAnnotationKey lib spec) none) := by
  refine ⟨fun j p hp h => ?_, fun target h => ?_⟩
  · unfold Shared.annotate at hp
    rw [GoMap.get_modify] at hp
    split at hp
    · obtain ⟨q, hq, rfl⟩ := map_eq_some_iff.1 hp
      exact absurd (if_pos rfl) h
    · exact ⟨p, hp, h⟩
  cases target with
  | shadowPeer side =>
    change (s.peers.modify k _).get (shadowKey spec side) = none
    have h : s.peers.get (shadowKey spec side) = none := h
    rw [GoMap.get_modify]
    split
    · next heq => rw [← heq, h, map_none]
    · exact h
  | policy side kind => exact h

theorem deletePeer (s : Shared) (k : Key) :
    Fewer lib spec s { s with peers := s.peers.delete k } := by
  refine ⟨fun j p hp h => ⟨p, get_of_get_delete hp, h⟩, fun target h => ?_⟩
  cases target with
  | shadowPeer side =>
    change (s.peers.delete k).get (shadowKey spec side) = none
    rw [GoMap.get_delete, show s.peers.get (shadowKey spec side) = none from h, ite_self]
  | policy side kind => exact h

theorem deletePolicy (s : Shared) (k : Key) :
    Fewer lib spec s { s with policies := s.policies.delete k } := by
  refine ⟨fun j p hp h => ⟨p, hp, h⟩, fun target h => ?_⟩
  cases target with
  | shadowPeer side => exact h
  | policy side kind =>
    change (s.policies.delete k).get (policyKey spec side kind) = none
    rw [GoMap.get_delete, show s.policies.get (policyKey spec side kind) = none from h, ite_self]

theorem delete (s : Shared) (target : Target) : Fewer lib spec s (s.delete spec target) := by
  cases target with
  | shadowPeer side => exact deletePeer s _
  | policy side kind => exact deletePolicy s _

theorem env {e : Event} (he : Env lib spec s e t) : Fewer lib spec s t := by
  cases he with
  | editPeer k p hrou hname =>
    refine ⟨fun j q hq h => ?_, fun target h => ?_⟩
    · change (s.peers.set k p).get j = some q at hq
      rw [get_set] at hq
      split at hq
      · next hj =>
        cases hq
        exact hj ▸ hrou h
      · exact ⟨q, hq, h⟩
    cases target with
    | shadowPeer side =>
      change (s.peers.set k p).get (shadowKey spec side) = none
      have h : s.peers.get (shadowKey spec side) = none := h
      rw [get_set, if_neg, h]
      rintro rfl
      have hsome := hname rfl
      rw [h] at hsome
      cases hsome
    | policy side kind => exact h
  | deletePeer k => exact deletePeer s k
  | editPolicy k p hname =>
    refine ⟨fun j q hq h => ⟨q, hq, h⟩, fun target h => ?_⟩
    cases target with
    | shadowPeer side => exact h
    | policy side kind =>
      change (s.policies.set k p).get (policyKey spec side kind) = none
      have h : s.policies.get (policyKey spec side kind) = none := h
      rw [get_set, if_neg, h]
      rintro rfl
      have hsome := hname ⟨kind, rfl⟩
      rw [h] at hsome
      cases hsome
  | deletePolicy k => exact deletePolicy s k
  | editNetwork k n => exact of_eq rfl rfl
  | deletePeering => exact of_eq rfl rfl

end Fewer

theorem absent_delete (s : Shared) (target : Target) :
    Absent spec (s.delete spec target) target := by
  cases target with
  | shadowPeer side =>
    change (s.peers.delete _).get _ = none
    rw [GoMap.get_delete, if_pos rfl]
  | policy side kind =>
    change (s.policies.delete _).get _ = none
    rw [GoMap.get_delete, if_pos rfl]

def Guarded (s : Shared) : Prop := ∃ obj, s.peering = some obj ∧ obj.finalizer = true

def Point.Says (lib : Library σ η) (spec : Spec) (s : Shared) : Point → Prop
  | .get | .addFinalizer => True
  | .find sides => ∀ side ∉ sides, Unannotated lib spec s (spec.ns side)
  | .unannotate side gateway rest =>
    (∀ side' ∉ side :: rest, Unannotated lib spec s (spec.ns side')) ∧
    ∀ name p, s.peers.get (spec.ns side, name) = some p → Annotated lib spec p → name = gateway
  | .remove rest => (∀ side, Unannotated lib spec s (spec.ns side)) ∧ ∀ t ∉ rest, Absent spec s t
  | .finalize => Clean lib spec s
  | _ => Guarded s

theorem says_mono {t : Shared} (h : Fewer lib spec s t) (hgd : Guarded s → Guarded t)
    (hp : p.Says lib spec s) : p.Says lib spec t := by
  cases p with
  | get => trivial
  | addFinalizer => trivial
  | find sides => exact fun side hside => h.unannotated (hp side hside)
  | unannotate side gateway rest =>
    refine ⟨fun side' hside => h.unannotated (hp.1 side' hside), fun name p hget hann => ?_⟩
    obtain ⟨old, hold, hne⟩ := h.annotated _ p hget hann
    exact hp.2 name old hold hne
  | remove rest =>
    exact ⟨fun side => h.unannotated (hp.1 side), fun t ht => h.absent t (hp.2 t ht)⟩
  | finalize => exact h.clean hp
  | _ => exact hgd hp

def Point.Normal : Point → Prop
  | .get | .addFinalizer | .find _ | .unannotate _ _ _ | .remove _ | .finalize => False
  | _ => True

theorem says_iff_of_normal (hp : p.Normal) :
    p.Says lib spec s ↔ Guarded s := by
  cases p with
  | get => exact hp.elim
  | addFinalizer => exact hp.elim
  | find sides => exact hp.elim
  | unannotate side gateway rest => exact hp.elim
  | remove rest => exact hp.elim
  | finalize => exact hp.elim
  | _ => exact Iff.rfl

theorem effect_peering (hp : p.Normal) :
    (effect lib spec o s p).peering = s.peering := by
  unfold effect
  split
  · rfl
  split
  · exact hp.elim
  · split <;> rfl
  · split <;> rfl
  · split <;> rfl
  · rfl
  · rfl
  · rfl
  · exact hp.elim
  · exact hp.elim
  · exact hp.elim
  · rfl

variable {q : Point}

theorem normal_of_map {α : Type} {f : α → Point} {r : Option α} (h : r.map f = some q)
    (hf : ∀ a, (f a).Normal) : q.Normal := by
  obtain ⟨a, -, rfl⟩ := map_eq_some_iff.1 h
  exact hf a

theorem next_normal (hp : p.Normal) (h : next lib spec o s p = some q) : q.Normal := by
  cases p with
  | networkA | networkB cidrA => exact normal_of_map h fun _ => trivial
  | gatewayA cidrA cidrB | gatewayB cidrA cidrB gatewayA =>
    obtain ⟨-, h⟩ := ite_none_left_eq_some.1 h
    exact normal_of_map h fun _ => trivial
  | task g tasks =>
    cases tasks with
    | nil => cases h
    | cons t rest =>
      cases t with
      | annotate side =>
        unfold next at h
        dsimp only at h
        split at h
        · cases h
          trivial
        obtain ⟨-, h⟩ := ite_none_left_eq_some.1 h
        cases h
        trivial
      | shadow side | policy side kind =>
        obtain ⟨-, h⟩ := ite_none_left_eq_some.1 h
        split at h <;> cases h <;> trivial
  | create g t rest =>
    cases t with
    | annotate side => cases h
    | shadow side =>
      obtain ⟨-, h⟩ := ite_none_left_eq_some.1 h
      split at h <;> cases h <;> trivial
    | policy side kind =>
      obtain ⟨-, h⟩ := ite_none_left_eq_some.1 h
      cases h
      trivial
  | patchShadow g side existing rest =>
    obtain ⟨-, h⟩ := ite_none_left_eq_some.1 h
    split at h <;> cases h <;> trivial
  | patchPolicy g side kind existing rest | shadowStatus g side rest =>
    obtain ⟨-, h⟩ := ite_none_left_eq_some.1 h
    cases h
    trivial
  | _ => exact hp.elim

theorem mem_targets (t : Target) : t ∈ targets := by
  cases t with
  | shadowPeer side => cases side <;> decide
  | policy side kind => cases side <;> cases kind <;> decide

theorem found_of_annotated (h : Effective lib spec o s (.find (side :: rest))) {p : Peer}
    (hp : s.peers.get (spec.ns side, name) = some p) (hann : Annotated lib spec p)
    :
    o.err = none ∧
      findGateway lib s (spec.ns side) (spec.cleanupNetwork side) o.first = some (name, p) := by
  have hmem : ((spec.ns side, name), p) ∈ s.peers.toList := GoMap.mem_toList.2 hp
  obtain ⟨hmat, honly⟩ := h.1 _ hmem rfl hann
  refine ⟨h.2 ⟨_, hmem, rfl, hann⟩, ?_⟩
  cases hfnd : findGateway lib s (spec.ns side) (spec.cleanupNetwork side) o.first with
  | none => exact absurd hmat (not_matches_of_findGateway_none hfnd hp)
  | some gw =>
    obtain ⟨name', p'⟩ := gw
    obtain ⟨hget, hgw⟩ := findGateway_some hfnd
    cases honly _ (GoMap.mem_toList.2 hget) rfl hgw
    rw [hp] at hget
    cases hget
    rfl

theorem says_find (h : Effective lib spec o s (.find (side :: rest)))
    (hs : (Point.find (side :: rest)).Says lib spec s)
    (hq : next lib spec o s (.find (side :: rest)) = some q) : q.Says lib spec s := by
  unfold next at hq
  dsimp only at hq
  have hpas : (∀ name p, s.peers.get (spec.ns side, name) = some p →
      ¬ Annotated lib spec p) → (Point.find rest).Says lib spec s := by
    intro hnone side' hside'
    obtain rfl | hne := eq_or_ne side' side
    · exact fun name p hp => not_not.1 (hnone name p hp)
    · exact hs side' (not_mem_cons_of_ne_of_not_mem hne hside')
  split at hq
  · next hfnd =>
    cases hq
    refine hpas fun name p hp hann => ?_
    obtain ⟨herr, hgw⟩ := found_of_annotated h hp hann
    rw [herr, hgw] at hfnd
    cases hfnd
  next gw hfnd =>
  split at hq
  · cases hq
    refine ⟨hs, fun name p hp hann => ?_⟩
    obtain ⟨herr, hgw⟩ := found_of_annotated h hp hann
    rw [herr, hgw] at hfnd
    cases hfnd
    rfl
  next hpla =>
  cases hq
  refine hpas fun name p hp hann => ?_
  obtain ⟨herr, hgw⟩ := found_of_annotated h hp hann
  rw [herr, hgw] at hfnd
  cases hfnd
  exact hpla (isSome_iff_ne_none.2 hann)

variable {gateway : String}

theorem effect_unannotate :
    Fewer lib spec s (effect lib spec o s (.unannotate side gateway rest)) := by
  unfold effect
  split
  · exact .refl s
  · exact .annotate s _

theorem says_unannotate (h : Effective lib spec o s (.unannotate side gateway rest))
    (hs : (Point.unannotate side gateway rest).Says lib spec s) :
    (Point.find rest).Says lib spec (effect lib spec o s (.unannotate side gateway rest)) := by
  intro side' hside'
  obtain rfl | hne := eq_or_ne side' side
  · intro name p hp
    by_contra hann
    obtain ⟨old, hold, hne⟩ := effect_unannotate.annotated _ p hp hann
    obtain rfl := hs.2 name old hold hne
    have herr := h (Option.any_eq_true .. |>.2 ⟨old, hold, decide_eq_true hne⟩)
    unfold effect at hp
    rw [herr] at hp
    change (s.peers.modify _ _).get _ = some p at hp
    rw [GoMap.get_modify, if_pos rfl, hold] at hp
    cases hp
    exact hann (if_pos rfl)
  · exact effect_unannotate.unannotated (hs.1 side' (not_mem_cons_of_ne_of_not_mem hne hside'))

theorem effect_remove {t : Target} {rest : List Target} :
    Fewer lib spec s (effect lib spec o s (.remove (t :: rest))) := by
  unfold effect
  split
  · exact .refl s
  · exact .delete s t

theorem says_remove {t : Target} {rest : List Target}
    (h : Effective lib spec o s (.remove (t :: rest)))
    (hs : (Point.remove (t :: rest)).Says lib spec s) :
    (Point.remove rest).Says lib spec (effect lib spec o s (.remove (t :: rest))) := by
  refine ⟨fun side => effect_remove.unannotated (hs.1 side), fun t' ht' => ?_⟩
  obtain rfl | hne := eq_or_ne t' t
  · by_cases habs : Absent spec s t'
    · exact effect_remove.absent t' habs
    unfold effect
    rw [h habs]
    exact absent_delete s t'
  · exact effect_remove.absent t' (hs.2 t' (not_mem_cons_of_ne_of_not_mem hne ht'))

def Safe (lib : Library σ η) (spec : Spec) (s : Shared) : Prop := Guarded s ∨ Clean lib spec s

theorem Safe.mono {t : Shared} (h : Fewer lib spec s t) (hpee : t.peering = s.peering)
    (hs : Safe lib spec s) : Safe lib spec t := by
  obtain ⟨obj, hobj, hfin⟩ | hcle := hs
  · exact .inl ⟨obj, hpee.trans hobj, hfin⟩
  · exact .inr (h.clean hcle)

theorem unannotate_peering :
    (effect lib spec o s (.unannotate side gateway rest)).peering = s.peering := by
  unfold effect
  split <;> rfl

theorem remove_peering {t : Target} {rest : List Target} :
    (effect lib spec o s (.remove (t :: rest))).peering = s.peering := by
  unfold effect
  split
  · rfl
  · cases t <;> rfl

theorem call_safe (hs : Safe lib spec s) (hp : p.Says lib spec s)
    (heff : Effective lib spec o s p) :
    Safe lib spec (effect lib spec o s p) ∧ ∀ q, next lib spec o s p = some q →
      q.Says lib spec (effect lib spec o s p) := by
  by_cases hnor : p.Normal
  · have hgua : Guarded (effect lib spec o s p) := by
      unfold Guarded
      rw [effect_peering hnor]
      exact (says_iff_of_normal hnor).1 hp
    exact ⟨.inl hgua, fun q hq => (says_iff_of_normal (next_normal hnor hq)).2 hgua⟩
  cases p with
  | get =>
    have heffe : effect lib spec o s .get = s := ite_self s
    rw [heffe]
    refine ⟨hs, fun q hq => ?_⟩
    unfold next at hq
    dsimp only at hq
    split at hq
    · cases hq
    next obj hobj =>
    split at hq
    · cases hq
      intro side hside
      cases side <;> exact absurd (by decide) hside
    split at hq
    · next hfin =>
      cases hq
      split at hobj
      · cases hobj
      · exact ⟨obj, hobj, hfin⟩
    · cases hq
      trivial
  | addFinalizer =>
    refine ⟨?_, fun q hq => nomatch hq⟩
    unfold effect
    split
    · exact hs
    cases hobj : s.peering with
    | none =>
      refine .inr (Fewer.clean (s := s) (.of_eq rfl rfl) (hs.resolve_left ?_))
      rintro ⟨obj, hsome, -⟩
      rw [hobj] at hsome
      cases hsome
    | some obj => exact .inl ⟨{ obj with finalizer := true }, rfl, rfl⟩
  | find sides =>
    have heffe : effect lib spec o s (.find sides) = s := ite_self s
    rw [heffe]
    refine ⟨hs, fun q hq => ?_⟩
    cases sides with
    | nil =>
      cases hq
      exact ⟨fun side => hp side not_mem_nil, fun t ht => absurd (mem_targets t) ht⟩
    | cons side rest => exact says_find heff hp hq
  | unannotate side gateway rest =>
    refine ⟨hs.mono effect_unannotate unannotate_peering, fun q hq => ?_⟩
    cases hq
    exact says_unannotate heff hp
  | remove rest =>
    cases rest with
    | nil =>
      have heffe : effect lib spec o s (.remove []) = s := ite_self s
      rw [heffe]
      refine ⟨hs, fun q hq => ?_⟩
      cases hq
      exact ⟨hp.1, fun t => hp.2 t not_mem_nil⟩
    | cons t rest =>
      refine ⟨hs.mono effect_remove remove_peering, fun q hq => ?_⟩
      cases hq
      exact says_remove heff hp
  | finalize =>
    refine ⟨?_, fun q hq => nomatch hq⟩
    unfold effect
    split
    · exact hs
    · exact .inr (Fewer.clean (s := s) (.of_eq rfl rfl) hp)
  | _ => exact absurd trivial hnor

theorem env_guarded {t : Shared} {e : Event} (h : Env lib spec s e t) (hs : Guarded s) :
    Guarded t := by
  cases h with
  | deletePeering =>
    obtain ⟨obj, hobj, hfin⟩ := hs
    refine ⟨{ obj with deleting := true }, ?_, hfin⟩
    change s.peering.bind _ = _
    rw [hobj, bind_some, if_pos hfin]
  | _ => exact hs

/-- In every run of reconciles, interrupted anywhere and with any errors, whose cleanups are
effective, nothing of the peering is left once the peering is gone. -/
theorem peering_cleaned {s : Site Unit Shared Point}
    (h : ((workers lib spec).system.guard
      (Workers.callsIf fun o s _ p => Effective lib spec o s p)).Reachable s)
    (hgone : s.shared.peering = none) : Clean lib spec s.shared := by
  have hho : Workers.Holds (Safe lib spec) (fun s _ p => p.Says lib spec s) s := by
    refine Workers.holds (M := workers lib spec) ?_ ?_ ?_ ?_ h
    · exact fun s hs => .inr hs.2
    · exact fun s _ _ => trivial
    · intro s k o p hs hp hG
      obtain ⟨hsafe, hnext⟩ := call_safe hs.1 (hs.2 k p hp) (hG p hp)
      exact ⟨hsafe, hnext, fun j q hjk => absurd rfl hjk⟩
    intro s e t hs he _
    have hfew : Fewer lib spec s.shared t := .env he
    refine ⟨?_, fun k p hp => says_mono hfew (env_guarded he) (hs.2 k p hp)⟩
    exact hs.1.imp (env_guarded he) hfew.clean
  refine hho.1.resolve_left ?_
  rintro ⟨obj, hsome, -⟩
  rw [hgone] at hsome
  cases hsome

theorem env_of_apply {t : Shared} {e : Event} (h : apply lib spec s e = some t) :
    Env lib spec s e t := by
  cases e with
  | editPeer k p =>
    unfold apply at h
    dsimp only at h
    split at h
    · next hall =>
      cases h
      refine .editPeer k p (fun hann => ?_) hall.2
      obtain ⟨old, hold, hdec⟩ := (Option.any_eq_true ..).1 (hall.1 hann)
      exact ⟨old, hold, of_decide_eq_true hdec⟩
    · cases h
  | deletePeering =>
    cases h
    exact .deletePeering
  | _ => cases h

end Proofs

def aToB : Spec := ⟨"a-to-b", "a", "net", "b", "net"⟩

def member (gateway : Bool) (annotations : Map) : Peer where
  labels k :=
    if k = networkLabelKey .plain "net" ∨ (gateway ∧ k = labelGateway) then some "true"
    else none
  annotations := annotations
  appID := ""
  publicKey := ""
  peerID := ""
  allocatedAddress := none
  phase := "Ready"

def beforePeering : Shared where
  peering := some ⟨false, false⟩
  peers := ((GoMap.empty.set ("a", "ga") (member true fun _ => none)).set ("b", "gb")
    (member true fun _ => none)).set ("a", "ha") (member false fun _ => none)
  policies := GoMap.empty
  networks := (GoMap.empty.set ("a", "net") ⟨true, "10.1.0.0/24"⟩).set ("b", "net")
    ⟨true, "10.2.0.0/24"⟩

theorem beforePeering_reachable {C : Answer → Shared → Unit → Point → Prop} :
    ((workers .plain aToB).system.guard (Workers.callsIf C)).Reachable
      ⟨beforePeering, fun _ => none⟩ := by
  refine .init ⟨⟨rfl, fun side name p hp => ?_, fun t => ?_⟩, rfl⟩
  · have hpla : ∀ {m : GoMap Key Peer} {k : Key} {gateway : Bool},
        (∀ j q, m.get j = some q → q.annotations = fun _ => none) → ∀ j q,
        (m.set k (member gateway fun _ => none)).get j = some q → q.annotations = fun _ => none :=
      fun hm _ _ => forall_get_set hm rfl
    rw [hpla (hpla (hpla fun _ _ h => by cases h)) _ p hp]
  cases t with
  | shadowPeer side => cases side <;> decide +kernel
  | policy side kind => rfl

def calls (n : ℕ) : List (Action Unit Answer Event) := List.replicate n (.call () {})

def setUp : List (Action Unit Answer Event) := .start () :: calls 2 ++ .start () :: calls 20

def cleanUp : List (Action Unit Answer Event) := .env .deletePeering :: .start () :: calls 14

theorem cleaned_up : ∃ s, ((workers .plain aToB).system.guard
      (Workers.callsIf fun o s _ p => Effective .plain aToB o s p)).Reachable s ∧
    s.shared.peering = none ∧ Clean .plain aToB s.shared := by
  obtain ⟨s, hs, hgone⟩ := Workers.exists_exec (M := workers .plain aToB)
    (C := fun o s _ p => Effective .plain aToB o s p) (E := apply .plain aToB)
    (Q := fun s => s.shared.peering = none) (fun _ _ _ => env_of_apply) beforePeering_reachable
    (setUp ++ cleanUp) (by decide +kernel)
  exact ⟨s, hs, hgone, peering_cleaned hs hgone⟩

def moveLabel : List (Action Unit Answer Event) :=
  [.env (.editPeer ("a", "ga") (member false fun k =>
    if k = peeringRouteAnnotationKey .plain aToB then some "10.2.0.0/24" else none)),
    .env (.editPeer ("a", "ha") (member true fun _ => none))]

theorem annotation_left_behind : ∃ s, (workers .plain aToB).system.Reachable s ∧
    s.shared.peering = none ∧ ¬ Clean .plain aToB s.shared := by
  obtain ⟨s, hs, hgone, hleft⟩ := Workers.exists_exec (M := workers .plain aToB)
    (C := fun _ _ _ _ => True) (E := apply .plain aToB)
    (Q := fun s => s.shared.peering = none ∧
      (s.shared.peers.get ("a", "ga")).any (Annotated .plain aToB))
    (fun _ _ _ => env_of_apply) beforePeering_reachable
    (setUp ++ moveLabel ++ .env .deletePeering :: .start () :: calls 13) (by decide +kernel)
  refine ⟨s, hs.of_guard, hgone, fun hcle => ?_⟩
  obtain ⟨p, hp, hann⟩ := (Option.any_eq_true ..).1 hleft
  exact of_decide_eq_true hann (hcle.unannotated .a "ga" p hp)

end LatticeMesh.Controller.Peering
