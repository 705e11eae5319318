import LatticeMesh.Controller.Generator

/-! # The config hash of a peer -/

namespace LatticeMesh.Controller

open Firewall Netmap Text List Option

variable {σ η : Type} {lib : Library σ η} {cluster : Cluster σ} {current : LatticePeer}

variable {q : LatticePeer} {all : List (Labels → Bool)} {networkName : String}
  {order : List (String × String)} {selections : List (PeerSelection σ)} {p : LatticePolicy σ}
  {policies : List (LatticePolicy σ)} {peers : List LatticePeer} {m : GoMap String Peer}
  {allPeers : List Peer}

theorem Cluster.name_inj (cluster : Cluster σ) {p : LatticePeer} (hp : p ∈ cluster.peers)
    (hq : q ∈ cluster.peers) (h : p.name = q.name) : p = q :=
  inj_on_of_nodup_map (pairwise_map.2 cluster.peers_unique) hp hq h

theorem Cluster.uid_inj (cluster : Cluster σ) {p : LatticePeer} (hp : p ∈ cluster.peers)
    (hq : q ∈ cluster.peers) (h : p.uid = q.uid) : p = q :=
  inj_on_of_nodup_map (pairwise_map.2 cluster.uids_unique) hp hq h

theorem Cluster.nodup_peers (cluster : Cluster σ) : cluster.peers.Nodup :=
  cluster.peers_unique.imp fun hne h => hne (congrArg LatticePeer.name h)

theorem Cluster.nodup_policies (cluster : Cluster σ) : cluster.policies.Nodup :=
  cluster.policies_unique.imp fun hne h => hne (congrArg LatticePolicy.name h)

def Selected (lib : Library σ η) (networkName : String) (all : List (Labels → Bool))
    (q : LatticePeer) : Prop :=
  (∃ selects ∈ all, selects q.labels = true) ∧ (networkName = "" ∨ Labelled lib networkName q)

instance (networkName : String) (all : List (Labels → Bool)) (q : LatticePeer) :
    Decidable (Selected lib networkName all q) := inferInstanceAs (Decidable (_ ∧ _))

def peerNames (lib : Library σ η) (cluster : Cluster σ) (networkName : String)
    (all : List (Labels → Bool)) : List String :=
  sortOn id ((cluster.peers.filter fun q => Selected lib networkName all q).map LatticePeer.name)

theorem mem_peerNames {name : String} :
    name ∈ peerNames lib cluster networkName all ↔
      ∃ q ∈ cluster.peers, Selected lib networkName all q ∧ q.name = name := by
  unfold peerNames
  simp only [mem_sortOn, List.mem_map, mem_filter, decide_eq_true_eq, and_assoc]

theorem mem_flatten_lists {lists : List (List LatticePeer)}
    (h : all.Forall₂ (ListsPeers lib cluster networkName) lists) (q : LatticePeer) :
    q ∈ lists.flatten ↔ q ∈ cluster.peers ∧ Selected lib networkName all q := by
  unfold Selected
  induction h with
  | nil => simp
  | @cons selects l all lists hl _ ih =>
    rw [flatten_cons, mem_append, ih, hl.mem_iff, mem_filter, decide_eq_true_eq,
      exists_mem_cons_iff, ← and_or_left, ← or_and_right]

theorem names_eq {lists : List (List LatticePeer)}
    (h : all.Forall₂ (ListsPeers lib cluster networkName) lists)
    (hord : (found lists).Ranges order) :
    sortOn id (order.map Prod.snd) = peerNames lib cluster networkName all := by
  have hmem := mem_flatten_lists h
  have hget : ∀ uid name, (uid, name) ∈ order ↔
      ∃ q ∈ lists.flatten, q.uid = uid ∧ q.name = name := by
    intro uid name
    rw [hord.mem_iff]
    unfold found
    refine GoMap.get_foldl_set fun p hp q hq huid => ?_
    rw [cluster.uid_inj ((hmem p).1 hp).1 ((hmem q).1 hq).1 huid]
  refine sortOn_eq_of_perm ?_ fun _ _ _ _ h => h
  refine (perm_ext_iff_of_nodup ?_ ?_).2 ?_
  · refine List.Nodup.map_on ?_ (hord.nodup_iff.2 (found lists).nodup_toList)
    rintro ⟨uid, name⟩ he ⟨uid', name'⟩ he' rfl
    obtain ⟨q, hq, rfl, hname⟩ := (hget uid name).1 he
    obtain ⟨q', hq', rfl, hname'⟩ := (hget uid' name).1 he'
    rw [cluster.name_inj ((hmem q).1 hq).1 ((hmem q').1 hq').1 (hname.trans hname'.symm)]
  · have hnam : (cluster.peers.map LatticePeer.name).Nodup :=
      pairwise_map.2 cluster.peers_unique
    exact hnam.sublist (filter_sublist.map _)
  intro name
  simp only [List.mem_map, Prod.exists, hget, hmem, mem_filter, decide_eq_true_eq]
  constructor
  · rintro ⟨uid, name, ⟨q, hq, rfl, rfl⟩, rfl⟩
    exact ⟨q, hq, rfl⟩
  · rintro ⟨q, hq, rfl⟩
    exact ⟨q.uid, q.name, ⟨q, hq, rfl, rfl⟩, rfl⟩

theorem exists_lists (lib : Library σ η) (cluster : Cluster σ) (networkName : String)
    (all : List (Labels → Bool)) :
    ∃ lists, all.Forall₂ (ListsPeers lib cluster networkName) lists := by
  induction all with
  | nil => exact ⟨[], .nil⟩
  | cons selects all ih =>
    obtain ⟨lists, hlis⟩ := ih
    exact ⟨_ :: lists, .cons (.refl _) hlis⟩

theorem peerNamesByLabels_iff {names : Option (List String)} :
    PeerNamesByLabels lib cluster networkName selections names ↔
      names = (selectors lib selections).map (peerNames lib cluster networkName) := by
  unfold PeerNamesByLabels
  cases selectors lib selections with
  | none => exact Iff.rfl
  | some all =>
    dsimp only [map_some]
    constructor
    · rintro ⟨lists, order, hlis, hord, rfl⟩
      rw [names_eq hlis hord]
    rintro rfl
    obtain ⟨lists, hlis⟩ := exists_lists lib cluster networkName all
    exact ⟨lists, _, hlis, .refl _, by rw [names_eq hlis (.refl _)]⟩

def wireOf (lib : Library σ η) (cluster : Cluster σ) (p : LatticePolicy σ)
    (rules : List (PolicyRule σ)) : List Rule :=
  rules.flatMap fun r => wireRules p.wireAction r
    ((selectors lib r.selections).map (peerNames lib cluster p.network))

theorem buildsRules_iff {rules : List (PolicyRule σ)} {wire : List Rule} :
    BuildsRules lib cluster p rules wire ↔ wire = wireOf lib cluster p rules := by
  have hrel : (fun r : PolicyRule σ => PeerNamesByLabels lib cluster p.network r.selections) =
      fun r names => (selectors lib r.selections).map (peerNames lib cluster p.network) = names := by
    funext r names
    exact propext (peerNamesByLabels_iff.trans eq_comm)
  have hnam : ∀ names, rules.Forall₂
      (fun r : PolicyRule σ => PeerNamesByLabels lib cluster p.network r.selections) names ↔
      (rules.map fun r => (selectors lib r.selections).map (peerNames lib cluster p.network)) =
        names := by
    intro names
    rw [hrel, ← forall₂_map_left_iff (R := Eq), forall₂_eq_eq_eq]
  unfold BuildsRules wireOf
  simp only [hnam, exists_eq_left', zipWith_map_right, zipWith_self, List.flatMap]

def wirePolicy (lib : Library σ η) (cluster : Cluster σ) (p : LatticePolicy σ) : Policy where
  policyName := p.name
  action := p.wireAction
  ingress := wireOf lib cluster p p.ingress
  egress := wireOf lib cluster p p.egress

theorem buildsPolicy_iff {wire : Policy} :
    BuildsPolicy lib cluster p wire ↔ wirePolicy lib cluster p = wire := by
  unfold BuildsPolicy wirePolicy
  rw [buildsRules_iff, buildsRules_iff]
  obtain ⟨name, action, ingress, egress⟩ := wire
  simp only [Policy.mk.injEq, eq_comm]

theorem buildsPolicies_iff {wire : List Policy} :
    policies.Forall₂ (BuildsPolicy lib cluster) wire ↔
      policies.map (wirePolicy lib cluster) = wire := by
  have hrel : BuildsPolicy lib cluster = fun p wire => wirePolicy lib cluster p = wire := by
    funext p wire
    exact propext buildsPolicy_iff
  rw [hrel, ← forall₂_map_left_iff (R := Eq), forall₂_eq_eq_eq]

structure Applies (lib : Library σ η) (cluster : Cluster σ) (current : LatticePeer)
    (p : LatticePolicy σ) : Prop where
  mem : p ∈ cluster.policies
  network : p.network = current.network.getD ""
  joined : ∀ name ∈ current.network, (getNetwork cluster name).isSome
  parses : ∀ q ∈ cluster.policies, q.network = current.network.getD "" →
    (lib.selector q.peerSelector).isSome
  selects : (lib.selector p.peerSelector).any (fun accepts => accepts current.labels) = true

structure Member (lib : Library σ η) (cluster : Cluster σ) (current q : LatticePeer) : Prop where
  mem : q ∈ cluster.peers
  address : q.allocatedAddress.isSome
  labelled : ∃ name ∈ current.network, ∃ n ∈ getNetwork cluster name, Labelled lib n.name q

theorem snapshot_policies (peers : List LatticePeer) (policies : List (LatticePolicy σ)) :
    (getPeerStateSnapshot lib cluster current peers policies).policies =
      if ∀ name ∈ current.network, (getNetwork cluster name).isSome then
        filterPoliciesForNode lib policies current else [] := by
  unfold getPeerStateSnapshot
  cases current.network with
  | none => simp
  | some name => cases hget : getNetwork cluster name <;> simp [hget]

theorem mem_snapshot_policies (h : policies.Perm cluster.policies) :
    p ∈ (getPeerStateSnapshot lib cluster current peers policies).policies ↔
      Applies lib cluster current p := by
  rw [snapshot_policies]
  unfold filterPoliciesForNode
  simp only [mem_ite_nil_right, mem_filter, h.mem_iff, decide_eq_true_eq, and_imp]
  constructor
  · rintro ⟨hjo, hall, ⟨hp, hnet⟩, hsel⟩
    exact ⟨hp, hnet, hjo, hall, hsel⟩
  · rintro ⟨hp, hnet, hjo, hall, hsel⟩
    exact ⟨hjo, hall, ⟨hp, hnet⟩, hsel⟩

theorem snapshot_nodup (h : policies.Perm cluster.policies) :
    (getPeerStateSnapshot lib cluster current peers policies).policies.Nodup := by
  rw [snapshot_policies]
  unfold filterPoliciesForNode
  have hlist := h.nodup_iff.2 cluster.nodup_policies
  split
  · dsimp only
    split
    · exact (hlist.filter _).filter _
    · exact nodup_nil
  · exact nodup_nil

theorem snapshot_policies_perm {peers' : List LatticePeer} {policies' : List (LatticePolicy σ)}
    (h : policies.Perm cluster.policies) (h' : policies'.Perm cluster.policies) :
    (getPeerStateSnapshot lib cluster current peers policies).policies.Perm
      (getPeerStateSnapshot lib cluster current peers' policies').policies := by
  refine (perm_ext_iff_of_nodup (snapshot_nodup h) (snapshot_nodup h')).2 fun p => ?_
  rw [mem_snapshot_policies h, mem_snapshot_policies h']

def members (lib : Library σ η) (cluster : Cluster σ) (current : LatticePeer)
    (peers : List LatticePeer) : List LatticePeer :=
  match current.network.bind (getNetwork cluster) with
  | none => []
  | some n => peers.filter fun p => Labelled lib n.name p ∧ p.allocatedAddress.isSome

theorem mem_members (h : peers.Perm cluster.peers) :
    q ∈ members lib cluster current peers ↔ Member lib cluster current q := by
  unfold members
  cases hnet : current.network.bind (getNetwork cluster) with
  | none =>
    refine ⟨fun hq => absurd hq not_mem_nil, ?_⟩
    rintro ⟨-, -, name, hname, n, hn, -⟩
    rw [mem_def] at hname hn
    rw [hname, bind_some, hn] at hnet
    cases hnet
  | some n =>
    obtain ⟨name, hname, hn⟩ := bind_eq_some_iff.1 hnet
    simp only [mem_filter, h.mem_iff, decide_eq_true_eq]
    constructor
    · rintro ⟨hq, hlab, hadr⟩
      exact ⟨hq, hadr, name, hname, n, hn, hlab⟩
    rintro ⟨hq, hadr, name', hname', n', hn', hlab⟩
    cases hname.symm.trans hname'
    cases hn.symm.trans hn'
    exact ⟨hq, hlab, hadr⟩

theorem members_perm {peers' : List LatticePeer} (h : peers.Perm peers') :
    (members lib cluster current peers).Perm (members lib cluster current peers') := by
  unfold members
  split
  · exact .refl _
  · exact h.filter _

theorem network_snapshot (peers : List LatticePeer) (policies : List (LatticePolicy σ))
    (routes : LatticePeer → List (String × String)) :
    network lib (getPeerStateSnapshot lib cluster current peers policies) routes =
      ⟨((current.network.bind (getNetwork cluster)).map LatticeNetwork.name).getD "",
        ((current.network.bind (getNetwork cluster)).map LatticeNetwork.specName).getD "",
        sortOn Peer.name ((members lib cluster current peers).map fun p =>
          transferToPeer lib p (routes p))⟩ := by
  unfold network getPeerStateSnapshot members
  cases current.network with
  | none => rfl
  | some name =>
    cases hget : getNetwork cluster name with
    | none =>
      simp only [bind_some, hget]
      rfl
    | some n =>
      simp only [bind_some, hget, List.filter_filter, Bool.and_comm, Bool.decide_and,
        map_some, getD_some, Bool.decide_eq_true]

def RoutesCommute (q : LatticePeer) : Prop :=
  ∀ k v k' v', q.annotations.get k = some v → q.annotations.get k' = some v' →
    IsPeeringRoute (k, v) → IsPeeringRoute (k', v') → Swappable [','] v.toList v'.toList

theorem mem_extraRoutes (h : q.annotations.Ranges order) {v : String} (hv : v ∈ extraRoutes order) :
    ∃ k, q.annotations.get k = some v ∧ IsPeeringRoute (k, v) := by
  obtain ⟨⟨k, v⟩, he, rfl⟩ := List.mem_map.1 hv
  obtain ⟨hmem, hrou⟩ := mem_filter.1 he
  exact ⟨k, h.mem_iff.1 hmem, of_decide_eq_true hrou⟩

theorem transferToPeer_eq (hq : RoutesCommute q) {order' : List (String × String)}
    (h : q.annotations.Ranges order) (h' : q.annotations.Ranges order') :
    transferToPeer lib q order = transferToPeer lib q order' := by
  have hperm : (extraRoutes order).Perm (extraRoutes order') :=
    ((List.Perm.trans h (List.Perm.symm h')).filter _).map _
  have hjoin : join ',' (extraRoutes order) = join ',' (extraRoutes order') := by
    refine join_perm hperm fun v hv w hw => ?_
    obtain ⟨k, hk, hrou⟩ := mem_extraRoutes h' hv
    obtain ⟨k', hk', hrou'⟩ := mem_extraRoutes h' hw
    exact hq k v k' w hk hk' hrou hrou'
  have hnil : extraRoutes order = [] ↔ extraRoutes order' = [] := by
    rw [← length_eq_zero_iff, ← length_eq_zero_iff, hperm.length_eq]
  unfold transferToPeer
  simp only [hjoin, hnil]

theorem addRoutes_inj {allowedIPs routes routes' : String}
    (h : addRoutes allowedIPs routes = addRoutes allowedIPs routes') : routes = routes' := by
  unfold addRoutes at h
  split at h
  · exact h
  · exact (String.append_right_inj _).1 h

theorem extraRoutes_cons {e : String × String} (h : IsPeeringRoute e)
    (rest : List (String × String)) : extraRoutes (e :: rest) = e.2 :: extraRoutes rest := by
  simp [extraRoutes, h]

theorem routesCommute_of_transferToPeer (lib : Library σ η) (hall : ∀ order order',
      q.annotations.Ranges order → q.annotations.Ranges order' → transferToPeer lib q order =
      transferToPeer lib q order') : RoutesCommute q := by
  intro k v k' v' hk hk' hrou hrou'
  by_cases hne : (k, v) = (k', v')
  · cases hne
    rfl
  obtain ⟨rest, hrest⟩ := exists_perm_cons_cons (GoMap.mem_toList.2 hk) (GoMap.mem_toList.2 hk') hne
  have heq := hall _ _ hrest.symm ((List.Perm.swap (k, v) (k', v') rest).trans hrest.symm)
  have hips := congrArg Peer.allowedIPs heq
  unfold transferToPeer at hips
  simp only [extraRoutes_cons hrou, extraRoutes_cons hrou', reduceCtorEq, if_false] at hips
  exact (join_swap_iff ',' v v' (extraRoutes rest)).1 (addRoutes_inj hips)

def FiledByName (m : GoMap String Peer) : Prop := ∀ k p, m.get k = some p → p.name = k

theorem addPeers_filed (currentName : String) (hm : FiledByName m) (peers : List Peer) :
    FiledByName (addPeers currentName m peers) := by
  unfold addPeers
  generalize (peers.filter fun p => p.name ≠ currentName) = added
  induction added generalizing m with
  | nil => exact hm
  | cons p added ih =>
    rw [foldl_cons]
    refine ih fun k q hq => ?_
    exact GoMap.forall_get_set (P := fun (k : String) (q : Peer) => q.name = k) hm rfl hq

theorem addPolicy_filed {own : Peer} {m' : GoMap String Peer} (hm : FiledByName m)
    (h : addPolicy lib own allPeers m p = some m') :
    FiledByName m' := by
  unfold addPolicy at h
  obtain ⟨accepts, -, h⟩ := bind_eq_some_iff.1 h
  split at h
  · cases h
    exact hm
  obtain ⟨matched, -, h⟩ := bind_eq_some_iff.1 h
  cases h
  have hadd := addPeers_filed own.name hm matched.flatten
  split
  · exact addPeers_filed own.name hadd allPeers
  · exact hadd

theorem finalPeersMap_filed {own : Peer} (h : finalPeersMap lib own allPeers policies = some m) :
    FiledByName m := by
  unfold finalPeersMap at h
  have hrun : ∀ start, FiledByName start →
      policies.foldlM (addPolicy lib own allPeers) start = some m → FiledByName m := by
    clear h
    induction policies with
    | nil =>
      intro start hst h
      cases h
      exact hst
    | cons p policies ih =>
      intro start hst h
      obtain ⟨next, hnext, h⟩ := bind_eq_some_iff.1 h
      exact ih next (addPolicy_filed hst hnext) h
  exact hrun .empty (fun k p hp => by cases hp) h

def Resolvable (lib : Library σ η) (allPeers : List Peer) (p : LatticePolicy σ) : Prop :=
  allPeers ≠ [] → ∀ d, ∀ r ∈ p.rules d, ∀ sel ∈ r.selections, ∀ s ∈ sel.peerSelector,
    (lib.selector s).isSome

theorem resolveSelectionToPeers_isSome {sel : PeerSelection σ} :
    (resolveSelectionToPeers lib allPeers sel).isSome ↔
      (allPeers ≠ [] → ∀ s ∈ sel.peerSelector, (lib.selector s).isSome) := by
  unfold resolveSelectionToPeers
  by_cases hps : allPeers = []
  · simp [hps]
  · cases sel.peerSelector <;> simp [hps]

theorem addPolicy_isSome {own : Peer}
    (h : (lib.selector p.peerSelector).any (fun accepts => accepts own.labels) = true) :
    (addPolicy lib own allPeers m p).isSome ↔ Resolvable lib allPeers p := by
  obtain ⟨accepts, hacc, hlab⟩ := Option.any_eq_true _ _ |>.1 h
  have hsele : (((p.egress ++ p.ingress).flatMap PolicyRule.selections).mapM
      (resolveSelectionToPeers lib allPeers)).isSome ↔ Resolvable lib allPeers p := by
    rw [isSome_mapM]
    simp only [resolveSelectionToPeers_isSome, mem_flatMap, mem_append]
    constructor
    · intro hall hps d r hr sel hsel
      cases d with
      | ingress => exact hall sel ⟨r, .inr hr, hsel⟩ hps
      | egress => exact hall sel ⟨r, .inl hr, hsel⟩ hps
    rintro hres sel ⟨r, hr | hr, hsel⟩ hps
    · exact hres hps .egress r hr sel hsel
    · exact hres hps .ingress r hr sel hsel
  rw [← hsele]
  unfold addPolicy
  simp only [hacc, hlab, bind_eq_bind, bind_some, Bool.not_true,
    Bool.false_eq_true, if_false]
  cases ((p.egress ++ p.ingress).flatMap PolicyRule.selections).mapM
    (resolveSelectionToPeers lib allPeers) <;> simp

theorem finalPeersMap_isSome {own : Peer} (h : ∀ p ∈ policies, (lib.selector p.peerSelector).any
      (fun accepts => accepts own.labels) = true) :
    (finalPeersMap lib own allPeers policies).isSome ↔
      ∀ p ∈ policies, Resolvable lib allPeers p := by
  unfold finalPeersMap
  generalize GoMap.empty = start
  induction policies generalizing start with
  | nil => simp
  | cons p policies ih =>
    rw [foldlM_cons, forall_mem_cons, ← addPolicy_isSome (h p mem_cons_self)]
    cases hstep : addPolicy lib own allPeers start p with
    | none => simp
    | some next =>
      have htail := ih (fun q hq => h q (mem_cons_of_mem p hq)) next
      simpa using htail

def Targets (lib : Library σ η) (cluster : Cluster σ) (current : LatticePeer)
    (networkName : String) (r : PolicyRule σ) (text : String) : Prop :=
  (∃ q, Member lib cluster current q ∧ q.name ≠ current.name ∧
    (networkName = "" ∨ Labelled lib networkName q) ∧
    (∃ sel ∈ r.selections, ∃ s ∈ sel.peerSelector, ∃ accepts ∈ lib.selector s,
      accepts q.labels = true) ∧
    ∃ address ∈ q.allocatedAddress, cleanIP address = text ∧ text ≠ "") ∨
  ∃ sel ∈ r.selections, sel.ipBlock = some text ∧ trimSpace text ≠ ""

def ClusterKey (lib : Library σ η) (cluster : Cluster σ) (current : LatticePeer) (d : Direction)
    (k : DecisionKey) : Prop :=
  ∃ p, Applies lib cluster current p ∧ ∃ r ∈ p.rules d,
    (∀ sel ∈ r.selections, ∀ s ∈ sel.peerSelector, (lib.selector s).isSome) ∧
    Targets lib cluster current p.network r k.peer ∧
    ∃ port ∈ wirePorts r.ports, k.port = port.port ∧ k.protocol = port.protocol

theorem mem_selectors (h : selectors lib selections = some all) {accepts : Labels → Bool} :
    accepts ∈ all ↔ ∃ sel ∈ selections, ∃ s ∈ sel.peerSelector, accepts ∈ lib.selector s := by
  unfold selectors at h
  rw [mem_mapM h]
  simp only [mem_filterMap, mem_def]
  constructor
  · rintro ⟨s, ⟨sel, hsel, hs⟩, hacc⟩
    exact ⟨sel, hsel, s, hs, hacc⟩
  · rintro ⟨sel, hsel, s, hs, hacc⟩
    exact ⟨s, ⟨sel, hsel, hs⟩, hacc⟩

theorem selectors_isSome :
    (selectors lib selections).isSome ↔
      ∀ sel ∈ selections, ∀ s ∈ sel.peerSelector, (lib.selector s).isSome := by
  unfold selectors
  rw [isSome_mapM]
  simp only [mem_filterMap, forall_exists_index, and_imp, mem_def]
  constructor
  · intro h sel hsel s hs
    exact h s sel hsel hs
  · intro h s sel hsel hs
    exact h sel hsel s hs

theorem mem_extractCIDRs {text : String} :
    text ∈ extractCIDRs selections ↔
      (∃ sel ∈ selections, sel.ipBlock = some text) ∧ text ≠ "" := by
  unfold extractCIDRs
  rw [mem_filter, mem_filterMap, decide_eq_true_eq]

theorem rules_wirePolicy (p : LatticePolicy σ) (d : Direction) :
    (wirePolicy lib cluster p).rules d = wireOf lib cluster p (p.rules d) := by
  cases d <;> rfl

theorem mem_rules_wirePolicy {d : Direction} {rule : Rule} :
    rule ∈ (wirePolicy lib cluster p).rules d ↔
      ∃ r ∈ p.rules d, ∃ all, selectors lib r.selections = some all ∧
        ∃ port ∈ wirePorts r.ports, rule = ⟨peerNames lib cluster p.network all,
          extractCIDRs r.selections, [], port.protocol, port.port, p.wireAction⟩ := by
  rw [rules_wirePolicy]
  unfold wireOf
  rw [mem_flatMap]
  refine exists_congr fun r => and_congr_right fun _ => ?_
  cases selectors lib r.selections with
  | none => simp [wireRules]
  | some all => simp [wireRules, eq_comm]

theorem nodup_members (h : peers.Perm cluster.peers) :
    (members lib cluster current peers).Nodup := by
  unfold members
  split
  · exact nodup_nil
  · exact (h.nodup_iff.2 cluster.nodup_peers).filter _

namespace Generation

variable (g : Generation lib cluster current)

theorem mem_policies {p : LatticePolicy σ} :
    p ∈ g.snapshot.policies ↔ Applies lib cluster current p :=
  mem_snapshot_policies g.policies_listed

theorem wire_eq : g.wire = g.snapshot.policies.map (wirePolicy lib cluster) :=
  (buildsPolicies_iff.1 g.wire_built).symm

theorem net_peers : g.net.peers = sortOn Peer.name
    ((members lib cluster current g.peers).map fun p => transferToPeer lib p (g.routes p)) :=
  congrArg Network.peers (network_snapshot g.peers g.policies g.routes)

theorem mem_net_peers {e : Peer} : e ∈ g.net.peers ↔
    ∃ q, Member lib cluster current q ∧ transferToPeer lib q (g.routes q) = e := by
  rw [g.net_peers, mem_sortOn, List.mem_map]
  simp only [mem_members g.peers_listed]

theorem nodup_names : ((g.net.peers.map Peer.net).map NetPeer.name).Nodup := by
  rw [List.map_map, g.net_peers]
  refine ((sortOn_perm Peer.name _).map _).nodup_iff.2 ?_
  rw [List.map_map]
  refine List.Nodup.map_on ?_ (nodup_members g.peers_listed)
  intro p hp q hq hname
  exact cluster.name_inj ((mem_members g.peers_listed).1 hp).mem
    ((mem_members g.peers_listed).1 hq).mem hname

theorem get_peerIPByName {name ip : String} :
    (peerIPByName (g.net.peers.map Peer.net)).get name = some ip ↔
      ∃ q, Member lib cluster current q ∧ q.name = name ∧
        ∃ address ∈ q.allocatedAddress, cleanIP address = ip := by
  rw [Firewall.get_peerIPByName g.nodup_names]
  simp only [List.mem_map, g.mem_net_peers]
  constructor
  · rintro ⟨-, ⟨-, ⟨q, hq, rfl⟩, rfl⟩, hname, hadr⟩
    exact ⟨q, hq, hname, hadr⟩
  · rintro ⟨q, hq, hname, hadr⟩
    exact ⟨_, ⟨_, ⟨q, hq, rfl⟩, rfl⟩, hname, hadr⟩

theorem mem_resolve {p : LatticePolicy σ} {r : PolicyRule σ} {all : List (Labels → Bool)}
    (h : selectors lib r.selections = some all) {rule : Rule}
    (hnam : rule.peerNames = peerNames lib cluster p.network all)
    (hcid : rule.cidrs = extractCIDRs r.selections) (hrefs : rule.identityRefs = [])
    {text : String} : text ∈ resolve current g.net rule ↔
      Targets lib cluster current p.network r text := by
  unfold resolve resolveRulePeers Targets
  simp only [hnam, hcid, hrefs, if_true, append_nil, mem_append, mem_filter,
    mem_filterMap, mem_peerNames, mem_extractCIDRs, decide_eq_true_eq]
  refine or_congr ?_ ?_
  · constructor
    · rintro ⟨name, ⟨q, hq, ⟨⟨accepts, hacc, hlab⟩, hlabe⟩, rfl⟩, htext⟩
      split at htext
      · cases htext
      next hname =>
      split at htext
      · next ip hip =>
        split at htext
        · cases htext
        next hne =>
        cases htext
        obtain ⟨q', hq', hname', hadr⟩ := g.get_peerIPByName.1 hip
        obtain rfl := cluster.name_inj hq'.mem hq hname'
        obtain ⟨sel, hsel, s, hs, hs'⟩ := (mem_selectors h).1 hacc
        obtain ⟨address, ha, hip⟩ := hadr
        exact ⟨q', hq', hname, hlabe, ⟨sel, hsel, s, hs, accepts, hs', hlab⟩, address, ha,
          hip, hne⟩
      · cases htext
    rintro ⟨q, hq, hname, hlabe, ⟨sel, hsel, s, hs, accepts, hs', hlab⟩, address, ha, hip,
      hne⟩
    refine ⟨q.name, ⟨q, hq.mem, ⟨⟨accepts, (mem_selectors h).2 ⟨sel, hsel, s, hs, hs'⟩, hlab⟩,
      hlabe⟩, rfl⟩, ?_⟩
    rw [if_neg hname, g.get_peerIPByName.2 ⟨q, hq, rfl, address, ha, hip⟩]
    exact if_neg hne
  constructor
  · rintro ⟨⟨⟨sel, hsel, hblo⟩, -⟩, hbla⟩
    exact ⟨sel, hsel, hblo, hbla⟩
  rintro ⟨sel, hsel, hblo, hbla⟩
  refine ⟨⟨⟨sel, hsel, hblo⟩, ?_⟩, hbla⟩
  rintro rfl
  exact hbla rfl

theorem decided_iff {d : Direction} {k : DecisionKey} :
    (∃ a, (decisions (resolve current g.net) g.wire d).get k = some a) ↔
      ClusterKey lib cluster current d k := by
  rw [Firewall.decided_iff, g.wire_eq]
  unfold rulesOf
  simp only [mem_flatMap, List.mem_map, g.mem_policies]
  constructor
  · rintro ⟨rule, ⟨-, ⟨p, hp, rfl⟩, hrule⟩, hpeer, hk⟩
    obtain ⟨r, hr, all, hall, port, hport, rfl⟩ := mem_rules_wirePolicy.1 hrule
    exact ⟨p, hp, r, hr, selectors_isSome.1 (isSome_of_eq_some hall),
      (g.mem_resolve hall rfl rfl rfl).1 hpeer, port, hport, congrArg DecisionKey.port hk,
      congrArg DecisionKey.protocol hk⟩
  rintro ⟨p, hp, r, hr, hpar, htgt, port, hport, hkpo, hkpr⟩
  obtain ⟨all, hall⟩ := isSome_iff_exists.1 (selectors_isSome.2 hpar)
  refine ⟨_, ⟨_, ⟨p, hp, rfl⟩, mem_rules_wirePolicy.2 ⟨r, hr, all, hall, port, hport, rfl⟩⟩,
    (g.mem_resolve hall rfl rfl rfl).2 htgt, ?_⟩
  obtain ⟨q, kport, kprotocol⟩ := k
  cases hkpo
  cases hkpr
  rfl

end Generation

structure OrderFree (lib : Library σ η) (cluster : Cluster σ) (current : LatticePeer) : Prop where
  policy : ∀ p q, Applies lib cluster current p → Applies lib cluster current q → p = q
  key : ∀ d k k', ClusterKey lib cluster current d k → ClusterKey lib cluster current d k' → k = k'
  own : RoutesCommute current
  routes : ∀ q, Member lib cluster current q → RoutesCommute q

def NoPanic (lib : Library σ η) (cluster : Cluster σ) (current : LatticePeer) : Prop :=
  ∀ p, Applies lib cluster current p → (∃ q, Member lib cluster current q) → ∀ d, ∀ r ∈ p.rules d,
    ∀ sel ∈ r.selections, ∀ s ∈ sel.peerSelector, (lib.selector s).isSome

def HashStable (lib : Library σ η) (cluster : Cluster σ) (current : LatticePeer) : Prop :=
  ∀ g g' : Generation lib cluster current,
    computeMessageHash lib g.message = computeMessageHash lib g'.message

namespace Generation

variable (g g' : Generation lib cluster current)

theorem policies_eq (h : ∀ p q, Applies lib cluster current p → Applies lib cluster current q →
    p = q) : g.snapshot.policies = g'.snapshot.policies := by
  have hperm : g.snapshot.policies.Perm g'.snapshot.policies :=
    snapshot_policies_perm g.policies_listed g'.policies_listed
  have hnod : g'.snapshot.policies.Nodup := snapshot_nodup g'.policies_listed
  refine (forall_perm_eq_iff hnod).2 ?_ _ hperm
  intro p hp q hq
  exact h p q (g'.mem_policies.1 hp) (g'.mem_policies.1 hq)

theorem net_eq (h : ∀ q, Member lib cluster current q → RoutesCommute q) : g.net = g'.net := by
  have hrts : (members lib cluster current g.peers).map
      (fun p => transferToPeer lib p (g.routes p)) = (members lib cluster current g.peers).map
        fun p => transferToPeer lib p (g'.routes p) := by
    refine map_congr_left fun q hq => ?_
    exact transferToPeer_eq (h q ((mem_members g.peers_listed).1 hq)) (g.routes_ranges q)
      (g'.routes_ranges q)
  have hperm : (members lib cluster current g.peers).Perm (members lib cluster current g'.peers) :=
    members_perm (g.peers_listed.trans g'.peers_listed.symm)
  unfold net snapshot
  rw [network_snapshot, network_snapshot, hrts]
  congr 1
  refine sortOn_eq_of_perm (hperm.map _) ?_
  simp only [List.forall_mem_map]
  intro p hp q hq hname
  rw [cluster.name_inj ((mem_members g.peers_listed).1 hp).mem
    ((mem_members g.peers_listed).1 hq).mem hname]

theorem computedPeers_eq {g g' : Generation lib cluster current}
    (hpol : g.snapshot.policies = g'.snapshot.policies) (hnet : g.net = g'.net)
    (hown : transferToPeer lib current g.own = transferToPeer lib current g'.own) :
    g.message.computedPeers = g'.message.computedPeers := by
  have hmap : g.computed = g'.computed := by
    refine Option.some.inj (g.computed_eq.symm.trans (Eq.trans ?_ g'.computed_eq))
    change finalPeersMap lib (transferToPeer lib current g.own) g.net.peers g.snapshot.policies =
      finalPeersMap lib (transferToPeer lib current g'.own) g'.net.peers g'.snapshot.policies
    rw [hpol, hnet, hown]
  have hperm : g.visited.Perm g'.visited :=
    g.visited_ranges.trans (List.Perm.symm (hmap ▸ g'.visited_ranges))
  have hfil := finalPeersMap_filed g.computed_eq
  refine sortOn_eq_of_perm (hperm.map _) ?_
  simp only [List.forall_mem_map]
  rintro ⟨k, p⟩ hp ⟨k', q⟩ hq hname
  have hgetp := g.visited_ranges.mem_iff.1 hp
  have hgetq := g.visited_ranges.mem_iff.1 hq
  have hk : k = k' := by rw [← hfil k p hgetp, ← hfil k' q hgetq, hname]
  rw [hk] at hgetp
  exact Option.some.inj (hgetp.symm.trans hgetq)

theorem rules_eq {g g' : Generation lib cluster current} (hkey : ∀ d k k',
      ClusterKey lib cluster current d k → ClusterKey lib cluster current d k' → k = k')
    (hnet : g.net = g'.net) (hwire : g.wire = g'.wire) : g.rules = g'.rules := by
  have heva : Evaluates lib.case (resolve current g'.net) current.platform g'.wire g'.rules :=
    g'.evaluates
  rw [← hnet, ← hwire] at heva
  refine evaluates_unique_iff.2 (fun d k k' hk hk' => ?_) _ _ g.evaluates heva
  exact hkey d k k' (g.decided_iff.1 hk) (g.decided_iff.1 hk')

theorem hash_eq (h : OrderFree lib cluster current) :
    computeMessageHash lib g.message = computeMessageHash lib g'.message := by
  have hown : transferToPeer lib current g.own = transferToPeer lib current g'.own :=
    transferToPeer_eq h.own g.own_ranges g'.own_ranges
  have hpol := g.policies_eq g' h.policy
  have hnet := g.net_eq g' h.routes
  have hwire : g.wire = g'.wire := by rw [g.wire_eq, g'.wire_eq, hpol]
  have hcom := computedPeers_eq hpol hnet hown
  have hru := rules_eq h.key hnet hwire
  unfold computeMessageHash
  congr 1
  rw [Message.mk.injEq]
  exact ⟨rfl, rfl, rfl, hown, congrArg some hnet, hwire, hcom, congrArg some hru⟩

end Generation

theorem exists_generation (hsafe : NoPanic lib cluster current)
    (hpol : policies.Perm cluster.policies) {own : List (String × String)}
    (hown : current.annotations.Ranges own) {routes : LatticePeer → List (String × String)}
    (hrts : ∀ q : LatticePeer, q.annotations.Ranges (routes q)) :
    ∃ g : Generation lib cluster current,
      g.policies = policies ∧ g.own = own ∧ g.routes = routes := by
  have hres : ∀ p ∈ (getPeerStateSnapshot lib cluster current cluster.peers policies).policies,
      Resolvable lib (network lib (getPeerStateSnapshot lib cluster current cluster.peers policies)
        routes).peers p := by
    intro p hp hps
    refine hsafe p ((mem_snapshot_policies hpol).1 hp) ?_
    obtain ⟨e, he⟩ := exists_mem_of_ne_nil _ hps
    rw [network_snapshot, mem_sortOn] at he
    obtain ⟨q, hq, -⟩ := List.mem_map.1 he
    exact ⟨q, (mem_members (.refl _)).1 hq⟩
  have hsel : ∀ p ∈ (getPeerStateSnapshot lib cluster current cluster.peers policies).policies,
      (lib.selector p.peerSelector).any
        (fun accepts => accepts (transferToPeer lib current own).labels) = true :=
    fun p hp => ((mem_snapshot_policies hpol).1 hp).selects
  obtain ⟨computed, hcom⟩ :=
    isSome_iff_exists.1 ((finalPeersMap_isSome hsel).2 hres)
  exact ⟨⟨_, .refl _, policies, hpol, own, hown, routes, hrts, computed, hcom, _,
    .refl _, _, buildsPolicies_iff.2 rfl, _, ⟨_, _, .refl _, .refl _, rfl⟩, "", 0⟩, rfl, rfl, rfl⟩

theorem Generation.noPanic (g : Generation lib cluster current) :
    NoPanic lib cluster current := by
  have hsel : ∀ p ∈ g.snapshot.policies, (lib.selector p.peerSelector).any
      (fun accepts => accepts (transferToPeer lib current g.own).labels) = true :=
    fun p hp => (g.mem_policies.1 hp).selects
  have hres := (finalPeersMap_isSome hsel).1 (isSome_of_eq_some g.computed_eq)
  rintro p hp ⟨q, hq⟩
  exact hres p (g.mem_policies.2 hp)
    (ne_nil_of_mem (g.mem_net_peers.2 ⟨q, hq, rfl⟩))

theorem Generation.head_policy (g : Generation lib cluster current) {rest : List (LatticePolicy σ)}
    (hp : Applies lib cluster current p) (hg : g.policies = p :: rest) :
    (g.wire.map Policy.policyName).head? = some p.name := by
  have hpar : ∀ q ∈ (p :: rest).filter fun q => q.network = current.network.getD "",
      (lib.selector q.peerSelector).isSome := by
    intro q hq
    obtain ⟨hmem, hnet⟩ := mem_filter.1 hq
    exact hp.parses q (g.policies_listed.subset (hg ▸ hmem)) (of_decide_eq_true hnet)
  rw [g.wire_eq]
  unfold snapshot
  rw [snapshot_policies, if_pos hp.joined, hg]
  unfold filterPoliciesForNode
  rw [if_pos hpar, filter_cons_of_pos (by simpa using hp.network)]
  simp [hp.selects, wirePolicy]

def Generation.withRules (g : Generation lib cluster current) (rules : FirewallRule)
    (h : Evaluates lib.case (resolve current g.net) current.platform g.wire rules) :
    Generation lib cluster current :=
  { g with rules := rules, evaluates := h }

section

variable (hinj : Function.Injective lib.hash) (hstable : HashStable lib cluster current)

include hinj hstable

theorem HashStable.hashed_eq (g g' : Generation lib cluster current) :
    ({ g.message with configVersion := none, timestamp := 0 } : Message String) =
      { g'.message with configVersion := none, timestamp := 0 } := hinj (hstable g g')

theorem HashStable.one_policy (hsafe : NoPanic lib cluster current) {p q : LatticePolicy σ}
    (hp : Applies lib cluster current p) (hq : Applies lib cluster current q) : p = q := by
  by_contra hne
  obtain ⟨rest, hrest⟩ := exists_perm_cons_cons hp.mem hq.mem hne
  have hrts : ∀ x : LatticePeer, x.annotations.Ranges x.annotations.toList := fun _ => .refl _
  obtain ⟨g, hg, -⟩ := exists_generation hsafe hrest.symm (hrts current) hrts
  obtain ⟨g', hg', -⟩ := exists_generation hsafe ((List.Perm.swap p q rest).trans hrest.symm)
    (hrts current) hrts
  have hwire : g.wire = g'.wire := congrArg Message.policies (hstable.hashed_eq hinj g g')
  have hnam := g.head_policy hp hg
  rw [hwire, g'.head_policy hq hg'] at hnam
  exact hne (inj_on_of_nodup_map (pairwise_map.2 cluster.policies_unique) hp.mem hq.mem
    (Option.some.inj hnam).symm)

theorem HashStable.one_key (g : Generation lib cluster current) {d : Direction}
    {k k' : DecisionKey} (hk : ClusterKey lib cluster current d k)
    (hk' : ClusterKey lib cluster current d k') : k = k' := by
  have huni : ∀ fw fw', Evaluates lib.case (resolve current g.net) current.platform g.wire fw →
      Evaluates lib.case (resolve current g.net) current.platform g.wire fw' → fw = fw' :=
    fun fw fw' hfw hfw' => Option.some.inj (congrArg Message.computedRules
      (hstable.hashed_eq hinj (g.withRules fw hfw) (g.withRules fw' hfw')))
  exact evaluates_unique_iff.1 huni d k k' (g.decided_iff.2 hk) (g.decided_iff.2 hk')

theorem HashStable.own (hsafe : NoPanic lib cluster current) : RoutesCommute current := by
  refine routesCommute_of_transferToPeer lib fun order order' h h' => ?_
  have hrts : ∀ x : LatticePeer, x.annotations.Ranges x.annotations.toList := fun _ => .refl _
  obtain ⟨g, -, hg, -⟩ := exists_generation hsafe (.refl _) h hrts
  obtain ⟨g', -, hg', -⟩ := exists_generation hsafe (.refl _) h' hrts
  have hcur := congrArg Message.current (hstable.hashed_eq hinj g g')
  change transferToPeer lib current g.own = transferToPeer lib current g'.own at hcur
  rwa [hg, hg'] at hcur

theorem HashStable.routes (hsafe : NoPanic lib cluster current) {q : LatticePeer}
    (hq : Member lib cluster current q) : RoutesCommute q := by
  classical
  refine routesCommute_of_transferToPeer lib fun order order' h h' => ?_
  have hupd : ∀ {o}, q.annotations.Ranges o → ∀ x : LatticePeer,
      x.annotations.Ranges (if x = q then o else x.annotations.toList) := by
    intro o ho x
    split
    · next hx => exact hx ▸ ho
    · exact .refl _
  obtain ⟨g, -, -, hg⟩ := exists_generation hsafe (.refl _) (.refl _) (hupd h)
  obtain ⟨g', -, -, hg'⟩ := exists_generation hsafe (.refl _) (.refl _) (hupd h')
  have hnet : g.net = g'.net :=
    Option.some.inj (congrArg Message.network (hstable.hashed_eq hinj g g'))
  have hent : transferToPeer lib q (g.routes q) ∈ g'.net.peers :=
    hnet ▸ g.mem_net_peers.2 ⟨q, hq, rfl⟩
  obtain ⟨q', hq', heq⟩ := g'.mem_net_peers.1 hent
  obtain rfl := cluster.name_inj hq'.mem hq.mem (congrArg Peer.name heq)
  rw [hg, hg'] at heq
  simpa using heq.symm

end

theorem hashStable_iff (hinj : Function.Injective lib.hash) :
    HashStable lib cluster current ↔
      (NoPanic lib cluster current → OrderFree lib cluster current) := by
  constructor
  · intro hstable hsafe
    have hrts : ∀ x : LatticePeer, x.annotations.Ranges x.annotations.toList := fun _ => .refl _
    obtain ⟨g, -⟩ := exists_generation hsafe (.refl _) (hrts current) hrts
    exact
      { policy := fun p q hp hq => hstable.one_policy hinj hsafe hp hq
        key := fun d k k' hk hk' => hstable.one_key hinj g hk hk'
        own := hstable.own hinj hsafe
        routes := fun q hq => hstable.routes hinj hsafe hq }
  · intro hfree g g'
    exact g.hash_eq g' (hfree g.noPanic)

end LatticeMesh.Controller
