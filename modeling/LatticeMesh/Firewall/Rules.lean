import LatticeMesh.Lib.GoMap

/-! # From policy rows to wire rules -/

namespace LatticeMesh.Firewall

open List Option

structure Casing where
  upper : String → String
  lower : String → String
  equalFold : String → String → Bool
  equalFold_allow : ∀ s, equalFold (upper s) "ALLOW" = true ↔ upper s = "ALLOW"

abbrev Time := Int

structure PeerIdentity where
  name : String
  resolvedPeerIP : String
  previousPeerIP : String
  gracePeriodExpiresAt : Option Time

structure PeerSelection where
  ipBlock : Option String
  identityRef : String
  deriving DecidableEq

structure NetworkPolicyPort where
  port : Int
  protocol : String
  deriving DecidableEq

structure SpecRule where
  selections : List PeerSelection
  ports : List NetworkPolicyPort
  deriving DecidableEq

structure PolicySpec where
  ingress : List SpecRule
  egress : List SpecRule
  deriving DecidableEq

structure PolicyRow where
  name : String
  action : String
  spec : String
  deriving DecidableEq

structure Rule where
  peerNames : List String
  cidrs : List String
  identityRefs : List String
  protocol : String
  port : Int
  action : String
  deriving DecidableEq

structure Policy where
  policyName : String
  action : String
  ingress : List Rule
  egress : List Rule
  deriving DecidableEq

inductive Direction where
  | ingress
  | egress
  deriving DecidableEq

def Policy.rules (p : Policy) : Direction → List Rule
  | .ingress => p.ingress
  | .egress => p.egress

def PolicySpec.rules (spec : PolicySpec) : Direction → List SpecRule
  | .ingress => spec.ingress
  | .egress => spec.egress

section

variable (case : Casing) (byName : GoMap String PeerIdentity)

def newPolicyIdentityResolver (identities : List PeerIdentity) : GoMap String PeerIdentity :=
  identities.foldl (fun m id => m.set id.name id) .empty

def resolveIPs (name : String) (now : Time) : List String :=
  match byName.get name with
  | none => []
  | some id =>
    let resolved := if id.resolvedPeerIP = "" then [] else [id.resolvedPeerIP]
    let inGrace := id.gracePeriodExpiresAt.any fun t => now < t
    let previous := if id.previousPeerIP ≠ "" ∧ inGrace then [id.previousPeerIP] else []
    resolved ++ previous

def selected (now : Time) (sel : PeerSelection) : List String :=
  let block := match sel.ipBlock with
    | some cidr => if cidr = "" then [] else [cidr]
    | none => []
  let identity := if sel.identityRef = "" then [] else resolveIPs byName sel.identityRef now
  block ++ identity

def buildRule (action : String) (selections : List PeerSelection) (port : NetworkPolicyPort)
    (now : Time) : Rule where
  peerNames := []
  cidrs := selections.flatMap (selected byName now)
  identityRefs := []
  protocol := case.upper port.protocol
  port := port.port
  action := action

def buildRules (action : String) (selections : List PeerSelection) (ports : List NetworkPolicyPort)
    (now : Time) : List Rule :=
  if ports = [] then [buildRule case byName action selections ⟨0, ""⟩ now]
  else ports.map fun port => buildRule case byName action selections port now

def buildPolicy (name action : String) (spec : PolicySpec) (now : Time) : Policy where
  policyName := name
  action := case.upper action
  ingress := spec.ingress.flatMap fun r =>
    buildRules case byName (case.upper action) r.selections r.ports now
  egress := spec.egress.flatMap fun r =>
    buildRules case byName (case.upper action) r.selections r.ports now

def buildWirePolicies (parse : String → Option PolicySpec) (rows : List PolicyRow) (now : Time) :
    Option (List Policy) :=
  rows.mapM fun row =>
    (parse row.spec).map fun spec => buildPolicy case byName row.name row.action spec now

end

variable {α β : Type}

theorem isSome_mapM {f : α → Option β} {l : List α} :
    (l.mapM f).isSome ↔ ∀ a ∈ l, (f a).isSome := by
  induction l with
  | nil => simp
  | cons a l ih =>
    rw [mapM_cons, forall_mem_cons, ← ih]
    cases f a with
    | none => simp
    | some b => cases l.mapM f <;> simp

theorem mem_mapM {f : α → Option β} {l : List α} {bs : List β} (h : l.mapM f = some bs) {b : β} :
    b ∈ bs ↔ ∃ a ∈ l, f a = some b := by
  induction l generalizing bs with
  | nil =>
    cases h
    simp
  | cons a l ih =>
    rw [mapM_cons] at h
    obtain ⟨head, hhead, h⟩ := bind_eq_some_iff.1 h
    obtain ⟨tail, htail, h⟩ := bind_eq_some_iff.1 h
    cases h
    rw [mem_cons, ih htail, exists_mem_cons_iff, hhead, Option.some.injEq, eq_comm]

theorem forall₂_of_mapM {f : α → Option β} {l : List α} {bs : List β} (h : l.mapM f = some bs) :
    List.Forall₂ (fun a b => f a = some b) l bs := by
  induction l generalizing bs with
  | nil =>
    cases h
    exact .nil
  | cons a l ih =>
    rw [mapM_cons] at h
    obtain ⟨head, hhead, h⟩ := bind_eq_some_iff.1 h
    obtain ⟨tail, htail, h⟩ := bind_eq_some_iff.1 h
    cases h
    exact .cons hhead (ih htail)

def wirePorts (ports : List NetworkPolicyPort) : List NetworkPolicyPort :=
  if ports = [] then [⟨0, ""⟩] else ports

variable {now : Time} {parse : String → Option PolicySpec} {policies : List Policy}
  {rows : List PolicyRow}

theorem mem_rules_buildPolicy {case : Casing} {byName : GoMap String PeerIdentity}
    {name action : String} {spec : PolicySpec} {d : Direction} {rule : Rule} :
    rule ∈ (buildPolicy case byName name action spec now).rules d ↔
      ∃ s ∈ spec.rules d, ∃ port ∈ wirePorts s.ports,
        rule = buildRule case byName (case.upper action) s.selections port now := by
  have hru : (buildPolicy case byName name action spec now).rules d =
      (spec.rules d).flatMap fun s =>
        buildRules case byName (case.upper action) s.selections s.ports now := by
    cases d <;> rfl
  have hpor : ∀ s : SpecRule, buildRules case byName (case.upper action) s.selections s.ports now =
      (wirePorts s.ports).map fun port =>
        buildRule case byName (case.upper action) s.selections port now := by
    intro s
    unfold buildRules wirePorts
    split <;> rfl
  simp only [hru, hpor, mem_flatMap, List.mem_map, eq_comm]

theorem get_newPolicyIdentityResolver {identities : List PeerIdentity}
    (h : identities.Pairwise fun a b => a.name ≠ b.name) (name : String) (id : PeerIdentity) :
    (newPolicyIdentityResolver identities).get name = some id ↔
      id ∈ identities ∧ id.name = name := by
  have hnam : (identities.map PeerIdentity.name).Nodup := pairwise_map.2 h
  unfold newPolicyIdentityResolver
  rw [GoMap.get_foldl_set fun a ha b hb => inj_on_of_nodup_map hnam ha hb]
  constructor
  · rintro ⟨a, ha, hname, rfl⟩
    exact ⟨ha, hname⟩
  · rintro ⟨hid, hname⟩
    exact ⟨id, hid, hname, rfl⟩

def UpperActions (case : Casing) (policies : List Policy) : Prop :=
  ∀ p ∈ policies, ∀ d, ∀ r ∈ p.rules d, ∃ s, r.action = case.upper s

variable {case : Casing} {byName : GoMap String PeerIdentity}

theorem buildPolicy_action {name action : String} {spec : PolicySpec} {d : Direction} {r : Rule}
    (h : r ∈ (buildPolicy case byName name action spec now).rules d) :
    r.action = case.upper action := by
  obtain ⟨s, _, port, _, rfl⟩ := mem_rules_buildPolicy.1 h
  rfl

theorem mem_buildWirePolicies (h : buildWirePolicies case byName parse rows now = some policies)
    {p : Policy} :
    p ∈ policies ↔ ∃ row ∈ rows, ∃ spec, parse row.spec = some spec ∧
      p = buildPolicy case byName row.name row.action spec now := by
  unfold buildWirePolicies at h
  simp only [mem_mapM h, map_eq_some_iff, @eq_comm Policy p]

theorem buildWirePolicies_congr {byName' : GoMap String PeerIdentity} {now' : Time}
    (h : ∀ name, resolveIPs byName name now = resolveIPs byName' name now') :
    buildWirePolicies case byName parse rows now =
      buildWirePolicies case byName' parse rows now' := by
  have hsel : selected byName now = selected byName' now' := by
    funext sel
    unfold selected
    rw [h]
  have hru : ∀ action selections ports,
      buildRules case byName action selections ports now =
        buildRules case byName' action selections ports now' := by
    intro action selections ports
    unfold buildRules buildRule
    rw [hsel]
  have hpol : ∀ name action spec, buildPolicy case byName name action spec now =
      buildPolicy case byName' name action spec now' := by
    intro name action spec
    unfold buildPolicy
    simp only [hru]
  unfold buildWirePolicies
  simp only [hpol]

theorem buildWirePolicies_isSome : (buildWirePolicies case byName parse rows now).isSome ↔
      ∀ row ∈ rows, (parse row.spec).isSome := by
  unfold buildWirePolicies
  simp only [isSome_mapM, isSome_map]

theorem buildWirePolicies_names (h : buildWirePolicies case byName parse rows now = some policies) :
    policies.map Policy.policyName = rows.map PolicyRow.name := by
  unfold buildWirePolicies at h
  induction rows generalizing policies with
  | nil =>
    cases h
    rfl
  | cons row rest ih =>
    rw [mapM_cons] at h
    obtain ⟨head, hhead, h⟩ := bind_eq_some_iff.1 h
    obtain ⟨tail, htail, h⟩ := bind_eq_some_iff.1 h
    cases h
    obtain ⟨spec, -, rfl⟩ := map_eq_some_iff.1 hhead
    rw [map_cons, map_cons, ih htail]
    rfl

theorem buildWirePolicies_upper (h : buildWirePolicies case byName parse rows now = some policies) :
    UpperActions case policies := by
  intro p hp d r hr
  obtain ⟨row, _, spec, _, rfl⟩ := (mem_buildWirePolicies h).1 hp
  exact ⟨row.action, buildPolicy_action hr⟩

end LatticeMesh.Firewall
