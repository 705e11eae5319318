import LatticeMesh.Netmap.Builder

/-! # What policies decide -/

namespace LatticeMesh.Netmap

open Firewall Registry Text List

variable {ν : Type} {lib : Library ν} {b : NetmapBuilder} {db : Database} {clock : Clock}
  {peer : PeerRow}

def Resolves (id : PeerIdentity) (now : Registry.Time) (text : String) : Prop :=
  text = id.resolvedPeerIP ∧ text ≠ "" ∨
    text = id.previousPeerIP ∧ text ≠ "" ∧ ∃ t ∈ id.gracePeriodExpiresAt, now < t

def Selects (db : Database) (networkID : String) (now : Registry.Time) (sel : PeerSelection)
    (text : String) : Prop :=
  (sel.ipBlock = some text ∧ text ≠ "") ∨
    sel.identityRef ≠ "" ∧ ∃ id ∈ db.listByNetwork networkID, id.name = sel.identityRef ∧
      Resolves id now text

def PolicyKey (lib : Library ν) (db : Database) (clock : Clock) (workspaceID : String)
    (d : Direction) (k : DecisionKey) : Prop :=
  ∃ row ∈ db.listActiveByWorkspace workspaceID clock.listed, ∃ spec,
    lib.unmarshalSpec row.spec = some spec ∧ ∃ s ∈ spec.rules d,
      (∃ sel ∈ s.selections, Selects db workspaceID clock.ruled sel k.peer) ∧
      trimSpace k.peer ≠ "" ∧
      ∃ port ∈ wirePorts s.ports, k.port = port.port ∧ k.protocol = lib.case.upper port.protocol

variable {identities : List PeerIdentity}

theorem identities_pairwise (db : Database) (networkID : String)
    (h : identities.Perm (db.listByNetwork networkID)) :
    identities.Pairwise fun p q => p.name ≠ q.name := by
  refine (h.pairwise_iff fun hne => hne.symm).2 ?_
  unfold Database.listByNetwork
  rw [pairwise_map, pairwise_filter]
  refine db.identities_unique.imp ?_
  intro p q hne hp hq
  exact hne ((of_decide_eq_true hp).trans (of_decide_eq_true hq).symm)

theorem mem_resolveIPs_iff {networkID : String} (h : identities.Perm (db.listByNetwork networkID))
    {now : Registry.Time} {name text : String} :
    text ∈ resolveIPs (newPolicyIdentityResolver identities) name now ↔
      ∃ id ∈ db.listByNetwork networkID, id.name = name ∧ Resolves id now text := by
  have hget := get_newPolicyIdentityResolver (identities_pairwise db networkID h) name
  simp only [h.mem_iff] at hget
  unfold resolveIPs
  cases hfnd : (newPolicyIdentityResolver identities).get name with
  | none =>
    constructor
    · intro hmem
      cases hmem
    rintro ⟨id, hid, hname, -⟩
    rw [(hget id).2 ⟨hid, hname⟩] at hfnd
    cases hfnd
  | some id =>
    have hmem : text ∈ (if id.resolvedPeerIP = "" then [] else [id.resolvedPeerIP]) ++
        (if id.previousPeerIP ≠ "" ∧ id.gracePeriodExpiresAt.any (fun t => now < t) = true
          then [id.previousPeerIP] else []) ↔ Resolves id now text := by
      unfold Resolves
      simp only [mem_append, mem_ite_nil_left, mem_ite_nil_right,
        mem_singleton, Option.any_eq_true, decide_eq_true_eq]
      constructor
      · rintro (⟨hne, rfl⟩ | ⟨⟨hne, hgra⟩, rfl⟩)
        · exact .inl ⟨rfl, hne⟩
        · exact .inr ⟨rfl, hne, hgra⟩
      rintro (⟨rfl, hne⟩ | ⟨rfl, hne, hgra⟩)
      · exact .inl ⟨hne, rfl⟩
      · exact .inr ⟨⟨hne, hgra⟩, rfl⟩
    rw [hmem]
    constructor
    · intro hres
      exact ⟨id, ((hget id).1 hfnd).1, ((hget id).1 hfnd).2, hres⟩
    rintro ⟨id', hid', hname', hres⟩
    rw [(hget id').2 ⟨hid', hname'⟩] at hfnd
    cases hfnd
    exact hres

theorem mem_selected_iff {networkID : String} (h : identities.Perm (db.listByNetwork networkID))
    {now : Registry.Time} {sel : PeerSelection} {text : String} :
    text ∈ selected (newPolicyIdentityResolver identities) now sel ↔
      Selects db networkID now sel text := by
  unfold selected Selects
  rw [mem_append, mem_ite_nil_left, mem_resolveIPs_iff h]
  refine or_congr_left ?_
  cases sel.ipBlock with
  | none => simp
  | some cidr =>
    simp only [mem_ite_nil_left, mem_singleton, Option.some.injEq]
    constructor
    · rintro ⟨hne, rfl⟩
      exact ⟨rfl, hne⟩
    · rintro ⟨rfl, hne⟩
      exact ⟨hne, rfl⟩

theorem mem_resolve_iff {net : Network} {rule : Rule} (hnam : rule.peerNames = [])
    {q : String} : q ∈ resolve peer net rule ↔ q ∈ rule.cidrs ∧ trimSpace q ≠ "" := by
  unfold resolve resolveRulePeers
  simp [hnam]

theorem Build.decided_iff (x : Build lib b db clock peer) {d : Direction} {k : DecisionKey} :
    (∃ a, (decisions (resolve peer x.content.network) x.ruled d).get k = some a) ↔
      PolicyKey lib db clock peer.workspaceID d k := by
  rw [Firewall.decided_iff]
  constructor
  · rintro ⟨rule, hrule, hpeer, hk⟩
    obtain ⟨p, hp, hrule⟩ := mem_flatMap.1 hrule
    obtain ⟨row, hrow, spec, hspec, rfl⟩ := (mem_buildWirePolicies x.ruled_eq).1 hp
    obtain ⟨s, hs, port, hport, rfl⟩ := mem_rules_buildPolicy.1 hrule
    obtain ⟨hcidr, hbla⟩ := (mem_resolve_iff rfl).1 hpeer
    obtain ⟨sel, hsel, htext⟩ := mem_flatMap.1 hcidr
    have htext := (mem_selected_iff x.identities_listed).1 htext
    exact ⟨row, x.policies_listed.mem_iff.1 hrow, spec, hspec, s, hs, ⟨sel, hsel, htext⟩, hbla,
      port, hport, congrArg DecisionKey.port hk, congrArg DecisionKey.protocol hk⟩
  rintro ⟨row, hrow, spec, hspec, s, hs, ⟨sel, hsel, htext⟩, hbla, port, hport, hkpo, hkpr⟩
  have hp := (mem_buildWirePolicies x.ruled_eq).2
    ⟨row, x.policies_listed.mem_iff.2 hrow, spec, hspec, rfl⟩
  have hcidr := mem_flatMap.2 ⟨sel, hsel, (mem_selected_iff x.identities_listed).2 htext⟩
  refine ⟨_, mem_flatMap.2 ⟨_, hp, mem_rules_buildPolicy.2 ⟨s, hs, port, hport, rfl⟩⟩,
    (mem_resolve_iff rfl).2 ⟨hcidr, hbla⟩, ?_⟩
  obtain ⟨q, kport, kprot⟩ := k
  cases hkpo
  cases hkpr
  rfl

end LatticeMesh.Netmap
