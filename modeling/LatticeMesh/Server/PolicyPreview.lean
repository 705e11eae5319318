import LatticeMesh.Firewall.Decisions
import LatticeMesh.Netmap.ConfigVersion
import LatticeMesh.Registry.Decisions
import LatticeMesh.Server.PolicyService

/-! # The preview of a policy -/

namespace LatticeMesh.PolicyService

open List Option Firewall

open Firewall (Casing Direction DecisionKey NetPeer PeerIdentity PeerSelection PolicyRow PolicySpec
  TrafficRule FirewallRule Rule Evaluates Asked Allowed ruleOf rulesOf)
open Netmap (IdentityRecord PolicyRecord)
open Registry (PeerRow PeerTable)

structure Library where
  case : Casing
  parseCIDR : String → Bool
  parseIP : String → Bool
  quote : String → String
  decimal : Int → String
  bar_parseCIDR : ∀ s, parseCIDR s = true → '|' ∉ s.toList
  bar_parseIP : ∀ s, parseIP s = true → '|' ∉ s.toList
  decimal_injective : Function.Injective decimal
  bar_decimal : ∀ n, '|' ∉ (decimal n).toList

structure World where
  store : Store
  peers : PeerTable
  identities : List IdentityRecord
  identities_unique : identities.Pairwise fun p q => p.networkID = q.networkID →
    p.row.name ≠ q.row.name

def Policy.record (p : Policy) : PolicyRecord where
  workspaceID := p.workspaceID
  status := p.status
  expiresAt := p.expiresAt
  row := ⟨p.name, p.action, p.spec⟩

def Store.records (s : Store) : List PolicyRecord :=
  (s.policies.list.filter fun p => !p.deleted).map Policy.record

theorem Store.records_unique (s : Store) : s.records.Pairwise fun p q =>
    p.workspaceID = q.workspaceID → p.row.name ≠ q.row.name := by
  refine pairwise_map.2 (List.Pairwise.filter _ ?_)
  exact s.policies.list_pairwise.imp fun hne hws hname => hne (Prod.ext hws hname)

def World.database (w : World) : Netmap.Database where
  peers := w.peers
  policies := w.store.records
  identities := w.identities
  selections := []
  policies_unique := w.store.records_unique
  identities_unique := w.identities_unique

section

variable (lib : Library) (known : List String)

def checkSelection (dir : String) (sel : PeerSelection) : Except String (List String) :=
  if sel.ipBlock.any fun cidr => cidr ≠ "" && !lib.parseCIDR cidr then
    .error (dir ++ ": invalid CIDR " ++ lib.quote (sel.ipBlock.getD ""))
  else if sel.identityRef ≠ "" ∧ sel.identityRef ∉ known then
    .ok [dir ++ ": identityRef " ++ lib.quote sel.identityRef ++
      " 不存在，该 selection 将匹配零个节点（fail-closed）"]
  else .ok []

def checkSelections (dir : String) (sels : List PeerSelection) : Except String (List String) :=
  (sels.mapM (checkSelection lib known dir)).map List.flatten

def checkPort (dir : String) (port : Firewall.NetworkPolicyPort) : Except String Unit :=
  if port.port < 0 ∨ 65535 < port.port then .error (dir ++ ": invalid port " ++ lib.decimal port.port)
  else .ok ()

def validatePolicySpecSemantics (spec : PolicySpec) : Except String (List String) := do
  let ingress ← spec.ingress.mapM fun r => checkSelections lib known "ingress" r.selections
  let egress ← spec.egress.mapM fun r => checkSelections lib known "egress" r.selections
  let _ ← spec.ingress.mapM fun r => r.ports.mapM (checkPort lib "ingress")
  let _ ← spec.egress.mapM fun r => r.ports.mapM (checkPort lib "egress")
  return (ingress ++ egress).flatten

end

def directionText : Direction → String
  | .ingress => "ingress"
  | .egress => "egress"

structure PreviewRule where
  direction : Direction
  peers : List String
  port : Int
  protocol : String
  action : String
  deriving DecidableEq

def ruleSig (lib : Library) (d : Direction) (tr : TrafficRule) : String :=
  Text.join '|' [directionText d, Text.join ',' (sortOn id tr.peers), lib.decimal tr.port,
    tr.protocol, tr.action]

def singles (d : Direction) (rules : List TrafficRule) : List PreviewRule :=
  rules.flatMap fun tr => tr.peers.map fun peer => ⟨d, [peer], tr.port, tr.protocol, tr.action⟩

def allSingles (fw : FirewallRule) : List PreviewRule :=
  singles .egress fw.egress ++ singles .ingress fw.ingress

def PreviewRule.sig (lib : Library) (r : PreviewRule) : String :=
  ruleSig lib r.direction ⟨"", r.peers, r.protocol, r.port, r.action⟩

def diffRules (lib : Library) (before after : FirewallRule) : List PreviewRule × List PreviewRule :=
  let beforeSet := (allSingles before).map (PreviewRule.sig lib)
  let afterSet := (allSingles after).map (PreviewRule.sig lib)
  ((allSingles after).filter fun r => r.sig lib ∉ beforeSet,
    (allSingles before).filter fun r => r.sig lib ∉ afterSet)

structure PeerPreview where
  name : String
  address : String
  added : List PreviewRule
  removed : List PreviewRule
  deriving DecidableEq

structure PreviewVo where
  warnings : List String
  affectedPeers : List PeerPreview

def draftRow (cfg : Config) (draft : PolicyDto) : PolicyRow :=
  ⟨draft.name, draft.action, cfg.codec.marshalSpec draft.spec⟩

def afterRows (draft : PolicyRow) (active : List PolicyRow) : List PolicyRow :=
  let replaces (row : PolicyRow) : Bool := draft.name ≠ "" ∧ row.name = draft.name
  let after := active.map fun row => if replaces row then draft else row
  if active.any replaces then after else after ++ [draft]

def ComputesForPeer (lib : Library) (cfg : Config) (identities : List PeerIdentity)
    (rows : List PolicyRow) (now : Time) (peers : List NetPeer) (name platform : String)
    (fw : FirewallRule) : Prop :=
  ∃ policies, Firewall.buildWirePolicies lib.case (Firewall.newPolicyIdentityResolver identities)
      cfg.codec.unmarshalSpec rows now = some policies ∧
    Evaluates lib.case (Firewall.resolveRulePeers none peers name) platform policies fw

def infraPeers (rows : List PeerRow) : List NetPeer :=
  (rows.filter fun r => r.address ≠ "").map fun r => ⟨r.name, some r.address⟩

def previewOf (lib : Library) (peer : NetPeer) (before after : FirewallRule) : Option PeerPreview :=
  let diff := diffRules lib before after
  if diff.1 = [] ∧ diff.2 = [] then none
  else some ⟨peer.name, peer.address.getD "", diff.1, diff.2⟩

section

variable (lib : Library) (cfg : Config) (w : World) (wsID : String) (draft : PolicyDto)
  (lo hi : Time)

def PreviewsPeer (identities : List PeerIdentity) (active : List PolicyRow) (peers : List NetPeer)
    (peer : NetPeer) (entry : Option PeerPreview) : Prop :=
  ∃ t₁ ∈ Set.Icc lo hi, ∃ t₂ ∈ Set.Icc lo hi, ∃ before after,
    ComputesForPeer lib cfg identities active t₁ peers peer.name "" before ∧
    ComputesForPeer lib cfg identities (afterRows (draftRow cfg draft) active) t₂ peers peer.name
      "" after ∧
    entry = previewOf lib peer before after

def Previews (out : PreviewVo) : Prop :=
  ∃ rows identities active, ∃ listed ∈ Set.Icc lo hi, w.peers.Lists wsID rows ∧
    identities.Perm (w.database.listByNetwork wsID) ∧
    active.Perm (w.database.listActiveByWorkspace wsID listed) ∧
    validatePolicySpecSemantics lib (identities.map PeerIdentity.name) draft.spec.rules =
      .ok out.warnings ∧
    ∃ entries, List.Forall₂
      (PreviewsPeer lib cfg draft lo hi identities active (infraPeers rows)) (infraPeers rows)
        entries ∧
      out.affectedPeers = entries.filterMap id

def Recomputes (r : PeerRow) (fw : FirewallRule) : Prop :=
  ∃ listed ∈ Set.Icc lo hi, ∃ ruled ∈ Set.Icc lo hi, ∃ identities active peers,
    identities.Perm (w.database.listByNetwork wsID) ∧
    active.Perm (w.database.listActiveByWorkspace wsID listed) ∧
    ComputesForPeer lib cfg identities active ruled peers r.name r.platform fw

def World.applyDirect (fresh operatorID operatorName : String) : World :=
  { w with store := (PolicyService.applyDirect cfg {} fresh wsID operatorID operatorName draft
      w.store).1 }

end

def ruleSet (fw : FirewallRule) : Set (Direction × TrafficRule) := {x | x.2 ∈ fw.rules x.1}

theorem mem_ruleSet {fw : FirewallRule} {x : Direction × TrafficRule} :
    x ∈ ruleSet fw ↔ x.2 ∈ fw.rules x.1 := Iff.rfl

def PreviewRule.traffic (r : PreviewRule) : Direction × TrafficRule :=
  (r.direction, ⟨r.direction.chainName, r.peers, r.protocol, r.port, r.action⟩)

def traffic (rules : List PreviewRule) : Set (Direction × TrafficRule) :=
  {x | ∃ r ∈ rules, r.traffic = x}

def PreviewExact (lib : Library) (cfg : Config) (w : World) (wsID : String) (draft : PolicyDto)
    (fresh operatorID operatorName : String) (lo hi : Time) : Prop :=
  ∀ out, Previews lib cfg w wsID draft lo hi out →
    ∀ r ∈ w.peers, r.workspaceID = wsID → ∀ before after,
      Recomputes lib cfg w wsID lo hi r before →
      Recomputes lib cfg (w.applyDirect cfg wsID draft fresh operatorID operatorName) wsID lo hi r
        after →
      (∀ e ∈ out.affectedPeers, e.name = r.name →
        ruleSet after = (ruleSet before \ traffic e.removed) ∪ traffic e.added ∧
          Disjoint (traffic e.added) (ruleSet before) ∧
          Disjoint (traffic e.removed) (ruleSet after)) ∧
      ((∀ e ∈ out.affectedPeers, e.name ≠ r.name) → ruleSet after = ruleSet before)

def ValidBlocks (lib : Library) (spec : PolicySpec) : Prop :=
  ∀ d, ∀ r ∈ spec.rules d, ∀ sel ∈ r.selections, ∀ cidr ∈ sel.ipBlock, cidr ≠ "" →
    lib.parseCIDR cidr = true

def ValidPorts (spec : PolicySpec) : Prop :=
  ∀ d, ∀ r ∈ spec.rules d, ∀ p ∈ r.ports, 0 ≤ p.port ∧ p.port ≤ 65535

section

variable {α β : Type} {lib : Library} {known : List String} {dir : String}

theorem bind_ok_iff {x : Except String α} {f : α → Except String β} :
    (∃ b, x >>= f = .ok b) ↔ ∃ a, x = .ok a ∧ ∃ b, f a = .ok b := by
  cases x with
  | error e | ok a => simp [bind, Except.bind]

theorem map_ok_iff {x : Except String α} {f : α → β} :
    (∃ b, x.map f = .ok b) ↔ ∃ a, x = .ok a := by
  cases x <;> simp [Except.map]

theorem mapM_ok_iff {f : α → Except String β} {l : List α} :
    (∃ bs, l.mapM f = .ok bs) ↔ ∀ a ∈ l, ∃ b, f a = .ok b := by
  induction l with
  | nil => simp [pure, Except.pure]
  | cons a l ih =>
    rw [mapM_cons, bind_ok_iff, forall_mem_cons, ← ih]
    simp only [bind_ok_iff, pure, Except.pure, Except.ok.injEq, exists_eq', and_true]
    exact exists_and_right

theorem checkSelection_ok_iff {sel : PeerSelection} :
    (∃ ws, checkSelection lib known dir sel = .ok ws) ↔
      ∀ cidr ∈ sel.ipBlock, cidr ≠ "" → lib.parseCIDR cidr = true := by
  unfold checkSelection
  cases sel.ipBlock with
  | none => simp [← apply_ite Except.ok]
  | some cidr =>
    by_cases hcidr : cidr = "" <;> cases hpar : lib.parseCIDR cidr <;>
      simp [hcidr, hpar, ← apply_ite Except.ok]

theorem checkPort_ok_iff {p : Firewall.NetworkPolicyPort} :
    (∃ u, checkPort lib dir p = .ok u) ↔ 0 ≤ p.port ∧ p.port ≤ 65535 := by
  unfold checkPort
  split
  · simp
    omega
  · simp
    omega

theorem validate_ok_iff {spec : PolicySpec} :
    (∃ ws, validatePolicySpecSemantics lib known spec = .ok ws) ↔
      ValidBlocks lib spec ∧ ValidPorts spec := by
  have hru : ∀ {P : Firewall.SpecRule → Prop}, (∀ d, ∀ r ∈ spec.rules d, P r) ↔
      (∀ r ∈ spec.ingress, P r) ∧ ∀ r ∈ spec.egress, P r :=
    ⟨fun h => ⟨h .ingress, h .egress⟩, fun h d => by
      cases d with
      | ingress => exact h.1
      | egress => exact h.2⟩
  unfold validatePolicySpecSemantics ValidBlocks ValidPorts
  simp only [bind_ok_iff, exists_and_right, pure, Except.pure, Except.ok.injEq,
    exists_eq', and_true, mapM_ok_iff, checkSelections, map_ok_iff, checkSelection_ok_iff,
    checkPort_ok_iff, hru]
  exact and_assoc.symm

end

def rulesAt (lib : Library) (cfg : Config) (identities : List PeerIdentity)
    (rows : List PolicyRow) (now : Time) : Set (Direction × TrafficRule) :=
  {x | ∃ fw, ComputesForPeer lib cfg identities rows now [] "" "" fw ∧ x ∈ ruleSet fw}

section

variable {lib : Library} {cfg : Config} {identities identities' : List PeerIdentity}
  {rows rows' : List PolicyRow} {now now' : Time} {peers peers' : List NetPeer}
  {name name' platform platform' : String} {fw fw' : FirewallRule}

theorem exists_computesForPeer (lib : Library) (identities : List PeerIdentity) (now : Time)
    (peers : List NetPeer) (name platform : String)
    (hpar : ∀ row ∈ rows, (cfg.codec.unmarshalSpec row.spec).isSome) :
    ∃ fw, ComputesForPeer lib cfg identities rows now peers name platform fw := by
  have hsome : (Firewall.buildWirePolicies lib.case (Firewall.newPolicyIdentityResolver identities)
      cfg.codec.unmarshalSpec rows now).isSome := buildWirePolicies_isSome.2 hpar
  obtain ⟨policies, hpol⟩ := isSome_iff_exists.1 hsome
  exact ⟨_, policies, hpol, _, _, .refl _, .refl _, rfl⟩

theorem resolveRulePeers_of_wire {policies : List Firewall.Policy} {d : Direction} {rule : Rule}
    (hwire : Firewall.buildWirePolicies lib.case (Firewall.newPolicyIdentityResolver identities)
      cfg.codec.unmarshalSpec rows now = some policies) (hrule : rule ∈ rulesOf policies d) :
    Firewall.resolveRulePeers none peers name rule =
      rule.cidrs.filter fun cidr => Text.trimSpace cidr ≠ "" := by
  obtain ⟨p, hp, hrule⟩ := mem_flatMap.1 hrule
  obtain ⟨row, -, spec, -, rfl⟩ := (mem_buildWirePolicies hwire).1 hp
  obtain ⟨s, -, port, -, rfl⟩ := mem_rules_buildPolicy.1 hrule
  simp [Firewall.resolveRulePeers, Firewall.buildRule]

theorem ComputesForPeer.ruleSet_congr
    (h : ComputesForPeer lib cfg identities rows now peers name platform fw)
    (h' : ComputesForPeer lib cfg identities' rows' now' peers' name' platform' fw')
    (hrows : ∀ row, row ∈ rows ↔ row ∈ rows')
    (hips : ∀ ref, Firewall.resolveIPs (Firewall.newPolicyIdentityResolver identities) ref now =
      Firewall.resolveIPs (Firewall.newPolicyIdentityResolver identities') ref now') :
    ruleSet fw = ruleSet fw' := by
  obtain ⟨policies, hwire, heval⟩ := h
  obtain ⟨policies', hwire', heval'⟩ := h'
  rw [← buildWirePolicies_congr hips] at hwire'
  have hpol : ∀ p, p ∈ policies ↔ p ∈ policies' := by
    intro p
    rw [mem_buildWirePolicies hwire, mem_buildWirePolicies hwire']
    simp only [hrows]
  have hru : ∀ d r, r ∈ rulesOf policies d ↔ r ∈ rulesOf policies' d := by
    intro d r
    unfold rulesOf
    simp only [mem_flatMap, hpol]
  have hres : ∀ d, ∀ r ∈ rulesOf policies' d, Firewall.resolveRulePeers none peers name r =
      Firewall.resolveRulePeers none peers' name' r := by
    intro d r hr
    rw [resolveRulePeers_of_wire hwire ((hru d r).2 hr), resolveRulePeers_of_wire hwire' hr]
  have hask : ∀ d k, Asked (Firewall.resolveRulePeers none peers name) policies d k ↔
      Asked (Firewall.resolveRulePeers none peers' name') policies' d k := by
    intro d k
    unfold Asked
    simp only [hru]
    exact exists_congr fun r => and_congr_right fun hr => by rw [hres d r hr]
  have hall : ∀ d k, Allowed (Firewall.resolveRulePeers none peers name) policies d k ↔
      Allowed (Firewall.resolveRulePeers none peers' name') policies' d k := by
    intro d k
    unfold Allowed
    simp only [hru]
    exact exists_congr fun r => and_congr_right fun hr => by rw [hres d r hr]
  ext ⟨d, t⟩
  have hrule := fun k => ruleOf_congr (hall d k)
  rw [mem_ruleSet, mem_ruleSet, heval.mem_rules (buildWirePolicies_upper hwire),
    heval'.mem_rules (buildWirePolicies_upper hwire')]
  simp only [hask, hrule]

theorem ComputesForPeer.ruleSet_eq
    (h : ComputesForPeer lib cfg identities rows now peers name platform fw)
    (hpar : ∀ row ∈ rows', (cfg.codec.unmarshalSpec row.spec).isSome)
    (hrows : ∀ row, row ∈ rows ↔ row ∈ rows')
    (hips : ∀ ref, Firewall.resolveIPs (Firewall.newPolicyIdentityResolver identities) ref now =
      Firewall.resolveIPs (Firewall.newPolicyIdentityResolver identities') ref now') :
    ruleSet fw = rulesAt lib cfg identities' rows' now' := by
  ext x
  constructor
  · intro hx
    obtain ⟨fw', hfw'⟩ := exists_computesForPeer lib identities' now' [] "" "" hpar
    exact ⟨fw', hfw', h.ruleSet_congr hfw' hrows hips ▸ hx⟩
  · rintro ⟨fw', hfw', hx⟩
    exact h.ruleSet_congr hfw' hrows hips ▸ hx

end

structure Rendered (fw : FirewallRule) : Prop where
  tail : ∀ d, (⟨d.chainName, [], "", 0, "DROP"⟩ : TrafficRule) ∈ fw.rules d
  rule : ∀ d, ∀ t ∈ fw.rules d, t = ⟨d.chainName, [], "", 0, "DROP"⟩ ∨
    t.chainName = d.chainName ∧ '|' ∉ t.action.toList ∧ ∃ peer, t.peers = [peer] ∧ '|' ∉ peer.toList

def PreviewRule.Plain (r : PreviewRule) : Prop :=
  '|' ∉ r.action.toList ∧ ∃ peer, r.peers = [peer] ∧ '|' ∉ peer.toList

section

variable {lib : Library} {fw before after : FirewallRule} {r r' : PreviewRule}

theorem mem_allSingles : r ∈ allSingles fw ↔ ∃ tr ∈ fw.rules r.direction, ∃ peer ∈ tr.peers,
    r = ⟨r.direction, [peer], tr.port, tr.protocol, tr.action⟩ := by
  have hsin : ∀ {d rules}, r ∈ singles d rules ↔ ∃ tr ∈ rules, ∃ peer ∈ tr.peers,
      r = ⟨d, [peer], tr.port, tr.protocol, tr.action⟩ := by
    intro d rules
    unfold singles
    simp only [mem_flatMap, List.mem_map, eq_comm]
  unfold allSingles
  rw [mem_append, hsin, hsin]
  constructor
  · rintro (⟨tr, htr, peer, hpeer, rfl⟩ | ⟨tr, htr, peer, hpeer, rfl⟩)
    · exact ⟨tr, htr, peer, hpeer, rfl⟩
    · exact ⟨tr, htr, peer, hpeer, rfl⟩
  rintro ⟨tr, htr, peer, hpeer, hr⟩
  obtain ⟨d, peers, port, protocol, action⟩ := r
  cases d with
  | ingress => exact .inr ⟨tr, htr, peer, hpeer, hr⟩
  | egress => exact .inl ⟨tr, htr, peer, hpeer, hr⟩

theorem Rendered.mem_allSingles (h : Rendered fw) :
    r ∈ allSingles fw ↔ r.Plain ∧ r.traffic ∈ ruleSet fw := by
  rw [PolicyService.mem_allSingles, mem_ruleSet]
  constructor
  · rintro ⟨tr, htr, peer, hpeer, hr⟩
    obtain rfl | ⟨hcha, hac, peer', hps, hbar⟩ := h.rule _ _ htr
    · cases hpeer
    rw [hps, mem_singleton] at hpeer
    rw [hr]
    refine ⟨⟨hac, peer, rfl, hpeer ▸ hbar⟩, ?_⟩
    have htra : (⟨r.direction.chainName, [peer], tr.protocol, tr.port, tr.action⟩ :
        TrafficRule) = tr := by rw [hpeer, ← hps, ← hcha]
    exact htra ▸ htr
  rintro ⟨⟨-, peer, hps, -⟩, hmem⟩
  refine ⟨_, hmem, peer, ?_, ?_⟩
  · change peer ∈ r.peers
    rw [hps]
    exact mem_singleton_self peer
  · rw [← hps]
    rfl

theorem directionText_injective : Function.Injective directionText := by
  intro d d' h
  cases d <;> cases d' <;> simp_all [directionText]

theorem sig_inj (hr : r.Plain) (hr' : r'.Plain) (h : r.sig lib = r'.sig lib) : r = r' := by
  have hbar : ∀ d, '|' ∉ (directionText d).toList := by
    intro d
    cases d <;> decide
  have hps : ∀ peer : String, Text.join ',' (sortOn id [peer]) = peer := by
    intro peer
    simp [Text.join, sortOn]
  obtain ⟨d, peers, port, protocol, action⟩ := r
  obtain ⟨d', peers', port', protocol', action'⟩ := r'
  obtain ⟨hac, peer, rfl, hpeer⟩ := hr
  obtain ⟨hac', peer', rfl, hpeer'⟩ := hr'
  unfold PreviewRule.sig ruleSig at h
  dsimp only at hac hac' h
  rw [hps, hps] at h
  have hfst := Text.join_cons_cons_inj (hbar d) (hbar d') h
  have hsec := Text.join_cons_cons_inj hpeer hpeer' hfst.2
  have hthi := Text.join_cons_cons_inj (lib.bar_decimal port) (lib.bar_decimal port') hsec.2
  have hlast := Text.join_pair_inj hac hac' hthi.2
  rw [directionText_injective hfst.1, hsec.1, lib.decimal_injective hthi.1, hlast.1, hlast.2]

theorem mem_filter_sig (hfw : Rendered fw) {other : FirewallRule} (hoth : Rendered other) :
    (r ∈ (allSingles fw).filter fun r => r.sig lib ∉ (allSingles other).map (PreviewRule.sig lib)) ↔
      r.Plain ∧ r.traffic ∈ ruleSet fw \ ruleSet other := by
  rw [mem_filter, hfw.mem_allSingles, decide_eq_true_iff, List.mem_map, and_assoc,
    Set.mem_sdiff]
  refine and_congr_right fun hpla => and_congr_right fun _ => not_congr ?_
  constructor
  · rintro ⟨r', hr', hsig⟩
    obtain ⟨hpla', hmem⟩ := hoth.mem_allSingles.1 hr'
    exact sig_inj hpla' hpla hsig ▸ hmem
  · intro hmem
    exact ⟨r, hoth.mem_allSingles.2 ⟨hpla, hmem⟩, rfl⟩

theorem traffic_filter_sig (hfw : Rendered fw) {other : FirewallRule} (hoth : Rendered other) :
    traffic ((allSingles fw).filter fun r =>
      r.sig lib ∉ (allSingles other).map (PreviewRule.sig lib)) = ruleSet fw \ ruleSet other := by
  ext ⟨d, t⟩
  constructor
  · rintro ⟨r, hr, hx⟩
    rw [← hx]
    exact ((mem_filter_sig hfw hoth).1 hr).2
  rintro ⟨hmem, hnot⟩
  obtain rfl | ⟨hcha, hac, hps⟩ := hfw.rule d t hmem
  · exact absurd (hoth.tail d) hnot
  have htra : (⟨d, t.peers, t.port, t.protocol, t.action⟩ : PreviewRule).traffic =
      (d, t) := by
    unfold PreviewRule.traffic
    rw [← hcha]
  refine ⟨_, (mem_filter_sig hfw hoth).2 ⟨⟨hac, hps⟩, ?_⟩, htra⟩
  rw [htra]
  exact ⟨hmem, hnot⟩

theorem traffic_diffRules (lib : Library) (hbef : Rendered before) (haft : Rendered after) :
    traffic (diffRules lib before after).1 = ruleSet after \ ruleSet before ∧
      traffic (diffRules lib before after).2 = ruleSet before \ ruleSet after :=
  ⟨traffic_filter_sig haft hbef, traffic_filter_sig hbef haft⟩

theorem traffic_eq_empty_iff {rules : List PreviewRule} : traffic rules = ∅ ↔ rules = [] := by
  constructor
  · intro h
    rw [eq_nil_iff_forall_not_mem]
    intro r hr
    exact Set.eq_empty_iff_forall_notMem.1 h r.traffic ⟨r, hr, rfl⟩
  rintro rfl
  ext x
  simp [traffic]

theorem previewOf_eq_none_iff {peer : NetPeer} (hbef : Rendered before)
    (haft : Rendered after) :
    previewOf lib peer before after = none ↔ ruleSet after = ruleSet before := by
  obtain ⟨hadd, hrem⟩ := traffic_diffRules lib hbef haft
  unfold previewOf
  simp only [ite_eq_left_iff, reduceCtorEq, imp_false, not_not]
  rw [← traffic_eq_empty_iff, ← traffic_eq_empty_iff, hadd, hrem, Set.sdiff_eq_empty,
    Set.sdiff_eq_empty, Set.Subset.antisymm_iff]

end

theorem mem_selected {byName : GoMap String PeerIdentity} {now : Time} {sel : PeerSelection}
    {text : String} (h : text ∈ Firewall.selected byName now sel) :
    (text ∈ sel.ipBlock ∧ text ≠ "") ∨ text ∈ Firewall.resolveIPs byName sel.identityRef now := by
  unfold Firewall.selected at h
  rw [mem_append, mem_ite_nil_left] at h
  obtain hblo | ⟨-, hip⟩ := h
  · left
    cases hsel : sel.ipBlock with
    | none => simp [hsel] at hblo
    | some cidr =>
      simp only [hsel, mem_ite_nil_left, mem_singleton] at hblo
      obtain ⟨hne, rfl⟩ := hblo
      exact ⟨rfl, hne⟩
  · exact .inr hip

theorem ComputesForPeer.rendered {lib : Library} {cfg : Config} {identities : List PeerIdentity}
    {rows : List PolicyRow} {now : Time} {peers : List NetPeer} {name platform : String}
    {fw : FirewallRule} (h : ComputesForPeer lib cfg identities rows now peers name platform fw)
    (hblo : ∀ row ∈ rows, ∀ spec ∈ cfg.codec.unmarshalSpec row.spec, ValidBlocks lib spec)
    (hips : ∀ ref, ∀ ip ∈ Firewall.resolveIPs (Firewall.newPolicyIdentityResolver identities) ref
      now, lib.parseIP ip = true) : Rendered fw := by
  obtain ⟨policies, hwire, heval⟩ := h
  have hmem := fun d t => heval.mem_rules (d := d) (t := t)
    (buildWirePolicies_upper hwire)
  refine ⟨fun d => (hmem d _).2 (.inl rfl), fun d t ht => ?_⟩
  obtain htail | ⟨k, ⟨rule, hrule, hpeer, -⟩, rfl⟩ := (hmem d t).1 ht
  · exact .inl htail
  rw [resolveRulePeers_of_wire hwire hrule, mem_filter] at hpeer
  obtain ⟨p, hp, hrule⟩ := mem_flatMap.1 hrule
  obtain ⟨row, hrow, spec, hspec, rfl⟩ := (mem_buildWirePolicies hwire).1 hp
  obtain ⟨s, hs, port, -, rfl⟩ := mem_rules_buildPolicy.1 hrule
  obtain ⟨sel, hsel, hsele⟩ := mem_flatMap.1 hpeer.1
  refine .inr ⟨rfl, ?_, k.peer, rfl, ?_⟩
  · unfold ruleOf
    dsimp only
    split <;> decide
  obtain ⟨hbloc, hne⟩ | hip := mem_selected hsele
  · exact lib.bar_parseCIDR _ (hblo row hrow spec hspec d s hs sel hsel _ hbloc hne)
  · exact lib.bar_parseIP _ (hips _ _ hip)

def Policy.InForce (wsID : String) (now : Time) (p : Policy) : Prop :=
  p.deleted = false ∧ p.workspaceID = wsID ∧ p.status = .active ∧ ∀ t ∈ p.expiresAt, now < t

variable {row : PolicyRow}

theorem mem_listActive {w : World} {wsID : String} {now : Time} :
    row ∈ w.database.listActiveByWorkspace wsID now ↔
      ∃ p ∈ w.store.policies, p.InForce wsID now ∧ p.record.row = row := by
  unfold Netmap.Database.listActiveByWorkspace World.database Store.records Policy.InForce
  simp only [List.mem_map, mem_filter, Table.mem_list, decide_eq_true_eq, Bool.not_eq_true']
  constructor
  · rintro ⟨_, ⟨⟨p, ⟨hp, hdel⟩, rfl⟩, hfor⟩, rfl⟩
    exact ⟨p, hp, ⟨hdel, hfor⟩, rfl⟩
  · rintro ⟨p, hp, ⟨hdel, hfor⟩, rfl⟩
    exact ⟨_, ⟨⟨p, ⟨hp, hdel⟩, rfl⟩, hfor⟩, rfl⟩

theorem mem_afterRows {draft : PolicyRow} {active : List PolicyRow} :
    row ∈ afterRows draft active ↔
      row = draft ∨ row ∈ active ∧ ¬ (draft.name ≠ "" ∧ row.name = draft.name) := by
  have hkept : (∃ a ∈ active, (if draft.name ≠ "" ∧ a.name = draft.name then draft else a) = row) ↔
      (row = draft ∧ ∃ a ∈ active, draft.name ≠ "" ∧ a.name = draft.name) ∨
        row ∈ active ∧ ¬ (draft.name ≠ "" ∧ row.name = draft.name) := by
    constructor
    · rintro ⟨a, ha, rfl⟩
      split
      · next h => exact .inl ⟨rfl, a, ha, h⟩
      · next h => exact .inr ⟨ha, h⟩
    rintro (⟨rfl, a, ha, h⟩ | ⟨ha, h⟩)
    · exact ⟨a, ha, if_pos h⟩
    · exact ⟨row, ha, if_neg h⟩
  unfold afterRows
  simp only [decide_eq_true_eq]
  split
  · next hany =>
    rw [List.any_eq_true] at hany
    simp only [decide_eq_true_eq] at hany
    rw [List.mem_map, hkept, and_iff_left hany]
  next hany =>
  rw [List.any_eq_true] at hany
  simp only [decide_eq_true_eq] at hany
  rw [mem_append, List.mem_map, hkept, mem_singleton, or_comm]
  simp only [hany, and_false, false_or]

structure Steady (w : World) (wsID : String) (lo hi : Time) : Prop where
  policies : ∀ p ∈ w.store.policies, ∀ t ∈ p.expiresAt, lo < t → hi < t
  identities : ∀ id ∈ w.database.listByNetwork wsID, ∀ t ∈ id.gracePeriodExpiresAt, lo < t → hi < t

namespace Steady

variable {w : World} {wsID : String} {lo hi now : Time}

theorem mem_listActive (h : Steady w wsID lo hi) (hnow : now ∈ Set.Icc lo hi) :
    row ∈ w.database.listActiveByWorkspace wsID now ↔
      row ∈ w.database.listActiveByWorkspace wsID lo := by
  rw [PolicyService.mem_listActive, PolicyService.mem_listActive]
  refine exists_congr fun p => and_congr_right fun hp => and_congr_left fun _ => ?_
  unfold Policy.InForce
  refine and_congr_right fun _ => and_congr_right fun _ => and_congr_right fun _ => ?_
  exact forall₂_congr fun t ht =>
    ⟨hnow.1.trans_lt, fun hlo => hnow.2.trans_lt (h.policies p hp t ht hlo)⟩

theorem resolveIPs (h : Steady w wsID lo hi) (hnow : now ∈ Set.Icc lo hi)
    {identities : List PeerIdentity} (hperm : identities.Perm (w.database.listByNetwork wsID))
    (ref : String) :
    Firewall.resolveIPs (Firewall.newPolicyIdentityResolver identities) ref now =
      Firewall.resolveIPs
        (Firewall.newPolicyIdentityResolver (w.database.listByNetwork wsID)) ref lo := by
  refine Netmap.resolveIPs_congr hperm (.refl _) (fun id hid => ?_) ref
  refine exists_congr fun t => and_congr_right fun ht => ?_
  exact ⟨hnow.1.trans_lt, fun hlo => hnow.2.trans_lt (h.identities id hid t ht hlo)⟩

end Steady

section

variable (cfg : Config) (w : World) (wsID : String) (draft : PolicyDto)
  (fresh operatorID operatorName : String)

theorem directRow_spec :
    let q := directRow cfg {} fresh wsID operatorID operatorName draft w.store
    q.record.row = draftRow cfg draft ∧ q.index = (wsID, draft.name) ∧ q.deleted = false ∧
      q.status = .active ∧ q.expiresAt = draft.spec.expiresAt := by
  unfold directRow
  cases hrow : w.store.existing {} wsID draft with
  | none => exact ⟨rfl, rfl, rfl, rfl, rfl⟩
  | some row =>
    obtain ⟨-, hidx, hdel⟩ := getByName_eq_some_iff.1 (query_eq_some_iff.1 hrow).2
    refine ⟨?_, hidx, hdel, rfl, rfl⟩
    have hname : row.name = draft.name := (Prod.ext_iff.1 hidx).2
    exact congrArg (PolicyRow.mk · draft.action (cfg.codec.marshalSpec draft.spec)) hname

theorem mem_policies_applyDirect {ns : String} (hws : w.store.workspaces.get wsID = some ns)
    (hfr : w.store.policies.get fresh = none) :
    let after := w.applyDirect cfg wsID draft fresh operatorID operatorName
    (after.store.policies = w.store.policies ∧
      ∃ p ∈ w.store.policies, p.index = (wsID, draft.name) ∧ p.deleted = true) ∨
    ∀ p, p ∈ after.store.policies ↔
      p = directRow cfg {} fresh wsID operatorID operatorName draft w.store ∨
        p ∈ w.store.policies ∧ p.index ≠ (wsID, draft.name) := by
  intro after
  have hidx := (directRow_spec cfg w wsID draft fresh operatorID operatorName).2.1
  cases hrow : w.store.policies.getByName wsID draft.name with
  | some row =>
    have hdir : directRow cfg {} fresh wsID operatorID operatorName draft w.store =
        draft.over cfg operatorID operatorName row := by
      unfold directRow
      rw [show w.store.existing {} wsID draft = some row from hrow]
      rfl
    obtain ⟨hmem, hrowi, -⟩ := getByName_eq_some_iff.1 hrow
    obtain ⟨p, hput, haft⟩ := applyDirect_found cfg fresh operatorID operatorName hws hrow
    have hpol : after.store.policies = p := congrArg Store.policies haft
    right
    intro a
    rw [hpol, ← hidx, hdir]
    refine Table.mem_put?_iff hput fun b hb hkey => ?_
    have hsame : b = row := by
      rw [Table.mem_iff, hkey] at hb
      exact Option.some.inj (hb.symm.trans hmem)
    rw [hsame]
    rfl
  | none =>
    have hdir : directRow cfg {} fresh wsID operatorID operatorName draft w.store =
        draft.over cfg operatorID operatorName
          (newRow fresh wsID operatorID operatorName draft) := by
      unfold directRow
      rw [show w.store.existing {} wsID draft = none from hrow]
      rfl
    have hpol : after.store.policies = _ :=
      applyDirect_new cfg fresh operatorID operatorName hws hrow
    rw [hpol, ← hdir]
    have hid : (directRow cfg {} fresh wsID operatorID operatorName draft w.store).id = fresh := by
      rw [hdir]
      rfl
    generalize directRow cfg {} fresh wsID operatorID operatorName draft w.store = q at hidx hid
    subst hid
    rw [← hidx]
    by_cases hheld : ∃ p ∈ w.store.policies, p.index = q.index
    · obtain ⟨p, hp, hpin⟩ := hheld
      refine .inl ⟨?_, p, hp, hpin, ?_⟩
      · rw [Table.insert?_eq_none_of_mem hp hpin]
        rfl
      by_contra hlive
      rw [getByName_eq_some_iff.2 ⟨hp, hpin.trans hidx, Bool.eq_false_iff.2 hlive⟩] at hrow
      cases hrow
    right
    intro a
    obtain ⟨t, ht⟩ := Table.exists_insert? hfr fun p hp hpin => hheld ⟨p, hp, hpin⟩
    rw [ht, getD_some]
    refine Table.mem_put?_iff (Table.put?_of_insert? ht).1 fun b hb hkey => ?_
    rw [Table.mem_iff, hkey, hfr] at hb
    cases hb

end

structure Ready (lib : Library) (cfg : Config) (w : World) (wsID : String) (draft : PolicyDto)
    (fresh : String) (lo hi : Time) : Prop where
  window : lo ≤ hi
  workspace : ∃ ns, w.store.workspaces.get wsID = some ns
  unused : w.store.policies.get fresh = none
  steady : Steady w wsID lo hi
  specs : ∀ row ∈ w.database.listActiveByWorkspace wsID lo,
    ∃ spec, cfg.codec.unmarshalSpec row.spec = some spec ∧ ValidBlocks lib spec
  addresses : ∀ id ∈ w.database.listByNetwork wsID, ∀ ip ∈ [id.resolvedPeerIP, id.previousPeerIP],
    ip ≠ "" → lib.parseIP ip = true
  blocks : ValidBlocks lib draft.spec.rules
  ports : ValidPorts draft.spec.rules
  decoded : cfg.codec.unmarshalSpec (cfg.codec.marshalSpec draft.spec) = some draft.spec.rules
  expiry : ∀ t ∈ draft.spec.expiresAt, hi < t

structure Faithful (w : World) (wsID : String) (draft : PolicyDto) (lo : Time) : Prop where
  live : ∀ p ∈ w.store.policies, p.index = (wsID, draft.name) → p.deleted = false
  named : draft.name = "" → ∀ row ∈ w.database.listActiveByWorkspace wsID lo, row.name ≠ ""
  addressed : ∀ r ∈ w.peers, r.workspaceID = wsID → r.address ≠ ""

section

variable (lib : Library) (cfg : Config) (w : World) (wsID : String) (draft : PolicyDto)
  (lo : Time)

def rulesBefore : Set (Direction × TrafficRule) :=
  rulesAt lib cfg (w.database.listByNetwork wsID) (w.database.listActiveByWorkspace wsID lo) lo

def rulesPreviewed : Set (Direction × TrafficRule) :=
  rulesAt lib cfg (w.database.listByNetwork wsID)
    (afterRows (draftRow cfg draft) (w.database.listActiveByWorkspace wsID lo)) lo

end

section

variable {lib : Library} {cfg : Config} {w : World} {wsID : String} {draft : PolicyDto}
  {fresh : String} {lo hi : Time} (operatorID operatorName : String)

theorem exists_left_of_forall₂ {α β : Type} {R : α → β → Prop} {l : List α} {l' : List β}
    (h : List.Forall₂ R l l') {b : β} (hb : b ∈ l') : ∃ a ∈ l, R a b := by
  induction h with
  | nil => cases hb
  | cons hR _ ih =>
    obtain rfl | hb := mem_cons.1 hb
    · exact ⟨_, mem_cons_self, hR⟩
    · obtain ⟨a, ha, hRa⟩ := ih hb
      exact ⟨a, mem_cons_of_mem _ ha, hRa⟩

theorem Recomputes.ruleSet_eq {r : PeerRow} {fw : FirewallRule} (hste : Steady w wsID lo hi)
    (hpar : ∀ row ∈ w.database.listActiveByWorkspace wsID lo,
      (cfg.codec.unmarshalSpec row.spec).isSome)
    (h : Recomputes lib cfg w wsID lo hi r fw) : ruleSet fw = rulesBefore lib cfg w wsID lo := by
  obtain ⟨listed, hlis, ruled, hrul, identities, active, peers, hids, hact, hfw⟩ := h
  refine hfw.ruleSet_eq hpar (fun row => ?_) (hste.resolveIPs hrul hids)
  rw [hact.mem_iff, hste.mem_listActive hlis]

theorem exists_recomputes (lib : Library) (r : PeerRow) (hwin : lo ≤ hi)
    (hpar : ∀ row ∈ w.database.listActiveByWorkspace wsID lo,
      (cfg.codec.unmarshalSpec row.spec).isSome) :
    ∃ fw, Recomputes lib cfg w wsID lo hi r fw := by
  obtain ⟨fw, hfw⟩ := exists_computesForPeer lib (w.database.listByNetwork wsID) lo [] r.name
    r.platform hpar
  have hlo : lo ∈ Set.Icc lo hi := ⟨le_rfl, hwin⟩
  exact ⟨fw, lo, hlo, lo, hlo, _, _, [], .refl _, .refl _, hfw⟩

namespace Ready

section

variable (h : Ready lib cfg w wsID draft fresh lo hi)
include h

theorem parse (row : PolicyRow) (hrow : row ∈ w.database.listActiveByWorkspace wsID lo) :
    (cfg.codec.unmarshalSpec row.spec).isSome := by
  obtain ⟨spec, hspec, -⟩ := h.specs row hrow
  rw [hspec]
  rfl

theorem valid_afterRows (hrow : row ∈ afterRows (draftRow cfg draft)
      (w.database.listActiveByWorkspace wsID lo)) :
    ∃ spec, cfg.codec.unmarshalSpec row.spec = some spec ∧ ValidBlocks lib spec := by
  obtain rfl | ⟨hrow, -⟩ := mem_afterRows.1 hrow
  · exact ⟨_, h.decoded, h.blocks⟩
  · exact h.specs row hrow

theorem valid_resolveIPs (ref ip : String)
    (hip : ip ∈ Firewall.resolveIPs
      (Firewall.newPolicyIdentityResolver (w.database.listByNetwork wsID)) ref lo) :
    lib.parseIP ip = true := by
  obtain ⟨id, hid, -, ⟨rfl, hne⟩ | ⟨rfl, hne, -⟩⟩ := (Netmap.mem_resolveIPs_iff (.refl _)).1 hip
  · exact h.addresses id hid _ (by simp) hne
  · exact h.addresses id hid _ (by simp) hne

theorem computed {identities : List PeerIdentity} {rows rows' : List PolicyRow} {now : Time}
    {peers : List NetPeer} {name : String} {fw : FirewallRule} (hnow : now ∈ Set.Icc lo hi)
    (hids : identities.Perm (w.database.listByNetwork wsID)) (hrows : ∀ row, row ∈ rows ↔ row ∈ rows')
    (hval : ∀ row ∈ rows', ∃ spec, cfg.codec.unmarshalSpec row.spec = some spec ∧
      ValidBlocks lib spec)
    (hfw : ComputesForPeer lib cfg identities rows now peers name "" fw) :
    Rendered fw ∧ ruleSet fw = rulesAt lib cfg (w.database.listByNetwork wsID) rows' lo := by
  have hips := h.steady.resolveIPs hnow hids
  constructor
  · refine hfw.rendered (fun row hrow spec hspec => ?_) (fun ref ip hip => ?_)
    · obtain ⟨spec', hspec', hblo⟩ := hval row ((hrows row).1 hrow)
      rw [mem_def, hspec'] at hspec
      cases hspec
      exact hblo
    · exact h.valid_resolveIPs ref ip (hips ref ▸ hip)
  refine hfw.ruleSet_eq (fun row hrow => ?_) hrows hips
  obtain ⟨spec, hspec, -⟩ := hval row hrow
  rw [hspec]
  rfl

theorem previewsPeer {identities : List PeerIdentity} {active : List PolicyRow}
    {peers : List NetPeer} {peer : NetPeer} {entry : Option PeerPreview}
    (hids : identities.Perm (w.database.listByNetwork wsID))
    (hact : ∀ row, row ∈ active ↔ row ∈ w.database.listActiveByWorkspace wsID lo)
    (hent : PreviewsPeer lib cfg draft lo hi identities active peers peer entry) :
    (entry = none ↔ rulesPreviewed lib cfg w wsID draft lo = rulesBefore lib cfg w wsID lo) ∧
      ∀ e ∈ entry, e.name = peer.name ∧
        traffic e.added = rulesPreviewed lib cfg w wsID draft lo \ rulesBefore lib cfg w wsID lo ∧
        traffic e.removed =
          rulesBefore lib cfg w wsID lo \ rulesPreviewed lib cfg w wsID draft lo := by
  obtain ⟨t₁, ht₁, t₂, ht₂, before, after, hbef, haft, rfl⟩ := hent
  obtain ⟨hren, hset⟩ := h.computed ht₁ hids hact h.specs hbef
  obtain ⟨hren', hset'⟩ := h.computed ht₂ hids
    (fun row => by rw [mem_afterRows, mem_afterRows, hact]) (fun _ => h.valid_afterRows) haft
  obtain ⟨hadd, hrem⟩ := traffic_diffRules lib hren hren'
  rw [hset, hset'] at hadd hrem
  constructor
  · rw [previewOf_eq_none_iff hren hren', hset, hset']
    exact Iff.rfl
  intro e he
  unfold previewOf at he
  dsimp only at he
  split at he
  · cases he
  · cases he
    exact ⟨rfl, hadd, hrem⟩

theorem previews {out : PreviewVo} (hout : Previews lib cfg w wsID draft lo hi out) :
    (∀ e ∈ out.affectedPeers,
      rulesPreviewed lib cfg w wsID draft lo ≠ rulesBefore lib cfg w wsID lo ∧
      (∃ r ∈ w.peers, r.workspaceID = wsID ∧ r.address ≠ "" ∧ e.name = r.name) ∧
      traffic e.added = rulesPreviewed lib cfg w wsID draft lo \ rulesBefore lib cfg w wsID lo ∧
      traffic e.removed =
        rulesBefore lib cfg w wsID lo \ rulesPreviewed lib cfg w wsID draft lo) ∧
    (rulesPreviewed lib cfg w wsID draft lo ≠ rulesBefore lib cfg w wsID lo →
      ∀ r ∈ w.peers, r.workspaceID = wsID → r.address ≠ "" →
        ∃ e ∈ out.affectedPeers, e.name = r.name) := by
  obtain ⟨rows, identities, active, listed, hlis, hrows, hids, hact, -, entries, hent,
    haff⟩ := hout
  have hmem : ∀ row, row ∈ active ↔ row ∈ w.database.listActiveByWorkspace wsID lo := by
    intro row
    rw [hact.mem_iff, h.steady.mem_listActive hlis]
  have hps : ∀ peer, peer ∈ infraPeers rows ↔ ∃ r ∈ w.peers, r.workspaceID = wsID ∧
      r.address ≠ "" ∧ peer = ⟨r.name, some r.address⟩ := by
    intro peer
    unfold infraPeers
    simp only [List.mem_map, mem_filter, hrows.mem_iff, decide_eq_true_eq, and_assoc,
      @eq_comm NetPeer peer]
  rw [haff]
  constructor
  · intro e he
    obtain ⟨entry, hentr, rfl⟩ := mem_filterMap.1 he
    obtain ⟨peer, hpeer, hpre⟩ := exists_left_of_forall₂ hent hentr
    obtain ⟨hnone, hsome⟩ := h.previewsPeer hids hmem hpre
    obtain ⟨hname, htra⟩ := hsome e rfl
    obtain ⟨r, hr, hws, hadr, rfl⟩ := (hps peer).1 hpeer
    refine ⟨fun heq => ?_, ⟨r, hr, hws, hadr, hname⟩, htra⟩
    cases hnone.2 heq
  intro hne r hr hws hadr
  have hpeer := (hps _).2 ⟨r, hr, hws, hadr, rfl⟩
  obtain ⟨entry, hentr, hpre⟩ := exists_left_of_forall₂ hent.flip hpeer
  obtain ⟨hnone, hsome⟩ := h.previewsPeer hids hmem hpre
  cases entry with
  | none => exact absurd (hnone.1 rfl) hne
  | some e => exact ⟨e, mem_filterMap.2 ⟨_, hentr, rfl⟩, (hsome e rfl).1⟩

theorem exists_previewsPeer (peers : List NetPeer) (peer : NetPeer) :
    ∃ entry, PreviewsPeer lib cfg draft lo hi (w.database.listByNetwork wsID)
      (w.database.listActiveByWorkspace wsID lo) peers peer entry := by
  have hlo : lo ∈ Set.Icc lo hi := ⟨le_rfl, h.window⟩
  have hpar : ∀ row ∈ afterRows (draftRow cfg draft) (w.database.listActiveByWorkspace wsID lo),
      (cfg.codec.unmarshalSpec row.spec).isSome := by
    intro row hrow
    obtain ⟨spec, hspec, -⟩ := h.valid_afterRows hrow
    rw [hspec]
    rfl
  obtain ⟨before, hbef⟩ :=
    exists_computesForPeer lib (w.database.listByNetwork wsID) lo peers peer.name "" h.parse
  obtain ⟨after, haft⟩ :=
    exists_computesForPeer lib (w.database.listByNetwork wsID) lo peers peer.name "" hpar
  exact ⟨_, lo, hlo, lo, hlo, before, after, hbef, haft, rfl⟩

theorem exists_previews : ∃ out, Previews lib cfg w wsID draft lo hi out := by
  obtain ⟨warnings, hwar⟩ := validate_ok_iff.2 ⟨h.blocks, h.ports⟩
  obtain ⟨rows, hrows⟩ : ∃ rows, w.peers.Lists wsID rows := ⟨_, .refl _⟩
  choose entry hent using h.exists_previewsPeer (infraPeers rows)
  exact ⟨⟨warnings, ((infraPeers rows).map entry).filterMap id⟩, rows, _, _, lo,
    ⟨le_rfl, h.window⟩, hrows, .refl _, .refl _, hwar, _,
    forall₂_map_right_iff.2 (forall₂_same.2 fun peer _ => hent peer), rfl⟩

theorem applied : Steady (w.applyDirect cfg wsID draft fresh operatorID operatorName) wsID lo hi ∧
    ∀ row ∈ (w.applyDirect cfg wsID draft fresh operatorID
      operatorName).database.listActiveByWorkspace wsID lo,
      (cfg.codec.unmarshalSpec row.spec).isSome := by
  obtain ⟨ns, hns⟩ := h.workspace
  obtain ⟨hrow, -, -, -, hexp⟩ :=
    directRow_spec cfg w wsID draft fresh operatorID operatorName
  have hmem : ∀ p ∈ (w.applyDirect cfg wsID draft fresh operatorID operatorName).store.policies,
      p ∈ w.store.policies ∨
        p = directRow cfg {} fresh wsID operatorID operatorName draft w.store := by
    intro p hp
    obtain ⟨hsame, -⟩ | hiff :=
      mem_policies_applyDirect cfg w wsID draft fresh operatorID operatorName hns h.unused
    · exact .inl (hsame ▸ hp)
    obtain rfl | ⟨hp, -⟩ := (hiff p).1 hp
    · exact .inr rfl
    · exact .inl hp
  refine ⟨⟨fun p hp t ht hlo => ?_, h.steady.identities⟩, fun row hrow' => ?_⟩
  · obtain hp | rfl := hmem p hp
    · exact h.steady.policies p hp t ht hlo
    · exact h.expiry t (hexp ▸ ht)
  obtain ⟨p, hp, hfor, rfl⟩ := mem_listActive.1 hrow'
  obtain hp | rfl := hmem p hp
  · exact h.parse _ (mem_listActive.2 ⟨p, hp, hfor, rfl⟩)
  · rw [hrow]
    exact isSome_iff_exists.2 ⟨_, h.decoded⟩

theorem stored_rows (hfai : Faithful w wsID draft lo) (row : PolicyRow) :
    row ∈ (w.applyDirect cfg wsID draft fresh operatorID
      operatorName).database.listActiveByWorkspace wsID lo ↔
      row ∈ afterRows (draftRow cfg draft) (w.database.listActiveByWorkspace wsID lo) := by
  obtain ⟨ns, hns⟩ := h.workspace
  obtain ⟨hrow, hidx, hdel, hst, hexp⟩ :=
    directRow_spec cfg w wsID draft fresh operatorID operatorName
  obtain ⟨-, p, hp, hpin, hpde⟩ | hiff :=
    mem_policies_applyDirect cfg w wsID draft fresh operatorID operatorName hns h.unused
  · rw [hfai.live p hp hpin] at hpde
    cases hpde
  have hfor : (directRow cfg {} fresh wsID operatorID operatorName draft w.store).InForce wsID
      lo := by
    refine ⟨hdel, (Prod.ext_iff.1 hidx).1, hst, fun t ht => ?_⟩
    exact h.window.trans_lt (h.expiry t (hexp ▸ ht))
  rw [mem_listActive, mem_afterRows]
  constructor
  · rintro ⟨p, hp, hpfo, rfl⟩
    obtain rfl | ⟨hp, hne⟩ := (hiff p).1 hp
    · exact .inl hrow
    · refine .inr ⟨mem_listActive.2 ⟨p, hp, hpfo, rfl⟩, fun hname => hne ?_⟩
      exact Prod.ext hpfo.2.1 hname.2
  rintro (rfl | ⟨hact, hname⟩)
  · exact ⟨_, (hiff _).2 (.inl rfl), hfor, hrow⟩
  obtain ⟨p, hp, hpfo, rfl⟩ := mem_listActive.1 hact
  refine ⟨p, (hiff p).2 (.inr ⟨hp, fun hpin => hname ?_⟩), hpfo, rfl⟩
  have hpna : p.name = draft.name := (Prod.ext_iff.1 hpin).2
  exact ⟨fun hemp => hfai.named hemp _ hact (hpna.trans hemp), hpna⟩

theorem rules_stored (hfai : Faithful w wsID draft lo) :
    rulesBefore lib cfg (w.applyDirect cfg wsID draft fresh operatorID operatorName) wsID lo =
      rulesPreviewed lib cfg w wsID draft lo := by
  obtain ⟨hste', hpar'⟩ := h.applied operatorID operatorName
  obtain ⟨fw, hfw⟩ := exists_computesForPeer lib (w.database.listByNetwork wsID) lo [] "" "" hpar'
  have hrows := h.stored_rows operatorID operatorName hfai
  have hlo : lo ∈ Set.Icc lo hi := ⟨le_rfl, h.window⟩
  rw [rulesBefore, rulesPreviewed, ← (h.computed hlo (.refl _) hrows
    (fun _ => h.valid_afterRows) hfw).2]
  exact (hfw.ruleSet_eq hpar' (fun _ => Iff.rfl) fun _ => rfl).symm

end

end Ready

theorem eq_of_name {t : PeerTable} {r r' : PeerRow} (hr : r ∈ t) (hr' : r' ∈ t)
    (hws : r.workspaceID = r'.workspaceID) (hname : r.name = r'.name) : r = r' := by
  have hid := t.unique r r' hr hr' hws hname
  rw [PeerTable.mem_iff, hid] at hr
  exact Option.some.inj (hr.symm.trans hr')

theorem sdiff_sdiff_union {α : Type} (A B : Set α) : B \ (B \ A) ∪ A \ B = A := by
  ext x
  simp only [Set.mem_union, Set.mem_sdiff]
  tauto

end

def strokes (n : Int) : List Char :=
  if n < 0 then '-' :: List.replicate n.natAbs '1' else List.replicate n.natAbs '1'

theorem strokes_injective : Function.Injective strokes := by
  have hsign : ∀ {k l : ℕ}, '-' :: List.replicate k '1' ≠ List.replicate l '1' := by
    intro k l h
    have hmem : '-' ∈ List.replicate l '1' := h ▸ mem_cons_self
    exact absurd (eq_of_mem_replicate hmem) (by decide)
  intro m n h
  unfold strokes at h
  split at h <;> split at h
  · have hlen := congrArg List.length h
    simp only [length_cons, length_replicate] at hlen
    omega
  · exact absurd h hsign
  · exact absurd h.symm hsign
  have hlen := congrArg List.length h
  simp only [length_replicate] at hlen
  omega

def tableLibrary : Library where
  case := Firewall.tableCase
  parseCIDR s := s = "10.0.0.5/32"
  parseIP _ := false
  quote s := "\"" ++ s ++ "\""
  decimal n := String.ofList (strokes n)
  bar_parseCIDR s hs := by
    rw [of_decide_eq_true hs]
    decide
  bar_parseIP _ hs := by cases hs
  decimal_injective m n h := strokes_injective (String.ofList_inj.1 h)
  bar_decimal n := by
    rw [String.toList_ofList]
    unfold strokes
    split <;> simp

theorem no_identities : ([] : List IdentityRecord).Pairwise fun p q =>
    p.networkID = q.networkID → p.row.name ≠ q.row.name := .nil

def laptopWorld (policies : PolicyTable) : World :=
  ⟨{ emptyStore with policies := policies }, Registry.oneRow Registry.laptop, [], no_identities⟩

def deletedWeb : PolicyTable :=
  Table.put .empty { id := "p0", workspaceID := "ws", name := "web", deleted := true }
    fun _ h => absurd h not_mem_nil

theorem ready_laptopWorld {policies : PolicyTable} (hun : policies.get "p1" = none)
    (hdel : ∀ p ∈ policies, p.deleted = true) :
    Ready tableLibrary standalone (laptopWorld policies) "ws" (webDraft oneHost) "p1" 0 0 where
  window := le_rfl
  workspace := ⟨"wf-ws", rfl⟩
  unused := hun
  steady := ⟨fun _ _ _ _ h => h, fun _ _ _ _ h => h⟩
  specs row hrow := by
    obtain ⟨p, hp, hfor, -⟩ := mem_listActive.1 hrow
    exact absurd (hdel p hp) (by rw [hfor.1]; decide)
  addresses id hid := by cases hid
  blocks d r hr sel hsel cidr hcidr _ := by
    cases d with
    | ingress =>
      rw [mem_singleton.1 hr, mem_singleton] at hsel
      rw [hsel] at hcidr
      cases hcidr
      rfl
    | egress => cases hr
  ports d r hr p hp := by
    cases d with
    | ingress =>
      rw [mem_singleton.1 hr] at hp
      cases hp
    | egress => cases hr
  decoded := rfl
  expiry t ht := by cases ht

def denyAll (platform : String) : FirewallRule :=
  ⟨platform, Firewall.emit Firewall.tableCase .ingress [],
    Firewall.emit Firewall.tableCase .egress []⟩

def hostAllowed (platform : String) : FirewallRule :=
  ⟨platform, Firewall.emit Firewall.tableCase .ingress [(⟨"10.0.0.5/32", 0, ""⟩, "ALLOW")],
    Firewall.emit Firewall.tableCase .egress []⟩

theorem computes_denyAll (peers : List NetPeer) (name platform : String) :
    ComputesForPeer tableLibrary standalone [] [] 0 peers name platform (denyAll platform) :=
  ⟨[], rfl, [], [], .refl _, .refl _, rfl⟩

theorem computes_hostAllowed :
    ComputesForPeer tableLibrary standalone [] [draftRow standalone (webDraft oneHost)] 0
      [⟨"laptop", some "10.96.0.2"⟩] "laptop" "" (hostAllowed "") := by
  refine ⟨_, rfl, _, [], ?_, .refl _, rfl⟩
  unfold GoMap.Ranges
  decide +kernel

end LatticeMesh.PolicyService
