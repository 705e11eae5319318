import LatticeMesh.Firewall.Priority
import Mathlib.Data.List.Perm.Basic

/-! # Decisions and the order of policies -/

namespace LatticeMesh.Firewall

open List Option

variable {case : Casing} {resolve : Rule → List String} {platform : String}
  {policies policies' : List Policy} {d : Direction} {k : DecisionKey} {fw fw' : FirewallRule}

def Asked (resolve : Rule → List String) (policies : List Policy) (d : Direction)
    (k : DecisionKey) : Prop :=
  ∃ r ∈ rulesOf policies d, k.peer ∈ resolve r ∧ k = r.keyFor k.peer

def Allowed (resolve : Rule → List String) (policies : List Policy) (d : Direction)
    (k : DecisionKey) : Prop :=
  ∃ r ∈ rulesOf policies d, r.action = "ALLOW" ∧ k.peer ∈ resolve r ∧ k = r.keyFor k.peer

theorem Allowed.asked (h : Allowed resolve policies d k) : Asked resolve policies d k := by
  obtain ⟨r, hr, -, hpeer, hk⟩ := h
  exact ⟨r, hr, hpeer, hk⟩

def TrafficRule.For (t : TrafficRule) (k : DecisionKey) : Prop :=
  t.peers = [k.peer] ∧ t.port = k.port ∧ t.protocol = k.protocol

instance (t : TrafficRule) (k : DecisionKey) : Decidable (t.For k) :=
  inferInstanceAs (Decidable (_ ∧ _ ∧ _))

def FirewallRule.actions (fw : FirewallRule) (d : Direction) (k : DecisionKey) : List String :=
  ((fw.rules d).filter fun t => t.For k).map TrafficRule.action

theorem trafficRule_for_iff {j : DecisionKey} {a : String} :
    (trafficRule case d j a).For k ↔ j = k := by
  obtain ⟨peer, port, protocol⟩ := j
  obtain ⟨peer', port', protocol'⟩ := k
  simp [TrafficRule.For, trafficRule]

theorem filter_key_of_ranges {m : GoMap DecisionKey String} {l : List (DecisionKey × String)}
    (h : m.Ranges l) (k : DecisionKey) :
    l.filter (fun e => e.1 = k) = ((m.get k).map fun a => (k, a)).toList := by
  have hnod : l.Nodup := (List.Perm.nodup_iff h).2 m.nodup_toList
  have hmem : ∀ e, e ∈ l.filter (fun e => e.1 = k) ↔ e.1 = k ∧ m.get k = some e.2 := by
    rintro ⟨j, a⟩
    rw [mem_filter, h.mem_iff, decide_eq_true_iff]
    constructor
    · rintro ⟨hget, rfl⟩
      exact ⟨rfl, hget⟩
    · rintro ⟨rfl, hget⟩
      exact ⟨hget, rfl⟩
  cases hget : m.get k with
  | none =>
    rw [map_none, toList_none, eq_nil_iff_forall_not_mem]
    intro e he
    have hsome := ((hmem e).1 he).2
    rw [hget] at hsome
    cases hsome
  | some a =>
    rw [map_some, toList_some, ← perm_singleton,
      perm_ext_iff_of_nodup (hnod.filter _) (nodup_singleton _)]
    rintro ⟨j, b⟩
    rw [hmem, hget, mem_singleton, Prod.mk.injEq, Option.some.injEq, eq_comm (a := a)]

theorem Evaluates.rules_eq (h : Evaluates case resolve platform policies fw) (d : Direction) :
    ∃ l, (decisions resolve policies d).Ranges l ∧ fw.rules d = emit case d l := by
  obtain ⟨li, le, hli, hle, rfl⟩ := h
  cases d with
  | ingress => exact ⟨li, hli, rfl⟩
  | egress => exact ⟨le, hle, rfl⟩

theorem Evaluates.actions (h : Evaluates case resolve platform policies fw) (d : Direction)
    (k : DecisionKey) : fw.actions d k =
      (((decisions resolve policies d).get k).map (toIPTAction case)).toList := by
  obtain ⟨l, hl, hru⟩ := h.rules_eq d
  have htail : ¬ (⟨d.chainName, [], "", 0, "DROP"⟩ : TrafficRule).For k := fun hfor => by
    cases hfor.1
  have hfil : (emit case d l).filter (fun t => t.For k) =
      (l.filter fun e => e.1 = k).map fun e => trafficRule case d e.1 e.2 := by
    unfold emit
    rw [filter_append, filter_singleton, List.filter_map]
    simp only [htail, decide_false, cond_false, append_nil, Function.comp_def,
      trafficRule_for_iff]
  unfold FirewallRule.actions
  rw [hru, hfil, filter_key_of_ranges hl]
  cases (decisions resolve policies d).get k <;> rfl

theorem decision_allow_iff {a : String} (h : (decisions resolve policies d).get k = some a) :
    a = "ALLOW" ↔ Allowed resolve policies d k := by
  constructor
  · rintro rfl
    obtain ⟨r, hr, hpeer, hk, hac⟩ := rule_of_decision h
    exact ⟨r, hr, hac, hpeer, hk⟩
  rintro ⟨r, hr, hac, hpeer, hk⟩
  obtain ⟨b, hb, hall⟩ := decision_of_rule hr hpeer
  rw [← hk, h] at hb
  exact (Option.some.inj hb).trans (hall hac)

theorem Evaluates.actions_eq (hup : UpperActions case policies)
    (h : Evaluates case resolve platform policies fw) (d : Direction) (k : DecisionKey) :
    (Allowed resolve policies d k → fw.actions d k = ["ACCEPT"]) ∧
      (Asked resolve policies d k → ¬ Allowed resolve policies d k → fw.actions d k = ["DROP"]) ∧
      (¬ Asked resolve policies d k → fw.actions d k = []) := by
  rw [h.actions]
  cases hget : (decisions resolve policies d).get k with
  | none =>
    have hask : ¬ Asked resolve policies d k := fun hask => by
      obtain ⟨a, ha⟩ := decided_iff.2 hask
      rw [hget] at ha
      cases ha
    exact ⟨fun hall => absurd hall.asked hask, fun h => absurd h hask, fun _ => rfl⟩
  | some a =>
    rw [map_some, toList_some, decision_target hup hget]
    refine ⟨fun hall => ?_, fun _ hnot => ?_, fun hask => ?_⟩
    · rw [if_pos ((decision_allow_iff hget).2 hall)]
    · rw [if_neg fun ha => hnot ((decision_allow_iff hget).1 ha)]
    · exact absurd (decided_iff.1 ⟨a, hget⟩) hask

open Classical in
noncomputable def ruleOf (resolve : Rule → List String) (policies : List Policy) (d : Direction)
    (k : DecisionKey) : TrafficRule :=
  ⟨d.chainName, [k.peer], k.protocol, k.port,
    if Allowed resolve policies d k then "ACCEPT" else "DROP"⟩

theorem ruleOf_congr {resolve' : Rule → List String}
    (h : Allowed resolve policies d k ↔ Allowed resolve' policies' d k) :
    ruleOf resolve policies d k = ruleOf resolve' policies' d k := by
  unfold ruleOf
  rw [propext h]

theorem Evaluates.mem_rules (hup : UpperActions case policies)
    (h : Evaluates case resolve platform policies fw) {t : TrafficRule} :
    t ∈ fw.rules d ↔ t = ⟨d.chainName, [], "", 0, "DROP"⟩ ∨
      ∃ k, Asked resolve policies d k ∧ t = ruleOf resolve policies d k := by
  have hrule : ∀ {k : DecisionKey} {a : String}, (decisions resolve policies d).get k = some a →
      trafficRule case d k a = ruleOf resolve policies d k := by
    intro k a hget
    have hall := decision_allow_iff hget
    unfold trafficRule ruleOf
    rw [decision_target hup hget]
    by_cases ha : a = "ALLOW"
    · rw [if_pos ha, if_pos (hall.1 ha)]
    · rw [if_neg ha, if_neg fun h => ha (hall.2 h)]
  obtain ⟨l, hl, hru⟩ := h.rules_eq d
  rw [hru, emit, mem_append, mem_singleton, or_comm, List.mem_map]
  refine or_congr_right ⟨?_, ?_⟩
  · rintro ⟨⟨k, a⟩, hka, rfl⟩
    have hget := hl.mem_iff.1 hka
    exact ⟨k, decided_iff.1 ⟨a, hget⟩, hrule hget⟩
  rintro ⟨k, hask, rfl⟩
  obtain ⟨a, hget⟩ := decided_iff.2 hask
  exact ⟨(k, a), hl.mem_iff.2 hget, hrule hget⟩

theorem Evaluates.actions_congr (hup : UpperActions case policies)
    (hsame : ∀ r, r ∈ rulesOf policies' d ↔ r ∈ rulesOf policies d)
    (h : Evaluates case resolve platform policies fw) {platform' : String}
    (h' : Evaluates case resolve platform' policies' fw') (hup' : UpperActions case policies')
    (k : DecisionKey) : fw'.actions d k = fw.actions d k := by
  obtain ⟨hall, hdrop, hnone⟩ := h.actions_eq hup d k
  obtain ⟨hall', hdrop', hnone'⟩ := h'.actions_eq hup' d k
  have hallo : Allowed resolve policies' d k ↔ Allowed resolve policies d k := by
    unfold Allowed
    simp only [hsame]
  have hask : Asked resolve policies' d k ↔ Asked resolve policies d k := by
    unfold Asked
    simp only [hsame]
  by_cases ha : Allowed resolve policies d k
  · rw [hall ha, hall' (hallo.2 ha)]
  by_cases hk : Asked resolve policies d k
  · rw [hdrop hk ha, hdrop' (hask.2 hk) (fun h => ha (hallo.1 h))]
  · rw [hnone hk, hnone' (fun h => hk (hask.1 h))]

theorem Evaluates.accepts_mono (hup : UpperActions case policies)
    (hsub : ∀ r ∈ rulesOf policies d, r ∈ rulesOf policies' d)
    (h : Evaluates case resolve platform policies fw) {platform' : String}
    (h' : Evaluates case resolve platform' policies' fw') (hup' : UpperActions case policies')
    (hacc : fw.actions d k = ["ACCEPT"]) : fw'.actions d k = ["ACCEPT"] := by
  obtain ⟨-, hdrop, hnone⟩ := h.actions_eq hup d k
  obtain ⟨hall', -, -⟩ := h'.actions_eq hup' d k
  refine hall' ?_
  by_cases ha : Allowed resolve policies d k
  · obtain ⟨r, hr, hrest⟩ := ha
    exact ⟨r, hsub r hr, hrest⟩
  by_cases hk : Asked resolve policies d k
  · rw [hdrop hk ha] at hacc
    simp at hacc
  · rw [hnone hk] at hacc
    cases hacc

def Policy.Reorders (p q : Policy) : Prop :=
  p.policyName = q.policyName ∧ p.action = q.action ∧ p.ingress.Perm q.ingress ∧
    p.egress.Perm q.egress

def Reordered (policies policies' : List Policy) : Prop :=
  ∃ mid, policies.Perm mid ∧ List.Forall₂ Policy.Reorders mid policies'

theorem Policy.Reorders.rules {p q : Policy} (h : p.Reorders q) (d : Direction) :
    (p.rules d).Perm (q.rules d) := by
  cases d with
  | ingress => exact h.2.2.1
  | egress => exact h.2.2.2

theorem Reordered.rulesOf (h : Reordered policies policies') (d : Direction) :
    (rulesOf policies d).Perm (rulesOf policies' d) := by
  obtain ⟨mid, hperm, hru⟩ := h
  refine (List.Perm.flatMap_right _ hperm).trans ?_
  clear hperm
  induction hru with
  | nil => exact .nil
  | cons hp _ ih => exact (hp.rules d).append ih

theorem Reordered.upper (h : Reordered policies policies') (hup : UpperActions case policies) :
    UpperActions case policies' := by
  intro q hq d r hr
  have hmem : r ∈ Firewall.rulesOf policies d :=
    (h.rulesOf d).mem_iff.2 (mem_flatMap.2 ⟨q, hq, hr⟩)
  obtain ⟨p, hp, hrp⟩ := mem_flatMap.1 hmem
  exact hup p hp d r hrp

section

variable {byName : GoMap String PeerIdentity} {parse : String → Option PolicySpec}
  {rows rows' : List PolicyRow} {now : Time}

def PolicyRow.Reorders (parse : String → Option PolicySpec) (row row' : PolicyRow) : Prop :=
  row.name = row'.name ∧ row.action = row'.action ∧ ∀ spec, parse row.spec = some spec →
    ∃ spec', parse row'.spec = some spec' ∧ spec.ingress.Perm spec'.ingress ∧
      spec.egress.Perm spec'.egress

def RowsReordered (parse : String → Option PolicySpec) (rows rows' : List PolicyRow) : Prop :=
  ∃ mid, rows.Perm mid ∧ List.Forall₂ (PolicyRow.Reorders parse) mid rows'

theorem PolicyRow.Reorders.wire {row row' : PolicyRow} (h : row.Reorders parse row')
    {p : Policy}
    (hp : (parse row.spec).map (buildPolicy case byName row.name row.action · now) = some p) :
    ∃ q, (parse row'.spec).map (buildPolicy case byName row'.name row'.action · now) = some q ∧
      p.Reorders q := by
  obtain ⟨hname, hac, hspec⟩ := h
  obtain ⟨spec, hpar, rfl⟩ := map_eq_some_iff.1 hp
  obtain ⟨spec', hpar', hing, hegr⟩ := hspec spec hpar
  refine ⟨_, map_eq_some_iff.2 ⟨spec', hpar', rfl⟩, hname, ?_, ?_, ?_⟩
  · rw [hac]
    rfl
  · rw [hac]
    exact hing.flatMap_right _
  · rw [hac]
    exact hegr.flatMap_right _

theorem RowsReordered.wire (h : RowsReordered parse rows rows')
    (hwire : buildWirePolicies case byName parse rows now = some policies) :
    ∃ policies', buildWirePolicies case byName parse rows' now = some policies' ∧
      Reordered policies policies' := by
  obtain ⟨mid, hperm, hrows⟩ := h
  obtain ⟨wires, hwir, hperm'⟩ := perm_comp_forall₂ hperm.symm (forall₂_of_mapM hwire)
  have hrest : ∃ policies', buildWirePolicies case byName parse rows' now = some policies' ∧
      List.Forall₂ Policy.Reorders wires policies' := by
    clear hperm hperm' hwire
    induction hrows generalizing wires with
    | nil =>
      cases hwir
      exact ⟨[], rfl, .nil⟩
    | cons hrow _ ih =>
      cases hwir with
      | cons hp hps =>
        obtain ⟨q, hq, hreo⟩ := hrow.wire hp
        obtain ⟨qs, hqs, hall⟩ := ih _ hps
        refine ⟨q :: qs, ?_, .cons hreo hall⟩
        unfold buildWirePolicies at hqs ⊢
        rw [mapM_cons, hq, hqs]
        rfl
  obtain ⟨policies', hwire', hall⟩ := hrest
  exact ⟨policies', hwire', wires, hperm'.symm, hall⟩

theorem rulesOf_subset_of_added {row : PolicyRow} (hperm : rows'.Perm (row :: rows))
    (hwire : buildWirePolicies case byName parse rows now = some policies)
    (hwire' : buildWirePolicies case byName parse rows' now = some policies') :
    ∀ r ∈ rulesOf policies d, r ∈ rulesOf policies' d := by
  intro r hr
  obtain ⟨p, hp, hrp⟩ := mem_flatMap.1 hr
  obtain ⟨row', hrow', hspec⟩ := (mem_buildWirePolicies hwire).1 hp
  have hmem : row' ∈ rows' := hperm.mem_iff.2 (mem_cons_of_mem _ hrow')
  exact mem_flatMap.2 ⟨p, (mem_buildWirePolicies hwire').2 ⟨row', hmem, hspec⟩, hrp⟩

/-- **Order independence and monotonicity.** Whatever the order of rows and rules, every key has the
same decision, in exactly one emitted rule if a rule is about it, and the rule that drops the rest
comes last. -/
theorem decisions_order_free
    (hwire : buildWirePolicies case byName parse rows now = some policies)
    (hfw : Evaluates case resolve platform policies fw) :
    (∀ rows', RowsReordered parse rows rows' → ∃ policies',
      buildWirePolicies case byName parse rows' now = some policies' ∧
        Reordered policies policies') ∧
    (∀ policies' fw', Reordered policies policies' →
      Evaluates case resolve platform policies' fw' →
        ∀ d k, fw'.actions d k = fw.actions d k) ∧
    (∀ d k, (Asked resolve policies d k → ∃ a, fw.actions d k = [a]) ∧
      (¬ Asked resolve policies d k → fw.actions d k = [])) ∧
    (∀ d, ∃ rules, fw.rules d = rules ++ [⟨d.chainName, [], "", 0, "DROP"⟩] ∧
      ∀ t ∈ rules, ∃ k, t.For k) ∧
    ∀ row rows' policies' fw', rows'.Perm (row :: rows) →
      buildWirePolicies case byName parse rows' now = some policies' →
      Evaluates case resolve platform policies' fw' →
        ∀ d k, fw.actions d k = ["ACCEPT"] → fw'.actions d k = ["ACCEPT"] := by
  have hup := buildWirePolicies_upper hwire
  refine ⟨fun rows' hrows => hrows.wire hwire, ?_, fun d k => ?_, fun d => ?_, ?_⟩
  · intro policies' fw' hreo hfw' d k
    exact hfw.actions_congr hup (fun r => (hreo.rulesOf d).symm.mem_iff) hfw'
      (hreo.upper hup) k
  · obtain ⟨hall, hdrop, hnone⟩ := hfw.actions_eq hup d k
    refine ⟨fun hask => ?_, hnone⟩
    by_cases hallo : Allowed resolve policies d k
    · exact ⟨_, hall hallo⟩
    · exact ⟨_, hdrop hask hallo⟩
  · obtain ⟨l, -, hru⟩ := hfw.rules_eq d
    refine ⟨_, hru, fun t ht => ?_⟩
    obtain ⟨e, -, rfl⟩ := List.mem_map.1 ht
    exact ⟨e.1, trafficRule_for_iff.2 rfl⟩
  intro row rows' policies' fw' hperm hwire' hfw' d k
  exact hfw.accepts_mono hup (rulesOf_subset_of_added hperm hwire hwire') hfw'
    (buildWirePolicies_upper hwire')

end

theorem web_block_order_free :
    (ingressOnly [(⟨"10.0.0.0/24", 80, "TCP"⟩, "DENY"),
        (⟨"10.0.0.5/32", 80, "TCP"⟩, "ALLOW")]).actions .ingress ⟨"10.0.0.5/32", 80, "TCP"⟩ =
      (ingressOnly [(⟨"10.0.0.5/32", 80, "TCP"⟩, "ALLOW"),
        (⟨"10.0.0.0/24", 80, "TCP"⟩, "DENY")]).actions .ingress ⟨"10.0.0.5/32", 80, "TCP"⟩ := by
  have hwire : buildWirePolicies tableCase .empty tableSpecs
      [⟨"web", "Allow", hostSpec⟩, ⟨"block", "Deny", subnetSpec⟩] 0 =
        some [allowHost, denySubnet] := by decide +kernel
  have hreo : Reordered [allowHost, denySubnet] [denySubnet, allowHost] :=
    ⟨_, .swap .., forall₂_same.2 fun p _ => ⟨rfl, rfl, .refl _, .refl _⟩⟩
  refine (decisions_order_free hwire (evaluates_ingressOnly ?_ ?_)).2.1 _ _
    hreo (evaluates_ingressOnly ?_ ?_) .ingress _
  all_goals
    unfold GoMap.Ranges
    decide +kernel

end LatticeMesh.Firewall
