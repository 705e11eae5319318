import LatticeMesh.Firewall.Iptables

/-! # What the chains accept -/

namespace LatticeMesh.Firewall

open List

variable {α π : Type} {case : Casing} {nf : Netfilter α π} {resolve : Rule → List String}
  {platform : String} {policies : List Policy} {d : Direction} {pkt : Packet α π}

section

variable (case : Casing) (nf : Netfilter α π) (resolve : Rule → List String)
  (policies : List Policy) (d : Direction) (pkt : Packet α π)

def WrittenMatch (r : Rule) : Prop :=
  ∃ q ∈ resolve r, nf.address q pkt.peer = true ∧
    (r.protocol ≠ "" → nf.protocol (case.lower r.protocol) pkt.protocol = true) ∧
    (r.port ≠ 0 → pkt.dport = r.port)

def InstalledMatch (r : Rule) (q : String) : Prop :=
  nf.address q pkt.peer = true ∧ nf.service pkt (installedService case r.protocol r.port) = true

def AllTaken : Prop :=
  ∀ d', (d' = .ingress ∨ d' = d) → ∀ r ∈ rulesOf policies d', ∀ q ∈ resolve r,
    nf.takes q (installedService case r.protocol r.port) = true

def DeniesOverruled : Prop :=
  ∀ r ∈ rulesOf policies d, r.action ≠ "ALLOW" → ∀ q ∈ resolve r, InstalledMatch case nf pkt r q →
    ∃ r' ∈ rulesOf policies d, r'.action = "ALLOW" ∧ q ∈ resolve r' ∧ r'.keyFor q = r.keyFor q

end

variable {r : Rule}

theorem WrittenMatch.installed (h : WrittenMatch case nf resolve pkt r) :
    ∃ q ∈ resolve r, InstalledMatch case nf pkt r q := by
  obtain ⟨q, hq, haddr, hpro, hport⟩ := h
  refine ⟨q, hq, haddr, ?_⟩
  unfold installedService
  split
  · next hboth => simp [Netfilter.service, hpro hboth.1, hport hboth.2]
  · rfl

def chainRule (case : Casing) (k : DecisionKey) (action : String) : ChainRule :=
  ⟨k.peer, installedService case k.protocol k.port, toIPTAction case action⟩

theorem addRule_trafficRule (k : DecisionKey) (action : String) :
    addRule case k.peer (trafficRule case d k action) = chainRule case k action := by
  have hne : toIPTAction case action ≠ "" := by
    unfold toIPTAction
    split <;> decide
  unfold addRule trafficRule chainRule
  dsimp only
  rw [if_neg hne]

theorem chainRules_emit (l : List (DecisionKey × String)) :
    chainRules case (emit case d l) = l.map fun e => chainRule case e.1 e.2 := by
  have htail : chainRules case [⟨d.chainName, [], "", 0, "DROP"⟩] = [] := rfl
  have hrule : ∀ e : DecisionKey × String,
      (trafficRule case d e.1 e.2).peers.map
          (fun ip => addRule case ip (trafficRule case d e.1 e.2)) =
        [chainRule case e.1 e.2] := by
    intro e
    exact congrArg (fun r => [r]) (addRule_trafficRule e.1 e.2)
  unfold chainRules emit at *
  rw [flatMap_append, htail, append_nil, flatMap_map, map_eq_flatMap]
  simp only [hrule]

variable {fw : FirewallRule}

theorem Evaluates.order (h : Evaluates case resolve platform policies fw) (d : Direction) :
    ∃ l, (decisions resolve policies d).Ranges l ∧
      chainRules case (fw.rules d) = l.map fun e => chainRule case e.1 e.2 := by
  obtain ⟨li, le, hli, hle, rfl⟩ := h
  cases d with
  | ingress => exact ⟨li, hli, chainRules_emit li⟩
  | egress => exact ⟨le, hle, chainRules_emit le⟩

theorem exists_evaluates_first (case : Casing) (platform : String) {k : DecisionKey} {a : String}
    (h : (decisions resolve policies d).get k = some a) :
    ∃ fw, Evaluates case resolve platform policies fw ∧
      ∃ rest, chainRules case (fw.rules d) = chainRule case k a :: rest := by
  obtain ⟨l, hl⟩ := GoMap.exists_ranges_cons h
  cases d with
  | ingress =>
    refine ⟨_, ⟨_, (decisions resolve policies .egress).toList, hl, List.Perm.refl _, rfl⟩, ?_⟩
    exact ⟨_, (chainRules_emit _).trans map_cons⟩
  | egress =>
    refine ⟨_, ⟨(decisions resolve policies .ingress).toList, _, List.Perm.refl _, hl, rfl⟩, ?_⟩
    exact ⟨_, (chainRules_emit _).trans map_cons⟩

theorem target_allow (hup : UpperActions case policies) (hr : r ∈ rulesOf policies d) :
    toIPTAction case r.action = if r.action = "ALLOW" then "ACCEPT" else "DROP" := by
  obtain ⟨p, hp, hrp⟩ := mem_flatMap.1 hr
  obtain ⟨s, hs⟩ := hup p hp d r hrp
  have hfold := case.equalFold_allow s
  rw [← hs] at hfold
  unfold toIPTAction
  by_cases h : r.action = "ALLOW"
  · rw [if_pos (hfold.2 h), if_pos h]
  · rw [if_neg (fun ht => h (hfold.1 ht)), if_neg h]

theorem decision_target (hup : UpperActions case policies) {k : DecisionKey} {a : String}
    (h : (decisions resolve policies d).get k = some a) :
    toIPTAction case a = if a = "ALLOW" then "ACCEPT" else "DROP" := by
  obtain ⟨r, hr, _, _, rfl⟩ := rule_of_decision h
  exact target_allow hup hr

theorem taken_of_allTaken (ht : AllTaken case nf resolve policies d) {d' : Direction}
    (hd : d' = .ingress ∨ d' = d) (hfw : Evaluates case resolve platform policies fw) :
    ∀ c ∈ chainRules case (fw.rules d'), nf.taken c = true := by
  intro c hc
  obtain ⟨l, hl, hru⟩ := hfw.order d'
  rw [hru] at hc
  obtain ⟨⟨k, a⟩, hka, rfl⟩ := List.mem_map.1 hc
  obtain ⟨r, hr, hq, hk, _⟩ := rule_of_decision (hl.mem_iff.1 hka)
  have htak := ht d' hd r hr k.peer hq
  rw [hk]
  exact htak

theorem provision_of_allTaken (ht : AllTaken case nf resolve policies d)
    (hfw : Evaluates case resolve platform policies fw) :
    ∃ tail, provision nf case fw d =
      .established :: ((chainRules case (fw.rules d)).map Entry.rule ++ tail) := by
  have hd := taken_of_allTaken ht (.inr rfl) hfw
  have hrea : d = .ingress ∨ (chainRules case fw.ingress).all nf.taken = true :=
    .inr (List.all_eq_true.2 (taken_of_allTaken ht (.inl rfl) hfw))
  unfold provision
  dsimp only
  rw [if_pos hrea, takeWhile_eq_self_iff.2 hd]
  exact ⟨_, rfl⟩

theorem accepted_of_overruled (hup : UpperActions case policies)
    (ht : AllTaken case nf resolve policies d)
    (hden : DeniesOverruled case nf resolve policies d pkt) (hest : pkt.established = false)
    (hr : r ∈ rulesOf policies d) (hm : WrittenMatch case nf resolve pkt r)
    (hfw : Evaluates case resolve platform policies fw) :
    verdict nf pkt (provision nf case fw d) = some "ACCEPT" := by
  obtain ⟨l, hl, hru⟩ := hfw.order d
  obtain ⟨tail, hcha⟩ := provision_of_allTaken ht hfw
  rw [hcha, verdict_cons_of_not (by exact hest), hru]
  refine verdict_append (verdict_of_forall ?_ ?_)
  · -- the rule is installed no narrower than written
    obtain ⟨q, hq, hmt⟩ := hm.installed
    obtain ⟨a, ha, _⟩ := decision_of_rule hr hq
    refine ⟨.rule (chainRule case (r.keyFor q) a), ?_, ?_⟩
    · exact List.mem_map.2 ⟨_, List.mem_map.2 ⟨(_, a), hl.mem_iff.2 ha, rfl⟩, rfl⟩
    · exact Bool.and_eq_true_iff.2 hmt
  intro e he hmt
  obtain ⟨c, hc, rfl⟩ := List.mem_map.1 he
  obtain ⟨⟨k, a⟩, hka, rfl⟩ := List.mem_map.1 hc
  have hget := hl.mem_iff.1 hka
  obtain ⟨r₁, hr₁, hq₁, hk, hact⟩ := rule_of_decision hget
  have hallow₁ : a = "ALLOW" := by
    by_contra hne
    have hinst : InstalledMatch case nf pkt r₁ k.peer := by
      have := Bool.and_eq_true_iff.1 hmt
      rw [hk] at this
      exact this
    obtain ⟨r₂, hr₂, hallow₂, hq₂, hkey⟩ := hden r₁ hr₁ (hact ▸ hne) k.peer hq₁ hinst
    obtain ⟨b, hb, hba⟩ := decision_of_rule hr₂ hq₂
    rw [hkey, ← hk, hget] at hb
    exact hne ((Option.some.inj hb).trans (hba hallow₂))
  have htgt := decision_target hup hget
  rw [if_pos hallow₁] at htgt
  exact htgt

theorem verdict_ne_accept (hest : pkt.established = false) {rules : List ChainRule}
    (hru : rules = [] ∨ ∃ c rest, rules = c :: rest ∧ c.target = "DROP" ∧
      (Entry.rule c).matches nf pkt = true) (complete : Prop) [Decidable complete] :
    verdict nf pkt (.established :: (rules.map .rule ++ if complete then [.drop] else [])) ≠
      some "ACCEPT" := by
  rw [verdict_cons_of_not (by exact hest)]
  rcases hru with rfl | ⟨c, rest, rfl, hdrop, hmt⟩
  · split <;> simp [verdict, Entry.matches, Entry.target]
  · rw [map_cons, cons_append, verdict_cons_of_matches hmt]
    simp [Entry.target, hdrop]

theorem exists_refused_of_not_allTaken (hest : pkt.established = false)
    (ht : ¬ AllTaken case nf resolve policies d) :
    ∃ fw, Evaluates case resolve platform policies fw ∧
      verdict nf pkt (provision nf case fw d) ≠ some "ACCEPT" := by
  unfold AllTaken at ht
  push Not at ht
  obtain ⟨d', hd', r, hr, q, hq, hno⟩ := ht
  obtain ⟨a, ha, _⟩ := decision_of_rule hr hq
  obtain ⟨fw, hfw, rest, hru⟩ := exists_evaluates_first case platform ha
  have href : nf.taken (chainRule case (r.keyFor q) a) = false :=
    Bool.eq_false_iff.2 hno
  refine ⟨fw, hfw, ?_⟩
  unfold provision
  dsimp only
  refine verdict_ne_accept hest (.inl ?_) _
  split
  · next hrea =>
    rcases hd' with rfl | rfl
    · -- an ingress rule is refused: the egress rules are not reached
      rcases hrea with rfl | hall
      · rw [hru, takeWhile_cons_of_neg (by simp [href])]
      have hbad := List.all_eq_true.1 hall (chainRule case (r.keyFor q) a)
        (by change _ ∈ chainRules case (fw.rules .ingress); rw [hru]; exact mem_cons_self)
      rw [href] at hbad
      cases hbad
    · rw [hru, takeWhile_cons_of_neg (by simp [href])]
  · rfl

theorem exists_refused_of_not_overruled (hup : UpperActions case policies)
    (hest : pkt.established = false) (hden : ¬ DeniesOverruled case nf resolve policies d pkt) :
    ∃ fw, Evaluates case resolve platform policies fw ∧
      verdict nf pkt (provision nf case fw d) ≠ some "ACCEPT" := by
  unfold DeniesOverruled at hden
  push Not at hden
  obtain ⟨r, hr, hdeny, q, hq, hmt, hnone⟩ := hden
  obtain ⟨a, ha, _⟩ := decision_of_rule hr hq
  have hne : a ≠ "ALLOW" := by
    intro hall
    obtain ⟨r', hr', hq', hk, hact⟩ := rule_of_decision ha
    exact hnone r' hr' (hact.trans hall) hq' hk.symm
  have htgt := decision_target hup ha
  rw [if_neg hne] at htgt
  obtain ⟨fw, hfw, rest, hru⟩ := exists_evaluates_first case platform ha
  refine ⟨fw, hfw, ?_⟩
  unfold provision
  dsimp only
  refine verdict_ne_accept hest ?_ _
  split
  · rw [hru]
    by_cases htak : nf.taken (chainRule case (r.keyFor q) a) = true
    · rw [takeWhile_cons_of_pos htak]
      exact .inr ⟨_, _, rfl, htgt, Bool.and_eq_true_iff.2 hmt⟩
    · exact .inl (takeWhile_cons_of_neg htak)
  · exact .inl rfl

theorem exists_accepting_rule (hest : pkt.established = false)
    (h : verdict nf pkt (provision nf case fw d) = some "ACCEPT") :
    ∃ c ∈ chainRules case (fw.rules d), (Entry.rule c).matches nf pkt = true ∧
      c.target = "ACCEPT" := by
  unfold provision at h
  rw [verdict_cons_of_not (by exact hest)] at h
  obtain ⟨e, he, hmt, htgt⟩ := exists_of_verdict h
  rcases mem_append.1 he with hrule | htail
  · obtain ⟨c, hc, rfl⟩ := List.mem_map.1 hrule
    split at hc
    · exact ⟨c, (List.takeWhile_prefix _).subset hc, hmt, htgt⟩
    · cases hc
  split at htail
  · rw [mem_singleton.1 htail] at htgt
    exact absurd htgt (by decide)
  · cases htail

/-- **When ALLOW has priority** for every order of the maps. -/
theorem allow_priority_iff {byName : GoMap String PeerIdentity} {parse : String → Option PolicySpec}
    {rows : List PolicyRow} {now : Time}
    (hrows : buildWirePolicies case byName parse rows now = some policies) :
    ((∃ r ∈ rulesOf policies d, r.action = "ALLOW" ∧ WrittenMatch case nf resolve pkt r) →
      ∀ fw, Evaluates case resolve platform policies fw →
        verdict nf pkt (provision nf case fw d) = some "ACCEPT") ↔
    ((∀ r ∈ rulesOf policies d, r.action = "ALLOW" → ¬ WrittenMatch case nf resolve pkt r) ∨
      pkt.established = true ∨
      AllTaken case nf resolve policies d ∧ DeniesOverruled case nf resolve policies d pkt) := by
  have hup := buildWirePolicies_upper hrows
  constructor
  · intro hprio
    by_contra hcond
    push Not at hcond
    obtain ⟨hmt, hest, hbad⟩ := hcond
    have hest : pkt.established = false := by simpa using hest
    have hfail : ∃ fw, Evaluates case resolve platform policies fw ∧
        verdict nf pkt (provision nf case fw d) ≠ some "ACCEPT" := by
      by_cases ht : AllTaken case nf resolve policies d
      · exact exists_refused_of_not_overruled hup hest (hbad ht)
      · exact exists_refused_of_not_allTaken hest ht
    obtain ⟨fw, hfw, hne⟩ := hfail
    exact hne (hprio hmt fw hfw)
  intro hcond hmt fw hfw
  obtain ⟨r, hr, hall, hm⟩ := hmt
  rcases hcond with hnone | hest | ⟨ht, hden⟩
  · exact absurd hm (hnone r hr hall)
  · exact verdict_cons_of_matches hest
  cases hest : pkt.established with
  | true => exact verdict_cons_of_matches hest
  | false => exact accepted_of_overruled hup ht hden hest hr hm hfw

def tableCase : Casing where
  upper s := if s = "Allow" then "ALLOW" else if s = "Deny" then "DENY" else s
  lower s := if s = "TCP" then "tcp" else s
  equalFold a b := a == b
  equalFold_allow s := by simp

def hostSpec : String :=
  "\x7b\"ingress\":[\x7b\"from\":[\x7b\"ipBlock\":\x7b\"cidr\":\"10.0.0.5/32\"\x7d\x7d]," ++
  "\"ports\":[\x7b\"port\":80,\"protocol\":\"TCP\"\x7d]\x7d]\x7d"

def subnetSpec : String :=
  "\x7b\"ingress\":[\x7b\"from\":[\x7b\"ipBlock\":\x7b\"cidr\":\"10.0.0.0/24\"\x7d\x7d]," ++
  "\"ports\":[\x7b\"port\":80,\"protocol\":\"TCP\"\x7d]\x7d]\x7d"

def tcpSpec : String :=
  "\x7b\"ingress\":[\x7b\"from\":[\x7b\"ipBlock\":\x7b\"cidr\":\"10.0.0.5/32\"\x7d\x7d]," ++
  "\"ports\":[\x7b\"protocol\":\"TCP\"\x7d]\x7d]\x7d"

def tableSpecs (text : String) : Option PolicySpec :=
  if text = hostSpec then some ⟨[⟨[⟨some "10.0.0.5/32", ""⟩], [⟨80, "TCP"⟩]⟩], []⟩
  else if text = subnetSpec then some ⟨[⟨[⟨some "10.0.0.0/24", ""⟩], [⟨80, "TCP"⟩]⟩], []⟩
  else if text = tcpSpec then some ⟨[⟨[⟨some "10.0.0.5/32", ""⟩], [⟨0, "TCP"⟩]⟩], []⟩
  else none

def tableFilter : Netfilter (List Nat) String where
  address cidr a := if cidr = "10.0.0.5/32" then a == [10, 0, 0, 5]
    else cidr == "10.0.0.0/24" && a.take 3 == [10, 0, 0]
  protocol operand p := operand == p
  takes _ _ := true

def ruleFor (cidr action : String) (port : Int) : Rule := ⟨[], [cidr], [], "TCP", port, action⟩

def allowHost : Policy := ⟨"web", "ALLOW", [ruleFor "10.0.0.5/32" "ALLOW" 80], []⟩

def denySubnet : Policy := ⟨"block", "DENY", [ruleFor "10.0.0.0/24" "DENY" 80], []⟩

def allowTcp : Policy := ⟨"tcp", "ALLOW", [ruleFor "10.0.0.5/32" "ALLOW" 0], []⟩

def webPacket : Packet (List Nat) String := ⟨[10, 0, 0, 5], "tcp", 80, false⟩

def dnsPacket : Packet (List Nat) String := ⟨[10, 0, 0, 5], "udp", 53, false⟩

def nobody : Rule → List String := resolveRulePeers none [] "me"

def ingressOnly (l : List (DecisionKey × String)) : FirewallRule :=
  ⟨"linux", emit tableCase .ingress l, emit tableCase .egress []⟩

theorem evaluates_ingressOnly {policies : List Policy} {l : List (DecisionKey × String)}
    (hin : (decisions nobody policies .ingress).Ranges l)
    (hout : (decisions nobody policies .egress).Ranges []) :
    Evaluates tableCase nobody "linux" policies (ingressOnly l) :=
  ⟨l, [], hin, hout, rfl⟩

theorem evaluates_allowHost : Evaluates tableCase nobody "linux" [allowHost]
    (ingressOnly [(⟨"10.0.0.5/32", 80, "TCP"⟩, "ALLOW")]) := by
  refine evaluates_ingressOnly ?_ ?_
  · unfold GoMap.Ranges
    decide
  · unfold GoMap.Ranges
    decide

theorem overlapping_deny_drops :
    buildWirePolicies tableCase .empty tableSpecs
        [⟨"web", "Allow", hostSpec⟩, ⟨"block", "Deny", subnetSpec⟩] 0 =
      some [allowHost, denySubnet] ∧
    (∃ r ∈ rulesOf [allowHost, denySubnet] .ingress, r.action = "ALLOW" ∧
      WrittenMatch tableCase tableFilter nobody webPacket r) ∧
    ∃ fw, Evaluates tableCase nobody "linux" [allowHost, denySubnet] fw ∧
      verdict tableFilter webPacket (provision tableFilter tableCase fw .ingress) =
        some "DROP" := by
  refine ⟨by decide, ?_, ?_⟩
  · refine ⟨ruleFor "10.0.0.5/32" "ALLOW" 80, by decide, rfl, "10.0.0.5/32",
      by decide, by decide, ?_, ?_⟩
    · intro _
      decide
    · intro _
      rfl
  refine ⟨ingressOnly
      [(⟨"10.0.0.0/24", 80, "TCP"⟩, "DENY"), (⟨"10.0.0.5/32", 80, "TCP"⟩, "ALLOW")],
    evaluates_ingressOnly ?_ ?_, by decide⟩
  · unfold GoMap.Ranges
    decide
  · unfold GoMap.Ranges
    decide

theorem allowed_host_accepted :
    verdict tableFilter webPacket (provision tableFilter tableCase
      (ingressOnly [(⟨"10.0.0.5/32", 80, "TCP"⟩, "ALLOW")]) .ingress) = some "ACCEPT" := by
  have hrows : buildWirePolicies tableCase .empty tableSpecs [⟨"web", "Allow", hostSpec⟩] 0 =
      some [allowHost] := by decide
  have hru : rulesOf [allowHost] .ingress = [ruleFor "10.0.0.5/32" "ALLOW" 80] := rfl
  have hden : DeniesOverruled tableCase tableFilter nobody [allowHost] .ingress webPacket := by
    intro r hr hne
    rw [hru, mem_singleton] at hr
    rw [hr] at hne
    exact absurd rfl hne
  refine (allow_priority_iff hrows).2 (.inr (.inr ⟨fun _ _ _ _ _ _ => rfl, hden⟩)) ?_ _
    evaluates_allowHost
  refine ⟨ruleFor "10.0.0.5/32" "ALLOW" 80, by decide, rfl, "10.0.0.5/32",
    by decide, by decide, ?_, ?_⟩
  · intro _
    decide
  · intro _
    rfl

end LatticeMesh.Firewall
