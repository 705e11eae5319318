import LatticeMesh.Lib.Orders
import LatticeMesh.Firewall.Rules

/-! # The policy evaluator -/

namespace LatticeMesh.Firewall

open Text List

structure NetPeer where
  name : String
  address : Option String

def cleanIP (ip : String) : String :=
  if '/' ∈ ip.toList then (split '/' ip).headD "" else ip

def peerIPByName (peers : List NetPeer) : GoMap String String :=
  peers.foldl (fun m p => match p.address with
    | some ip => m.set p.name (cleanIP ip)
    | none => m) .empty

def resolveRulePeers (resolver : Option (List String → List String)) (peers : List NetPeer)
    (currentPeer : String) (rule : Rule) : List String :=
  let named := rule.peerNames.filterMap fun name =>
    if name = currentPeer then none
    else match (peerIPByName peers).get name with
      | some ip => if ip = "" then none else some ip
      | none => none
  let blocks := rule.cidrs.filter fun cidr => trimSpace cidr ≠ ""
  let identities := match resolver with
    | some resolve => if rule.identityRefs = [] then [] else resolve rule.identityRefs
    | none => []
  named ++ blocks ++ identities

structure DecisionKey where
  peer : String
  port : Int
  protocol : String
  deriving DecidableEq

structure TrafficRule where
  chainName : String
  peers : List String
  protocol : String
  port : Int
  action : String

structure FirewallRule where
  platform : String
  ingress : List TrafficRule
  egress : List TrafficRule

def FirewallRule.rules (fw : FirewallRule) : Direction → List TrafficRule
  | .ingress => fw.ingress
  | .egress => fw.egress

def Direction.chainName : Direction → String
  | .ingress => "LATTICE-INGRESS"
  | .egress => "LATTICE-EGRESS"

def record (m : GoMap DecisionKey String) (k : DecisionKey) (action : String) :
    GoMap DecisionKey String :=
  if m.get k = some "ALLOW" then m else m.set k action

section

variable (case : Casing) (resolve : Rule → List String)

def applyDecision (m : GoMap DecisionKey String) (rule : Rule) : GoMap DecisionKey String :=
  (resolve rule).foldl (fun m peer => record m ⟨peer, rule.port, rule.protocol⟩ rule.action) m

def decisions (policies : List Policy) (d : Direction) : GoMap DecisionKey String :=
  (policies.flatMap fun p => p.rules d).foldl (applyDecision resolve) .empty

def toIPTAction (action : String) : String :=
  if case.equalFold action "ALLOW" then "ACCEPT" else "DROP"

def trafficRule (d : Direction) (k : DecisionKey) (action : String) : TrafficRule :=
  ⟨d.chainName, [k.peer], k.protocol, k.port, toIPTAction case action⟩

def emit (d : Direction) (l : List (DecisionKey × String)) : List TrafficRule :=
  (l.map fun e => trafficRule case d e.1 e.2) ++ [⟨d.chainName, [], "", 0, "DROP"⟩]

def Evaluates (platform : String) (policies : List Policy) (fw : FirewallRule) : Prop :=
  ∃ li le, (decisions resolve policies .ingress).Ranges li ∧
    (decisions resolve policies .egress).Ranges le ∧
    fw = ⟨platform, emit case .ingress li, emit case .egress le⟩

end

theorem get_peerIPByName {peers : List NetPeer} (h : (peers.map NetPeer.name).Nodup)
    {name ip : String} : (peerIPByName peers).get name = some ip ↔
      ∃ p ∈ peers, p.name = name ∧ ∃ address ∈ p.address, cleanIP address = ip := by
  induction peers using List.reverseRecOn with
  | nil => simp [peerIPByName]
  | append_singleton peers last ih =>
    rw [map_append, nodup_append] at h
    obtain ⟨hps, -, hlast⟩ := h
    have hstep : peerIPByName (peers ++ [last]) = match last.address with
        | some ip => (peerIPByName peers).set last.name (cleanIP ip)
        | none => peerIPByName peers := by
      simp only [peerIPByName, foldl_append, foldl_cons, foldl_nil]
    have hbef : name = last.name → ∀ p ∈ peers, p.name ≠ name := by
      intro hname p hp
      exact hname ▸ hlast p.name (List.mem_map_of_mem hp) last.name (by simp)
    rw [hstep]
    cases hadr : last.address with
    | none => simp [ih hps, hadr, or_and_right, exists_or]
    | some address =>
      simp only [GoMap.get_set, mem_append, mem_singleton, or_and_right, exists_or,
        exists_eq_left, hadr, Option.mem_def, Option.some.injEq, exists_eq_left']
      split
      · next hname =>
        constructor
        · intro hip
          exact .inr ⟨hname.symm, Option.some.inj hip⟩
        rintro (⟨p, hp, hpna, -⟩ | ⟨-, hip⟩)
        · exact absurd hpna (hbef hname p hp)
        · rw [hip]
      next hname =>
      rw [ih hps]
      constructor
      · exact .inl
      rintro (hp | ⟨hlas, -⟩)
      · exact hp
      · exact absurd hlas.symm hname

theorem record_get (m : GoMap DecisionKey String) (k j : DecisionKey) (action : String) :
    (record m k action).get j =
      if j = k ∧ m.get k ≠ some "ALLOW" then some action else m.get j := by
  unfold record
  by_cases h : m.get k = some "ALLOW"
  · simp [h]
  · rw [if_neg h, GoMap.get_set]
    simp [h]

def entries (resolve : Rule → List String) (rules : List Rule) : List (DecisionKey × String) :=
  rules.flatMap fun r => (resolve r).map fun peer => (⟨peer, r.port, r.protocol⟩, r.action)

theorem decisions_eq (resolve : Rule → List String) (policies : List Policy) (d : Direction) :
    decisions resolve policies d =
      (entries resolve (policies.flatMap fun p => p.rules d)).foldl
        (fun m e => record m e.1 e.2) .empty := by
  unfold decisions entries
  generalize (policies.flatMap fun p => p.rules d) = rules
  rw [foldl_flatMap]
  simp only [foldl_map]
  rfl

variable {a : String} {k : DecisionKey} {m : GoMap DecisionKey String}

theorem get_foldl_record {es : List (DecisionKey × String)}
    (h : (es.foldl (fun m e => record m e.1 e.2) m).get k = some a) :
    m.get k = some a ∨ (k, a) ∈ es := by
  induction es generalizing m with
  | nil => exact .inl h
  | cons e rest ih =>
    rcases ih h with hrec | hmem
    · rw [record_get] at hrec
      split at hrec
      · next hk =>
        obtain ⟨rfl, -⟩ := hk
        cases hrec
        exact .inr mem_cons_self
      · exact .inl hrec
    · exact .inr (mem_cons_of_mem _ hmem)

theorem foldl_record_keeps (es : List (DecisionKey × String)) (h : m.get k = some a) :
    ∃ b, (es.foldl (fun m e => record m e.1 e.2) m).get k = some b ∧
      (a = "ALLOW" → b = "ALLOW") := by
  induction es generalizing m a with
  | nil => exact ⟨a, h, id⟩
  | cons e rest ih =>
    by_cases hk : k = e.1 ∧ m.get e.1 ≠ some "ALLOW"
    · have hrec : (record m e.1 e.2).get k = some e.2 := by rw [record_get, if_pos hk]
      obtain ⟨b, hb, _⟩ := ih hrec
      refine ⟨b, hb, ?_⟩
      intro ha
      exact absurd (hk.1 ▸ ha ▸ h) hk.2
    · have hrec : (record m e.1 e.2).get k = some a := by rw [record_get, if_neg hk, h]
      exact ih hrec

theorem mem_foldl_record {es : List (DecisionKey × String)} (h : (k, a) ∈ es) :
    ∃ b, (es.foldl (fun m e => record m e.1 e.2) m).get k = some b ∧
      (a = "ALLOW" → b = "ALLOW") := by
  induction es generalizing m with
  | nil => cases h
  | cons e rest ih =>
    rcases mem_cons.1 h with rfl | h
    · -- the entry is recorded now, or an ALLOW was there before it
      by_cases hall : m.get k = some "ALLOW"
      · have hrec : (record m k a).get k = some "ALLOW" := by
          rw [record_get, if_neg (fun hk => hk.2 hall), hall]
        obtain ⟨b, hb, hba⟩ := foldl_record_keeps rest hrec
        exact ⟨b, hb, fun _ => hba rfl⟩
      have hrec : (record m k a).get k = some a := by
        rw [record_get, if_pos ⟨rfl, hall⟩]
      exact foldl_record_keeps rest hrec
    · exact ih h

variable {resolve : Rule → List String} {policies : List Policy} {d : Direction}

def rulesOf (policies : List Policy) (d : Direction) : List Rule :=
  policies.flatMap fun p => p.rules d

def Rule.keyFor (r : Rule) (peer : String) : DecisionKey := ⟨peer, r.port, r.protocol⟩

theorem rule_of_decision (h : (decisions resolve policies d).get k = some a) :
    ∃ r ∈ rulesOf policies d, k.peer ∈ resolve r ∧ k = r.keyFor k.peer ∧ r.action = a := by
  rw [decisions_eq] at h
  rcases get_foldl_record h with hemp | hmem
  · rw [GoMap.get_empty] at hemp
    cases hemp
  obtain ⟨r, hr, hk⟩ := mem_flatMap.1 hmem
  obtain ⟨peer, hpeer, heq⟩ := List.mem_map.1 hk
  cases heq
  exact ⟨r, hr, hpeer, rfl, rfl⟩

theorem decision_of_rule {r : Rule} (hr : r ∈ rulesOf policies d) {peer : String}
    (hpeer : peer ∈ resolve r) :
    ∃ a, (decisions resolve policies d).get (r.keyFor peer) = some a ∧
      (r.action = "ALLOW" → a = "ALLOW") := by
  rw [decisions_eq]
  exact mem_foldl_record (mem_flatMap.2 ⟨r, hr, List.mem_map.2 ⟨peer, hpeer, rfl⟩⟩)

theorem decided_iff : (∃ a, (decisions resolve policies d).get k = some a) ↔
    ∃ r ∈ rulesOf policies d, k.peer ∈ resolve r ∧ k = r.keyFor k.peer := by
  constructor
  · rintro ⟨a, h⟩
    obtain ⟨r, hr, hpeer, hk, -⟩ := rule_of_decision h
    exact ⟨r, hr, hpeer, hk⟩
  rintro ⟨r, hr, hpeer, hk⟩
  obtain ⟨a, h, -⟩ := decision_of_rule hr hpeer
  exact ⟨a, hk ▸ h⟩

theorem key_of_trafficRule {case : Casing} {k' : DecisionKey} {a' : String}
    (h : trafficRule case d k a = trafficRule case d k' a') : k = k' := by
  obtain ⟨q, port, protocol⟩ := k
  obtain ⟨q', port', protocol'⟩ := k'
  simp only [trafficRule, TrafficRule.mk.injEq, List.cons.injEq] at h
  obtain ⟨-, ⟨rfl, -⟩, rfl, rfl, -⟩ := h
  rfl

theorem emit_stable_iff (case : Casing) (d : Direction) :
    (∀ l l', m.Ranges l → m.Ranges l' → emit case d l = emit case d l') ↔
      ∀ k k' a a', m.get k = some a → m.get k' = some a' → k = k' := by
  constructor
  · intro hstb k k' a a' hk hk'
    by_contra hne
    have hent : (k, a) ≠ (k', a') := fun h => hne (congrArg Prod.fst h)
    obtain ⟨rest, hrest⟩ := exists_perm_cons_cons (GoMap.mem_toList.2 hk) (GoMap.mem_toList.2 hk')
      hent
    have hemit := hstb _ _ hrest.symm ((List.Perm.swap (k, a) (k', a') rest).trans hrest.symm)
    exact hne (key_of_trafficRule (List.cons.inj hemit).1)
  intro hone l l' hl hl'
  have hall : ∀ e ∈ m.toList, ∀ e' ∈ m.toList, e = e' := by
    rintro ⟨k, a⟩ he ⟨k', a'⟩ he'
    have hk := GoMap.mem_toList.1 he
    have hk' := GoMap.mem_toList.1 he'
    obtain rfl := hone k k' a a' hk hk'
    rw [Option.some.inj (hk.symm.trans hk')]
  have hsame := (forall_perm_eq_iff m.nodup_toList).2 hall
  rw [hsame l hl, hsame l' hl']

theorem evaluates_unique_iff {case : Casing} {resolve : Rule → List String} {platform : String}
    {policies : List Policy} :
    (∀ fw fw', Evaluates case resolve platform policies fw →
      Evaluates case resolve platform policies fw' → fw = fw') ↔
    ∀ d k k', (∃ a, (decisions resolve policies d).get k = some a) →
      (∃ a, (decisions resolve policies d).get k' = some a) → k = k' := by
  constructor
  · rintro h d k k' ⟨a, ha⟩ ⟨a', ha'⟩
    refine (emit_stable_iff case d).1 (fun l l' hl hl' => ?_) k k' a a' ha ha'
    cases d with
    | ingress =>
      exact congrArg FirewallRule.ingress
        (h _ _ ⟨l, _, hl, .refl _, rfl⟩ ⟨l', _, hl', .refl _, rfl⟩)
    | egress =>
      exact congrArg FirewallRule.egress
        (h _ _ ⟨_, l, .refl _, hl, rfl⟩ ⟨_, l', .refl _, hl', rfl⟩)
  rintro hone _ _ ⟨li, le, hli, hle, rfl⟩ ⟨li', le', hli', hle', rfl⟩
  have hemit := fun d => (emit_stable_iff case d).2 fun k k' a a' ha ha' =>
    hone d k k' ⟨a, ha⟩ ⟨a', ha'⟩
  rw [hemit .ingress li li' hli hli', hemit .egress le le' hle hle']

end LatticeMesh.Firewall
