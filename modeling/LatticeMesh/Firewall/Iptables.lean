import LatticeMesh.Firewall.Evaluator

/-! # The iptables chains -/

namespace LatticeMesh.Firewall

open List Option

structure ChainRule where
  peer : String
  service : Option (String × Int)
  target : String
  deriving DecidableEq

inductive Entry where
  | established
  | rule (r : ChainRule)
  | drop
  deriving DecidableEq

structure Netfilter (α π : Type) where
  address : String → α → Bool
  protocol : String → π → Bool
  takes : String → Option (String × Int) → Bool

structure Packet (α π : Type) where
  peer : α
  protocol : π
  dport : Int
  established : Bool

variable {α π : Type} (nf : Netfilter α π)

def Netfilter.service (pkt : Packet α π) (s : Option (String × Int)) : Bool :=
  s.all fun s => nf.protocol s.1 pkt.protocol && pkt.dport == s.2

def Entry.matches (pkt : Packet α π) : Entry → Bool
  | .established => pkt.established
  | .rule r => nf.address r.peer pkt.peer && nf.service pkt r.service
  | .drop => true

def Entry.target : Entry → String
  | .established => "ACCEPT"
  | .rule r => r.target
  | .drop => "DROP"

def verdict (pkt : Packet α π) (chain : List Entry) : Option String :=
  (chain.find? (Entry.matches nf pkt)).map Entry.target

def installedService (case : Casing) (protocol : String) (port : Int) : Option (String × Int) :=
  if protocol ≠ "" ∧ port ≠ 0 then some (case.lower protocol, port) else none

def addRule (case : Casing) (ip : String) (tr : TrafficRule) : ChainRule where
  peer := ip
  service := installedService case tr.protocol tr.port
  target := if tr.action = "" then "ACCEPT" else tr.action

def chainRules (case : Casing) (rules : List TrafficRule) : List ChainRule :=
  rules.flatMap fun tr => tr.peers.map fun ip => addRule case ip tr

def Netfilter.taken (r : ChainRule) : Bool := nf.takes r.peer r.service

def provision (case : Casing) (fw : FirewallRule) (d : Direction) : List Entry :=
  let rules := chainRules case (fw.rules d)
  let reached := d = .ingress ∨ (chainRules case fw.ingress).all nf.taken
  let complete := (chainRules case fw.ingress).all nf.taken ∧
    (chainRules case fw.egress).all nf.taken
  .established :: ((if reached then rules.takeWhile nf.taken else []).map .rule ++
    if complete then [.drop] else [])

variable {nf} {pkt : Packet α π}

variable {l : List Entry} {t : String}

theorem verdict_append {l' : List Entry} (h : verdict nf pkt l = some t) :
    verdict nf pkt (l ++ l') = some t := by
  unfold verdict at h ⊢
  obtain ⟨e, he, ht⟩ := map_eq_some_iff.1 h
  rw [find?_append, he, some_or, map_some, ht]

theorem verdict_of_forall (hsome : ∃ e ∈ l, e.matches nf pkt)
    (hall : ∀ e ∈ l, e.matches nf pkt → e.target = t) : verdict nf pkt l = some t := by
  obtain ⟨e, he, hm⟩ := hsome
  unfold verdict
  cases hf : l.find? (Entry.matches nf pkt) with
  | none => exact absurd hm (by simpa using find?_eq_none.1 hf e he)
  | some e' =>
    rw [map_some, hall e' (mem_of_find?_eq_some hf) (find?_some hf)]

theorem verdict_cons_of_matches {e : Entry} (h : e.matches nf pkt = true) :
    verdict nf pkt (e :: l) = some e.target := by
  unfold verdict
  rw [find?_cons_of_pos h, map_some]

theorem verdict_cons_of_not {e : Entry} (h : e.matches nf pkt = false) :
    verdict nf pkt (e :: l) = verdict nf pkt l := by
  unfold verdict
  rw [find?_cons_of_neg (by simp [h])]

theorem exists_of_verdict (h : verdict nf pkt l = some t) :
    ∃ e ∈ l, e.matches nf pkt ∧ e.target = t := by
  unfold verdict at h
  obtain ⟨e, he, ht⟩ := map_eq_some_iff.1 h
  exact ⟨e, mem_of_find?_eq_some he, find?_some he, ht⟩

end LatticeMesh.Firewall
