import LatticeMesh.Netmap.Grants
import LatticeMesh.Netmap.Policies

/-! # Who is visible in a netmap -/

namespace LatticeMesh.Netmap

open Firewall Registry Text List

variable {ν : Type} {lib : Library ν} {b : NetmapBuilder} {db : Database} {clock : Clock}
  {peer c r : PeerRow}

def Admitted (r : PeerRow) : Prop := r.disabled = false ∧ Listed r

instance (r : PeerRow) : Decidable (Admitted r) := inferInstanceAs (Decidable (_ ∧ _))

def Names (r : PeerRow) (text : String) : Prop :=
  r.address ≠ "" ∧ (text = r.address ∨ text = r.address ++ "/32")

def Message.Lists (m : Message ν) (r : PeerRow) : Prop :=
  ∃ p ∈ m.entries, p.networkID = r.workspaceID ∧ p.name = r.name

def Message.Rules (m : Message ν) (r : PeerRow) : Prop :=
  (∃ net ∈ m.network, net.networkID = r.workspaceID) ∧
    ∃ t ∈ m.trafficRules, ∃ q ∈ t.peers, Names r q

def AdmittedOnly (db : Database) (c : PeerRow) (m : Message ν) : Prop :=
  ∀ r ∈ db.peers, r.id ≠ c.id → ¬ Admitted r → ¬ m.Lists r ∧ ¬ m.Rules r

def PolicyNames (lib : Library ν) (db : Database) (clock : Clock) (r : PeerRow) : Prop :=
  ∃ row ∈ db.listActiveByWorkspace r.workspaceID clock.listed, ∃ spec,
    lib.unmarshalSpec row.spec = some spec ∧ ∃ d, ∃ s ∈ spec.rules d, ∃ sel ∈ s.selections,
      ∃ text, Selects db r.workspaceID clock.ruled sel text ∧ trimSpace text ≠ "" ∧ Names r text

theorem exists_trafficRule_iff {case : Casing} {m : GoMap DecisionKey String} {d : Direction}
    {l : List (DecisionKey × String)} (hl : m.Ranges l) (P : String → Prop) :
    (∃ t ∈ emit case d l, ∃ q ∈ t.peers, P q) ↔ ∃ k, (∃ a, m.get k = some a) ∧ P k.peer := by
  constructor
  · rintro ⟨t, ht, q, hq, hP⟩
    rcases mem_append.1 ht with hmem | htail
    · obtain ⟨⟨k, a⟩, hk, rfl⟩ := List.mem_map.1 hmem
      obtain rfl : q = k.peer := mem_singleton.1 hq
      exact ⟨k, ⟨a, hl.mem_iff.1 hk⟩, hP⟩
    · rw [mem_singleton.1 htail] at hq
      cases hq
  rintro ⟨k, ⟨a, ha⟩, hP⟩
  exact ⟨_, mem_append_left _ (List.mem_map_of_mem (hl.mem_iff.2 ha)), k.peer,
    mem_singleton.2 rfl, hP⟩

theorem policyNames_iff : PolicyNames lib db clock r ↔
    ∃ d k, PolicyKey lib db clock r.workspaceID d k ∧ Names r k.peer := by
  constructor
  · rintro ⟨row, hrow, spec, hspec, d, s, hs, sel, hsel, text, htext, hbla, hnam⟩
    have hpor : wirePorts s.ports ≠ [] := by
      unfold wirePorts
      split
      · simp
      · assumption
    obtain ⟨port, hport⟩ := exists_mem_of_ne_nil _ hpor
    exact ⟨d, ⟨text, port.port, lib.case.upper port.protocol⟩, ⟨row, hrow, spec, hspec, s, hs,
      ⟨sel, hsel, htext⟩, hbla, port, hport, rfl, rfl⟩, hnam⟩
  · rintro ⟨d, k, ⟨row, hrow, spec, hspec, s, hs, ⟨sel, hsel, htext⟩, hbla, -⟩, hnam⟩
    exact ⟨row, hrow, spec, hspec, d, s, hs, sel, hsel, k.peer, htext, hbla, hnam⟩

theorem Build.rules_iff (x : Build lib b db clock peer) (hws : r.workspaceID = peer.workspaceID) :
    x.message.Rules r ↔ PolicyNames lib db clock r := by
  obtain ⟨li, le, hli, hle, hru⟩ := x.evaluates
  have htra : x.message.trafficRules =
      emit lib.case .ingress li ++ emit lib.case .egress le := by
    change x.rules.ingress ++ x.rules.egress = _
    rw [hru]
  have hnet : ∃ net ∈ x.message.network, net.networkID = r.workspaceID := ⟨_, rfl, hws.symm⟩
  unfold Message.Rules
  rw [and_iff_right hnet, policyNames_iff, htra, hws]
  simp only [mem_append, or_and_right, exists_or]
  rw [exists_trafficRule_iff hli, exists_trafficRule_iff hle]
  simp only [← x.decided_iff]
  constructor
  · rintro (h | h)
    · exact ⟨.ingress, h⟩
    · exact ⟨.egress, h⟩
  rintro ⟨d, h⟩
  cases d with
  | ingress => exact .inl h
  | egress => exact .inr h

theorem Build.lists_iff (x : Build lib b db clock peer) (hr : r ∈ db.peers)
    (hws : r.workspaceID = peer.workspaceID) : x.message.Lists r ↔ Listed r := by
  constructor
  · rintro ⟨p, hp, -, hname⟩
    obtain ⟨row, hrow, hl, rfl⟩ := x.mem_entries.1 hp
    obtain rfl := x.row_eq_of_name hrow hr hws (entry_name ▸ hname)
    exact hl
  intro hl
  have hp := x.mem_entries.2 ⟨r, x.mem_rows.2 ⟨hr, hws⟩, hl, rfl⟩
  exact ⟨_, hp, entry_networkID, entry_name⟩

theorem Build.hidden_of_workspace (x : Build lib b db clock peer)
    (hws : r.workspaceID ≠ peer.workspaceID) : ¬ x.message.Lists r ∧ ¬ x.message.Rules r := by
  constructor
  · rintro ⟨p, hp, hnet, -⟩
    obtain ⟨row, hrow, -, rfl⟩ := x.mem_entries.1 hp
    rw [entry_networkID, (x.mem_rows.1 hrow).2] at hnet
    exact hws hnet.symm
  rintro ⟨⟨net, hnet, hid⟩, -⟩
  cases hnet
  exact hws hid.symm

/-- **Only admitted peers are visible**, exactly if no listed peer of the workspace is disabled and
no policy in force names a peer that is not admitted. -/
theorem admitted_only {appID token : String} {m : Message ν}
    (h : BuildsForAppID lib b db clock appID token (.ok m)) :
    ∃ c, db.peers.getByAppID appID = some c ∧
      (AdmittedOnly db c m ↔ Approved c → ∀ r ∈ db.peers, r.workspaceID = c.workspaceID →
        r.id ≠ c.id → (Listed r → r.disabled = false) ∧
          (¬ Admitted r → ¬ PolicyNames lib db clock r)) := by
  generalize hres : Except.ok m = res at h
  cases h with
  | notFound | tokenMismatch | disabled | invalidSpec => cases hres
  | @pending c hc ht hd ha =>
    cases hres
    refine ⟨c, hc, iff_of_true ?_ fun ha' => absurd ha' ha⟩
    intro r _ _ _
    refine ⟨?_, ?_⟩
    · rintro ⟨p, hp, -⟩
      cases hp
    · rintro ⟨⟨net, hnet, -⟩, -⟩
      cases hnet
  | @built c hc ht hd ha x =>
    cases hres
    refine ⟨c, hc, ?_⟩
    rw [forall_prop_of_true ha]
    unfold AdmittedOnly
    constructor
    · intro honly r hr hws hne
      refine ⟨?_, ?_⟩
      · intro hl
        by_contra hdis
        exact (honly r hr hne fun hadm => hdis hadm.1).1 ((x.lists_iff hr hws).2 hl)
      · intro hadm hnam
        exact (honly r hr hne hadm).2 ((x.rules_iff hws).2 hnam)
    intro hall r hr hne hadm
    by_cases hws : r.workspaceID = c.workspaceID
    · obtain ⟨hen, hnam⟩ := hall r hr hws hne
      rw [x.lists_iff hr hws, x.rules_iff hws]
      exact ⟨fun hl => hadm ⟨hen hl, hl⟩, hnam hadm⟩
    · exact x.hidden_of_workspace hws

theorem enabled_exit_visible : ∃ m, BuildsForAppID tableLibrary
    (newPeerService (dualStack "relay.example:6266")) (pairDatabase false) ⟨0, 0, 0, 0⟩ "phone"
    "enroll" (.ok m) ∧ m.Lists (exitNode false) ∧ AdmittedOnly (pairDatabase false) phone m := by
  have hbui := builds_phoneBuild false "relay.example:6266"
  obtain ⟨c, hc, hiff⟩ := admitted_only hbui
  obtain rfl : phone = c := Option.some.inj hc
  refine ⟨_, hbui, ⟨_, mem_phoneBuild false _, rfl, rfl⟩, hiff.2 ?_⟩
  intro _ r hr _ hne
  rcases mem_pairDatabase.1 hr with rfl | rfl
  · refine ⟨fun _ => rfl, fun hadm => absurd ?_ hadm⟩
    exact ⟨rfl, .inr rfl, by decide⟩
  · exact absurd rfl hne

theorem disabled_exit_listed : ∃ m, BuildsForAppID tableLibrary
    (newPeerService (dualStack "relay.example:6266")) (pairDatabase true) ⟨0, 0, 0, 0⟩ "phone"
    "enroll" (.ok m) ∧ exitNode true ∈ (pairDatabase true).peers ∧
    (exitNode true).disabled = true ∧ m.Lists (exitNode true) ∧
    ¬ AdmittedOnly (pairDatabase true) phone m := by
  have hlis : (phoneBuild true "relay.example:6266").message.Lists (exitNode true) :=
    ⟨_, mem_phoneBuild true _, rfl, rfl⟩
  have hmem : exitNode true ∈ (pairDatabase true).peers := mem_pairDatabase.2 (.inl rfl)
  refine ⟨_, builds_phoneBuild true _, hmem, rfl, hlis, ?_⟩
  intro honly
  exact (honly _ hmem (by decide) (by decide)).1 hlis

end LatticeMesh.Netmap
