import LatticeMesh.Registry.Calls
import LatticeMesh.Registry.Decisions

/-!
# How long a peer stays disabled

Disabling and revoking set one flag.
-/

namespace LatticeMesh.Registry

variable {cfg : Config} {s t : State} {generated : String × String} {id : String} {e : Event}

def Lifts (id : String) (s : State) (e : Event) : Prop :=
  ∃ r, s.peers.get id = some r ∧
    (e.req = .disabling r.workspaceID r.name false ∨
    ∃ ns workspace, s.getByNamespace ns = some workspace ∧ workspace.id = r.workspaceID ∧
      e.req = .approval ns r.name .approved ∧ r.approvalStatus = .revoked)

def Deletes (id : String) (s : State) (e : Event) : Prop :=
  ∃ r, s.peers.get id = some r ∧ e.req = .delete r.workspaceID r.name

def DisabledAt (id : String) (t : PeerTable) : Prop := ∃ r, t.get id = some r ∧ r.disabled = true

theorem Writes.disabled {w : Write} (h : Writes cfg s e.generated e.req w)
    (hdis : w.read.disabled = true) (hkept : ¬ Lifts w.read.id s e) :
    w.row.disabled = true := by
  have hmem := h.read_mem
  have hsta : w.caller.administrative = false → w.row.disabled = true := by
    intro hcal
    rw [← hdis]
    exact congrArg Prod.snd (w.standing_eq hcal)
  generalize hreq : e.req = req at h
  cases h with
  | register _ _ _ _ _ hw =>
    obtain ⟨keys, -, rfl⟩ := map_ok hw
    exact hsta rfl
  | update | routes => exact hsta rfl
  | @disabling workspaceID name disabled rows peer hrows hpeer =>
    cases disabled with
    | true => rfl
    | false =>
      refine absurd ⟨peer, hmem, .inl ?_⟩ hkept
      rw [hreq, (hrows.mem_iff.1 (findByName_mem hpeer)).2, findByName_name hpeer]
  | @approval ns name status workspace rows now _ hns hrows hnow hw =>
    obtain ⟨peer, hpeer, ⟨-, rfl⟩ | ⟨rfl, taken, address, hadr, rfl⟩⟩ := setPeerApproval_ok hw
    · rfl
    change (if peer.approvalStatus = .revoked then false else peer.disabled) = true
    split
    · next hrev =>
      refine absurd ⟨peer, hmem, .inr ⟨ns, workspace, hns, ?_, ?_, hrev⟩⟩ hkept
      · exact (hrows.mem_iff.1 (findByName_mem hpeer)).2.symm
      · rw [hreq, findByName_name hpeer]
    · exact hdis

theorem DisabledAt.step (h : DisabledAt id s.peers) (hids : s.Issued)
    (hstep : (sequential cfg).step s e t) (hkept : ¬ Lifts id s e) (hdel : ¬ Deletes id s e) :
    DisabledAt id t.peers := by
  obtain ⟨r, hr, hdis⟩ := h
  obtain rfl := s.peers.keyed id r hr
  rcases hstep.1.row hids hr with hsame | ⟨w, hw, rfl, hget⟩ | ⟨hreq, -⟩
  · exact ⟨r, hsame, hdis⟩
  · exact ⟨w.row, hget, hw.disabled hdis hkept⟩
  · exact absurd ⟨r, hr, hreq⟩ hdel

theorem Performs.disabling {t : PeerTable} {workspaceID name : String} {row : PeerRow}
    (h : Performs cfg s generated (.disabling workspaceID name true) t (some row)) :
    DisabledAt row.id t := by
  generalize hans : some row = answer at h
  cases h with
  | failed => cases hans
  | @saved _ w _ hw ht =>
    cases hans
    refine ⟨w.row, ?_, ?_⟩
    · rw [hw.get ht, w.id_eq, if_pos rfl]
    · cases hw
      rfl

def undisturbed (cfg : Config) (id : String) : LTS State Event :=
  (sequential cfg).guard fun s e => ¬ Lifts id s e ∧ ¬ Deletes id s e

/-- **A disabled peer stays disabled** until it is enabled, or approved while it is revoked. -/
theorem disabled_until_lifted {s₀ s t : State} {workspaceID name : String} {row : PeerRow}
    (hdisable : (sequential cfg).step s₀
      ⟨.disabling workspaceID name true, generated, some row⟩ s)
    (hsteps : (undisturbed cfg row.id).Steps s t) : DisabledAt row.id t.peers := by
  have hkept : t.Issued ∧ DisabledAt row.id t.peers := by
    refine hsteps.keeps (I := fun s => s.Issued ∧ DisabledAt row.id s.peers) ?_
      ⟨hdisable.2.2, hdisable.1.disabling⟩
    rintro s e t ⟨hids, hdis⟩ ⟨⟨hlif, hdel⟩, hstep⟩
    exact ⟨hstep.2.2, hdis.step hids hstep hlif hdel⟩
  exact hkept.2

def deviceRegistry (r : PeerRow) : State where
  peers := oneRow r
  tokens := .empty
  workspaces := GoMap.empty.set "ws" ⟨"ws", "ns", true⟩
  issued := {"p1"}
  now := 0
  calls _ := .idle
  enrolled := []

theorem save_oneRow {r r' : PeerRow} (hid : r'.id = r.id) :
    (oneRow r).save .sqlite r' = some (oneRow r') := by
  have hget : (oneRow r).get r'.id = some r := hid ▸ mem_oneRow.2 rfl
  have hfree : (oneRow r).Free r' := by
    intro r'' hr'' _ _
    rw [PeerTable.mem_list, mem_oneRow] at hr''
    rw [hr'', hid]
  unfold PeerTable.save PeerTable.put?
  rw [PeerTable.saved_of_get hget, dif_pos hfree]
  congr 1
  unfold oneRow PeerTable.put PeerTable.empty GoMap.set
  congr 2
  rw [hid]
  exact AList.insert_insert ..

theorem issued_deviceRegistry {r : PeerRow} (hid : r.id = "p1") : (deviceRegistry r).Issued := by
  intro r' hr'
  rw [mem_oneRow.1 hr', hid]
  exact Finset.mem_singleton_self _

theorem step_deviceRegistry {r : PeerRow} {req : Request} {w : Write}
    (h : Writes plain (deviceRegistry r) ("", "") req w) (hid : w.row.id = "p1") :
    (sequential plain).step (deviceRegistry r) ⟨req, ("", ""), some w.row⟩
      (deviceRegistry w.row) := by
  have hread : w.row.id = r.id := by rw [w.id_eq, mem_oneRow.1 h.read_mem]
  exact ⟨.saved h (save_oneRow hread), Finset.Subset.refl _, issued_deviceRegistry hid⟩

theorem step_approval {r : PeerRow} {status : ApprovalStatus} {w : Write} (hid : r.id = "p1")
    (hws : r.workspaceID = "ws") (hw : setPeerApproval 0 [r] "laptop" status = .ok w) :
    (sequential plain).step (deviceRegistry r) ⟨.approval "ns" "laptop" status, ("", ""), some w.row⟩
      (deviceRegistry w.row) := by
  have hrows : (oneRow r).Lists "ws" [r] := hws ▸ lists_oneRow r
  have hread : w.read = r := List.mem_singleton.1 (setPeerApproval_read hw)
  refine step_deviceRegistry (@Writes.approval plain (deviceRegistry r) ("", "") "ns" "laptop" status
    ⟨"ws", "ns", true⟩ [r] 0 w ?_ hrows le_rfl hw) (by rw [w.id_eq, hread, hid])
  simp [State.getByNamespace, deviceRegistry, GoMap.toList, GoMap.set, GoMap.empty]

theorem disabling_lifted : ∃ s₀ s₁ s₂ s₃ generated row,
    (sequential plain).Reachable s₀ ∧
    (sequential plain).step s₀ ⟨.disabling "ws" "laptop" true, generated, some row⟩ s₁ ∧
    (∃ answer, (sequential plain).step s₁ ⟨.approval "ns" "laptop" .revoked, generated, answer⟩ s₂) ∧
    (∃ answer, (sequential plain).step s₂ ⟨.approval "ns" "laptop" .approved, generated, answer⟩ s₃) ∧
    ¬ DisabledAt row.id s₃.peers := by
  have hdis := @Writes.disabling plain (deviceRegistry laptop) ("", "") "ws" "laptop" true
    [laptop] laptop (lists_oneRow laptop) rfl
  refine ⟨_, _, _, _, _, _, .init (issued_deviceRegistry rfl), step_deviceRegistry hdis rfl,
    ⟨_, step_approval rfl rfl rfl⟩, ⟨_, step_approval rfl rfl rfl⟩, ?_⟩
  rintro ⟨r, hr, hdisa⟩
  cases hr
  cases hdisa

theorem disabling_survives_approval : ∃ s₀ s t generated row,
    (sequential plain).step s₀ ⟨.disabling "ws" "laptop" true, generated, some row⟩ s ∧
    (∃ answer, (sequential plain).step s ⟨.approval "ns" "laptop" .approved, generated, answer⟩ t) ∧
    DisabledAt row.id t.peers := by
  have hdis := step_deviceRegistry (@Writes.disabling plain (deviceRegistry laptop) ("", "")
    "ws" "laptop" true [laptop] laptop (lists_oneRow laptop) rfl) rfl
  have happ := @step_approval (setDisabled true laptop).row .approved _ rfl rfl rfl
  refine ⟨_, _, _, _, _, hdis, ⟨_, happ⟩, ?_⟩
  refine disabled_until_lifted hdis (.single ⟨_, ⟨?_, ?_⟩, happ⟩)
  · rintro ⟨r, hr, hreq | ⟨_, _, _, _, _, hrev⟩⟩
    · cases hreq
    · cases hr
      cases hrev
  · rintro ⟨r, hr, hreq⟩
    cases hreq

end LatticeMesh.Registry
