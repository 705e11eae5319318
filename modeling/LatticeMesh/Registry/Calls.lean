import LatticeMesh.Registry.System

/-! # One call at a time -/

namespace LatticeMesh.Registry

open PeerTable

inductive Request where
  | register (dto : PeerDto)
  | approval (ns name : String) (status : ApprovalStatus)
  | disabling (workspaceID name : String) (disabled : Bool)
  | update (workspaceID : String) (dto : PeerDto)
  | routes (workspaceID name : String) (cidrs : List String)
  | delete (workspaceID name : String)

def PeerDto.normalized (dto : PeerDto) : PeerDto := { dto with appID := normalizeAppID dto.appID }

@[simp] theorem PeerDto.normalized_name (dto : PeerDto) : dto.normalized.name = dto.name := by
  unfold normalized
  rfl

@[simp] theorem PeerDto.normalized_token (dto : PeerDto) : dto.normalized.token = dto.token := by
  unfold normalized
  rfl

@[simp] theorem PeerDto.normalized_publicKey (dto : PeerDto) :
    dto.normalized.publicKey = dto.publicKey := by
  unfold normalized
  rfl

structure Presents (s : State) (dto : PeerDto) (tok : TokenRow) : Prop where
  token_ne : dto.token ≠ ""
  stored : s.tokens.getByToken dto.token = some tok

section

variable (cfg : Config) (s : State) (generated : String × String)

inductive Enrolls (dto : PeerDto) (tok : TokenRow) (now : Time) : Enrollment → Prop
  | pending {e : Enrollment} (h : checkLimits cfg dto generated s.now now tok
      (s.workspaces.get tok.workspaceID) s.peers.list.length = .ok (.create e)) :
      Enrolls dto tok now e
  | approved {hasUses : tok.HasUses} {rows : List PeerRow} {e : Enrollment}
      (h : checkLimits cfg dto generated s.now now tok (s.workspaces.get tok.workspaceID)
        s.peers.list.length = .ok (.allocate dto s.now tok hasUses))
      (hrows : s.peers.Lists tok.workspaceID rows)
      (he : enrollApproved cfg dto generated s.now now tok hasUses rows = .ok e) :
      Enrolls dto tok now e

inductive Writes : Request → Write → Prop
  | register {dto : PeerDto} {tok : TokenRow} {existing : PeerRow} {now : Time} {w : Write}
      (htok : Presents s dto tok)
      (hfound : s.peers.getByAppID dto.normalized.appID = some existing)
      (hexpiry : ¬ (tok.expiresAt < s.now ∧
        resumesOwnPeer dto.normalized (some existing) = false))
      (hws : existing.workspaceID = tok.workspaceID) (hnow : s.now ≤ now)
      (hw : resume cfg dto.normalized generated now existing = .ok w) :
      Writes (.register dto) w
  | approval {ns name : String} {status : ApprovalStatus} {workspace : WorkspaceRow}
      {rows : List PeerRow} {now : Time} {w : Write} (hns : s.getByNamespace ns = some workspace)
      (hrows : s.peers.Lists workspace.id rows) (hnow : s.now ≤ now)
      (hw : setPeerApproval now rows name status = .ok w) :
      Writes (.approval ns name status) w
  | disabling {workspaceID name : String} {disabled : Bool} {rows : List PeerRow} {peer : PeerRow}
      (hrows : s.peers.Lists workspaceID rows) (hpeer : findByName rows name = .ok peer) :
      Writes (.disabling workspaceID name disabled) (setDisabled disabled peer)
  | update {workspaceID : String} {dto : PeerDto} {rows : List PeerRow} {peer : PeerRow}
      (hrows : s.peers.Lists workspaceID rows) (hpeer : findByName rows dto.name = .ok peer) :
      Writes (.update workspaceID dto) (Registry.update cfg dto peer)
  | routes {workspaceID name : String} {cidrs : List String} {rows : List PeerRow}
      {peer : PeerRow} (hvalid : invalidRoute cfg cidrs = none)
      (hrows : s.peers.Lists workspaceID rows) (hpeer : findByName rows name = .ok peer) :
      Writes (.routes workspaceID name cidrs) (setRoutes cfg cidrs peer)

inductive Performs : Request → PeerTable → Option PeerRow → Prop
  | failed (req : Request) : Performs req s.peers none
  | saved {req : Request} {w : Write} {t : PeerTable} (hw : Writes cfg s generated req w)
      (ht : s.peers.save cfg.dialect w.row = some t) : Performs req t (some w.row)
  | enrolled {dto : PeerDto} {tok : TokenRow} {now : Time} {e : Enrollment} {id : String}
      {t : PeerTable} (htok : Presents s dto tok)
      (hnew : s.peers.getByAppID dto.normalized.appID = none) (hexpiry : s.now ≤ tok.expiresAt)
      (hnow : s.now ≤ now) (he : Enrolls cfg s generated dto.normalized tok now e)
      (hid : id ∉ s.issued) (ht : s.peers.create id e.row = some t) (counted : Bool) :
      Performs (.register dto) t (if counted then some (PeerTable.created id e.row) else none)
  | deleted {workspaceID name : String} {rows : List PeerRow} {peer : PeerRow}
      (hrows : s.peers.Lists workspaceID rows) (hpeer : findByName rows name = .ok peer) :
      Performs (.delete workspaceID name) (s.peers.delete peer.id) none

end

variable {cfg : Config} {s : State} {generated : String × String}

section

variable {p : ℕ} {s₀ : State} {c c' : Call}

end

variable {w : Write} {req : Request}

variable {t : PeerTable} {answer : Option PeerRow}

theorem Writes.read_mem (h : Writes cfg s generated req w) :
    w.read ∈ s.peers := by
  cases h with
  | register _ hfnd _ _ _ hw =>
    rw [resume_read hw]
    exact (getByAppID_mem hfnd).1
  | approval _ hrows _ hw => exact (hrows.mem_iff.1 (setPeerApproval_read hw)).1
  | disabling hrows hpeer | update hrows hpeer | routes _ hrows hpeer =>
    exact (hrows.mem_iff.1 (findByName_mem hpeer)).1

theorem Writes.get (h : Writes cfg s generated req w) (ht : s.peers.save cfg.dialect w.row = some t)
    (id : String) :
    t.get id = if id = w.read.id then some w.row else s.peers.get id := by
  have hread : s.peers.get w.row.id = some w.read := by
    rw [w.id_eq]
    exact h.read_mem
  rw [get_save ht, saved_of_get hread, w.id_eq]

def State.Issued (s : State) : Prop := ∀ r ∈ s.peers, r.id ∈ s.issued

theorem Performs.row (h : Performs cfg s generated req t answer) (hids : s.Issued) {r : PeerRow}
    (hr : r ∈ s.peers) :
    t.get r.id = some r ∨
    (∃ w, Writes cfg s generated req w ∧ w.read = r ∧ t.get r.id = some w.row) ∨
    (req = .delete r.workspaceID r.name ∧ t.get r.id = none) := by
  cases h with
  | failed => exact .inl hr
  | @saved _ w _ hw ht =>
    by_cases hid : r.id = w.read.id
    · have hread : w.read = r := by
        have hmem : s.peers.get w.read.id = some w.read := hw.read_mem
        rw [← hid] at hmem
        exact Option.some.inj (hmem.symm.trans hr)
      exact .inr (.inl ⟨w, hw, hread, by rw [hw.get ht, if_pos hid]⟩)
    · rw [hw.get ht, if_neg hid]
      exact .inl hr
  | @enrolled dto tok now e id t _ _ _ _ _ hid ht =>
    have hne : r.id ≠ id := by
      rintro rfl
      exact hid (hids r hr)
    rw [get_create ht, created_id, if_neg hne]
    exact .inl hr
  | @deleted workspaceID name rows peer hrows hpeer =>
    rw [PeerTable.get_delete]
    by_cases hid : r.id = peer.id
    · have hpeer_mem := hrows.mem_iff.1 (findByName_mem hpeer)
      have hsto : s.peers.get peer.id = some peer := hpeer_mem.1
      rw [← hid] at hsto
      have heq : r = peer := Option.some.inj (hr.symm.trans hsto)
      refine .inr (.inr ⟨?_, if_pos hid⟩)
      rw [heq, hpeer_mem.2, findByName_name hpeer]
    · rw [if_neg hid]
      exact .inl hr

theorem Writes.appID_eq (h : Writes cfg s generated req w) :
    w.row.appID = w.read.appID := by
  cases h with
  | register _ _ _ _ _ hw =>
    obtain ⟨keys, -, rfl⟩ := map_ok hw
    rfl
  | approval _ _ _ hw =>
    obtain ⟨peer, -, ⟨-, rfl⟩ | ⟨-, _, _, _, rfl⟩⟩ := setPeerApproval_ok hw
    · rfl
    · rfl
  | disabling | update | routes => rfl

theorem Performs.written (h : Performs cfg s generated req t answer) (hids : s.Issued)
    {row : PeerRow} (hans : answer = some row) :
    (∀ id, t.get id = if id = row.id then some row else s.peers.get id) ∧
    ∀ r, s.peers.get row.id = some r → r.workspaceID = row.workspaceID ∧ r.appID = row.appID := by
  cases h with
  | failed => cases hans
  | @saved _ w _ hw ht =>
    cases hans
    rw [w.id_eq]
    refine ⟨hw.get ht, ?_⟩
    intro r hr
    have hread : s.peers.get w.read.id = some w.read := hw.read_mem
    cases Option.some.inj (hr.symm.trans hread)
    exact ⟨w.workspaceID_eq.symm, hw.appID_eq.symm⟩
  | @enrolled _ tok now e id _ _ _ _ _ _ hid ht counted =>
    split at hans
    · cases hans
      refine ⟨get_create ht, ?_⟩
      intro r hr
      rw [created_id] at hr
      have hrid := s.peers.keyed id r hr
      exact absurd (hids r (PeerTable.mem_of_get hr)) (hrid ▸ hid)
    · cases hans
  | deleted => cases hans

structure Event where
  req : Request
  generated : String × String
  answer : Option PeerRow

def sequential (cfg : Config) : LTS State Event where
  init := State.Issued
  step s e t := Performs cfg s e.generated e.req t.peers e.answer ∧ s.issued ⊆ t.issued ∧ t.Issued

theorem State.Issued.reachable {G : State → Event → Prop}
    (h : ((sequential cfg).guard G).Reachable s) : s.Issued := by
  apply h.invariant
  · exact fun _ hs => hs
  · exact fun _ _ _ _ _ hstep => hstep.2.2.2

end LatticeMesh.Registry
