import LatticeMesh.Lib.Behaviour
import LatticeMesh.Registry.System

/-! # Administrative decisions -/

namespace LatticeMesh.Registry

open Option PeerTable

inductive Decision where
  | approved
  | revoked
  | disabled
  | enabled
  | deleted

def Decision.Holds : Decision → Option PeerRow → Prop
  | approved, some r => r.approvalStatus = .approved
  | revoked, some r => r.approvalStatus = .revoked ∧ r.disabled = true
  | disabled, some r => r.disabled = true
  | enabled, some r => r.disabled = false
  | deleted, none => True
  | _, _ => False

def Caller.decision : Caller → Option Decision
  | approval .approved => some .approved
  | approval .revoked => some .revoked
  | disabling true => some .disabled
  | disabling false => some .enabled
  | _ => none

section

variable (cfg : Config) (s : State) (id : String)

def Administers : Label → Prop
  | .save p => ∃ w, s.calls p = .save w ∧ w.caller.administrative = true ∧
      (s.peers.saved cfg.dialect w.row).id = id
  | .delete p => s.calls p = .delete id
  | _ => False

def Decides (d : Decision) : Label → Prop
  | .save p => ∃ w, s.calls p = .save w ∧ w.caller.decision = some d ∧
      (s.peers.saved cfg.dialect w.row).id = id
  | .delete p => s.calls p = .delete id ∧ d = .deleted
  | _ => False

def StandingUnchanged (s : State) : Label → Prop
  | .save p => ∀ w, s.calls p = .save w → w.caller.administrative = false →
      (s.peers.get w.read.id).map PeerRow.standing = some w.read.standing
  | _ => True

end

def DecisionsKept (cfg : Config) {M : LTS State Label} (b : Behaviour M) : Prop :=
  ∀ d id i l, b.label i = some l → Decides cfg (b.state i) id d l → ∀ j, i < j →
    (∀ k, i < k → k < j → ∀ l', b.label k = some l' → ¬ Administers cfg (b.state k) id l') →
    d.Holds ((b.state j).peers.get id)

variable {cfg : Config} {s t : State} {l : Label} {id : String} {d : Decision}

theorem Decision.Holds.congr {o o' : Option PeerRow} (h : d.Holds o)
    (ho : o'.map PeerRow.standing = o.map PeerRow.standing) : d.Holds o' := by
  cases o with
  | none =>
    rw [map_none, map_eq_none_iff] at ho
    exact ho ▸ h
  | some r =>
    obtain ⟨r', rfl, hr'⟩ := map_eq_some_iff.1 ho
    obtain ⟨hst, hdis⟩ := Prod.mk.inj hr'
    cases d <;> simp only [Decision.Holds, hst, hdis] at h ⊢ <;> exact h

theorem standing_step (hu : StandingUnchanged s l) (h : Step cfg s l t) (hid : id ∈ s.issued) :
    (t.peers.get id).map PeerRow.standing = (s.peers.get id).map PeerRow.standing ∨
      Administers cfg s id l := by
  rcases peers_step h with hsame | ⟨p, e, new, rfl, hc, hnew, ht⟩ | ⟨p, w, rfl, hw, ht⟩ |
    ⟨p, gone, rfl, hd, ht⟩
  · rw [hsame]
    exact .inl rfl
  · left
    rw [get_create ht, created_id, if_neg]
    exact fun hne => hnew (hne ▸ hid)
  · by_cases hadm : w.caller.administrative = true
    · by_cases hwr : id = (s.peers.saved cfg.dialect w.row).id
      · exact .inr ⟨w, hw, hadm, hwr.symm⟩
      · rw [get_save ht, if_neg hwr]
        exact .inl rfl
    left
    rw [Bool.not_eq_true] at hadm
    have hread := hu w hw hadm
    obtain ⟨cur, hcur, -⟩ := map_eq_some_iff.1 hread
    rw [← w.id_eq] at hread hcur
    rw [get_save ht, saved_of_get hcur]
    split
    · next hwr =>
      rw [hwr, hread, map_some, w.standing_eq hadm]
    · rfl
  by_cases hgone : id = gone
  · exact .inr (hgone ▸ hd)
  · rw [ht, PeerTable.get_delete, if_neg hgone]
    exact .inl rfl

theorem holds_of_decides (h : Step cfg s l t) (hd : Decides cfg s id d l) :
    d.Holds (t.peers.get id) := by
  cases h with
  | begin | advance | refuse | create | incrementUsedCount | fail | tick | createToken
  | deleteToken | setWorkspaces => cases hd
  | @save p w t' hw ht =>
    obtain ⟨w', hw', hdec, rfl⟩ := hd
    cases hw.symm.trans hw'
    rw [State.peers_setCall, get_save ht, if_pos rfl]
    have hdeci := w.decides
    have hdis : (s.peers.saved cfg.dialect w.row).disabled = w.row.disabled :=
      saved_disabled
    have hst : w.row.approvalStatus ≠ .unset →
        (s.peers.saved cfg.dialect w.row).approvalStatus = w.row.approvalStatus := by
      intro hne
      rcases saved_eq cfg.dialect s.peers w.row with hsav | ⟨_, hsav⟩
      · rw [hsav]
      · rw [hsav, created_eq _ hne]
    generalize w.caller = caller at hdec hdeci
    cases caller with
    | registration | update | routes => cases hdec
    | approval status =>
      obtain ⟨hrow, hrev⟩ := hdeci
      cases status with
      | unset | pending => cases hdec
      | approved =>
        cases hdec
        exact (hst (by rw [hrow]; nofun)).trans hrow
      | revoked =>
        cases hdec
        exact ⟨(hst (by rw [hrow]; nofun)).trans hrow, hdis.trans (hrev rfl)⟩
    | disabling disabled =>
      cases disabled <;>
      · cases hdec
        exact hdis.trans hdeci
  | @delete p gone hgone =>
    obtain ⟨hid, rfl⟩ := hd
    cases hgone.symm.trans hid
    rw [State.peers_setCall, PeerTable.get_delete, if_pos rfl]
    trivial

theorem Decides.issued (hd : Decides cfg s id d l) (hi : IdsIssued s) : id ∈ s.issued := by
  cases l with
  | begin | advance | refuse | create | incrementUsedCount | fail | tick | createToken
  | deleteToken | setWorkspaces => cases hd
  | save p =>
    obtain ⟨w, hw, -, rfl⟩ := hd
    exact hi.saved_id hw
  | delete p =>
    exact hi.held p id (by rw [hd.1]; rfl)

/-- **Decisions are kept** in every run in which each write-back finds the standing that it read. -/
theorem decisions_kept (b : Behaviour ((registry cfg).guard StandingUnchanged)) :
    DecisionsKept cfg b := by
  intro d id i l hl hd j hij hnone
  have hiss : ∀ n, IdsIssued (b.state n) := fun n => .reachable (b.reachable n).of_guard
  have hst : d.Holds ((b.state (i + 1)).peers.get id) ∧ id ∈ (b.state (i + 1)).issued := by
    have hs := (b.step_of_label hl).2
    exact ⟨holds_of_decides hs hd, issued_step hs (hd.issued (hiss i))⟩
  suffices d.Holds ((b.state j).peers.get id) ∧ id ∈ (b.state j).issued from this.1
  induction j, hij using Nat.le_induction with
  | base => exact hst
  | succ n hn ih =>
    obtain ⟨hho, hid⟩ := ih fun k hik hkn => hnone k hik (by omega)
    rcases b.next_cases n with ⟨-, hsame⟩ | ⟨l', hl', hu, hs⟩
    · rw [hsame]
      exact ⟨hho, hid⟩
    rcases standing_step hu hs hid with hkept | hadmin
    · exact ⟨hho.congr hkept, issued_step hs hid⟩
    · exact absurd hadmin (hnone n (by omega) (by omega) l' hl')

def laptop : PeerRow where
  id := "p1"
  workspaceID := "ws"
  name := "laptop"
  appID := "laptop"
  token := "enroll"
  publicKey := "key-laptop"
  privateKey := ""
  address := "10.96.0.2"
  endpoint := ""
  hostname := ""
  platform := "linux"
  labels := ""
  advertisedRoutes := ""
  approvalStatus := .approved
  approvedAt := none
  disabled := false
  lastSeenAt := none
  description := ""

def oneRow (r : PeerRow) : PeerTable := PeerTable.empty.put r fun _ h => nomatch h

theorem list_oneRow (r : PeerRow) : (oneRow r).list = [r] := rfl

theorem mem_oneRow {r r' : PeerRow} : r' ∈ oneRow r ↔ r' = r := by
  rw [← PeerTable.mem_list, list_oneRow, List.mem_singleton]

theorem lists_oneRow (r : PeerRow) : (oneRow r).Lists r.workspaceID [r] := by
  simp [PeerTable.Lists, list_oneRow]

theorem getByAppID_oneRow (r : PeerRow) : (oneRow r).getByAppID r.appID = some r := by
  simp [PeerTable.getByAppID, list_oneRow]

def laptopReturns : Write where
  caller := .registration
  read := laptop
  row := registered (deviceDto "laptop") ("key-laptop", "") 0 laptop
  taken := none
  id_eq := rfl
  workspaceID_eq := rfl
  standing_eq := fun _ => rfl
  decides := trivial
  address := rfl

theorem initial_oneRow (r : PeerRow) : (twoCalls (oneRow r) .empty {r.id} .idle .idle).Initial where
  idle p := by
    unfold twoCalls
    dsimp only
    split
    · rfl
    · split <;> rfl
  tokens := rfl
  issued r' hr' := by
    rw [mem_oneRow.1 hr']
    exact Finset.mem_singleton_self _
  addresses := by
    intro a ha b hb _ _ _
    rw [mem_oneRow.1 ha, mem_oneRow.1 hb]
  enrolled := rfl

def laptopState (t : PeerTable) (c₀ c₁ : Call) : State :=
  twoCalls t (tokenTable (deviceToken 0)) {"t1", "p1"} c₀ c₁

theorem disabling_undone : ∃ b : Behaviour (registry plain), ¬ DecisionsKept plain b := by
  let dto := deviceDto "laptop"
  let tok := deviceToken 0
  let disable := setDisabled true laptop
  obtain ⟨t₁, ht₁⟩ := (oneRow laptop).exists_save .sqlite (r := disable.row) rfl rfl rfl
  have hget₁ : t₁.get "p1" = some disable.row := (get_save ht₁ "p1").trans rfl
  obtain ⟨t₂, ht₂⟩ := t₁.exists_save .sqlite (r := laptopReturns.row) hget₁ rfl rfl
  have hget₂ : t₂.get "p1" = some laptopReturns.row := by
    rw [get_save ht₂, saved_of_get hget₁]
    rfl
  let row := oneRow laptop
  have hcre : Step plain (twoCalls row .empty {"p1"} .idle .idle) (.createToken tok)
      (laptopState row .idle .idle) :=
    .createToken (by decide) rfl rfl fun r h => absurd h (TokenTable.not_mem_empty r)
  have hbeg : Step plain (laptopState row .idle .idle) (.begin 0)
      (laptopState row (.registerStandalone dto 0) .idle) := .zero (.begin rfl rfl)
  have htk : Step plain (laptopState row (.registerStandalone dto 0) .idle) (.advance 0)
      (laptopState row (.readPeer dto 0 tok) .idle) :=
    .zero (.advance (.token_ok (by decide) rfl (by decide +kernel)))
  have hpeer : Step plain (laptopState row (.readPeer dto 0 tok) .idle) (.advance 0)
      (laptopState row (.checkExpiry dto 0 tok (some laptop)) .idle) :=
    .zero (.advance (getByAppID_oneRow laptop ▸ .peer dto 0 tok))
  have hexp : Step plain (laptopState row (.checkExpiry dto 0 tok (some laptop)) .idle)
      (.advance 0) (laptopState row (.readWorkspace dto 0 tok (some laptop)) .idle) :=
    .zero (.advance (.expiry_ok (by decide)))
  have hres : Step plain (laptopState row (.readWorkspace dto 0 tok (some laptop)) .idle)
      (.advance 0) (laptopState row (.save laptopReturns) .idle) :=
    .zero (.advance (@Reads.resume_ok plain _ dto 0 tok laptop ("", "") _ rfl rfl))
  have hbeg' : Step plain (laptopState row (.save laptopReturns) .idle) (.begin 1)
      (laptopState row (.save laptopReturns) (.setPeerDisabled "ws" "laptop" true)) :=
    .one (.begin rfl trivial)
  have hdis : Step plain
      (laptopState row (.save laptopReturns) (.setPeerDisabled "ws" "laptop" true)) (.advance 1)
      (laptopState row (.save laptopReturns) (.save disable)) :=
    .one (.advance (.disabled_ok (lists_oneRow laptop) rfl))
  have hpath : (registry plain).Path (twoCalls row .empty {"p1"} .idle .idle)
      [(_, _), (_, _), (_, _), (_, _), (_, _), (_, _), (_, _), (_, _),
        (.save 1, laptopState t₁ (.save laptopReturns) .idle),
        (.save 0, laptopState t₂ .idle .idle)] :=
    ⟨hcre, hbeg, htk, hpeer, hexp, hres, hbeg', hdis,
      .one (.save rfl ht₁), .zero (.save rfl ht₂), trivial⟩
  refine ⟨.ofPath (initial_oneRow laptop) hpath, ?_⟩
  intro hkept
  have h := hkept .disabled "p1" 8 (.save 1) rfl ⟨disable, rfl, rfl, rfl⟩ 10 (by decide) (by
    intro k hk hk' l hl hadm
    have hk9 : k = 9 := by omega
    subst hk9
    cases hl
    obtain ⟨w, hw, hw', -⟩ := hadm
    cases hw
    cases hw')
  change Decision.disabled.Holds (t₂.get "p1") at h
  rw [hget₂] at h
  cases h

theorem disabling_kept : ∃ b : Behaviour ((registry plain).guard StandingUnchanged),
    b.label 2 = some (.save 1) ∧ Decides plain (b.state 2) "p1" .disabled (.save 1) ∧
      Decision.disabled.Holds ((b.state 3).peers.get "p1") := by
  let row := oneRow laptop
  let start := twoCalls row .empty {"p1"} .idle .idle
  obtain ⟨t, ht⟩ := row.exists_save .sqlite (r := (setDisabled true laptop).row) rfl rfl rfl
  have hbeg : Step plain start (.begin 1)
      (twoCalls row .empty {"p1"} .idle (.setPeerDisabled "ws" "laptop" true)) :=
    .one (.begin rfl trivial)
  have hdis : Step plain
      (twoCalls row .empty {"p1"} .idle (.setPeerDisabled "ws" "laptop" true)) (.advance 1)
      (twoCalls row .empty {"p1"} .idle (.save (setDisabled true laptop))) :=
    .one (.advance (.disabled_ok (lists_oneRow laptop) rfl))
  have hunc : StandingUnchanged
      (twoCalls row .empty {"p1"} .idle (.save (setDisabled true laptop))) (.save 1) := by
    intro w hw hcal
    cases hw
    cases hcal
  have hpath : ((registry plain).guard StandingUnchanged).Path start
      [(.begin 1, _), (.advance 1, _), (.save 1, twoCalls t .empty {"p1"} .idle .idle)] :=
    ⟨⟨trivial, hbeg⟩, ⟨trivial, hdis⟩, ⟨hunc, .one (.save rfl ht)⟩, trivial⟩
  let b := Behaviour.ofPath (initial_oneRow laptop) hpath
  have hdec : Decides plain (b.state 2) "p1" .disabled (.save 1) :=
    ⟨setDisabled true laptop, rfl, rfl, rfl⟩
  refine ⟨b, rfl, hdec, ?_⟩
  apply decisions_kept b .disabled "p1" 2 (.save 1) rfl hdec 3 (by decide)
  intro k hk hk'
  omega

end LatticeMesh.Registry
