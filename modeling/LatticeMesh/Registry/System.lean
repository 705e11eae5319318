import Mathlib.Data.Finset.Insert
import LatticeMesh.Lib.LTS
import LatticeMesh.Registry.Service

/-!
# The registry with its calls in progress

Any number of calls of the peer service run at once.
-/

namespace LatticeMesh.Registry

open Option Function PeerTable

inductive Call where
  | idle
  | registerStandalone (dto : PeerDto) (started : Time)
  | readPeer (dto : PeerDto) (started : Time) (tok : TokenRow)
  | checkExpiry (dto : PeerDto) (started : Time) (tok : TokenRow) (existing : Option PeerRow)
  | readWorkspace (dto : PeerDto) (started : Time) (tok : TokenRow) (existing : Option PeerRow)
  | checkLimits (dto : PeerDto) (started : Time) (tok : TokenRow) (workspace : Option WorkspaceRow)
  | allocate (dto : PeerDto) (started : Time) (tok : TokenRow) (hasUses : tok.HasUses)
  | create (e : Enrollment)
  | incrementUsedCount (tok : TokenRow)
  | setPeerApproval (ns name : String) (status : ApprovalStatus)
  | listForApproval (workspaceID name : String) (status : ApprovalStatus)
  | setPeerDisabled (workspaceID name : String) (disabled : Bool)
  | updatePeer (workspaceID : String) (dto : PeerDto)
  | setAdvertisedRoutes (workspaceID name : String) (routes : List String)
  | deletePeer (workspaceID name : String)
  | save (w : Write)
  | delete (id : String)

def Call.Begins (now : Time) : Call → Prop
  | registerStandalone _ started => started = now
  | setPeerApproval .. | setPeerDisabled .. | updatePeer .. | setAdvertisedRoutes ..
  | deletePeer .. => True
  | _ => False

structure State where
  peers : PeerTable
  tokens : TokenTable
  workspaces : GoMap String WorkspaceRow
  issued : Finset String
  now : Time
  calls : ℕ → Call
  enrolled : List Enrollment

def State.setCall (s : State) (p : ℕ) (c : Call) : State :=
  { s with calls := Function.update s.calls p c }

def State.getByNamespace (s : State) (ns : String) : Option WorkspaceRow :=
  ((s.workspaces.toList.map Prod.snd).filter fun w => w.ns = ns).argmin WorkspaceRow.id

section

variable (cfg : Config)

def checkLimits (dto : PeerDto) (generated : String × String) (started now : Time) (tok : TokenRow)
    (workspace : Option WorkspaceRow) (count : ℕ) : Except Refusal Call :=
  match cfg.maxNodes.filter (· ≤ count) with
  | some limit => .error (.nodeLimit count limit)
  | none =>
    if hasUses : tok.HasUses then
      if workspace.any WorkspaceRow.requirePeerApproval then
        (enrollPending cfg dto generated started now tok hasUses).map .create
      else .ok (.allocate dto started tok hasUses)
    else .error (.usageLimit tok.usageLimit)

inductive Reads (s : State) : Call → Except Refusal Call → Prop
  | token (dto : PeerDto) (started : Time) :
      Reads s (.registerStandalone dto started)
        (if dto.token = "" then .error .tokenEmpty
        else match s.tokens.getByToken dto.token with
          | none => .error .tokenNotExists
          | some tok =>
            .ok (.readPeer { dto with appID := normalizeAppID dto.appID } started tok))
  | peer (dto : PeerDto) (started : Time) (tok : TokenRow) :
      Reads s (.readPeer dto started tok)
        (.ok (.checkExpiry dto started tok (s.peers.getByAppID dto.appID)))
  | expiry (dto : PeerDto) (started : Time) (tok : TokenRow) (existing : Option PeerRow) :
      Reads s (.checkExpiry dto started tok existing)
        (if tok.expiresAt < s.now ∧ resumesOwnPeer dto existing = false then .error .tokenExpired
        else .ok (.readWorkspace dto started tok existing))
  | resume (dto : PeerDto) (generated : String × String) (started : Time) (tok : TokenRow)
      (existing : PeerRow) :
      Reads s (.readWorkspace dto started tok (some existing))
        (if existing.workspaceID ≠ tok.workspaceID then .error (.otherWorkspace dto.appID)
        else (resume cfg dto generated s.now existing).map .save)
  | workspace (dto : PeerDto) (started : Time) (tok : TokenRow) :
      Reads s (.readWorkspace dto started tok none)
        (.ok (.checkLimits dto started tok (s.workspaces.get tok.workspaceID)))
  | limits (dto : PeerDto) (generated : String × String) (started : Time) (tok : TokenRow)
      (workspace : Option WorkspaceRow) :
      Reads s (.checkLimits dto started tok workspace)
        (checkLimits cfg dto generated started s.now tok workspace s.peers.list.length)
  | allocate (dto : PeerDto) (generated : String × String) (started : Time) (tok : TokenRow)
      (hasUses : tok.HasUses) {rows : List PeerRow} (h : s.peers.Lists tok.workspaceID rows) :
      Reads s (.allocate dto started tok hasUses)
        ((enrollApproved cfg dto generated started s.now tok hasUses rows).map .create)
  | approvalWorkspace (ns name : String) (status : ApprovalStatus) :
      Reads s (.setPeerApproval ns name status)
        (match s.getByNamespace ns with
        | none => .error .workspaceNotFound
        | some workspace => .ok (.listForApproval workspace.id name status))
  | approval (workspaceID name : String) (status : ApprovalStatus) {rows : List PeerRow}
      (h : s.peers.Lists workspaceID rows) :
      Reads s (.listForApproval workspaceID name status)
        ((setPeerApproval s.now rows name status).map .save)
  | disabled (workspaceID name : String) (disabled : Bool) {rows : List PeerRow}
      (h : s.peers.Lists workspaceID rows) :
      Reads s (.setPeerDisabled workspaceID name disabled)
        ((findByName rows name).map fun peer => .save (setDisabled disabled peer))
  | update (workspaceID : String) (dto : PeerDto) {rows : List PeerRow}
      (h : s.peers.Lists workspaceID rows) :
      Reads s (.updatePeer workspaceID dto)
        ((findByName rows dto.name).map fun peer => .save (update cfg dto peer))
  | routes (workspaceID name : String) (routes : List String) {rows : List PeerRow}
      (h : s.peers.Lists workspaceID rows) :
      Reads s (.setAdvertisedRoutes workspaceID name routes)
        (match invalidRoute cfg routes with
        | some e => .error e
        | none => (findByName rows name).map fun peer => .save (setRoutes cfg routes peer))
  | delete (workspaceID name : String) {rows : List PeerRow}
      (h : s.peers.Lists workspaceID rows) :
      Reads s (.deletePeer workspaceID name)
        ((findByName rows name).map fun peer => .delete peer.id)

inductive Label where
  | begin (p : ℕ)
  | advance (p : ℕ)
  | refuse (p : ℕ) (e : Refusal)
  | create (p : ℕ) (id : String)
  | save (p : ℕ)
  | delete (p : ℕ)
  | incrementUsedCount (p : ℕ)
  | fail (p : ℕ)
  | tick
  | createToken (tok : TokenRow)
  | deleteToken (id : String)
  | setWorkspaces

inductive Step (s : State) : Label → State → Prop
  | begin {p : ℕ} {c : Call} (h : s.calls p = .idle) (hc : c.Begins s.now) :
      Step s (.begin p) (s.setCall p c)
  | advance {p : ℕ} {c : Call} (h : Reads cfg s (s.calls p) (.ok c)) :
      Step s (.advance p) (s.setCall p c)
  | refuse {p : ℕ} {e : Refusal} (h : Reads cfg s (s.calls p) (.error e)) :
      Step s (.refuse p e) (s.setCall p .idle)
  | create {p : ℕ} {e : Enrollment} {id : String} {t : PeerTable} (h : s.calls p = .create e)
      (hid : id ∉ s.issued) (ht : s.peers.create id e.row = some t) :
      Step s (.create p id)
        ({ s with peers := t, issued := insert id s.issued, enrolled := e :: s.enrolled }.setCall p
          (.incrementUsedCount e.tok))
  | save {p : ℕ} {w : Write} {t : PeerTable} (h : s.calls p = .save w)
      (ht : s.peers.save cfg.dialect w.row = some t) :
      Step s (.save p) ({ s with peers := t }.setCall p .idle)
  | delete {p : ℕ} {id : String} (h : s.calls p = .delete id) :
      Step s (.delete p) ({ s with peers := s.peers.delete id }.setCall p .idle)
  | incrementUsedCount {p : ℕ} {tok : TokenRow} (h : s.calls p = .incrementUsedCount tok) :
      Step s (.incrementUsedCount p)
        ({ s with tokens := s.tokens.incrementUsedCount tok.id }.setCall p .idle)
  | fail {p : ℕ} (h : s.calls p ≠ .idle) : Step s (.fail p) (s.setCall p .idle)
  | tick {now : Time} (h : s.now ≤ now) : Step s .tick { s with now := now }
  | createToken {tok : TokenRow} (hid : tok.id ∉ s.issued) (hused : tok.usedCount = 0)
      (hdeleted : tok.deleted = false) (htoken : ∀ r ∈ s.tokens, r.token ≠ tok.token) :
      Step s (.createToken tok)
        { s with tokens := s.tokens.insert tok htoken, issued := insert tok.id s.issued }
  | deleteToken {id : String} :
      Step s (.deleteToken id) { s with tokens := s.tokens.delete id }
  | setWorkspaces {workspaces : GoMap String WorkspaceRow} :
      Step s .setWorkspaces { s with workspaces := workspaces }

end

def AddressesUnique (t : PeerTable) : Prop :=
  ∀ r ∈ t, ∀ r' ∈ t, r.workspaceID = r'.workspaceID → r.address = r'.address → r.address ≠ "" →
    r.id = r'.id

structure State.Initial (s : State) : Prop where
  idle : ∀ p, s.calls p = .idle
  tokens : s.tokens = .empty
  issued : ∀ r ∈ s.peers, r.id ∈ s.issued
  addresses : AddressesUnique s.peers
  enrolled : s.enrolled = []

def registry (cfg : Config) : LTS State Label where
  init := State.Initial
  step := Step cfg

@[simp] theorem State.calls_setCall (s : State) (p : ℕ) (c : Call) :
    (s.setCall p c).calls = Function.update s.calls p c := rfl

@[simp] theorem State.peers_setCall (s : State) (p : ℕ) (c : Call) :
    (s.setCall p c).peers = s.peers := rfl

@[simp] theorem State.tokens_setCall (s : State) (p : ℕ) (c : Call) :
    (s.setCall p c).tokens = s.tokens := rfl

@[simp] theorem State.workspaces_setCall (s : State) (p : ℕ) (c : Call) :
    (s.setCall p c).workspaces = s.workspaces := rfl

variable {cfg : Config} {s t : State} {l : Label}

theorem peers_step (h : Step cfg s l t) :
    t.peers = s.peers ∨
    (∃ p e id, l = .create p id ∧ s.calls p = .create e ∧ id ∉ s.issued ∧
      s.peers.create id e.row = some t.peers) ∨
    (∃ p w, l = .save p ∧ s.calls p = .save w ∧
      s.peers.save cfg.dialect w.row = some t.peers) ∨
    ∃ p id, l = .delete p ∧ s.calls p = .delete id ∧ t.peers = s.peers.delete id := by
  cases h with
  | begin | advance | refuse | incrementUsedCount | fail | tick | createToken | deleteToken
  | setWorkspaces => exact .inl rfl
  | create h hid ht => exact .inr (.inl ⟨_, _, _, rfl, h, hid, ht⟩)
  | save h ht => exact .inr (.inr (.inl ⟨_, _, rfl, h, ht⟩))
  | delete h => exact .inr (.inr (.inr ⟨_, _, rfl, h, rfl⟩))

theorem tokens_step (h : Step cfg s l t) {r : TokenRow} (hr : r ∈ t.tokens) :
    (∃ r' ∈ s.tokens, r'.id = r.id) ∨ ∃ tok, l = .createToken tok ∧ r = tok := by
  cases h with
  | begin | advance | refuse | create | save | delete | fail | tick | setWorkspaces =>
    exact .inl ⟨r, hr, rfl⟩
  | @createToken tok _ _ _ htk =>
    have hget : (s.tokens.insert tok htk).get r.id = some r := hr
    rw [TokenTable.get_insert] at hget
    split at hget
    · exact .inr ⟨tok, rfl, (Option.some.inj hget).symm⟩
    · exact .inl ⟨r, hget, rfl⟩
  | @incrementUsedCount p tok =>
    have hget : (s.tokens.incrementUsedCount tok.id).get r.id = some r := hr
    rw [TokenTable.get_incrementUsedCount] at hget
    split at hget
    · next hid =>
      obtain ⟨r', hr', -⟩ := map_eq_some_iff.1 hget
      exact .inl ⟨r', TokenTable.mem_of_get hr', (s.tokens.keyed _ _ hr').trans hid.symm⟩
    · exact .inl ⟨r, hget, rfl⟩
  | @deleteToken id =>
    have hget : (s.tokens.delete id).get r.id = some r := hr
    rw [TokenTable.get_delete] at hget
    split at hget
    · next hid =>
      obtain ⟨r', hr', -⟩ := map_eq_some_iff.1 hget
      exact .inl ⟨r', TokenTable.mem_of_get hr', (s.tokens.keyed _ _ hr').trans hid.symm⟩
    · exact .inl ⟨r, hget, rfl⟩

theorem issued_step (h : Step cfg s l t) : s.issued ⊆ t.issued := by
  cases h with
  | begin | advance | refuse | save | delete | incrementUsedCount | fail | tick | deleteToken
  | setWorkspaces => exact Finset.Subset.refl _
  | create | createToken => exact Finset.subset_insert _ _

theorem calls_step (h : Step cfg s l t) (p : ℕ) :
    t.calls p = s.calls p ∨ t.calls p = .idle ∨
    (s.calls p = .idle ∧ (t.calls p).Begins s.now) ∨
    Reads cfg s (s.calls p) (.ok (t.calls p)) ∨
    ∃ e id, l = .create p id ∧ s.calls p = .create e ∧
      t.calls p = .incrementUsedCount e.tok := by
  have hupd : ∀ (s' : State) (q : ℕ) (c : Call), s'.calls = s.calls →
      (s'.setCall q c).calls p = s.calls p ∨ p = q ∧ (s'.setCall q c).calls p = c := by
    intro s' q c hs'
    by_cases hpq : p = q
    · subst hpq
      exact .inr ⟨rfl, update_self ..⟩
    · rw [State.calls_setCall, update_of_ne hpq, hs']
      exact .inl rfl
  cases h with
  | tick | createToken | deleteToken | setWorkspaces => exact .inl rfl
  | @begin q c h hc =>
    rcases hupd s q c rfl with hsame | ⟨rfl, hnew⟩
    · exact .inl hsame
    · exact .inr (.inr (.inl ⟨h, by rwa [hnew]⟩))
  | @advance q c h =>
    rcases hupd s q c rfl with hsame | ⟨rfl, hnew⟩
    · exact .inl hsame
    · exact .inr (.inr (.inr (.inl (by rwa [hnew]))))
  | @create q e id t h hid ht =>
    rcases hupd { s with peers := t, issued := insert id s.issued, enrolled := e :: s.enrolled }
      q _ rfl with hsame | ⟨rfl, hnew⟩
    · exact .inl hsame
    · exact .inr (.inr (.inr (.inr ⟨e, id, rfl, h, hnew⟩)))
  | @refuse q | @fail q =>
    rcases hupd s q .idle rfl with hsame | ⟨-, hnew⟩
    · exact .inl hsame
    · exact .inr (.inl hnew)
  | @save q w t =>
    rcases hupd { s with peers := t } q .idle rfl with hsame | ⟨-, hnew⟩
    · exact .inl hsame
    · exact .inr (.inl hnew)
  | @delete q id =>
    rcases hupd { s with peers := s.peers.delete id } q .idle rfl with hsame | ⟨-, hnew⟩
    · exact .inl hsame
    · exact .inr (.inl hnew)
  | @incrementUsedCount q tok =>
    rcases hupd { s with tokens := s.tokens.incrementUsedCount tok.id } q .idle rfl with
      hsame | ⟨-, hnew⟩
    · exact .inl hsame
    · exact .inr (.inl hnew)

def Call.holds : Call → Option String
  | checkExpiry _ _ _ existing | readWorkspace _ _ _ existing => existing.map PeerRow.id
  | save w => some w.read.id
  | delete id => some id
  | _ => none

theorem Call.Begins.holds {c : Call} {now : Time} (h : c.Begins now) : c.holds = none := by
  cases c <;> first | rfl | exact False.elim h

theorem Reads.holds {c c' : Call} (h : Reads cfg s c (.ok c')) {id : String}
    (hid : c'.holds = some id) : c.holds = some id ∨ ∃ r ∈ s.peers, r.id = id := by
  have hlis : ∀ {workspaceID : String} {rows : List PeerRow} {r : PeerRow},
      s.peers.Lists workspaceID rows → r ∈ rows → r.id = id → ∃ r ∈ s.peers, r.id = id :=
    fun hrows hr hrid => ⟨_, (hrows.mem_iff.1 hr).1, hrid⟩
  generalize hres : (Except.ok c' : Except Refusal Call) = res at h
  cases h with
  | token dto started =>
    split at hres
    · cases hres
    split at hres
    · cases hres
    · cases hres
      cases hid
  | peer dto started tok =>
    cases hres
    obtain ⟨r, hr, rfl⟩ := map_eq_some_iff.1 hid
    exact .inr ⟨r, (getByAppID_mem hr).1, rfl⟩
  | expiry dto started tok existing =>
    split at hres
    · cases hres
    · cases hres
      exact .inl hid
  | resume dto generated started tok existing =>
    split at hres
    · cases hres
    obtain ⟨w, hw, rfl⟩ := map_ok hres.symm
    cases hid
    exact .inl (congrArg some (congrArg PeerRow.id (resume_read hw)).symm)
  | workspace =>
    cases hres
    cases hid
  | limits dto generated started tok workspace =>
    unfold checkLimits at hres
    split at hres
    · cases hres
    split at hres
    · split at hres
      · obtain ⟨e, -, rfl⟩ := map_ok hres.symm
        cases hid
      · cases hres
        cases hid
    · cases hres
  | allocate =>
    obtain ⟨e, -, rfl⟩ := map_ok hres.symm
    cases hid
  | approvalWorkspace =>
    split at hres
    · cases hres
    · cases hres
      cases hid
  | approval workspaceID name status hrows =>
    obtain ⟨w, hw, rfl⟩ := map_ok hres.symm
    exact .inr (hlis hrows (setPeerApproval_read hw) (Option.some.inj hid))
  | disabled _ _ _ hrows | update _ _ hrows | delete _ _ hrows =>
    obtain ⟨peer, hpeer, rfl⟩ := map_ok hres.symm
    exact .inr (hlis hrows (findByName_mem hpeer) (Option.some.inj hid))
  | routes _ _ _ hrows =>
    split at hres
    · cases hres
    · obtain ⟨peer, hpeer, rfl⟩ := map_ok hres.symm
      exact .inr (hlis hrows (findByName_mem hpeer) (Option.some.inj hid))

structure IdsIssued (s : State) : Prop where
  rows : ∀ r ∈ s.peers, r.id ∈ s.issued
  tokens : ∀ r ∈ s.tokens, r.id ∈ s.issued
  held : ∀ p id, (s.calls p).holds = some id → id ∈ s.issued

theorem IdsIssued.saved_id (hi : IdsIssued s) {p : ℕ} {w : Write} (h : s.calls p = .save w) :
    (s.peers.saved cfg.dialect w.row).id ∈ s.issued := by
  have hread : w.row.id ∈ s.issued := by
    rw [w.id_eq]
    exact hi.held p w.read.id (by rw [h]; rfl)
  unfold PeerTable.saved
  split
  · exact hread
  change s.peers.insertKey cfg.dialect w.row ∈ s.issued
  unfold PeerTable.insertKey
  split
  · exact hread
  cases hhol : s.peers.holder w.row with
  | none => exact hread
  | some r =>
    exact hi.rows r (PeerTable.mem_list.1 (List.mem_of_find?_eq_some hhol))

theorem IdsIssued.step (hi : IdsIssued s) (h : Step cfg s l t) : IdsIssued t := by
  have hgr := issued_step h
  refine ⟨?_, ?_, ?_⟩
  · intro r hr
    rw [PeerTable.mem_iff] at hr
    rcases peers_step h with hsame | ⟨p, e, id, rfl, hc, hid, ht⟩ | ⟨p, w, rfl, hw, ht⟩ |
      ⟨p, id, rfl, hd, ht⟩
    · rw [hsame] at hr
      exact hgr (hi.rows r hr)
    · rw [get_create ht] at hr
      split at hr
      · next hrid =>
        cases h
        exact hrid ▸ Finset.mem_insert_self _ _
      · exact hgr (hi.rows r hr)
    · rw [get_save ht] at hr
      split at hr
      · next hrid => exact hgr (hrid ▸ hi.saved_id hw)
      · exact hgr (hi.rows r hr)
    rw [ht, PeerTable.get_delete] at hr
    split at hr
    · cases hr
    · exact hgr (hi.rows r hr)
  · intro r hr
    rcases tokens_step h hr with ⟨r', hr', hid⟩ | ⟨tok, rfl, rfl⟩
    · exact hgr (hid ▸ hi.tokens r' hr')
    · cases h
      exact Finset.mem_insert_self _ _
  intro p id hid
  rcases calls_step h p with hsame | hidle | ⟨-, hbeg⟩ | hrea | ⟨e, id', -, -, hcnt⟩
  · rw [hsame] at hid
    exact hgr (hi.held p id hid)
  · rw [hidle] at hid
    cases hid
  · rw [hbeg.holds] at hid
    cases hid
  · rcases hrea.holds hid with hheld | ⟨r, hr, rfl⟩
    · exact hgr (hi.held p id hheld)
    · exact hgr (hi.rows r hr)
  · rw [hcnt] at hid
    cases hid

theorem IdsIssued.reachable (h : (registry cfg).Reachable s) : IdsIssued s := by
  apply h.invariant
  · intro s hs
    refine ⟨hs.issued, ?_, ?_⟩
    · intro r hr
      rw [hs.tokens] at hr
      exact absurd hr (TokenTable.not_mem_empty r)
    intro p id hid
    rw [hs.idle p] at hid
    cases hid
  · intro s l t _ hi hs
    exact hi.step hs

section

variable {dto : PeerDto} {started : Time} {tok : TokenRow} {existing : Option PeerRow}

theorem Reads.token_ok (hdto : dto.token ≠ "") (hget : s.tokens.getByToken dto.token = some tok)
    (happ : normalizeAppID dto.appID = dto.appID) :
    Reads cfg s (.registerStandalone dto started) (.ok (.readPeer dto started tok)) := by
  have h := @Reads.token cfg s dto started
  rw [if_neg hdto, hget] at h
  dsimp only at h
  rwa [happ] at h

theorem Reads.expiry_ok (h : s.now ≤ tok.expiresAt) :
    Reads cfg s (.checkExpiry dto started tok existing)
      (.ok (.readWorkspace dto started tok existing)) := by
  have hread := @Reads.expiry cfg s dto started tok existing
  rwa [if_neg fun hexp => absurd hexp.1 (not_lt.2 h)] at hread

theorem Reads.limits_ok (hnod : cfg.maxNodes = none) (hasUses : tok.HasUses) :
    Reads cfg s (.checkLimits dto started tok none) (.ok (.allocate dto started tok hasUses)) := by
  have h := @Reads.limits cfg s dto ("", "") started tok none
  unfold checkLimits at h
  rw [hnod, filter_none] at h
  dsimp only at h
  rwa [dif_pos hasUses, if_neg (by simp)] at h

theorem Reads.allocate_ok {generated : String × String} {hasUses : tok.HasUses}
    {rows : List PeerRow} {e : Enrollment} (hrows : s.peers.Lists tok.workspaceID rows)
    (he : enrollApproved cfg dto generated started s.now tok hasUses rows = .ok e) :
    Reads cfg s (.allocate dto started tok hasUses) (.ok (.create e)) := by
  have h := @Reads.allocate cfg s dto generated started tok hasUses rows hrows
  rwa [he] at h

theorem Reads.resume_ok {peer : PeerRow} {generated : String × String} {w : Write}
    (hws : peer.workspaceID = tok.workspaceID)
    (hw : Registry.resume cfg dto generated s.now peer = .ok w) :
    Reads cfg s (.readWorkspace dto started tok (some peer)) (.ok (.save w)) := by
  have h := @Reads.resume cfg s dto generated started tok peer
  rwa [if_neg fun hne => hne hws, hw] at h

theorem Reads.disabled_ok {workspaceID name : String} {disabled : Bool} {rows : List PeerRow}
    {peer : PeerRow} (hrows : s.peers.Lists workspaceID rows)
    (hfind : findByName rows name = .ok peer) :
    Reads cfg s (.setPeerDisabled workspaceID name disabled)
      (.ok (.save (setDisabled disabled peer))) := by
  have h := @Reads.disabled cfg s workspaceID name disabled rows hrows
  rwa [hfind] at h

end

def Label.Reads : Label → Prop
  | begin _ | advance _ | createToken _ => True
  | _ => False

theorem reachable_create {G : State → Label → Prop} (hG : ∀ s l, l.Reads → G s l)
    (h : ((registry cfg).guard G).Reachable s) {p : ℕ} (hidle : s.calls p = .idle)
    {dto : PeerDto} {tok : TokenRow} (hdto : dto.token ≠ "")
    (hget : s.tokens.getByToken dto.token = some tok)
    (happ : normalizeAppID dto.appID = dto.appID) (hnew : s.peers.getByAppID dto.appID = none)
    (hexp : s.now ≤ tok.expiresAt) (hws : s.workspaces.get tok.workspaceID = none)
    (hnod : cfg.maxNodes = none) (hasUses : tok.HasUses) {rows : List PeerRow}
    (hrows : s.peers.Lists tok.workspaceID rows) {e : Enrollment} {generated : String × String}
    (he : enrollApproved cfg dto generated s.now s.now tok hasUses rows = .ok e) :
    ((registry cfg).guard G).Reachable (s.setCall p (.create e)) := by
  have hst : ((registry cfg).guard G).Reachable
      (s.setCall p (.registerStandalone dto s.now)) :=
    h.step ⟨hG s (.begin p) trivial, .begin hidle rfl⟩
  have hadv : ∀ {c c' : Call}, ((registry cfg).guard G).Reachable (s.setCall p c) →
      Reads cfg (s.setCall p c) c (.ok c') →
      ((registry cfg).guard G).Reachable (s.setCall p c') := by
    intro c c' hc hread
    have hstep : Step cfg (s.setCall p c) (.advance p) ((s.setCall p c).setCall p c') := by
      apply Step.advance
      rwa [State.calls_setCall, update_self]
    have hset : (s.setCall p c).setCall p c' = s.setCall p c' := by
      unfold State.setCall
      rw [update_idem]
    exact hset ▸ hc.step ⟨hG _ (.advance p) trivial, hstep⟩
  have hpeer := hadv hst (.token_ok hdto hget happ)
  have hexpi := hadv hpeer (.peer dto s.now tok)
  rw [State.peers_setCall, hnew] at hexpi
  have hwor := hadv hexpi (.expiry_ok hexp)
  have hlim := hadv hwor (.workspace dto s.now tok)
  rw [State.workspaces_setCall, hws] at hlim
  have hall := hadv hlim (.limits_ok hnod hasUses)
  exact hadv hall (.allocate_ok hrows he)

def plain : Config where
  dialect := .sqlite
  maxNodes := none
  keyError _ := none
  cidrError _ := none
  marshalLabels _ := ""
  marshalRoutes _ := ""

def deviceDto (name : String) : PeerDto where
  name := name
  appID := name
  token := "enroll"
  publicKey := "key-" ++ name
  endpoint := ""
  hostname := ""
  platform := "linux"
  displayName := ""
  labels := none

def deviceToken (usageLimit : Int) : TokenRow := ⟨"t1", "enroll", "ws", 100, usageLimit, 0, false⟩

def twoCalls (peers : PeerTable) (tokens : TokenTable) (issued : Finset String) (c₀ c₁ : Call) :
    State :=
  ⟨peers, tokens, .empty, issued, 0, fun p => if p = 0 then c₀ else if p = 1 then c₁ else .idle, []⟩

section

variable (peers : PeerTable) (tokens : TokenTable) (issued : Finset String) (c₀ c₁ c : Call)

theorem setCall_zero : (twoCalls peers tokens issued c₀ c₁).setCall 0 c =
    twoCalls peers tokens issued c c₁ := by
  unfold twoCalls State.setCall
  congr 1
  funext p
  by_cases hp : p = 0
  · rw [hp, update_self, if_pos rfl]
  · rw [update_of_ne hp]
    simp only [hp, ↓reduceIte]

theorem setCall_one : (twoCalls peers tokens issued c₀ c₁).setCall 1 c =
    twoCalls peers tokens issued c₀ c := by
  unfold twoCalls State.setCall
  congr 1
  funext p
  by_cases hp : p = 1
  · rw [hp, update_self, if_neg Nat.one_ne_zero, if_pos rfl]
  · rw [update_of_ne hp]
    simp only [hp, ↓reduceIte]

variable {peers tokens issued c₀ c₁ c}

theorem Step.zero (h : Step cfg s l ((twoCalls peers tokens issued c₀ c₁).setCall 0 c)) :
    Step cfg s l (twoCalls peers tokens issued c c₁) := setCall_zero peers tokens issued c₀ c₁ c ▸ h

theorem Step.one (h : Step cfg s l ((twoCalls peers tokens issued c₀ c₁).setCall 1 c)) :
    Step cfg s l (twoCalls peers tokens issued c₀ c) := setCall_one peers tokens issued c₀ c₁ c ▸ h

end

def tokenTable (tok : TokenRow) : TokenTable := TokenTable.empty.insert tok fun _ h => nomatch h

def deployment (usageLimit : Int) (peers : PeerTable) (issued : Finset String)
    (enrolled : List Enrollment) (calls : ℕ → Call) : State :=
  ⟨peers, tokenTable (deviceToken usageLimit), .empty, issued, 0, calls, enrolled⟩

def deviceRow (usageLimit : Int) (name : String) : PeerRow :=
  registered (deviceDto name) ("key-" ++ name, "") 0
    (newPeer (deviceDto name) (deviceToken usageLimit) .approved "10.96.0.2")

section

variable {G : State → Label → Prop} (hG : ∀ s l, l.Reads → G s l) {usageLimit : Int}
  {calls : ℕ → Call} {p : ℕ}

include hG

theorem reachable_deployment (usageLimit : Int) : ((registry plain).guard G).Reachable
    (deployment usageLimit .empty {"t1"} [] fun _ => .idle) := by
  have hinit : ((registry plain).guard G).Reachable
      ⟨.empty, .empty, .empty, ∅, 0, fun _ => .idle, []⟩ :=
    .init ⟨fun _ => rfl, rfl, fun r h => absurd h (PeerTable.not_mem_empty r),
      fun r h => absurd h (PeerTable.not_mem_empty r), rfl⟩
  exact hinit.step ⟨hG _ (.createToken (deviceToken usageLimit)) trivial,
    .createToken (Finset.notMem_empty _) rfl rfl fun r h => absurd h (TokenTable.not_mem_empty r)⟩

theorem reachable_device (hasUses : (deviceToken usageLimit).HasUses) (name : String)
    (hname : normalizeAppID name = name)
    (h : ((registry plain).guard G).Reachable (deployment usageLimit .empty {"t1"} [] calls))
    (hp : calls p = .idle) :
    ∃ e : Enrollment, e.tok = deviceToken usageLimit ∧ e.row = deviceRow usageLimit name ∧
      ((registry plain).guard G).Reachable
        (deployment usageLimit .empty {"t1"} [] (Function.update calls p (.create e))) := by
  have hkey : "key-" ++ name ≠ "" := by
    intro hemp
    have hlen := congrArg String.length hemp
    rw [String.length_append] at hlen
    have hfour : "key-".length = 4 := rfl
    rw [hfour, String.length_empty] at hlen
    omega
  obtain ⟨e, he, htok, hrow⟩ := @exists_enrollApproved plain (deviceDto name) ("", "")
    ("key-" ++ name, "") 0 0 (deviceToken usageLimit) hasUses [] "10.96.0.2" allocateAddress_nil
    (keysFor_newPeer hkey rfl)
  have htk : (deviceDto name).token ≠ "" := by
    change "enroll" ≠ ""
    decide
  have hexp : (0 : Int) ≤ (deviceToken usageLimit).expiresAt := by
    change (0 : Int) ≤ 100
    decide
  have hget : (tokenTable (deviceToken usageLimit)).getByToken (deviceDto name).token =
    some (deviceToken usageLimit) := rfl
  refine ⟨e, htok, hrow, ?_⟩
  exact reachable_create hG h hp htk hget hname rfl hexp rfl rfl hasUses
    (List.Perm.refl _) he

end

theorem reachable_inserted {G : State → Label → Prop} {usageLimit : Int} {peers t : PeerTable}
    {issued : Finset String} {enrolled : List Enrollment} {calls : ℕ → Call} {p : ℕ}
    {e : Enrollment} {id : String}
    (h : ((registry plain).guard G).Reachable (deployment usageLimit peers issued enrolled calls))
    (hG : G (deployment usageLimit peers issued enrolled calls) (.create p id))
    (hp : calls p = .create e) (hid : id ∉ issued) (ht : peers.create id e.row = some t) :
    ((registry plain).guard G).Reachable (deployment usageLimit t (insert id issued)
      (e :: enrolled) (Function.update calls p (.incrementUsedCount e.tok))) :=
  h.step ⟨hG, .create hp hid ht⟩

theorem two_devices (usageLimit : Int) (hasUses : (deviceToken usageLimit).HasUses) :
    ∃ (e e' : Enrollment) (t : PeerTable) (calls : ℕ → Call),
      e.tok = deviceToken usageLimit ∧ e'.tok = deviceToken usageLimit ∧
      (registry plain).Reachable (deployment usageLimit t {"p2", "p1", "t1"} [e', e] calls) ∧
      t.get "p1" = some (PeerTable.created "p1" (deviceRow usageLimit "a")) ∧
      t.get "p2" = some (PeerTable.created "p2" (deviceRow usageLimit "b")) := by
  have hG : ∀ (s : State) (l : Label), l.Reads → True := fun _ _ _ => trivial
  obtain ⟨e, htok, hrow, he⟩ := reachable_device hG hasUses "a" (by decide +kernel)
    (reachable_deployment hG usageLimit) (p := 0) rfl
  obtain ⟨e', htok', hrow', he'⟩ := reachable_device hG hasUses "b" (by decide +kernel) he
    (p := 1) rfl
  obtain ⟨t₁, ht₁⟩ := PeerTable.empty.exists_create (r := e.row) "p1" fun r hr =>
    absurd hr (PeerTable.not_mem_empty r)
  have hget₁ := get_create ht₁
  have hname : ∀ r ∈ t₁, r.workspaceID = e'.row.workspaceID → r.name ≠ e'.row.name := by
    intro r hr _
    rw [PeerTable.mem_iff, hget₁] at hr
    split at hr
    · cases hr
      rw [created_name, hrow, hrow']
      change "a" ≠ "b"
      decide
    · cases hr
  obtain ⟨t₂, ht₂⟩ := t₁.exists_create (r := e'.row) "p2" hname
  have hget₂ := get_create ht₂
  have hfst := reachable_inserted he' trivial (p := 0) rfl (by decide) ht₁
  have hsec := reachable_inserted hfst trivial (p := 1) rfl (by decide) ht₂
  refine ⟨e, e', t₂, _, htok, htok', hsec.of_guard, ?_, ?_⟩
  · rw [hget₂, hget₁, hrow]
    rfl
  · rw [hget₂, hrow']
    rfl

end LatticeMesh.Registry
