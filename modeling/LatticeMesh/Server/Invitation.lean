import LatticeMesh.Lib.LTS
import LatticeMesh.Lib.Table
import Mathlib

/-! # Invitations to a workspace -/

namespace LatticeMesh.Invitations

abbrev Time := Int

inductive Status where
  | pending
  | accepted
  | expired
  | revoked
  deriving DecidableEq

inductive WorkspaceRole where
  | admin
  | editor
  | member
  | viewer
  deriving DecidableEq

def getRoleWeight : WorkspaceRole → Int
  | .admin => 100
  | .editor => 80
  | .member => 40
  | .viewer => 10

structure WorkspaceInvitation where
  id : String
  workspaceID : String
  inviterID : String
  email : String
  role : WorkspaceRole
  token : String
  status : Status
  expiresAt : Time
  deriving DecidableEq

structure User where
  id : String
  username : String
  email : String
  password : String
  platformAdmin : Bool := false

structure WorkspaceMember where
  id : String
  workspaceID : String
  userID : String
  role : WorkspaceRole
  invitedBy : String
  joinedAt : Time

abbrev InvitationTable := Table WorkspaceInvitation.id WorkspaceInvitation.token

structure Store where
  invitations : InvitationTable := .empty
  users : GoMap String User := GoMap.empty
  members : List WorkspaceMember := []
  joined : List (String × WorkspaceMember) := []

structure Faults where
  getByToken : Option String := none
  findByID : Option String := none
  pending : Option String := none
  generateToken : Option String := none
  createInvitation : Option String := none
  updateStatus : Option String := none
  user : Option String := none
  getByEmail : Option String := none
  getByUsername : Option String := none
  createUser : Option String := none
  membership : Option String := none
  addMember : Option String := none
  encrypt : Option String := none
  jwt : Option String := none
  commit : Option String := none

structure Inputs where
  now : Time
  userID : String := ""
  memberID : String := ""
  invitationID : String := ""
  token : String := ""
  hashed : String := ""
  jwt : String := ""
  faults : Faults := {}

structure Config where
  verify : String → Bool
  equalFold : String → String → Bool

namespace Store

def getMembership (s : Store) (f : Faults) (workspaceID userID : String) : Option WorkspaceMember :=
  query f.membership ((s.members.filter fun m =>
    m.workspaceID = workspaceID ∧ m.userID = userID).argmin WorkspaceMember.id)

def setStatus (s : Store) (id : String) (status : Status) : Store :=
  { s with
    invitations := s.invitations.modify id (fun inv => { inv with status := status })
      (fun _ => rfl) fun _ => rfl }

def updateStatus (s : Store) (f : Faults) (id : String) (status : Status) :
    Store × Except String Unit :=
  match f.updateStatus with
  | some err => (s, .error err)
  | none => (s.setStatus id status, .ok ())

def addMember (s : Store) (inv : WorkspaceInvitation) (m : WorkspaceMember) : Store :=
  { s with members := s.members ++ [m], joined := s.joined ++ [(inv.id, m)] }

end Store

def tx {α : Type} (f : Faults) (body : Store → Store × Except String α) (s : Store) :
    Store × Except String α :=
  match body s with
  | (_, .error err) => (s, .error err)
  | (s', .ok a) =>
    match f.commit with
    | some err => (s, .error err)
    | none => (s', .ok a)

def containsAny (s chars : String) : Bool := s.toList.any (· ∈ chars.toList)

def validatePassword (password : String) : Option String :=
  if password.utf8ByteSize < 8 then some "password must be at least 8 characters"
  else if !containsAny password "ABCDEFGHIJKLMNOPQRSTUVWXYZ" then
    some "password must contain at least one uppercase letter"
  else if !containsAny password "abcdefghijklmnopqrstuvwxyz" then
    some "password must contain at least one lowercase letter"
  else if !containsAny password "0123456789" then
    some "password must contain at least one digit"
  else none

section

variable (cfg : Config) (e : Inputs)

def mayInvite (s : Store) (workspaceID inviterID : String) (role : WorkspaceRole) : Option String :=
  match query e.faults.user (s.users.get inviterID) with
  | none => some "inviter not found"
  | some inviter =>
    if inviter.platformAdmin then none
    else match s.getMembership e.faults workspaceID inviterID with
      | none => some "inviter is not a member of this workspace"
      | some m =>
        if getRoleWeight m.role < getRoleWeight .admin then some "only admins can invite members"
        else if getRoleWeight m.role < getRoleWeight role then
          some "cannot invite with a role higher than your own"
        else none

def newInvitation (workspaceID inviterID email : String) (role : WorkspaceRole) :
    WorkspaceInvitation where
  id := e.invitationID
  workspaceID := workspaceID
  inviterID := inviterID
  email := email
  role := role
  token := e.token
  status := .pending
  expiresAt := e.now + 7 * 24 * 3600 * 10 ^ 9

def create (workspaceID inviterID email : String) (role : WorkspaceRole) (s : Store) :
    Store × Except String WorkspaceInvitation :=
  match mayInvite e s workspaceID inviterID role with
  | some err => (s, .error err)
  | none =>
    match e.faults.pending with
    | some err => (s, .error err)
    | none =>
      if s.invitations.list.any fun inv =>
          inv.email = email ∧ inv.workspaceID = workspaceID ∧ inv.status = .pending then
        (s, .error "a pending invitation already exists for this email")
      else match e.faults.generateToken with
        | some err => (s, .error err)
        | none =>
          let inv := newInvitation e workspaceID inviterID email role
          match query e.faults.createInvitation (s.invitations.insert? inv) with
          | none => (s, .error (e.faults.createInvitation.getD "UNIQUE constraint failed"))
          | some t => ({ s with invitations := t }, .ok inv)

def openInvitation (token : String) (s : Store) : Store × Except String WorkspaceInvitation :=
  match query e.faults.getByToken (s.invitations.find token) with
  | none => (s, .error "invitation not found")
  | some inv =>
    if cfg.verify token = false then (s, .error "invalid invitation token")
    else if inv.status ≠ .pending then (s, .error "invitation is no longer pending")
    else if inv.expiresAt < e.now then
      ((s.updateStatus e.faults inv.id .expired).1, .error "invitation has expired")
    else (s, .ok inv)

def newMember (inv : WorkspaceInvitation) (userID : String) : WorkspaceMember where
  id := e.memberID
  workspaceID := inv.workspaceID
  userID := userID
  role := inv.role
  invitedBy := inv.inviterID
  joinedAt := e.now

def admitMember (inv : WorkspaceInvitation) (userID : String) (s : Store) :
    Store × Except String Unit :=
  match e.faults.addMember with
  | some err => (s, .error err)
  | none => (s.addMember inv (newMember e inv userID)).updateStatus e.faults inv.id .accepted

def acceptBody (token acceptorUserID : String) (s : Store) : Store × Except String Unit :=
  match openInvitation cfg e token s with
  | (s', .error err) => (s', .error err)
  | (s', .ok inv) =>
    match query e.faults.user (s'.users.get acceptorUserID) with
    | none => (s', .error "user not found")
    | some acceptor =>
      if cfg.equalFold acceptor.email inv.email = false then
        (s', .error ("this invitation was sent to " ++ inv.email ++
          ", but you are logged in as " ++ acceptor.email))
      else admitMember e inv acceptorUserID s'

def accept (token acceptorUserID : String) (s : Store) : Store × Except String Unit :=
  tx e.faults (acceptBody cfg e token acceptorUserID) s

def createUser (inv : WorkspaceInvitation) (username : String) (s : Store) :
    Store × Except String String :=
  match e.faults.getByEmail with
  | some err => (s, .error err)
  | none =>
    if s.users.toList.any fun u => u.2.email = inv.email then
      (s, .error "an account with this email already exists, please log in instead")
    else if e.faults.getByUsername.isNone && s.users.toList.any fun u => u.2.username = username then
      (s, .error "username already taken")
    else match e.faults.encrypt with
      | some err => (s, .error err)
      | none =>
        if e.faults.createUser.isSome || (s.users.get e.userID).isSome then
          (s, .error (e.faults.createUser.getD "UNIQUE constraint failed"))
        else
          ({ s with users := s.users.set e.userID ⟨e.userID, username, inv.email, e.hashed, false⟩ },
            .ok e.userID)

def registerBody (token username : String) (s : Store) : Store × Except String String :=
  match openInvitation cfg e token s with
  | (s', .error err) => (s', .error err)
  | (s', .ok inv) =>
    match createUser e inv username s' with
    | (s', .error err) => (s', .error err)
    | (s', .ok userID) =>
      match admitMember e inv userID s' with
      | (s', .error err) => (s', .error err)
      | (s', .ok _) =>
        match e.faults.jwt with
        | some err => (s', .error err)
        | none => (s', .ok e.jwt)

def registerAndAccept (token username password : String) (s : Store) :
    Store × Except String String :=
  match validatePassword password with
  | some err => (s, .error ("password: " ++ err))
  | none => tx e.faults (registerBody cfg e token username) s

def revoke (callerID invitationID : String) (s : Store) : Store × Except String Unit :=
  match query e.faults.findByID (s.invitations.get invitationID) with
  | none => (s, .error "invitation not found")
  | some inv =>
    match query e.faults.user (s.users.get callerID) with
    | none => (s, .error "caller not found")
    | some caller =>
      let member := s.getMembership e.faults inv.workspaceID callerID
      if caller.platformAdmin || inv.inviterID = callerID ||
          member.any fun m => getRoleWeight .admin ≤ getRoleWeight m.role then
        s.updateStatus e.faults invitationID .revoked
      else (s, .error ("permission denied: only the inviter or a workspace admin can revoke " ++
        "this invitation"))

end

inductive Op where
  | create (workspaceID inviterID email : String) (role : WorkspaceRole)
  | accept (token acceptorUserID : String)
  | registerAndAccept (token username password : String)
  | revoke (callerID invitationID : String)
  | others (users : GoMap String User) (members : List WorkspaceMember)

def Op.run (cfg : Config) (e : Inputs) (s : Store) : Op → Store
  | .create workspaceID inviterID email role =>
    (Invitations.create e workspaceID inviterID email role s).1
  | .accept token acceptorUserID => (Invitations.accept cfg e token acceptorUserID s).1
  | .registerAndAccept token username password =>
    (Invitations.registerAndAccept cfg e token username password s).1
  | .revoke callerID invitationID => (Invitations.revoke e callerID invitationID s).1
  | .others users members => { s with users := users, members := members }

def system (cfg : Config) : LTS Store (Op × Inputs) where
  init s := s.invitations = .empty ∧ s.joined = []
  step s l t := t = l.1.run cfg l.2 s

inductive Change (e : Inputs) (s : Store) (op : Op) (t : Store) : Prop
  | kept (h : t.invitations = s.invitations) (hjoined : t.joined = s.joined)
  | accepted {inv : WorkspaceInvitation} {m : WorkspaceMember} (hinv : inv ∈ s.invitations)
      (hpending : inv.status = .pending)
      (h : t.invitations = (s.setStatus inv.id .accepted).invitations)
      (hjoined : t.joined = s.joined ++ [(inv.id, m)])
  | revoked {callerID invitationID : String} (hop : op = .revoke callerID invitationID)
      (hok : (revoke e callerID invitationID s).2 = .ok ())
      (h : t.invitations = (s.setStatus invitationID .revoked).invitations)
      (hjoined : t.joined = s.joined)
  | created {inv : WorkspaceInvitation} (hpending : inv.status = .pending)
      (h : s.invitations.insert? inv = some t.invitations) (hjoined : t.joined = s.joined)

section

variable {cfg : Config} {e : Inputs} {s s' t : Store} {op : Op}

theorem tx_cases {α : Type} (f : Faults) (body : Store → Store × Except String α) (s : Store) :
    (tx f body s).1 = s ∨ ∃ a, body s = ((tx f body s).1, .ok a) := by
  unfold tx
  split
  · exact .inl rfl
  next s' a hbody =>
  cases f.commit with
  | some err => exact .inl rfl
  | none => exact .inr ⟨a, hbody⟩

variable {inv : WorkspaceInvitation}

theorem openInvitation_ok {token : String} (h : openInvitation cfg e token s = (s', .ok inv)) :
    s' = s ∧ inv ∈ s.invitations ∧ inv.status = .pending := by
  unfold openInvitation at h
  split at h
  · cases h
  next inv' hinv =>
  have hmem := (Table.find_eq_some_iff.1 (query_eq_some_iff.1 hinv).2).1
  split at h
  · cases h
  split at h
  · cases h
  next hpend =>
  split at h
  · cases h
  · cases h
    exact ⟨rfl, hmem, not_not.1 hpend⟩

theorem admit_ok {userID : String} (h : admitMember e inv userID s = (s', .ok ())) :
    s' = (s.addMember inv (newMember e inv userID)).setStatus inv.id .accepted := by
  unfold admitMember Store.updateStatus at h
  split at h
  · cases h
  split at h
  · cases h
  · cases h
    rfl

theorem createUser_ok {username userID : String}
    (h : createUser e inv username s = (s', .ok userID)) :
    s'.invitations = s.invitations ∧ s'.joined = s.joined := by
  unfold createUser at h
  (repeat' split at h) <;> cases h
  exact ⟨rfl, rfl⟩

theorem change_admit {m : WorkspaceMember} (hinv : inv ∈ s.invitations)
    (hpend : inv.status = .pending) (hsame : s'.invitations = s.invitations)
    (hjo : s'.joined = s.joined) :
    Change e s op ((s'.addMember inv m).setStatus inv.id .accepted) := by
  refine .accepted (m := m) hinv hpend ?_ ?_
  · unfold Store.setStatus Store.addMember
    simp only [hsame]
  · unfold Store.setStatus Store.addMember
    simp only [hjo]

theorem change_accept (token acceptorUserID : String) :
    Change e s op (accept cfg e token acceptorUserID s).1 := by
  unfold accept
  obtain hsame | ⟨a, hbody⟩ := tx_cases e.faults (acceptBody cfg e token acceptorUserID) s
  · rw [hsame]
    exact .kept rfl rfl
  generalize (tx e.faults (acceptBody cfg e token acceptorUserID) s).1 = t at hbody
  unfold acceptBody at hbody
  split at hbody
  · cases hbody
  next s' inv hopen =>
  obtain ⟨rfl, hinv, hpend⟩ := openInvitation_ok hopen
  split at hbody
  · cases hbody
  split at hbody
  · cases hbody
  · rw [admit_ok hbody]
    exact change_admit hinv hpend rfl rfl

theorem change_registerAndAccept (token username password : String) :
    Change e s op (registerAndAccept cfg e token username password s).1 := by
  unfold registerAndAccept
  split
  · exact .kept rfl rfl
  obtain hsame | ⟨a, hbody⟩ := tx_cases e.faults (registerBody cfg e token username) s
  · rw [hsame]
    exact .kept rfl rfl
  generalize (tx e.faults (registerBody cfg e token username) s).1 = t at hbody
  unfold registerBody at hbody
  split at hbody
  · cases hbody
  next s' inv hopen =>
  obtain ⟨rfl, hinv, hpend⟩ := openInvitation_ok hopen
  split at hbody
  · cases hbody
  next u userID hcre =>
  obtain ⟨hsame, hjo⟩ := createUser_ok hcre
  split at hbody
  · cases hbody
  next v _ hadm =>
  split at hbody
  · cases hbody
  cases hbody
  rw [admit_ok hadm]
  exact change_admit hinv hpend hsame hjo

theorem revoke_cases (e : Inputs) (callerID invitationID : String) (s : Store) :
    (∃ err, revoke e callerID invitationID s = (s, .error err)) ∨
      revoke e callerID invitationID s = (s.setStatus invitationID .revoked, .ok ()) := by
  unfold revoke
  split
  · exact .inl ⟨_, rfl⟩
  split
  · exact .inl ⟨_, rfl⟩
  dsimp only
  split
  · unfold Store.updateStatus
    split
    · exact .inl ⟨_, rfl⟩
    · exact .inr rfl
  · exact .inl ⟨_, rfl⟩

theorem change_revoke (callerID invitationID : String) :
    Change e s (.revoke callerID invitationID) (revoke e callerID invitationID s).1 := by
  obtain ⟨err, herr⟩ | hok := revoke_cases e callerID invitationID s
  · rw [herr]
    exact .kept rfl rfl
  · refine .revoked rfl ?_ ?_ ?_ <;> rw [hok]
    rfl

theorem change_create (workspaceID inviterID email : String) (role : WorkspaceRole) :
    Change e s op (create e workspaceID inviterID email role s).1 := by
  unfold create
  split
  · exact .kept rfl rfl
  split
  · exact .kept rfl rfl
  split
  · exact .kept rfl rfl
  split
  · exact .kept rfl rfl
  dsimp only
  split
  · exact .kept rfl rfl
  · next t ht => exact .created rfl (query_eq_some_iff.1 ht).2 rfl

theorem change_run (cfg : Config) (e : Inputs) (s : Store) (op : Op) :
    Change e s op (op.run cfg e s) := by
  cases op with
  | create workspaceID inviterID email role => exact change_create ..
  | accept token acceptorUserID => exact change_accept ..
  | registerAndAccept token username password => exact change_registerAndAccept ..
  | revoke callerID invitationID => exact change_revoke ..
  | others users members => exact .kept rfl rfl

theorem get_setStatus (s : Store) (id j : String) (status : Status) :
    (s.setStatus id status).invitations.get j =
      if j = id then (s.invitations.get id).map fun inv => { inv with status := status }
      else s.invitations.get j :=
  Table.get_modify s.invitations id j (fun inv => { inv with status := status }) (fun _ => rfl)
    fun _ => rfl

end

def Open (id : String) (s : Store) : Prop :=
  ∀ inv, s.invitations.get id = some inv → inv.status = .pending

theorem joined_le_one {cfg : Config} {s : Store} (h : (system cfg).Reachable s) (id : String) :
    s.joined.countP (fun j => j.1 = id) ≤ 1 := by
  refine (LTS.Reachable.once (fun s => s.joined.countP fun j => j.1 = id) (Open id) ?_ ?_ h).1
  · rintro s ⟨-, hjo⟩
    rw [hjo]
    rfl
  rintro s ⟨op, e⟩ t - rfl
  cases change_run cfg e s op with
  | kept h hjo =>
    refine .inl ⟨by rw [hjo], fun hopen inv hinv => hopen inv ?_⟩
    rw [h]
    exact hinv
  | @accepted inv m hinv hpend h hjo =>
    by_cases hid : inv.id = id
    · subst hid
      refine .inr ⟨?_, fun inv' hinv' => ?_, fun hopen => ?_⟩
      · rw [hjo]
        simp
      · rw [Table.mem_iff] at hinv
        rw [← Option.some.inj (hinv.symm.trans hinv')]
        exact hpend
      have hacc := hopen { inv with status := .accepted } (by
        rw [h, get_setStatus, if_pos rfl, Table.mem_iff.1 hinv]
        rfl)
      cases hacc
    refine .inl ⟨?_, fun hopen inv' hinv' => hopen inv' ?_⟩
    · rw [hjo]
      simp [hid]
    · rw [h, get_setStatus, if_neg (Ne.symm hid)]
      exact hinv'
  | @revoked callerID invitationID hop hok h hjo =>
    refine .inl ⟨by rw [hjo], fun hopen inv hinv => ?_⟩
    by_cases hid : id = invitationID
    · subst hid
      have hrev := hopen { inv with status := .revoked } (by
        rw [h, get_setStatus, if_pos rfl, hinv]
        rfl)
      cases hrev
    refine hopen inv ?_
    rw [h, get_setStatus, if_neg hid]
    exact hinv
  | @created inv hpend h hjo =>
    refine .inl ⟨by rw [hjo], fun hopen inv' hinv' => hopen inv' ?_⟩
    obtain ⟨hput, hnone⟩ := Table.put?_of_insert? h
    have hne : id ≠ inv.id := by
      rintro rfl
      rw [hnone] at hinv'
      cases hinv'
    rw [Table.get_put? hput, if_neg hne]
    exact hinv'

def Op.attempts : Op → Option String
  | .accept token _ => some token
  | .registerAndAccept token _ password => if (validatePassword password).isNone then some token
    else none
  | _ => none

def Overdue (cfg : Config) (e : Inputs) (s : Store) (op : Op) (inv : WorkspaceInvitation) : Prop :=
  op.attempts = some inv.token ∧
    query e.faults.getByToken (s.invitations.find inv.token) = some inv ∧
    cfg.verify inv.token = true ∧ inv.status = .pending ∧ inv.expiresAt < e.now

def Store.status (s : Store) (id : String) : Option Status :=
  (s.invitations.get id).map WorkspaceInvitation.status

structure Lifecycle (cfg : Config) (e : Inputs) (s : Store) (op : Op) (t : Store) : Prop where
  final : ∀ id status, s.status id = some status → status ≠ .pending → t.status id = some status
  expired : ∀ inv, Overdue cfg e s op inv → t.status inv.id = some .expired

structure Regular (cfg : Config) (e : Inputs) (s : Store) (op : Op) : Prop where
  inTime : ∀ inv, ¬ Overdue cfg e s op inv
  pending : ∀ callerID id status, op = .revoke callerID id → (revoke e callerID id s).2 = .ok () →
    s.status id = some status → status = .pending ∨ status = .revoked

section

variable {cfg : Config} {e : Inputs} {s : Store} {op : Op}

theorem status_setStatus (s : Store) (id j : String) (status : Status) :
    (s.setStatus id status).status j =
      if j = id then (s.status id).map fun _ => status else s.status j := by
  unfold Store.status
  rw [get_setStatus]
  split
  · rw [Option.map_map, Option.map_map]
    rfl
  · rfl

theorem overdue_run {inv : WorkspaceInvitation} (h : Overdue cfg e s op inv) :
    op.run cfg e s = s := by
  obtain ⟨hatt, hfind, hver, hpend, hlate⟩ := h
  have hopen : ∃ s', openInvitation cfg e inv.token s = (s', .error "invitation has expired") := by
    unfold openInvitation
    rw [hfind]
    simp [hver, hpend, hlate]
  obtain ⟨s', hopen⟩ := hopen
  cases op with
  | accept token acceptorUserID =>
    obtain rfl : token = inv.token := Option.some.inj hatt
    show (accept cfg e inv.token acceptorUserID s).1 = s
    unfold accept tx acceptBody
    rw [hopen]
  | registerAndAccept token username password =>
    simp only [Op.attempts] at hatt
    split at hatt
    · next hpas =>
      obtain rfl : token = inv.token := Option.some.inj hatt
      show (registerAndAccept cfg e inv.token username password s).1 = s
      unfold registerAndAccept
      rw [Option.isNone_iff_eq_none.1 hpas]
      unfold tx registerBody
      rw [hopen]
    · cases hatt
  | _ => cases hatt

theorem final_run_iff :
    (∀ id status, s.status id = some status → status ≠ .pending →
      (op.run cfg e s).status id = some status) ↔
    ∀ callerID id status, op = .revoke callerID id → (revoke e callerID id s).2 = .ok () →
      s.status id = some status → status = .pending ∨ status = .revoked := by
  constructor
  · rintro hfin callerID id status rfl hok hst
    by_contra hne
    rw [not_or] at hne
    have hkept := hfin id status hst hne.1
    have haft : Op.run cfg e s (.revoke callerID id) = s.setStatus id .revoked := by
      obtain ⟨err, herr⟩ | hrev := revoke_cases e callerID id s
      · rw [herr] at hok
        cases hok
      · exact congrArg Prod.fst hrev
    rw [haft, status_setStatus, if_pos rfl, hst] at hkept
    exact hne.2 (Option.some.inj hkept).symm
  intro hreg id status hst hne
  have hsame : ∀ {t : Store}, t.invitations = s.invitations → t.status id = some status := by
    intro t h
    unfold Store.status
    rw [h]
    exact hst
  have hset : ∀ {t : Store} {id' : String} {new : Status},
      t.invitations = (s.setStatus id' new).invitations → (id = id' → status = new) →
        t.status id = some status := by
    intro t id' new h hid
    have haft : t.status id = (s.setStatus id' new).status id :=
      congrArg (fun p => (p.get id).map WorkspaceInvitation.status) h
    rw [haft, status_setStatus]
    split
    · next heq =>
      rw [← heq, hst, hid heq]
      rfl
    · exact hst
  cases change_run cfg e s op with
  | kept h hjo => exact hsame h
  | @accepted inv m hinv hpend h hjo =>
    refine hset h fun hid => absurd ?_ hne
    subst hid
    unfold Store.status at hst
    rw [Table.mem_iff.1 hinv] at hst
    exact (Option.some.inj hst).symm.trans hpend
  | revoked hop hok h hjo =>
    refine hset h fun hid => ?_
    exact (hreg _ _ status hop hok (hid ▸ hst)).resolve_left hne
  | @created inv hpend h hjo =>
    obtain ⟨hput, hnone⟩ := Table.put?_of_insert? h
    have hid : id ≠ inv.id := by
      rintro rfl
      unfold Store.status at hst
      rw [hnone] at hst
      cases hst
    unfold Store.status
    rw [Table.get_put? hput, if_neg hid]
    exact hst

/-- **The lifecycle.** No invitation adds two members, and a call does what it should exactly if it
is `Regular`. -/
theorem invitation_lifecycle (h : (system cfg).Reachable s) :
    (∀ id, s.joined.countP (fun j => j.1 = id) ≤ 1) ∧
      ∀ op e, Lifecycle cfg e s op (op.run cfg e s) ↔ Regular cfg e s op := by
  refine ⟨joined_le_one h, fun op e => ⟨fun hlife => ?_, fun hreg => ?_⟩⟩
  · refine ⟨fun inv hove => ?_, final_run_iff.1 hlife.final⟩
    have hexp := hlife.expired inv hove
    have ⟨_, hfind, _, hpend, _⟩ := hove
    have hinv := Table.mem_iff.1 (Table.find_eq_some_iff.1 (query_eq_some_iff.1 hfind).2).1
    rw [overdue_run hove] at hexp
    unfold Store.status at hexp
    rw [hinv, Option.map_some, hpend] at hexp
    cases hexp
  · exact ⟨final_run_iff.2 hreg.pending,
      fun inv hove => absurd hove (hreg.inTime inv)⟩

end

def lenient : Config := ⟨fun _ => true, fun a b => a == b⟩

def accounts : GoMap String User :=
  (GoMap.empty.set "u0" ⟨"u0", "owner", "owner@ws", "", true⟩).set "u1"
    ⟨"u1", "guest", "guest@ws", "", false⟩

def invite : Op × Inputs :=
  (.create "ws" "u0" "guest@ws" .member, { now := 0, invitationID := "i1", token := "t1" })

def acceptAt (now : Time) : Op × Inputs := (.accept "t1" "u1", { now := now, memberID := "m1" })

def revokeAt (now : Time) : Op × Inputs := (.revoke "u0" "i1", { now := now })

def runAll (calls : List (Op × Inputs)) : Store :=
  calls.foldl (fun s l => l.1.run lenient l.2 s) { users := accounts }

theorem runAll_reachable (calls : List (Op × Inputs)) :
    (system lenient).Reachable (runAll calls) := by
  induction calls using List.reverseRecOn with
  | nil => exact .init ⟨rfl, rfl⟩
  | append_singleton calls l ih =>
    unfold runAll
    rw [List.foldl_concat]
    exact ih.step (l := l) rfl

theorem accepted_in_time : (runAll [invite, acceptAt 5]).status "i1" = some .accepted ∧
    (runAll [invite, acceptAt 5]).joined.countP (fun j => j.1 = "i1") ≤ 1 ∧
    Lifecycle lenient (acceptAt 9).2 (runAll [invite, acceptAt 5]) (acceptAt 9).1
      (runAll [invite, acceptAt 5, acceptAt 9]) := by
  obtain ⟨hjo, hiff⟩ := invitation_lifecycle (runAll_reachable [invite, acceptAt 5])
  refine ⟨by decide +kernel, hjo "i1", (hiff _ _).2 ⟨?_, ?_⟩⟩
  · rintro inv ⟨hatt, hfind, -, hpend, -⟩
    have hnone : ∀ inv, (runAll [invite, acceptAt 5]).invitations.find "t1" = some inv →
        inv.status = .accepted := by
      intro inv hinv
      have hst : ((runAll [invite, acceptAt 5]).invitations.find "t1").map
          WorkspaceInvitation.status = some .accepted := by decide +kernel
      rw [hinv] at hst
      exact Option.some.inj hst
    rw [← Option.some.inj hatt] at hfind
    rw [hnone inv (query_eq_some_iff.1 hfind).2] at hpend
    cases hpend
  · rintro callerID id status ⟨⟩

theorem accepted_not_final :
    (∃ s, (system lenient).Reachable s ∧ s.status "i1" = some .accepted ∧
      ((revokeAt 9).1.run lenient (revokeAt 9).2 s).status "i1" = some .revoked ∧
      ¬ Lifecycle lenient (revokeAt 9).2 s (revokeAt 9).1
        ((revokeAt 9).1.run lenient (revokeAt 9).2 s)) ∧
    ∃ s late inv, (system lenient).Reachable s ∧
      Overdue lenient (acceptAt late).2 s (acceptAt late).1 inv ∧
      ((acceptAt late).1.run lenient (acceptAt late).2 s).status inv.id = some .pending ∧
      ¬ Lifecycle lenient (acceptAt late).2 s (acceptAt late).1
        ((acceptAt late).1.run lenient (acceptAt late).2 s) := by
  have hacc : (runAll [invite, acceptAt 5]).status "i1" = some .accepted := by decide +kernel
  have hrev : ((revokeAt 9).1.run lenient (revokeAt 9).2 (runAll [invite, acceptAt 5])).status
      "i1" = some .revoked := by decide +kernel
  have hove : Overdue lenient (acceptAt (8 * 24 * 3600 * 10 ^ 9)).2 (runAll [invite])
      (acceptAt (8 * 24 * 3600 * 10 ^ 9)).1
      (newInvitation invite.2 "ws" "u0" "guest@ws" .member) := by
    refine ⟨rfl, ?_, rfl, rfl, ?_⟩ <;> decide +kernel
  have hpend : ((acceptAt (8 * 24 * 3600 * 10 ^ 9)).1.run lenient
      (acceptAt (8 * 24 * 3600 * 10 ^ 9)).2 (runAll [invite])).status "i1" = some .pending := by
    decide +kernel
  refine ⟨⟨_, runAll_reachable [invite, acceptAt 5], hacc, hrev, fun hlife => ?_⟩, _, _, _,
    runAll_reachable [invite], hove, hpend, fun hlife => ?_⟩
  · have hkept := hlife.final "i1" _ hacc (by decide)
    rw [hrev] at hkept
    cases hkept
  have hexp : _ = some Status.expired := hlife.expired _ hove
  rw [show (newInvitation invite.2 "ws" "u0" "guest@ws" .member).id = "i1" from rfl, hpend]
    at hexp
  cases hexp

end LatticeMesh.Invitations
