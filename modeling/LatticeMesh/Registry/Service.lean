import LatticeMesh.Lib.Text
import LatticeMesh.Registry.Store

/-! # What the calls of the peer service compute -/

namespace LatticeMesh.Registry

structure PeerDto where
  name : String
  appID : String
  token : String
  publicKey : String
  endpoint : String
  hostname : String
  platform : String
  displayName : String
  labels : Option (GoMap String String)

inductive Refusal where
  | tokenEmpty
  | tokenNotExists
  | tokenExpired
  | otherWorkspace (appID : String)
  | nodeLimit (count limit : ℕ)
  | usageLimit (limit : Int)
  | exhausted
  | keyOmitted (appID : String)
  | invalidKey (cause : String)
  | keyMismatch (appID : String)
  | invalidStatus (status : ApprovalStatus)
  | workspaceNotFound
  | peerNotFound (name : String)
  | invalidCIDR (route cause : String)

structure Config where
  dialect : Dialect
  maxNodes : Option ℕ
  keyError : String → Option String
  cidrError : String → Option String
  marshalLabels : GoMap String String → String
  marshalRoutes : List String → String

def appIDSafe (c : Char) : Bool := c.isAlphanum || c == '.' || c == '_' || c == '-'

def collapseUnsafe (inRun : Bool) : List Char → List Char
  | [] => []
  | c :: cs =>
    if appIDSafe c then c :: collapseUnsafe false cs
    else if inRun then collapseUnsafe true cs
    else '-' :: collapseUnsafe true cs

def normalizeAppID (id : String) : String :=
  String.ofList (collapseUnsafe false (Text.trimSpace id).toList)

def overlayCIDRBase : String := "10.96.0."

def candidates : List String := (List.range 253).map fun i => overlayCIDRBase ++ toString (i + 2)

def allocateAddress (taken : List String) : Except Refusal String :=
  match candidates.find? fun a => a ∉ taken with
  | some address => .ok address
  | none => .error .exhausted

theorem allocateAddress_free {taken : List String} {address : String}
    (h : allocateAddress taken = .ok address) : address ∉ taken := by
  unfold allocateAddress at h
  split at h
  · next a hfind =>
    cases h
    simpa using List.find?_some hfind
  · cases h

theorem allocateAddress_nil : allocateAddress [] = .ok "10.96.0.2" := by
  have hfind : (candidates.find? fun a => a ∉ ([] : List String)) = some "10.96.0.2" := by
    decide +kernel
  unfold allocateAddress
  rw [hfind]

inductive Caller where
  | registration
  | update
  | routes
  | approval (status : ApprovalStatus)
  | disabling (disabled : Bool)

def Caller.administrative : Caller → Bool
  | registration | update | routes => false
  | approval _ | disabling _ => true

def PeerRow.standing (r : PeerRow) : ApprovalStatus × Bool := (r.approvalStatus, r.disabled)

def Caller.Decides : Caller → PeerRow → Prop
  | .approval status, row => row.approvalStatus = status ∧ (status = .revoked → row.disabled = true)
  | .disabling disabled, row => row.disabled = disabled
  | _, _ => True

def AddressFrom (taken : Option (List String)) (before after : String) : Prop :=
  match taken with
  | none => after = before
  | some addresses => allocateAddress addresses = .ok after

structure Write where
  caller : Caller
  read : PeerRow
  row : PeerRow
  taken : Option (List String)
  id_eq : row.id = read.id
  workspaceID_eq : row.workspaceID = read.workspaceID
  standing_eq : caller.administrative = false → row.standing = read.standing
  decides : caller.Decides row
  address : AddressFrom taken read.address row.address

def TokenRow.HasUses (tok : TokenRow) : Prop := 0 < tok.usageLimit → tok.usedCount < tok.usageLimit

instance (tok : TokenRow) : Decidable tok.HasUses := inferInstanceAs (Decidable (_ → _))

structure Enrollment where
  started : Time
  tok : TokenRow
  row : PeerRow
  hasUses : tok.HasUses
  taken : Option (List String)
  workspaceID_eq : row.workspaceID = tok.workspaceID
  address : AddressFrom taken "" row.address

section

variable (cfg : Config) (dto : PeerDto)

def resumesOwnPeer (existing : Option PeerRow) : Bool :=
  existing.any fun r => r.token ≠ "" && r.token == dto.token

def orElse (a b : String) : String := if a = "" then b else a

def newPeer (tok : TokenRow) (approvalStatus : ApprovalStatus) (address : String) : PeerRow where
  id := ""
  workspaceID := tok.workspaceID
  name := orElse dto.name dto.appID
  appID := dto.appID
  token := dto.token
  publicKey := ""
  privateKey := ""
  address := address
  endpoint := ""
  hostname := ""
  platform := ""
  labels := ""
  advertisedRoutes := ""
  approvalStatus := approvalStatus
  approvedAt := none
  disabled := false
  lastSeenAt := none
  description := ""

def keysFor (generated : String × String) (peer : PeerRow) : Except Refusal (String × String) :=
  if dto.publicKey = "" then
    if peer.privateKey ≠ "" then .ok (peer.publicKey, peer.privateKey)
    else if peer.publicKey ≠ "" then .error (.keyOmitted peer.appID)
    else .ok generated
  else
    match cfg.keyError dto.publicKey with
    | some cause => .error (.invalidKey cause)
    | none =>
      if peer.publicKey ≠ "" ∧ peer.publicKey ≠ dto.publicKey ∧ peer.privateKey = "" then
        .error (.keyMismatch peer.appID)
      else .ok (dto.publicKey, "")

def registered (keys : String × String) (now : Time) (peer : PeerRow) : PeerRow :=
  { peer with
    publicKey := keys.1
    privateKey := keys.2
    endpoint := dto.endpoint
    hostname := dto.hostname
    platform := dto.platform
    name := if peer.name = "" then orElse dto.name dto.appID else peer.name
    lastSeenAt := some now }

def resume (generated : String × String) (now : Time) (existing : PeerRow) : Except Refusal Write :=
  (keysFor cfg dto generated existing).map fun keys =>
    { caller := .registration
      read := existing
      row := registered dto keys now existing
      taken := none
      id_eq := rfl
      workspaceID_eq := rfl
      standing_eq := fun _ => rfl
      decides := trivial
      address := rfl }

def enrollPending (generated : String × String) (started now : Time) (tok : TokenRow)
    (hasUses : tok.HasUses) : Except Refusal Enrollment :=
  (keysFor cfg dto generated (newPeer dto tok .pending "")).map fun keys =>
    { started := started
      tok := tok
      row := registered dto keys now (newPeer dto tok .pending "")
      hasUses := hasUses
      taken := none
      workspaceID_eq := rfl
      address := rfl }

def enrollApproved (generated : String × String) (started now : Time) (tok : TokenRow)
    (hasUses : tok.HasUses) (rows : List PeerRow) : Except Refusal Enrollment :=
  match h : allocateAddress (rows.map PeerRow.address) with
  | .error e => .error e
  | .ok address => (keysFor cfg dto generated (newPeer dto tok .approved address)).map fun keys =>
    { started := started
      tok := tok
      row := registered dto keys now (newPeer dto tok .approved address)
      hasUses := hasUses
      taken := some (rows.map PeerRow.address)
      workspaceID_eq := rfl
      address := h }

end

def findByName (rows : List PeerRow) (name : String) : Except Refusal PeerRow :=
  match rows.find? fun r => r.name = name with
  | some r => .ok r
  | none => .error (.peerNotFound name)

def revoke (now : Time) (peer : PeerRow) : Write where
  caller := .approval .revoked
  read := peer
  row := { peer with disabled := true, approvalStatus := .revoked, approvedAt := some now }
  taken := none
  id_eq := rfl
  workspaceID_eq := rfl
  standing_eq := nofun
  decides := ⟨rfl, fun _ => rfl⟩
  address := rfl

def approve (now : Time) (peer : PeerRow) (taken : Option (List String)) (address : String)
    (h : AddressFrom taken peer.address address) : Write where
  caller := .approval .approved
  read := peer
  row := { peer with
    disabled := if peer.approvalStatus = .revoked then false else peer.disabled
    approvalStatus := .approved
    approvedAt := some now
    address := address }
  taken := taken
  id_eq := rfl
  workspaceID_eq := rfl
  standing_eq := nofun
  decides := ⟨rfl, nofun⟩
  address := h

def approveFrom (now : Time) (rows : List PeerRow) (peer : PeerRow) : Except Refusal Write :=
  if peer.address ≠ "" then .ok (approve now peer none peer.address rfl)
  else match h : allocateAddress (rows.map PeerRow.address) with
    | .error e => .error e
    | .ok address => .ok (approve now peer (some (rows.map PeerRow.address)) address h)

def setPeerApproval (now : Time) (rows : List PeerRow) (name : String) :
    ApprovalStatus → Except Refusal Write
  | .revoked => (findByName rows name).map (revoke now)
  | .approved => (findByName rows name).bind (approveFrom now rows)
  | status => .error (.invalidStatus status)

def setDisabled (disabled : Bool) (peer : PeerRow) : Write where
  caller := .disabling disabled
  read := peer
  row := { peer with disabled := disabled }
  taken := none
  id_eq := rfl
  workspaceID_eq := rfl
  standing_eq := nofun
  decides := rfl
  address := rfl

def nonEmpty (labels : GoMap String String) : GoMap String String :=
  labels.toList.foldl (fun m e => if e.2 = "" then m else m.set e.1 e.2) .empty

def update (cfg : Config) (dto : PeerDto) (peer : PeerRow) : Write where
  caller := .update
  read := peer
  row := { peer with
    description := if dto.displayName = "" then peer.description else dto.displayName
    labels := match dto.labels with
      | none => peer.labels
      | some labels => cfg.marshalLabels (nonEmpty labels)
    endpoint := dto.endpoint }
  taken := none
  id_eq := rfl
  workspaceID_eq := rfl
  standing_eq := fun _ => rfl
  decides := trivial
  address := rfl

def setRoutes (cfg : Config) (routes : List String) (peer : PeerRow) : Write where
  caller := .routes
  read := peer
  row := { peer with advertisedRoutes := if routes = [] then "" else cfg.marshalRoutes routes }
  taken := none
  id_eq := rfl
  workspaceID_eq := rfl
  standing_eq := fun _ => rfl
  decides := trivial
  address := rfl

def invalidRoute (cfg : Config) (routes : List String) : Option Refusal :=
  routes.findSome? fun route => (cfg.cidrError route).map (.invalidCIDR route)

theorem map_ok {α β : Type} {x : Except Refusal α} {f : α → β} {b : β} (h : x.map f = .ok b) :
    ∃ a, x = .ok a ∧ f a = b := by
  cases x with
  | error e => cases h
  | ok a => exact ⟨a, rfl, Except.ok.inj h⟩

variable {name : String} {rows : List PeerRow} {status : ApprovalStatus}

theorem findByName_mem {r : PeerRow} (h : findByName rows name = .ok r) : r ∈ rows := by
  unfold findByName at h
  split at h
  · next r' hfind =>
    cases h
    exact List.mem_of_find?_eq_some hfind
  · cases h

theorem findByName_name {r : PeerRow} (h : findByName rows name = .ok r) : r.name = name := by
  unfold findByName at h
  split at h
  · next r' hfind =>
    cases h
    simpa using List.find?_some hfind
  · cases h

theorem resume_read {cfg : Config} {dto : PeerDto} {generated : String × String} {now : Time}
    {existing : PeerRow} {w : Write} (h : resume cfg dto generated now existing = .ok w) :
    w.read = existing := by
  obtain ⟨keys, -, rfl⟩ := map_ok h
  rfl

theorem keysFor_newPeer {cfg : Config} {dto : PeerDto} {generated : String × String}
    {tok : TokenRow} {address : String} (hkey : dto.publicKey ≠ "")
    (hval : cfg.keyError dto.publicKey = none) :
    keysFor cfg dto generated (newPeer dto tok status address) = .ok (dto.publicKey, "") := by
  unfold keysFor
  rw [if_neg hkey, hval]
  exact if_neg fun h => h.1 rfl

theorem exists_enrollApproved {cfg : Config} {dto : PeerDto} {generated keys : String × String}
    (started now : Time) {tok : TokenRow} (hasUses : tok.HasUses) {rows : List PeerRow}
    {address : String} (ha : allocateAddress (rows.map PeerRow.address) = .ok address)
    (hk : keysFor cfg dto generated (newPeer dto tok .approved address) = .ok keys) :
    ∃ e, enrollApproved cfg dto generated started now tok hasUses rows = .ok e ∧ e.tok = tok ∧
      e.row = registered dto keys now (newPeer dto tok .approved address) := by
  unfold enrollApproved
  split
  · next h =>
    rw [h] at ha
    cases ha
  next a h =>
  rw [h] at ha
  cases ha
  rw [hk]
  exact ⟨_, rfl, rfl, rfl⟩

theorem setPeerApproval_ok {now : Time} {w : Write}
    (h : setPeerApproval now rows name status = .ok w) :
    ∃ peer, findByName rows name = .ok peer ∧
      ((status = .revoked ∧ w = revoke now peer) ∨
        (status = .approved ∧ ∃ taken address hadr,
          w = approve now peer taken address hadr)) := by
  cases status with
  | unset | pending => cases h
  | revoked =>
    obtain ⟨peer, hpeer, rfl⟩ := map_ok h
    exact ⟨peer, hpeer, .inl ⟨rfl, rfl⟩⟩
  | approved =>
    unfold setPeerApproval at h
    cases hpeer : findByName rows name with
    | error e =>
      rw [hpeer] at h
      cases h
    | ok peer =>
      rw [hpeer] at h
      change approveFrom now rows peer = .ok w at h
      refine ⟨peer, rfl, .inr ⟨rfl, ?_⟩⟩
      unfold approveFrom at h
      split at h
      · cases h
        exact ⟨_, _, _, rfl⟩
      split at h
      · cases h
      · cases h
        exact ⟨_, _, _, rfl⟩

theorem setPeerApproval_read {now : Time} {w : Write}
    (h : setPeerApproval now rows name status = .ok w) :
    w.read ∈ rows := by
  obtain ⟨peer, hpeer, ⟨-, rfl⟩ | ⟨-, _, _, _, rfl⟩⟩ := setPeerApproval_ok h
  · exact findByName_mem hpeer
  · exact findByName_mem hpeer

end LatticeMesh.Registry
