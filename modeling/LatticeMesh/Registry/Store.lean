import Mathlib.Data.List.MinMax
import Mathlib.Data.String.Basic
import LatticeMesh.Lib.GoMap

/-! # The tables of the registry -/

namespace LatticeMesh.Registry

open List Option GoMap

abbrev Time := Int

inductive ApprovalStatus where
  | unset
  | approved
  | pending
  | revoked
  deriving DecidableEq

structure PeerRow where
  id : String
  workspaceID : String
  name : String
  appID : String
  token : String
  publicKey : String
  privateKey : String
  address : String
  endpoint : String
  hostname : String
  platform : String
  labels : String
  advertisedRoutes : String
  approvalStatus : ApprovalStatus
  approvedAt : Option Time
  disabled : Bool
  lastSeenAt : Option Time
  description : String
  deriving DecidableEq

structure TokenRow where
  id : String
  token : String
  workspaceID : String
  expiresAt : Time
  usageLimit : Int
  usedCount : Int
  deleted : Bool
  deriving DecidableEq

structure WorkspaceRow where
  id : String
  ns : String
  requirePeerApproval : Bool

structure PeerTable where
  rows : GoMap String PeerRow
  keyed : ∀ id r, rows.get id = some r → r.id = id
  unique : ∀ r r', rows.get r.id = some r → rows.get r'.id = some r' →
    r.workspaceID = r'.workspaceID → r.name = r'.name → r.id = r'.id

structure TokenTable where
  rows : GoMap String TokenRow
  keyed : ∀ id r, rows.get id = some r → r.id = id
  unique : ∀ r r', rows.get r.id = some r → rows.get r'.id = some r' → r.token = r'.token →
    r.id = r'.id

inductive Dialect where
  | sqlite
  | mysql

namespace PeerTable

def empty : PeerTable where
  rows := .empty
  keyed := fun _ _ h => nomatch h
  unique := fun _ _ h => nomatch h

def get (t : PeerTable) (id : String) : Option PeerRow := t.rows.get id

instance : Membership PeerRow PeerTable := ⟨fun t r => t.get r.id = some r⟩

def list (t : PeerTable) : List PeerRow := t.rows.toList.map Prod.snd

def Lists (t : PeerTable) (workspaceID : String) (rows : List PeerRow) : Prop :=
  rows.Perm (t.list.filter fun r => r.workspaceID = workspaceID)

def getByAppID (t : PeerTable) (appID : String) : Option PeerRow :=
  (t.list.filter fun r => r.appID = appID).argmin PeerRow.id

def Free (t : PeerTable) (r : PeerRow) : Prop :=
  ∀ r' ∈ t.list, r'.workspaceID = r.workspaceID → r'.name = r.name → r'.id = r.id

instance (t : PeerTable) (r : PeerRow) : Decidable (t.Free r) :=
  inferInstanceAs (Decidable (∀ r' ∈ t.list, _))

variable {t : PeerTable} {r : PeerRow}

theorem mem_iff : r ∈ t ↔ t.get r.id = some r := Iff.rfl

theorem not_mem_empty (r : PeerRow) : r ∉ empty := by
  intro h
  cases h

theorem mem_of_get {id : String} (h : t.get id = some r) : r ∈ t := by
  rw [mem_iff, t.keyed id r h]
  exact h

theorem mem_list : r ∈ t.list ↔ r ∈ t := by
  unfold list
  rw [List.mem_map]
  constructor
  · rintro ⟨⟨id, r'⟩, hmem, rfl⟩
    exact mem_of_get (GoMap.mem_toList.1 hmem)
  · intro h
    exact ⟨(r.id, r), GoMap.mem_toList.2 h, rfl⟩

theorem Lists.mem_iff {workspaceID : String} {rows : List PeerRow} (h : t.Lists workspaceID rows) :
    r ∈ rows ↔ r ∈ t ∧ r.workspaceID = workspaceID := by
  rw [List.Perm.mem_iff h, mem_filter, mem_list, decide_eq_true_iff]

variable {appID : String}

theorem getByAppID_mem (h : t.getByAppID appID = some r) :
    r ∈ t ∧ r.appID = appID := by
  have hmem := argmin_mem (mem_def.2 h)
  rw [mem_filter, mem_list, decide_eq_true_iff] at hmem
  exact hmem

theorem nodup_list (t : PeerTable) : t.list.Nodup := by
  refine List.Nodup.map_on ?_ t.rows.nodup_toList
  rintro ⟨id, r⟩ hr ⟨id', r'⟩ hr' rfl
  rw [← t.keyed id r (GoMap.mem_toList.1 hr), ← t.keyed id' r (GoMap.mem_toList.1 hr')]

variable {t' : PeerTable}

theorem lists_congr {workspaceID : String} (h : ∀ r, r.workspaceID = workspaceID → (r ∈ t ↔ r ∈ t'))
    (rows : List PeerRow) :
    t.Lists workspaceID rows ↔ t'.Lists workspaceID rows := by
  have hperm : (t.list.filter fun r => r.workspaceID = workspaceID).Perm
      (t'.list.filter fun r => r.workspaceID = workspaceID) := by
    rw [perm_ext_iff_of_nodup (t.nodup_list.filter _) (t'.nodup_list.filter _)]
    intro r
    simp only [mem_filter, mem_list, decide_eq_true_eq, and_congr_left_iff]
    exact h r
  exact ⟨fun hrows => List.Perm.trans hrows hperm, fun hrows => List.Perm.trans hrows hperm.symm⟩

theorem getByAppID_eq_some_iff : t.getByAppID appID = some r ↔
    r ∈ t ∧ r.appID = appID ∧ ∀ r' ∈ t, r'.appID = appID → r.id ≤ r'.id := by
  unfold getByAppID
  rw [← mem_def, mem_argmin_iff]
  simp only [mem_filter, mem_list, decide_eq_true_eq, and_imp, and_assoc]
  constructor
  · rintro ⟨hr, happ, hmin, -⟩
    exact ⟨hr, happ, hmin⟩
  rintro ⟨hr, happ, hmin⟩
  refine ⟨hr, happ, hmin, ?_⟩
  intro r' hr' happ' hle
  have hid : r'.id = r.id := le_antisymm hle (hmin r' hr' happ')
  rw [mem_iff, hid] at hr'
  rw [Option.some.inj (hr'.symm.trans hr)]

theorem getByAppID_congr (h : ∀ r, r.appID = appID → (r ∈ t ↔ r ∈ t')) :
    t.getByAppID appID = t'.getByAppID appID := by
  ext r
  rw [getByAppID_eq_some_iff, getByAppID_eq_some_iff]
  constructor
  · rintro ⟨hr, happ, hmin⟩
    exact ⟨(h r happ).1 hr, happ, fun r' hr' happ' => hmin r' ((h r' happ').2 hr') happ'⟩
  · rintro ⟨hr, happ, hmin⟩
    exact ⟨(h r happ).2 hr, happ, fun r' hr' happ' => hmin r' ((h r' happ').1 hr') happ'⟩

def put (t : PeerTable) (r : PeerRow) (h : t.Free r) : PeerTable where
  rows := t.rows.set r.id r
  keyed := by
    intro id r' hr'
    exact forall_get_set (P := fun id r => r.id = id) t.keyed rfl hr'
  unique := by
    intro a b ha hb hws hname
    rw [get_set] at ha hb
    split at ha <;> split at hb
    · next hida hidb => rw [hida, hidb]
    · next hida _ =>
      cases ha
      exact (h b (mem_list.2 hb) hws.symm hname.symm).symm
    · next _ hidb =>
      cases hb
      exact h a (mem_list.2 ha) hws hname
    · exact t.unique a b ha hb hws hname

def put? (t : PeerTable) (r : PeerRow) : Option PeerTable :=
  if h : t.Free r then some (t.put r h) else none

theorem get_put? (h : t.put? r = some t') (id : String) :
    t'.get id = if id = r.id then some r else t.get id := by
  unfold put? at h
  split at h
  · cases h
    exact get_set ..
  · cases h

def withDefaults (r : PeerRow) : PeerRow :=
  if r.approvalStatus = .unset then { r with approvalStatus := .approved } else r

def created (id : String) (r : PeerRow) : PeerRow := { withDefaults r with id := id }

@[simp] theorem created_id (id : String) (r : PeerRow) : (created id r).id = id := rfl

@[simp] theorem created_workspaceID (id : String) (r : PeerRow) :
    (created id r).workspaceID = r.workspaceID := by
  unfold created withDefaults
  split <;> rfl

@[simp] theorem created_name (id : String) (r : PeerRow) : (created id r).name = r.name := by
  unfold created withDefaults
  split <;> rfl

@[simp] theorem created_address (id : String) (r : PeerRow) :
    (created id r).address = r.address := by
  unfold created withDefaults
  split <;> rfl

@[simp] theorem created_disabled (id : String) (r : PeerRow) :
    (created id r).disabled = r.disabled := by
  unfold created withDefaults
  split <;> rfl

theorem created_eq (id : String) {r : PeerRow} (h : r.approvalStatus ≠ .unset) :
    created id r = { r with id := id } := by
  unfold created withDefaults
  rw [if_neg h]

def create (t : PeerTable) (id : String) (r : PeerRow) : Option PeerTable := t.put? (created id r)

def holder (t : PeerTable) (r : PeerRow) : Option PeerRow :=
  t.list.find? fun r' => r'.workspaceID = r.workspaceID ∧ r'.name = r.name

def insertKey (dialect : Dialect) (t : PeerTable) (r : PeerRow) : String :=
  match dialect with
  | .sqlite => r.id
  | .mysql => ((t.holder r).map PeerRow.id).getD r.id

def saved (dialect : Dialect) (t : PeerTable) (r : PeerRow) : PeerRow :=
  match t.get r.id with
  | some _ => r
  | none => created (t.insertKey dialect r) r

def save (dialect : Dialect) (t : PeerTable) (r : PeerRow) : Option PeerTable :=
  t.put? (t.saved dialect r)

def delete (t : PeerTable) (id : String) : PeerTable where
  rows := t.rows.delete id
  keyed := fun j r h => t.keyed j r (get_of_get_delete h)
  unique := fun r r' h h' =>
    t.unique r r' (get_of_get_delete h) (get_of_get_delete h')

theorem get_delete (t : PeerTable) (id j : String) :
    (t.delete id).get j = if j = id then none else t.get j := GoMap.get_delete ..

theorem get_create {id : String} (h : t.create id r = some t') (j : String) :
    t'.get j = if j = (created id r).id then some (created id r) else t.get j := get_put? h j

theorem get_save {dialect : Dialect} (h : t.save dialect r = some t') (j : String) :
    t'.get j = if j = (t.saved dialect r).id then some (t.saved dialect r) else t.get j :=
  get_put? h j

theorem exists_create (id : String)
    (h : ∀ r' ∈ t, r'.workspaceID = r.workspaceID → r'.name ≠ r.name) :
    ∃ t', t.create id r = some t' := by
  have hfree : t.Free (created id r) := by
    intro r' hr' hws hname
    rw [created_workspaceID] at hws
    rw [created_name] at hname
    exact absurd hname (h r' (mem_list.1 hr') hws)
  exact ⟨_, dif_pos hfree⟩

variable {cur : PeerRow}

theorem exists_save_iff (dialect : Dialect) (h : t.get r.id = some cur) :
    (∃ t', t.save dialect r = some t') ↔ t.Free r := by
  unfold save saved put?
  rw [h]
  dsimp only
  constructor
  · rintro ⟨t', ht'⟩
    split at ht'
    · next hfree => exact hfree
    · cases ht'
  · intro hfree
    exact ⟨t.put r hfree, dif_pos hfree⟩

theorem exists_save (dialect : Dialect) (h : t.get r.id = some cur)
    (hws : cur.workspaceID = r.workspaceID) (hname : cur.name = r.name) :
    ∃ t', t.save dialect r = some t' := by
  rw [exists_save_iff dialect h]
  intro r' hr' hws' hname'
  rw [← t.keyed r.id cur h]
  exact t.unique r' cur (mem_list.1 hr') (mem_of_get h) (hws'.trans hws.symm)
    (hname'.trans hname.symm)

variable {dialect : Dialect}

theorem saved_of_get (h : t.get r.id = some cur) : t.saved dialect r = r := by
  unfold saved
  rw [h]

theorem saved_eq (dialect : Dialect) (t : PeerTable) (r : PeerRow) :
    t.saved dialect r = r ∨ ∃ id, t.saved dialect r = created id r := by
  unfold saved
  split
  · exact .inl rfl
  · exact .inr ⟨_, rfl⟩

@[simp] theorem saved_workspaceID : (t.saved dialect r).workspaceID = r.workspaceID := by
  rcases saved_eq dialect t r with h | ⟨id, h⟩ <;> simp [h]

@[simp] theorem saved_address : (t.saved dialect r).address = r.address := by
  rcases saved_eq dialect t r with h | ⟨id, h⟩ <;> simp [h]

@[simp] theorem saved_disabled : (t.saved dialect r).disabled = r.disabled := by
  rcases saved_eq dialect t r with h | ⟨id, h⟩ <;> simp [h]

end PeerTable

def TokenRow.used (r : TokenRow) : TokenRow :=
  if r.deleted then r else { r with usedCount := r.usedCount + 1 }

namespace TokenTable

def empty : TokenTable where
  rows := .empty
  keyed := fun _ _ h => nomatch h
  unique := fun _ _ h => nomatch h

def get (t : TokenTable) (id : String) : Option TokenRow := t.rows.get id

instance : Membership TokenRow TokenTable := ⟨fun t r => t.get r.id = some r⟩

def list (t : TokenTable) : List TokenRow := t.rows.toList.map Prod.snd

def getByToken (t : TokenTable) (token : String) : Option TokenRow :=
  t.list.find? fun r => r.token = token ∧ r.deleted = false

variable {t : TokenTable} {r : TokenRow}

theorem not_mem_empty (r : TokenRow) : r ∉ empty := by
  intro h
  cases h

theorem mem_of_get {id : String} (h : t.get id = some r) : r ∈ t := by
  change t.get r.id = some r
  rw [t.keyed id r h]
  exact h

theorem mem_list : r ∈ t.list ↔ r ∈ t := by
  unfold list
  rw [List.mem_map]
  constructor
  · rintro ⟨⟨id, r'⟩, hmem, rfl⟩
    exact mem_of_get (GoMap.mem_toList.1 hmem)
  · intro h
    exact ⟨(r.id, r), GoMap.mem_toList.2 h, rfl⟩

theorem getByToken_mem {token : String} (h : t.getByToken token = some r) :
    r ∈ t ∧ r.token = token ∧ r.deleted = false := by
  have hfnd := find?_some h
  rw [decide_eq_true_iff] at hfnd
  exact ⟨mem_list.1 (mem_of_find?_eq_some h), hfnd⟩

def insert (t : TokenTable) (r : TokenRow) (h : ∀ r' ∈ t, r'.token ≠ r.token) : TokenTable where
  rows := t.rows.set r.id r
  keyed := by
    intro id r' hr'
    exact forall_get_set (P := fun id r => r.id = id) t.keyed rfl hr'
  unique := by
    intro a b ha hb htoken
    rw [get_set] at ha hb
    split at ha <;> split at hb
    · next hida hidb => rw [hida, hidb]
    · cases ha
      exact absurd htoken.symm (h b hb)
    · cases hb
      exact absurd htoken (h a ha)
    · exact t.unique a b ha hb htoken

def modify (t : TokenTable) (id : String) (f : TokenRow → TokenRow)
    (hf : ∀ r, (f r).id = r.id ∧ (f r).token = r.token) : TokenTable where
  rows := t.rows.modify id f
  keyed := by
    intro j r' hr'
    rw [GoMap.get_modify] at hr'
    split at hr'
    · next hj =>
      obtain ⟨r, hr, rfl⟩ := map_eq_some_iff.1 hr'
      rw [(hf r).1, t.keyed id r hr, hj]
    · exact t.keyed j r' hr'
  unique := by
    have origin : ∀ a, (t.rows.modify id f).get a.id = some a →
        ∃ a', t.rows.get a'.id = some a' ∧ a'.id = a.id ∧ a'.token = a.token := by
      intro a ha
      rw [GoMap.get_modify] at ha
      split at ha
      · obtain ⟨r, hr, rfl⟩ := map_eq_some_iff.1 ha
        exact ⟨r, mem_of_get hr, (hf r).1.symm, (hf r).2.symm⟩
      · exact ⟨a, ha, rfl, rfl⟩
    intro a b ha hb htoken
    obtain ⟨a', ha', hida, htoka⟩ := origin a ha
    obtain ⟨b', hb', hidb, htokb⟩ := origin b hb
    rw [← hida, ← hidb]
    exact t.unique a' b' ha' hb' (by rw [htoka, htokb, htoken])

def incrementUsedCount (t : TokenTable) (id : String) : TokenTable :=
  t.modify id TokenRow.used fun r => by
    unfold TokenRow.used
    split <;> exact ⟨rfl, rfl⟩

def delete (t : TokenTable) (id : String) : TokenTable :=
  t.modify id (fun r => { r with deleted := true }) fun _ => ⟨rfl, rfl⟩

theorem get_insert {h : ∀ r' ∈ t, r'.token ≠ r.token} (id : String) :
    (t.insert r h).get id = if id = r.id then some r else t.get id := get_set ..

theorem get_incrementUsedCount (t : TokenTable) (id j : String) :
    (t.incrementUsedCount id).get j =
      if j = id then (t.get id).map TokenRow.used else t.get j := GoMap.get_modify ..

theorem get_delete (t : TokenTable) (id j : String) :
    (t.delete id).get j =
      if j = id then (t.get id).map fun r => { r with deleted := true } else t.get j :=
  GoMap.get_modify ..

end TokenTable

end LatticeMesh.Registry
