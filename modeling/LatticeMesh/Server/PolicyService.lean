import Mathlib
import LatticeMesh.Lib.LTS
import LatticeMesh.Lib.Table
import LatticeMesh.Netmap.Builder

/-! # Policies and their version timeline -/

namespace LatticeMesh.PolicyService

open List Option

open Netmap (PolicyStatus)

abbrev Time := Registry.Time

structure SpecDto where
  rules : Firewall.PolicySpec
  network : String := ""
  expiresAt : Option Time := none
  deriving DecidableEq

structure PolicyDto where
  name : String
  action : String
  description : String := ""
  policyTypes : List String := []
  spec : SpecDto
  intent : String := ""

structure Policy where
  id : String
  workspaceID : String
  name : String
  description : String := ""
  action : String := ""
  policyTypes : String := ""
  spec : String := ""
  status : PolicyStatus := .pending
  errorMessage : String := ""
  createdBy : String := ""
  createdByName : String := ""
  updatedBy : String := ""
  updatedByName : String := ""
  expiresAt : Option Time := none
  intent : String := ""
  version : Int := 1
  deleted : Bool := false

def Policy.index (p : Policy) : String × String := (p.workspaceID, p.name)

abbrev PolicyTable := Table Policy.id Policy.index

namespace PolicyTable

def getByID (t : PolicyTable) (id : String) : Option Policy :=
  (t.get id).filter fun p => !p.deleted

def getByName (t : PolicyTable) (workspaceID name : String) : Option Policy :=
  (t.find (workspaceID, name)).filter fun p => !p.deleted

end PolicyTable

inductive VersionAction where
  | created
  | applied

structure PolicyVersion where
  policyID : String
  version : Int
  spec : String
  intent : String
  action : VersionAction
  changedBy : String
  approvedBy : String

def Policy.entry (row : Policy) (action : VersionAction) (changedBy approvedBy : String) :
    PolicyVersion where
  policyID := row.id
  version := row.version
  spec := row.spec
  intent := row.intent
  action := action
  changedBy := changedBy
  approvedBy := approvedBy

structure Store where
  workspaces : GoMap String String
  policies : PolicyTable
  versions : List PolicyVersion

structure Codec where
  marshalSpec : SpecDto → String
  marshalTypes : List String → String
  unmarshalSpec : String → Option Firewall.PolicySpec
  crdError : String → Option String

structure Config where
  codec : Codec
  client : Bool

structure Faults where
  getByID : Option String := none
  getByName : Option String := none
  workspace : Option String := none
  patch : Option String := none
  create : Option String := none
  update : Option String := none
  record : Option String := none

namespace Store

def workspace (s : Store) (f : Faults) (wsID : String) : Option String :=
  query f.workspace (s.workspaces.get wsID)

def create (s : Store) (f : Faults) (row : Policy) : Option Store :=
  (query f.create (s.policies.insert? row)).map fun t => { s with policies := t }

def update (s : Store) (f : Faults) (row : Policy) : Option Store :=
  (query f.update (s.policies.put? row)).map fun t => { s with policies := t }

def recordPolicyVersion (s : Store) (f : Faults) (row : Policy) (action : VersionAction)
    (changedBy approvedBy : String) : Store :=
  if f.record.isSome then s
  else { s with versions := s.versions ++ [row.entry action changedBy approvedBy] }

end Store

section

variable (cfg : Config) (f : Faults)

def submittedRow (fresh wsID createdBy createdByName : String) (dto : PolicyDto) : Policy where
  id := fresh
  workspaceID := wsID
  name := dto.name
  description := dto.description
  action := dto.action
  policyTypes := cfg.codec.marshalTypes dto.policyTypes
  spec := cfg.codec.marshalSpec dto.spec
  intent := dto.intent
  expiresAt := dto.spec.expiresAt
  version := 1
  status := .pending
  createdBy := createdBy
  createdByName := createdByName

def submit (fresh wsID createdBy createdByName : String) (dto : PolicyDto) (s : Store) :
    Store × Except String Policy :=
  let row := submittedRow cfg fresh wsID createdBy createdByName dto
  match s.create f row with
  | none => (s, .error (f.create.getD "UNIQUE constraint failed"))
  | some s' => (s'.recordPolicyVersion f row .created createdBy "", .ok row)

def Policy.failWith (row : Policy) (err : String) : Policy :=
  { row with status := .failed, errorMessage := err }

def Policy.activate (row : Policy) : Policy :=
  { row with version := row.version + 1, status := .active, errorMessage := "" }

def apply (policyID : String) (s : Store) : Store × Option String :=
  match query f.getByID (s.policies.getByID policyID) with
  | none => (s, some ("policy record not found: " ++ f.getByID.getD "record not found"))
  | some row =>
    match s.workspace f row.workspaceID with
    | none => (s, some ("workspace not found: " ++ f.workspace.getD "record not found"))
    | some _ =>
      match cfg.codec.crdError row.spec with
      | some err => (s, some ("unmarshal spec: " ++ err))
      | none =>
        match if cfg.client then f.patch else none with
        | some err =>
          ((s.update f (row.failWith err)).getD s, some err)
        | none =>
          match s.update f row.activate with
          | none => (s, some (f.update.getD "UNIQUE constraint failed"))
          | some s' => (s'.recordPolicyVersion f row.activate .applied "workflow" "", none)

structure PolicyVo where
  name : String
  action : String
  description : String
  ns : String
  policyTypes : List String
  network : String

def PolicyDto.over (dto : PolicyDto) (operatorID operatorName : String) (row : Policy) : Policy :=
  { row with
    description := dto.description
    action := dto.action
    policyTypes := cfg.codec.marshalTypes dto.policyTypes
    spec := cfg.codec.marshalSpec dto.spec
    intent := dto.intent
    expiresAt := dto.spec.expiresAt
    status := .active
    errorMessage := ""
    updatedBy := operatorID
    updatedByName := operatorName }

def Store.existing (s : Store) (wsID : String) (dto : PolicyDto) : Option Policy :=
  query f.getByName (s.policies.getByName wsID dto.name)

def newRow (fresh wsID operatorID operatorName : String) (dto : PolicyDto) : Policy where
  id := fresh
  workspaceID := wsID
  name := dto.name
  createdBy := operatorID
  createdByName := operatorName
  version := 1

def directRow (fresh wsID operatorID operatorName : String) (dto : PolicyDto) (s : Store) :
    Policy :=
  dto.over cfg operatorID operatorName
    ((s.existing f wsID dto).getD (newRow fresh wsID operatorID operatorName dto))

def applyDirect (fresh wsID operatorID operatorName : String) (dto : PolicyDto) (s : Store) :
    Store × Except String PolicyVo :=
  match s.workspace f wsID with
  | none => (s, .error (f.workspace.getD "record not found"))
  | some ns =>
    match if cfg.client then f.patch else none with
    | some err => (s, .error err)
    | none =>
      let row := directRow cfg f fresh wsID operatorID operatorName dto s
      let s' := match s.existing f wsID dto with
        | some _ => (s.update f row).getD s
        | none => (s.create f row).getD s
      (s'.recordPolicyVersion f row .applied operatorID operatorName,
        .ok { name := dto.name, action := dto.action, description := dto.description, ns := ns,
              policyTypes := dto.policyTypes
              network := if dto.spec.network = "" then "lattice-default-net"
                else dto.spec.network })

end

inductive Op where
  | submit (fresh wsID createdBy createdByName : String) (dto : PolicyDto)
  | apply (policyID : String)
  | applyDirect (fresh wsID operatorID operatorName : String) (dto : PolicyDto)

def Op.run (cfg : Config) (f : Faults) (s : Store) : Op → Store
  | .submit fresh wsID createdBy createdByName dto =>
    (PolicyService.submit cfg f fresh wsID createdBy createdByName dto s).1
  | .apply policyID => (PolicyService.apply cfg f policyID s).1
  | .applyDirect fresh wsID operatorID operatorName dto =>
    (PolicyService.applyDirect cfg f fresh wsID operatorID operatorName dto s).1

def Store.Unused (s : Store) (id : String) : Prop :=
  s.policies.get id = none ∧ ∀ v ∈ s.versions, v.policyID ≠ id

def Op.Fresh (s : Store) : Op → Prop
  | .submit fresh _ _ _ _ | .applyDirect fresh _ _ _ _ => s.Unused fresh
  | .apply _ => True

def system (cfg : Config) : LTS Store (Op × Faults) where
  init s := s.policies = .empty ∧ s.versions = []
  step s l t := l.1.Fresh s ∧ t = l.1.run cfg l.2 s

inductive Effect (s : Store) : Store → Prop
  | none : Effect s s
  | overwrite {row : Policy} (row' : Policy) {t : PolicyTable} (hrow : row ∈ s.policies)
      (hid : row'.id = row.id) (hversion : row'.version = row.version)
      (ht : s.policies.put? row' = some t) : Effect s { s with policies := t }
  | orphan {v : PolicyVersion} (hid : s.Unused v.policyID) :
    Effect s { s with versions := s.versions ++ [v] }
  | create {row : Policy} {v : PolicyVersion} {t : PolicyTable} (hid : s.Unused row.id)
      (hv : v.policyID = row.id ∧ v.version = row.version)
      (ht : s.policies.insert? row = some t) :
    Effect s { s with policies := t, versions := s.versions ++ [v] }
  | applied {row : Policy} (row' : Policy) {v : PolicyVersion} {t : PolicyTable}
      (hrow : row ∈ s.policies) (hid : row'.id = row.id) (hversion : row'.version = row.version + 1)
      (hv : v.policyID = row'.id ∧ v.version = row'.version)
      (ht : s.policies.put? row' = some t) :
    Effect s { s with policies := t, versions := s.versions ++ [v] }

def Advances (s : Store) : Op × Faults → Prop
  | (.applyDirect _ wsID _ _ dto, f) => f.record = none ∧ s.existing f wsID dto = none
  | (_, f) => f.record = none

section

variable {cfg : Config} {f : Faults} {s t : Store} {row : Policy}

theorem mem_of_getByID {id : String} (h : s.policies.getByID id = some row) :
    row ∈ s.policies := by
  unfold PolicyTable.getByID at h
  rw [filter_eq_some_iff] at h
  exact Table.mem_of_get h.1

theorem getByName_eq_some_iff {p : PolicyTable} {wsID name : String} :
    p.getByName wsID name = some row ↔
      row ∈ p ∧ row.index = (wsID, name) ∧ row.deleted = false := by
  unfold PolicyTable.getByName
  rw [filter_eq_some_iff, Table.find_eq_some_iff, and_assoc, Bool.not_eq_true']

theorem mem_of_getByName {p : PolicyTable} {wsID name : String}
    (h : p.getByName wsID name = some row) : row ∈ p := (getByName_eq_some_iff.1 h).1

theorem create_eq_some_iff : s.create f row = some t ↔
    f.create = none ∧ ∃ p, s.policies.insert? row = some p ∧ t = { s with policies := p } := by
  unfold Store.create
  rw [map_eq_some_iff]
  simp only [query_eq_some_iff, and_assoc, exists_and_left, eq_comm (b := t)]

theorem update_eq_some_iff : s.update f row = some t ↔
    f.update = none ∧ ∃ p, s.policies.put? row = some p ∧ t = { s with policies := p } := by
  unfold Store.update
  rw [map_eq_some_iff]
  simp only [query_eq_some_iff, and_assoc, exists_and_left, eq_comm (b := t)]

theorem record_eq (h : f.record = none) (action : VersionAction) (changedBy approvedBy : String) :
    s.recordPolicyVersion f row action changedBy approvedBy =
      { s with versions := s.versions ++ [row.entry action changedBy approvedBy] } := by
  unfold Store.recordPolicyVersion
  rw [h]
  rfl

theorem effect_submit (h : f.record = none) {fresh wsID createdBy createdByName : String}
    {dto : PolicyDto} (hfr : s.Unused fresh) :
    Effect s (submit cfg f fresh wsID createdBy createdByName dto s).1 := by
  unfold submit
  dsimp only
  split
  · exact .none
  next s' hs' =>
  obtain ⟨-, p, hp, rfl⟩ := create_eq_some_iff.1 hs'
  dsimp only
  rw [record_eq h]
  exact .create hfr ⟨rfl, rfl⟩ hp

theorem effect_apply (h : f.record = none) (policyID : String) :
    Effect s (apply cfg f policyID s).1 := by
  unfold apply
  split
  · exact .none
  next row hrow =>
  have hmem := mem_of_getByID (query_eq_some_iff.1 hrow).2
  split
  · exact .none
  split
  · exact .none
  split
  · next err _ =>
    cases hupd : s.update f (row.failWith err) with
    | none => exact .none
    | some t =>
      obtain ⟨-, p, hp, rfl⟩ := update_eq_some_iff.1 hupd
      exact .overwrite (row.failWith err) hmem rfl rfl hp
  split
  · exact .none
  next s' hs' =>
  obtain ⟨-, p, hp, rfl⟩ := update_eq_some_iff.1 hs'
  rw [record_eq h]
  exact .applied row.activate hmem rfl rfl ⟨rfl, rfl⟩ hp

theorem effect_applyDirect (h : f.record = none) {fresh wsID operatorID operatorName : String}
    {dto : PolicyDto} (hnone : s.existing f wsID dto = none) (hfr : s.Unused fresh) :
    Effect s (applyDirect cfg f fresh wsID operatorID operatorName dto s).1 := by
  have hid : (directRow cfg f fresh wsID operatorID operatorName dto s).id = fresh := by
    unfold directRow
    rw [hnone]
    rfl
  unfold applyDirect
  rw [hnone]
  split
  · exact .none
  split
  · exact .none
  generalize directRow cfg f fresh wsID operatorID operatorName dto s = row at hid
  subst hid
  dsimp only
  rw [record_eq h]
  cases hcre : s.create f row with
  | none => exact .orphan hfr
  | some t =>
    obtain ⟨-, p, hp, rfl⟩ := create_eq_some_iff.1 hcre
    exact .create hfr ⟨rfl, rfl⟩ hp

theorem effect_run {op : Op} (hfr : op.Fresh s) (h : Advances s (op, f)) :
    Effect s (op.run cfg f s) := by
  cases op with
  | submit fresh wsID createdBy createdByName dto => exact effect_submit h hfr
  | apply policyID => exact effect_apply h policyID
  | applyDirect fresh wsID operatorID operatorName dto => exact effect_applyDirect h.1 h.2 hfr

end

def Store.recorded (s : Store) (id : String) : List Int :=
  (s.versions.filter fun v => v.policyID = id).map PolicyVersion.version

structure Timeline (s : Store) : Prop where
  increasing : ∀ id, (s.recorded id).Pairwise (· < ·)
  current : ∀ row ∈ s.policies, (s.recorded row.id).getLast? = some row.version

section

variable {cfg : Config} {s t : Store} {id : String}

theorem recorded_append {v : PolicyVersion} {p : PolicyTable} :
    Store.recorded { s with policies := p, versions := s.versions ++ [v] } id =
      if v.policyID = id then s.recorded id ++ [v.version] else s.recorded id := by
  unfold Store.recorded
  rw [filter_append, map_append, filter_singleton]
  by_cases h : v.policyID = id <;> simp [h]

theorem recorded_of_unused (h : s.Unused id) : s.recorded id = [] := by
  unfold Store.recorded
  rw [map_eq_nil_iff, filter_eq_nil_iff]
  intro v hv
  simpa using h.2 v hv

theorem ne_of_unused {row : Policy} (h : s.Unused id) (hrow : row ∈ s.policies) : row.id ≠ id := by
  rintro rfl
  rw [Table.mem_iff, show s.policies.get row.id = none from h.1] at hrow
  cases hrow

theorem mem_put? {row r : Policy} {p p' : PolicyTable} (h : p.put? row = some p') (hr : r ∈ p') :
    r = row ∨ r.id ≠ row.id ∧ r ∈ p := by
  rw [Table.mem_iff, Table.get_put? h] at hr
  split at hr
  · exact .inl (Option.some.inj hr).symm
  · next hne => exact .inr ⟨hne, hr⟩

theorem pairwise_lt_concat {l : List Int} {m n : Int} (h : l.Pairwise (· < ·))
    (hlast : l.getLast? = some m) (hmn : m < n) : (l ++ [n]).Pairwise (· < ·) := by
  rw [pairwise_append]
  refine ⟨h, pairwise_singleton _ _, ?_⟩
  intro a ha b hb
  rw [mem_singleton.1 hb]
  obtain ⟨init, rfl⟩ := getLast?_eq_some_iff.1 hlast
  obtain hinit | hm := mem_append.1 ha
  · exact ((pairwise_append.1 h).2.2 a hinit m (mem_singleton_self m)).trans hmn
  · rwa [mem_singleton.1 hm]

theorem Timeline.step (hs : Timeline s) (h : Effect s t) : Timeline t := by
  cases h with
  | none => exact hs
  | overwrite row' hrow hid hver ht =>
    refine ⟨hs.increasing, fun r hr => ?_⟩
    obtain rfl | ⟨-, hr⟩ := mem_put? ht hr
    · rw [hid, hver]
      exact hs.current _ hrow
    · exact hs.current r hr
  | orphan hid =>
    refine ⟨fun id => ?_, fun r hr => ?_⟩
    · rw [recorded_append (p := s.policies)]
      split
      · next hv =>
        rw [recorded_of_unused (hv ▸ hid)]
        exact pairwise_singleton _ _
      · exact hs.increasing id
    · rw [recorded_append (p := s.policies), if_neg (ne_of_unused hid hr).symm]
      exact hs.current r hr
  | create hid hv ht =>
    refine ⟨fun id => ?_, fun r hr => ?_⟩
    · rw [recorded_append]
      split
      · next hvid =>
        rw [recorded_of_unused (hvid ▸ hv.1 ▸ hid)]
        exact pairwise_singleton _ _
      · exact hs.increasing id
    rw [recorded_append, hv.1]
    obtain rfl | ⟨hne, hr⟩ := mem_put? (Table.put?_of_insert? ht).1 hr
    · rw [if_pos rfl, recorded_of_unused hid, hv.2]
      rfl
    · rw [if_neg hne.symm]
      exact hs.current r hr
  | applied row' hrow hid hver hv ht =>
    refine ⟨fun id => ?_, fun r hr => ?_⟩
    · rw [recorded_append]
      split
      · next hvid =>
        rw [← hvid, hv.1, hid, hv.2, hver]
        exact pairwise_lt_concat (hs.increasing _) (hs.current _ hrow) (Int.lt_succ _)
      · exact hs.increasing id
    rw [recorded_append, hv.1]
    obtain rfl | ⟨hne, hr⟩ := mem_put? ht hr
    · rw [if_pos rfl, hv.2, getLast?_concat]
    · rw [if_neg hne.symm]
      exact hs.current r hr

/-- **The version timeline**, in every run whose operations meet `Advances`. -/
theorem version_timeline (h : ((system cfg).guard Advances).Reachable s) : Timeline s := by
  refine h.invariant ?_ ?_
  · rintro s ⟨hpol, hver⟩
    refine ⟨fun id => ?_, fun row hrow => ?_⟩
    · unfold Store.recorded
      rw [hver]
      exact .nil
    · rw [hpol] at hrow
      cases hrow
  · rintro s ⟨op, f⟩ t - hs ⟨hadv, hfr, rfl⟩
    exact hs.step (effect_run hfr hadv)

section

variable {wsID ns : String} {dto : PolicyDto} (cfg) (fresh operatorID operatorName : String)

theorem applyDirect_found (hws : s.workspaces.get wsID = some ns) {row : Policy}
    (hrow : s.policies.getByName wsID dto.name = some row) :
    ∃ p, s.policies.put? (dto.over cfg operatorID operatorName row) = some p ∧
      (applyDirect cfg {} fresh wsID operatorID operatorName dto s).1 =
        { s with
          policies := p
          versions := s.versions ++ [(dto.over cfg operatorID operatorName row).entry .applied
            operatorID operatorName] } := by
  have hexi : s.existing {} wsID dto = some row := hrow
  have hwor : s.workspace {} wsID = some ns := hws
  have hmem : s.policies.get row.id = some row := mem_of_getByName hrow
  have hfree : s.policies.Free (dto.over cfg operatorID operatorName row) :=
    Table.free_of_get hmem rfl
  obtain ⟨p, hp⟩ := isSome_iff_exists.1 (Table.put?_isSome_iff.2 hfree)
  have hupd : s.update {} (dto.over cfg operatorID operatorName row) =
      some { s with policies := p } := update_eq_some_iff.2 ⟨rfl, p, hp, rfl⟩
  have hpat : (if cfg.client = true then ({} : Faults).patch else none) = none := ite_self none
  refine ⟨p, hp, ?_⟩
  unfold applyDirect directRow
  simp only [hwor, hpat, hexi, getD_some, hupd]
  exact record_eq rfl ..

theorem applyDirect_new (hws : s.workspaces.get wsID = some ns)
    (hnone : s.policies.getByName wsID dto.name = none) :
    (applyDirect cfg {} fresh wsID operatorID operatorName dto s).1.policies =
      (s.policies.insert? (dto.over cfg operatorID operatorName
        (newRow fresh wsID operatorID operatorName dto))).getD s.policies := by
  have hexi : s.existing {} wsID dto = none := hnone
  have hwor : s.workspace {} wsID = some ns := hws
  have hpat : (if cfg.client = true then ({} : Faults).patch else none) = none := ite_self none
  unfold applyDirect directRow
  simp only [hwor, hpat, hexi, getD_none]
  rw [record_eq rfl]
  unfold Store.create query
  dsimp only
  cases s.policies.insert? _ <;> rfl

end

end

def noRules : SpecDto := ⟨⟨[], []⟩, "", none⟩

def oneHost : SpecDto := ⟨⟨[⟨[⟨some "10.0.0.5/32", ""⟩], []⟩], []⟩, "", none⟩

def tableCodec : Codec where
  marshalSpec spec := if spec = oneHost then "one" else "none"
  marshalTypes _ := "[]"
  unmarshalSpec text := some (if text = "one" then oneHost.rules else noRules.rules)
  crdError _ := none

def standalone : Config := ⟨tableCodec, false⟩

def webDraft (spec : SpecDto) : PolicyDto := ⟨"web", "Allow", "", [], spec, ""⟩

def emptyStore : Store := ⟨GoMap.empty.set "ws" "wf-ws", .empty, []⟩

def runAll (ops : List Op) : Store := ops.foldl (fun s op => op.run standalone {} s) emptyStore

theorem reachable_run {G : Store → Op × Faults → Prop} {ops : List Op} (op : Op)
    (h : ((system standalone).guard G).Reachable (runAll ops)) (hG : G (runAll ops) (op, {}))
    (hfr : op.Fresh (runAll ops)) :
    ((system standalone).guard G).Reachable (runAll (ops ++ [op])) := by
  unfold runAll
  rw [foldl_concat]
  exact h.step (l := (op, {})) ⟨hG, hfr, rfl⟩

theorem submitted_timeline : (runAll [.submit "p1" "ws" "u" "user" (webDraft noRules),
      .apply "p1"]).recorded "p1" = [1, 2] ∧
    Timeline (runAll [.submit "p1" "ws" "u" "user" (webDraft noRules), .apply "p1"]) := by
  have hinit : ((system standalone).guard Advances).Reachable (runAll []) := .init ⟨rfl, rfl⟩
  have hsub := reachable_run (.submit "p1" "ws" "u" "user" (webDraft noRules)) hinit rfl
    ⟨rfl, fun _ h => by cases h⟩
  have happ := reachable_run (.apply "p1") hsub rfl trivial
  exact ⟨by decide +kernel, version_timeline happ⟩

theorem version_repeated : ∃ s, (system standalone).Reachable s ∧
    s.versions.map (fun v => (v.policyID, v.version, v.spec)) =
      [("p1", 1, "none"), ("p1", 1, "one")] ∧ ¬ Timeline s := by
  have hinit : ((system standalone).guard fun _ _ => True).Reachable (runAll []) :=
    .init ⟨rfl, rfl⟩
  have hfst := reachable_run (.applyDirect "p1" "ws" "u" "user" (webDraft noRules)) hinit trivial
    ⟨rfl, fun _ h => by cases h⟩
  have hsec := reachable_run (.applyDirect "p2" "ws" "u" "user" (webDraft oneHost)) hfst
    trivial ⟨by decide +kernel, by decide +kernel⟩
  refine ⟨_, hsec.of_guard, by decide +kernel, fun ht => ?_⟩
  have hinc := ht.increasing "p1"
  revert hinc
  decide +kernel

end LatticeMesh.PolicyService
