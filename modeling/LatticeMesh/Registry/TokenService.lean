import LatticeMesh.Registry.Service

/-! # The token service -/

namespace LatticeMesh.Registry

structure TokenResource where
  specToken : String
  specExpiry : Time
  usageLimit : Int
  statusToken : String := ""
  deriving DecidableEq

structure TokenDto where
  ns : String := ""
  name : String := ""
  expiry : String := ""
  limit : Int := 0

structure TokenStore where
  now : Time
  tokens : TokenTable
  workspaces : GoMap String WorkspaceRow
  resources : GoMap (String × String) TokenResource

structure TokenLibrary where
  parseDuration : String → Option Time
  toLower : String → String

inductive TokenSource where
  | row (r : TokenRow)
  | resource (key : String × String) (res : TokenResource)
  | blank
  deriving DecidableEq

def TokenTable.insert? (t : TokenTable) (r : TokenRow) : Option TokenTable :=
  if h : (∀ r' ∈ t.list, r'.token ≠ r.token) ∧ t.get r.id = none then
    some (t.insert r fun r' hr' => h.1 r' (mem_list.2 hr'))
  else none

namespace TokenStore

variable (lib : TokenLibrary) (s : TokenStore)

def getByNamespace (ns : String) : Option WorkspaceRow :=
  ((s.workspaces.toList.map Prod.snd).filter fun w => w.ns = ns).argmin WorkspaceRow.id

def newRow (dto : TokenDto) (id : String) (duration : Time) (ws : WorkspaceRow) : TokenRow where
  id := id
  token := dto.name
  workspaceID := ws.id
  expiresAt := s.now + duration
  usageLimit := dto.limit
  usedCount := 0
  deleted := false

def createTokenStandalone (dto : TokenDto) (id : String) :
    Except String TokenSource × TokenStore :=
  match s.tokens.getByToken dto.name with
  | some existing => (.ok (.row existing), s)
  | none =>
    match lib.parseDuration dto.expiry with
    | none => (.error "parse expiry", s)
    | some duration =>
      match s.getByNamespace dto.ns with
      | none => (.error "workspace not found", s)
      | some ws =>
        match s.tokens.insert? (s.newRow dto id duration ws) with
        | none => (.error "UNIQUE constraint failed", s)
        | some tokens =>
          (.ok (.row (s.newRow dto id duration ws)), { s with tokens := tokens })

def createTokenResource (getFails : Bool) (dto : TokenDto) :
    Except String TokenSource × TokenStore :=
  if getFails then (.ok .blank, s)
  else
    match s.resources.get (dto.ns, dto.name) with
    | some res => (.ok (.resource (dto.ns, dto.name) res), s)
    | none =>
      match lib.parseDuration dto.expiry with
      | none => (.error "parse expiry", s)
      | some duration =>
        let key := (dto.ns, lib.toLower dto.name)
        match s.resources.get key with
        | some _ => (.error "already exists", s)
        | none =>
          let res : TokenResource := ⟨dto.name, s.now + duration, dto.limit, ""⟩
          (.ok (.resource key res), { s with resources := s.resources.set key res })

end TokenStore

inductive Deployment where
  | standalone
  | kubernetes (getFails : Bool)

structure Draw where
  generated : String
  id : String
  policyErr : Option String := none

def tokenDtoOf (ws : WorkspaceRow) (generated : String) (req : Option TokenDto) : TokenDto :=
  let defaults : TokenDto := ⟨ws.ns, generated, "168h", 5⟩
  match req with
  | none => defaults
  | some req =>
    { defaults with
      name := orElse req.name defaults.name
      expiry := orElse req.expiry defaults.expiry
      limit := if 0 < req.limit then req.limit else defaults.limit }

def applyPolicy (policyErr : Option String) (result : Except String TokenSource × TokenStore) :
    Except String TokenSource × TokenStore :=
  match policyErr, result with
  | some err, (.ok _, t) => (.error err, t)
  | _, result => result

namespace TokenStore

variable (lib : TokenLibrary) (deployment : Deployment) (s : TokenStore)

def createToken (dto : TokenDto) (id : String) : Except String TokenSource × TokenStore :=
  match deployment with
  | .standalone => s.createTokenStandalone lib dto id
  | .kubernetes getFails => s.createTokenResource lib getFails dto

def create (wsId : String) (req : Option TokenDto) (draw : Draw) :
    Except String TokenSource × TokenStore :=
  if wsId = "" then (.error "workspaceId missing in context", s)
  else
    match s.workspaces.get wsId with
    | none => (.error "record not found", s)
    | some ws =>
      applyPolicy draw.policyErr
        (s.createToken lib deployment (tokenDtoOf ws draw.generated req) draw.id)

def delete (wsId token : String) : Except String Unit × TokenStore :=
  if wsId = "" then (.error "workspaceId missing in context", s)
  else
    match s.workspaces.get wsId with
    | none => (.error "record not found", s)
    | some ws =>
      match deployment with
      | .standalone =>
        match s.tokens.getByToken token with
        | none => (.ok (), s)
        | some tok => (.ok (), { s with tokens := s.tokens.delete tok.id })
      | .kubernetes _ => (.ok (), { s with resources := s.resources.delete (ws.ns, token) })

end TokenStore

def TokenStore.Owns (s : TokenStore) (wsId ns : String) : Prop :=
  ∃ ws, s.workspaces.get wsId = some ws ∧ ws.ns = ns

structure Untouched (s t : TokenStore) (wsId : String) : Prop where
  rows : ∀ id r, r.workspaceID ≠ wsId → (t.tokens.get id = some r ↔ s.tokens.get id = some r)
  resources : ∀ key, ¬ s.Owns wsId key.1 → t.resources.get key = s.resources.get key

def TokenSource.OwnedBy (s : TokenStore) (wsId : String) : TokenSource → Prop
  | .row r => r.workspaceID = wsId
  | .resource key _ => s.Owns wsId key.1
  | .blank => True

section

variable {lib : TokenLibrary} {deployment : Deployment} {s : TokenStore} {wsId : String}

theorem Untouched.refl : Untouched s s wsId := ⟨fun _ _ _ => Iff.rfl, fun _ _ => rfl⟩

def OwnDelete (deployment : Deployment) (s : TokenStore) (wsId token : String) : Prop :=
  deployment = .standalone → wsId ≠ "" → (s.workspaces.get wsId).isSome →
    ∀ r, s.tokens.getByToken token = some r → r.workspaceID = wsId

variable {r : TokenRow}

theorem untouched_deleteRow_iff {token : String} (hr : s.tokens.getByToken token = some r) :
    Untouched s { s with tokens := s.tokens.delete r.id } wsId ↔ r.workspaceID = wsId := by
  obtain ⟨hmem, -, hlive⟩ := TokenTable.getByToken_mem hr
  constructor
  · intro h
    by_contra hne
    have hkept := (h.rows r.id r hne).2 hmem
    rw [TokenTable.get_delete, if_pos rfl, hmem, Option.map_some] at hkept
    have hdel : r.deleted = true := by
      rw [← Option.some.inj hkept]
    rw [hlive] at hdel
    cases hdel
  intro hown
  refine ⟨fun id r' hne => ?_, fun _ _ => rfl⟩
  rw [TokenTable.get_delete]
  split
  · next hid =>
    subst hid
    rw [show s.tokens.get r.id = some r from hmem]
    constructor
    · intro h
      cases h
      exact absurd hown hne
    intro h
    cases h
    exact absurd hown hne
  · exact Iff.rfl

theorem isolated_delete_iff (deployment : Deployment) (s : TokenStore) (wsId token : String) :
    Untouched s (s.delete deployment wsId token).2 wsId ↔ OwnDelete deployment s wsId token := by
  unfold TokenStore.delete OwnDelete
  split
  · next hemp => exact iff_of_true .refl fun _ h => absurd hemp h
  next hne =>
  split
  · next hnone => exact iff_of_true .refl fun _ _ h => by simp [hnone] at h
  next ws hws =>
  cases deployment with
  | standalone =>
    dsimp only
    split
    · next hnone => exact iff_of_true .refl fun _ _ _ r hr => by simp [hnone] at hr
    next r hr =>
    rw [untouched_deleteRow_iff hr]
    constructor
    · intro hown _ _ _ r' hr'
      rw [hr] at hr'
      exact Option.some.inj hr' ▸ hown
    · intro h
      exact h rfl hne (by rw [hws]; rfl) r hr
  | kubernetes getFails =>
    refine iff_of_true ⟨fun _ _ _ => Iff.rfl, fun key hkey => ?_⟩ nofun
    show (s.resources.delete _).get key = _
    rw [GoMap.get_delete, if_neg]
    rintro rfl
    exact hkey ⟨ws, hws, rfl⟩

structure Isolated (s : TokenStore) (wsId : String)
    (result : Except String TokenSource × TokenStore) : Prop where
  untouched : Untouched s result.2 wsId
  reply : ∀ source, result.1 = .ok source → source.OwnedBy s wsId

theorem Isolated.error (err : String) : Isolated s wsId (.error err, s) := ⟨.refl, nofun⟩

theorem Isolated.read_iff (source : TokenSource) :
    Isolated s wsId (.ok source, s) ↔ source.OwnedBy s wsId :=
  ⟨fun h => h.reply source rfl, fun h => ⟨.refl, fun _ e => Except.ok.inj e ▸ h⟩⟩

structure OwnToken (lib : TokenLibrary) (s : TokenStore) (wsId : String) (dto : TokenDto)
    (draw : Draw) : Prop where
  found : draw.policyErr = none → ∀ r, s.tokens.getByToken dto.name = some r →
    r.workspaceID = wsId
  inserted : s.tokens.getByToken dto.name = none → ∀ duration ws,
    lib.parseDuration dto.expiry = some duration → s.getByNamespace dto.ns = some ws →
    (s.tokens.insert? (s.newRow dto draw.id duration ws)).isSome → ws.id = wsId

theorem get_of_insert? {t t' : TokenTable} (h : t.insert? r = some t') (id : String) :
    t'.get id = if id = r.id then some r else t.get id := by
  unfold TokenTable.insert? at h
  split at h
  · cases h
    exact TokenTable.get_insert id
  · cases h

theorem none_of_insert? {t t' : TokenTable} (h : t.insert? r = some t') :
    t.get r.id = none := by
  unfold TokenTable.insert? at h
  split at h
  · next hfree => exact hfree.2
  · cases h

theorem untouched_insert_iff {tokens : TokenTable} (h : s.tokens.insert? r = some tokens) :
    Untouched s { s with tokens := tokens } wsId ↔ r.workspaceID = wsId := by
  constructor
  · intro hs
    by_contra hne
    have hbef := (hs.rows r.id r hne).1 ((get_of_insert? h r.id).trans (if_pos rfl))
    rw [none_of_insert? h] at hbef
    cases hbef
  intro hown
  refine ⟨fun id r' hne => ?_, fun _ _ => rfl⟩
  show tokens.get id = some r' ↔ _
  rw [get_of_insert? h]
  split
  · next hid =>
    subst hid
    rw [none_of_insert? h]
    refine iff_of_false ?_ nofun
    intro e
    cases e
    exact hne hown
  · exact Iff.rfl

theorem applyPolicy_error (policyErr : Option String) (err : String) (t : TokenStore) :
    applyPolicy policyErr (.error err, t) = (.error err, t) := by cases policyErr <;> rfl

theorem isolated_found_iff {existing : TokenRow} (policyErr : Option String) :
    Isolated s wsId (applyPolicy policyErr (.ok (.row existing), s)) ↔
      (policyErr = none → existing.workspaceID = wsId) := by
  cases policyErr with
  | some err => exact iff_of_true (.error err) nofun
  | none => exact (Isolated.read_iff _).trans ⟨fun h _ => h, fun h => h rfl⟩

theorem isolated_inserted_iff {tokens : TokenTable} (policyErr : Option String)
    (h : s.tokens.insert? r = some tokens) :
    Isolated s wsId (applyPolicy policyErr (.ok (.row r), { s with tokens := tokens })) ↔
      r.workspaceID = wsId := by
  rw [← untouched_insert_iff h]
  cases policyErr with
  | some err => exact ⟨Isolated.untouched, fun hs => ⟨hs, nofun⟩⟩
  | none =>
    refine ⟨Isolated.untouched, fun hs => ⟨hs, ?_⟩⟩
    rintro _ ⟨⟩
    exact (untouched_insert_iff h).1 hs

theorem isolated_standalone_iff (dto : TokenDto) (draw : Draw) :
    Isolated s wsId (applyPolicy draw.policyErr (s.createTokenStandalone lib dto draw.id)) ↔
      OwnToken lib s wsId dto draw := by
  unfold TokenStore.createTokenStandalone
  cases hfnd : s.tokens.getByToken dto.name with
  | some existing =>
    rw [isolated_found_iff]
    constructor
    · intro h
      refine ⟨fun hpol r hr => ?_, fun hnone => by simp [hfnd] at hnone⟩
      rw [hfnd] at hr
      exact Option.some.inj hr ▸ h hpol
    · exact fun h hpol => h.found hpol existing hfnd
  | none =>
    have hfree : ∀ r, s.tokens.getByToken dto.name ≠ some r := by simp [hfnd]
    cases hpar : lib.parseDuration dto.expiry with
    | none =>
      dsimp only
      rw [applyPolicy_error]
      refine iff_of_true (.error _) ⟨fun _ r hr => absurd hr (hfree r), fun _ duration _ h => ?_⟩
      simp [hpar] at h
    | some duration =>
      cases hws : s.getByNamespace dto.ns with
      | none =>
        dsimp only
        rw [applyPolicy_error]
        refine iff_of_true (.error _) ⟨fun _ r hr => absurd hr (hfree r), fun _ _ ws _ h => ?_⟩
        simp [hws] at h
      | some ws =>
        have hiff : OwnToken lib s wsId dto draw ↔
            ((s.tokens.insert? (s.newRow dto draw.id duration ws)).isSome → ws.id = wsId) := by
          constructor
          · exact fun h => h.inserted hfnd duration ws hpar hws
          intro h
          refine ⟨fun _ r hr => absurd hr (hfree r), fun _ duration' ws' hpar' hws' => ?_⟩
          rw [hpar] at hpar'
          rw [hws] at hws'
          cases hpar'
          cases hws'
          exact h
        rw [hiff]
        cases hins : s.tokens.insert? (s.newRow dto draw.id duration ws) with
        | none =>
          simp only [hins]
          rw [applyPolicy_error]
          exact iff_of_true (.error _) nofun
        | some tokens =>
          simp only [hins]
          rw [isolated_inserted_iff draw.policyErr hins]
          exact ⟨fun h _ => h, fun h => h rfl⟩

theorem Isolated.applyPolicy {result : Except String TokenSource × TokenStore}
    (h : Isolated s wsId result) (policyErr : Option String) :
    Isolated s wsId (applyPolicy policyErr result) := by
  unfold Registry.applyPolicy
  split
  · exact ⟨h.untouched, nofun⟩
  · exact h

theorem isolated_resource (getFails : Bool) (dto : TokenDto) (hns : s.Owns wsId dto.ns) :
    Isolated s wsId (s.createTokenResource lib getFails dto) := by
  unfold TokenStore.createTokenResource
  split
  · exact (Isolated.read_iff .blank).2 trivial
  split
  · exact (Isolated.read_iff _).2 hns
  split
  · exact .error _
  dsimp only
  split
  · exact .error _
  refine ⟨⟨fun _ _ _ => Iff.rfl, fun key hkey => ?_⟩, ?_⟩
  · show (s.resources.set _ _).get key = _
    rw [GoMap.get_set, if_neg]
    rintro rfl
    exact hkey hns
  · rintro _ ⟨⟩
    exact hns

def OwnCreate (lib : TokenLibrary) (deployment : Deployment) (s : TokenStore) (wsId : String)
    (req : Option TokenDto) (draw : Draw) : Prop :=
  deployment = .standalone → wsId ≠ "" → ∀ ws, s.workspaces.get wsId = some ws →
    OwnToken lib s wsId (tokenDtoOf ws draw.generated req) draw

theorem ns_tokenDtoOf (ws : WorkspaceRow) (generated : String) (req : Option TokenDto) :
    (tokenDtoOf ws generated req).ns = ws.ns := by cases req <;> rfl

theorem isolated_create_iff (lib : TokenLibrary) (deployment : Deployment) (s : TokenStore)
    (wsId : String) (req : Option TokenDto) (draw : Draw) :
    Isolated s wsId (s.create lib deployment wsId req draw) ↔
      OwnCreate lib deployment s wsId req draw := by
  unfold TokenStore.create OwnCreate
  split
  · next hemp => exact iff_of_true (.error _) fun _ h => absurd hemp h
  next hne =>
  split
  · next hnone => exact iff_of_true (.error _) fun _ _ _ h => by simp [hnone] at h
  next ws hws =>
  cases deployment with
  | standalone =>
    refine (isolated_standalone_iff _ draw).trans ⟨fun h _ _ ws' hws' => ?_, fun h => ?_⟩
    · rw [hws] at hws'
      exact Option.some.inj hws' ▸ h
    · exact h rfl hne ws hws
  | kubernetes getFails =>
    have hns : s.Owns wsId (tokenDtoOf ws draw.generated req).ns :=
      ⟨ws, hws, (ns_tokenDtoOf ws draw.generated req).symm⟩
    exact iff_of_true ((isolated_resource getFails _ hns).applyPolicy draw.policyErr) nofun

/-- **Isolation of workspaces.** -/
theorem token_calls_isolated_iff (lib : TokenLibrary) (deployment : Deployment) (s : TokenStore)
    (wsId : String) :
    (∀ token, Untouched s (s.delete deployment wsId token).2 wsId ↔
      OwnDelete deployment s wsId token) ∧
    ∀ req draw, Isolated s wsId (s.create lib deployment wsId req draw) ↔
      OwnCreate lib deployment s wsId req draw :=
  ⟨isolated_delete_iff deployment s wsId, isolated_create_iff lib deployment s wsId⟩

end

def twoWorkspaces : TokenStore where
  now := 0
  tokens := TokenTable.empty.insert ⟨"t2", "spring", "ws2", 100, 5, 0, false⟩
    fun r h => absurd h (TokenTable.not_mem_empty r)
  workspaces := (GoMap.empty.set "ws1" ⟨"ws1", "wf-ws1", false⟩).set "ws2" ⟨"ws2", "wf-ws2", false⟩
  resources := GoMap.empty

def weekOnly : TokenLibrary where
  parseDuration text := if text = "168h" then some (168 * 3600 * 1000000000) else none
  toLower := id

theorem foreign_token_taken :
    (twoWorkspaces.create weekOnly .standalone "ws1" (some { name := "spring" })
      ⟨"random", "t1", none⟩).1 = .ok (.row ⟨"t2", "spring", "ws2", 100, 5, 0, false⟩) ∧
    twoWorkspaces.tokens.getByToken "spring" = some ⟨"t2", "spring", "ws2", 100, 5, 0, false⟩ ∧
    (twoWorkspaces.delete .standalone "ws1" "spring").2.tokens.getByToken "spring" = none := by
  decide +kernel

end LatticeMesh.Registry
