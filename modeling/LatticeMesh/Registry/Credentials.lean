import LatticeMesh.Registry.Calls
import LatticeMesh.Registry.Decisions

/-!
# What registrations do to the credentials of a peer

A registration finds the row of its peer by the AppID alone.
-/

namespace LatticeMesh.Registry

open List Option PeerDto PeerTable

variable {cfg : Config} {s : State} {generated : String × String} {dto : PeerDto}

def PeerRow.ClientKeyed (r : PeerRow) : Prop := r.publicKey ≠ "" ∧ r.privateKey = ""

def PeerRow.binding (r : PeerRow) :
    String × String × String × String × ApprovalStatus × Bool :=
  (r.appID, r.workspaceID, r.token, r.address, r.approvalStatus, r.disabled)

def Keeps (t t' : PeerTable) : Prop :=
  ∀ r ∈ t, ∃ r' ∈ t', r'.id = r.id ∧ r'.binding = r.binding ∧
    (r.ClientKeyed → r'.ClientKeyed ∧ r'.publicKey = r.publicKey)

theorem Keeps.refl (t : PeerTable) : Keeps t t :=
  fun r hr => ⟨r, hr, rfl, rfl, fun h => ⟨h, rfl⟩⟩

theorem Keeps.trans {t t' t'' : PeerTable} (h : Keeps t t') (h' : Keeps t' t'') : Keeps t t'' := by
  intro r hr
  obtain ⟨r', hr', hid, hbin, hkey⟩ := h r hr
  obtain ⟨r'', hr'', hid', hbin', hkey'⟩ := h' r' hr'
  refine ⟨r'', hr'', hid'.trans hid, hbin'.trans hbin, ?_⟩
  intro hcli
  obtain ⟨hcli', hpub⟩ := hkey hcli
  obtain ⟨hcli'', hpub'⟩ := hkey' hcli'
  exact ⟨hcli'', hpub'.trans hpub⟩

variable {keys : String × String} {answer : Option PeerRow} {t : PeerTable}

theorem keysFor_ok {peer : PeerRow} (h : keysFor cfg dto generated peer = .ok keys) :
    (peer.privateKey ≠ "" ∧ keys = (peer.publicKey, peer.privateKey)) ∨
    (peer.privateKey = "" ∧ peer.publicKey = "" ∧ keys = generated) ∨
    (keys = (dto.publicKey, "") ∧ (peer.ClientKeyed → peer.publicKey = dto.publicKey)) := by
  unfold keysFor at h
  split at h
  · split at h
    · next hpriv =>
      cases h
      exact .inl ⟨hpriv, rfl⟩
    next hpriv =>
    split at h
    · cases h
    next hpub =>
    cases h
    exact .inr (.inl ⟨Classical.not_not.1 hpriv, Classical.not_not.1 hpub, rfl⟩)
  split at h
  · cases h
  split at h
  · cases h
  next hmt =>
  cases h
  refine .inr (.inr ⟨rfl, ?_⟩)
  intro hcli
  by_contra hne
  exact hmt ⟨hcli.1, hne, hcli.2⟩

theorem keysFor_clientKeyed {peer : PeerRow} (h : keysFor cfg dto generated peer = .ok keys)
    (hcli : peer.ClientKeyed) :
    keys = (peer.publicKey, "") := by
  rcases keysFor_ok h with ⟨hpriv, -⟩ | ⟨-, hpub, -⟩ | ⟨hkeys, hmt⟩
  · exact absurd hcli.2 hpriv
  · exact absurd hpub hcli.1
  · rw [hkeys, hmt hcli]

theorem Writes.registered {w : Write} (h : Writes cfg s generated (.register dto) w) :
    ∃ keys now, s.peers.getByAppID dto.normalized.appID = some w.read ∧
      keysFor cfg dto.normalized generated w.read = .ok keys ∧
      w.row = Registry.registered dto.normalized keys now w.read := by
  cases h with
  | @register _ tok existing now _ htok hfnd hexp hws hnow hw =>
    obtain ⟨keys, hkeys, rfl⟩ := map_ok hw
    exact ⟨keys, now, hfnd, hkeys, rfl⟩

theorem Performs.keeps (h : Performs cfg s generated (.register dto) t answer) (hids : s.Issued) :
    Keeps s.peers t := by
  intro r hr
  rcases h.row hids hr with hsame | ⟨w, hw, rfl, hget⟩ | ⟨hdel, -⟩
  · exact ⟨r, hsame, rfl, rfl, fun hcli => ⟨hcli, rfl⟩⟩
  · obtain ⟨keys, now, -, hkeys, hrow⟩ := hw.registered
    rw [hrow] at hget
    refine ⟨_, PeerTable.mem_of_get hget, rfl, rfl, ?_⟩
    intro hcli
    have hkept := keysFor_clientKeyed hkeys hcli
    rw [hkept]
    exact ⟨⟨hcli.1, rfl⟩, rfl⟩
  · cases hdel

variable {existing : PeerRow}

theorem Performs.ids_of_found (h : Performs cfg s generated (.register dto) t answer)
    (hfnd : s.peers.getByAppID dto.normalized.appID = some existing) (id : String) :
    (t.get id).isSome = (s.peers.get id).isSome := by
  cases h with
  | failed => rfl
  | @saved _ w _ hw ht =>
    rw [hw.get ht]
    split
    · next hid =>
      have hread : s.peers.get w.read.id = some w.read := hw.read_mem
      rw [hid, hread]
      rfl
    · rfl
  | enrolled _ hnew =>
    rw [hnew] at hfnd
    cases hfnd

def registrations (cfg : Config) : LTS State Event :=
  (sequential cfg).guard fun _ e => ∃ dto, e.req = .register dto

/-- **Registrations keep a client's key and the binding of each row**, over every run; and one that
finds the row of its peer leaves one row of its workspace and name. -/
theorem registrations_keep (cfg : Config) :
    (∀ s t, (registrations cfg).Reachable s → (registrations cfg).Steps s t →
      Keeps s.peers t.peers) ∧
    ∀ s e t dto existing, (registrations cfg).Reachable s → (registrations cfg).step s e t →
      e.req = .register dto → s.peers.getByAppID (normalizeAppID dto.appID) = some existing →
      (∃ r, t.peers.get existing.id = some r ∧ r.binding = existing.binding) ∧
      (∀ id, (t.peers.get id).isSome = (s.peers.get id).isSome) ∧
      ∀ r ∈ t.peers, ∀ r' ∈ t.peers, r.workspaceID = r'.workspaceID → r.name = r'.name →
        r = r' := by
  have hkee : ∀ s e t, (registrations cfg).Reachable s → (registrations cfg).step s e t →
      Keeps s.peers t.peers := by
    rintro s e t hs ⟨⟨dto, hreq⟩, hperf, -, -⟩
    rw [hreq] at hperf
    exact hperf.keeps (State.Issued.reachable hs)
  constructor
  · intro s t hs hste
    exact hste.rel (R := fun s t => Keeps s.peers t.peers) (fun s => Keeps.refl s.peers)
      (fun _ _ _ => Keeps.trans) hkee hs
  intro s e t dto existing hs hstep hreq hfnd
  refine ⟨?_, ?_, ?_⟩
  · obtain ⟨r, hr, hid, hbin, -⟩ :=
      hkee s e t hs hstep existing (getByAppID_mem hfnd).1
    exact ⟨r, hid ▸ hr, hbin⟩
  · have hperf := hstep.2.1
    rw [hreq] at hperf
    exact hperf.ids_of_found hfnd
  intro r hr r' hr' hws hname
  have hid := t.peers.unique r r' hr hr' hws hname
  rw [PeerTable.mem_iff, hid] at hr
  exact Option.some.inj (hr.symm.trans hr')

theorem normalized_laptop : normalizeAppID "laptop" = "laptop" := by decide +kernel

theorem laptop_performs : ∃ t, Performs plain (laptopState (oneRow laptop) .idle .idle)
    ("public", "private") (.register (deviceDto "laptop")) t (some laptopReturns.row) := by
  have hnor : (deviceDto "laptop").normalized = deviceDto "laptop" :=
    congrArg (fun appID => { deviceDto "laptop" with appID := appID }) normalized_laptop
  obtain ⟨t, ht⟩ := (oneRow laptop).exists_save .sqlite (r := laptopReturns.row) rfl rfl rfl
  have hwri : Writes plain (laptopState (oneRow laptop) .idle .idle) ("public", "private")
      (.register (deviceDto "laptop")) laptopReturns := by
    refine @Writes.register plain _ _ (deviceDto "laptop") (deviceToken 0) laptop 0 laptopReturns
      ⟨by decide, rfl⟩ ?_ ?_ rfl le_rfl ?_
    · rw [hnor]
      exact getByAppID_oneRow laptop
    · exact fun hexp => absurd hexp.1 (by decide)
    · rw [hnor]
      rfl
  exact ⟨t, .saved hwri ht⟩

theorem issued_laptop : (laptopState (oneRow laptop) .idle .idle).Issued := by
  intro r hr
  rw [mem_oneRow.1 hr]
  decide

theorem laptop_kept : ∃ t : PeerTable, Keeps (oneRow laptop) t ∧
    ∃ r, t.get "p1" = some r ∧ r.binding = laptop.binding := by
  obtain ⟨t, ht⟩ := laptop_performs
  have hiss : ({ laptopState (oneRow laptop) .idle .idle with peers := t }).Issued := by
    intro r hr
    have hfnd : (oneRow laptop).getByAppID (deviceDto "laptop").normalized.appID = some laptop :=
      normalized_laptop ▸ getByAppID_oneRow laptop
    have hsome := ht.ids_of_found hfnd r.id
    rw [PeerTable.mem_iff] at hr
    rw [hr, isSome_some, eq_comm, isSome_iff_exists] at hsome
    obtain ⟨r', hr'⟩ := hsome
    have hid := (oneRow laptop).keyed r.id r' hr'
    exact hid ▸ issued_laptop r' (PeerTable.mem_of_get hr')
  have hinit : (registrations plain).Reachable (laptopState (oneRow laptop) .idle .idle) :=
    .init issued_laptop
  have hstep : (registrations plain).step (laptopState (oneRow laptop) .idle .idle)
      ⟨.register (deviceDto "laptop"), ("public", "private"), some laptopReturns.row⟩
      { laptopState (oneRow laptop) .idle .idle with peers := t } :=
    ⟨⟨_, rfl⟩, ht, Finset.Subset.refl _, hiss⟩
  refine ⟨t, (registrations_keep plain).1 _ _ hinit (.single ⟨_, hstep⟩), ?_⟩
  exact ((registrations_keep plain).2 _ _ _ (deviceDto "laptop") laptop hinit hstep rfl
    (normalized_laptop ▸ getByAppID_oneRow laptop)).1

structure Response where
  name : String
  appID : String
  token : String
  privateKey : String
  publicKey : String
  endpoint : String
  hostname : String
  platform : String
  networkID : String
  relayURL : String
  approvalStatus : ApprovalStatus
  address : Option String
  enforcerMode : String

def respond (relayURL enforcerMode : String) (peer : PeerRow) : Response where
  name := peer.name
  appID := peer.appID
  token := peer.token
  privateKey := peer.privateKey
  publicKey := peer.publicKey
  endpoint := peer.endpoint
  hostname := peer.hostname
  platform := peer.platform
  networkID := peer.workspaceID
  relayURL := relayURL
  approvalStatus := peer.approvalStatus
  address := if peer.address = "" then none else some peer.address
  enforcerMode := enforcerMode

def OtherToken (dto : PeerDto) (r : PeerRow) : Prop := r.token ≠ "" ∧ r.token ≠ dto.token

structure Separated (dto : PeerDto) (before after : PeerTable) (answer : Option Response) :
    Prop where
  token : ∀ response, answer = some response → ∀ r, r ∈ before ∨ r ∈ after → OtherToken dto r →
    response.token ≠ r.token
  privateKey : ∀ response, answer = some response → ∀ r, r ∈ before ∨ r ∈ after →
    OtherToken dto r → r.privateKey ≠ "" → response.privateKey ≠ r.privateKey
  publicKey : ∀ r ∈ before, OtherToken dto r → ∀ r' ∈ after, r'.id = r.id →
    r'.publicKey = r.publicKey

def KeyAccepted (cfg : Config) (dto : PeerDto) (r : PeerRow) : Prop :=
  if dto.publicKey = "" then r.privateKey ≠ "" ∨ r.publicKey = ""
  else cfg.keyError dto.publicKey = none ∧
    (r.publicKey = "" ∨ r.publicKey = dto.publicKey ∨ r.privateKey ≠ "")

structure TakesOverRow (cfg : Config) (s : State) (dto : PeerDto) (tok : TokenRow)
    (existing : PeerRow) : Prop where
  presents : Presents s dto tok
  found : s.peers.getByAppID dto.normalized.appID = some existing
  other : OtherToken dto existing
  unexpired : s.now ≤ tok.expiresAt
  workspace : existing.workspaceID = tok.workspaceID
  key : KeyAccepted cfg dto existing
  name : existing.name = "" → ∀ r ∈ s.peers, r.workspaceID = existing.workspaceID →
    r.name = orElse dto.name dto.normalized.appID → r.id = existing.id

def TakesOver (cfg : Config) (s : State) (dto : PeerDto) : Prop :=
  ∃ tok existing, TakesOverRow cfg s dto tok existing

def Fresh (s : State) (generated : String × String) : Prop :=
  ∀ r ∈ s.peers, r.privateKey ≠ generated.2

def KeysDistinct (t : PeerTable) : Prop :=
  ∀ r ∈ t, ∀ r' ∈ t, r.privateKey ≠ "" → r.privateKey = r'.privateKey → r.id = r'.id

variable {r : PeerRow}

theorem exists_keysFor_iff :
    (∃ keys, keysFor cfg dto generated r = .ok keys) ↔ KeyAccepted cfg dto r := by
  unfold keysFor KeyAccepted
  by_cases hkey : dto.publicKey = ""
  · by_cases hpriv : r.privateKey = "" <;> by_cases hpub : r.publicKey = "" <;>
      simp [hkey, hpriv, hpub]
  cases hval : cfg.keyError dto.publicKey with
  | some cause => simp [hkey]
  | none =>
    by_cases hpub : r.publicKey = "" <;> by_cases hsame : r.publicKey = dto.publicKey <;>
      by_cases hpriv : r.privateKey = "" <;> simp_all

theorem resumesOwnPeer_other (h : OtherToken dto r) :
    resumesOwnPeer dto.normalized (some r) = false := by
  have hne := h.2
  simp [resumesOwnPeer, hne]

theorem free_registered_iff {now : Time} (hmem : existing ∈ s.peers) :
    s.peers.Free (registered dto keys now existing) ↔
      (existing.name = "" → ∀ r ∈ s.peers, r.workspaceID = existing.workspaceID →
        r.name = orElse dto.name dto.appID → r.id = existing.id) := by
  have hname : (registered dto keys now existing).name =
      if existing.name = "" then orElse dto.name dto.appID else existing.name := rfl
  unfold PeerTable.Free
  rw [hname]
  constructor
  · intro hfree hemp r hr hws hrna
    rw [if_pos hemp] at hfree
    exact hfree r (PeerTable.mem_list.2 hr) hws hrna
  intro hfree r hr hws hrna
  rw [PeerTable.mem_list] at hr
  split at hrna
  · next hemp => exact hfree hemp r hr hws hrna
  · exact s.peers.unique r existing hr hmem hws hrna

theorem TakesOverRow.performs {tok : TokenRow} (h : TakesOverRow cfg s dto tok existing)
    (generated : String × String) :
    ∃ keys t, keysFor cfg dto.normalized generated existing = .ok keys ∧
      Performs cfg s generated (.register dto) t
        (some (registered dto.normalized keys s.now existing)) := by
  have hmem := (getByAppID_mem h.found).1
  have hkey : KeyAccepted cfg dto.normalized existing := by
    unfold KeyAccepted
    rw [normalized_publicKey]
    exact h.key
  obtain ⟨keys, hkeys⟩ := exists_keysFor_iff.2 hkey
  obtain ⟨w, hw, hrow⟩ : ∃ w, resume cfg dto.normalized generated s.now existing = .ok w ∧
      w.row = registered dto.normalized keys s.now existing := by
    unfold resume
    rw [hkeys]
    exact ⟨_, rfl, rfl⟩
  have hname := h.name
  rw [← normalized_name] at hname
  have hfree : s.peers.Free (registered dto.normalized keys s.now existing) :=
    (free_registered_iff hmem).2 hname
  obtain ⟨t, ht⟩ := (exists_save_iff (r := registered dto.normalized keys s.now existing)
    cfg.dialect hmem).2 hfree
  rw [← hrow] at ht
  have hwri : Writes cfg s generated (.register dto) w :=
    .register h.presents h.found (fun hexp => absurd hexp.1 (not_lt.2 h.unexpired))
      h.workspace le_rfl hw
  exact ⟨keys, t, hkeys, hrow ▸ .saved hwri ht⟩

theorem Writes.takesOver {w : Write} (h : Writes cfg s generated (.register dto) w)
    (ht : s.peers.save cfg.dialect w.row = some t) (hoth : OtherToken dto w.read) :
    TakesOver cfg s dto := by
  have hmem : s.peers.get w.row.id = some w.read := by
    rw [w.id_eq]
    exact h.read_mem
  have hfree := (exists_save_iff cfg.dialect hmem).1 ⟨t, ht⟩
  cases h with
  | @register _ tok existing now _ htok hfnd hexp hws hnow hw =>
    obtain ⟨keys, hkeys, rfl⟩ := map_ok hw
    have hname := (free_registered_iff (getByAppID_mem hfnd).1).1 hfree
    rw [normalized_name] at hname
    refine ⟨tok, existing, htok, hfnd, hoth, ?_, hws, ?_, hname⟩
    · exact not_lt.1 fun hlt => hexp ⟨hlt, resumesOwnPeer_other hoth⟩
    have hkey := exists_keysFor_iff.1 ⟨keys, hkeys⟩
    unfold KeyAccepted at hkey
    rwa [normalized_publicKey] at hkey

theorem Enrolls.row {tok : TokenRow} {now : Time} {e : Enrollment}
    (h : Enrolls cfg s generated dto tok now e) :
    e.row.approvalStatus ≠ .unset ∧ e.row.privateKey ∈ ["", generated.2] ∧
      e.row.token = dto.token := by
  have hpriv : ∀ {status : ApprovalStatus} {address : String} {keys : String × String},
      keysFor cfg dto generated (newPeer dto tok status address) = .ok keys →
      keys.2 ∈ ["", generated.2] := by
    intro status address keys hkeys
    rcases keysFor_ok hkeys with ⟨hne, -⟩ | ⟨-, -, rfl⟩ | ⟨rfl, -⟩
    · exact absurd rfl hne
    · exact mem_cons_of_mem _ (mem_cons_self ..)
    · exact mem_cons_self ..
  cases h with
  | pending h =>
    unfold checkLimits at h
    split at h
    · cases h
    split at h
    · split at h
      · obtain ⟨e', he, hcall⟩ := map_ok h
        cases hcall
        obtain ⟨keys, hkeys, rfl⟩ := map_ok he
        exact ⟨ApprovalStatus.noConfusion, hpriv hkeys, rfl⟩
      · cases h
    · cases h
  | approved h hrows he =>
    unfold enrollApproved at he
    split at he
    · cases he
    · obtain ⟨keys, hkeys, rfl⟩ := map_ok he
      exact ⟨ApprovalStatus.noConfusion, hpriv hkeys, rfl⟩

structure RowOrigin (cfg : Config) (s : State) (generated : String × String) (dto : PeerDto)
    (row : PeerRow) : Prop where
  privateKey : row.privateKey ∈ ["", generated.2] ∨
    ∃ r ∈ s.peers, r.id = row.id ∧ r.privateKey = row.privateKey
  token : (s.peers.get row.id = none ∧ row.token = dto.token) ∨
    ∃ r ∈ s.peers, r.id = row.id ∧ r.token = row.token ∧ (OtherToken dto r → TakesOver cfg s dto)

theorem Performs.registration (h : Performs cfg s generated (.register dto) t answer)
    (hids : s.Issued) :
    (t = s.peers ∧ answer = none) ∨
    ∃ row, RowOrigin cfg s generated dto row ∧
      (∀ id, t.get id = if id = row.id then some row else s.peers.get id) ∧
      ∀ row', answer = some row' → row' = row := by
  cases h with
  | failed => exact .inl ⟨rfl, rfl⟩
  | @saved _ w _ hw ht =>
    obtain ⟨keys, now, -, hkeys, hrow⟩ := hw.registered
    have hid : w.read.id = w.row.id := w.id_eq.symm
    refine .inr ⟨w.row, ⟨?_, ?_⟩, ?_, ?_⟩
    · have hpriv : w.row.privateKey = keys.2 := by rw [hrow]; rfl
      rw [hpriv]
      rcases keysFor_ok hkeys with ⟨-, rfl⟩ | ⟨-, -, rfl⟩ | ⟨rfl, -⟩
      · exact .inr ⟨w.read, hw.read_mem, hid, rfl⟩
      · exact .inl (mem_cons_of_mem _ (mem_cons_self ..))
      · exact .inl (mem_cons_self ..)
    · exact .inr ⟨w.read, hw.read_mem, hid, by rw [hrow]; rfl, hw.takesOver ht⟩
    · rw [← hid]
      exact hw.get ht
    · intro row' hrow'
      exact (Option.some.inj hrow').symm
  | @enrolled _ tok now e id _ htok hnew hexp hnow he hid ht counted =>
    obtain ⟨hst, hpriv, htk⟩ := he.row
    rw [normalized_token] at htk
    have hcr := created_eq id hst
    have hnone : s.peers.get id = none := by
      rw [eq_none_iff_forall_ne_some]
      intro r hr
      have hrid := s.peers.keyed id r hr
      exact hid (hrid ▸ hids r (PeerTable.mem_of_get hr))
    refine .inr ⟨PeerTable.created id e.row, ⟨.inl ?_, .inl ⟨hnone, ?_⟩⟩,
      get_create ht, ?_⟩
    · rw [hcr]
      exact hpriv
    · rw [hcr]
      exact htk
    intro row' hrow'
    split at hrow'
    · exact (Option.some.inj hrow').symm
    · cases hrow'

def keyedRegistrations (cfg : Config) : LTS State Event where
  init s := s.Issued ∧ KeysDistinct s.peers
  step s e t := (∃ dto, e.req = .register dto) ∧ Fresh s e.generated ∧ (sequential cfg).step s e t

theorem RowOrigin.privateKey_mem {row : PeerRow} (h : RowOrigin cfg s generated dto row)
    (hfr : Fresh s generated) (hkeys : KeysDistinct s.peers) (hr : r ∈ s.peers)
    (hne : r.privateKey ≠ "") (heq : row.privateKey = r.privateKey) : r.id = row.id := by
  rcases h.privateKey with hnew | ⟨r', hr', hid, hsame⟩
  · rw [heq, mem_cons, mem_singleton] at hnew
    rcases hnew with hemp | hgenerated
    · exact absurd hemp hne
    · exact absurd hgenerated (hfr r hr)
  · exact (hkeys r hr r' hr' hne (heq.symm.trans hsame.symm)).trans hid

theorem KeysDistinct.performs (hkeys : KeysDistinct s.peers) (hids : s.Issued)
    (hfr : Fresh s generated) (h : Performs cfg s generated (.register dto) t answer) :
    KeysDistinct t := by
  rcases h.registration hids with ⟨rfl, -⟩ | ⟨row, hori, hget, -⟩
  · exact hkeys
  intro r hr r' hr' hne heq
  rw [PeerTable.mem_iff, hget] at hr hr'
  split at hr <;> split at hr'
  · next hid hid' => exact hid.trans hid'.symm
  · next hid hid' =>
    cases hr
    exact (hori.privateKey_mem hfr hkeys hr' (heq ▸ hne) heq).symm
  · next hid hid' =>
    cases hr'
    exact hori.privateKey_mem hfr hkeys hr hne heq.symm
  · exact hkeys r hr r' hr' hne heq

theorem keyedRegistrations_invariant (h : (keyedRegistrations cfg).Reachable s) :
    s.Issued ∧ KeysDistinct s.peers := by
  apply h.invariant
  · exact fun _ hs => hs
  rintro s e t - ⟨hids, hkeys⟩ ⟨⟨dto, hreq⟩, hfr, hperf, -, hiss⟩
  rw [hreq] at hperf
  exact ⟨hiss, hkeys.performs hids hfr hperf⟩

theorem Performs.separated (h : Performs cfg s generated (.register dto) t answer) (hids : s.Issued)
    (hkeys : KeysDistinct s.peers) (hfr : Fresh s generated) (hnone : ¬ TakesOver cfg s dto)
    (relayURL enforcerMode : String) :
    Separated dto s.peers t (answer.map (respond relayURL enforcerMode)) := by
  rcases h.registration hids with ⟨rfl, rfl⟩ | ⟨row, hori, hget, hans⟩
  · refine ⟨nofun, nofun, ?_⟩
    intro r hr _ r' hr' hid
    rw [PeerTable.mem_iff, hid] at hr'
    rw [Option.some.inj (hr'.symm.trans hr)]
  have hown : ¬ OtherToken dto row := by
    intro hoth
    rcases hori.token with ⟨-, htk⟩ | ⟨r, -, -, htk, htak⟩
    · exact hoth.2 htk
    refine hnone (htak ?_)
    unfold OtherToken at hoth ⊢
    rwa [htk]
  have hbef : ∀ r, r ∈ s.peers ∨ r ∈ t → OtherToken dto r → r ∈ s.peers ∧ r.id ≠ row.id := by
    intro r hr hoth
    have hsta : ∀ r ∈ s.peers, OtherToken dto r → r.id ≠ row.id := by
      intro r hr hoth hid
      rcases hori.token with ⟨hfree, -⟩ | ⟨r', hr', hid', -, htak⟩
      · rw [PeerTable.mem_iff, hid, hfree] at hr
        cases hr
      rw [PeerTable.mem_iff, hid, ← hid'] at hr
      cases Option.some.inj (hr.symm.trans hr')
      exact hnone (htak hoth)
    rcases hr with hr | hr
    · exact ⟨hr, hsta r hr hoth⟩
    rw [PeerTable.mem_iff, hget] at hr
    split at hr
    · cases hr
      exact absurd hoth hown
    · next hid => exact ⟨hr, hid⟩
  refine ⟨?_, ?_, ?_⟩
  · intro response hres r hr hoth htk
    obtain ⟨row', hrow', rfl⟩ := map_eq_some_iff.1 hres
    cases hans row' hrow'
    change row.token = r.token at htk
    refine hown ?_
    unfold OtherToken at hoth ⊢
    rwa [htk]
  · intro response hres r hr hoth hne hpriv
    obtain ⟨row', hrow', rfl⟩ := map_eq_some_iff.1 hres
    cases hans row' hrow'
    obtain ⟨hmem, hid⟩ := hbef r hr hoth
    exact hid (hori.privateKey_mem hfr hkeys hmem hne hpriv)
  intro r hr hoth r' hr' hid
  have hne := (hbef r (.inl hr) hoth).2
  rw [PeerTable.mem_iff, hid, hget, if_neg hne] at hr'
  rw [Option.some.inj (hr'.symm.trans hr)]

/-- **A registration keeps to the credentials of its own token unless it takes a row over**, in
every state that registrations lead to. -/
theorem credentials_separated_iff (hs : (keyedRegistrations cfg).Reachable s) (dto : PeerDto)
    (hfresh : Fresh s generated) (relayURL enforcerMode : String) :
    (∀ t answer, Performs cfg s generated (.register dto) t answer →
      Separated dto s.peers t (answer.map (respond relayURL enforcerMode))) ↔
    ¬ TakesOver cfg s dto := by
  obtain ⟨hids, hkeys⟩ := keyedRegistrations_invariant hs
  constructor
  · rintro hsep ⟨tok, existing, htak⟩
    obtain ⟨keys, t, -, hperf⟩ := htak.performs generated
    exact (hsep t _ hperf).token _ rfl existing
      (.inl (getByAppID_mem htak.found).1) htak.other rfl
  · intro hnone t answer hperf
    exact hperf.separated hids hkeys hfresh hnone relayURL enforcerMode

theorem laptop_separated : ∃ t, Separated (deviceDto "laptop") (oneRow laptop) t
    (some (respond "" "" laptopReturns.row)) := by
  obtain ⟨t, ht⟩ := laptop_performs
  have hinit : (keyedRegistrations plain).Reachable (laptopState (oneRow laptop) .idle .idle) := by
    refine .init ⟨issued_laptop, ?_⟩
    intro r hr r' hr' _ _
    rw [mem_oneRow.1 hr, mem_oneRow.1 hr']
  have hfr : Fresh (laptopState (oneRow laptop) .idle .idle) ("public", "private") := by
    intro r hr
    rw [mem_oneRow.1 hr]
    decide
  have hnone : ¬ TakesOver plain (laptopState (oneRow laptop) .idle .idle) (deviceDto "laptop") := by
    rintro ⟨tok, existing, htak⟩
    have hmem := (getByAppID_mem htak.found).1
    rw [mem_oneRow.1 hmem] at htak
    exact htak.other.2 rfl
  exact ⟨t, (credentials_separated_iff hinit (deviceDto "laptop") hfr "" "").2 hnone t _ ht⟩

def ownerToken : TokenRow := ⟨"t0", "owner", "ws", 100, 0, 0, false⟩

def keylessDto (token : String) : PeerDto :=
  { deviceDto "laptop" with token := token, publicKey := "" }

def twoTokens (peers : PeerTable) (issued : Finset String) : State where
  peers := peers
  tokens := (tokenTable ownerToken).insert (deviceToken 0) (by
    intro r hr
    have hget : (tokenTable ownerToken).get r.id = some r := hr
    rw [tokenTable, TokenTable.get_insert] at hget
    split at hget
    · cases hget
      decide
    · cases hget)
  workspaces := .empty
  issued := issued
  now := 0
  calls _ := .idle
  enrolled := []

def owned : PeerRow :=
  { registered (keylessDto "owner") ("public", "private") 0
      (newPeer (keylessDto "owner") ownerToken .approved "10.96.0.2") with id := "p1" }

theorem normalized_keyless (token : String) : (keylessDto token).normalized = keylessDto token :=
  congrArg (fun appID => { keylessDto token with appID := appID }) normalized_laptop

theorem owner_performs : Performs plain (twoTokens .empty ∅) ("public", "private")
    (.register (keylessDto "owner")) (oneRow owned) (some owned) := by
  have hasUses : ownerToken.HasUses := by decide
  obtain ⟨e, he, -, hrow⟩ := @exists_enrollApproved plain (keylessDto "owner")
    ("public", "private") ("public", "private") 0 0 ownerToken hasUses [] "10.96.0.2"
    allocateAddress_nil rfl
  have hcr : PeerTable.created "p1" e.row = owned := by
    rw [hrow]
    rfl
  have ht : PeerTable.empty.create "p1" e.row = some (oneRow owned) := by
    unfold PeerTable.create
    rw [hcr]
    rfl
  have henr : Enrolls plain (twoTokens .empty ∅) ("public", "private") (keylessDto "owner")
      ownerToken 0 e := .approved rfl (List.Perm.refl _) he
  have h := @Performs.enrolled plain (twoTokens .empty ∅) ("public", "private")
    (keylessDto "owner") ownerToken 0 e "p1" (oneRow owned) ⟨by decide, rfl⟩ rfl (by decide)
    le_rfl (by rwa [normalized_keyless]) (by decide) ht true
  rwa [if_pos rfl, hcr] at h

theorem token_taken_over : ∃ s t row, (keyedRegistrations plain).Reachable s ∧
    Performs plain s ("public2", "private2") (.register (keylessDto "enroll")) t (some row) ∧
    (respond "" "" row).token = "owner" ∧ (respond "" "" row).privateKey = "private" ∧
    ¬ Separated (keylessDto "enroll") s.peers t (some (respond "" "" row)) := by
  have hinit : (keyedRegistrations plain).Reachable (twoTokens .empty ∅) :=
    .init ⟨fun r hr => absurd hr (PeerTable.not_mem_empty r),
      fun r hr => absurd hr (PeerTable.not_mem_empty r)⟩
  have hiss : (twoTokens (oneRow owned) {"p1"}).Issued := by
    intro r hr
    rw [mem_oneRow.1 hr]
    decide
  have hs : (keyedRegistrations plain).Reachable (twoTokens (oneRow owned) {"p1"}) :=
    hinit.step (l := ⟨.register (keylessDto "owner"), ("public", "private"), some owned⟩)
      ⟨⟨_, rfl⟩, fun r hr => absurd hr (PeerTable.not_mem_empty r), owner_performs,
        Finset.empty_subset _, hiss⟩
  have hoth : OtherToken (keylessDto "enroll") owned :=
    ⟨by change "owner" ≠ ""; decide, by change "owner" ≠ "enroll"; decide⟩
  have hkey : KeyAccepted plain (keylessDto "enroll") owned := by
    have hemp : (keylessDto "enroll").publicKey = "" := rfl
    unfold KeyAccepted
    rw [if_pos hemp]
    exact .inl (by change "private" ≠ ""; decide)
  have htak : TakesOverRow plain (twoTokens (oneRow owned) {"p1"}) (keylessDto "enroll")
      (deviceToken 0) owned := by
    refine ⟨⟨by decide, rfl⟩, ?_, hoth, by decide, rfl, hkey, fun h => absurd h (by decide)⟩
    rw [normalized_keyless]
    exact getByAppID_oneRow owned
  obtain ⟨keys, t, hkeys, hperf⟩ := htak.performs ("public2", "private2")
  rw [normalized_keyless] at hkeys hperf
  cases hkeys
  refine ⟨_, t, _, hs, hperf, rfl, rfl, ?_⟩
  intro hsep
  exact hsep.token _ rfl owned (.inl (mem_oneRow.2 rfl)) hoth rfl

end LatticeMesh.Registry
