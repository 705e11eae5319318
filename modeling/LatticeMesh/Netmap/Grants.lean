import LatticeMesh.Firewall.Priority
import LatticeMesh.Netmap.Builder

/-! # Route grants and credentials -/

namespace LatticeMesh.Netmap

open Firewall Registry Text

variable {ν : Type} {lib : Library ν} {b : NetmapBuilder} {db : Database} {clock : Clock}
  {peer row : PeerRow} {providers : List String}

def Database.AddressesValid (db : Database) : Prop :=
  ∀ r ∈ db.peers, r.address ≠ "" → (parseIPv4 r.address).isSome

def hostRoutes (b : NetmapBuilder) (address : String) (ip : IPv4) : List String :=
  (address ++ "/32") :: if b.ipv6Enabled then [derive ip ++ "/128"] else []

def Database.Selected (db : Database) (c r : PeerRow) : Prop :=
  ⟨c.workspaceID, c.id, r.id⟩ ∈ db.selections

instance (c r : PeerRow) : Decidable (db.Selected c r) := inferInstanceAs (Decidable (_ ∈ _))

def grants (lib : Library ν) (b : NetmapBuilder) (db : Database) (c r : PeerRow) : List String :=
  let routes := parseAdvertisedRoutes lib r.advertisedRoutes
  (if db.Selected c r ∧ Online b r then routes else []) ++
    if db.Selected c r ∧ Online b r ∧ b.ipv6Enabled ∧ "0.0.0.0/0" ∈ routes ∧
      ReportsIPv6Egress b r then ["::/0"] else []

theorem toInfraPeer_allowedIPs {ip : IPv4} (h : parseIPv4 row.address = some ip) :
    (toInfraPeer lib b row).allowedIPs = join ',' (hostRoutes b row.address ip) := by
  have hpla : (dbToInfraPeer lib row).allowedIPs = row.address ++ "/32" := by
    simp [dbToInfraPeer, Library.parseIP, h]
  unfold toInfraPeer hostRoutes
  by_cases h6 : b.ipv6Enabled = true
  · simp [h6, hpla, hostAllowedIPs_of_parseIPv4 h]
  · simp [h6, hpla, join]

variable {c r : PeerRow}

theorem mem_providers (h : providers.Perm (db.listProviderIDsForConsumer c.workspaceID c.id)) :
    r.id ∈ providers ↔ db.Selected c r := by
  unfold Database.listProviderIDsForConsumer at h
  rw [h.mem_iff, List.mem_map]
  simp only [List.mem_filter, decide_eq_true_eq]
  constructor
  · rintro ⟨⟨ws, consumer, provider⟩, ⟨hmem, rfl, rfl⟩, rfl⟩
    exact hmem
  · intro hsel
    exact ⟨_, ⟨hsel, rfl, rfl⟩, rfl⟩

theorem entry_allowedIPs_eq (row : PeerRow) :
    (entry lib b providers row).allowedIPs =
      if Granted b providers row ∧ providerRoutes lib b row ≠ [] then
        join ',' ((toInfraPeer lib b row).allowedIPs :: providerRoutes lib b row)
      else (toInfraPeer lib b row).allowedIPs := by
  unfold entry
  by_cases hr : b.relayURL = "" <;> simp only [hr, ne_eq, not_true_eq_false, not_false_eq_true,
    if_true, if_false] <;> split <;> rfl

theorem entry_allowedIPs {ip : IPv4}
    (hp : providers.Perm (db.listProviderIDsForConsumer c.workspaceID c.id))
    (hip : parseIPv4 r.address = some ip) :
    (entry lib b providers r).allowedIPs =
      join ',' (hostRoutes b r.address ip ++ grants lib b db c r) := by
  have hgra : Granted b providers r ↔ db.Selected c r ∧ Online b r := by
    unfold Granted
    rw [mem_providers hp]
  rw [entry_allowedIPs_eq, toInfraPeer_allowedIPs hip]
  simp only [hgra]
  unfold hostRoutes
  rw [join_cons_append]
  by_cases hsel : db.Selected c r ∧ Online b r
  · have hrts : providerRoutes lib b r = grants lib b db c r := by
      unfold providerRoutes grants
      simp only [hsel, and_self, true_and, if_true]
      split <;> split <;> simp_all
    rw [hrts]
    split
    · rfl
    · next hnil => simp_all
  have hgran : grants lib b db c r = [] := by
    unfold grants
    dsimp only
    rw [if_neg hsel, if_neg fun h => hsel ⟨h.1, h.2.1⟩, List.append_nil]
  rw [if_neg fun h => hsel h.1, hgran, List.append_nil]

def Message.CredentialsConfined (m : Message ν) : Prop :=
  ∀ p ∈ m.entries, p.privateKey = "" ∧ ¬ Tokenised p.relayURL

theorem Build.credentialsConfined_iff (x : Build lib b db clock peer) :
    x.message.CredentialsConfined ↔ ¬ Tokenised b.relayURL ∨
      ∀ r ∈ db.peers, r.workspaceID = peer.workspaceID → ¬ Listed r := by
  have hent : ∀ r, (entry lib b x.providers r).privateKey = "" ∧
      (entry lib b x.providers r).relayURL = b.relayURL := by
    intro r
    obtain ⟨allowedIPs, h⟩ := entry_eq lib b x.providers r
    rw [h]
    exact ⟨rfl, rfl⟩
  constructor
  · intro hconf
    by_cases htk : Tokenised b.relayURL
    · right
      intro r hr hws hl
      have hp := x.mem_entries.2 ⟨r, x.mem_rows.2 ⟨hr, hws⟩, hl, rfl⟩
      exact (hent r).2 ▸ (hconf _ hp).2 <| htk
    · exact .inl htk
  intro hcond p hp
  obtain ⟨r, hr, hl, rfl⟩ := x.mem_entries.1 hp
  rw [(hent r).2]
  refine ⟨(hent r).1, ?_⟩
  rcases hcond with htk | hnone
  · exact htk
  · obtain ⟨hmem, hws⟩ := x.mem_rows.1 hr
    exact absurd hl (hnone r hmem hws)

theorem currentPeer_privateKey : (currentPeer lib b peer).privateKey = peer.privateKey := by
  unfold currentPeer
  dsimp only
  split <;> rfl

def Message.withoutCredentials (m : Message ν) : Message ν :=
  { m with configVersion := none, current := { m.current with privateKey := "", relayURL := "" } }

def rekey (κ : String → String) (r : PeerRow) : PeerRow := { r with privateKey := κ r.id }

def rekeyTable (κ : String → String) (t : PeerTable) : PeerTable where
  rows := t.rows.mapVal (rekey κ)
  keyed := by
    intro id r h
    rw [GoMap.get_mapVal] at h
    obtain ⟨r', hr', rfl⟩ := Option.map_eq_some_iff.1 h
    exact t.keyed id r' hr'
  unique := by
    intro r r' h h'
    rw [GoMap.get_mapVal] at h h'
    obtain ⟨q, hq, rfl⟩ := Option.map_eq_some_iff.1 h
    obtain ⟨q', hq', rfl⟩ := Option.map_eq_some_iff.1 h'
    exact t.unique q q' hq hq'

def Database.rekey (db : Database) (κ : String → String) : Database :=
  { db with peers := rekeyTable κ db.peers }

variable {κ : String → String}

theorem list_rekeyTable (t : PeerTable) : (rekeyTable κ t).list = t.list.map (rekey κ) := by
  unfold PeerTable.list rekeyTable
  rw [GoMap.toList_mapVal, List.map_map, List.map_map]
  rfl

theorem filter_map_rekey (p : PeerRow → Bool) (hp : ∀ r, p (rekey κ r) = p r) (l : List PeerRow) :
    (l.map (rekey κ)).filter p = (l.filter p).map (rekey κ) := by
  rw [List.filter_map]
  congr 2
  funext r
  exact hp r

theorem lists_rekeyTable {t : PeerTable} {ws : String} {rows : List PeerRow}
    (h : t.Lists ws rows) : (rekeyTable κ t).Lists ws (rows.map (rekey κ)) := by
  unfold PeerTable.Lists at h ⊢
  rw [list_rekeyTable, filter_map_rekey _ fun r => rfl]
  exact h.map _

theorem argmin_map_rekey (l : List PeerRow) :
    (l.map (rekey κ)).argmin PeerRow.id = (l.argmin PeerRow.id).map (rekey κ) := by
  induction l with
  | nil => rfl
  | cons r l ih =>
    rw [List.map_cons, List.argmin_cons, List.argmin_cons, ih]
    cases l.argmin PeerRow.id with
    | none => rfl
    | some q =>
      simp only [Option.map_some]
      split <;> split <;> simp_all [rekey]

theorem getByAppID_rekeyTable {t : PeerTable} {appID : String} (h : t.getByAppID appID = some c) :
    (rekeyTable κ t).getByAppID appID = some (rekey κ c) := by
  unfold PeerTable.getByAppID at h ⊢
  rw [list_rekeyTable, filter_map_rekey _ fun r => rfl, argmin_map_rekey, h]
  rfl

variable {url : String}

theorem network_rekey (rows : List PeerRow) :
    network lib { b with selfRelayURL := url } (rekey κ peer) providers (rows.map (rekey κ)) =
      network lib b peer providers rows := by
  unfold network
  rw [filter_map_rekey _ fun r => rfl, List.map_map]
  rfl

theorem computedPeers_rekey (rows : List PeerRow) :
    computedPeers lib { b with selfRelayURL := url } (rekey κ peer) providers
        (rows.map (rekey κ)) = computedPeers lib b peer providers rows := by
  unfold computedPeers
  rw [filter_map_rekey _ fun r => rfl, filter_map_rekey _ fun r => rfl, List.map_map]
  rfl

def Build.rekey (κ : String → String) (url : String) (x : Build lib b db clock peer) :
    Build lib { b with selfRelayURL := url } (db.rekey κ) clock (Netmap.rekey κ peer) where
  rows := x.rows.map (Netmap.rekey κ)
  rows_listed := lists_rekeyTable x.rows_listed
  policies := x.policies
  policies_listed := x.policies_listed
  identities := x.identities
  identities_listed := x.identities_listed
  providers := x.providers
  providers_listed := x.providers_listed
  wire := x.wire
  wire_eq := x.wire_eq
  ruled := x.ruled
  ruled_eq := x.ruled_eq
  rules := x.rules
  evaluates := by
    rw [network_rekey]
    exact x.evaluates

theorem currentPeer_rekey :
    { currentPeer lib { b with selfRelayURL := url } (rekey κ peer) with
      privateKey := "", relayURL := "" } =
    { currentPeer lib b peer with privateKey := "", relayURL := "" } := by
  unfold currentPeer
  dsimp only
  split <;> split <;> rfl

theorem Build.message_rekey (x : Build lib b db clock peer) :
    (x.rekey κ url).message.withoutCredentials = x.message.withoutCredentials := by
  have hnet : (x.rekey κ url).content.network = x.content.network := network_rekey x.rows
  have hcom : (x.rekey κ url).message.computedPeers = x.message.computedPeers :=
    computedPeers_rekey x.rows
  have hcur : { (x.rekey κ url).content.current with privateKey := "", relayURL := "" } =
      { x.content.current with privateKey := "", relayURL := "" } := currentPeer_rekey
  unfold Message.withoutCredentials
  simp only [Message.mk.injEq, true_and]
  exact ⟨rfl, rfl, hcur, congrArg some hnet, rfl, hcom, rfl⟩

/-- **A netmap grants the routes that were selected, and no credentials but the consumer's own.** A
relay address with a token is on other records exactly if the advertised address has one itself. -/
theorem netmap_grants {appID token : String} {m : Message ν} (hv : db.AddressesValid)
    (h : BuildsForAppID lib b db clock appID token (.ok m)) :
    ∃ c, db.peers.getByAppID appID = some c ∧
      (∀ r ∈ db.peers, r.workspaceID = c.workspaceID → r.id ≠ c.id →
        ∀ p ∈ m.entries, p.name = r.name → ∃ ip, parseIPv4 r.address = some ip ∧
          p.allowedIPs = join ',' (hostRoutes b r.address ip ++ grants lib b db c r)) ∧
      m.current.privateKey = c.privateKey ∧
      (∀ κ url, ∃ m', BuildsForAppID lib { b with selfRelayURL := url } (db.rekey κ) clock appID
        token (.ok m') ∧ m'.withoutCredentials = m.withoutCredentials) ∧
      (m.CredentialsConfined ↔ ¬ Approved c ∨ ¬ Tokenised b.relayURL ∨
        ∀ r ∈ db.peers, r.workspaceID = c.workspaceID → ¬ Listed r) := by
  generalize hres : Except.ok m = res at h
  cases h with
  | notFound | tokenMismatch | disabled | invalidSpec => cases hres
  | @pending c hc ht hd ha =>
    cases hres
    have hnone : ∀ p, p ∉ (pendingMessage lib c).entries := fun p hp => nomatch hp
    refine ⟨c, hc, ?_, rfl, ?_, ?_⟩
    · intro r _ _ _ p hp
      exact absurd hp (hnone p)
    · intro κ url
      exact ⟨pendingMessage lib (rekey κ c), .pending (getByAppID_rekeyTable hc) ht hd ha, rfl⟩
    · exact iff_of_true (fun p hp => absurd hp (hnone p)) (.inl ha)
  | @built c hc ht hd ha x =>
    cases hres
    refine ⟨c, hc, ?_, currentPeer_privateKey, ?_, ?_⟩
    · intro r hr hws _ p hp hname
      obtain ⟨row, hrow, hl, rfl⟩ := x.mem_entries.1 hp
      obtain rfl := x.row_eq_of_name hrow hr hws (entry_name ▸ hname)
      obtain ⟨ip, hip⟩ := Option.isSome_iff_exists.1 (hv row hr hl.2)
      exact ⟨ip, hip, entry_allowedIPs x.providers_listed hip⟩
    · intro κ url
      exact ⟨(x.rekey κ url).message, @BuildsForAppID.built _ _ _ _ _ _ _ (rekey κ c)
        (getByAppID_rekeyTable hc) ht hd ha (x.rekey κ url), x.message_rekey⟩
    · rw [x.credentialsConfined_iff]
      exact ⟨.inr, fun h => h.resolve_left fun hn => hn ha⟩

def phone : PeerRow where
  id := "p1"
  workspaceID := "ws"
  name := "phone"
  appID := "phone"
  token := "enroll"
  publicKey := "key-phone"
  privateKey := "secret-phone"
  address := "10.96.0.2"
  endpoint := ""
  hostname := ""
  platform := "ios"
  labels := ""
  advertisedRoutes := ""
  approvalStatus := .approved
  approvedAt := none
  disabled := false
  lastSeenAt := none
  description := ""

def exitNode (disabled : Bool) : PeerRow :=
  { phone with
    id := "p2", name := "exit", appID := "exit", publicKey := "key-exit",
    privateKey := "secret-exit", address := "10.96.0.3", platform := "linux",
    advertisedRoutes := "[\"0.0.0.0/0\"]", disabled := disabled }

def pairDatabase (disabled : Bool) : Database where
  peers := (PeerTable.empty.put phone fun _ h => nomatch h).put (exitNode disabled) (by
    intro r hr _ hname
    obtain rfl : r = phone := List.mem_singleton.1 hr
    exact absurd (show "phone" = "exit" from hname) (by decide))
  policies := []
  identities := []
  selections := [⟨"ws", "p1", "p2"⟩]
  policies_unique := .nil
  identities_unique := .nil

theorem mem_pairDatabase {disabled : Bool} :
    r ∈ (pairDatabase disabled).peers ↔ r = exitNode disabled ∨ r = phone := by
  rw [← PeerTable.mem_list]
  change r ∈ [exitNode disabled, phone] ↔ _
  simp

def tableLibrary : Library Content where
  case := tableCase
  unmarshalRoutes s := if s = "[\"0.0.0.0/0\"]" then some ["0.0.0.0/0"] else none
  unmarshalLabels _ := .empty
  unmarshalSpec := tableSpecs
  parseCIDR s := s == "0.0.0.0/0"
  isIPv6 _ := false
  hash := id

def dualStack (advertise : String) : Config where
  relayAdvertiseURL := advertise
  relayAuthToken := "s3cret"
  overlayIPv6 := true
  presence := some (fun _ => true, fun _ => true)
  queryEscape := id

def phoneBuild (disabled : Bool) (advertise : String) : Build tableLibrary
    (newPeerService (dualStack advertise)) (pairDatabase disabled) ⟨0, 0, 0, 0⟩ phone where
  rows := [phone, exitNode disabled]
  rows_listed := List.Perm.swap (exitNode disabled) phone []
  policies := []
  policies_listed := .nil
  identities := []
  identities_listed := .nil
  providers := ["p2"]
  providers_listed := .refl _
  wire := []
  wire_eq := rfl
  ruled := []
  ruled_eq := rfl
  rules := ⟨"ios", emit tableCase .ingress [], emit tableCase .egress []⟩
  evaluates := ⟨[], [], .nil, .nil, rfl⟩

theorem builds_phoneBuild (disabled : Bool) (advertise : String) :
    BuildsForAppID tableLibrary (newPeerService (dualStack advertise)) (pairDatabase disabled)
      ⟨0, 0, 0, 0⟩ "phone" "enroll" (.ok (phoneBuild disabled advertise).message) :=
  .built rfl (by decide) rfl (.inr rfl) (phoneBuild disabled advertise)

theorem mem_phoneBuild (disabled : Bool) (advertise : String) :
    entry tableLibrary (newPeerService (dualStack advertise)) ["p2"] (exitNode disabled) ∈
      (phoneBuild disabled advertise).message.entries := by
  have hadr : (exitNode disabled).address ≠ "" := show "10.96.0.3" ≠ "" by decide
  rw [Build.mem_entries]
  exact ⟨exitNode disabled, List.mem_cons_of_mem _ List.mem_cons_self, ⟨.inr rfl, hadr⟩, rfl⟩

theorem addressesValid_pairDatabase : (pairDatabase false).AddressesValid := by
  intro r hr _
  rcases mem_pairDatabase.1 hr with rfl | rfl
  · decide +kernel
  · decide +kernel

theorem exit_routes_granted : ∃ m, BuildsForAppID tableLibrary
    (newPeerService (dualStack "relay.example:6266")) (pairDatabase false) ⟨0, 0, 0, 0⟩ "phone"
    "enroll" (.ok m) ∧
    (∃ p ∈ m.entries, p.name = "exit" ∧
      p.allowedIPs = "10.96.0.3/32,fd6c:7270:6c74::a60:3/128,0.0.0.0/0,::/0") ∧
    m.current.privateKey = "secret-phone" ∧ m.CredentialsConfined := by
  have hbui := builds_phoneBuild false "relay.example:6266"
  obtain ⟨c, hc, hgra, hkey, -, hconf⟩ := netmap_grants addressesValid_pairDatabase hbui
  obtain rfl : phone = c := Option.some.inj hc
  obtain ⟨ip, hip, hips⟩ := hgra (exitNode false) (mem_pairDatabase.2 (.inl rfl)) rfl
    (by decide) _ (mem_phoneBuild false _) rfl
  obtain rfl : ip = ⟨10, 96, 0, 3⟩ := Option.some.inj (hip.symm.trans (by decide +kernel))
  refine ⟨_, hbui, ⟨_, mem_phoneBuild false _, rfl, hips.trans ?_⟩, hkey,
    hconf.2 (.inr (.inl ?_))⟩
  · decide +kernel
  · decide +kernel

theorem advertised_token_listed : ∃ m, BuildsForAppID tableLibrary
    (newPeerService (dualStack "relay.example:6266?token=s3cret")) (pairDatabase false)
    ⟨0, 0, 0, 0⟩ "phone" "enroll" (.ok m) ∧
    ∃ p ∈ m.entries, p.name = "exit" ∧ Tokenised p.relayURL := by
  refine ⟨_, builds_phoneBuild false _, _, mem_phoneBuild false _, rfl, ?_⟩
  decide +kernel

end LatticeMesh.Netmap
