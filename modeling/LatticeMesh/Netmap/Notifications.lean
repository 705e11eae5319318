import LatticeMesh.Registry.Calls
import LatticeMesh.Netmap.ConfigVersion
import LatticeMesh.Netmap.Grants

/-! # Who is told that the netmaps have changed -/

namespace LatticeMesh.Netmap

open Firewall Registry Text List PeerTable

variable {ν : Type} {lib : Library ν} {b : NetmapBuilder} {db db' : Database} {clock : Clock}
  {appID token : String}

def notifyWorkspacePeers (rows : List PeerRow) (exceptAppID : String) : List String :=
  (rows.filter fun r => r.appID ≠ exceptAppID).map PeerRow.appID

inductive Operation where
  | call (req : Request)
  | setRouteSelection (workspaceID consumerName providerName : String) (selected : Bool)

def Operation.exceptAppID (peer : PeerRow) : Operation → String
  | call (.approval ..) | setRouteSelection .. => ""
  | call _ => peer.appID

def Operation.IncludesPeer : Operation → Prop
  | call (.approval ..) | setRouteSelection .. => True
  | call _ => False

def Operation.Deletes : Operation → Prop
  | call (.delete ..) => True
  | _ => False

def Database.select (db : Database) (sel : RouteSelection) : Database :=
  { db with selections := if sel ∈ db.selections then db.selections else sel :: db.selections }

def Database.deselect (db : Database) (sel : RouteSelection) : Database :=
  { db with selections := db.selections.filter fun sel' => sel' ≠ sel }

inductive Operates (cfg : Registry.Config) (s : State) (db : Database) :
    Operation → Database → PeerRow → List String → Prop
  | written {req : Request} {generated : String × String} {t : PeerTable} {peer : PeerRow}
      {rows : List PeerRow} (hpeers : s.peers = db.peers)
      (h : Performs cfg s generated req t (some peer)) (hrows : t.Lists peer.workspaceID rows) :
      Operates cfg s db (.call req) { db with peers := t } peer
        (notifyWorkspacePeers rows ((Operation.call req).exceptAppID peer))
  | deleted {workspaceID name : String} {rows : List PeerRow} {peer : PeerRow}
      (hrows : db.peers.Lists workspaceID rows) (hpeer : findByName rows name = .ok peer) :
      Operates cfg s db (.call (.delete workspaceID name))
        { db with peers := db.peers.delete peer.id } peer []
  | routeSelection {workspaceID consumerName providerName : String} {selected : Bool}
      {rows rows' rows'' : List PeerRow} {consumer provider : PeerRow}
      (hne : consumerName ≠ providerName) (hrows : db.peers.Lists workspaceID rows)
      (hconsumer : findByName rows consumerName = .ok consumer)
      (hrows' : db.peers.Lists workspaceID rows')
      (hprovider : findByName rows' providerName = .ok provider)
      (hrows'' : db.peers.Lists consumer.workspaceID rows'') :
      Operates cfg s db (.setRouteSelection workspaceID consumerName providerName selected)
        (if selected then db.select ⟨consumer.workspaceID, consumer.id, provider.id⟩
        else db.deselect ⟨consumer.workspaceID, consumer.id, provider.id⟩)
        consumer (notifyWorkspacePeers rows'' "")

def NetmapChanged (lib : Library ν) (b : NetmapBuilder) (db db' : Database) (appID : String) :
    Prop :=
  ∃ clock token, BuildsForAppID lib b db clock appID token ≠
    BuildsForAppID lib b db' clock appID token

structure SameFor (db db' : Database) (appID : String) : Prop where
  found : db.peers.getByAppID appID = db'.peers.getByAppID appID
  policies : db.policies = db'.policies
  identities : db.identities = db'.identities
  rows : ∀ c, db.peers.getByAppID appID = some c → ∀ rows,
    (db.peers.Lists c.workspaceID rows ↔ db'.peers.Lists c.workspaceID rows)
  providers : ∀ c, db.peers.getByAppID appID = some c →
    db.listProviderIDsForConsumer c.workspaceID c.id =
      db'.listProviderIDsForConsumer c.workspaceID c.id

theorem SameFor.symm (h : SameFor db db' appID) : SameFor db' db appID where
  found := h.found.symm
  policies := h.policies.symm
  identities := h.identities.symm
  rows c hc rows := (h.rows c (h.found.trans hc) rows).symm
  providers c hc := (h.providers c (h.found.trans hc)).symm

theorem SameFor.active (h : SameFor db db' appID) (workspaceID : String) (now : Registry.Time) :
    db.listActiveByWorkspace workspaceID now = db'.listActiveByWorkspace workspaceID now := by
  unfold Database.listActiveByWorkspace
  rw [h.policies]

def SameFor.transport (h : SameFor db db' appID) {c : PeerRow}
    (hc : db.peers.getByAppID appID = some c) (x : Build lib b db clock c) :
    Build lib b db' clock c where
  rows := x.rows
  rows_listed := (h.rows c hc x.rows).1 x.rows_listed
  policies := x.policies
  policies_listed := h.active c.workspaceID clock.listed ▸ x.policies_listed
  identities := x.identities
  identities_listed := by
    have hlisted := x.identities_listed
    unfold Database.listByNetwork at hlisted ⊢
    rwa [← h.identities]
  providers := x.providers
  providers_listed := h.providers c hc ▸ x.providers_listed
  wire := x.wire
  wire_eq := x.wire_eq
  ruled := x.ruled
  ruled_eq := x.ruled_eq
  rules := x.rules
  evaluates := x.evaluates

theorem SameFor.builds_of (h : SameFor db db' appID) {res : Except BuildError (Message ν)}
    (hres : BuildsForAppID lib b db clock appID token res) :
    BuildsForAppID lib b db' clock appID token res := by
  cases hres with
  | notFound hc => exact .notFound (h.found.symm.trans hc)
  | tokenMismatch hc ht => exact .tokenMismatch (h.found.symm.trans hc) ht
  | disabled hc ht hd => exact .disabled (h.found.symm.trans hc) ht hd
  | pending hc ht hd ha => exact .pending (h.found.symm.trans hc) ht hd ha
  | @invalidSpec c hc ht hd ha hp =>
    refine .invalidSpec (h.found.symm.trans hc) ht hd ha ?_
    rwa [← h.active]
  | built hc ht hd ha x => exact .built (h.found.symm.trans hc) ht hd ha (h.transport hc x)

theorem SameFor.builds (h : SameFor db db' appID) : ¬ NetmapChanged lib b db db' appID := by
  rintro ⟨clock, token, hne⟩
  refine hne (funext fun res => propext ⟨h.builds_of, h.symm.builds_of⟩)

theorem mem_notifyWorkspacePeers {rows : List PeerRow} {exceptAppID : String} {r : PeerRow}
    (hr : r ∈ rows) (hne : r.appID ≠ exceptAppID) :
    r.appID ∈ notifyWorkspacePeers rows exceptAppID :=
  List.mem_map_of_mem (mem_filter.2 ⟨hr, decide_eq_true hne⟩)

variable {peer : PeerRow}

theorem exceptAppID_of_includes {op : Operation} (h : op.IncludesPeer) :
    op.exceptAppID peer = "" := by
  cases op with
  | setRouteSelection => rfl
  | call req =>
    cases req with
    | approval => rfl
    | register | disabling | update | routes | delete => exact False.elim h

theorem ne_exceptAppID {op : Operation} (hne : appID ≠ "")
    (hoth : appID ≠ peer.appID ∨ op.IncludesPeer) : appID ≠ op.exceptAppID peer := by
  rcases hoth with hoth | hincludes
  · intro heq
    have hcas : op.exceptAppID peer = "" ∨ op.exceptAppID peer = peer.appID := by
      unfold Operation.exceptAppID
      split
      · exact .inl rfl
      · exact .inl rfl
      · exact .inr rfl
    rcases hcas with hemp | hpeer
    · exact hne (heq.trans hemp)
    · exact hoth (heq.trans hpeer)
  · rw [exceptAppID_of_includes hincludes]
    exact hne

variable {t : PeerTable}

theorem sameFor_of_written {cfg : Registry.Config} {s : State} {generated : String × String}
    {req : Request} (hps : s.peers = db.peers) (hids : s.Issued)
    (h : Performs cfg s generated req t (some peer)) (hoth : appID ≠ peer.appID)
    (hws : ∀ c, t.getByAppID appID = some c → c.workspaceID ≠ peer.workspaceID) :
    SameFor db { db with peers := t } appID := by
  obtain ⟨hget, hbef⟩ := h.written hids rfl
  rw [hps] at hget hbef
  have hsame : ∀ r : PeerRow, r.appID ≠ peer.appID ∨ r.workspaceID ≠ peer.workspaceID →
      (r ∈ db.peers ↔ r ∈ t) := by
    intro r hne
    rw [PeerTable.mem_iff, PeerTable.mem_iff, hget]
    split
    · next hid =>
      refine iff_of_false ?_ ?_
      · intro hr
        rw [hid] at hr
        obtain ⟨hwsEq, happ⟩ := hbef r hr
        exact hne.elim (fun hne => hne happ) fun hne => hne hwsEq
      intro hr
      cases hr
      exact hne.elim (fun hne => hne rfl) fun hne => hne rfl
    · exact Iff.rfl
  have hfnd : db.peers.getByAppID appID = t.getByAppID appID :=
    getByAppID_congr fun r hr => hsame r (.inl (hr ▸ hoth))
  refine ⟨hfnd, rfl, rfl, ?_, fun _ _ => rfl⟩
  intro c hc
  refine lists_congr fun r hr => hsame r (.inr ?_)
  rw [hr]
  exact hws c (hfnd ▸ hc)

theorem sameFor_of_selection {sel : RouteSelection} {selected : Bool}
    (hws : ∀ c, db.peers.getByAppID appID = some c → c.workspaceID ≠ sel.workspaceID) :
    SameFor db (if selected then db.select sel else db.deselect sel) appID := by
  have hfil : ∀ (c : PeerRow) (sels : List RouteSelection), c.workspaceID ≠ sel.workspaceID →
      ((sel :: sels).filter fun p => p.workspaceID = c.workspaceID ∧ p.consumerPeerID = c.id) =
        sels.filter fun p => p.workspaceID = c.workspaceID ∧ p.consumerPeerID = c.id := by
    intro c sels hne
    exact filter_cons_of_neg (by simpa using fun h => absurd h.symm hne)
  cases selected with
  | true =>
    refine ⟨rfl, rfl, rfl, fun _ _ _ => Iff.rfl, ?_⟩
    intro c hc
    unfold Database.listProviderIDsForConsumer Database.select
    simp only [↓reduceIte]
    split
    · rfl
    · rw [hfil c db.selections (hws c hc)]
  | false =>
    refine ⟨rfl, rfl, rfl, fun _ _ _ => Iff.rfl, ?_⟩
    intro c hc
    unfold Database.listProviderIDsForConsumer Database.deselect
    simp only [Bool.false_eq_true, ↓reduceIte, List.filter_filter]
    congr 1
    refine filter_congr fun p _ => ?_
    by_cases hp : p = sel
    · subst hp
      have hne := hws c hc
      simp [Ne.symm hne]
    · simp [hp]

/-- **Whoever else's netmap an operation changes is told**, and so is the peer itself when it is
approved, revoked or selects routes. -/
theorem changed_notified {cfg : Registry.Config} {s : State} {op : Operation} {peer : PeerRow}
    {notified : List String} (hids : s.Issued) (h : Operates cfg s db op db' peer notified)
    (hdelete : ¬ op.Deletes) (hne : appID ≠ "") (hother : appID ≠ peer.appID ∨ op.IncludesPeer)
    (hchanged : NetmapChanged lib b db db' appID) : appID ∈ notified := by
  have hexc := ne_exceptAppID hne hother
  by_contra hmis
  cases h with
  | @written req generated t peer rows hps hperf hrows =>
    have hnot : ∀ r ∈ t, r.workspaceID = peer.workspaceID → r.appID ≠ appID := by
      rintro r hr hws rfl
      exact hmis (mem_notifyWorkspacePeers (hrows.mem_iff.2 ⟨hr, hws⟩) hexc)
    have hwr : peer ∈ t := by
      rw [PeerTable.mem_iff, (hperf.written hids rfl).1, if_pos rfl]
    refine (sameFor_of_written hps hids hperf ?_ ?_).builds hchanged
    · exact fun heq => hnot peer hwr rfl heq.symm
    · intro c hc hws
      exact hnot c (getByAppID_mem hc).1 hws (getByAppID_mem hc).2
  | deleted => exact hdelete trivial
  | @routeSelection _ _ _ selected _ _ rows consumer provider _ _ _ _ _ hrows =>
    have hws : ∀ c, db.peers.getByAppID appID = some c → c.workspaceID ≠ peer.workspaceID := by
      intro c hc hws
      obtain ⟨hmem, rfl⟩ := getByAppID_mem hc
      exact hmis (mem_notifyWorkspacePeers (hrows.mem_iff.2 ⟨hmem, hws⟩) hne)
    exact (sameFor_of_selection hws).builds hchanged

def pairState : State where
  peers := (pairDatabase false).peers
  tokens := .empty
  workspaces := GoMap.empty.set "ws" ⟨"ws", "ns", true⟩
  issued := {"p1", "p2"}
  now := 0
  calls _ := .idle
  enrolled := []

theorem issued_pairState : pairState.Issued := by
  intro r hr
  rcases mem_pairDatabase.1 hr with rfl | rfl
  · decide
  · decide

theorem lists_pairDatabase : (pairDatabase false).peers.Lists "ws" [exitNode false, phone] := .refl _

theorem mem_of_written {row r : PeerRow}
    (hget : ∀ id, t.get id = if id = row.id then some row else (pairDatabase false).peers.get id)
    (hr : r ∈ t) : r = row ∨ ((r = exitNode false ∨ r = phone) ∧ r.id ≠ row.id) := by
  rw [PeerTable.mem_iff, hget] at hr
  split at hr
  · cases hr
    exact .inl rfl
  · next hne => exact .inr ⟨mem_pairDatabase.1 hr, hne⟩

theorem getByAppID_of_written {row : PeerRow}
    (hget : ∀ id, t.get id = if id = row.id then some row else (pairDatabase false).peers.get id)
    (hoth : ∀ r, r = exitNode false ∨ r = phone → r.id ≠ row.id → r.appID ≠ row.appID) :
    t.getByAppID row.appID = some row := by
  rw [getByAppID_eq_some_iff]
  refine ⟨by rw [PeerTable.mem_iff, hget, if_pos rfl], rfl, ?_⟩
  intro r hr happ
  rcases mem_of_written hget hr with rfl | ⟨hpair, hne⟩
  · exact le_rfl
  · exact absurd happ (hoth r hpair hne)

theorem builds_ok {m : Message ν} (h : BuildsForAppID lib b db clock appID token (.ok m)) :
    ∃ c, db.peers.getByAppID appID = some c ∧ c.disabled = false ∧
      m.current.endpoint = c.endpoint ∧ ∀ p ∈ m.entries, ∃ r ∈ db.peers, p.name = r.name := by
  generalize hres : Except.ok m = res at h
  cases h with
  | notFound | tokenMismatch | disabled | invalidSpec => cases hres
  | @pending c hc ht hd ha =>
    cases hres
    exact ⟨c, hc, hd, rfl, nofun⟩
  | @built c hc ht hd ha x =>
    cases hres
    refine ⟨c, hc, hd, ?_, ?_⟩
    · obtain ⟨allowedIPs, heq⟩ := toInfraPeer_eq lib b c
      change (currentPeer lib b c).endpoint = c.endpoint
      unfold currentPeer
      rw [heq]
      dsimp only
      split <;> rfl
    intro p hp
    obtain ⟨r, hr, -, rfl⟩ := x.mem_entries.1 hp
    exact ⟨r, (x.mem_rows.1 hr).1, entry_name⟩

def pairBuilder : NetmapBuilder := newPeerService (dualStack "relay.example:6266")

theorem netmapChanged_of_ok {c : PeerRow} {m : Message Content}
    (h : BuildsForAppID tableLibrary pairBuilder (pairDatabase false) ⟨0, 0, 0, 0⟩ c.appID "enroll"
      (.ok m))
    (hnot : ¬ BuildsForAppID tableLibrary pairBuilder db' ⟨0, 0, 0, 0⟩ c.appID "enroll" (.ok m)) :
    NetmapChanged tableLibrary pairBuilder (pairDatabase false) db' c.appID :=
  ⟨_, _, fun heq => hnot (heq ▸ h)⟩

theorem revoked_exit_notified : ∃ db' peer notified,
    Operates plain pairState (pairDatabase false) (.call (.approval "ns" "exit" .revoked)) db' peer
      notified ∧ peer.appID = "exit" ∧
    NetmapChanged tableLibrary pairBuilder (pairDatabase false) db' "exit" ∧
    "exit" ∈ notified := by
  let w := revoke 0 (exitNode false)
  have hwri : Writes plain pairState ("", "") (.approval "ns" "exit" .revoked) w :=
    @Writes.approval plain pairState ("", "") "ns" "exit" .revoked ⟨"ws", "ns", true⟩ _ 0 w
      (by simp [State.getByNamespace, pairState, GoMap.toList, GoMap.set, GoMap.empty])
      lists_pairDatabase le_rfl rfl
  obtain ⟨t, ht⟩ := pairState.peers.exists_save .sqlite (r := w.row) rfl rfl rfl
  have hperf := Performs.saved hwri ht
  have hget := (hperf.written issued_pairState rfl).1
  have hope := @Operates.written plain pairState (pairDatabase false) _ _ t w.row _ rfl hperf
    (.refl _)
  have hfnd : t.getByAppID "exit" = some w.row := by
    refine getByAppID_of_written hget ?_
    rintro r (rfl | rfl) hne
    · exact absurd rfl hne
    · decide
  have hch : NetmapChanged tableLibrary pairBuilder (pairDatabase false)
      { pairDatabase false with peers := t } "exit" := by
    obtain ⟨x, -⟩ := @exists_build _ tableLibrary pairBuilder (pairDatabase false) ⟨0, 0, 0, 0⟩
      (exitNode false) (fun _ h => by cases h) [] .nil
    refine netmapChanged_of_ok (c := exitNode false) (.built rfl (by decide) rfl (.inr rfl) x) ?_
    intro hok
    obtain ⟨c, hc, hen, -, -⟩ := builds_ok hok
    cases hfnd.symm.trans hc
    cases hen
  refine ⟨_, _, _, hope, rfl, hch, ?_⟩
  exact changed_notified issued_pairState hope id (by decide) (.inr trivial) hch

def pinnedDto : PeerDto := { deviceDto "phone" with endpoint := "203.0.113.7:51820" }

theorem changed_not_notified :
    (∃ db' peer notified,
      Operates plain pairState (pairDatabase false) (.call (.update "ws" pinnedDto)) db' peer
        notified ∧
      NetmapChanged tableLibrary pairBuilder (pairDatabase false) db' "phone" ∧
      "phone" ∉ notified) ∧
    ∃ db' peer notified,
      Operates plain pairState (pairDatabase false) (.call (.delete "ws" "exit")) db' peer
        notified ∧
      NetmapChanged tableLibrary pairBuilder (pairDatabase false) db' "phone" ∧
      "phone" ∉ notified := by
  have hpho := builds_phoneBuild false "relay.example:6266"
  constructor
  · let w := Registry.update plain pinnedDto phone
    have hwri : Writes plain pairState ("", "") (.update "ws" pinnedDto) w :=
      @Writes.update plain pairState ("", "") "ws" pinnedDto _ phone lists_pairDatabase rfl
    obtain ⟨t, ht⟩ := pairState.peers.exists_save .sqlite (r := w.row) rfl rfl rfl
    have hperf := Performs.saved hwri ht
    have hget := (hperf.written issued_pairState rfl).1
    have hfnd : t.getByAppID "phone" = some w.row := by
      refine getByAppID_of_written hget ?_
      rintro r (rfl | rfl) hne
      · decide
      · exact absurd rfl hne
    refine ⟨_, _, _, @Operates.written plain pairState (pairDatabase false) _ _ t w.row _ rfl
      hperf (.refl _), ?_, ?_⟩
    · refine netmapChanged_of_ok (c := phone) hpho ?_
      intro hok
      obtain ⟨c₀, hc₀, -, hbef, -⟩ := builds_ok hpho
      obtain rfl : phone = c₀ := Option.some.inj hc₀
      obtain ⟨c, hc, -, haft, -⟩ := builds_ok hok
      cases hfnd.symm.trans hc
      rw [hbef] at haft
      exact absurd (haft : "" = "203.0.113.7:51820") (by decide)
    intro hmem
    obtain ⟨r, hr, happ⟩ := List.mem_map.1 hmem
    exact absurd happ (of_decide_eq_true (mem_filter.1 hr).2)
  have hfind : findByName [exitNode false, phone] "exit" = .ok (exitNode false) := rfl
  refine ⟨_, _, _, .deleted lists_pairDatabase hfind, ?_, nofun⟩
  refine netmapChanged_of_ok (c := phone) hpho ?_
  intro hok
  obtain ⟨-, -, -, -, hent⟩ := builds_ok hok
  obtain ⟨r, hr, hname⟩ := hent _ (mem_phoneBuild false _)
  have hget : ((pairDatabase false).peers.delete "p2").get r.id = some r := hr
  rw [PeerTable.get_delete] at hget
  split at hget
  · cases hget
  next hid =>
  rcases mem_pairDatabase.1 hget with rfl | rfl
  · exact hid rfl
  · rw [entry_name] at hname
    exact absurd (hname : "exit" = "phone") (by decide)

end LatticeMesh.Netmap
