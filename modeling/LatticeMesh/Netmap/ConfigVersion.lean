import LatticeMesh.Netmap.Policies

/-!
# The config version

Agents skip a netmap whose version they have applied.
-/

namespace LatticeMesh.Netmap

open Firewall Registry Text List Option

variable {ν : Type} {lib : Library ν} {b : NetmapBuilder} {db : Database} {clock clock' : Clock}
  {peer : PeerRow}

theorem entry_congr {providers providers' : List String} (h : providers.Perm providers')
    (row : PeerRow) : entry lib b providers row = entry lib b providers' row := by
  have hgra : Granted b providers row ↔ Granted b providers' row := by
    unfold Granted
    rw [h.mem_iff]
  unfold entry
  simp only [hgra]

theorem Build.network_eq (x : Build lib b db clock peer) (y : Build lib b db clock' peer) :
    x.content.network = y.content.network := by
  have hpro : x.providers.Perm y.providers :=
    x.providers_listed.trans y.providers_listed.symm
  have hrows : x.rows.Perm y.rows := List.Perm.trans x.rows_listed (List.Perm.symm y.rows_listed)
  have hent : entry lib b x.providers = entry lib b y.providers :=
    funext fun row => entry_congr hpro row
  change network lib b peer x.providers x.rows = network lib b peer y.providers y.rows
  unfold network
  rw [hent]
  congr 1
  refine sortOn_eq_of_perm ((hrows.filter _).map _) ?_
  intro p hp q hq hname
  obtain ⟨r, hr, rfl⟩ := List.mem_map.1 hp
  obtain ⟨r', hr', rfl⟩ := List.mem_map.1 hq
  rw [entry_name, entry_name] at hname
  have hr'rows := x.mem_rows.1 (mem_of_mem_filter hr')
  rw [x.row_eq_of_name (mem_of_mem_filter hr) hr'rows.1 hr'rows.2 hname]

theorem Build.computedPeers_perm (x : Build lib b db clock peer) (hpeer : peer ∈ db.peers) :
    x.message.computedPeers.Perm
      (x.content.network.peers.filter fun p => p.name ≠ x.content.current.name) := by
  have hcur : x.content.current.name = peer.name := by
    obtain ⟨allowedIPs, h⟩ := toInfraPeer_eq lib b peer
    change (currentPeer lib b peer).name = _
    unfold currentPeer
    rw [h]
    dsimp only
    split <;> rfl
  have hown : ∀ r ∈ x.rows, (r.id ≠ peer.id ↔ r.name ≠ peer.name) := by
    intro r hr
    refine not_congr ⟨?_, ?_⟩
    · intro hid
      have hrow := (x.mem_rows.1 hr).1
      rw [PeerTable.mem_iff, hid] at hrow
      rw [Option.some.inj (hrow.symm.trans hpeer)]
    · intro hname
      rw [x.row_eq_of_name hr hpeer rfl hname]
  change (computedPeers lib b peer x.providers x.rows).Perm
    ((network lib b peer x.providers x.rows).peers.filter _)
  unfold computedPeers network
  dsimp only
  refine List.Perm.trans ?_ ((sortOn_perm Peer.name _).symm.filter _)
  rw [List.filter_map, hcur]
  refine List.Perm.of_eq (congrArg (List.map _) (filter_congr ?_))
  intro r hr
  simp only [Function.comp_apply, entry_name, hown r (mem_of_mem_filter hr)]

theorem Build.content_of_version (hinj : Function.Injective lib.hash) {b' : NetmapBuilder}
    {db' : Database} {peer' : PeerRow} (x : Build lib b db clock peer)
    (y : Build lib b' db' clock' peer') (h : x.message.configVersion = y.message.configVersion) :
    x.content = y.content := hinj (Option.some.inj h)

structure SameNetmap (m m' : Message ν) : Prop where
  current : m.current = m'.current
  network : m.network = m'.network
  policies : m.policies = m'.policies
  computedPeers : m.computedPeers.Perm m'.computedPeers
  computedRules : m.computedRules = m'.computedRules

theorem sameNetmap_of_version (hinj : Function.Injective lib.hash) {b' : NetmapBuilder}
    {db' : Database} {appID appID' token token' : String} {m m' : Message ν}
    (hm : BuildsForAppID lib b db clock appID token (.ok m))
    (hm' : BuildsForAppID lib b' db' clock' appID' token' (.ok m'))
    (hsome : m.configVersion.isSome) (h : m.configVersion = m'.configVersion) :
    SameNetmap m m' := by
  generalize hres : Except.ok m = res at hm
  generalize hres' : Except.ok m' = res' at hm'
  cases hm with
  | notFound | tokenMismatch | disabled | invalidSpec => cases hres
  | pending =>
    cases hres
    cases hsome
  | @built c hc _ _ _ x =>
    cases hm' with
    | notFound | tokenMismatch | disabled | invalidSpec => cases hres'
    | pending =>
      cases hres
      cases hres'
      cases h
    | @built c' hc' _ _ _ y =>
      cases hres
      cases hres'
      have hcon := x.content_of_version hinj y h
      refine ⟨congrArg Content.current hcon,
        congrArg (fun content => some (Content.network content)) hcon,
        congrArg Content.policies hcon, ?_,
        congrArg (fun content => some (Content.rules content)) hcon⟩
      have hx := x.computedPeers_perm (PeerTable.getByAppID_mem hc).1
      have hy := y.computedPeers_perm (PeerTable.getByAppID_mem hc').1
      rw [hcon] at hx
      exact hx.trans hy.symm

structure Clock.Agree (db : Database) (workspaceID : String) (clock clock' : Clock) : Prop where
  listed : db.listActiveByWorkspace workspaceID clock.listed =
    db.listActiveByWorkspace workspaceID clock'.listed
  wired : ∀ id ∈ db.listByNetwork workspaceID,
    (∃ t ∈ id.gracePeriodExpiresAt, clock.wired < t) ↔
      ∃ t ∈ id.gracePeriodExpiresAt, clock'.wired < t
  ruled : ∀ id ∈ db.listByNetwork workspaceID,
    (∃ t ∈ id.gracePeriodExpiresAt, clock.ruled < t) ↔
      ∃ t ∈ id.gracePeriodExpiresAt, clock'.ruled < t

theorem Clock.Agree.refl (db : Database) (workspaceID : String) (clock : Clock) :
    clock.Agree db workspaceID clock := ⟨rfl, fun _ _ => Iff.rfl, fun _ _ => Iff.rfl⟩

def VersionStable (lib : Library ν) (b : NetmapBuilder) (db : Database) (clock : Clock)
    (appID token : String) : Prop :=
  ∀ clock' m m', (∀ c, db.peers.getByAppID appID = some c →
      clock.Agree db c.workspaceID clock') →
    BuildsForAppID lib b db clock appID token (.ok m) →
    BuildsForAppID lib b db clock' appID token (.ok m') → m.configVersion = m'.configVersion

def OnePolicyKey (lib : Library ν) (db : Database) (clock : Clock) (workspaceID : String) : Prop :=
  (∀ p ∈ db.listActiveByWorkspace workspaceID clock.listed,
    ∀ q ∈ db.listActiveByWorkspace workspaceID clock.listed, p = q) ∧
  ∀ d k k', PolicyKey lib db clock workspaceID d k → PolicyKey lib db clock workspaceID d k' →
    k = k'

theorem active_pairwise (db : Database) (workspaceID : String) (now : Registry.Time) :
    (db.listActiveByWorkspace workspaceID now).Pairwise fun p q => p.name ≠ q.name := by
  unfold Database.listActiveByWorkspace
  rw [pairwise_map, pairwise_filter]
  refine db.policies_unique.imp ?_
  intro p q hne hp hq
  exact hne ((of_decide_eq_true hp).1.trans (of_decide_eq_true hq).1.symm)

theorem resolveIPs_congr {workspaceID : String} {identities identities' : List PeerIdentity}
    (h : identities.Perm (db.listByNetwork workspaceID))
    (h' : identities'.Perm (db.listByNetwork workspaceID)) {now now' : Registry.Time}
    (hgra : ∀ id ∈ db.listByNetwork workspaceID, (∃ t ∈ id.gracePeriodExpiresAt, now < t) ↔
      ∃ t ∈ id.gracePeriodExpiresAt, now' < t) (name : String) :
    resolveIPs (newPolicyIdentityResolver identities) name now =
      resolveIPs (newPolicyIdentityResolver identities') name now' := by
  have hget := get_newPolicyIdentityResolver (identities_pairwise db workspaceID h) name
  have hget' := get_newPolicyIdentityResolver (identities_pairwise db workspaceID h') name
  simp only [h.mem_iff] at hget
  simp only [h'.mem_iff] at hget'
  have hsame : (newPolicyIdentityResolver identities).get name =
      (newPolicyIdentityResolver identities').get name :=
    Option.ext fun id => (hget id).trans (hget' id).symm
  unfold resolveIPs
  rw [hsame]
  cases hfnd : (newPolicyIdentityResolver identities').get name with
  | none => rfl
  | some id =>
    have hany : id.gracePeriodExpiresAt.any (fun t => decide (now < t)) =
        id.gracePeriodExpiresAt.any fun t => decide (now' < t) := by
      rw [Bool.eq_iff_iff, Option.any_eq_true, Option.any_eq_true]
      simpa using hgra id ((hget' id).1 hfnd).1
    simp only [hany]

theorem Build.content_eq (x : Build lib b db clock peer) (y : Build lib b db clock' peer)
    (hagr : clock.Agree db peer.workspaceID clock')
    (hone : OnePolicyKey lib db clock peer.workspaceID) : x.content = y.content := by
  have hnod : (db.listActiveByWorkspace peer.workspaceID clock.listed).Nodup :=
    (active_pairwise db _ _).imp fun hne h => hne (congrArg PolicyRow.name h)
  have hrows := (forall_perm_eq_iff hnod).2 hone.1
  have hpol : x.policies = y.policies := by
    have hy := y.policies_listed
    rw [← hagr.listed] at hy
    rw [hrows _ x.policies_listed, hrows _ hy]
  have hwire : x.wire = y.wire := by
    refine Option.some.inj (x.wire_eq.symm.trans (Eq.trans ?_ y.wire_eq))
    rw [hpol]
    exact buildWirePolicies_congr
      (resolveIPs_congr x.identities_listed y.identities_listed hagr.wired)
  have hrul : x.ruled = y.ruled := by
    refine Option.some.inj (x.ruled_eq.symm.trans (Eq.trans ?_ y.ruled_eq))
    rw [hpol]
    exact buildWirePolicies_congr
      (resolveIPs_congr x.identities_listed y.identities_listed hagr.ruled)
  have hnet := x.network_eq y
  have hru : x.rules = y.rules := by
    have heva : Evaluates lib.case (resolve peer y.content.network) peer.platform y.ruled
      y.rules := y.evaluates
    rw [← hnet, ← hrul] at heva
    refine evaluates_unique_iff.2 (fun d k k' hk hk' => ?_) _ _ x.evaluates heva
    exact hone.2 d k k' (x.decided_iff.1 hk) (x.decided_iff.1 hk')
  unfold content
  rw [Content.mk.injEq]
  exact ⟨rfl, hnet, hwire, hru⟩

theorem exists_build (hspe : ∀ row ∈ db.listActiveByWorkspace peer.workspaceID clock.listed,
      (lib.unmarshalSpec row.spec).isSome) {policies : List PolicyRow}
    (hp : policies.Perm (db.listActiveByWorkspace peer.workspaceID clock.listed)) :
    ∃ x : Build lib b db clock peer, x.policies = policies := by
  have hpar : ∀ now, (buildWirePolicies lib.case
      (newPolicyIdentityResolver (db.listByNetwork peer.workspaceID)) lib.unmarshalSpec policies
      now).isSome :=
    fun now => buildWirePolicies_isSome.2 fun row hrow => hspe row (hp.mem_iff.1 hrow)
  obtain ⟨wire, hwire⟩ := isSome_iff_exists.1 (hpar clock.wired)
  obtain ⟨ruled, hrul⟩ := isSome_iff_exists.1 (hpar clock.ruled)
  exact ⟨⟨_, .refl _, policies, hp, _, .refl _, _, .refl _, wire, hwire, ruled, hrul, _,
    ⟨_, _, .refl _, .refl _, rfl⟩⟩, rfl⟩

def Build.withRules (x : Build lib b db clock peer) (rules : FirewallRule)
    (h : Evaluates lib.case (resolve peer x.content.network) peer.platform x.ruled rules) :
    Build lib b db clock peer :=
  { x with rules := rules, evaluates := h }

theorem one_policy_of_content (hspe : ∀ row ∈
      db.listActiveByWorkspace peer.workspaceID clock.listed, (lib.unmarshalSpec row.spec).isSome)
    (hall : ∀ x y : Build lib b db clock peer, x.content = y.content) :
    ∀ p ∈ db.listActiveByWorkspace peer.workspaceID clock.listed,
      ∀ q ∈ db.listActiveByWorkspace peer.workspaceID clock.listed, p = q := by
  intro p hp q hq
  by_contra hne
  obtain ⟨rest, hrest⟩ := exists_perm_cons_cons hp hq hne
  obtain ⟨x, hx⟩ := exists_build (b := b) hspe hrest.symm
  obtain ⟨y, hy⟩ := exists_build (b := b) hspe ((List.Perm.swap p q rest).trans hrest.symm)
  have hnam : (p :: q :: rest).map PolicyRow.name = (q :: p :: rest).map PolicyRow.name := by
    rw [← hx, ← hy, ← buildWirePolicies_names x.wire_eq, ← buildWirePolicies_names y.wire_eq]
    exact congrArg (fun content => content.policies.map Policy.policyName) (hall x y)
  have hpai := (hrest.pairwise_iff fun h => h.symm).1 (active_pairwise db _ _)
  exact (pairwise_cons.1 hpai).1 q mem_cons_self (List.cons.inj hnam).1

theorem one_key_of_content (x : Build lib b db clock peer)
    (hall : ∀ x y : Build lib b db clock peer, x.content = y.content) {d : Direction}
    {k k' : DecisionKey} (hk : PolicyKey lib db clock peer.workspaceID d k)
    (hk' : PolicyKey lib db clock peer.workspaceID d k') : k = k' := by
  have huni : ∀ fw fw', Evaluates lib.case (resolve peer x.content.network) peer.platform
      x.ruled fw → Evaluates lib.case (resolve peer x.content.network) peer.platform x.ruled fw' →
      fw = fw' :=
    fun fw fw' hfw hfw' => congrArg Content.rules (hall (x.withRules fw hfw) (x.withRules fw' hfw'))
  exact evaluates_unique_iff.1 huni d k k' (x.decided_iff.2 hk) (x.decided_iff.2 hk')

structure Served (lib : Library ν) (db : Database) (clock : Clock) (appID token : String)
    (c : PeerRow) : Prop where
  found : db.peers.getByAppID appID = some c
  opens : Opens token c
  enabled : c.disabled = false
  approved : Approved c
  specs : ∀ row ∈ db.listActiveByWorkspace c.workspaceID clock.listed,
    (lib.unmarshalSpec row.spec).isSome

theorem versionStable_iff (hinj : Function.Injective lib.hash) {appID token : String} :
    VersionStable lib b db clock appID token ↔
      ∀ c, Served lib db clock appID token c → OnePolicyKey lib db clock c.workspaceID := by
  constructor
  · intro hstb c hc
    have hall : ∀ x y : Build lib b db clock c, x.content = y.content := by
      intro x y
      refine x.content_of_version hinj y (hstb clock _ _ ?_ ?_ ?_)
      · exact fun c _ => Clock.Agree.refl db c.workspaceID clock
      · exact .built hc.found hc.opens hc.enabled hc.approved x
      · exact .built hc.found hc.opens hc.enabled hc.approved y
    obtain ⟨x, -⟩ := exists_build (b := b) hc.specs (.refl _)
    exact ⟨one_policy_of_content hc.specs hall, fun d k k' => one_key_of_content x hall⟩
  intro hcond clock' m m' hagr hm hm'
  generalize hres : Except.ok m = res at hm
  generalize hres' : Except.ok m' = res' at hm'
  cases hm with
  | notFound | tokenMismatch | disabled | invalidSpec => cases hres
  | @pending c hc _ _ ha =>
    cases hm' with
    | notFound | tokenMismatch | disabled | invalidSpec => cases hres'
    | pending =>
      cases hres
      cases hres'
      rfl
    | built hc' _ _ ha' =>
      cases hc.symm.trans hc'
      exact absurd ha' ha
  | @built c hc ht hd ha x =>
    cases hm' with
    | notFound | tokenMismatch | disabled | invalidSpec => cases hres'
    | pending hc' _ _ ha' =>
      cases hc.symm.trans hc'
      exact absurd ha ha'
    | built hc' _ _ _ y =>
      cases hc.symm.trans hc'
      cases hres
      cases hres'
      have hspe := buildWirePolicies_isSome.1 (isSome_of_eq_some x.wire_eq)
      have hser : Served lib db clock appID token c :=
        ⟨hc, ht, hd, ha, fun row hrow => hspe row (x.policies_listed.mem_iff.2 hrow)⟩
      exact congrArg (fun content => some (lib.hash content))
        (x.content_eq y (hagr c hc) (hcond c hser))

end LatticeMesh.Netmap
