import LatticeMesh.Controller.Membership
import LatticeMesh.Lib.Inevitable
import Mathlib.Data.Prod.Lex
import Mathlib.Order.WellFounded

/-! # Where reconciliation ends -/

namespace LatticeMesh.Controller.Membership

open List Option Function

open Ipam (CIDR Endpoint Endpoints hexName)

structure Answer.Success (o : Answer) (s : Shared) : Prop where
  err : o.err = none
  conflict : o.conflict = false
  stale : o.stale = none
  listed : ∀ e ∈ o.listed, s.endpoints.get e.name = some e

def searched (cidr : CIDR) : Option Point → Option (List String × ℕ)
  | some (.allocate _ _ _ (.scan used i)) => some (used, i)
  | some (.join _ _ _) => none
  | _ => some ([], cidr.startInt)

def HasFree (endpoints : Endpoints) (cidr : CIDR) (run : Option Point) : Prop :=
  ∀ used first, searched cidr run = some (used, first) →
    ∃ i, first ≤ i ∧ i ≤ cidr.endInt ∧ hexName i ∉ used ∧ endpoints.get (hexName i) = none

def Joinable (s : Shared) (run : Option Point) (network : String) : Prop :=
  ∃ cidr, s.networks.get network = some (some cidr) ∧ (∀ err, cidr ≠ .invalid err) ∧
    HasFree s.endpoints cidr run

def Room (name : String) (s : Site String Shared Point) : Prop :=
  ∀ x network, s.shared.peers.get name = some x → x.network = some network →
    Joinable s.shared (s.runs name) network

def Spares (name : String) : Action String Answer Event → Prop
  | .start other | .call other _ | .crash other => other ≠ name
  | .env (.setNetwork other _) | .env (.deletePeer other) => other ≠ name
  | .env (.createNetwork _) | .env (.assignCIDR _ _) | .env (.collect _) => True

section

variable {σ η : Type} (lib : Library σ η) (peerIDOf : String → Except String String)

inductive Own (name : String) (s : Site String Shared Point) : Site String Shared Point → Prop
  | start (h : s.runs name = none) : Own name s ((workers lib peerIDOf).started s name)
  | call {o : Answer} {p : Point} (h : s.runs name = some p) (ho : o.Success s.shared) :
    Own name s ((workers lib peerIDOf).after s name o p)

def Others (name : String) (s t : Site String Shared Point) : Prop :=
  (∃ l, Spares name l ∧ (workers lib peerIDOf).Step s l t) ∧ Room name t

def Peer.Settled (x : Peer) : Prop := x.status.phase = .ready ∧ x.status.activeNetwork = x.network

def Settled (name : String) (s : Site String Shared Point) : Prop :=
  ∃ x, s.shared.peers.get name = some x ∧ x.Settled

def Keys.Usable (keys : Keys) : Prop :=
  keys.privateKey ≠ "" ∨ keys.publicKey = "" ∨ keys.peerID ≠ "" ∨
    (peerIDOf keys.publicKey).toBool = true

structure Peer.Stalled (x : Peer) : Prop where
  network : x.network ≠ none
  active : x.status.activeNetwork = x.network
  phase : x.status.phase ≠ .ready

structure Peer.Able (x : Peer) : Prop where
  deleting : x.deleting = false
  shadow : x.shadow = false
  keys : x.status.phase.Initial → x.keys.Usable peerIDOf
  stalled : ¬ x.Stalled

end

variable {σ η : Type} {lib : Library σ η} {peerIDOf : String → Except String String}

section Patches

theorem Status.patch_self (old new : Status) : Status.patch old new old = new := by
  unfold Status.patch
  rw [merge_self, merge_self, merge_self]

theorem Keys.patch_self (old new : Keys) : Keys.patch old new old = new := by
  unfold Keys.patch
  rw [merge_self, merge_self, merge_self]

theorem Labels.filter_key (labels : Labels) {key value : String}
    (h : (key, value) ∈ labels.entries) :
    labels.entries.filter (fun l => l.1 = key) = [(key, value)] := by
  obtain ⟨entries, hnod⟩ := labels
  induction entries with
  | nil => cases h
  | cons l rest ih =>
    rw [map_cons, nodup_cons] at hnod
    obtain rfl | h := mem_cons.1 h
    · rw [filter_cons_of_pos (by simp), filter_eq_nil_iff.2]
      intro l hl hkey
      exact hnod.1 (List.mem_map.2 ⟨l, hl, of_decide_eq_true hkey⟩)
    have hne : l.1 ≠ key := fun heq => hnod.1 (List.mem_map.2 ⟨_, h, heq.symm⟩)
    rw [filter_cons_of_neg (by simpa using hne)]
    exact ih hnod.2 h

theorem Labels.patch_single (old : Labels) (key value : String) :
    Labels.patch old (.single key value) old = .single key value := by
  by_cases h : (key, value) ∈ old.entries
  · have hch : Labels.changed old (.single key value) = [] :=
      filter_eq_nil_iff.2 fun l hl => by
        rw [mem_singleton.1 hl]
        simpa using h
    have hkept : ∀ l ∈ old.entries, Labels.Kept old (.single key value) l ↔ l.1 = key := by
      intro l hl
      unfold Labels.Kept
      rw [hch]
      have hkey : l.1 ∈ old.entries.map Prod.fst := List.mem_map_of_mem hl
      simp [hkey, Labels.single]
    unfold Labels.patch
    congr 1
    rw [hch, append_nil, ← Labels.filter_key old h]
    exact filter_congr fun l hl => by rw [decide_eq_decide]; exact hkept l hl
  have hch : Labels.changed old (.single key value) = [(key, value)] :=
    filter_eq_self.2 fun l hl => by
      rw [mem_singleton.1 hl]
      simpa using h
  unfold Labels.patch
  congr 1
  rw [hch, filter_eq_nil_iff.2, nil_append]
  intro l hl hkept
  obtain ⟨hkey, hne⟩ := of_decide_eq_true hkept
  rw [hch] at hne
  exact hne (hkey (List.mem_map_of_mem hl))

end Patches

section Calls

variable {o : Answer} {s : Shared} {name : String}

theorem Answer.Success.effect (ho : o.Success s) (p : Point) :
    effect lib o s name p = write lib o s name p := by
  unfold Membership.effect
  rw [if_neg]
  rw [ho.err, ho.conflict]
  simp

theorem Answer.Success.read (ho : o.Success s) : s.read o name = s.peers.get name := by
  unfold Shared.read
  rw [ho.stale]

theorem Answer.Success.next_get (ho : o.Success s) {x : Peer} (hx : s.peers.get name = some x) :
    next lib peerIDOf o s name .get = reconcile peerIDOf o x := by
  unfold next
  rw [ho.err, ho.read, hx]
  rfl

theorem Answer.Success.not_fails (ho : o.Success s) {x : Peer} (hx : s.peers.get name = some x) :
    ¬ o.Fails s name := by
  unfold Answer.Fails
  rw [ho.err, hx]
  simp

end Calls

section Keys

variable {keys new : Keys} {g : KeyPair}

theorem ensureKeys_of_usable (h : keys.Usable peerIDOf) :
    ∃ r, ensureKeys peerIDOf g.toKeys keys = .ok r := by
  unfold ensureKeys
  split
  · exact ⟨_, rfl⟩
  next hpriv =>
  split
  · next hpub =>
    split
    · exact ⟨_, rfl⟩
    next hid =>
    obtain h | h | h | h := h
    · exact absurd h hpriv
    · exact absurd h hpub
    · exact absurd h hid
    cases hpar : peerIDOf keys.publicKey with
    | error err =>
      rw [hpar] at h
      cases h
    | ok id =>
      dsimp only
      split <;> exact ⟨_, rfl⟩
  · exact ⟨_, rfl⟩

theorem ensureKeys_new (h : ensureKeys peerIDOf g.toKeys keys = .ok (some new)) :
    new.Usable peerIDOf ∧ ∀ g' : KeyPair, ensureKeys peerIDOf g'.toKeys new = .ok none := by
  unfold ensureKeys at h
  split at h
  · cases h
  next hpriv =>
  split at h
  · next hpub =>
    split at h
    · cases h
    split at h
    · cases h
    next id _ =>
    split at h
    · cases h
    next hid =>
    cases h
    refine ⟨.inr (.inr (.inl hid)), fun g' => ?_⟩
    unfold ensureKeys
    rw [if_neg hpriv, if_pos hpub, if_pos hid]
  cases h
  refine ⟨.inl g.generated, fun g' => ?_⟩
  unfold ensureKeys
  rw [if_pos g.generated]

theorem ensureKeys_none {g' : KeyPair} (h : ensureKeys peerIDOf g.toKeys keys = .ok none) :
    ensureKeys peerIDOf g'.toKeys keys = .ok none := by
  unfold ensureKeys at h ⊢
  by_cases hpriv : keys.privateKey ≠ ""
  · rw [if_pos hpriv]
  rw [if_neg hpriv] at h ⊢
  by_cases hpub : keys.publicKey ≠ ""
  · rw [if_pos hpub] at h ⊢
    exact h
  · rw [if_neg hpub] at h
    cases h

theorem usable_of_ensureKeys {r : Option Keys} (h : ensureKeys peerIDOf g.toKeys keys = .ok r) :
    keys.Usable peerIDOf := by
  unfold ensureKeys at h
  by_contra hus
  unfold Keys.Usable at hus
  push Not at hus
  obtain ⟨hpriv, hpub, hid, hpar⟩ := hus
  rw [if_neg (not_not.2 hpriv), if_pos hpub, if_neg (not_not.2 hid)] at h
  split at h
  · cases h
  next id hok =>
  rw [hok] at hpar
  exact hpar rfl

end Keys

def Point.Trapped (x : Peer) : Point → Prop
  | .get | .addFinalizer | .finalize => True
  | .patchKeys _ _ => x.Stalled
  | .setPhase peer phase last => peer = x ∧ phase = .pending ∧ last = false ∧ x.Stalled
  | _ => False

def Blocked (peerIDOf : String → Except String String) (name : String)
    (s : Site String Shared Point) : Prop :=
  ∀ x, s.shared.peers.get name = some x →
    ¬ x.Settled ∧ ¬ x.Able peerIDOf ∧ ∀ p, s.runs name = some p → p.Trapped x

variable {x : Peer} {name : String} {s t : Site String Shared Point}

theorem stalled_of_not_able (h : ¬ x.Able peerIDOf) (hdel : x.deleting = false)
    (hsha : x.shadow = false) (hkeys : x.status.phase.Initial → x.keys.Usable peerIDOf) :
    x.Stalled := by
  by_contra hstall
  exact h ⟨hdel, hsha, hkeys, hstall⟩

variable {p : Point}

theorem reconcile_trapped {o : Answer} (hable : ¬ x.Able peerIDOf)
    (hp : reconcile peerIDOf o x = some p) : p.Trapped x := by
  have hstall : x.Live → (x.status.phase.Initial → x.keys.Usable peerIDOf) → x.Stalled :=
    fun hlive => stalled_of_not_able hable hlive.deleting hlive.shadow
  have hlat : x.Live → ¬ x.status.phase.Initial → x.Stalled := fun hlive hph =>
    hstall hlive fun hini => absurd hini hph
  cases reconcile_eq_some_iff.1 hp with
  | finalize => trivial
  | addFinalizer => trivial
  | patchKeys h hph hkeys => exact hstall h fun _ => usable_of_ensureKeys hkeys
  | initialized h hph hkeys =>
    exact ⟨rfl, rfl, rfl, hstall h fun _ => usable_of_ensureKeys hkeys⟩
  | changed h hph hne => exact absurd (hlat h (by rw [hph]; exact id)).active.symm hne
  | retry h hph => exact ⟨rfl, rfl, rfl, hlat h (by rw [hph]; exact id)⟩
  | idle h hph hnet hact =>
    exact absurd hnet (hlat h (by rw [hph]; exact id)).network
  | leave h hph hact hne hp =>
    exact absurd (hlat h (by rw [hph]; exact id)).active.symm hne
  | join h hph hnet hact =>
    have heq := (hlat h (by rw [hph]; exact id)).active
    rw [hnet, hact] at heq
    cases heq
  | last h hph heq => exact absurd hph (hlat h (by rw [hph]; exact id)).phase

theorem effect_absent {o : Answer} {s : Shared} (h : s.peers.get name = none) (p : Point) :
    (effect lib o s name p).peers.get name = none := by
  have hwro := effect_wrote lib o s name p
  generalize effect lib o s name p = t at hwro
  cases hwro with
  | update p f => rw [get_update, if_pos rfl, h, map_none]
  | remove => rw [get_remove, if_pos rfl]
  | _ => exact h

variable {f : Peer → Peer}

theorem get_written {s : Shared} (hx : s.peers.get name = some x) :
    (s.update name f).peers.get name = some (f x) := by
  rw [get_update, if_pos rfl, hx, map_some]

theorem blocked_own (hs : Blocked peerIDOf name s) (h : Own lib peerIDOf name s t) :
    Blocked peerIDOf name t := by
  intro x' hx'
  cases h with
  | start hidle =>
    obtain ⟨hset, hable, -⟩ := hs x' hx'
    refine ⟨hset, hable, fun p hp => ?_⟩
    cases (update_self name _ s.runs).symm.trans hp
    trivial
  | @call o p hrun ho =>
    change (effect lib o s.shared name p).peers.get name = some x' at hx'
    suffices hnext : ¬ x'.Settled ∧ ¬ x'.Able peerIDOf ∧
        ∀ q, next lib peerIDOf o s.shared name p = some q → q.Trapped x' by
      refine ⟨hnext.1, hnext.2.1, fun q hq => hnext.2.2 q ?_⟩
      exact (update_self name _ s.runs).symm.trans hq
    cases hx : s.shared.peers.get name with
    | none =>
      rw [effect_absent hx] at hx'
      cases hx'
    | some x =>
      rw [ho.effect] at hx'
      obtain ⟨hset, hable, htra⟩ := hs x hx
      have htra := htra p hrun
      cases p with
      | get =>
        cases hx.symm.trans hx'
        refine ⟨hset, hable, fun q hq => ?_⟩
        rw [ho.next_get hx] at hq
        exact reconcile_trapped hable hq
      | addFinalizer =>
        cases (get_written hx).symm.trans hx'
        refine ⟨hset, fun h => hable ⟨h.deleting, h.shadow, h.keys, fun hst => h.stalled ?_⟩,
          fun q hq => nomatch hq⟩
        exact ⟨hst.network, hst.active, hst.phase⟩
      | finalize =>
        dsimp only [write] at hx'
        rw [get_remove, if_pos rfl] at hx'
        cases hx'
      | patchKeys peer new =>
        cases (get_written hx).symm.trans hx'
        have hstall : x.Stalled := htra
        have hsti : Peer.Stalled { x with keys := Keys.patch peer.keys new x.keys } :=
          ⟨hstall.network, hstall.active, hstall.phase⟩
        refine ⟨fun h => hsti.phase h.1, fun h => h.stalled hsti, fun q hq => ?_⟩
        unfold next at hq
        dsimp only at hq
        rw [if_neg (ho.not_fails hx), ho.conflict] at hq
        cases hq
      | setPhase peer phase last =>
        cases (get_written hx).symm.trans hx'
        obtain ⟨rfl, rfl, hlast, hstall⟩ := htra
        rw [Status.patch_self]
        have hsti : Peer.Stalled { peer with status := { peer.status with phase := .pending } } :=
          ⟨hstall.network, hstall.active, nofun⟩
        refine ⟨fun h => hsti.phase h.1, fun h => h.stalled hsti, fun q hq => ?_⟩
        unfold next at hq
        dsimp only at hq
        rw [hlast] at hq
        simp at hq
      | _ => exact htra.elim

theorem not_inevitable (hidle : s.runs name = none) (hx : s.shared.peers.get name = some x)
    (hset : ¬ x.Settled) (hable : ¬ x.Able peerIDOf) :
    ¬ Inevitable (Own lib peerIDOf name) (Others lib peerIDOf name) (Settled name) s := by
  refine Inevitable.not_of_kept (J := Blocked peerIDOf name) ?_ (fun _ _ => blocked_own) ?_
  · rintro s hs ⟨x, hx, hset⟩
    exact (hs x hx).1 hset
  intro x' hx'
  cases hx.symm.trans hx'
  refine ⟨hset, hable, fun p hp => ?_⟩
  rw [hidle] at hp
  cases hp

structure Peer.Joins (x : Peer) (network : String) : Prop where
  finalizer : x.finalizer = true
  phase : x.status.phase = .pending
  network : x.network = some network
  active : x.status.activeNetwork = none

structure Peer.Leaves (x : Peer) : Prop where
  finalizer : x.finalizer = true
  phase : x.status.phase = .pending
  active : x.status.activeNetwork ≠ none

inductive Peer.Turns (peerIDOf : String → Except String String) (x : Peer) : Prop
  | initial (h : x.status.phase.Initial) (hkeys : ∀ g : KeyPair,
      ensureKeys peerIDOf g.toKeys x.keys = .ok none)
  | ready (h : x.status.phase = .ready) (hne : x.network ≠ x.status.activeNetwork)
  | failed (h : x.status.phase = .failed)

def Peer.distance (lib : Library σ η) (peerIDOf : String → Except String String) (x : Peer) : ℕ :=
  (if x.finalizer then 0 else 9) +
    match x.status.phase with
    | .unset | .provisioning =>
      if ensureKeys peerIDOf (default : KeyPair).toKeys x.keys = .ok none then 7 else 8
    | .failed => 6
    | .ready => if x.status.activeNetwork.isSome then 5 else 3
    | .pending =>
      if x.status.activeNetwork.isSome then 4
      else if x.network.all fun n => x.networkLabels = Membership.networkLabels lib n then 1 else 2

def Point.Fits (lib : Library σ η) (peerIDOf : String → Except String String) (s : Shared)
    (x : Peer) : Point → Prop
  | .get => True
  | .addFinalizer => x.finalizer = false
  | .patchKeys peer new => peer = x ∧ x.finalizer = true ∧ x.status.phase.Initial ∧
    ∃ g : KeyPair, ensureKeys peerIDOf g.toKeys x.keys = .ok (some new)
  | .setPhase peer phase last => peer = x ∧ x.finalizer = true ∧
    (phase = .pending ∧ last = false ∧ x.Turns peerIDOf ∨
      phase = .ready ∧ x.network = none ∧ x.status.activeNetwork = none)
  | .getNetwork peer network => peer = x ∧ x.Joins network
  | .ensurePeerSpec peer network cidr =>
    peer = x ∧ x.Joins network ∧ s.networks.get network = some (some cidr)
  | .patchLabels peer network _ =>
    peer = x ∧ x.Joins network ∧ x.networkLabels ≠ networkLabels lib network
  | .allocate peer network cidr pc =>
    peer = x ∧ x.Joins network ∧ s.networks.get network = some (some cidr) ∧
      ∀ result, pc ≠ .returned result
  | .join peer network _ => peer = x ∧ x.Joins network
  | .release peer _ | .clearLabels peer => peer = x ∧ x.Leaves
  | .leave peer => peer.status = x.status ∧ peer.network = x.network ∧ x.Leaves
  | .finalize | .lastReconcile => False

def remaining : Option Point → ℕ
  | none => 2 ^ 32 + 8
  | some .get => 2 ^ 32 + 7
  | some (.getNetwork _ _) => 2 ^ 32 + 6
  | some (.ensurePeerSpec _ _ _) => 2 ^ 32 + 5
  | some (.allocate _ _ _ .list) => 2 ^ 32 + 4
  | some (.allocate _ _ _ (.scan _ i)) => 2 ^ 32 - i + 3
  | some (.release _ _) => 3
  | some (.clearLabels _) => 2
  | _ => 1

section

-- the equations are derived once, before the proofs
attribute [local simp] Point.Fits remaining

end

structure Aims (lib : Library σ η) (peerIDOf : String → Except String String) (name : String)
    (s : Site String Shared Point) (x : Peer) : Prop where
  peer : s.shared.peers.get name = some x
  able : x.Able peerIDOf
  room : Room name s
  fits : ∀ p, s.runs name = some p → p.Fits lib peerIDOf s.shared x

def rank (lib : Library σ η) (peerIDOf : String → Except String String) (name : String)
    (s : Site String Shared Point) : ℕ ×ₗ ℕ :=
  toLex (((s.shared.peers.get name).elim 0 (Peer.distance lib peerIDOf)), remaining (s.runs name))

structure Point.First (lib : Library σ η) (peerIDOf : String → Except String String) (s : Shared)
    (x : Peer) (p : Point) : Prop where
  fits : p.Fits lib peerIDOf s x
  lt : remaining (some p) < remaining (some .get)
  searched (cidr : CIDR) : searched cidr (some p) = some ([], cidr.startInt)

section First

variable {o : Answer} {s : Shared} {x : Peer}

theorem first_of_short (hfits : p.Fits lib peerIDOf s x) (hle : remaining (some p) ≤ 3)
    (hsea : ∀ cidr, searched cidr (some p) =
      some ([], cidr.startInt)) : p.First lib peerIDOf s x :=
  ⟨hfits, Nat.lt_of_le_of_lt hle (by decide), hsea⟩

theorem setPhase_first {phase : Phase} {last : Bool}
    (h : (Point.setPhase x phase last).Fits lib peerIDOf s x) :
    (Point.setPhase x phase last).First lib peerIDOf s x :=
  first_of_short h (Nat.le_add_left 1 2) fun _ => rfl

theorem first_of_decides (hable : x.Able peerIDOf) (hset : ¬ x.Settled)
    (h : Decides peerIDOf o x p) : p.First lib peerIDOf s x := by
  have hturn : x.Live → x.Turns peerIDOf →
      (Point.setPhase x .pending false).First lib peerIDOf s x := fun hlive htur =>
    setPhase_first ⟨rfl, hlive.finalizer, .inl ⟨rfl, rfl, htur⟩⟩
  cases h with
  | finalize h hfin =>
    rw [hable.deleting] at h
    cases h
  | addFinalizer h hfin =>
    exact first_of_short hfin (Nat.le_add_left 1 2) fun _ => rfl
  | patchKeys h hph hkeys =>
    exact first_of_short ⟨rfl, h.finalizer, hph, o.keys, hkeys⟩ (Nat.le_add_left 1 2)
      fun _ => rfl
  | initialized h hph hkeys =>
    exact hturn h (.initial hph fun g => ensureKeys_none hkeys)
  | changed h hph hne => exact hturn h (.ready hph hne)
  | retry h hph => exact hturn h (.failed hph)
  | idle h hph hnet hact =>
    exact setPhase_first ⟨rfl, h.finalizer, .inr ⟨rfl, hnet, hact⟩⟩
  | leave h hph hact hne hp =>
    have hlv : x.Leaves := ⟨h.finalizer, hph, hact⟩
    unfold leaveNetwork at hp
    split at hp <;> cases hp
    · exact first_of_short ⟨rfl, hlv⟩ le_rfl fun _ => rfl
    · exact first_of_short ⟨rfl, hlv⟩ (Nat.le_succ 2) fun _ => rfl
  | join h hph hnet hact =>
    exact ⟨⟨rfl, h.finalizer, hph, hnet, hact⟩, Nat.lt_succ_self _, fun _ => rfl⟩
  | last h hph heq => exact absurd ⟨hph, heq.symm⟩ hset

theorem exists_leaveNetwork (x : Peer) : ∃ p, leaveNetwork x = some p := by
  unfold leaveNetwork
  split <;> exact ⟨_, rfl⟩

theorem exists_decides (o : Answer) (hable : x.Able peerIDOf) : ∃ p, Decides peerIDOf o x p := by
  cases hfin : x.finalizer with
  | false => exact ⟨_, .addFinalizer hable.deleting hfin⟩
  | true =>
  have hlive : x.Live := ⟨hable.deleting, hfin, hable.shadow⟩
  have hini : x.status.phase.Initial → ∃ p, Decides peerIDOf o x p := by
    intro hph
    obtain ⟨r, hkeys⟩ := ensureKeys_of_usable (g := o.keys) (hable.keys hph)
    cases r with
    | none => exact ⟨_, .initialized hlive hph hkeys⟩
    | some new => exact ⟨_, .patchKeys hlive hph hkeys⟩
  cases hph : x.status.phase with
  | unset | provisioning => exact hini (hph ▸ trivial)
  | failed => exact ⟨_, .retry hlive hph⟩
  | ready =>
    by_cases heq : x.network = x.status.activeNetwork
    · exact ⟨_, .last hlive hph heq⟩
    · exact ⟨_, .changed hlive hph heq⟩
  | pending =>
    by_cases hact : x.status.activeNetwork = none
    · cases hnet : x.network with
      | none => exact ⟨_, .idle hlive hph hnet hact⟩
      | some network => exact ⟨_, .join hlive hph hnet hact⟩
    have hne : x.network ≠ x.status.activeNetwork := fun heq =>
      hable.stalled ⟨heq ▸ hact, heq.symm, by rw [hph]; exact nofun⟩
    obtain ⟨p, hp⟩ := exists_leaveNetwork x
    exact ⟨p, .leave hlive hph hact hne hp⟩

end First

section Distance

variable {x : Peer}

theorem distance_finalizer (h : x.finalizer = false) :
    Peer.distance lib peerIDOf { x with finalizer := true } < x.distance lib peerIDOf := by
  unfold Peer.distance
  rw [h]
  simp

theorem distance_initial (hfin : x.finalizer = true) (hph : x.status.phase.Initial) :
    x.distance lib peerIDOf =
      if ensureKeys peerIDOf (default : KeyPair).toKeys x.keys = .ok none then 7 else 8 := by
  unfold Peer.distance
  rw [if_pos hfin, Nat.zero_add]
  cases hx : x.status.phase with
  | unset => rfl
  | provisioning => rfl
  | _ =>
    rw [hx] at hph
    exact hph.elim

theorem distance_pending (hfin : x.finalizer = true) (hph : x.status.phase = .pending) :
    x.distance lib peerIDOf = if x.status.activeNetwork.isSome then 4
      else if x.network.all fun n => x.networkLabels = networkLabels lib n then 1 else 2 := by
  unfold Peer.distance
  rw [if_pos hfin, Nat.zero_add, hph]

theorem distance_ready (hfin : x.finalizer = true) (hph : x.status.phase = .ready) :
    x.distance lib peerIDOf = if x.status.activeNetwork.isSome then 5 else 3 := by
  unfold Peer.distance
  rw [if_pos hfin, Nat.zero_add, hph]

theorem distance_keys {g : KeyPair} {new : Keys} (hfin : x.finalizer = true)
    (hph : x.status.phase.Initial)
    (h : ensureKeys peerIDOf g.toKeys x.keys = .ok (some new)) :
    Peer.distance lib peerIDOf { x with keys := new } < x.distance lib peerIDOf := by
  have hne : ensureKeys peerIDOf (default : KeyPair).toKeys x.keys ≠ .ok none := by
    intro hnone
    rw [ensureKeys_none hnone] at h
    cases h
  rw [distance_initial (x := { x with keys := new }) hfin hph,
    distance_initial hfin hph, if_pos ((ensureKeys_new h).2 _), if_neg hne]
  exact Nat.lt_succ_self 7

theorem distance_turned (hfin : x.finalizer = true) (h : x.Turns peerIDOf) :
    Peer.distance lib peerIDOf { x with status := { x.status with phase := .pending } } <
      x.distance lib peerIDOf := by
  rw [distance_pending (x := { x with status := { x.status with phase := .pending } }) hfin
    rfl]
  cases h with
  | initial hph hkeys =>
    rw [distance_initial hfin hph, if_pos (hkeys _)]
    dsimp only
    split_ifs <;> decide
  | ready hph hne =>
    rw [distance_ready hfin hph]
    dsimp only
    split_ifs <;> decide
  | failed hph =>
    have hsix : x.distance lib peerIDOf = 6 := by
      unfold Peer.distance
      rw [if_pos hfin, Nat.zero_add, hph]
    rw [hsix]
    dsimp only
    split_ifs <;> decide

theorem distance_labels {network : String} (h : x.Joins network)
    (hne : x.networkLabels ≠ networkLabels lib network) :
    Peer.distance lib peerIDOf { x with networkLabels := networkLabels lib network } <
      x.distance lib peerIDOf := by
  rw [distance_pending (x := { x with networkLabels := networkLabels lib network }) h.finalizer
    h.phase, distance_pending h.finalizer h.phase]
  dsimp only
  rw [h.active, h.network]
  simp [hne]

theorem distance_leaves (h : x.Leaves) : x.distance lib peerIDOf = 4 := by
  rw [distance_pending h.finalizer h.phase, if_pos (isSome_iff_ne_none.2 h.active)]

theorem distance_left (h : x.Leaves) {address : Option ℕ} :
    Peer.distance lib peerIDOf { x with status := ⟨.ready, none, address⟩ } <
      x.distance lib peerIDOf := by
  rw [distance_ready (x := { x with status := ⟨.ready, none, address⟩ }) h.finalizer rfl,
    distance_leaves h]
  exact Nat.lt_succ_self 3

end Distance

section Able

variable {x : Peer}

theorem able_turned (hable : x.Able peerIDOf) (h : x.Turns peerIDOf) :
    Peer.Able peerIDOf { x with status := { x.status with phase := .pending } } where
  deleting := hable.deleting
  shadow := hable.shadow
  keys := False.elim
  stalled hst := by
    cases h with
    | initial hph hkeys =>
      refine hable.stalled ⟨hst.network, hst.active, fun hrdy => ?_⟩
      rw [hrdy] at hph
      exact hph
    | ready hph hne => exact hne hst.active.symm
    | failed hph => exact hable.stalled ⟨hst.network, hst.active, by rw [hph]; exact nofun⟩

theorem able_left (hable : x.Able peerIDOf) {address : Option ℕ} :
    Peer.Able peerIDOf { x with status := ⟨.ready, none, address⟩ } where
  deleting := hable.deleting
  shadow := hable.shadow
  keys := False.elim
  stalled hst := hst.phase rfl

theorem able_of_eq {x' : Peer} (hable : x.Able peerIDOf) (hdel : x'.deleting = x.deleting)
    (hsha : x'.shadow = x.shadow) (hkeys : x'.status.phase.Initial → x'.keys.Usable peerIDOf)
    (hnet : x'.network = x.network) (hsta : x'.status = x.status) :
    x'.Able peerIDOf where
  deleting := hdel.trans hable.deleting
  shadow := hsha.trans hable.shadow
  keys := hkeys
  stalled hst := hable.stalled ⟨hnet ▸ hst.network, hsta ▸ hnet ▸ hst.active,
    hsta ▸ hst.phase⟩

end Able

def Advances (lib : Library σ η) (peerIDOf : String → Except String String) (name : String)
    (s t : Site String Shared Point) : Prop :=
  Settled name t ∨
    (∃ x, Aims lib peerIDOf name t x) ∧ rank lib peerIDOf name t < rank lib peerIDOf name s

section Steps

variable {o : Answer} {name : String} {s : Site String Shared Point} {x : Peer}

theorem Joinable.mono {s t : Shared} {run run' : Option Point} {network : String}
    (h : Joinable s run network) (hnet : t.networks = s.networks)
    (hfree : ∀ e, s.endpoints.get e = none → t.endpoints.get e = none)
    (hsea : ∀ cidr, searched cidr run' = searched cidr run) : Joinable t run' network := by
  obtain ⟨cidr, hcidr, hval, hhas⟩ := h
  refine ⟨cidr, hnet ▸ hcidr, hval, fun used first hfst => ?_⟩
  obtain ⟨i, hfst, hend, hused, hi⟩ := hhas used first (hsea cidr ▸ hfst)
  exact ⟨i, hfst, hend, hused, hfree _ hi⟩

theorem advances_after (h : Aims lib peerIDOf name s x) (hrun : s.runs name = some p)
    (ho : o.Success s.shared) {y : Peer}
    (hy : (write lib o s.shared name p).peers.get name = some y) (hable : y.Able peerIDOf)
    (hnetw : y.network = x.network)
    (hjoin : ∀ network, x.network = some network → Joinable s.shared (some p) network →
      Joinable (write lib o s.shared name p) (next lib peerIDOf o s.shared name p) network)
    (hfits : ∀ q, next lib peerIDOf o s.shared name p = some q →
      q.Fits lib peerIDOf (write lib o s.shared name p) y)
    (hlt : y.distance lib peerIDOf < x.distance lib peerIDOf ∨
      y.distance lib peerIDOf = x.distance lib peerIDOf ∧
        remaining (next lib peerIDOf o s.shared name p) < remaining (some p)) :
    Advances lib peerIDOf name s ((workers lib peerIDOf).after s name o p) := by
  have hsha : ((workers lib peerIDOf).after s name o p).shared = write lib o s.shared name p :=
    ho.effect p
  have hruns : ((workers lib peerIDOf).after s name o p).runs name =
    next lib peerIDOf o s.shared name p := update_self ..
  have hpeer := (congrArg (fun t : Shared => t.peers.get name) hsha).trans hy
  refine .inr ⟨⟨y, hpeer, hable, ?_, ?_⟩, ?_⟩
  · intro z network hz hnet
    cases hpeer.symm.trans hz
    rw [hsha, hruns]
    rw [hnetw] at hnet
    refine hjoin network hnet ?_
    have hroom := h.room x network h.peer hnet
    rw [hrun] at hroom
    exact hroom
  · rw [hsha, hruns]
    exact hfits
  unfold rank
  rw [hpeer, hruns, h.peer, hrun]
  exact Prod.Lex.toLex_lt_toLex.2 hlt

theorem advances_written (h : Aims lib peerIDOf name s x) (hrun : s.runs name = some p)
    (ho : o.Success s.shared) (hwri : write lib o s.shared name p = s.shared.update name f)
    (hable : (f x).Able peerIDOf) (hnet : (f x).network = x.network)
    (hsea : ∀ cidr, searched cidr (some p) = some ([], cidr.startInt))
    (hnext : next lib peerIDOf o s.shared name p = none)
    (hlt : (f x).distance lib peerIDOf < x.distance lib peerIDOf) :
    Advances lib peerIDOf name s ((workers lib peerIDOf).after s name o p) := by
  refine advances_after h hrun ho ?_ hable hnet (fun network _ hjoin => ?_) ?_ (.inl hlt)
  · rw [hwri]
    exact get_written h.peer
  · rw [hwri, hnext]
    exact hjoin.mono update_networks (fun e he => by rw [update_endpoints]; exact he)
      fun cidr => (hsea cidr).symm
  rw [hnext]
  intro q hq
  cases hq

theorem advances_on (h : Aims lib peerIDOf name s x) {q : Point} (hrun : s.runs name = some p)
    (ho : o.Success s.shared) (hps : (write lib o s.shared name p).peers = s.shared.peers)
    (hnext : next lib peerIDOf o s.shared name p = some q)
    (hjoin : ∀ network, x.network = some network → Joinable s.shared (some p) network →
      Joinable (write lib o s.shared name p) (some q) network)
    (hfits : q.Fits lib peerIDOf (write lib o s.shared name p) x)
    (hlt : remaining (some q) < remaining (some p)) :
    Advances lib peerIDOf name s ((workers lib peerIDOf).after s name o p) := by
  refine advances_after h hrun ho (by rw [hps]; exact h.peer) h.able rfl ?_ ?_ (.inr ⟨rfl, ?_⟩)
  · rw [hnext]
    exact hjoin
  · rw [hnext]
    intro q' hq
    cases hq
    exact hfits
  · rw [hnext]
    exact hlt

end Steps

section Search

variable {r : Ipam.Request} {o : Answer} {s : Shared} {used : List String} {i : ℕ}

theorem endInt_lt (cidr : CIDR) : cidr.endInt < 2 ^ 32 := Nat.mod_lt _ (by decide)

theorem not_mem_listed (ho : o.Success s) {a : ℕ} (ha : s.endpoints.get (hexName a) = none) :
    hexName a ∉ o.listed.map Endpoint.name := by
  intro hmem
  obtain ⟨e, he, hname⟩ := List.mem_map.1 hmem
  rw [← hname, ho.listed e he] at ha
  cases ha

theorem allocNext_list_success (ho : o.Success s) :
    (∃ a, Ipam.allocNext r o.ipam s.endpoints .list = .returned (.ok a)) ∨
      Ipam.allocNext r o.ipam s.endpoints .list =
        .scan (o.listed.map Endpoint.name) r.cidr.startInt := by
  have herr : o.ipam.err = none := ho.err
  unfold Ipam.allocNext
  dsimp only
  rw [herr]
  dsimp only
  split
  · exact .inl ⟨_, rfl⟩
  · exact .inr rfl

theorem allocNext_scan_success (ho : o.Success s) {a : ℕ} (hi : i ≤ a) (ha : a ≤ r.cidr.endInt)
    (hused : hexName a ∉ used) (hfree : s.endpoints.get (hexName a) = none) :
    Ipam.allocNext r o.ipam s.endpoints (.scan used i) = .returned (.ok i) ∨
      i < a ∧ Ipam.allocNext r o.ipam s.endpoints (.scan used i) = .scan used (i + 1) ∧
        Ipam.claims r o.ipam s.endpoints (.scan used i) = none := by
  have herr : o.ipam.err = none := ho.err
  have hskip : hexName i ∈ used ∨ (s.endpoints.get (hexName i)).isSome = true →
      i < a ∧ Ipam.add32 i 1 = i + 1 ∧
        Ipam.claims r o.ipam s.endpoints (.scan used i) = none := by
    intro h
    have hlt : i < a := by
      refine Nat.lt_of_le_of_ne hi ?_
      rintro rfl
      rw [hfree] at h
      exact h.elim hused nofun
    have hend := endInt_lt r.cidr
    refine ⟨hlt, Ipam.add32_of_lt (by omega), if_neg ?_⟩
    rintro ⟨-, hnot, -, hnone⟩
    rw [hnone] at h
    exact h.elim hnot nofun
  unfold Ipam.allocNext
  dsimp only
  rw [if_pos (hi.trans ha), herr]
  dsimp only
  split
  · next h =>
    obtain ⟨hlt, hadd, hclm⟩ := hskip (.inl h)
    exact .inr ⟨hlt, by rw [hadd], hclm⟩
  split
  · next h =>
    obtain ⟨hlt, hadd, hclm⟩ := hskip (.inr h)
    exact .inr ⟨hlt, by rw [hadd], hclm⟩
  · exact .inl rfl

end Search

section Calls

variable {o : Answer} {name : String} {s : Site String Shared Point} {x : Peer}

theorem advances_settled (hx : s.shared.peers.get name = some x) (ho : o.Success s.shared)
    (hwri : write lib o s.shared name p = s.shared.update name f) (hset : (f x).Settled) :
    Advances lib peerIDOf name s ((workers lib peerIDOf).after s name o p) := by
  refine .inl ⟨f x, ?_, hset⟩
  change (effect lib o s.shared name p).peers.get name = some (f x)
  rw [ho.effect, hwri]
  exact get_written hx

variable {peer : Peer}

theorem advances_allocate (h : Aims lib peerIDOf name s x) {network : String} {cidr : CIDR}
    {pc : Ipam.Alloc} (hrun : s.runs name = some (.allocate peer network cidr pc))
    (ho : o.Success s.shared) :
    Advances lib peerIDOf name s
      ((workers lib peerIDOf).after s name o (.allocate peer network cidr pc)) := by
  obtain ⟨rfl, hjoi, hcidr, hpc⟩ := h.fits _ hrun
  obtain ⟨cidr', hcidr', -, hhas⟩ := h.room peer network h.peer hjoi.network
  cases hcidr.symm.trans hcidr'
  rw [hrun] at hhas
  have hps : (write lib o s.shared name (.allocate peer network cidr pc)).peers =
      s.shared.peers := by
    dsimp only [write]
    split <;> rfl
  have hnet : (write lib o s.shared name (.allocate peer network cidr pc)).networks =
      s.shared.networks := by
    dsimp only [write]
    split <;> rfl
  have hnext : ∀ pc', Ipam.allocNext (request network cidr name) o.ipam s.shared.endpoints pc =
      pc' → next lib peerIDOf o s.shared name (.allocate peer network cidr pc) =
        some (afterAllocate peer network cidr pc') := by
    rintro _ rfl
    rfl
  have hfnd : ∀ a, Ipam.allocNext (request network cidr name) o.ipam s.shared.endpoints pc =
      .returned (.ok a) → 1 < remaining (some (.allocate peer network cidr pc)) →
      Advances lib peerIDOf name s
        ((workers lib peerIDOf).after s name o (.allocate peer network cidr pc)) := by
    intro a ha hlt
    refine advances_on h hrun ho hps (hnext _ ha) (fun n hn _ => ?_)
      ⟨rfl, hjoi⟩ hlt
    cases hjoi.network.symm.trans hn
    obtain ⟨cidr', hcidr', hval, -⟩ := h.room peer network h.peer hjoi.network
    exact ⟨cidr', by rw [hnet]; exact hcidr', hval, fun _ _ hs => nomatch hs⟩
  have hscan : ∀ used i, Ipam.allocNext (request network cidr name) o.ipam s.shared.endpoints pc =
      .scan used i → Ipam.claims (request network cidr name) o.ipam s.shared.endpoints pc = none →
      2 ^ 32 - i + 3 < remaining (some (.allocate peer network cidr pc)) →
      (∃ a, i ≤ a ∧ a ≤ cidr.endInt ∧ hexName a ∉ used ∧
        s.shared.endpoints.get (hexName a) = none) →
      Advances lib peerIDOf name s
        ((workers lib peerIDOf).after s name o (.allocate peer network cidr pc)) := by
    intro used i hi hclm hlt hfree
    have hsame : write lib o s.shared name (.allocate peer network cidr pc) = s.shared := by
      dsimp only [write]
      rw [hclm]
    refine advances_on h hrun ho hps (hnext _ hi) (fun n hn _ => ?_)
      ⟨rfl, hjoi, by rw [hsame]; exact hcidr, fun _ => nofun⟩ hlt
    cases hjoi.network.symm.trans hn
    obtain ⟨cidr', hcidr', hval, -⟩ := h.room peer network h.peer hjoi.network
    cases hcidr.symm.trans hcidr'
    rw [hsame]
    refine ⟨cidr, hcidr, hval, fun used' first hfst => ?_⟩
    cases hfst
    exact hfree
  cases pc with
  | list =>
    obtain ⟨a, ha⟩ | hlist := allocNext_list_success (r := request network cidr name) ho
    · exact hfnd a ha (show 1 < 2 ^ 32 + 4 by decide)
    obtain ⟨a, hst, hend, -, hfree⟩ := hhas [] cidr.startInt rfl
    refine hscan _ _ hlist rfl (show _ < 2 ^ 32 + 4 by omega)
      ⟨a, hst, hend, not_mem_listed ho hfree, hfree⟩
  | scan used i =>
    obtain ⟨a, hle, hend, hused, hfree⟩ := hhas used i rfl
    obtain hok | ⟨hlt, hon, hclm⟩ :=
      allocNext_scan_success (r := request network cidr name) ho hle hend hused hfree
    · exact hfnd i hok (show 1 < 2 ^ 32 - i + 3 by omega)
    have hbou := endInt_lt cidr
    exact hscan used (i + 1) hon hclm (show _ < 2 ^ 32 - i + 3 by omega)
      ⟨a, hlt, hend, hused, hfree⟩
  | returned result => exact absurd rfl (hpc result)

theorem advances_ensurePeerSpec (h : Aims lib peerIDOf name s x) {network : String} {cidr : CIDR}
    (hrun : s.runs name = some (.ensurePeerSpec peer network cidr)) (ho : o.Success s.shared) :
    Advances lib peerIDOf name s
      ((workers lib peerIDOf).after s name o (.ensurePeerSpec peer network cidr)) := by
  obtain ⟨rfl, hjoi, hcidr⟩ := h.fits _ hrun
  obtain ⟨cidr', hcidr', hval, -⟩ := h.room peer network h.peer hjoi.network
  cases hcidr.symm.trans hcidr'
  have hlist : Ipam.allocateIP (request network cidr name) = .list := by
    unfold Ipam.allocateIP request
    cases cidr with
    | invalid err => exact absurd rfl (hval err)
    | v4 n => rfl
    | v6 ones => rfl
  have hfnd : ¬ (o.err.isSome = true ∨ (s.shared.networks.get network).isNone = true) := by
    rw [ho.err, hcidr]
    simp
  by_cases hlab : peer.networkLabels = networkLabels lib network
  · have hnext : next lib peerIDOf o s.shared name (.ensurePeerSpec peer network cidr) =
        some (.allocate peer network cidr .list) := by
      unfold next
      dsimp only
      rw [if_neg hfnd, if_pos hlab, hlist]
      rfl
    exact advances_on h hrun ho rfl hnext
      (fun _ _ hjoin => hjoin.mono rfl (fun _ he => he) fun _ => rfl)
      ⟨rfl, hjoi, hcidr, fun _ => nofun⟩ (Nat.lt_succ_self _)
  have hnext : next lib peerIDOf o s.shared name (.ensurePeerSpec peer network cidr) =
      some (.patchLabels peer network cidr) := by
    unfold next
    dsimp only
    rw [if_neg hfnd, if_neg hlab]
  exact advances_on h hrun ho rfl hnext
    (fun _ _ hjoin => hjoin.mono rfl (fun _ he => he) fun _ => rfl)
    ⟨rfl, hjoi, hlab⟩ (show 1 < 2 ^ 32 + 5 by decide)

theorem advances_clearLabels (h : Aims lib peerIDOf name s x)
    (hrun : s.runs name = some (.clearLabels peer)) (ho : o.Success s.shared) :
    Advances lib peerIDOf name s ((workers lib peerIDOf).after s name o (.clearLabels peer)) := by
  obtain ⟨rfl, hlv⟩ := h.fits _ hrun
  by_cases hemp : peer.networkLabels = .empty
  · have hnext : next lib peerIDOf o s.shared name (.clearLabels peer) = some (.leave peer) := by
      unfold next
      dsimp only
      rw [if_pos hemp]
    have hsame : write lib o s.shared name (.clearLabels peer) = s.shared := by
      dsimp only [write]
      rw [if_pos hemp]
    refine advances_on h hrun ho (by rw [hsame]) hnext (fun _ _ hjoin => ?_)
      ⟨rfl, rfl, hlv⟩ (Nat.lt_succ_self 1)
    rw [hsame]
    exact hjoin.mono rfl (fun _ he => he) fun _ => rfl
  let cleared (p : Peer) : Peer :=
    { p with networkLabels := Labels.patch peer.networkLabels .empty p.networkLabels }
  have hnext : next lib peerIDOf o s.shared name (.clearLabels peer) =
      some (.leave (peer.cleared peer)) := by
    unfold next
    dsimp only
    rw [if_neg hemp, ho.err, ho.conflict, h.peer]
    rfl
  have hwri : write lib o s.shared name (.clearLabels peer) =
      s.shared.update name cleared := by
    dsimp only [write]
    rw [if_neg hemp]
  have hlv' : (cleared peer).Leaves := ⟨hlv.finalizer, hlv.phase, hlv.active⟩
  refine advances_after h hrun ho (y := cleared peer) ?_
    (able_of_eq h.able rfl rfl h.able.keys rfl rfl) rfl (fun _ _ hjoin => ?_)
    (fun q hq => ?_) (.inr ⟨?_, ?_⟩)
  · rw [hwri]
    exact get_written h.peer
  · rw [hwri, hnext]
    exact hjoin.mono update_networks (fun _ he => by rw [update_endpoints]; exact he)
      fun _ => rfl
  · cases hnext.symm.trans hq
    exact ⟨rfl, rfl, hlv'⟩
  · rw [distance_leaves hlv, distance_leaves hlv']
  · rw [hnext]
    exact Nat.lt_succ_self 1

theorem advances_call (h : Aims lib peerIDOf name s x) (hset : ¬ x.Settled)
    (hrun : s.runs name = some p) (ho : o.Success s.shared) :
    Advances lib peerIDOf name s ((workers lib peerIDOf).after s name o p) := by
  have hfits := h.fits p hrun
  have hfai := ho.not_fails h.peer
  cases p with
  | get =>
    obtain ⟨q, hq⟩ := exists_decides o h.able
    have hfst : q.First lib peerIDOf s.shared x := first_of_decides h.able hset hq
    refine advances_on h hrun ho rfl
      ((ho.next_get h.peer).trans (reconcile_eq_some_iff.2 hq)) (fun network _ hjoin => ?_)
      hfst.fits hfst.lt
    exact hjoin.mono rfl (fun _ he => he) hfst.searched
  | addFinalizer =>
    exact advances_written h hrun ho rfl
      (able_of_eq h.able rfl rfl h.able.keys rfl rfl) rfl (fun _ => rfl) rfl
      (distance_finalizer hfits)
  | finalize => exact hfits.elim
  | patchKeys peer new =>
    obtain ⟨rfl, hfin, hph, g, hkeys⟩ := hfits
    have hnew : { peer with keys := Keys.patch peer.keys new peer.keys } =
        { peer with keys := new } := by rw [Keys.patch_self]
    refine advances_written h hrun ho rfl ?_ rfl (fun _ => rfl) ?_ ?_
    · exact able_of_eq h.able rfl rfl (fun _ => hnew ▸ (ensureKeys_new hkeys).1) rfl rfl
    · unfold next
      dsimp only
      rw [if_neg hfai, ho.conflict]
      rfl
    · rw [hnew]
      exact distance_keys hfin hph hkeys
  | setPhase peer phase last =>
    obtain ⟨rfl, hfin, ⟨rfl, rfl, htur⟩ | ⟨rfl, hnet, hact⟩⟩ := hfits
    · refine advances_written h hrun ho rfl ?_ rfl (fun _ => rfl) ?_ ?_
      · dsimp only
        rw [Status.patch_self]
        exact able_turned h.able htur
      · unfold next
        simp
      dsimp only
      rw [Status.patch_self]
      exact distance_turned hfin htur
    refine advances_settled h.peer ho rfl ?_
    rw [Status.patch_self]
    exact ⟨rfl, hact.trans hnet.symm⟩
  | getNetwork peer network =>
    obtain ⟨rfl, hjoi⟩ := hfits
    obtain ⟨cidr, hcidr, hval, -⟩ := h.room peer network h.peer hjoi.network
    have hnext : next lib peerIDOf o s.shared name (.getNetwork peer network) =
        some (.ensurePeerSpec peer network cidr) := by
      unfold next
      dsimp only
      rw [ho.err, hcidr]
      rfl
    exact advances_on h hrun ho rfl hnext
      (fun _ _ hjoin => hjoin.mono rfl (fun _ he => he) fun _ => rfl)
      ⟨rfl, hjoi, hcidr⟩ (Nat.lt_succ_self _)
  | ensurePeerSpec peer network cidr => exact advances_ensurePeerSpec h hrun ho
  | patchLabels peer network cidr =>
    obtain ⟨rfl, hjoi, hlab⟩ := hfits
    refine advances_written h hrun ho rfl
      (able_of_eq h.able rfl rfl h.able.keys rfl rfl) rfl (fun _ => rfl) ?_ ?_
    · unfold next
      dsimp only
      rw [if_neg hfai, ho.conflict]
      rfl
    · rw [networkLabels, Labels.patch_single]
      exact distance_labels hjoi hlab
  | allocate peer network cidr pc => exact advances_allocate h hrun ho
  | join peer network a =>
    obtain ⟨rfl, hjoi⟩ := hfits
    refine advances_settled h.peer ho rfl ?_
    rw [Status.patch_self]
    exact ⟨rfl, hjoi.network.symm⟩
  | release peer a =>
    obtain ⟨rfl, hlv⟩ := hfits
    have hnext : next lib peerIDOf o s.shared name (.release peer a) =
        some (.clearLabels peer) := by
      unfold next
      dsimp only
      rw [ho.err]
      rfl
    refine advances_on h hrun ho rfl hnext (fun _ _ hjoin => ?_) ⟨rfl, hlv⟩
      (Nat.lt_succ_self 2)
    refine hjoin.mono rfl (fun e he => ?_) fun _ => rfl
    dsimp only [write]
    rw [GoMap.get_delete, he, ite_self]
  | clearLabels peer => exact advances_clearLabels h hrun ho
  | leave peer =>
    obtain ⟨hst, hnet, hlv⟩ := hfits
    have hwr : Status.patch peer.status ⟨.ready, none, none⟩ x.status =
        ⟨.ready, none, none⟩ := by rw [hst, Status.patch_self]
    cases hx : x.network with
    | none =>
      refine advances_settled h.peer ho rfl ?_
      rw [hwr]
      exact ⟨rfl, hx.symm⟩
    | some network =>
      refine advances_written h hrun ho rfl ?_ rfl (fun _ => rfl) ?_ ?_
      · rw [hwr]
        exact able_left h.able
      · unfold next
        dsimp only
        rw [hnet, hx]
        simp
      · rw [hwr]
        exact distance_left hlv
  | lastReconcile => exact hfits.elim

end Calls

section Frame

variable {o : Answer} {s : Shared} {name other : String}

theorem effect_frame (h : name ≠ other) (p : Point) :
    (effect lib o s other p).peers.get name = s.peers.get name ∧
      (effect lib o s other p).networks = s.networks := by
  have hwro := effect_wrote lib o s other p
  generalize effect lib o s other p = t at hwro
  cases hwro with
  | update p f => exact ⟨by rw [get_update, if_neg h], update_networks⟩
  | remove => exact ⟨by rw [get_remove, if_neg h], remove_networks⟩
  | _ => exact ⟨rfl, rfl⟩

theorem env_frame {t : Shared} {e : Event} (hspa : Spares name (.env e)) (h : Env s e t) :
    t.peers.get name = s.peers.get name := by
  cases h with
  | setNetwork other network => rw [get_update, if_neg (Ne.symm hspa)]
  | deletePeer other p hp =>
    split
    · rw [get_update, if_neg (Ne.symm hspa)]
    · rw [get_remove, if_neg (Ne.symm hspa)]
  | _ => rfl

end Frame

theorem others_frame (h : Others lib peerIDOf name s t) :
    t.shared.peers.get name = s.shared.peers.get name ∧ t.runs name = s.runs name ∧
      ∀ network cidr, s.shared.networks.get network = some (some cidr) →
        t.shared.networks.get network = some (some cidr) := by
  obtain ⟨⟨l, hspa, hstep⟩, -⟩ := h
  cases hstep with
  | start hidle | crash => exact ⟨rfl, update_of_ne (Ne.symm hspa) .., fun _ _ h => h⟩
  | @call other o p hrun =>
    obtain ⟨hps, hnet⟩ : (effect lib o s.shared other p).peers.get name = _ ∧
        (effect lib o s.shared other p).networks = _ := effect_frame (Ne.symm hspa) p
    exact ⟨hps, update_of_ne (Ne.symm hspa) .., fun network cidr h =>
      (congrArg (GoMap.get · network) hnet).trans h⟩
  | env he =>
    exact ⟨env_frame hspa he, rfl, fun _ _ => env_assigned he⟩

theorem Point.Fits.keeps {s t : Shared} (hp : p.Fits lib peerIDOf s x)
    (h : ∀ network cidr, s.networks.get network = some (some cidr) → t.networks.get network = some
      (some cidr)) : p.Fits lib peerIDOf t x := by
  cases p with
  | ensurePeerSpec peer network cidr => exact ⟨hp.1, hp.2.1, h _ _ hp.2.2⟩
  | allocate peer network cidr pc => exact ⟨hp.1, hp.2.1, h _ _ hp.2.2.1, hp.2.2.2⟩
  | _ => exact hp

theorem aims_others (hs : Aims lib peerIDOf name s x) (h : Others lib peerIDOf name s t) :
    Aims lib peerIDOf name t x ∧ rank lib peerIDOf name t = rank lib peerIDOf name s := by
  obtain ⟨hps, hruns, hnet⟩ := others_frame h
  refine ⟨⟨hps.trans hs.peer, hs.able, h.2, fun p hp => ?_⟩, ?_⟩
  · exact (hs.fits p (hruns ▸ hp)).keeps hnet
  · unfold rank
    rw [hps, hruns]

theorem exists_own (name : String) (s : Site String Shared Point) :
    ∃ t, Own lib peerIDOf name s t := by
  cases hrun : s.runs name with
  | none => exact ⟨_, .start hrun⟩
  | some p => exact ⟨_, .call (o := {}) hrun ⟨rfl, rfl, rfl, nofun⟩⟩

theorem advances_own (hs : Aims lib peerIDOf name s x) (hset : ¬ x.Settled)
    (h : Own lib peerIDOf name s t) :
    Advances lib peerIDOf name s t := by
  cases h with
  | start hidle =>
    have hruns : ((workers lib peerIDOf).started s name).runs name = some .get :=
      update_self ..
    refine .inr ⟨⟨x, hs.peer, hs.able, fun y network hy hnet => ?_, fun p hp => ?_⟩, ?_⟩
    · rw [hruns]
      have hjoin := hs.room y network hy hnet
      rw [hidle] at hjoin
      exact hjoin.mono rfl (fun _ he => he) fun _ => rfl
    · cases hruns.symm.trans hp
      trivial
    unfold rank
    rw [hruns, hidle]
    exact Prod.Lex.toLex_lt_toLex.2 (.inr ⟨rfl, Nat.lt_succ_self _⟩)
  | call hrun ho => exact advances_call hs hset hrun ho

theorem inevitable_of_able (hidle : s.runs name = none) (hx : s.shared.peers.get name = some x)
    (hroom : Room name s) (hable : x.Able peerIDOf) :
    Inevitable (Own lib peerIDOf name) (Others lib peerIDOf name) (Settled name) s := by
  refine Inevitable.of_rank (rank lib peerIDOf name) (I := fun s => ∃ x, Aims lib peerIDOf name s x)
    ?_ ?_ ⟨x, hx, hable, hroom, fun p hp => ?_⟩
  · rintro s t ⟨x, hs⟩ h
    obtain ⟨ht, hrank⟩ := aims_others hs h
    refine ⟨⟨x, ht⟩, hrank, ?_⟩
    rintro ⟨y, hy, hset⟩
    exact ⟨y, (others_frame h).1 ▸ hy, hset⟩
  · rintro s ⟨x, hs⟩ hQ
    exact ⟨exists_own name s, fun t h =>
      advances_own hs (fun hset => hQ ⟨x, hs.peer, hset⟩) h⟩
  · rw [hidle] at hp
    cases hp

/-- **Where the runs end.** With room in its network, a peer becomes `Ready` there after finitely
many further calls of its runs, exactly if it is already or is able to get there. -/
theorem settles_iff {name : String} {s : Site String Shared Point} {x : Peer}
    (hidle : s.runs name = none) (hx : s.shared.peers.get name = some x) (hroom : Room name s) :
    Inevitable (Own lib peerIDOf name) (Others lib peerIDOf name) (Settled name) s ↔
      x.Settled ∨ x.Able peerIDOf := by
  constructor
  · intro h
    by_contra hnot
    push Not at hnot
    exact not_inevitable hidle hx hnot.1 hnot.2 h
  rintro (hset | hable)
  · exact .now ⟨x, hx, hset⟩
  · exact inevitable_of_able hidle hx hroom hable

theorem new_peer_settles : ∃ s : Site String Shared Point, s.runs "p" = none ∧
    s.shared.peers.get "p" = some newPeer ∧ Room "p" s ∧
    Inevitable (Own .plain (fun _ => .error "") "p") (Others .plain (fun _ => .error "") "p")
      (Settled "p") s := by
  have hx : twoPeers.peers.get "p" = some newPeer := by decide +kernel
  have hroom : Room "p" ⟨twoPeers, fun _ => none⟩ := by
    intro x network hx' hnet
    cases hx.symm.trans hx'
    cases hnet
    refine ⟨.v4 Ipam.tenNet, by decide +kernel, fun _ => nofun, fun used first hfst => ?_⟩
    cases hfst
    exact ⟨_, le_rfl, by decide, not_mem_nil, rfl⟩
  refine ⟨⟨twoPeers, fun _ => none⟩, rfl, hx, hroom, (settles_iff rfl hx hroom).2 (.inr ?_)⟩
  exact ⟨rfl, rfl, fun _ => .inl (by decide), fun h => nomatch h.active⟩

def switchBack : Moves :=
  joins "p" ++ .env (.setNetwork "p" (some "net2")) :: reconciles "p" 2 ++
    [.env (.setNetwork "p" (some "net"))]

theorem switch_back_stalls : ∃ s x, (workers .plain (fun _ => .error "")).system.Reachable s ∧
    s.runs "p" = none ∧ s.shared.peers.get "p" = some x ∧ Room "p" s ∧
    x.network = some "net" ∧ x.status.activeNetwork = some "net" ∧ x.status.phase = .pending ∧
    ¬ Inevitable (Own .plain (fun _ => .error "") "p") (Others .plain (fun _ => .error "") "p")
      (Settled "p") s := by
  obtain ⟨s, hs, hidle, hpeer, hnet, hfree⟩ := Workers.exists_exec
    (M := workers .plain (fun _ => .error "")) (C := fun _ _ _ _ => True) (E := apply)
    (Q := fun s => (s.runs "p").isNone ∧ s.shared.peers.get "p" =
        some { newPeer with status := ⟨.pending, some "net", some 0x0a000002⟩ } ∧
      s.shared.networks.get "net" = some (some (.v4 Ipam.tenNet)) ∧
      s.shared.endpoints.get (hexName 0x0a000003) = none)
    (fun _ _ _ => env_of_apply) twoPeers_reachable switchBack (by decide +kernel)
  have hidle := isNone_iff_eq_none.1 hidle
  refine ⟨s, _, hs.of_guard, hidle, hpeer, ?_, rfl, rfl, rfl, not_inevitable hidle hpeer ?_ ?_⟩
  · intro x network hx hx'
    cases hpeer.symm.trans hx
    cases hx'
    rw [hidle]
    refine ⟨_, hnet, fun _ => nofun, fun used first hfst => ?_⟩
    cases hfst
    exact ⟨0x0a000003, by decide, by decide, not_mem_nil, hfree⟩
  · exact fun h => nomatch h.1
  · exact fun h => h.stalled ⟨nofun, rfl, nofun⟩

end LatticeMesh.Controller.Membership
