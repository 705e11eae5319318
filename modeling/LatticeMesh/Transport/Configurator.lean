import LatticeMesh.Lib.LTS
import LatticeMesh.Transport.ProbeFactory

/-! # The WireGuard configurator of a probe -/

namespace LatticeMesh.Transport

open Agent List Option Function

structure SetPeer where
  publicKey : String
  endpoint : String
  allowedIPs : String
  persistentKeepalived : Int
  remove : Bool

inductive Setting (κ π : Type) where
  | publicKey (k : κ)
  | replaceAllowedIPs
  | allowedIP (p : π)
  | remove
  | plain
  | rejected

structure Uapi (κ π : Type) where
  parseKey : String → Option κ
  parsePrefix : String → Option π
  parseEndpoint : String → Bool
  spanning : SetPeer → List (Setting κ π)

variable {κ π : Type}

def Uapi.allowedIP (u : Uapi κ π) (cidr : String) : Setting κ π :=
  match u.parsePrefix cidr with
  | some p => .allowedIP p
  | none => .rejected

def keepaliveSetting (interval : Int) : Setting κ π :=
  if 0 ≤ interval ∧ interval ≤ 65535 then .plain else .rejected

def Uapi.endpoint (u : Uapi κ π) (endpoint : String) : List (Setting κ π) :=
  if endpoint = "" then [] else [if u.parseEndpoint endpoint then .plain else .rejected]

def SetPeer.OneLine (p : SetPeer) : Prop := '\n' ∉ p.allowedIPs.toList ∧ '\n' ∉ p.endpoint.toList

instance (p : SetPeer) : Decidable p.OneLine := inferInstanceAs (Decidable (_ ∧ _))

def SetPeer.settings (u : Uapi κ π) (p : SetPeer) : List (Setting κ π) :=
  if p.OneLine then
    ((u.parseKey p.publicKey).map .publicKey).toList ++
      [.replaceAllowedIPs, keepaliveSetting p.persistentKeepalived] ++
      (prefixes p.allowedIPs).map u.allowedIP ++ u.endpoint p.endpoint ++
      if p.remove then [.remove] else []
  else u.spanning p

structure Device (κ π : Type) where
  owner : π → Option κ

namespace Device

variable [DecidableEq κ] [DecidableEq π]

def release (d : Device κ π) (k : κ) : Device κ π :=
  ⟨fun p => if d.owner p = some k then none else d.owner p⟩

def give (d : Device κ π) (p : π) (k : κ) : Device κ π := ⟨Function.update d.owner p (some k)⟩

def set (d : Device κ π) (current : Option κ) : Setting κ π → Option (Device κ π × Option κ)
  | .publicKey k => some (d, some k)
  | .replaceAllowedIPs | .remove => current.map fun k => (d.release k, some k)
  | .allowedIP p => current.map fun k => (d.give p k, some k)
  | .plain => current.map fun k => (d, some k)
  | .rejected => none

def ipcSet (d : Device κ π) (current : Option κ) : List (Setting κ π) → Device κ π × Bool
  | [] => (d, true)
  | x :: xs =>
    match d.set current x with
    | none => (d, false)
    | some (d', current') => d'.ipcSet current' xs

end Device

inductive Reply where
  | noProvisioner
  | breaks (n : ℕ)
  | serves

structure Configurator (κ π : Type) where
  peers : GoMap String String
  device : Device κ π
  remotePeer : Option Peer

namespace Configurator

variable [DecidableEq κ] [DecidableEq π] (u : Uapi κ π)

def write (c : Configurator κ π) (p : SetPeer) : Reply → Configurator κ π × Bool
  | .noProvisioner => (c, true)
  | .breaks n => ({ c with device := (c.device.ipcSet none ((p.settings u).take n)).1 }, false)
  | .serves =>
    let result := c.device.ipcSet none (p.settings u)
    ({ c with device := result.1 }, result.2)

def registerPeer (c : Configurator κ π) (publicKey allowedIPs : String) (r : Reply) :
    Configurator κ π × Bool :=
  if c.peers.get publicKey = some allowedIPs then (c, true)
  else { c with peers := c.peers.set publicKey allowedIPs }.write u
    ⟨publicKey, "", allowedIPs, 0, false⟩ r

def setEndpoint (c : Configurator κ π) (publicKey endpoint : String) (persistentKeepalive : Int)
    (r : Reply) : Configurator κ π × Bool :=
  c.write u ⟨publicKey, endpoint, ProbeFactory.endpointAllowedIPs c.remotePeer,
    persistentKeepalive, false⟩ r

def removePeer (c : Configurator κ π) (publicKey : String) (r : Reply) : Configurator κ π × Bool :=
  { c with peers := c.peers.delete publicKey }.write u ⟨publicKey, "", "", 0, true⟩ r

def syncAllowedIPs (c : Configurator κ π) (remoteKey allowedIPs : String) (r : Reply) :
    Configurator κ π × Bool :=
  if allowedIPs = "" then (c, true) else c.registerPeer u remoteKey allowedIPs r

inductive Call where
  | registerPeer (publicKey allowedIPs : String) (r : Reply)
  | setEndpoint (publicKey endpoint : String) (persistentKeepalive : Int) (r : Reply)
  | syncAllowedIPs (allowedIPs : String) (r : Reply)
  | removePeer (publicKey : String) (r : Reply)
  | receive (peer : Peer)

def call (remoteKey : String) (c : Configurator κ π) : Call → Configurator κ π × Bool
  | .registerPeer k a r => c.registerPeer u k a r
  | .setEndpoint k e n r => c.setEndpoint u k e n r
  | .syncAllowedIPs a r => c.syncAllowedIPs u remoteKey a r
  | .removePeer k r => c.removePeer u k r
  | .receive peer => ({ c with remotePeer := some peer }, true)

def system (remoteKey : String) : LTS (Configurator κ π) Call where
  init c := c.peers = .empty ∧ c.remotePeer = none
  step c l c' := (c.call u remoteKey l).1 = c'

end Configurator

def Uapi.entries (u : Uapi κ π) (allowedIPs : String) : List π :=
  (prefixes allowedIPs).filterMap u.parsePrefix

def Uapi.WellFormed (u : Uapi κ π) (allowedIPs : String) : Prop :=
  ∀ cidr ∈ prefixes allowedIPs, (u.parsePrefix cidr).isSome

def Uapi.Holds (u : Uapi κ π) (d : Device κ π) (publicKey allowedIPs : String) : Prop :=
  u.WellFormed allowedIPs ∧ ∃ k, u.parseKey publicKey = some k ∧
    ∀ p, d.owner p = some k ↔ p ∈ u.entries allowedIPs

section Writes

variable [DecidableEq κ] [DecidableEq π] {u : Uapi κ π}

namespace Device

omit [DecidableEq π] in
theorem owner_release {d : Device κ π} {k k' : κ} {p : π} :
    (d.release k).owner p = some k' ↔ d.owner p = some k' ∧ k' ≠ k := by
  unfold release
  dsimp only
  split
  · next h => rw [h]; grind
  · next h => grind

theorem set_other {d d' : Device κ π} {k k' : κ} {p : π} {current current' : Option κ}
    {x : Setting κ π} (hk : k' ≠ k) (hcur : ∀ j, current = some j → j = k)
    (hkey : ∀ j, x = .publicKey j → j = k) (h : d.set current x = some (d', current')) :
    current' = some k ∧ (d'.owner p = some k' → d.owner p = some k') ∧
      (x ≠ .allowedIP p → d.owner p = some k' → d'.owner p = some k') := by
  have hcas : x = .publicKey k ∨ current = some k ∧ x ≠ .rejected := by
    cases x with
    | publicKey j => exact .inl (hkey j rfl ▸ rfl)
    | rejected => cases h
    | _ =>
      cases current with
      | none => cases h
      | some j => exact .inr ⟨hcur j rfl ▸ rfl, by simp⟩
  obtain rfl | ⟨rfl, hx⟩ := hcas
  · cases h
    exact ⟨rfl, id, fun _ => id⟩
  cases x with
  | publicKey j =>
    cases h
    exact ⟨congrArg some (hkey j rfl), id, fun _ => id⟩
  | rejected => exact absurd rfl hx
  | plain =>
    cases h
    exact ⟨rfl, id, fun _ => id⟩
  | replaceAllowedIPs | remove =>
    cases h
    exact ⟨rfl, fun h => (owner_release.1 h).1, fun _ h => owner_release.2 ⟨h, hk⟩⟩
  | allowedIP q =>
    cases h
    refine ⟨rfl, fun h => ?_, fun hq h => ?_⟩
    · by_cases hpq : p = q
      · subst hpq
        simp only [give, update_self, Option.some.injEq] at h
        exact absurd h.symm hk
      · simpa only [give, update_of_ne hpq] using h
    · have hpq : p ≠ q := fun h => hq (h ▸ rfl)
      simpa only [give, update_of_ne hpq] using h

theorem ipcSet_other {k k' : κ} {p : π} (hk : k' ≠ k) {l : List (Setting κ π)}
    (hkey : ∀ j, .publicKey j ∈ l → j = k) :
    ∀ (d : Device κ π) (current : Option κ), (∀ j, current = some j → j = k) →
      ((d.ipcSet current l).1.owner p = some k' → d.owner p = some k') ∧
        (.allowedIP p ∉ l → d.owner p = some k' → (d.ipcSet current l).1.owner p = some k') := by
  induction l with
  | nil => exact fun _ _ _ => ⟨id, fun _ => id⟩
  | cons x xs ih =>
    intro d current hcur
    unfold ipcSet
    cases hset : d.set current x with
    | none => exact ⟨id, fun _ => id⟩
    | some next =>
      obtain ⟨d', current'⟩ := next
      obtain ⟨rfl, hgain, hkeep⟩ := set_other (p := p) hk hcur
        (fun j hj => hkey j (hj ▸ mem_cons_self)) hset
      obtain ⟨hgai, hkee⟩ := ih (fun j hj => hkey j (mem_cons_of_mem x hj)) d' (some k)
        (by simp)
      refine ⟨fun h => hgain (hgai h), fun hp h => ?_⟩
      rw [mem_cons, not_or] at hp
      exact hkee hp.2 (hkeep (Ne.symm hp.1) h)

theorem ipcSet_allowed {cidrs : List String} (h : ∀ cidr ∈ cidrs, (u.parsePrefix cidr).isSome)
    (k : κ) (rest : List (Setting κ π)) : ∀ d : Device κ π,
    ∃ d' : Device κ π, d.ipcSet (some k) (cidrs.map u.allowedIP ++ rest) = d'.ipcSet (some k) rest ∧
      ∀ p, d'.owner p = some k ↔ p ∈ cidrs.filterMap u.parsePrefix ∨ d.owner p = some k := by
  induction cidrs with
  | nil => exact fun d => ⟨d, rfl, by simp⟩
  | cons cidr cidrs ih =>
    intro d
    obtain ⟨q, hq⟩ := isSome_iff_exists.1 (h cidr mem_cons_self)
    obtain ⟨d', hrun, hown⟩ := ih (fun c hc => h c (mem_cons_of_mem cidr hc)) (d.give q k)
    refine ⟨d', ?_, fun p => ?_⟩
    · have hline : u.allowedIP cidr = .allowedIP q := by
        unfold Uapi.allowedIP
        rw [hq]
      rw [map_cons, cons_append, hline]
      exact hrun
    rw [hown p, filterMap_cons, hq, mem_cons]
    unfold give
    dsimp only
    by_cases hp : p = q
    · subst hp
      simp
    · rw [update_of_ne hp]
      tauto

theorem ipcSet_endpoint (d : Device κ π) (k : κ) (e : String) (n : ℕ) :
    (d.ipcSet (some k) ((u.endpoint e).take n)).1 = d := by
  unfold Uapi.endpoint
  split
  · rw [take_nil]
    rfl
  cases n with
  | zero => rfl
  | succ n =>
    rw [take_succ_cons, take_nil]
    split <;> rfl

end Device

omit [DecidableEq κ] [DecidableEq π] in
theorem SetPeer.settings_about {s : SetPeer} (h : s.OneLine) :
    (∀ j, .publicKey j ∈ s.settings u → u.parseKey s.publicKey = some j) ∧
      ∀ p, .allowedIP p ∈ s.settings u → p ∈ u.entries s.allowedIPs := by
  have hkey : ∀ x ∈ ((u.parseKey s.publicKey).map (.publicKey : κ → Setting κ π)).toList,
      ∃ j, u.parseKey s.publicKey = some j ∧ x = .publicKey j := by
    intro x hx
    rw [Option.mem_toList, map_eq_some_iff] at hx
    obtain ⟨j, hj, rfl⟩ := hx
    exact ⟨j, hj, rfl⟩
  have hkee : (keepaliveSetting s.persistentKeepalived : Setting κ π) = .plain ∨
      (keepaliveSetting s.persistentKeepalived : Setting κ π) = .rejected := by
    unfold keepaliveSetting
    split <;> simp
  have hep : ∀ x ∈ u.endpoint s.endpoint, x = .plain ∨ x = .rejected := by
    unfold Uapi.endpoint
    split
    · simp
    · split <;> simp
  have hrem : ∀ x ∈ (if s.remove then [.remove] else [] : List (Setting κ π)), x = .remove := by
    split <;> simp
  have hall : ∀ x ∈ (prefixes s.allowedIPs).map u.allowedIP,
      x = .rejected ∨ ∃ p ∈ u.entries s.allowedIPs, x = .allowedIP p := by
    intro x hx
    obtain ⟨cidr, hcidr, rfl⟩ := List.mem_map.1 hx
    unfold Uapi.allowedIP
    split
    · next p hp => exact .inr ⟨p, mem_filterMap.2 ⟨cidr, hcidr, hp⟩, rfl⟩
    · exact .inl rfl
  unfold settings
  rw [if_pos h]
  constructor
  · intro j hj
    simp only [mem_append, mem_cons, not_mem_nil, or_false] at hj
    grind
  intro p hp
  simp only [mem_append, mem_cons, not_mem_nil, or_false] at hp
  grind

variable {c : Configurator κ π}

theorem Configurator.write_other {s : SetPeer} {k : κ} {p : π} (hline : s.OneLine)
    (hk : u.parseKey s.publicKey ≠ some k) (r : Reply) :
    ((c.write u s r).1.device.owner p = some k → c.device.owner p = some k) ∧
      (p ∉ u.entries s.allowedIPs → c.device.owner p = some k →
        (c.write u s r).1.device.owner p = some k) := by
  obtain ⟨hkeys, hall⟩ := SetPeer.settings_about (u := u) hline
  have hoth : ∀ l : List (Setting κ π), l ⊆ s.settings u →
      ((c.device.ipcSet none l).1.owner p = some k → c.device.owner p = some k) ∧
        (p ∉ u.entries s.allowedIPs → c.device.owner p = some k →
          (c.device.ipcSet none l).1.owner p = some k) := by
    intro l hl
    cases hpar : u.parseKey s.publicKey with
    | none =>
      have hnone : ∀ j, .publicKey j ∉ l := fun j hj => by simpa [hpar] using hkeys j (hl hj)
      have hsame : (c.device.ipcSet none l).1 = c.device := by
        cases l with
        | nil => rfl
        | cons x xs =>
          cases x with
          | publicKey j => exact absurd mem_cons_self (hnone j)
          | _ => rfl
      rw [hsame]
      exact ⟨id, fun _ => id⟩
    | some j =>
      have hjk : k ≠ j := fun h => hk (h ▸ hpar)
      have hkeyj : ∀ i, .publicKey i ∈ l → i = j := by
        intro i hi
        have hi := hkeys i (hl hi)
        rw [hpar] at hi
        exact (Option.some.inj hi).symm
      obtain ⟨hgain, hkeep⟩ := Device.ipcSet_other (p := p) hjk hkeyj c.device none (by simp)
      exact ⟨hgain, fun hp => hkeep fun h => hp (hall p (hl h))⟩
  cases r with
  | noProvisioner => exact ⟨id, fun _ => id⟩
  | breaks n => exact hoth _ (take_subset _ _)
  | serves => exact hoth _ (List.Subset.refl _)

def SetPeer.Reaches (s : SetPeer) : Reply → Prop
  | .noProvisioner => False
  | .breaks n => 3 + (prefixes s.allowedIPs).length ≤ n
  | .serves => True

theorem Configurator.write_self {s : SetPeer} {r : Reply} (hline : s.OneLine)
    (hkey : (u.parseKey s.publicKey).isSome) (hform : u.WellFormed s.allowedIPs)
    (hkee : 0 ≤ s.persistentKeepalived ∧ s.persistentKeepalived ≤ 65535)
    (hrem : s.remove = false) (hr : s.Reaches r) :
    u.Holds (c.write u s r).1.device s.publicKey s.allowedIPs := by
  obtain ⟨k, hk⟩ := isSome_iff_exists.1 hkey
  have hset : s.settings u = .publicKey k :: .replaceAllowedIPs :: .plain ::
      ((prefixes s.allowedIPs).map u.allowedIP ++ u.endpoint s.endpoint) := by
    unfold SetPeer.settings keepaliveSetting
    rw [if_pos hline, if_pos hkee, hk, hrem]
    simp
  have hdone : ∀ m, u.Holds (c.device.ipcSet none (.publicKey k :: .replaceAllowedIPs :: .plain ::
      ((prefixes s.allowedIPs).map u.allowedIP ++ (u.endpoint s.endpoint).take m))).1
      s.publicKey s.allowedIPs := by
    intro m
    obtain ⟨d, hrun, hown⟩ := Device.ipcSet_allowed hform k ((u.endpoint s.endpoint).take m)
      (c.device.release k)
    refine ⟨hform, k, hk, fun p => ?_⟩
    change ((c.device.release k).ipcSet (some k)
      ((prefixes s.allowedIPs).map u.allowedIP ++ _)).1.owner p = some k ↔ _
    rw [hrun, Device.ipcSet_endpoint, hown p, Device.owner_release]
    simp [Uapi.entries]
  cases r with
  | noProvisioner => exact hr.elim
  | breaks n =>
    obtain ⟨m, rfl⟩ : ∃ m, n = ((prefixes s.allowedIPs).map u.allowedIP).length + m + 3 := by
      unfold SetPeer.Reaches at hr
      rw [length_map]
      exact ⟨n - ((prefixes s.allowedIPs).length + 3), by omega⟩
    have htake : (s.settings u).take (((prefixes s.allowedIPs).map u.allowedIP).length + m + 3) =
        .publicKey k :: .replaceAllowedIPs :: .plain ::
          ((prefixes s.allowedIPs).map u.allowedIP ++ (u.endpoint s.endpoint).take m) := by
      rw [hset, take_succ_cons, take_succ_cons, take_succ_cons,
        take_length_add_append]
    unfold write
    dsimp only
    rw [htake]
    exact hdone m
  | serves =>
    have hall := hdone (u.endpoint s.endpoint).length
    rw [take_length] at hall
    unfold write
    dsimp only
    rw [hset]
    exact hall

theorem Configurator.write_early {s : SetPeer} {n : ℕ} (hline : s.OneLine)
    (hkey : (u.parseKey s.publicKey).isSome) (hn : n ≤ 1) :
    (c.write u s (.breaks n)).1 = c := by
  obtain ⟨k, hk⟩ := isSome_iff_exists.1 hkey
  have hset : ∃ rest, s.settings u = .publicKey k :: rest := by
    unfold SetPeer.settings
    rw [if_pos hline, hk]
    exact ⟨_, rfl⟩
  obtain ⟨rest, hrest⟩ := hset
  unfold write
  dsimp only
  rw [hrest]
  interval_cases n <;> rfl

end Writes

namespace Configurator

variable [DecidableEq κ] [DecidableEq π] (u : Uapi κ π)

def Refines (c : Configurator κ π) : Prop :=
  ∀ k a, c.peers.get k = some a → u.Holds c.device k a

def Apart (c : Configurator κ π) (publicKey b : String) : Prop :=
  ∀ k a, c.peers.get k = some a → k ≠ publicKey →
    u.parseKey publicKey ≠ u.parseKey k ∧ ∀ p ∈ u.entries a, p ∉ u.entries b

def Registers (c : Configurator κ π) (publicKey allowedIPs : String) (r : Reply) : Prop :=
  c.peers.get publicKey = some allowedIPs ∨
    r = .serves ∧ (u.parseKey publicKey).isSome ∧ u.WellFormed allowedIPs ∧
      '\n' ∉ allowedIPs.toList ∧ c.Apart u publicKey allowedIPs

def Moves (c : Configurator κ π) (s : SetPeer) (r : Reply) : Prop :=
  s.OneLine ∧ c.Apart u s.publicKey s.allowedIPs ∧
    ∀ a, c.peers.get s.publicKey = some a →
      u.WellFormed s.allowedIPs ∧ (∀ p, p ∈ u.entries s.allowedIPs ↔ p ∈ u.entries a) ∧
        (0 ≤ s.persistentKeepalived ∧ s.persistentKeepalived ≤ 65535) ∧
        ∀ n, r = .breaks n → n ≤ 1 ∨ 3 + (prefixes s.allowedIPs).length ≤ n

def Fits (remoteKey : String) (c : Configurator κ π) : Call → Prop
  | .registerPeer k a r => c.Registers u k a r
  | .syncAllowedIPs a r => a = "" ∨ c.Registers u remoteKey a r
  | .setEndpoint k e n r =>
    r = .noProvisioner ∨ c.Moves u ⟨k, e, ProbeFactory.endpointAllowedIPs c.remotePeer, n, false⟩ r
  | .removePeer k r => r = .noProvisioner ∨ c.Apart u k ""
  | .receive _ => True

variable {u}

@[simp] theorem write_peers (c : Configurator κ π) (s : SetPeer) (r : Reply) :
    (c.write u s r).1.peers = c.peers := by
  cases r <;> rfl

variable {c : Configurator κ π}

theorem Apart.holds {s : SetPeer} (hline : s.OneLine) (h : c.Apart u s.publicKey s.allowedIPs)
    {k a : String} (hget : c.peers.get k = some a) (hne : k ≠ s.publicKey)
    (hk : u.Holds c.device k a) (r : Reply) (peers : GoMap String String) :
    u.Holds ({ c with peers := peers }.write u s r).1.device k a := by
  obtain ⟨hform, j, hj, hown⟩ := hk
  obtain ⟨hkeys, hdis⟩ := h k a hget hne
  refine ⟨hform, j, hj, fun p => ?_⟩
  rw [hj] at hkeys
  obtain ⟨hgain, hkeep⟩ := write_other (c := { c with peers := peers }) (p := p) hline hkeys r
  refine ⟨fun h => (hown p).1 (hgain h), fun h => ?_⟩
  exact hkeep (hdis p h) ((hown p).2 h)

theorem newline_notMem_empty : '\n' ∉ "".toList := by decide

theorem Refines.registerPeer {k a : String} {r : Reply} (h : c.Refines u) (hr : c.Registers u k a r)
    : (c.registerPeer u k a r).1.Refines u := by
  unfold Configurator.registerPeer
  split
  · exact h
  next hcac =>
  obtain hr | ⟨rfl, hkey, hform, hline, hapa⟩ := hr
  · exact absurd hr hcac
  have hone : SetPeer.OneLine ⟨k, "", a, 0, false⟩ := ⟨hline, newline_notMem_empty⟩
  intro k' a' hget
  rw [write_peers, GoMap.get_set] at hget
  split at hget
  · next hk =>
    cases hget
    subst hk
    exact write_self hone hkey hform ⟨le_refl 0, Int.natCast_nonneg 65535⟩ rfl trivial
  · next hk => exact Apart.holds hone hapa hget hk (h k' a' hget) _ _

theorem Refines.removePeer {k : String} {r : Reply} (h : c.Refines u)
    (hr : r = .noProvisioner ∨ c.Apart u k "") : (c.removePeer u k r).1.Refines u := by
  intro k' a' hget
  unfold Configurator.removePeer at hget ⊢
  rw [write_peers, GoMap.get_delete] at hget
  split at hget
  · cases hget
  next hk =>
  obtain rfl | hapa := hr
  · exact h k' a' hget
  · exact Apart.holds (s := ⟨k, "", "", 0, true⟩)
      ⟨newline_notMem_empty, newline_notMem_empty⟩ hapa hget hk (h k' a' hget) r _

theorem Refines.setEndpoint {k e : String} {n : Int} {r : Reply} (h : c.Refines u)
    (hr : r = .noProvisioner ∨ c.Moves u ⟨k, e, ProbeFactory.endpointAllowedIPs c.remotePeer, n,
      false⟩ r) :
    (c.setEndpoint u k e n r).1.Refines u := by
  intro k' a' hget
  unfold Configurator.setEndpoint at hget ⊢
  rw [write_peers] at hget
  obtain rfl | ⟨hline, hapa, hmov⟩ := hr
  · exact h k' a' hget
  by_cases hk : k' = k
  · subst hk
    obtain ⟨hform, hsame, hkee, hbre⟩ := hmov a' hget
    obtain ⟨hform', j, hj, hown⟩ := h k' a' hget
    have hkey : (u.parseKey k').isSome := isSome_iff_exists.2 ⟨j, hj⟩
    have hfull : SetPeer.Reaches
        ⟨k', e, ProbeFactory.endpointAllowedIPs c.remotePeer, n, false⟩ r →
        u.Holds (c.write u ⟨k', e, ProbeFactory.endpointAllowedIPs c.remotePeer, n, false⟩
          r).1.device k' a' := by
      intro hrea
      obtain ⟨-, i, hi, hwr⟩ := write_self (c := c) hline hkey hform hkee rfl hrea
      exact ⟨hform', i, hi, fun p => (hwr p).trans (hsame p)⟩
    cases r with
    | noProvisioner => exact h k' a' hget
    | serves => exact hfull trivial
    | breaks m =>
      obtain hm | hm := hbre m rfl
      · rw [write_early hline hkey hm]
        exact h k' a' hget
      · exact hfull hm
  · exact Apart.holds hline hapa hget hk (h k' a' hget) r c.peers

theorem Refines.call {remoteKey : String} {c : Configurator κ π} {l : Call} (h : c.Refines u)
    (hl : c.Fits u remoteKey l) : (c.call u remoteKey l).1.Refines u := by
  cases l with
  | registerPeer k a r => exact h.registerPeer hl
  | setEndpoint k e n r => exact h.setEndpoint hl
  | removePeer k r => exact h.removePeer hl
  | receive peer => exact h
  | syncAllowedIPs a r =>
    unfold Configurator.call syncAllowedIPs
    dsimp only
    split
    · exact h
    · next ha => exact h.registerPeer (hl.resolve_left ha)

variable (u) in
/-- **The cache refines the device** in every run of calls that fit, and the endpoints that are set
in such a run leave the registered AllowedIPs as they are. -/
theorem cache_refines_device (remoteKey : String) {c : Configurator κ π}
    (h : ((system u remoteKey).guard (Fits u remoteKey)).Reachable c) :
    c.Refines u ∧ ∀ k e n r a, c.Fits u remoteKey (.setEndpoint k e n r) →
      c.peers.get k = some a →
        (c.setEndpoint u k e n r).1.peers.get k = some a ∧
          u.Holds (c.setEndpoint u k e n r).1.device k a := by
  have href : c.Refines u := by
    refine h.invariant ?_ ?_
    · rintro s ⟨hemp, -⟩ k a hget
      rw [hemp] at hget
      cases hget
    · rintro s l t - hs ⟨hfits, rfl⟩
      exact hs.call hfits
  refine ⟨href, fun k e n r a hfits hget => ?_⟩
  have hget' : (c.setEndpoint u k e n r).1.peers.get k = some a := by
    unfold Configurator.setEndpoint
    rw [write_peers]
    exact hget
  exact ⟨hget', href.setEndpoint hfits k a hget'⟩

def twoPeers : Uapi String String where
  parseKey k := if k ∈ ["key-a", "key-b"] then some k else none
  parsePrefix p := if p ∈ ["10.0.0.2/32", "10.0.0.3/32", "0.0.0.0/0"] then some p else none
  parseEndpoint e := e = "203.0.113.7:51820"
  spanning _ := [.rejected]

def fresh : Configurator String String := ⟨.empty, ⟨fun _ => none⟩, none⟩

def described : Peer := ⟨"a", some "10.0.0.2", "", "key-a", "", "", "10.0.0.2/32"⟩

theorem fresh_init : (system twoPeers "key-a").init fresh := ⟨rfl, rfl⟩

theorem apart_fresh (k b : String) : fresh.Apart twoPeers k b := by
  intro k' a' hget
  cases hget

theorem described_peer_moves : ∃ c, ((system twoPeers "key-a").guard
    (Fits twoPeers "key-a")).Reachable c ∧ c.peers.get "key-a" = some "10.0.0.2/32" ∧
      c.remotePeer = some described ∧ c.Refines twoPeers ∧
      twoPeers.Holds (c.setEndpoint twoPeers "key-a" "203.0.113.7:51820" 25 .serves).1.device
        "key-a" "10.0.0.2/32" := by
  let registered := (fresh.registerPeer twoPeers "key-a" "10.0.0.2/32" .serves).1
  let received : Configurator String String := { registered with remotePeer := some described }
  have hreg : fresh.Fits twoPeers "key-a" (.registerPeer "key-a" "10.0.0.2/32" .serves) :=
    .inr ⟨rfl, by decide, by unfold Uapi.WellFormed; decide, by decide, apart_fresh _ _⟩
  have hrea : ((system twoPeers "key-a").guard (Fits twoPeers "key-a")).Reachable received :=
    .step (l := .receive described)
      (.step (l := .registerPeer "key-a" "10.0.0.2/32" .serves) (.init fresh_init)
        ⟨hreg, rfl⟩) ⟨trivial, rfl⟩
  have hps : ∀ k a, received.peers.get k = some a → k = "key-a" ∧ a = "10.0.0.2/32" := by
    intro k a hk
    have hset : received.peers.get k = if k = "key-a" then some "10.0.0.2/32" else none :=
      GoMap.get_set ..
    rw [hset] at hk
    split at hk
    · next h => exact ⟨h, (Option.some.inj hk).symm⟩
    · cases hk
  have hget : received.peers.get "key-a" = some "10.0.0.2/32" := by decide
  have hmov : received.Fits twoPeers "key-a"
      (.setEndpoint "key-a" "203.0.113.7:51820" 25 .serves) := by
    refine .inr ⟨by decide, fun k a hk hne => ?_, fun a ha => ?_⟩
    · exact absurd (hps k a hk).1 hne
    · obtain ⟨-, rfl⟩ := hps _ _ ha
      exact ⟨by unfold Uapi.WellFormed; decide, fun p => Iff.rfl, by decide, by simp⟩
  obtain ⟨href, hep⟩ := cache_refines_device twoPeers "key-a" hrea
  exact ⟨received, hrea, hget, rfl, href, (hep _ _ _ _ _ hmov hget).2⟩

theorem registration_lost :
    (∃ c, (fresh.registerPeer twoPeers "key-a" "10.0.0.2/32" (.breaks 0)) = (c, false) ∧
      (system twoPeers "key-a").Reachable c ∧ ¬ c.Refines twoPeers ∧
      c.registerPeer twoPeers "key-a" "10.0.0.2/32" .serves = (c, true)) ∧
    ∃ c, (system twoPeers "key-a").Reachable c ∧
      twoPeers.Holds c.device "key-a" "10.0.0.2/32,0.0.0.0/0" ∧
      c.setEndpoint twoPeers "key-a" "203.0.113.7:51820" 25 .serves =
        ((c.setEndpoint twoPeers "key-a" "203.0.113.7:51820" 25 .serves).1, true) ∧
      ¬ (c.setEndpoint twoPeers "key-a" "203.0.113.7:51820" 25 .serves).1.Refines twoPeers := by
  have hlost : ∀ (c : Configurator String String) (a p : String), c.peers.get "key-a" = some a →
      p ∈ twoPeers.entries a → c.device.owner p = none → ¬ c.Refines twoPeers := by
    intro c a p hget hp hnone h
    obtain ⟨-, k, -, hown⟩ := h "key-a" a hget
    rw [← hown p, hnone] at hp
    cases hp
  constructor
  · refine ⟨_, rfl, .step (l := .registerPeer "key-a" "10.0.0.2/32" (.breaks 0))
      (.init fresh_init) rfl, hlost _ "10.0.0.2/32" "10.0.0.2/32" ?_ ?_ ?_, ?_⟩
    · decide
    · decide
    · rfl
    · rfl
  let received := { fresh with remotePeer := some described }
  have hho : twoPeers.Holds (received.registerPeer twoPeers "key-a" "10.0.0.2/32,0.0.0.0/0"
      .serves).1.device "key-a" "10.0.0.2/32,0.0.0.0/0" :=
    write_self (u := twoPeers) (s := ⟨"key-a", "", "10.0.0.2/32,0.0.0.0/0", 0, false⟩)
      (r := .serves) (by decide) (by decide) (by unfold Uapi.WellFormed; decide) (by decide) rfl
      trivial
  refine ⟨_, .step (l := .syncAllowedIPs "10.0.0.2/32,0.0.0.0/0" .serves)
    (.step (l := .receive described) (.init fresh_init) rfl) rfl, hho, ?_,
    hlost _ "10.0.0.2/32,0.0.0.0/0" "0.0.0.0/0" ?_ ?_ ?_⟩
  · rfl
  · decide
  · decide
  · rfl

end Configurator

end LatticeMesh.Transport
