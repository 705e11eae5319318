import LatticeMesh.Controller.Membership

/-! # Who owns an address -/

namespace LatticeMesh.Controller.Membership

open Option GoMap Ipam

open Ipam (CIDR Endpoint Endpoints hexName)

variable {σ η : Type} {lib : Library σ η} {peerIDOf : String → Except String String}

def Inside : CIDR → ℕ → Prop
  | .v4 n, a => n.Contains a
  | .v6 _, _ | .invalid _, _ => False

instance : ∀ c a, Decidable (Inside c a)
  | .v4 n, a => inferInstanceAs (Decidable (n.Contains a))
  | .v6 _, _ => isFalse id
  | .invalid _, _ => isFalse id

variable {a : ℕ}

theorem Inside.lt {cidr : CIDR} (h : Inside cidr a) : a < 2 ^ 32 := by
  cases cidr with
  | v4 n => exact Nat.lt_of_lt_of_le (n.contains_iff.1 h).2 n.base_add_size_le
  | v6 ones => exact h.elim
  | invalid err => exact h.elim

def Usable : CIDR → Prop
  | .v4 n => n.ones ≤ 31 ∧ ¬ n.AtEnd
  | .v6 _ | .invalid _ => False

instance : DecidablePred Usable
  | .v4 n => inferInstanceAs (Decidable (n.ones ≤ 31 ∧ ¬ n.AtEnd))
  | .v6 _ | .invalid _ => isFalse id

def reuses (r : Ipam.Request) (o : Answer) : Ipam.Alloc → Option ℕ
  | .list =>
    if o.err.isSome then none
    else (o.listed.find? fun a => a.peerRef = r.peer).map Endpoint.address
  | .scan _ _ | .returned _ => none

def Shared.Shows (s : Shared) (name : String) (a : ℕ) : Prop :=
  ∃ p, s.peers.get name = some p ∧ p.status.allocatedAddress = some a

def Timely (o : Answer) (s : Shared) (name : String) : Point → Prop
  | .allocate _ network cidr pc =>
    (∀ a ∈ Ipam.claims (request network cidr name) o.ipam s.endpoints pc,
      Usable cidr ∧ ∀ e ∈ s.peers.toList, e.1 ≠ name → e.2.status.allocatedAddress ≠ some a) ∧
    ∀ a ∈ reuses (request network cidr name) o pc,
      Inside cidr a ∧ (s.endpoints.get (hexName a)).map Endpoint.peerRef = some name
  | .release _ a => (s.peers.get name).map (fun p => p.status.allocatedAddress) = some (some a)
  | _ => True

instance (o : Answer) (s : Shared) (name : String) : (p : Point) → Decidable (Timely o s name p)
  | .allocate _ _ _ _ => inferInstanceAs (Decidable (_ ∧ _))
  | .release _ _ => inferInstanceAs (Decidable (_ = _))
  | .get | .addFinalizer | .finalize | .patchKeys _ _ | .setPhase _ _ _ | .getNetwork _ _
  | .ensurePeerSpec _ _ _ | .patchLabels _ _ _ | .join _ _ _ | .clearLabels _ | .leave _
  | .lastReconcile => isTrue trivial

def Status.Paired (st : Status) : Prop := st.activeNetwork = none ↔ st.allocatedAddress = none

def Belongs (endpoints : Endpoints) (name : String) (a : ℕ) : Prop :=
  ∀ e, endpoints.get (hexName a) = some e → e.peerRef = name

def Serves (networks : GoMap String (Option CIDR)) (network : String) (a : ℕ) : Prop :=
  ∃ cidr, networks.get network = some (some cidr) ∧ Inside cidr a

structure Owned (s : Shared) : Prop where
  paired : ∀ name p, s.peers.get name = some p → p.status.Paired
  past : ∀ e ∈ s.past, e.2.status.Paired
  serves : ∀ name p a, s.peers.get name = some p → p.status.allocatedAddress = some a →
    ∃ network, p.status.activeNetwork = some network ∧ Serves s.networks network a
  belongs : ∀ name a, s.Shows name a → Belongs s.endpoints name a
  distinct : ∀ name name' a, s.Shows name a → s.Shows name' a → name = name'

def Peer.Joining (peer : Peer) : Prop :=
  peer.status.activeNetwork = none ∧ peer.status.allocatedAddress = none

def Peer.Leaving (peer : Peer) : Prop :=
  peer.status.activeNetwork ≠ none ∧ peer.status.allocatedAddress ≠ none

def Point.Says (s : Shared) (name : String) : Point → Prop
  | .getNetwork peer _ => peer.Joining
  | .ensurePeerSpec peer network cidr | .patchLabels peer network cidr =>
    peer.Joining ∧ s.networks.get network = some (some cidr)
  | .allocate peer network cidr pc =>
    peer.Joining ∧ s.networks.get network = some (some cidr) ∧
      (Usable cidr → ∀ net, (⟨request network cidr name, pc⟩ : Ipam.Point).Started net) ∧
      ∀ result, pc ≠ .returned result
  | .join peer network a =>
    peer.Joining ∧ Serves s.networks network a ∧
      ((s.peers.get name).isSome → ∃ e, s.endpoints.get (hexName a) = some e ∧ e.peerRef = name)
  | .release peer _ | .clearLabels peer | .leave peer => peer.Leaving
  | _ => True

structure Weaker (s t : Shared) : Prop where
  peers : ∀ name q, t.peers.get name = some q → ∃ p, s.peers.get name = some p ∧
    ((q.status.activeNetwork = p.status.activeNetwork ∧
      q.status.allocatedAddress = p.status.allocatedAddress) ∨ q.Joining)
  past : ∀ e ∈ t.past, e ∈ s.past ∨ s.peers.get e.1 = some e.2
  endpoints : ∀ name e, t.endpoints.get name = some e → s.endpoints.get name = some e
  networks : ∀ network cidr, s.networks.get network = some (some cidr) →
    t.networks.get network = some (some cidr)

variable {name : String} {s : Shared} {f : Peer → Peer} {o : Answer}

variable {t : Shared}

theorem Weaker.shows (h : Weaker s t) (ht : t.Shows name a) :
    s.Shows name a := by
  obtain ⟨q, hq, ha⟩ := ht
  obtain ⟨p, hp, ⟨-, haddr⟩ | hnone⟩ := h.peers name q hq
  · exact ⟨p, hp, haddr ▸ ha⟩
  · rw [hnone.2] at ha
    cases ha

theorem Owned.weaker (hs : Owned s) (h : Weaker s t) : Owned t where
  paired name q hq := by
    obtain ⟨p, hp, ⟨hact, haddr⟩ | hnone⟩ := h.peers name q hq
    · unfold Status.Paired
      rw [hact, haddr]
      exact hs.paired name p hp
    · exact iff_of_true hnone.1 hnone.2
  past e he := (h.past e he).elim (hs.past e) (hs.paired e.1 e.2)
  serves name q a hq ha := by
    obtain ⟨p, hp, ⟨hact, haddr⟩ | hnone⟩ := h.peers name q hq
    · obtain ⟨network, hnet, cidr, hcidr, hins⟩ := hs.serves name p a hp (haddr ▸ ha)
      exact ⟨network, hact.trans hnet, cidr, h.networks network cidr hcidr, hins⟩
    · rw [hnone.2] at ha
      cases ha
  belongs name a ht e he := hs.belongs name a (h.shows ht) e (h.endpoints _ e he)
  distinct name name' a ht ht' := hs.distinct name name' a (h.shows ht) (h.shows ht')

theorem weaker_update (hf : ∀ p, (((f p).status.activeNetwork = p.status.activeNetwork ∧ (f
      p).status.allocatedAddress = p.status.allocatedAddress) ∨ (f p).Joining)) :
    Weaker s (s.update name f) where
  peers other q hq := by
    rw [get_update] at hq
    split at hq
    · next heq =>
      obtain ⟨p, hp, rfl⟩ := map_eq_some_iff.1 hq
      exact ⟨p, heq ▸ hp, hf p⟩
    · exact ⟨q, hq, .inl ⟨rfl, rfl⟩⟩
  past _ := mem_past_update
  endpoints _ _ he := (congrArg (GoMap.get · _) update_endpoints).symm.trans he
  networks _ _ hcidr := (congrArg (GoMap.get · _) update_networks).trans hcidr

theorem weaker_remove (s : Shared) (name : String) : Weaker s (s.remove name) where
  peers other q hq := by
    rw [get_remove] at hq
    split at hq
    · cases hq
    · exact ⟨q, hq, .inl ⟨rfl, rfl⟩⟩
  past _ := mem_past_remove
  endpoints _ _ he := (congrArg (GoMap.get · _) remove_endpoints).symm.trans he
  networks _ _ hcidr := (congrArg (GoMap.get · _) remove_networks).trans hcidr

theorem Weaker.refl (s : Shared) : Weaker s s :=
  ⟨fun _ q hq => ⟨q, hq, .inl ⟨rfl, rfl⟩⟩, fun _ he => .inl he, fun _ _ he => he, fun _ _ hn => hn⟩

theorem weaker_delete (s : Shared) (endpoint : String) :
    Weaker s { s with endpoints := s.endpoints.delete endpoint } :=
  { Weaker.refl s with endpoints := fun _ _ he => get_of_get_delete he }

theorem owned_claim (hs : Owned s) (ha : a < 2 ^ 32)
    (hsho : ∀ other, other ≠ name → ¬ s.Shows other a) :
    Owned { s with endpoints := s.endpoints.set (hexName a) ⟨hexName a, a, name⟩ } := by
  refine { hs with belongs := fun other b hb e he => ?_ }
  have hb : s.Shows other b := hb
  rw [get_set] at he
  split at he
  · next heq =>
    cases he
    obtain ⟨p, hp, hpb⟩ := hb
    obtain ⟨network, -, cidr, -, hins⟩ := hs.serves other p b hp hpb
    cases hexName_inj hins.lt ha heq
    by_contra hne
    exact hsho other (Ne.symm hne) ⟨p, hp, hpb⟩
  · exact hs.belongs other b hb e he

theorem owned_join (hs : Owned s) {network : String}
    (hf : ∀ p, (f p).status.activeNetwork = some network ∧ (f p).status.allocatedAddress = some a)
    (hser : Serves s.networks network a) (hep : (s.peers.get name).isSome → ∃ e,
      s.endpoints.get (hexName a) = some e ∧ e.peerRef = name) :
    Owned (s.update name f) := by
  have hcas : ∀ other q, (s.update name f).peers.get other = some q →
      (other = name ∧ (s.peers.get name).isSome ∧ ∃ p, q = f p) ∨ s.peers.get other = some q := by
    intro other q hq
    rw [get_update] at hq
    split at hq
    · next heq =>
      obtain ⟨p, hp, rfl⟩ := map_eq_some_iff.1 hq
      exact .inl ⟨heq, hp ▸ rfl, p, rfl⟩
    · exact .inr hq
  have hsho : ∀ other b, (s.update name f).Shows other b →
      (other = name ∧ b = a ∧ (s.peers.get name).isSome) ∨ s.Shows other b := by
    rintro other b ⟨q, hq, hb⟩
    obtain ⟨rfl, hsome, p, rfl⟩ | hq := hcas other q hq
    · rw [(hf p).2] at hb
      exact .inl ⟨rfl, (Option.some.inj hb).symm, hsome⟩
    · exact .inr ⟨q, hq, hb⟩
  have honly : ∀ other, (s.peers.get name).isSome → s.Shows other a → other = name := by
    intro other hsome hoth
    obtain ⟨e, he, hname⟩ := hep hsome
    exact (hs.belongs other a hoth e he).symm.trans hname
  constructor
  · intro other q hq
    obtain ⟨-, -, p, rfl⟩ | hq := hcas other q hq
    · unfold Status.Paired
      rw [(hf p).1, (hf p).2]
      exact iff_of_false nofun nofun
    · exact hs.paired other q hq
  · exact fun e he => (mem_past_update he).elim (hs.past e) (hs.paired e.1 e.2)
  · intro other q b hq hb
    rw [update_networks]
    obtain ⟨-, -, p, rfl⟩ | hq := hcas other q hq
    · rw [(hf p).2] at hb
      cases hb
      exact ⟨network, (hf p).1, hser⟩
    · exact hs.serves other q b hq hb
  · intro other b hb e he
    rw [update_endpoints] at he
    obtain ⟨rfl, rfl, hsome⟩ | hb := hsho other b hb
    · obtain ⟨e', he', hname⟩ := hep hsome
      rw [he] at he'
      cases he'
      exact hname
    · exact hs.belongs other b hb e he
  intro other other' b hb hb'
  obtain ⟨rfl, rfl, hsome⟩ | hold := hsho other b hb
  · obtain ⟨rfl, -, -⟩ | hb' := hsho other' b hb'
    · rfl
    · exact (honly other' hsome hb').symm
  obtain ⟨rfl, rfl, hsome⟩ | hold' := hsho other' b hb'
  · exact honly other hsome hold
  · exact hs.distinct other other' b hold hold'

structure Keeps (name : String) (s t : Shared) : Prop where
  networks : ∀ network cidr, s.networks.get network = some (some cidr) →
    t.networks.get network = some (some cidr)
  peer : (t.peers.get name).isSome → (s.peers.get name).isSome
  endpoints : ∀ a e, (t.peers.get name).isSome → s.endpoints.get (hexName a) = some e →
    e.peerRef = name → t.endpoints.get (hexName a) = some e

variable {p : Point}

theorem says_keeps (h : Keeps name s t) (hp : p.Says s name) :
    p.Says t name := by
  cases p with
  | getNetwork peer network => exact hp
  | ensurePeerSpec peer network cidr | patchLabels peer network cidr =>
    exact ⟨hp.1, h.networks _ _ hp.2⟩
  | allocate peer network cidr pc => exact ⟨hp.1, h.networks _ _ hp.2.1, hp.2.2⟩
  | join peer network a =>
    obtain ⟨hjoin, ⟨cidr, hcidr, hins⟩, hep⟩ := hp
    refine ⟨hjoin, ⟨cidr, h.networks _ _ hcidr, hins⟩, fun hsome => ?_⟩
    obtain ⟨e, he, hname⟩ := hep (h.peer hsome)
    exact ⟨e, h.endpoints a e hsome he hname, hname⟩
  | release peer a => exact hp
  | clearLabels peer => exact hp
  | leave peer => exact hp
  | _ => trivial

theorem Keeps.refl (name : String) (s : Shared) : Keeps name s s :=
  ⟨fun _ _ h => h, id, fun _ _ _ h _ => h⟩

theorem keeps_update (other : String) :
    Keeps other s (s.update name f) where
  networks _ _ h := (congrArg (GoMap.get · _) update_networks).trans h
  peer h := by
    rw [get_update] at h
    split at h
    · next heq =>
      rw [isSome_map] at h
      exact heq ▸ h
    · exact h
  endpoints _ _ _ h _ := (congrArg (GoMap.get · _) update_endpoints).trans h

theorem keeps_remove (other : String) :
    Keeps other s (s.remove name) where
  networks _ _ h := (congrArg (GoMap.get · _) remove_networks).trans h
  peer h := by
    rw [get_remove] at h
    split at h
    · cases h
    · exact h
  endpoints _ _ _ h _ := (congrArg (GoMap.get · _) remove_endpoints).trans h

variable {endpoint : String}

theorem keeps_claim {e : Endpoint} (hfree : s.endpoints.get endpoint = none) (other : String) :
    Keeps other s { s with endpoints := s.endpoints.set endpoint e } := by
  refine { Keeps.refl other s with endpoints := fun a e' _ h _ => ?_ }
  rw [get_set, if_neg]
  · exact h
  rintro rfl
  rw [hfree] at h
  cases h

theorem keeps_delete {other : String}
    (h : ∀ e, s.endpoints.get endpoint = some e → (s.peers.get other).isSome → e.peerRef ≠ other) :
    Keeps other s { s with endpoints := s.endpoints.delete endpoint } := by
  refine { Keeps.refl other s with endpoints := fun a e hsome he hname => ?_ }
  rw [GoMap.get_delete, if_neg]
  · exact he
  · rintro rfl
    exact h e he hsome hname

variable {peer : Peer}

theorem says_afterAllocate {network : String} {cidr : CIDR} {pc : Ipam.Alloc} (hjoin : peer.Joining)
    (hcidr : s.networks.get network = some (some cidr))
    (hstd : Usable cidr → ∀ net, (⟨request network cidr name, pc⟩ : Ipam.Point).Started net)
    (hok : ∀ a, pc = .returned (.ok a) → Inside cidr a ∧ ((s.peers.get name).isSome → ∃ e,
      s.endpoints.get (hexName a) = some e ∧ e.peerRef = name)) :
    (afterAllocate peer network cidr pc).Says s name := by
  unfold afterAllocate
  split
  · next a =>
    obtain ⟨hins, hep⟩ := hok a rfl
    exact ⟨hjoin, ⟨cidr, hcidr, hins⟩, hep⟩
  · trivial
  next hret herr =>
  refine ⟨hjoin, hcidr, hstd, fun result => ?_⟩
  rintro rfl
  cases result with
  | ok a => exact hret a rfl
  | error err => exact herr err rfl

theorem says_allocateIP {network : String} {cidr : CIDR} (hjoin : peer.Joining)
    (hcidr : s.networks.get network = some (some cidr)) :
    (afterAllocate peer network cidr
      (Ipam.allocateIP (request network cidr name))).Says s name := by
  have hcas : Ipam.allocateIP (request network cidr name) = .list ∨
      ∃ err, Ipam.allocateIP (request network cidr name) = .returned (.error err) := by
    unfold Ipam.allocateIP
    split
    · exact .inr ⟨_, rfl⟩
    · exact .inl rfl
    · exact .inl rfl
  obtain hpc | ⟨err, hpc⟩ := hcas
  all_goals
    rw [hpc]
    exact says_afterAllocate hjoin hcidr (fun _ _ _ _ h => nomatch h) fun _ h => nomatch h

theorem says_reconcile (hpai : peer.status.Paired) {q : Point}
    (hq : reconcile peerIDOf o peer = some q) :
    q.Says s name := by
  cases reconcile_eq_some_iff.1 hq with
  | leave h hph hact hne hp =>
    have hlea : peer.Leaving := ⟨hact, fun haddr => hact (hpai.2 haddr)⟩
    unfold leaveNetwork at hp
    split at hp <;> cases hp <;> exact hlea
  | join h hph hnet hact => exact ⟨hact, hpai.1 hact⟩
  | _ => trivial

section Allocation

variable {o : Answer} {endpoints : Endpoints} {name network : String} {cidr : CIDR}
  {pc : Ipam.Alloc}

theorem reuses_or_claims {r : Ipam.Request} (hpc : ∀ result, pc ≠ .returned result)
    (h : Ipam.allocNext r o.ipam endpoints pc = .returned (.ok a)) :
    reuses r o pc = some a ∨ Ipam.claims r o.ipam endpoints pc = some a := by
  cases pc with
  | list =>
    unfold Ipam.allocNext at h
    dsimp only at h
    split at h
    · cases h
    next herr =>
    split at h
    · next e he =>
      cases h
      refine .inl ?_
      have herr : o.err = none := herr
      have he : o.listed.find? (fun a => a.peerRef = r.peer) = some e := he
      change (if o.err.isSome then none else _) = _
      rw [herr, he]
      rfl
    · cases h
  | scan used i =>
    unfold Ipam.allocNext at h
    dsimp only at h
    split at h
    · next hi =>
      split at h
      · cases h
      next hused =>
      split at h
      · cases h
      next herr =>
      split at h
      · cases h
      next hfree =>
      cases h
      exact .inr (if_pos ⟨hi, hused, herr, not_isSome_iff_eq_none.1 hfree⟩)
    · cases h
  | returned result => exact absurd rfl (hpc result)

theorem started_allocNext (hcidr : Usable cidr)
    (h : ∀ net, (⟨request network cidr name, pc⟩ : Ipam.Point).Started net) (net : Ipam.IPv4Net) :
    (⟨request network cidr name, Ipam.allocNext (request network cidr name) o.ipam endpoints pc⟩ :
      Ipam.Point).Started net := by
  intro used i hpc hnet
  have hnet : cidr = .v4 net := hnet
  cases hnet
  exact started_next hcidr.1 hcidr.2 (o := o.ipam) (s := { endpoints := endpoints }) (h net)
    used i hpc rfl

theorem inside_of_claims (hcidr : Usable cidr)
    (hstd : ∀ net, (⟨request network cidr name, pc⟩ : Ipam.Point).Started net)
    (h : Ipam.claims (request network cidr name) o.ipam endpoints pc = some a) :
    Inside cidr a := by
  obtain ⟨used, rfl, hle, -, -⟩ := of_claims h
  cases cidr with
  | v4 net =>
    have hst := hstd net used a rfl rfl
    have hsize := Ipam.IPv4Net.two_le_size hcidr.1
    have hle : a ≤ (CIDR.v4 net).endInt := hle
    rw [Ipam.IPv4Net.endInt_v4 hcidr.1] at hle
    exact net.contains_iff.2 (by omega)
  | v6 ones => exact hcidr.elim
  | invalid err => exact hcidr.elim

end Allocation

theorem effect_allocate (o : Answer) (s : Shared) (name network : String) (peer : Peer)
    (cidr : CIDR) (pc : Ipam.Alloc) :
    effect lib o s name (.allocate peer network cidr pc) =
      match Ipam.claims (request network cidr name) o.ipam s.endpoints pc with
      | some a => { s with endpoints := s.endpoints.set (hexName a) ⟨hexName a, a, name⟩ }
      | none => s := by
  unfold effect
  split
  · next href =>
    split
    · next a hclm =>
      obtain ⟨-, -, -, -, herr⟩ := of_claims hclm
      have herr : o.err = none := herr
      obtain hsome | ⟨-, hpat⟩ := href
      · rw [herr] at hsome
        cases hsome
      · exact hpat.elim
    · rfl
  · rfl

structure Preserves (name : String) (s t : Shared) : Prop where
  owned : Owned t
  keeps : ∀ other, other ≠ name → Keeps other s t

theorem preserves_refl (hs : Owned s) (name : String) : Preserves name s s :=
  ⟨hs, fun other _ => .refl other s⟩

theorem preserves_update (hs : Owned s) (hf : ∀ p, (((f p).status.activeNetwork =
      p.status.activeNetwork ∧ (f p).status.allocatedAddress = p.status.allocatedAddress) ∨ (f
      p).Joining)) :
    Preserves name s (s.update name f) :=
  ⟨hs.weaker (weaker_update hf), fun other _ => keeps_update other⟩

theorem preserves_call (hs : Owned s) (hp : p.Says s name) (ht : Timely o s name p) :
    Preserves name s (effect lib o s name p) := by
  unfold effect
  split
  · exact preserves_refl hs name
  cases p with
  | allocate peer network cidr pc =>
    dsimp only [write]
    split
    · next a hclm =>
      obtain ⟨hcidr, hoth⟩ := ht.1 a hclm
      obtain ⟨-, -, -, hfree, -⟩ := of_claims hclm
      have hins := inside_of_claims hcidr (hp.2.2.1 hcidr) hclm
      refine ⟨owned_claim hs hins.lt ?_, fun other _ => keeps_claim hfree other⟩
      rintro other hothe ⟨q, hq, haddr⟩
      exact hoth (other, q) (GoMap.mem_toList.2 hq) hothe haddr
    · exact preserves_refl hs name
  | release peer a =>
    refine ⟨hs.weaker (weaker_delete s _), fun other hothe => keeps_delete fun e he _ => ?_⟩
    obtain ⟨q, hq, haddr⟩ := map_eq_some_iff.1 ht
    rw [hs.belongs name a ⟨q, hq, haddr⟩ e he]
    exact Ne.symm hothe
  | join peer network a =>
    obtain ⟨⟨hact, haddr⟩, hser, hep⟩ := hp
    refine ⟨owned_join hs (fun p => ⟨?_, ?_⟩) hser hep, fun other _ => keeps_update other⟩
    · exact merge_ne (by rw [hact]; exact nofun) _
    · exact merge_ne (by rw [haddr]; exact nofun) _
  | leave peer =>
    exact preserves_update hs fun p =>
      .inr ⟨merge_ne (Ne.symm hp.1) _, merge_ne (Ne.symm hp.2) _⟩
  | setPhase peer phase last =>
    exact preserves_update hs fun p => .inl ⟨merge_same _ _, merge_same _ _⟩
  | finalize => exact ⟨hs.weaker (weaker_remove s name), fun other _ => keeps_remove other⟩
  | clearLabels peer =>
    dsimp only [write]
    split
    · exact preserves_refl hs name
    · exact preserves_update hs fun p => .inl ⟨rfl, rfl⟩
  | addFinalizer | patchKeys peer new | patchLabels peer network cidr =>
    exact preserves_update hs fun p => .inl ⟨rfl, rfl⟩
  | _ => exact preserves_refl hs name

theorem read_paired (hs : Owned s) (h : s.read o name = some peer) :
    peer.status.Paired := by
  unfold Shared.read at h
  split at h
  · split at h
    · next hpast =>
      cases h
      exact hs.past _ hpast
    · exact hs.paired name peer h
  · exact hs.paired name peer h

theorem says_next {q : Point} (hs : Owned s) (hp : p.Says s name) (ht : Timely o s name p)
    (hq : next lib peerIDOf o s name p = some q) :
    q.Says (effect lib o s name p) name := by
  cases p with
  | get =>
    unfold next at hq
    dsimp only at hq
    split at hq
    · cases hq
    · obtain ⟨peer, hpeer, hq⟩ := bind_eq_some_iff.1 hq
      exact says_reconcile (read_paired hs hpeer) hq
  | addFinalizer => cases hq
  | finalize => cases hq
  | patchKeys peer new =>
    unfold next at hq
    dsimp only at hq
    split at hq
    · cases hq
    · split at hq <;> cases hq
      trivial
  | setPhase peer phase last | join peer network a | leave peer =>
    unfold next at hq
    dsimp only at hq
    split at hq <;> cases hq
    trivial
  | getNetwork peer network =>
    have heff : effect lib o s name (.getNetwork peer network) = s := ite_self s
    rw [heff]
    unfold next at hq
    dsimp only at hq
    split at hq
    · cases hq
      trivial
    · cases hq
      trivial
    next cidr hcidr =>
    cases hq
    split at hcidr
    · cases hcidr
    · exact ⟨hp, hcidr⟩
  | ensurePeerSpec peer network cidr =>
    have heff : effect lib o s name (.ensurePeerSpec peer network cidr) = s := ite_self s
    rw [heff]
    unfold next at hq
    dsimp only at hq
    split at hq
    · cases hq
      trivial
    split at hq
    · cases hq
      exact says_allocateIP hp.1 hp.2
    · cases hq
      exact hp
  | patchLabels peer network cidr =>
    unfold next at hq
    dsimp only at hq
    split at hq
    · cases hq
      trivial
    split at hq
    · next hcon =>
      cases hq
      have heff : effect lib o s name (.patchLabels peer network cidr) = s :=
        if_pos (.inr ⟨hcon, trivial⟩)
      rw [heff]
      exact says_allocateIP hp.1 hp.2
    · cases hq
  | allocate peer network cidr pc =>
    cases hq
    obtain ⟨hjoin, hcidr, hstd, hpc⟩ := hp
    refine says_afterAllocate hjoin ?_ (fun hus net =>
      started_allocNext hus (hstd hus) net) fun a ha => ?_
    · rw [effect_allocate]
      split <;> exact hcidr
    obtain hreu | hclm := reuses_or_claims hpc ha
    · obtain ⟨hins, hep⟩ := ht.2 a hreu
      obtain ⟨e, he, hname⟩ := map_eq_some_iff.1 hep
      refine ⟨hins, fun _ => ⟨e, ?_, hname⟩⟩
      rw [effect_allocate]
      split
      · next b hclm =>
        obtain ⟨used, rfl, -⟩ := of_claims hclm
        cases hreu
      · exact he
    obtain ⟨hus, -⟩ := ht.1 a hclm
    refine ⟨inside_of_claims hus (hstd hus) hclm, fun _ =>
      ⟨⟨hexName a, a, name⟩, ?_, rfl⟩⟩
    rw [effect_allocate, hclm]
    dsimp only
    rw [get_set, if_pos rfl]
  | release peer a =>
    unfold next at hq
    dsimp only at hq
    split at hq <;> cases hq
    exact hp
  | clearLabels peer =>
    unfold next at hq
    dsimp only at hq
    split at hq
    · cases hq
      exact hp
    split at hq <;> cases hq
    · trivial
    · change Peer.Leaving (if o.conflict then peer else peer.cleared _)
      split <;> exact hp
  | lastReconcile => cases hq

theorem env_owned {e : Event} (hs : Owned s) (he : Env s e t) :
    Owned t ∧ ∀ name, Keeps name s t := by
  have hass : ∀ network cidr, s.networks.get network = some (some cidr) →
      t.networks.get network = some (some cidr) := fun _ _ => env_assigned he
  cases he with
  | setNetwork name network =>
    exact ⟨hs.weaker (weaker_update fun p => .inl ⟨rfl, rfl⟩), fun other => keeps_update other⟩
  | createNetwork network hnew | assignCIDR network cidr' hnew =>
    exact ⟨hs.weaker { Weaker.refl s with networks := hass },
      fun other => { Keeps.refl other s with networks := hass }⟩
  | deletePeer name p hget =>
    split
    · exact ⟨hs.weaker (weaker_update fun p => .inl ⟨rfl, rfl⟩), fun other => keeps_update other⟩
    · exact ⟨hs.weaker (weaker_remove s name), fun other => keeps_remove other⟩
  | collect endpoint e' he' hpeer =>
    refine ⟨hs.weaker (weaker_delete s endpoint), fun other => keeps_delete fun e he hsome => ?_⟩
    rw [he'] at he
    cases he
    rintro rfl
    rw [hpeer] at hsome
    cases hsome

theorem owned_fresh (h : Fresh s) : Owned s where
  paired name p hp := by rw [h.peers name p hp]; exact iff_of_true rfl rfl
  past e he := by rw [h.past] at he; cases he
  serves name p a hp ha := by rw [h.peers name p hp] at ha; cases ha
  belongs name a hsho := by
    obtain ⟨p, hp, ha⟩ := hsho
    rw [h.peers name p hp] at ha
    cases ha
  distinct name name' a hsho := by
    obtain ⟨p, hp, ha⟩ := hsho
    rw [h.peers name p hp] at ha
    cases ha

def timely (lib : Library σ η) (peerIDOf : String → Except String String) :
    LTS (Site String Shared Point) (Action String Answer Event) :=
  (workers lib peerIDOf).system.guard (Workers.callsIf fun o s name p => Timely o s name p)

theorem holds_timely {s : Site String Shared Point} (h : (timely lib peerIDOf).Reachable s) :
    Workers.Holds Owned (fun s name p => p.Says s name) s := by
  refine Workers.holds (M := workers lib peerIDOf) ?_ ?_ ?_ ?_ h
  · exact fun s => owned_fresh
  · exact fun s name _ => trivial
  · intro s name o p hs hp hG
    have hpre : Preserves name s.shared (effect lib o s.shared name p) :=
      preserves_call hs.1 (hs.2 name p hp) (hG p hp)
    exact ⟨hpre.owned, fun q => says_next hs.1 (hs.2 name p hp) (hG p hp),
      fun other q hoth hq => says_keeps (hpre.keeps other hoth) (hs.2 other q hq)⟩
  intro s e t hs he _
  obtain ⟨hown, hkee⟩ := env_owned hs.1 he
  exact ⟨hown, fun name p hp => says_keeps (hkee name) (hs.2 name p hp)⟩

structure AddressesOwned (lib : Library σ η) (s : Site String Shared Point) : Prop where
  distinct : ∀ name name' a, s.shared.Shows name a → s.shared.Shows name' a → name = name'
  inside : ∀ name p a, s.shared.peers.get name = some p → p.status.allocatedAddress = some a →
    ∃ network, p.status.activeNetwork = some network ∧ Serves s.shared.networks network a
  deletes : ∀ name p o endpoint e, s.runs name = some p → Timely o s.shared name p →
    s.shared.endpoints.get endpoint = some e →
    (effect lib o s.shared name p).endpoints.get endpoint = none → e.peerRef = name

theorem release_of_deleted {e : Endpoint} (he : s.endpoints.get endpoint = some e)
    (hdel : (effect lib o s name p).endpoints.get endpoint = none) :
    ∃ peer a, p = .release peer a ∧ endpoint = hexName a := by
  have hwro := effect_wrote lib o s name p
  generalize effect lib o s name p = t at hdel hwro
  cases hwro with
  | same p =>
    rw [he] at hdel
    cases hdel
  | update p f =>
    rw [update_endpoints, he] at hdel
    cases hdel
  | remove =>
    rw [remove_endpoints, he] at hdel
    cases hdel
  | claim peer network cidr pc a hfree =>
    dsimp only at hdel
    rw [get_set, he] at hdel
    split at hdel <;> cases hdel
  | release peer a =>
    refine ⟨peer, a, rfl, ?_⟩
    dsimp only at hdel
    rw [GoMap.get_delete, he] at hdel
    split at hdel
    · next heq => exact heq
    · cases hdel

/-- **Addresses have one owner** in every run whose calls are all timely. -/
theorem addresses_owned {s : Site String Shared Point} (h : (timely lib peerIDOf).Reachable s) :
    AddressesOwned lib s := by
  have hs := (holds_timely h).1
  refine ⟨hs.distinct, hs.serves, fun name p o endpoint e _ ht he hdel => ?_⟩
  obtain ⟨peer, a, rfl, rfl⟩ := release_of_deleted he hdel
  obtain ⟨q, hq, ha⟩ := map_eq_some_iff.1 ht
  exact hs.belongs name a ⟨q, hq, ha⟩ e he

def showing (s : Shared) (name : String) : Option ℕ :=
  (s.peers.get name).bind fun p => p.status.allocatedAddress

theorem shows_of_showing (h : showing s name = some a) :
    s.Shows name a := by
  obtain ⟨p, hp, ha⟩ := bind_eq_some_iff.1 h
  exact ⟨p, hp, ha⟩

theorem both_joined : ∃ s, (timely .plain (fun _ => .error "")).Reachable s ∧
    showing s.shared "p" = some 0x0a000002 ∧ showing s.shared "q" = some 0x0a000003 ∧
    AddressesOwned .plain s := by
  obtain ⟨s, hs, hp, hq⟩ := Workers.exists_exec (M := workers .plain (fun _ => .error ""))
    (C := fun o s name p => Timely o s name p) (E := apply)
    (Q := fun s => showing s.shared "p" = some 0x0a000002 ∧
      showing s.shared "q" = some 0x0a000003) (fun _ _ _ => env_of_apply) twoPeers_reachable
    (joins "p" ++ reconciles "q" 2 ++ reconciles "q" 8) (by decide +kernel)
  exact ⟨s, hs, hp, hq, addresses_owned hs⟩

def releasing : Option Point → Option ℕ
  | some (.release _ a) => some a
  | _ => none

def interruptedLeave : Moves :=
  .env (.setNetwork "p" none) :: reconciles "p" 2 ++ reconciles "p" 2 ++ [.crash "p"]

def interruptedJoin : Moves :=
  reconciles "p" 2 ++ reconciles "p" 5 ++
    .crash "p" :: .env (.setNetwork "p" (some "net2")) :: reconciles "p" 4 ++ reconciles "p" 3

theorem address_shared : (∃ s, (workers .plain (fun _ => .error "")).system.Reachable s ∧
      s.shared.Shows "p" 0x0a000002 ∧ s.shared.Shows "q" 0x0a000002 ∧
      releasing (s.runs "p") = some 0x0a000002 ∧
      (s.shared.endpoints.get (hexName 0x0a000002)).map Endpoint.peerRef = some "q") ∧
    ∃ s p, (workers .plain (fun _ => .error "")).system.Reachable s ∧
      s.shared.peers.get "p" = some p ∧ p.status = ⟨.ready, some "net2", some 0x0a000002⟩ ∧
      ¬ Serves s.shared.networks "net2" 0x0a000002 := by
  constructor
  · obtain ⟨s, hs, hp, hq, hrun, hep⟩ := Workers.exists_exec
      (M := workers .plain (fun _ => .error "")) (C := fun _ _ _ _ => True) (E := apply)
      (Q := fun s => showing s.shared "p" = some 0x0a000002 ∧
        showing s.shared "q" = some 0x0a000002 ∧ releasing (s.runs "p") = some 0x0a000002 ∧
        (s.shared.endpoints.get (hexName 0x0a000002)).map Endpoint.peerRef = some "q")
      (fun _ _ _ => env_of_apply) twoPeers_reachable
      (joins "p" ++ interruptedLeave ++ joins "q" ++ reconciles "p" 1) (by decide +kernel)
    exact ⟨s, hs.of_guard, shows_of_showing hp, shows_of_showing hq, hrun, hep⟩
  obtain ⟨s, hs, hst, hcidr⟩ := Workers.exists_exec
    (M := workers .plain (fun _ => .error "")) (C := fun _ _ _ _ => True) (E := apply)
    (Q := fun s => (s.shared.peers.get "p").map Peer.status =
        some ⟨.ready, some "net2", some 0x0a000002⟩ ∧
      s.shared.networks.get "net2" = twoPeers.networks.get "net2")
    (fun _ _ _ => env_of_apply) twoPeers_reachable
    (interruptedJoin ++ [.call "p" { listed := [⟨hexName 0x0a000002, 0x0a000002, "p"⟩] },
      .call "p" {}]) (by decide +kernel)
  obtain ⟨p, hp, hst⟩ := map_eq_some_iff.1 hst
  refine ⟨s, p, hs.of_guard, hp, hst, ?_⟩
  rintro ⟨cidr, hnet, hins⟩
  rw [hcidr] at hnet
  cases hnet
  exact absurd hins (by decide)

end LatticeMesh.Controller.Membership
