import LatticeMesh.Registry.System

/-! # Overlay addresses -/

namespace LatticeMesh.Registry

open PeerTable

def AddressCurrent (t : PeerTable) (taken : Option (List String)) (row : PeerRow) : Prop :=
  match taken with
  | some addresses => ∀ r ∈ t, r.workspaceID = row.workspaceID → r.address ∈ addresses
  | none => row.address = "" ∨ ∃ cur, t.get row.id = some cur ∧
      cur.workspaceID = row.workspaceID ∧ cur.address = row.address

def AddressesCurrent (s : State) : Label → Prop
  | .create p _ => ∀ e, s.calls p = .create e → AddressCurrent s.peers e.taken e.row
  | .save p => ∀ w, s.calls p = .save w → AddressCurrent s.peers w.taken w.row
  | _ => True

variable {cfg : Config} {s t : State} {l : Label}

theorem AddressCurrent.free {t : PeerTable} (hu : AddressesUnique t) {taken : Option (List String)}
    {before : String} {row r : PeerRow} (h : AddressCurrent t taken row)
    (hfrom : AddressFrom taken before row.address) (hr : r ∈ t)
    (hws : r.workspaceID = row.workspaceID) (hadr : r.address = row.address)
    (hne : r.address ≠ "") : taken = none ∧ r.id = row.id := by
  cases taken with
  | some addresses =>
    have hin := h r hr hws
    rw [hadr] at hin
    exact absurd hin (allocateAddress_free hfrom)
  | none =>
    rcases h with hemp | ⟨cur, hcur, hcurw, hcura⟩
    · exact absurd (hadr.trans hemp) hne
    refine ⟨rfl, ?_⟩
    rw [← t.keyed row.id cur hcur]
    exact hu r hr cur (PeerTable.mem_of_get hcur) (hws.trans hcurw.symm)
      (hadr.trans hcura.symm) hne

theorem AddressesUnique.write {t t' : PeerTable} (hu : AddressesUnique t) {row : PeerRow}
    (ht : ∀ j, t'.get j = if j = row.id then some row else t.get j)
    (hfree : ∀ r ∈ t, r.workspaceID = row.workspaceID → r.address = row.address →
      r.address ≠ "" → r.id = row.id) : AddressesUnique t' := by
  have hcas : ∀ r ∈ t', r = row ∨ r ∈ t := by
    intro r hr
    rw [PeerTable.mem_iff, ht] at hr
    split at hr
    · exact .inl (Option.some.inj hr).symm
    · exact .inr hr
  intro a ha b hb hws hadr hne
  rcases hcas a ha with rfl | ha' <;> rcases hcas b hb with rfl | hb'
  · rfl
  · exact (hfree b hb' hws.symm hadr.symm (hadr ▸ hne)).symm
  · exact hfree a ha' hws hadr hne
  · exact hu a ha' b hb' hws hadr hne

theorem AddressesUnique.step (hu : AddressesUnique s.peers) (hc : AddressesCurrent s l)
    (h : Step cfg s l t) : AddressesUnique t.peers := by
  rcases peers_step h with hsame | ⟨p, e, id, rfl, he, hid, ht⟩ | ⟨p, w, rfl, hw, ht⟩ |
    ⟨p, id, rfl, hd, ht⟩
  · rw [hsame]
    exact hu
  · apply hu.write (get_create ht)
    intro r hr hws hadr hne
    rw [created_workspaceID] at hws
    rw [created_address] at hadr
    obtain ⟨htak, -⟩ := (hc e he).free hu e.address hr hws hadr hne
    have hfrom := e.address
    rw [htak] at hfrom
    exact absurd (hadr.trans hfrom) hne
  · apply hu.write (get_save ht)
    intro r hr hws hadr hne
    rw [saved_workspaceID] at hws
    rw [saved_address] at hadr
    have hcurr := hc w hw
    obtain ⟨htak, hrid⟩ := hcurr.free hu w.address hr hws hadr hne
    rw [hrid]
    rw [htak] at hcurr
    rcases hcurr with hemp | ⟨cur, hcur, -, -⟩
    · exact absurd (hadr.trans hemp) hne
    · rw [saved_of_get hcur]
  rw [ht]
  have hmem : ∀ r ∈ s.peers.delete id, r ∈ s.peers := by
    intro r hr
    rw [PeerTable.mem_iff, PeerTable.get_delete] at hr
    split at hr
    · cases hr
    · exact hr
  intro a ha b hb
  exact hu a (hmem a ha) b (hmem b hb)

/-- **Addresses are unique** in every run in which each write finds its address current. -/
theorem addresses_unique (h : ((registry cfg).guard AddressesCurrent).Reachable s) :
    AddressesUnique s.peers := by
  apply h.invariant (I := fun s => AddressesUnique s.peers)
  · intro s hs
    exact hs.addresses
  · intro s l t _ hu hs
    exact hu.step hs.1 hs.2

theorem addressesCurrent_reads (s : State) (l : Label) (h : l.Reads) : AddressesCurrent s l := by
  cases l <;> trivial

theorem one_address_held : ∃ s, ((registry plain).guard AddressesCurrent).Reachable s ∧
    (∃ r ∈ s.peers, r.address = "10.96.0.2") ∧ AddressesUnique s.peers := by
  obtain ⟨e, -, hrow, he⟩ := reachable_device addressesCurrent_reads (by decide) "a"
    (by decide +kernel) (reachable_deployment addressesCurrent_reads 0) (p := 0) rfl
  obtain ⟨t, ht⟩ := PeerTable.empty.exists_create (r := e.row) "p1" fun r hr =>
    absurd hr (PeerTable.not_mem_empty r)
  have hget := (get_create ht "p1").trans (if_pos rfl)
  have hcur : AddressesCurrent (deployment 0 .empty {"t1"} []
      (Function.update (fun _ => .idle) 0 (.create e))) (.create 0 "p1") := by
    intro e' he'
    obtain rfl : e = e' := Call.create.inj he'
    unfold AddressCurrent
    cases htak : e.taken with
    | some addresses => exact fun r hr => absurd hr (PeerTable.not_mem_empty r)
    | none =>
      have hfrom := e.address
      rw [htak] at hfrom
      exact .inl hfrom
  have hcr := reachable_inserted he hcur rfl (by decide) ht
  refine ⟨_, hcr, ⟨PeerTable.created "p1" e.row, hget, ?_⟩, addresses_unique hcr⟩
  rw [created_address, hrow]
  rfl

theorem one_address_for_two : ∃ s, (registry plain).Reachable s ∧ ¬ AddressesUnique s.peers := by
  obtain ⟨e, e', t, calls, -, -, h, ha, hb⟩ := two_devices 0 (by decide)
  refine ⟨_, h, ?_⟩
  intro hu
  have hids : "p1" = "p2" :=
    hu _ (PeerTable.mem_of_get ha) _ (PeerTable.mem_of_get hb) rfl rfl (by decide)
  exact absurd hids (by decide)

end LatticeMesh.Registry
