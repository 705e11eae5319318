import LatticeMesh.Lib.GoMap

/-! # Tables with a unique index -/

namespace LatticeMesh

open List Option

universe u v w

def query {α : Type u} (err : Option String) (result : Option α) : Option α :=
  if err.isSome then none else result

theorem query_eq_some_iff {α : Type u} {err : Option String} {result : Option α} {a : α} :
    query err result = some a ↔ err = none ∧ result = some a := by
  unfold query
  cases err <;> simp

structure Table {ρ : Type u} {κ : Type v} {ι : Type w} [DecidableEq κ] (key : ρ → κ)
    (index : ρ → ι) where
  rows : GoMap κ ρ
  keyed : ∀ k r, rows.get k = some r → key r = k
  unique : ∀ r r', rows.get (key r) = some r → rows.get (key r') = some r' → index r = index r' →
    key r = key r'

namespace Table

variable {ρ : Type u} {κ : Type v} {ι : Type w} [DecidableEq κ] [DecidableEq ι] {key : ρ → κ}
  {index : ρ → ι}

def empty : Table key index where
  rows := .empty
  keyed _ _ h := by cases h
  unique _ _ h := by cases h

def get (t : Table key index) (k : κ) : Option ρ := t.rows.get k

instance : Membership ρ (Table key index) := ⟨fun t r => t.get (key r) = some r⟩

def list (t : Table key index) : List ρ := t.rows.toList.map Prod.snd

def find (t : Table key index) (i : ι) : Option ρ := t.list.find? fun r => index r = i

def Free (t : Table key index) (r : ρ) : Prop := ∀ r' ∈ t.list, index r' = index r → key r' = key r

instance (t : Table key index) (r : ρ) : Decidable (t.Free r) :=
  inferInstanceAs (Decidable (∀ r' ∈ t.list, _))

variable {t t' : Table key index} {r r' : ρ} {k : κ} {i : ι}

omit [DecidableEq ι] in
theorem mem_iff : r ∈ t ↔ t.get (key r) = some r := Iff.rfl

omit [DecidableEq ι] in
theorem mem_of_get (h : t.get k = some r) : r ∈ t := by
  rw [mem_iff, t.keyed k r h]
  exact h

omit [DecidableEq ι] in
theorem mem_list : r ∈ t.list ↔ r ∈ t := by
  unfold list
  rw [List.mem_map]
  constructor
  · rintro ⟨⟨k, r'⟩, hmem, rfl⟩
    exact mem_of_get (GoMap.mem_toList.1 hmem)
  · intro h
    exact ⟨(key r, r), GoMap.mem_toList.2 h, rfl⟩

omit [DecidableEq ι] in
theorem eq_of_index (h : r ∈ t) (h' : r' ∈ t) (hidx : index r = index r') : r = r' := by
  have hkey := t.unique r r' h h' hidx
  rw [mem_iff, hkey] at h
  exact Option.some.inj (h.symm.trans h')

omit [DecidableEq ι] in
theorem list_pairwise (t : Table key index) : t.list.Pairwise fun r r' => index r ≠ index r' := by
  unfold list
  rw [pairwise_map]
  refine t.rows.nodup_toList.imp_of_mem ?_
  rintro ⟨k, r⟩ ⟨k', r'⟩ hr hr' hne hidx
  have hget := GoMap.mem_toList.1 hr
  have hget' := GoMap.mem_toList.1 hr'
  obtain rfl := eq_of_index (mem_of_get hget) (mem_of_get hget') hidx
  exact hne (by rw [← t.keyed _ _ hget, ← t.keyed _ _ hget'])

theorem find_eq_some_iff : t.find i = some r ↔ r ∈ t ∧ index r = i := by
  unfold find
  constructor
  · intro h
    exact ⟨mem_list.1 (mem_of_find?_eq_some h), by simpa using find?_some h⟩
  rintro ⟨hr, rfl⟩
  cases hfind : t.list.find? (fun r' => index r' = index r) with
  | none => exact absurd (decide_eq_true rfl) (find?_eq_none.1 hfind r (mem_list.2 hr))
  | some r' =>
    have hidx : index r' = index r := by simpa using find?_some hfind
    rw [eq_of_index (mem_list.1 (mem_of_find?_eq_some hfind)) hr hidx]

def put (t : Table key index) (r : ρ) (h : t.Free r) : Table key index where
  rows := t.rows.set (key r) r
  keyed _ _ hr := GoMap.forall_get_set (P := fun k r => key r = k) t.keyed rfl hr
  unique := by
    intro a b ha hb hindex
    rw [GoMap.get_set] at ha hb
    split at ha <;> split at hb
    · next hka hkb => rw [hka, hkb]
    · cases ha
      exact (h b (mem_list.2 hb) hindex.symm).symm
    · cases hb
      exact h a (mem_list.2 ha) hindex
    · exact t.unique a b ha hb hindex

def put? (t : Table key index) (r : ρ) : Option (Table key index) :=
  if h : t.Free r then some (t.put r h) else none

omit [DecidableEq ι] in
def modify (t : Table key index) (k : κ) (f : ρ → ρ) (hkey : ∀ r, key (f r) = key r)
    (hindex : ∀ r, index (f r) = index r) : Table key index where
  rows := t.rows.modify k f
  keyed j r h := by
    rw [GoMap.get_modify] at h
    split at h
    · next hj =>
      obtain ⟨r', hr', rfl⟩ := map_eq_some_iff.1 h
      rw [hkey, hj]
      exact t.keyed k r' hr'
    · exact t.keyed j r h
  unique := by
    have hold : ∀ {r}, (t.rows.modify k f).get (key r) = some r →
        ∃ r', t.rows.get (key r') = some r' ∧ key r' = key r ∧ index r' = index r := by
      intro r h
      rw [GoMap.get_modify] at h
      split at h
      · next hk =>
        obtain ⟨r', hr', hf⟩ := map_eq_some_iff.1 h
        have hr'key := t.keyed k r' hr'
        exact ⟨r', hr'key.symm ▸ hr', hr'key.trans hk.symm, hf ▸ (hindex r').symm⟩
      · exact ⟨r, h, rfl, rfl⟩
    intro a b ha hb hab
    obtain ⟨a', ha', hkeya, hindexa⟩ := hold ha
    obtain ⟨b', hb', hkeyb, hindexb⟩ := hold hb
    rw [← hkeya, ← hkeyb]
    exact t.unique a' b' ha' hb' (hindexa.trans (hab.trans hindexb.symm))

omit [DecidableEq ι] in
theorem get_modify (t : Table key index) (k j : κ) (f : ρ → ρ) (hkey : ∀ r, key (f r) = key r)
    (hidx : ∀ r, index (f r) = index r) :
    (t.modify k f hkey hidx).get j = if j = k then (t.get k).map f else t.get j :=
  GoMap.get_modify ..

def insert? (t : Table key index) (r : ρ) : Option (Table key index) :=
  if (t.get (key r)).isNone then t.put? r else none

theorem get_put? (h : t.put? r = some t') (k : κ) :
    t'.get k = if k = key r then some r else t.get k := by
  unfold put? at h
  split at h
  · cases h
    exact GoMap.get_set ..
  · cases h

theorem put?_of_insert? (h : t.insert? r = some t') :
    t.put? r = some t' ∧ t.get (key r) = none := by
  unfold insert? at h
  split at h
  · next hnone => exact ⟨h, isNone_iff_eq_none.1 hnone⟩
  · cases h

theorem put?_isSome_iff : (t.put? r).isSome ↔ t.Free r := by
  unfold put?
  split <;> simpa

omit [DecidableEq ι] in
theorem free_of_get (h : t.get (key r) = some r') (hidx : index r' = index r) : t.Free r := by
  intro r'' hr'' hidx''
  rw [← t.keyed _ _ h]
  exact t.unique r'' r' (mem_list.1 hr'') (mem_of_get h) (hidx''.trans hidx.symm)

theorem mem_put?_iff (h : t.put? r = some t') (hkey : ∀ a ∈ t, key a = key r → index a = index r)
    {a : ρ} : a ∈ t' ↔ a = r ∨ a ∈ t ∧ index a ≠ index r := by
  have hfree : t.Free r := put?_isSome_iff.1 (by rw [h]; rfl)
  rw [mem_iff, get_put? h]
  split
  · next hka =>
    constructor
    · intro ha
      exact .inl (Option.some.inj ha).symm
    rintro (rfl | ⟨ha, hne⟩)
    · rfl
    · exact absurd (hkey a ha hka) hne
  next hka =>
  constructor
  · intro ha
    exact .inr ⟨ha, fun hidx => hka (hfree a (mem_list.2 ha) hidx)⟩
  rintro (rfl | ⟨ha, -⟩)
  · exact absurd rfl hka
  · exact ha

theorem insert?_eq_none_of_mem (hr : r' ∈ t) (hidx : index r' = index r) :
    t.insert? r = none := by
  unfold insert?
  split
  · next hnone =>
    unfold put?
    rw [dif_neg]
    intro hfree
    have hkey := hfree r' (mem_list.2 hr) hidx
    rw [mem_iff, hkey] at hr
    rw [hr] at hnone
    cases hnone
  · rfl

theorem exists_insert? (hkey : t.get (key r) = none) (hidx : ∀ r' ∈ t, index r' ≠ index r) :
    ∃ t', t.insert? r = some t' := by
  have hfree : t.Free r := fun r' hr' h => absurd h (hidx r' (mem_list.1 hr'))
  refine ⟨t.put r hfree, ?_⟩
  unfold insert? put?
  rw [hkey, dif_pos hfree]
  rfl

end Table

end LatticeMesh
