import Mathlib.Data.List.AList
import Mathlib.Data.List.Induction

/-! # Maps with unordered iteration -/

namespace LatticeMesh

open List

universe u v w

structure GoMap (κ : Type u) (ν : Type v) where
  alist : AList fun _ : κ => ν

namespace GoMap

variable {κ : Type u} {ν : Type v} [DecidableEq κ]

def empty : GoMap κ ν := ⟨∅⟩

def get (m : GoMap κ ν) (k : κ) : Option ν := m.alist.lookup k

def set (m : GoMap κ ν) (k : κ) (v : ν) : GoMap κ ν := ⟨m.alist.insert k v⟩

def delete (m : GoMap κ ν) (k : κ) : GoMap κ ν := ⟨m.alist.erase k⟩

def modify (m : GoMap κ ν) (k : κ) (f : ν → ν) : GoMap κ ν :=
  match m.get k with
  | none => m
  | some v => m.set k (f v)

def mapVal {ω : Type w} (f : ν → ω) (m : GoMap κ ν) : GoMap κ ω where
  alist := ⟨m.alist.entries.map fun e => ⟨e.1, f e.2⟩, by
    unfold List.NodupKeys List.keys
    rw [List.map_map]
    exact m.alist.nodupKeys⟩

def toList (m : GoMap κ ν) : List (κ × ν) := m.alist.entries.map fun e => (e.1, e.2)

def Ranges (m : GoMap κ ν) (l : List (κ × ν)) : Prop := l.Perm m.toList

@[simp] theorem get_empty (k : κ) : (empty : GoMap κ ν).get k = none := rfl

theorem get_set (m : GoMap κ ν) (k j : κ) (v : ν) :
    (m.set k v).get j = if j = k then some v else m.get j := by
  unfold get set
  split
  · next h => subst h; exact AList.lookup_insert m.alist
  · next h => exact AList.lookup_insert_ne h

theorem get_delete (m : GoMap κ ν) (k j : κ) :
    (m.delete k).get j = if j = k then none else m.get j := by
  unfold get delete
  split
  · next h => subst h; exact AList.lookup_erase j m.alist
  · next h => exact AList.lookup_erase_ne h

theorem get_modify (m : GoMap κ ν) (k j : κ) (f : ν → ν) :
    (m.modify k f).get j = if j = k then (m.get k).map f else m.get j := by
  unfold modify
  cases hk : m.get k with
  | none =>
    by_cases hj : j = k
    · rw [if_pos hj, hj]
      exact hk
    · rw [if_neg hj]
  | some v => exact get_set ..

variable {m : GoMap κ ν} {k : κ} {v : ν}

theorem forall_get_set {P : κ → ν → Prop} (hm : ∀ j w, m.get j = some w → P j w) (hv : P k v)
    {j : κ} {w : ν} (h : (m.set k v).get j = some w) : P j w := by
  rw [get_set] at h
  split at h
  · next hj =>
    cases h
    exact hj ▸ hv
  · exact hm j w h

theorem get_of_get_delete {j : κ} (h : (m.delete k).get j = some v) :
    m.get j = some v := by
  rw [get_delete] at h
  split at h
  · cases h
  · exact h

theorem mem_toList : (k, v) ∈ m.toList ↔ m.get k = some v := by
  unfold toList get
  rw [← Option.mem_def, AList.mem_lookup_iff, List.mem_map]
  constructor
  · rintro ⟨⟨k', v'⟩, he, hkv⟩
    simp only [Prod.mk.injEq] at hkv
    obtain ⟨rfl, rfl⟩ := hkv
    exact he
  · intro he
    exact ⟨⟨k, v⟩, he, rfl⟩

omit [DecidableEq κ] in
theorem toList_mapVal {ω : Type w} (f : ν → ω) (m : GoMap κ ν) :
    (m.mapVal f).toList = m.toList.map fun e => (e.1, f e.2) := by
  unfold toList mapVal
  simp [List.map_map, Function.comp_def]

theorem get_mapVal {ω : Type w} (f : ν → ω) (m : GoMap κ ν) (k : κ) :
    (m.mapVal f).get k = (m.get k).map f := by
  have hmem : ∀ w, (m.mapVal f).get k = some w ↔ (m.get k).map f = some w := by
    intro w
    rw [← mem_toList, toList_mapVal, List.mem_map, Option.map_eq_some_iff]
    simp [Prod.ext_iff, mem_toList]
  exact Option.ext hmem

omit [DecidableEq κ] in
theorem nodup_toList (m : GoMap κ ν) : m.toList.Nodup := by
  unfold toList
  refine List.Nodup.map ?_ m.alist.nodupKeys.nodup
  rintro ⟨k, v⟩ ⟨k', v'⟩ h
  cases h
  rfl

theorem Ranges.mem_iff {l : List (κ × ν)} (h : m.Ranges l) :
    (k, v) ∈ l ↔ m.get k = some v := by
  rw [List.Perm.mem_iff h, mem_toList]

theorem get_foldl_set {α : Type w} {key : α → κ} {val : α → ν} {l : List α}
    (h : ∀ a ∈ l, ∀ b ∈ l, key a = key b → val a = val b) :
    (l.foldl (fun m a => m.set (key a) (val a)) empty).get k = some v ↔
      ∃ a ∈ l, key a = k ∧ val a = v := by
  induction l using List.reverseRecOn with
  | nil => simp
  | append_singleton l last ih =>
    have hl : ∀ a ∈ l, ∀ b ∈ l, key a = key b → val a = val b := fun a ha b hb =>
      h a (mem_append_left _ ha) b (mem_append_left _ hb)
    have hlast : last ∈ l ++ [last] := by simp
    rw [foldl_append, foldl_cons, foldl_nil, get_set]
    split
    · next hk =>
      constructor
      · intro hv
        exact ⟨last, hlast, hk.symm, Option.some.inj hv⟩
      · rintro ⟨a, ha, hka, hva⟩
        rw [← hva, h last hlast a ha (hk.symm.trans hka.symm)]
    next hk =>
    rw [ih hl]
    constructor
    · rintro ⟨a, ha, hav⟩
      exact ⟨a, mem_append_left _ ha, hav⟩
    rintro ⟨a, ha, hka, hva⟩
    rcases mem_append.1 ha with ha | ha
    · exact ⟨a, ha, hka, hva⟩
    · rw [mem_singleton.1 ha] at hka
      exact absurd hka.symm hk

theorem exists_ranges_cons (h : m.get k = some v) :
    ∃ l, m.Ranges ((k, v) :: l) := by
  obtain ⟨l₁, l₂, hl⟩ := append_of_mem (mem_toList.2 h)
  refine ⟨l₁ ++ l₂, ?_⟩
  unfold Ranges
  rw [hl]
  exact perm_middle.symm

end GoMap

end LatticeMesh
