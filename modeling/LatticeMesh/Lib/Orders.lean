import Mathlib.Data.List.Sort
import Mathlib.Data.List.Nodup
import LatticeMesh.Lib.Text

/-! # Results that do not depend on an order -/

namespace LatticeMesh

open List

universe u v

variable {α : Type u} {β : Type v}

section SortOn

variable [LinearOrder β] (key : α → β)

def sortOn (l : List α) : List α := l.insertionSort fun a b => key a ≤ key b

theorem sortOn_perm (l : List α) : (sortOn key l).Perm l := perm_insertionSort _ l

theorem sortOn_sorted (l : List α) : (sortOn key l).Pairwise fun a b => key a ≤ key b := by
  have htot : Std.Total fun a b : α => key a ≤ key b := ⟨fun a b => le_total (key a) (key b)⟩
  have htra : IsTrans α fun a b => key a ≤ key b := ⟨fun _ _ _ => le_trans⟩
  exact pairwise_insertionSort _ l

variable {key}

theorem mem_sortOn {l : List α} {a : α} : a ∈ sortOn key l ↔ a ∈ l := (sortOn_perm key l).mem_iff

theorem sortOn_eq_of_perm {l l' : List α} (h : l.Perm l')
    (hkey : ∀ a ∈ l, ∀ b ∈ l, key a = key b → a = b) : sortOn key l = sortOn key l' := by
  have hperm : (sortOn key l).Perm (sortOn key l') :=
    (sortOn_perm key l).trans (h.trans (sortOn_perm key l').symm)
  refine hperm.eq_of_pairwise ?_ (sortOn_sorted key l) (sortOn_sorted key l')
  intro a b ha hb hab hba
  exact hkey a (mem_sortOn.1 ha) b (h.mem_iff.2 (mem_sortOn.1 hb)) (le_antisymm hab hba)

end SortOn

variable {l : List α}

theorem exists_perm_cons {a : α} (h : a ∈ l) : ∃ rest, l.Perm (a :: rest) := by
  obtain ⟨l₁, l₂, rfl⟩ := append_of_mem h
  exact ⟨l₁ ++ l₂, perm_middle⟩

theorem exists_perm_cons_cons {a b : α} (ha : a ∈ l) (hb : b ∈ l) (hne : a ≠ b) :
    ∃ rest, l.Perm (a :: b :: rest) := by
  obtain ⟨l₁, hl₁⟩ := exists_perm_cons ha
  have hb₁ : b ∈ l₁ := (mem_cons.1 (hl₁.subset hb)).resolve_left hne.symm
  obtain ⟨l₂, hl₂⟩ := exists_perm_cons hb₁
  exact ⟨l₂, hl₁.trans (hl₂.cons a)⟩

theorem forall_perm_eq_iff (h : l.Nodup) :
    (∀ l', l'.Perm l → l' = l) ↔ ∀ a ∈ l, ∀ b ∈ l, a = b := by
  constructor
  · intro hall a ha b hb
    by_contra hne
    obtain ⟨rest, hrest⟩ := exists_perm_cons_cons ha hb hne
    have hab := hall (a :: b :: rest) hrest.symm
    have hba := hall (b :: a :: rest) ((List.Perm.swap a b rest).trans hrest.symm)
    exact hne (List.cons.inj (hab.trans hba.symm)).1
  intro hone l' hl'
  match l, h with
  | [], _ => exact hl'.eq_nil
  | [x], _ => exact perm_singleton.1 hl'
  | x :: y :: rest, h =>
    have hxy := hone x (by simp) y (by simp)
    simp [hxy] at h

def Swappable (sep v w : List α) : Prop := v ++ sep ++ w = w ++ sep ++ v

theorem intercalate_swap_iff (sep v w : List α) (l : List (List α)) :
    sep.intercalate (v :: w :: l) = sep.intercalate (w :: v :: l) ↔ Swappable sep v w := by
  unfold Swappable
  cases l with
  | nil => simp [List.intercalate]
  | cons x l => simp only [intercalate_cons_cons, ← append_assoc, append_left_inj]

theorem intercalate_perm {sep : List α} {l l' : List (List α)} (h : l'.Perm l)
    (hl : ∀ v ∈ l, ∀ w ∈ l, Swappable sep v w) : sep.intercalate l' = sep.intercalate l := by
  induction h with
  | nil => rfl
  | @cons x l₁ l₂ hperm ih =>
    have htail := ih fun v hv w hw => hl v (mem_cons_of_mem x hv) w (mem_cons_of_mem x hw)
    cases l₁ with
    | nil => rw [hperm.nil_eq]
    | cons y l₁ =>
      cases l₂ with
      | nil => exact absurd hperm.symm.nil_eq (by simp)
      | cons z l₂ => rw [intercalate_cons_cons, intercalate_cons_cons, htail]
  | swap v w l => exact (intercalate_swap_iff sep w v l).2 (hl w (by simp) v (by simp))
  | @trans l₁ l₂ l₃ _ h₂₃ ih₁₂ ih₂₃ =>
    have hl₂ : ∀ v ∈ l₂, ∀ w ∈ l₂, Swappable sep v w := fun v hv w hw =>
      hl v (h₂₃.subset hv) w (h₂₃.subset hw)
    exact (ih₁₂ hl₂).trans (ih₂₃ hl)

theorem join_swap_iff (sep : Char) (v w : String) (l : List String) :
    Text.join sep (v :: w :: l) = Text.join sep (w :: v :: l) ↔
      Swappable [sep] v.toList w.toList := by
  unfold Text.join
  rw [String.ofList_inj]
  exact intercalate_swap_iff [sep] v.toList w.toList (l.map String.toList)

theorem join_perm {sep : Char} {l l' : List String} (h : l'.Perm l)
    (hl : ∀ v ∈ l, ∀ w ∈ l, Swappable [sep] v.toList w.toList) :
    Text.join sep l' = Text.join sep l := by
  have hwor : ∀ v ∈ l.map String.toList, ∀ w ∈ l.map String.toList, Swappable [sep] v w := by
    simpa only [List.forall_mem_map] using hl
  unfold Text.join
  rw [intercalate_perm (h.map String.toList) hwor]

end LatticeMesh
