import Mathlib

/-! # Sorted lists -/

namespace LatticeMesh

open List

def searchFrom (p : ℕ → Bool) : ℕ → ℕ → ℕ → ℕ
  | 0, i, _ => i
  | fuel + 1, i, j =>
    if i < j then
      if p ((i + j) / 2) then searchFrom p fuel i ((i + j) / 2)
      else searchFrom p fuel ((i + j) / 2 + 1) j
    else i

def search (n : ℕ) (p : ℕ → Bool) : ℕ := searchFrom p n 0 n

variable {p : ℕ → Bool}

theorem searchFrom_le {fuel i j : ℕ} (hij : i ≤ j) : searchFrom p fuel i j ≤ j := by
  induction fuel generalizing i j with
  | zero => exact hij
  | succ fuel ih =>
    unfold searchFrom
    split
    · split
      · exact Nat.le_trans (ih (by omega)) (by omega)
      · exact ih (by omega)
    · exact hij

theorem searchFrom_spec {fuel i j : ℕ} (hfuel : j - i ≤ fuel) (hij : i ≤ j)
    (hmono : ∀ a b, a ≤ b → b < j → p a = true → p b = true) (hbel : ∀ k < i, p k = false) {k : ℕ}
    (hk : k < j) : k < searchFrom p fuel i j ↔ p k = false := by
  induction fuel generalizing i j with
  | zero => exact ⟨hbel k, fun _ => show k < i by omega⟩
  | succ fuel ih =>
    unfold searchFrom
    split
    · next hlt =>
      have hmid : i ≤ (i + j) / 2 ∧ (i + j) / 2 < j := by omega
      generalize (i + j) / 2 = h at hmid
      split
      · next hp =>
        by_cases hkh : k < h
        · exact ih (by omega) hmid.1 (fun a b hab hb => hmono a b hab (by omega)) hbel hkh
        have hpk := hmono h k (by omega) hk hp
        have hres : searchFrom p fuel i h ≤ h := searchFrom_le hmid.1
        simp only [hpk, Bool.true_eq_false, iff_false]
        omega
      next hp =>
      refine ih (by omega) (by omega) hmono (fun a ha => ?_) hk
      by_contra hpa
      exact hp (hmono a h (by omega) hmid.2 (by simpa using hpa))
    · exact ⟨hbel k, fun _ => by omega⟩

theorem lt_search_iff {n k : ℕ} (hmono : ∀ a b, a ≤ b → b < n → p a = true → p b = true)
    (hk : k < n) :
    k < search n p ↔ p k = false :=
  searchFrom_spec (Nat.le_refl _) (Nat.zero_le n) hmono (fun _ h => absurd h (Nat.not_lt_zero _)) hk

theorem sum_le_sum_take {α : Type} [DecidableEq α] {f : α → ℕ} {l m : List α} {k : ℕ}
    (hl : l.Pairwise fun a b => f b ≤ f a) (hm : m.Subperm l) (hk : m.length ≤ k) :
    (m.map f).sum ≤ ((l.take k).map f).sum := by
  induction l generalizing m k with
  | nil =>
    rw [subperm_nil.1 hm]
    exact Nat.zero_le _
  | cons a l ih =>
    rw [pairwise_cons] at hl
    cases m with
    | nil => exact Nat.zero_le _
    | cons b m =>
      obtain ⟨k, rfl⟩ : ∃ n, k = n + 1 := ⟨k - 1, by simp at hk; omega⟩
      have hera : ((b :: m).erase a).Subperm l := by
        simpa using hm.erase a
      rw [take_succ_cons, map_cons (l := List.take k l), sum_cons]
      by_cases ha : a ∈ b :: m
      · rw [← sum_map_erase f ha]
        have hlen := length_erase_of_mem ha
        exact Nat.add_le_add_left (ih hl.2 hera (by rw [hlen]; simpa using hk)) _
      rw [erase_of_not_mem ha] at hera
      rw [map_cons, sum_cons]
      refine Nat.add_le_add (hl.1 b (hera.subset mem_cons_self)) (ih hl.2 ?_ ?_)
      · exact List.Subperm.trans ⟨m, .refl _, sublist_cons_self b m⟩ hera
      · simpa using hk

end LatticeMesh
