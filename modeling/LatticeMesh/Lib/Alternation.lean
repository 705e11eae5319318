import Mathlib.Algebra.Group.Nat.Even
import Mathlib.Data.List.Induction

/-! # Alternating reports -/

namespace LatticeMesh

open List

def Alternates : Bool → List Bool → Prop
  | _, [] => True
  | b, x :: xs => x = b ∧ Alternates (!b) xs

namespace Alternates

instance decidable : ∀ b l, Decidable (Alternates b l)
  | _, [] => inferInstanceAs (Decidable True)
  | b, _ :: l =>
    have := decidable (!b) l
    inferInstanceAs (Decidable (_ ∧ _))

theorem concat_iff {b x : Bool} {l : List Bool} :
    Alternates b (l ++ [x]) ↔ Alternates b l ∧ (x = b ↔ Even l.length) := by
  induction l generalizing b with
  | nil => simp [Alternates]
  | cons y l ih =>
    have hx : x = !b ↔ ¬ x = b := by cases x <;> cases b <;> simp
    rw [cons_append, Alternates, ih, Alternates, length_cons, Nat.even_add_one, hx]
    tauto

end Alternates

theorem forall_split_concat_iff {α : Type*} {P : List α → α → Prop} {l : List α} {y : α} :
    (∀ pre x post, l ++ [y] = pre ++ x :: post → P pre x) ↔
      (∀ pre x post, l = pre ++ x :: post → P pre x) ∧ P l y := by
  constructor
  · intro h
    refine ⟨fun pre x post hl => h pre x (post ++ [y]) ?_, h l y [] rfl⟩
    rw [hl, append_assoc, cons_append]
  rintro ⟨hl, hy⟩ pre x post heq
  induction post using List.reverseRecOn with
  | nil =>
    obtain ⟨rfl, hxy⟩ := append_inj' heq rfl
    cases hxy
    exact hy
  | append_singleton post z _ =>
    rw [← cons_append, ← append_assoc] at heq
    exact hl pre x post (append_inj' heq rfl).1

theorem alternates_filter_iff {α : Type*} {kind reported : α → Bool} {b : Bool} {l : List α}
    (h : Alternates b (l.map kind)) :
    Alternates b ((l.filter reported).map kind) ↔
      ∀ pre x post, l = pre ++ x :: post → reported x → Even (pre.countP (!reported ·)) := by
  induction l using List.reverseRecOn with
  | nil => simp [Alternates]
  | append_singleton l y ih =>
    rw [map_append, map_singleton, Alternates.concat_iff, length_map] at h
    rw [forall_split_concat_iff, ← ih h.1, filter_append, map_append]
    cases hy : reported y with
    | false => simp [hy]
    | true =>
      have hsum : l.length = (l.filter reported).length + l.countP (!reported ·) := by
        simpa [countP_eq_length_filter] using length_eq_countP_add_countP reported
      rw [hsum, Nat.even_add] at h
      simp only [filter_cons_of_pos hy, filter_nil, map_singleton,
        Alternates.concat_iff, length_map, true_imp_iff]
      tauto

end LatticeMesh
