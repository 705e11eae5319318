import Mathlib.Logic.Relation
import Mathlib.Order.RelClasses

/-! # What own steps lead to -/

namespace LatticeMesh

universe u v

variable {σ : Type u} {own others : σ → σ → Prop} {Q : σ → Prop}

inductive Inevitable (own others : σ → σ → Prop) (Q : σ → Prop) : σ → Prop
  | now {s : σ} (h : Q s) : Inevitable own others Q s
  | later {s : σ} (hcan : ∀ u, Relation.ReflTransGen others s u → ∃ t, own u t)
      (hown : ∀ u t, Relation.ReflTransGen others s u → own u t → Inevitable own others Q t) :
    Inevitable own others Q s

namespace Inevitable

theorem of_rank {α : Type v} [LT α] [WellFoundedLT α] (rank : σ → α) {I : σ → Prop}
    (hoth : ∀ s t, I s → others s t → I t ∧ rank t = rank s ∧ (Q t → Q s))
    (hown : ∀ s, I s → ¬ Q s → (∃ t, own s t) ∧ ∀ t, own s t → Q t ∨ I t ∧ rank t < rank s)
    {s : σ} (hs : I s) : Inevitable own others Q s := by
  induction hrank : rank s using WellFoundedLT.induction generalizing s with
  | ind r ih =>
    by_cases hQ : Q s
    · exact .now hQ
    have hkeep : ∀ u, Relation.ReflTransGen others s u → I u ∧ rank u = rank s ∧ ¬ Q u := by
      intro u hu
      induction hu with
      | refl => exact ⟨hs, rfl, hQ⟩
      | tail _ hstep ih =>
        obtain ⟨hI, hr, hQ⟩ := ih
        obtain ⟨hI', hr', hQ'⟩ := hoth _ _ hI hstep
        exact ⟨hI', hr'.trans hr, fun h => hQ (hQ' h)⟩
    refine .later (fun u hu => ?_) fun u t hu hstep => ?_
    · obtain ⟨hI, -, hQu⟩ := hkeep u hu
      exact (hown u hI hQu).1
    obtain ⟨hI, hr, hQu⟩ := hkeep u hu
    obtain hQt | ⟨hIt, hlt⟩ := (hown u hI hQu).2 t hstep
    · exact .now hQt
    · exact ih (rank t) (by rw [← hrank, ← hr]; exact hlt) hIt rfl

theorem not_of_kept {J : σ → Prop} (hQ : ∀ s, J s → ¬ Q s) (hown : ∀ s t, J s → own s t → J t)
    {s : σ} (hs : J s) : ¬ Inevitable own others Q s := by
  intro h
  induction h with
  | now h => exact hQ _ hs h
  | @later s hcan _ ih =>
    obtain ⟨t, ht⟩ := hcan s .refl
    exact ih s t .refl ht (hown s t hs ht)

end Inevitable

end LatticeMesh
