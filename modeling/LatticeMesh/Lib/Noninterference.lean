import Mathlib.Data.List.Forall2

/-!
# Machines with outputs and noninterference

A `Machine` is a deterministic component.
-/

namespace LatticeMesh

universe u v w

structure Machine (σ : Type u) (ι : Type v) (ο : Type w) where
  step : σ → ι → σ × List ο

namespace Machine

variable {σ : Type u} {ι : Type v} {ο : Type w}

def run (M : Machine σ ι ο) (s : σ) : List ι → σ × List ο
  | [] => (s, [])
  | i :: is =>
    let first := M.step s i
    let rest := M.run first.1 is
    (rest.1, first.2 ++ rest.2)

structure Unwinding (M : Machine σ ι ο) (R : σ → σ → Prop) (A : ι → ι → Prop) : Prop where
  state {s t : σ} {i j : ι} (hR : R s t) (hA : A i j) : R (M.step s i).1 (M.step t j).1
  outputs {s t : σ} {i j : ι} (hR : R s t) (hA : A i j) : (M.step s i).2 = (M.step t j).2

theorem Unwinding.run {M : Machine σ ι ο} {R : σ → σ → Prop} {A : ι → ι → Prop}
    (h : M.Unwinding R A) {s t : σ} {is js : List ι} (hR : R s t) (hA : List.Forall₂ A is js) :
    (M.run s is).2 = (M.run t js).2 := by
  induction hA generalizing s t with
  | nil => rfl
  | cons hij _ ih =>
    show _ ++ _ = _ ++ _
    rw [h.outputs hR hij, ih (h.state hR hij)]

end Machine

end LatticeMesh
