import LatticeMesh.Lib.LTS
import Mathlib.Logic.Function.Basic

/-! # Workers over a shared state -/

namespace LatticeMesh

universe u v w x y

structure Workers (κ : Type u) (σ : Type v) (π : Type w) (χ : Type x) (ε : Type y) where
  init : σ → Prop
  start : κ → π
  effect : χ → σ → κ → π → σ
  next : χ → σ → κ → π → Option π
  env : σ → ε → σ → Prop

structure Site (κ : Type u) (σ : Type v) (π : Type w) where
  shared : σ
  runs : κ → Option π

inductive Action (κ : Type u) (χ : Type x) (ε : Type y) where
  | start (k : κ)
  | call (k : κ) (c : χ)
  | crash (k : κ)
  | env (e : ε)

namespace Workers

variable {κ : Type u} {σ : Type v} {π : Type w} {χ : Type x} {ε : Type y} [DecidableEq κ]
  (M : Workers κ σ π χ ε)

def after (s : Site κ σ π) (k : κ) (c : χ) (p : π) : Site κ σ π :=
  ⟨M.effect c s.shared k p, Function.update s.runs k (M.next c s.shared k p)⟩

def started (s : Site κ σ π) (k : κ) : Site κ σ π :=
  ⟨s.shared, Function.update s.runs k (some (M.start k))⟩

inductive Step : Site κ σ π → Action κ χ ε → Site κ σ π → Prop
  | start {s : Site κ σ π} {k : κ} (h : s.runs k = none) : Step s (.start k) (M.started s k)
  | call {s : Site κ σ π} {k : κ} {c : χ} {p : π} (h : s.runs k = some p) :
    Step s (.call k c) (M.after s k c p)
  | crash {s : Site κ σ π} {k : κ} :
    Step s (.crash k) ⟨s.shared, Function.update s.runs k none⟩
  | env {s : Site κ σ π} {e : ε} {t : σ} (h : M.env s.shared e t) : Step s (.env e) ⟨t, s.runs⟩

def system : LTS (Site κ σ π) (Action κ χ ε) where
  init s := M.init s.shared ∧ s.runs = fun _ => none
  step := M.Step

def exec (C : χ → σ → κ → π → Prop) [∀ c s k p, Decidable (C c s k p)] (E : σ → ε → Option σ)
    (s : Site κ σ π) : List (Action κ χ ε) → Option (Site κ σ π)
  | [] => some s
  | .start k :: rest => if (s.runs k).isNone then exec C E (M.started s k) rest else none
  | .call k c :: rest =>
    match s.runs k with
    | none => none
    | some p => if C c s.shared k p then exec C E (M.after s k c p) rest else none
  | .crash k :: rest => exec C E ⟨s.shared, Function.update s.runs k none⟩ rest
  | .env e :: rest =>
    match E s.shared e with
    | none => none
    | some t => exec C E ⟨t, s.runs⟩ rest

def callsIf (C : χ → σ → κ → π → Prop) (s : Site κ σ π) : Action κ χ ε → Prop
  | .call k c => ∀ p, s.runs k = some p → C c s.shared k p
  | .start _ | .crash _ | .env _ => True

variable {M}

variable {s : Site κ σ π}

theorem reachable_exec {C : χ → σ → κ → π → Prop} [∀ c s k p, Decidable (C c s k p)]
    {E : σ → ε → Option σ} (hE : ∀ s e t, E s e = some t → M.env s e t) {t : Site κ σ π}
    (h : (M.system.guard (callsIf C)).Reachable s) (moves : List (Action κ χ ε))
    (ht : M.exec C E s moves = some t) : (M.system.guard (callsIf C)).Reachable t := by
  induction moves generalizing s with
  | nil =>
    cases ht
    exact h
  | cons move rest ih =>
    cases move with
    | start k =>
      unfold exec at ht
      split at ht
      · next hk =>
        exact ih (h.step (l := .start k) ⟨trivial, .start (Option.isNone_iff_eq_none.1 hk)⟩) ht
      · cases ht
    | call k c =>
      unfold exec at ht
      split at ht
      · cases ht
      next p hp =>
      split at ht
      · next hC =>
        refine ih (h.step (l := .call k c) ⟨fun q hq => ?_, .call hp⟩) ht
        rw [hp] at hq
        exact Option.some.inj hq ▸ hC
      · cases ht
    | crash k => exact ih (h.step (l := .crash k) ⟨trivial, .crash⟩) ht
    | env e =>
      unfold exec at ht
      split at ht
      · cases ht
      · next t' ht' => exact ih (h.step (l := .env e) ⟨trivial, .env (hE _ _ _ ht')⟩) ht

theorem exists_exec {C : χ → σ → κ → π → Prop} [∀ c s k p, Decidable (C c s k p)]
    {E : σ → ε → Option σ} (hE : ∀ s e t, E s e = some t → M.env s e t) {Q : Site κ σ π → Prop}
    [DecidablePred Q] (h : (M.system.guard (callsIf C)).Reachable s) (moves : List (Action κ χ ε))
    (hQ : (M.exec C E s moves).any (fun t => decide (Q t)) = true) :
    ∃ t, (M.system.guard (callsIf C)).Reachable t ∧ Q t := by
  obtain ⟨t, ht, hQ⟩ := (Option.any_eq_true ..).1 hQ
  exact ⟨t, reachable_exec hE h moves ht, of_decide_eq_true hQ⟩

theorem cases_update {runs : κ → Option π} {k j : κ} {o : Option π} {q : π}
    (h : Function.update runs k o j = some q) :
    (j = k ∧ o = some q) ∨ (j ≠ k ∧ runs j = some q) := by
  obtain rfl | hjk := eq_or_ne j k
  · rw [Function.update_self] at h
    exact .inl ⟨rfl, h⟩
  · rw [Function.update_of_ne hjk] at h
    exact .inr ⟨hjk, h⟩

def Holds (I : σ → Prop) (P : σ → κ → π → Prop) (s : Site κ σ π) : Prop :=
  I s.shared ∧ ∀ k p, s.runs k = some p → P s.shared k p

theorem holds {G : Site κ σ π → Action κ χ ε → Prop} {I : σ → Prop} {P : σ → κ → π → Prop}
    (hinit : ∀ s, M.init s → I s) (hst : ∀ s k, I s → P s k (M.start k))
    (hcall : ∀ s k c p, Holds I P s → s.runs k = some p → G s (.call k c) →
      I (M.effect c s.shared k p) ∧
        (∀ q, M.next c s.shared k p = some q → P (M.effect c s.shared k p) k q) ∧
        ∀ j q, j ≠ k → s.runs j = some q → P (M.effect c s.shared k p) j q)
    (henv : ∀ s e t, Holds I P s → M.env s.shared e t → G s (.env e) →
      I t ∧ ∀ k p, s.runs k = some p → P t k p) (h : (M.system.guard G).Reachable s) :
    Holds I P s := by
  refine LTS.Reachable.invariant (I := Holds I P) ?_ ?_ h
  · rintro ⟨s, runs⟩ ⟨hs, hnone⟩
    cases hnone
    exact ⟨hinit s hs, fun k p hp => nomatch hp⟩
  rintro s l t - hs ⟨hG, hstep⟩
  cases hstep with
  | @start k hk =>
    refine ⟨hs.1, fun j p hp => ?_⟩
    obtain ⟨rfl, hp⟩ | ⟨-, hp⟩ := cases_update hp
    · exact Option.some.inj hp ▸ hst s.shared j hs.1
    · exact hs.2 j p hp
  | @call k c p hp =>
    obtain ⟨hI, hnext, hoth⟩ := hcall s k c p hs hp hG
    refine ⟨hI, fun j q hq => ?_⟩
    obtain ⟨rfl, hq⟩ | ⟨hjk, hq⟩ := cases_update hq
    · exact hnext q hq
    · exact hoth j q hjk hq
  | @crash k =>
    refine ⟨hs.1, fun j q hq => ?_⟩
    obtain ⟨-, hq⟩ | ⟨-, hq⟩ := cases_update hq
    · cases hq
    · exact hs.2 j q hq
  | env he => exact henv s _ _ hs he hG

end Workers

end LatticeMesh
