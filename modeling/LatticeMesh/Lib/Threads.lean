import LatticeMesh.Lib.LTS
import Mathlib.Data.List.Perm.Basic

/-! # Threads over a shared state -/

namespace LatticeMesh

open List

universe u v w x

structure Program (σ : Type u) (π : Type v) (χ : Type w) (ε : Type x) where
  init : σ → Prop
  enabled : σ → π → Prop
  effect : χ → σ → π → σ
  next : χ → σ → π → π
  spawn : χ → σ → π → List π
  env : σ → ε → σ → List π → Prop

structure Pool (σ : Type u) (π : Type v) where
  shared : σ
  threads : List π

inductive Move (χ : Type w) (ε : Type x) where
  | run (i : Nat) (c : χ)
  | env (e : ε)

namespace Program

variable {σ : Type u} {π : Type v} {χ : Type w} {ε : Type x} (M : Program σ π χ ε)

def after (s : Pool σ π) (i : Nat) (c : χ) (p : π) : Pool σ π :=
  ⟨M.effect c s.shared p, s.threads.set i (M.next c s.shared p) ++ M.spawn c s.shared p⟩

inductive Step : Pool σ π → Move χ ε → Pool σ π → Prop
  | run {s : Pool σ π} {i : Nat} {c : χ} {p : π} (h : s.threads[i]? = some p)
      (henabled : M.enabled s.shared p) : Step s (.run i c) (M.after s i c p)
  | env {s : Pool σ π} {e : ε} {t : σ} {new : List π} (h : M.env s.shared e t new) :
      Step s (.env e) ⟨t, s.threads ++ new⟩

def system : LTS (Pool σ π) (Move χ ε) where
  init s := M.init s.shared ∧ s.threads = []
  step := M.Step

def onlyIf (C : Pool σ π → π → Prop) (s : Pool σ π) : Move χ ε → Prop
  | .run i _ => ∀ p, s.threads[i]? = some p → C s p
  | .env _ => True

def exec [∀ s p, Decidable (M.enabled s p)] (C : Pool σ π → π → Prop) [∀ s p, Decidable (C s p)]
    (s : Pool σ π) : List (Nat × χ) → Option (Pool σ π)
  | [] => some s
  | (i, c) :: rest =>
    match s.threads[i]? with
    | none => none
    | some p => if M.enabled s.shared p ∧ C s p then exec C (M.after s i c p) rest else none

variable {M}

variable {C : Pool σ π → π → Prop} {s : Pool σ π} {G : Pool σ π → Move χ ε → Prop} {c : χ} {i : Nat}
  {p : π}

theorem reachable_env {e : ε} {t : σ} {new : List π} (h : (M.system.guard (onlyIf C)).Reachable s)
    (he : M.env s.shared e t new) :
    (M.system.guard (onlyIf C)).Reachable ⟨t, s.threads ++ new⟩ :=
  .step (l := .env e) h ⟨trivial, .env he⟩

theorem steps_exec [∀ s p, Decidable (M.enabled s p)] [∀ s p, Decidable (C s p)]
    (hG : ∀ s i c p, s.threads[i]? = some p → C s p → G s (.run i c)) {t : Pool σ π}
    (moves : List (Nat × χ)) (ht : M.exec C s moves = some t) : (M.system.guard G).Steps s t := by
  induction moves generalizing s with
  | nil =>
    cases ht
    exact .refl
  | cons move rest ih =>
    obtain ⟨i, c⟩ := move
    unfold exec at ht
    split at ht
    · cases ht
    next p hi =>
    split at ht
    · next hp => exact .head ⟨.run i c, hG s i c p hi hp.2, .run hi hp.1⟩ (ih ht)
    · cases ht

theorem onlyIf_run (hi : s.threads[i]? = some p) (hp : C s p) :
    onlyIf C s (.run i c : Move χ ε) := by
  intro q hq
  rw [hi] at hq
  exact Option.some.inj hq ▸ hp

theorem reachable_exec [∀ s p, Decidable (M.enabled s p)] [∀ s p, Decidable (C s p)] {t : Pool σ π}
    (h : (M.system.guard (onlyIf C)).Reachable s) (moves : List (Nat × χ))
    (ht : M.exec C s moves = some t) :
    (M.system.guard (onlyIf C)).Reachable t :=
  (steps_exec (fun _ _ _ _ => onlyIf_run) moves ht).reachable h

theorem exists_exec [∀ s p, Decidable (M.enabled s p)] [∀ s p, Decidable (C s p)]
    {Q : Pool σ π → Prop} [DecidablePred Q] {l : List (Nat × χ)}
    (hQ : (M.exec C s l).any (fun t => decide (Q t)) = true) :
    ∃ t, M.exec C s l = some t ∧ Q t := by
  obtain ⟨t, ht, hQ⟩ := (Option.any_eq_true ..).1 hQ
  exact ⟨t, ht, of_decide_eq_true hQ⟩

theorem exists_of_exec [∀ s p, Decidable (M.enabled s p)] [∀ s p, Decidable (C s p)]
    {Q : Pool σ π → Prop} [DecidablePred Q] (h : (M.system.guard (onlyIf C)).Reachable s)
    (moves : List (Nat × χ)) (hQ : (M.exec C s moves).any (fun t => decide (Q t)) = true) :
    ∃ t, (M.system.guard (onlyIf C)).Reachable t ∧ Q t := by
  obtain ⟨t, ht, hQ⟩ := exists_exec hQ
  exact ⟨t, reachable_exec h moves ht, hQ⟩

variable {q : π}

theorem mem_after (h : q ∈ (M.after s i c p).threads) :
    q = M.next c s.shared p ∨ q ∈ M.spawn c s.shared p ∨ ∃ j, j ≠ i ∧ s.threads[j]? = some q := by
  obtain hq | hq := mem_append.1 h
  · obtain ⟨j, hj⟩ := mem_iff_getElem?.1 hq
    by_cases hij : i = j
    · subst hij
      rw [getElem?_set] at hj
      simp only [if_true] at hj
      split at hj
      · exact .inl (Option.some.inj hj).symm
      · cases hj
    · rw [getElem?_set_ne hij] at hj
      exact .inr (.inr ⟨j, Ne.symm hij, hj⟩)
  · exact .inr (.inl hq)

theorem getElem?_after_self (hi : s.threads[i]? = some p) :
    (M.after s i c p).threads[i]? = some (M.next c s.shared p) := by
  obtain ⟨hlt, -⟩ := List.getElem?_eq_some_iff.1 hi
  unfold after
  rw [getElem?_append_left (by rwa [length_set]), getElem?_set_self hlt]

theorem getElem?_after_ne {j : Nat} (hij : i ≠ j) (hj : s.threads[j]? = some q) :
    (M.after s i c p).threads[j]? = some q := by
  obtain ⟨hlt, -⟩ := List.getElem?_eq_some_iff.1 hj
  unfold after
  rw [getElem?_append_left (by rwa [length_set]), getElem?_set_ne hij]
  exact hj

theorem mem_after_of_ne (hi : s.threads[i]? = some p) (hq : q ∈ s.threads) (hne : q ≠ p) :
    q ∈ (M.after s i c p).threads := by
  obtain ⟨j, hj⟩ := mem_iff_getElem?.1 hq
  have hij : i ≠ j := by
    rintro rfl
    rw [hi] at hj
    exact hne (Option.some.inj hj).symm
  exact mem_of_getElem? (getElem?_after_ne hij hj)

theorem next_mem_after (hi : s.threads[i]? = some p) :
    M.next c s.shared p ∈ (M.after s i c p).threads :=
  mem_of_getElem? (getElem?_after_self hi)

theorem mem_erase_of_ne [DecidableEq π] {threads : List π} {j : Nat} (hi : threads[i]? = some p)
    (hj : threads[j]? = some q) (hji : j ≠ i) :
    q ∈ threads.erase p := by
  obtain ⟨hlt, hp⟩ := List.getElem?_eq_some_iff.1 hi
  have hperm : (threads.eraseIdx i).Perm (threads.erase p) := by
    refine List.Perm.cons_inv (a := p) ?_
    have hwh := getElem_cons_eraseIdx_perm hlt
    rw [hp] at hwh
    exact hwh.trans (perm_cons_erase (mem_of_getElem? hi))
  exact hperm.mem_iff.1 (mem_eraseIdx_iff_getElem?.2 ⟨j, hji, hj⟩)

theorem two_le_countP [DecidableEq π] {threads : List π} {j : Nat} {f : π → Bool}
    (hi : threads[i]? = some p) (hj : threads[j]? = some q) (hji : j ≠ i) (hp : f p = true)
    (hq : f q = true) : 2 ≤ threads.countP f := by
  have hperm := perm_cons_erase (mem_of_getElem? hi)
  rw [hperm.countP_eq, countP_cons_of_pos hp]
  exact Nat.succ_le_succ (countP_pos_iff.2 ⟨q, mem_erase_of_ne hi hj hji, hq⟩)

theorem countP_after (hi : s.threads[i]? = some p) (f : π → Bool) :
    (M.after s i c p).threads.countP f + (f p).toNat =
      s.threads.countP f + (f (M.next c s.shared p)).toNat +
        (M.spawn c s.shared p).countP f := by
  obtain ⟨hlt, rfl⟩ := List.getElem?_eq_some_iff.1 hi
  have hpos : (f s.threads[i]).toNat ≤ s.threads.countP f := by
    cases hp : f s.threads[i] with
    | false => exact Nat.zero_le _
    | true => exact countP_pos_iff.2 ⟨_, getElem_mem hlt, hp⟩
  have hite : ∀ b : Bool, (if b = true then 1 else 0) = b.toNat := by decide
  unfold after
  rw [countP_append, countP_set hlt, hite, hite]
  omega

theorem count_flatMap_after {α : Type*} [DecidableEq α] (hi : s.threads[i]? = some p)
    (f : π → List α) (a : α) :
    ((M.after s i c p).threads.flatMap f).count a + (f p).count a =
      (s.threads.flatMap f).count a + (f (M.next c s.shared p)).count a +
        ((M.spawn c s.shared p).flatMap f).count a := by
  obtain ⟨hlt, rfl⟩ := List.getElem?_eq_some_iff.1 hi
  have hold := ((getElem_cons_eraseIdx_perm hlt).flatMap_right f).count_eq a
  have hnew := ((set_perm_cons_eraseIdx hlt (M.next c s.shared s.threads[i])).flatMap_right
    f).count_eq a
  unfold after
  rw [flatMap_append, count_append, hnew, ← hold]
  simp only [flatMap_cons, count_append]
  omega

theorem balance (f : π → Bool) (g g' : σ → ℕ) (hinit : ∀ s, M.init s → g s = g' s)
    (hrun : ∀ (s : Pool σ π) c p, M.system.Reachable s → p ∈ s.threads → g s.shared +
      s.threads.countP f = g' s.shared → M.enabled s.shared p → g (M.effect c s.shared p) + (f
      (M.next c s.shared p)).toNat + (M.spawn c s.shared p).countP f + g' s.shared = g s.shared + (f
      p).toNat + g' (M.effect c s.shared p))
    (henv : ∀ s e t new, M.env s e t new → g t + new.countP f + g' s = g s + g' t)
    (h : M.system.Reachable s) :
    g s.shared + s.threads.countP f = g' s.shared := by
  refine LTS.Reachable.invariant (I := fun s => g s.shared + s.threads.countP f = g' s.shared)
    ?_ ?_ h
  · rintro s ⟨hs, hnone⟩
    rw [hnone, countP_nil]
    exact hinit _ hs
  rintro s l t hr hs hstep
  cases hstep with
  | @run i c p hi hen =>
    have hcnt := countP_after (M := M) (c := c) hi f
    have hbal := hrun s c p hr (mem_of_getElem? hi) hs hen
    simp only [after] at hcnt ⊢
    omega
  | env he =>
    have hbal := henv _ _ _ _ he
    simp only [countP_append]
    omega

def Holds (I : σ → Prop) (P : σ → π → Prop) (s : Pool σ π) : Prop :=
  I s.shared ∧ ∀ p ∈ s.threads, P s.shared p

theorem holds_reachable {I : σ → Prop} {P : σ → π → Prop} (hinit : ∀ s, M.init s → I s)
    (hrun : ∀ s i c p, (M.system.guard G).Reachable s → Holds I P s → s.threads[i]? = some p →
      M.enabled s.shared p → G s (.run i c) → I (M.effect c s.shared p) ∧ P (M.effect c s.shared p)
      (M.next c s.shared p) ∧ ∀ q ∈ M.spawn c s.shared p, P (M.effect c s.shared p) q)
    (hoth : ∀ s i c p q j, (M.system.guard G).Reachable s → Holds I P s → s.threads[i]? = some p →
      M.enabled s.shared p → G s (.run i c) → j ≠ i → s.threads[j]? = some q → P (M.effect c
      s.shared p) q) (henv : ∀ s e t new, Holds I P s → M.env s.shared e t new → G s (.env e) → I t
      ∧ (∀ q ∈ new, P t q) ∧ ∀ q ∈ s.threads, P t q) (h : (M.system.guard G).Reachable s) :
    Holds I P s := by
  refine LTS.Reachable.invariant (I := Holds I P) ?_ ?_ h
  · rintro s ⟨hs, hnone⟩
    refine ⟨hinit _ hs, fun p hp => ?_⟩
    rw [hnone] at hp
    cases hp
  rintro s l t hr hs ⟨hG, hstep⟩
  cases hstep with
  | @run i c p hi hen =>
    obtain ⟨hI, hnext, hspa⟩ := hrun s i c p hr hs hi hen hG
    refine ⟨hI, fun q hq => ?_⟩
    obtain rfl | hq | ⟨j, hji, hj⟩ := mem_after hq
    · exact hnext
    · exact hspa q hq
    · exact hoth s i c p q j hr hs hi hen hG hji hj
  | env he =>
    obtain ⟨hI, hnew, hold⟩ := henv s _ _ _ hs he hG
    refine ⟨hI, fun q hq => ?_⟩
    obtain hq | hq := mem_append.1 hq
    · exact hold q hq
    · exact hnew q hq

theorem holds {I : σ → Prop} {P : σ → π → Prop} (hinit : ∀ s, M.init s → I s)
    (hrun : ∀ s i c p, Holds I P s → s.threads[i]? = some p → M.enabled s.shared p → G s (.run i c)
      → I (M.effect c s.shared p) ∧ P (M.effect c s.shared p) (M.next c s.shared p) ∧ ∀ q ∈ M.spawn
      c s.shared p, P (M.effect c s.shared p) q) (hoth : ∀ s i c p q j, Holds I P s →
      s.threads[i]? = some p → M.enabled s.shared p → G s (.run i c) → j ≠ i → s.threads[j]? = some
      q → P (M.effect c s.shared p) q) (henv : ∀ s e t new, Holds I P s → M.env s.shared e t new → G
      s (.env e) → I t ∧ (∀ q ∈ new, P t q) ∧ ∀ q ∈ s.threads, P t q)
    (h : (M.system.guard G).Reachable s) : Holds I P s :=
  holds_reachable hinit (fun s i c p _ => hrun s i c p) (fun s i c p q j _ => hoth s i c p q j)
    henv h

variable (M) in
def Ends (p : π) : Prop := Acc (fun q p => ∃ c s, M.enabled s p ∧ q = M.next c s p) p

theorem ends_of_rank {I : π → Prop} (rank : π → Nat)
    (hstep : ∀ c s p, I p → M.enabled s p → I (M.next c s p) ∧ rank (M.next c s p) < rank p)
    (hp : I p) : M.Ends p := by
  induction hn : rank p using Nat.strongRecOn generalizing p with
  | ind n ih =>
    refine Acc.intro p ?_
    rintro q ⟨c, s, hen, rfl⟩
    obtain ⟨hI, hlt⟩ := hstep c s p hp hen
    exact ih _ (hn ▸ hlt) hI rfl

theorem not_ends {I : π → Prop} (hstep : ∀ p, I p → ∃ c s, M.enabled s p ∧ I (M.next c s p))
    (hp : I p) : ¬ M.Ends p := by
  intro hends
  induction hends with
  | intro p _ ih =>
    obtain ⟨c, s, hen, hI⟩ := hstep p hp
    exact ih _ ⟨c, s, hen, rfl⟩ hI

end Program

end LatticeMesh
