import Mathlib.Logic.Relation

/-! # Labelled transition systems -/

namespace LatticeMesh

universe u v

structure LTS (σ : Type u) (ι : Type v) where
  init : σ → Prop
  step : σ → ι → σ → Prop

namespace LTS

variable {σ : Type u} {ι : Type v}

inductive Reachable (M : LTS σ ι) : σ → Prop
  | init {s : σ} (h : M.init s) : Reachable M s
  | step {s t : σ} {l : ι} (h : Reachable M s) (hs : M.step s l t) : Reachable M t

def guard (M : LTS σ ι) (G : σ → ι → Prop) : LTS σ ι where
  init := M.init
  step s l t := G s l ∧ M.step s l t

theorem Reachable.invariant {M : LTS σ ι} {I : σ → Prop} (h0 : ∀ s, M.init s → I s)
    (hstep : ∀ s l t, M.Reachable s → I s → M.step s l t → I t) {s : σ} (h : M.Reachable s) :
    I s := by
  induction h with
  | init h => exact h0 _ h
  | step h hs ih => exact hstep _ _ _ h ih hs

theorem Reachable.once {M : LTS σ ι} (count : σ → Nat) (Open : σ → Prop)
    (h0 : ∀ s, M.init s → count s = 0)
    (hstep : ∀ s l t, M.Reachable s → M.step s l t →
      (count t = count s ∧ (Open t → Open s)) ∨ (count t = count s + 1 ∧ Open s ∧ ¬ Open t))
    {s : σ} (h : M.Reachable s) : count s ≤ 1 ∧ (Open s → count s = 0) := by
  refine h.invariant (I := fun s => count s ≤ 1 ∧ (Open s → count s = 0)) ?_ ?_
  · intro s hs
    rw [h0 s hs]
    exact ⟨Nat.zero_le 1, fun _ => rfl⟩
  rintro s l t hr ⟨hle, hopen⟩ hst
  obtain ⟨hcnt, hcl⟩ | ⟨hcnt, hs, ht⟩ := hstep s l t hr hst
  · rw [hcnt]
    exact ⟨hle, fun ht => hopen (hcl ht)⟩
  · rw [hcnt, hopen hs]
    exact ⟨Nat.le_refl 1, fun h => absurd h ht⟩

def Steps (M : LTS σ ι) : σ → σ → Prop := Relation.ReflTransGen fun s t => ∃ l, M.step s l t

theorem Steps.keeps {M : LTS σ ι} {I : σ → Prop} (hstep : ∀ s l t, I s → M.step s l t → I t)
    {s t : σ} (h : M.Steps s t) (hs : I s) : I t := by
  induction h with
  | refl => exact hs
  | tail _ hlast ih =>
    obtain ⟨l, hlast⟩ := hlast
    exact hstep _ l _ ih hlast

theorem Steps.reachable {M : LTS σ ι} {s t : σ} (h : M.Steps s t) (hs : M.Reachable s) :
    M.Reachable t := h.keeps (fun _ _ _ => Reachable.step) hs

theorem Reachable.steps {M : LTS σ ι} {s : σ} (h : M.Reachable s) :
    ∃ s₀, M.init s₀ ∧ M.Steps s₀ s := by
  induction h with
  | init h => exact ⟨_, h, .refl⟩
  | step _ hs ih =>
    obtain ⟨s₀, hinit, hste⟩ := ih
    exact ⟨s₀, hinit, hste.tail ⟨_, hs⟩⟩

theorem Steps.rel {M : LTS σ ι} {R : σ → σ → Prop} (hrefl : ∀ s, R s s)
    (htra : ∀ s t u, R s t → R t u → R s u)
    (hstep : ∀ s l t, M.Reachable s → M.step s l t → R s t) {s t : σ} (h : M.Steps s t)
    (hs : M.Reachable s) : R s t := by
  induction h with
  | refl => exact hrefl s
  | @tail t u hst htu ih =>
    obtain ⟨l, htu⟩ := htu
    exact htra s t u ih (hstep t l u (Steps.reachable hst hs) htu)

theorem Reachable.of_guard {M : LTS σ ι} {G : σ → ι → Prop} {s : σ}
    (h : (M.guard G).Reachable s) : M.Reachable s := by
  induction h with
  | init h => exact .init h
  | step _ hs ih => exact .step ih hs.2

theorem Reachable.guarded {M : LTS σ ι} {G : σ → ι → Prop} (hG : ∀ s l, G s l) {s : σ}
    (h : M.Reachable s) : (M.guard G).Reachable s := by
  induction h with
  | init h => exact .init h
  | step _ hs ih => exact .step ih ⟨hG _ _, hs⟩

def recording {η : Type v} (M : LTS σ ι) (start : η) (record : σ → η → ι → η) : LTS (σ × η) ι where
  init s := M.init s.1 ∧ s.2 = start
  step s l t := M.step s.1 l t.1 ∧ t.2 = record s.1 s.2 l

theorem Reachable.exists_recording {η : Type v} {M : LTS σ ι} {s : σ} (h : M.Reachable s)
    (start : η) (record : σ → η → ι → η) : ∃ g, (M.recording start record).Reachable (s, g) := by
  induction h with
  | init h => exact ⟨start, .init ⟨h, rfl⟩⟩
  | @step s t l _ hs ih =>
    obtain ⟨g, hg⟩ := ih
    exact ⟨record s g l, hg.step (t := (t, record s g l)) ⟨hs, rfl⟩⟩

def Stuck (M : LTS σ ι) (s : σ) : Prop := ∀ l t, ¬ M.step s l t

def Terminates (M : LTS σ ι) : Prop :=
  ∀ run : Nat → σ, M.Reachable (run 0) → ¬ ∀ n, ∃ l, M.step (run n) l (run (n + 1))

theorem terminates_of_measure {M : LTS σ ι} (μ : σ → Nat)
    (h : ∀ s l t, M.step s l t → μ t < μ s) : M.Terminates := by
  intro run _ hste
  have hbou : ∀ n, μ (run n) + n ≤ μ (run 0) := by
    intro n
    induction n with
    | zero => exact Nat.le_refl _
    | succ n ih =>
      obtain ⟨l, hl⟩ := hste n
      have hlt := h _ _ _ hl
      omega
  have habs := hbou (μ (run 0) + 1)
  omega

end LTS

end LatticeMesh
