import Mathlib.Algebra.BigOperators.Intervals
import Mathlib.Data.Set.Basic
import LatticeMesh.Lib.LTS

/-! # Behaviours and fairness -/

namespace LatticeMesh

universe u v

variable {σ : Type u} {ι : Type v}

namespace LTS

def Next (M : LTS σ ι) (s : σ) : Option ι → σ → Prop
  | none, t => t = s
  | some l, t => M.step s l t

def Enabled (M : LTS σ ι) (A : Set ι) (s : σ) : Prop := ∃ l ∈ A, ∃ t, M.step s l t

end LTS

def LTS.Path (M : LTS σ ι) : σ → List (ι × σ) → Prop
  | _, [] => True
  | s, (l, t) :: rest => M.step s l t ∧ M.Path t rest

structure Behaviour (M : LTS σ ι) where
  state : ℕ → σ
  label : ℕ → Option ι
  init : M.init (state 0)
  next : ∀ n, M.Next (state n) (label n) (state (n + 1))

def LeadsTo (P Q : ℕ → Prop) : Prop := ∀ n, P n → ∃ m, n ≤ m ∧ Q m

namespace LeadsTo

variable {P Q R E : ℕ → Prop}

theorem trans (h₁ : LeadsTo P Q) (h₂ : LeadsTo Q R) : LeadsTo P R := by
  intro n hn
  obtain ⟨m, hnm, hm⟩ := h₁ n hn
  obtain ⟨k, hmk, hk⟩ := h₂ m hm
  exact ⟨k, hnm.trans hmk, hk⟩

theorem of_succ (h : LeadsTo P fun n => Q (n + 1)) : LeadsTo P Q := by
  intro n hn
  obtain ⟨m, hnm, hm⟩ := h n hn
  exact ⟨m + 1, by omega, hm⟩

theorem kept_until (h : ∀ n, P n → P (n + 1) ∨ E n) {n m : ℕ} (hnm : n ≤ m) (hn : P n) :
    P m ∨ ∃ k, n ≤ k ∧ k < m ∧ E k := by
  induction m, hnm using Nat.le_induction with
  | base => exact .inl hn
  | succ m hnm ih =>
    rcases ih with hm | ⟨k, hnk, hkm, hk⟩
    · rcases h m hm with hm' | hq
      · exact .inl hm'
      · exact .inr ⟨m, hnm, Nat.lt_succ_self m, hq⟩
    · exact .inr ⟨k, hnk, by omega, hk⟩

theorem of_kept (hkeep : ∀ n, P n → P (n + 1) ∨ E n)
    (h : ∀ n, (∀ m, n ≤ m → P m) → ∃ m, n ≤ m ∧ E m) : LeadsTo P E := by
  intro n hn
  by_contra hnev
  push Not at hnev
  obtain ⟨m, hnm, hm⟩ := h n fun m hnm => by
    rcases kept_until hkeep hnm hn with hm | ⟨k, hnk, -, hk⟩
    · exact hm
    · exact absurd hk (hnev k hnk)
  exact hnev m hnm hm

theorem of_rank (rank : ℕ → ℕ)
    (h : ∀ r, LeadsTo (fun n => P n ∧ rank n = r) fun n => Q n ∨ P n ∧ rank n < r) :
    LeadsTo P Q := by
  have hall : ∀ r n, P n → rank n = r → ∃ m, n ≤ m ∧ Q m := by
    intro r
    induction r using Nat.strongRecOn with
    | ind r ih =>
      intro n hn hr
      obtain ⟨m, hnm, hq | ⟨hp, hlt⟩⟩ := h r n ⟨hn, hr⟩
      · exact ⟨m, hnm, hq⟩
      · obtain ⟨k, hmk, hk⟩ := ih (rank m) hlt m hp rfl
        exact ⟨k, hnm.trans hmk, hk⟩
  intro n hn
  exact hall (rank n) n hn rfl

end LeadsTo

def FirstAfter (E : ℕ → Prop) (n m : ℕ) : Prop := n < m ∧ E m ∧ ∀ k, n < k → k < m → ¬ E k

namespace FirstAfter

variable {E : ℕ → Prop} {n n' m m' : ℕ}

theorem unique (h : FirstAfter E n m) (h' : FirstAfter E n m') : m = m' := by
  rcases Nat.lt_trichotomy m m' with hlt | heq | hgt
  · exact absurd h.2.1 (h'.2.2 m h.1 hlt)
  · exact heq
  · exact absurd h'.2.1 (h.2.2 m' h'.1 hgt)

theorem exists_of (h : ∃ m, n < m ∧ E m) : ∃ m, FirstAfter E n m := by
  classical
  refine ⟨Nat.find h, (Nat.find_spec h).1, (Nat.find_spec h).2, ?_⟩
  intro k hnk hk hE
  exact Nat.find_min h hk ⟨hnk, hE⟩

theorem of_none (h : FirstAfter E n m) (hle : n' ≤ n) (hnone : ∀ k, n' < k → k ≤ n → ¬ E k) :
    FirstAfter E n' m := by
  refine ⟨by have := h.1; omega, h.2.1, ?_⟩
  intro k hk hkm
  by_cases hkn : k ≤ n
  · exact hnone k hk hkn
  · exact h.2.2 k (by omega) hkm

theorem of_lt (h : FirstAfter E n m) (hle : n ≤ n') (hlt : n' < m) : FirstAfter E n' m :=
  ⟨hlt, h.2.1, fun k hk hkm => h.2.2 k (by omega) hkm⟩

end FirstAfter

namespace Behaviour

variable {M : LTS σ ι} {A : Set ι} {P E : ℕ → Prop}

theorem step_of_label (b : Behaviour M) {n : ℕ} {l : ι} (h : b.label n = some l) :
    M.step (b.state n) l (b.state (n + 1)) := by
  have hnext := b.next n
  rwa [h] at hnext

theorem next_cases (b : Behaviour M) (n : ℕ) :
    (b.label n = none ∧ b.state (n + 1) = b.state n) ∨
      ∃ l, b.label n = some l ∧ M.step (b.state n) l (b.state (n + 1)) := by
  cases hl : b.label n with
  | none =>
    have hnext := b.next n
    rw [hl] at hnext
    exact .inl ⟨rfl, hnext⟩
  | some l => exact .inr ⟨l, rfl, b.step_of_label hl⟩

theorem invariant (b : Behaviour M) {I : σ → Prop} (h0 : ∀ s, M.init s → I s)
    (hstep : ∀ n l, b.label n = some l → M.step (b.state n) l (b.state (n + 1)) → I (b.state n) →
      I (b.state (n + 1))) (n : ℕ) : I (b.state n) := by
  induction n with
  | zero => exact h0 _ b.init
  | succ n ih =>
    rcases b.next_cases n with ⟨-, hsame⟩ | ⟨l, hl, hs⟩
    · rw [hsame]
      exact ih
    · exact hstep n l hl hs ih

theorem reachable (b : Behaviour M) (n : ℕ) : M.Reachable (b.state n) :=
  b.invariant (fun _ h => .init h) (fun _ _ _ hs h => h.step hs) n

variable {G : σ → ι → Prop}

theorem reachable_guard (b : Behaviour M) (h : ∀ n l, b.label n = some l → G (b.state n) l) (n : ℕ) :
    (M.guard G).Reachable (b.state n) :=
  b.invariant (fun _ hinit => .init hinit) (fun n l hl hs hr => hr.step ⟨h n l hl, hs⟩) n

def pathState (s : σ) : List (ι × σ) → ℕ → σ
  | [], _ => s
  | _, 0 => s
  | (_, t) :: rest, n + 1 => pathState t rest n

def ofPath {s : σ} (h : M.init s) {p : List (ι × σ)} (hp : M.Path s p) : Behaviour M where
  state := pathState s p
  label n := p[n]?.map Prod.fst
  init := by
    cases p <;> exact h
  next := by
    clear h
    intro n
    induction p generalizing s n with
    | nil => rfl
    | cons e rest ih =>
      obtain ⟨l, t⟩ := e
      cases n with
      | zero =>
        have hzero : pathState t rest 0 = t := by cases rest <;> rfl
        change M.step s l (pathState t rest 0)
        rw [hzero]
        exact hp.1
      | succ n => exact ih hp.2 n

theorem pathState_of_le {s : σ} {p : List (ι × σ)} {n : ℕ} (hn : p.length ≤ n) :
    pathState s p n = pathState s p p.length := by
  induction p generalizing s n with
  | nil => rfl
  | cons e rest ih =>
    cases n with
    | zero => cases hn
    | succ n => exact ih (Nat.le_of_succ_le_succ hn)

def upTo (b : Behaviour M) (N : ℕ) {l : Option ι} {t : σ} (h : M.Next (b.state N) l t) :
    Behaviour M where
  state n := if n ≤ N then b.state n else t
  label n := if n < N then b.label n else if n = N then l else none
  init := by
    rw [if_pos (Nat.zero_le N)]
    exact b.init
  next n := by
    rcases Nat.lt_trichotomy n N with hlt | rfl | hgt
    · rw [if_pos hlt, if_pos hlt.le, if_pos (Nat.succ_le_of_lt hlt)]
      exact b.next n
    · rw [if_neg (lt_irrefl n), if_pos rfl, if_pos le_rfl, if_neg (by omega)]
      exact h
    · rw [if_neg (by omega), if_neg (by omega), if_neg (by omega), if_neg (by omega)]
      rfl

theorem exists_of_steps (b : Behaviour M) (N : ℕ) {t : σ} (h : (M.guard G).Steps (b.state N) t) :
    ∃ (b' : Behaviour M) (N' : ℕ), N ≤ N' ∧
      (∀ n, n ≤ N → b'.state n = b.state n) ∧ (∀ n, n < N → b'.label n = b.label n) ∧
      (∀ n, N ≤ n → n < N' → ∃ l, b'.label n = some l ∧ G (b'.state n) l) ∧
      ∀ n, N' ≤ n → b'.state n = t ∧ b'.label n = none := by
  induction h with
  | refl =>
    refine ⟨b.upTo N (l := none) rfl, N, le_rfl, fun n hn => if_pos hn, fun n hn => if_pos hn,
      fun n hn hlt => absurd hn (Nat.not_le_of_lt hlt), fun n hn => ⟨?_, ?_⟩⟩
    · unfold upTo
      rcases hn.eq_or_lt with rfl | hlt
      · exact if_pos le_rfl
      · exact if_neg (Nat.not_le_of_lt hlt)
    · unfold upTo
      simp only [if_neg (Nat.not_lt_of_le hn), ite_self]
  | @tail t u _ hlast ih =>
    obtain ⟨b', N', hle, hsta, hlab, hrun, hend⟩ := ih
    obtain ⟨l, hG, hstep⟩ := hlast
    have hat : b'.state N' = t := (hend N' le_rfl).1
    have hnext : M.Next (b'.state N') (some l) u := hat ▸ hstep
    refine ⟨b'.upTo N' hnext, N' + 1, by omega, ?_, ?_, ?_, ?_⟩
    · exact fun n hn => (if_pos (hn.trans hle)).trans (hsta n hn)
    · exact fun n hn => (if_pos (hn.trans_le hle)).trans (hlab n hn)
    · intro n hn hlt
      unfold upTo
      simp only [if_pos (Nat.le_of_lt_succ hlt)]
      rcases (Nat.le_of_lt_succ hlt).eq_or_lt with rfl | hlt'
      · exact ⟨l, by rw [if_neg (lt_irrefl n), if_pos rfl], hat ▸ hG⟩
      · rw [if_pos hlt']
        exact hrun n hn hlt'
    intro n hn
    unfold upTo
    exact ⟨if_neg (by omega), (if_neg (by omega)).trans (if_neg (by omega))⟩

theorem exists_of_reachable {s : σ} (h : (M.guard G).Reachable s) :
    ∃ (b : Behaviour M) (N : ℕ), b.state N = s ∧
      ∀ n l, b.label n = some l → G (b.state n) l := by
  obtain ⟨s₀, hinit, hste⟩ := h.steps
  let b₀ : Behaviour M := ⟨fun _ => s₀, fun _ => none, hinit, fun _ => rfl⟩
  obtain ⟨b, N, -, -, -, hrun, hend⟩ := b₀.exists_of_steps 0 hste
  refine ⟨b, N, (hend N le_rfl).1, fun n l hl => ?_⟩
  by_cases hn : n < N
  · obtain ⟨l', hl', hG⟩ := hrun n (Nat.zero_le n) hn
    rw [hl] at hl'
    cases hl'
    exact hG
  · rw [(hend n (Nat.le_of_not_lt hn)).2] at hl
    cases hl

def total (b : Behaviour M) (f : σ → ι → ℕ) (m n : ℕ) : ℕ :=
  ∑ k ∈ Finset.Ico m n, (b.label k).elim 0 (f (b.state k))

theorem total_add (b : Behaviour M) (f g : σ → ι → ℕ) (m n : ℕ) :
    b.total (fun s l => f s l + g s l) m n = b.total f m n + b.total g m n := by
  unfold total
  rw [← Finset.sum_add_distrib]
  apply Finset.sum_congr rfl
  intro k _
  cases b.label k <;> rfl

theorem account (b : Behaviour M) (φ : σ → ℕ) (out inn : σ → ι → ℕ)
    (hstep : ∀ s l t, M.Reachable s → M.step s l t → φ t + out s l ≤ φ s + inn s l) {m n : ℕ}
    (hmn : m ≤ n) :
    φ (b.state n) + b.total out m n ≤ φ (b.state m) + b.total inn m n := by
  induction n, hmn using Nat.le_induction with
  | base => simp [total]
  | succ n hmn ih =>
    have hone : φ (b.state (n + 1)) + (b.label n).elim 0 (out (b.state n)) ≤
        φ (b.state n) + (b.label n).elim 0 (inn (b.state n)) := by
      rcases b.next_cases n with ⟨hl, hsame⟩ | ⟨l, hl, hs⟩
      · rw [hl, hsame]
        exact le_rfl
      · rw [hl]
        exact hstep _ l _ (b.reachable n) hs
    unfold total at ih ⊢
    rw [Finset.sum_Ico_succ_top hmn, Finset.sum_Ico_succ_top hmn]
    omega

def Takes (b : Behaviour M) (A : Set ι) (n : ℕ) : Prop := ∃ l ∈ A, b.label n = some l

def WeaklyFair (b : Behaviour M) (A : Set ι) : Prop :=
  ∀ n, (∀ m, n ≤ m → M.Enabled A (b.state m)) → ∃ m, n ≤ m ∧ b.Takes A m

def StronglyFair (b : Behaviour M) (A : Set ι) : Prop :=
  ∀ n, (∀ m, n ≤ m → ∃ k, m ≤ k ∧ M.Enabled A (b.state k)) → ∃ m, n ≤ m ∧ b.Takes A m

variable {b : Behaviour M}

theorem StronglyFair.of_end {N : ℕ} (h : ∀ n, N ≤ n → ¬ M.Enabled A (b.state n)) :
    b.StronglyFair A := by
  intro n hen
  obtain ⟨k, hk, hena⟩ := hen (max n N) (le_max_left ..)
  exact absurd hena (h k ((le_max_right ..).trans hk))

theorem WeaklyFair.of_end {N : ℕ} (h : ∀ n, N ≤ n → ¬ M.Enabled A (b.state n)) :
    b.WeaklyFair A := by
  intro n hen
  exact absurd (hen (max n N) (le_max_left ..)) (h _ (le_max_right ..))

theorem StronglyFair.leadsTo (hf : b.StronglyFair A) (hkeep : ∀ n, P n → P (n + 1) ∨ E n)
    (hact : ∀ n, P n → b.Takes A n → E n) (hen : LeadsTo P fun n => M.Enabled A (b.state n) ∨ E n) :
    LeadsTo P E := by
  apply LeadsTo.of_kept hkeep
  intro n hP
  by_contra hnev
  push Not at hnev
  have hena : ∀ m, n ≤ m → ∃ k, m ≤ k ∧ M.Enabled A (b.state k) := by
    intro m hnm
    obtain ⟨k, hmk, hk | hq⟩ := hen m (hP m hnm)
    · exact ⟨k, hmk, hk⟩
    · exact absurd hq (hnev k (hnm.trans hmk))
  obtain ⟨m, hnm, htak⟩ := hf n hena
  exact hnev m hnm (hact m (hP m hnm) htak)

theorem WeaklyFair.leadsTo (hf : b.WeaklyFair A) (hkeep : ∀ n, P n → P (n + 1) ∨ E n)
    (hact : ∀ n, P n → b.Takes A n → E n) (hen : ∀ n, P n → M.Enabled A (b.state n)) :
    LeadsTo P E := by
  apply LeadsTo.of_kept hkeep
  intro n hP
  obtain ⟨m, hnm, htak⟩ := hf n fun m hnm => hen m (hP m hnm)
  exact ⟨m, hnm, hact m (hP m hnm) htak⟩

end Behaviour

end LatticeMesh
