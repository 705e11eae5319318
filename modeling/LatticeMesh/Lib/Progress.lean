import LatticeMesh.Lib.Behaviour
import LatticeMesh.Lib.Inevitable
import LatticeMesh.Lib.Threads

/-! # Progress of threads -/

namespace LatticeMesh.Program

universe u v w x

variable {σ : Type u} {π : Type v} {χ : Type w} {ε : Type x} {M : Program σ π χ ε}

def steps (i : ℕ) : Set (Move χ ε) := {l | ∃ c, l = .run i c}

variable {s : Pool σ π}

theorem enabled_steps [Nonempty χ] {i : ℕ} {p : π} (hi : s.threads[i]? = some p)
    (h : M.enabled s.shared p) : M.system.Enabled (steps i) s := by
  obtain ⟨c⟩ := ‹Nonempty χ›
  exact ⟨.run i c, ⟨c, rfl⟩, _, .run hi h⟩

section

variable {b : Behaviour M.system} {i n : ℕ} {p : π}

def Moves (b : Behaviour M.system) (i : ℕ) (p : π) (n : ℕ) : Prop :=
  (b.state n).threads[i]? = some p ∧ M.enabled (b.state n).shared p ∧
    ∃ c, b.label n = some (.run i c) ∧ b.state (n + 1) = M.after (b.state n) i c p

theorem moves_of_takes (hi : (b.state n).threads[i]? = some p) (h : b.Takes (steps i) n) :
    Moves b i p n := by
  obtain ⟨_, ⟨c, rfl⟩, hl⟩ := h
  have hstep := b.step_of_label hl
  generalize ht : b.state (n + 1) = t at hstep
  cases hstep with
  | run hi' hen =>
    cases hi.symm.trans hi'
    exact ⟨hi, hen, c, hl, ht⟩

theorem stays_or_moves (hi : (b.state n).threads[i]? = some p) :
    (b.state (n + 1)).threads[i]? = some p ∨ Moves b i p n := by
  obtain ⟨-, hsame⟩ | ⟨l, hl, hstep⟩ := b.next_cases n
  · exact .inl (hsame ▸ hi)
  by_cases htak : l ∈ steps i
  · exact .inr (moves_of_takes hi ⟨l, htak, hl⟩)
  refine .inl ?_
  generalize b.state (n + 1) = t at hstep
  cases hstep with
  | @run j c q hj hen =>
    refine getElem?_after_ne ?_ hi
    rintro rfl
    exact htak ⟨c, rfl⟩
  | env h =>
    obtain ⟨hlt, -⟩ := List.getElem?_eq_some_iff.1 hi
    rw [List.getElem?_append_left hlt]
    exact hi

theorem progress [Nonempty χ] (hfair : b.StronglyFair (steps i))
    (hi : (b.state n).threads[i]? = some p)
    (hen : ∀ m, n ≤ m → (b.state m).threads[i]? = some p →
      ∃ k, m ≤ k ∧ M.enabled (b.state k).shared p) :
    ∃ m, n ≤ m ∧ Moves b i p m := by
  let P (m : ℕ) : Prop := n ≤ m ∧ (b.state m).threads[i]? = some p
  have hkeep : ∀ m, P m → P (m + 1) ∨ Moves b i p m := fun m ⟨hm, hp⟩ =>
    (stays_or_moves hp).imp (fun hp' => ⟨by omega, hp'⟩) id
  refine hfair.leadsTo hkeep (fun m hp => moves_of_takes hp.2) (fun m hp => ?_) n ⟨le_rfl, hi⟩
  obtain ⟨k, hmk, hk⟩ := hen m hp.1 hp.2
  obtain ⟨-, hpk⟩ | ⟨k', hmk', -, hmov⟩ := LeadsTo.kept_until hkeep hmk hp
  · exact ⟨k, hmk, .inl (enabled_steps hpk hk)⟩
  · exact ⟨k', hmk', .inr hmov⟩

theorem progress_of_rank [Nonempty χ] (hfair : b.StronglyFair (steps i)) (rank : π → ℕ)
    {I : π → Prop} {E : ℕ → Prop}
    (hen : ∀ m p, n ≤ m → (b.state m).threads[i]? = some p → I p →
      ∃ k, m ≤ k ∧ M.enabled (b.state k).shared p)
    (hmove : ∀ m p c, n ≤ m → (b.state m).threads[i]? = some p → I p →
      M.enabled (b.state m).shared p → b.label m = some (.run i c) →
      b.state (m + 1) = M.after (b.state m) i c p →
      E (m + 1) ∨ I (M.next c (b.state m).shared p) ∧
        rank (M.next c (b.state m).shared p) < rank p)
    (hi : (b.state n).threads[i]? = some p) (hp : I p) : ∃ m, n ≤ m ∧ E m := by
  induction hr : rank p using Nat.strongRecOn generalizing n p with
  | ind r ih =>
    obtain ⟨m, hnm, hi', hm, c, hl, haft⟩ :=
      progress hfair hi fun m hnm hi' => hen m p hnm hi' hp
    obtain hE | ⟨hI, hlt⟩ := hmove m p c hnm hi' hp hm hl haft
    · exact ⟨m + 1, by omega, hE⟩
    have hnext := getElem?_after_self (M := M) (c := c) hi'
    rw [← haft] at hnext
    obtain ⟨k, hk, hE⟩ := ih _ (hr ▸ hlt) (fun k q hk => hen k q (by omega))
      (fun k q c hk => hmove k q c (by omega)) hnext hI rfl
    exact ⟨k, by omega, hE⟩

end

variable (M) in
def Own (i : ℕ) (s t : Pool σ π) : Prop := ∃ c, M.Step s (.run i c) t

variable (M) in
def Others (i : ℕ) (s t : Pool σ π) : Prop := ∃ l, (∀ c, l ≠ .run i c) ∧ M.Step s l t

theorem getElem?_others {i : ℕ} {t : Pool σ π} {p : π} (hi : s.threads[i]? = some p)
    (h : M.Others i s t) : t.threads[i]? = some p := by
  obtain ⟨l, hl, hstep⟩ := h
  cases hstep with
  | @run j c q hj hen =>
    refine getElem?_after_ne ?_ hi
    rintro rfl
    exact hl c rfl
  | env h =>
    obtain ⟨hlt, -⟩ := List.getElem?_eq_some_iff.1 hi
    rw [List.getElem?_append_left hlt]
    exact hi

theorem inevitable_of_rank [Nonempty χ] {I Q : π → Prop} (rank : π → ℕ)
    (hen : ∀ s p, I p → M.enabled s p)
    (hstep : ∀ c s p, I p → Q (M.next c s p) ∨ I (M.next c s p) ∧ rank (M.next c s p) < rank p)
    {i : ℕ} {p : π} (hi : s.threads[i]? = some p) (hp : I p) :
    Inevitable (M.Own i) (M.Others i) (fun t => ∃ q, t.threads[i]? = some q ∧ Q q) s := by
  refine Inevitable.of_rank (fun t => (t.threads[i]?.map rank).getD 0)
    (I := fun t => ∃ q, t.threads[i]? = some q ∧ I q) ?_ ?_ ⟨p, hi, hp⟩
  · rintro s t ⟨p, hi, hp⟩ hoth
    have hi' := getElem?_others hi hoth
    refine ⟨⟨p, hi', hp⟩, by rw [hi, hi'], ?_⟩
    rintro ⟨q, hq, hQ⟩
    exact ⟨q, hi.trans (hi'.symm.trans hq), hQ⟩
  rintro s ⟨p, hi, hp⟩ -
  obtain ⟨c⟩ := ‹Nonempty χ›
  refine ⟨⟨_, c, .run hi (hen s.shared p hp)⟩, ?_⟩
  rintro t ⟨c, hstep'⟩
  cases hstep' with
  | run hi' _ =>
    cases hi.symm.trans hi'
    have hnext := getElem?_after_self (M := M) (c := c) hi
    obtain hQ | ⟨hI, hlt⟩ := hstep c s.shared p hp
    · exact .inl ⟨_, hnext, hQ⟩
    refine .inr ⟨⟨_, hnext, hI⟩, ?_⟩
    rw [hnext, hi]
    exact hlt

theorem exists_behaviour [∀ s p, Decidable (M.enabled s p)] {C : Pool σ π → π → Prop}
    {I : Pool σ π → Prop} [∀ s p, Decidable (C s p ∧ I s)] {Q : Pool σ π → Prop} [DecidablePred Q]
    (h : (M.system.guard (onlyIf C)).Reachable s) (moves : List (Nat × χ))
    (hQ : (M.exec (fun s p => C s p ∧ I s) s moves).any (fun t => decide (Q t)) = true)
    (hI : ∀ t, Q t → I t) (hend : ∀ t, Q t → ∀ p ∈ t.threads, ¬ M.enabled t.shared p) :
    ∃ (b : Behaviour M.system) (n N : ℕ), b.state n = s ∧ n ≤ N ∧
      (∀ i, b.StronglyFair (steps i)) ∧ (∀ m l, b.label m = some l → onlyIf C (b.state m) l) ∧
      (∀ m, n ≤ m → I (b.state m)) ∧ ∀ m, N ≤ m → Q (b.state m) := by
  obtain ⟨t, ht, hQt⟩ := exists_exec hQ
  obtain ⟨b₀, n, hn, hb₀⟩ := Behaviour.exists_of_reachable h
  have hste := steps_exec (M := M) (G := fun s l => onlyIf C s l ∧ I s)
    (fun _ _ _ _ hi hp => ⟨onlyIf_run hi hp.1, hp.2⟩) moves ht
  obtain ⟨b, N, hnN, hsta, hlab, hrun, haft⟩ := b₀.exists_of_steps n (hn.symm ▸ hste)
  refine ⟨b, n, N, (hsta n le_rfl).trans hn, hnN, fun i => ?_, fun m l hl => ?_, fun m hm => ?_,
    fun m hm => (haft m hm).1 ▸ hQt⟩
  · refine .of_end (N := N) fun m hm => ?_
    rintro ⟨_, ⟨c, rfl⟩, t', hstep⟩
    rw [(haft m hm).1] at hstep
    cases hstep with
    | run hi hen => exact hend t hQt _ (List.mem_of_getElem? hi) hen
  · rcases Nat.lt_or_ge m n with hlt | hge
    · rw [hsta m hlt.le]
      exact hb₀ m l (hlab m hlt ▸ hl)
    rcases Nat.lt_or_ge m N with hlt | hgeN
    · obtain ⟨l', hl', hG, -⟩ := hrun m hge hlt
      cases hl.symm.trans hl'
      exact hG
    · rw [(haft m hgeN).2] at hl
      cases hl
  rcases Nat.lt_or_ge m N with hlt | hge
  · obtain ⟨-, -, -, hm⟩ := hrun m hm hlt
    exact hm
  · rw [(haft m hge).1]
    exact hI t hQt

end LatticeMesh.Program
