import LatticeMesh.Transport.Lifecycle

/-! # Shadow sessions -/

namespace LatticeMesh.Transport.Lifecycle

open List Program

def Point.live (s : Shared) : Point → Bool
  | .shadowDial a _ => a ∉ s.cancelled
  | _ => false

def Point.unreported : Point → Bool
  | .shadowDial _ _ | .shadowDone _ _ => true
  | _ => false

def Point.adopts : Point → Bool
  | .adopt _ => true
  | _ => false

def Point.cancelsShadow : Point → Bool
  | .restartShadow _ | .closeShadow => true
  | _ => false

def OneByOne (s : Pool Shared Point) (p : Point) : Prop :=
  p.adopts = true → s.shared.shadow = none ∧ ∀ q ∈ s.threads, q.unreported = false

instance (s : Pool Shared Point) (p : Point) : Decidable (OneByOne s p) :=
  inferInstanceAs (Decidable (_ → _ ∧ ∀ q ∈ s.threads, _))

variable {cfg : Setup} {choice : Bool}

theorem unreported_next {s : Shared} {p : Point} (hado : p.adopts = false)
    (h : (next choice s p).unreported = true) : p.unreported = true := by
  unfold next at h
  (repeat' split at h) <;> first | exact h | (cases hado; done) | cases h

theorem unreported_spawn {s : Shared} {p q : Point} (h : q ∈ spawn s p) : q.unreported = false := by
  unfold spawn at h
  split at h
  · exact mem_singleton.1 h ▸ rfl
  · exact mem_singleton.1 h ▸ rfl
  · exact mem_singleton.1 h ▸ rfl
  · cases h

theorem env_shadow {s t : Shared} {e : Event} {new : List Point} (h : Env s e t new) :
    t.shadow = s.shadow ∧ t.cancelled = s.cancelled ∧ ∀ q ∈ new, q.unreported = false := by
  cases h <;> exact ⟨rfl, rfl, by simp [Point.unreported]⟩

theorem next_shadowDial {s : Shared} {p : Point} {a : ℕ} {e : Option ℕ}
    (h : next choice s p = .shadowDial a e) : p = .adopt e ∧ s.shadow = none ∧ s.attempts = a := by
  unfold next at h
  (repeat' split at h) <;> cases h
  next hnone => exact ⟨rfl, hnone, rfl⟩

theorem cancelled_effect {s : Shared} {p : Point} (h : p.cancelsShadow = false) :
    (effect cfg choice s p).cancelled = s.cancelled := by
  cases p with
  | restartShadow t => cases h
  | closeShadow => cases h
  | _ => rfl

structure OneShadow (s : Pool Shared Point) : Prop where
  count : s.threads.countP Point.unreported ≤ 1
  attached : ∀ a e, .shadowDial a e ∈ s.threads → a ∉ s.shared.cancelled →
    s.shared.shadow = some a

namespace OneShadow

variable {s : Pool Shared Point} {i : ℕ} {p : Point}

theorem count_after (h : OneShadow s) (hi : s.threads[i]? = some p) (hone : OneByOne s p) :
    ((lifecycle cfg).after s i choice p).threads.countP Point.unreported ≤ 1 := by
  have hcnt := countP_after (M := lifecycle cfg) (c := choice) hi Point.unreported
  have hspa : ((lifecycle cfg).spawn choice s.shared p).countP Point.unreported = 0 :=
    countP_eq_zero.2 fun q hq => by rw [unreported_spawn hq]; exact Bool.false_ne_true
  have hnext := Bool.toNat_le ((lifecycle cfg).next choice s.shared p).unreported
  cases hado : p.adopts with
  | true =>
    have hnone : s.threads.countP Point.unreported = 0 :=
      countP_eq_zero.2 fun q hq => by rw [(hone hado).2 q hq]; exact Bool.false_ne_true
    omega
  | false =>
    have hle : ((lifecycle cfg).next choice s.shared p).unreported.toNat ≤ p.unreported.toNat := by
      cases hn : ((lifecycle cfg).next choice s.shared p).unreported with
      | false => exact Nat.zero_le _
      | true => rw [unreported_next hado hn]
    have := h.count
    omega

theorem attached_other (h : OneShadow s) (hi : s.threads[i]? = some p) (hone : OneByOne s p)
    {j a : ℕ} {e : Option ℕ} (hj : s.threads[j]? = some (.shadowDial a e)) (hji : j ≠ i)
    (ha : a ∉ (effect cfg choice s.shared p).cancelled) :
    (effect cfg choice s.shared p).shadow = some a := by
  have hmem := mem_of_getElem? hj
  have hkept : (effect cfg choice s.shared p).shadow = s.shared.shadow ∧
      (effect cfg choice s.shared p).cancelled = s.shared.cancelled →
      (effect cfg choice s.shared p).shadow = some a := by
    rintro ⟨hsha, hcan⟩
    exact hsha.trans (h.attached a e hmem (hcan ▸ ha))
  have hcanc : s.shared.cancelShadow.cancelled = (effect cfg choice s.shared p).cancelled →
      (effect cfg choice s.shared p).shadow = some a := by
    intro hcan
    rw [← hcan] at ha
    have hatt := h.attached a e hmem fun hin => ha (mem_append_right _ hin)
    exact absurd (mem_append_left _ (by simp [hatt])) ha
  cases p with
  | adopt e =>
    cases (hone rfl).2 _ hmem
  | shadowDone e ok =>
    have := two_le_countP (f := Point.unreported) hi hj hji rfl rfl
    have := h.count
    omega
  | restartShadow t => exact hcanc rfl
  | closeShadow => exact hcanc rfl
  | _ => exact hkept ⟨rfl, rfl⟩

theorem run (h : OneShadow s) (hi : s.threads[i]? = some p) (hone : OneByOne s p) :
    OneShadow ((lifecycle cfg).after s i choice p) := by
  refine ⟨h.count_after hi hone, fun a e hmem ha => ?_⟩
  obtain hnext | hspa | ⟨j, hji, hj⟩ := mem_after hmem
  · obtain ⟨rfl, hnone, rfl⟩ := next_shadowDial hnext.symm
    change some (s.shared.shadow.getD s.shared.attempts) = _
    rw [hnone]
    rfl
  · cases unreported_spawn hspa
  · exact h.attached_other hi hone hj hji ha

theorem step {t : Pool Shared Point} {l : Move Bool Event} (h : OneShadow s)
    (hl : Program.onlyIf OneByOne s l) (hs : (lifecycle cfg).Step s l t) : OneShadow t := by
  cases hs with
  | run hi _ => exact h.run hi (hl _ hi)
  | env he =>
    obtain ⟨hsha, hcan, hnew⟩ := env_shadow he
    refine ⟨?_, fun a e hmem ha => ?_⟩
    · have hzero : List.countP Point.unreported _ = 0 :=
        countP_eq_zero.2 fun q hq => by rw [hnew q hq]; exact Bool.false_ne_true
      rw [countP_append, hzero]
      exact h.count
    obtain hmem | hmem := mem_append.1 hmem
    · exact hsha.trans (h.attached a e hmem (hcan ▸ ha))
    · cases hnew _ hmem

end OneShadow

/-- **One shadow session at a time**, in every run in which sessions are adopted one by one. -/
theorem single_shadow {s : Pool Shared Point} (h : Runs cfg OneByOne s) :
    s.threads.countP (Point.live s.shared) ≤ 1 ∧
      (∀ a e, .shadowDial a e ∈ s.threads → a ∉ s.shared.cancelled → s.shared.shadow = some a) ∧
      ∀ i c p, s.threads[i]? = some p → OneByOne s p → p.cancelsShadow = false →
        ∀ j a e, j ≠ i → s.threads[j]? = some (.shadowDial a e) → a ∉ s.shared.cancelled →
          a ∉ ((lifecycle cfg).after s i c p).shared.cancelled ∧
            ((lifecycle cfg).after s i c p).shared.shadow = some a := by
  have hs : OneShadow s := by
    refine LTS.Reachable.invariant (I := OneShadow) ?_ ?_ h
    · rintro s ⟨-, hnone⟩
      rw [show s = ⟨s.shared, []⟩ from hnone ▸ rfl]
      exact ⟨Nat.zero_le _, nofun⟩
    · rintro s l t - hs ⟨hl, hstep⟩
      exact hs.step hl hstep
  refine ⟨(countP_mono_left fun q _ hq => ?_).trans hs.count, hs.attached, ?_⟩
  · cases q <;> first | rfl | cases hq
  intro i c p hi hone hcan j a e hji hj ha
  have hcanc : ((lifecycle cfg).after s i c p).shared.cancelled = s.shared.cancelled :=
    cancelled_effect hcan
  rw [hcanc]
  refine ⟨ha, hs.attached_other hi hone hj hji ?_⟩
  rw [cancelled_effect hcan]
  exact ha

def relayed : Pool Shared Point where
  shared := { racing.shared with
    sm := .relayReady, running := false, currentTransport := some .relay, upgradeTimer := some 0
    races := [(0, lateIce)], readied := 1 }
  threads := [.done, .done]

theorem Runs.relayed {C : Pool Shared Point → Point → Prop} [∀ s p, Decidable (C s p)]
    (h : Runs initiator C Lifecycle.racing)
    (hexec : (lifecycle initiator).exec C ⟨{ Lifecycle.racing.shared with races := [(0, lateIce)] },
      Lifecycle.racing.threads⟩ (steps 1 7) = some Lifecycle.relayed) :
    Runs initiator C Lifecycle.relayed :=
  Program.reachable_exec (Runs.races (d := 0) (e := 0) h rfl races_lateIce) (steps 1 7) hexec

theorem syn_opens_shadow : ∃ s, Runs initiator OneByOne s ∧ .shadowDial 0 none ∈ s.threads ∧
    s.threads.countP (Point.live s.shared) ≤ 1 ∧ s.shared.shadow = some 0 := by
  have hrel := Runs.relayed (Runs.racing (C := OneByOne) rfl) rfl
  have hope := Program.reachable_exec
    (reachable_env hrel (Env.upgradeSyn rfl rfl rfl rfl)) (steps 2 1) rfl
  obtain ⟨hcnt, hatt, -⟩ := single_shadow hope
  suffices hmem : Point.shadowDial 0 none ∈ _ from
    ⟨_, hope, hmem, hcnt, hatt 0 none hmem (by decide)⟩
  decide

theorem duplicate_detaches : ∃ s t, (lifecycle initiator).system.Reachable s ∧
    .shadowDial 0 none ∈ s.threads ∧ 0 ∉ s.shared.cancelled ∧ s.shared.shadow = none ∧
    (lifecycle initiator).system.Reachable t ∧ t.threads.countP (Point.live t.shared) = 2 := by
  have hrel := Runs.relayed (Runs.racing (C := fun _ _ => True) rfl) rfl
  have hsyns := reachable_env
    (reachable_env hrel (Env.upgradeSyn rfl rfl rfl rfl))
    (Env.upgradeSyn rfl rfl rfl rfl)
  have hdet := Program.reachable_exec hsyns (steps 2 1 ++ steps 3 2) rfl
  have hsec := Program.reachable_exec
    (reachable_env hdet (Env.upgradeSyn rfl rfl rfl rfl)) (steps 4 1) rfl
  exact ⟨_, _, hdet.of_guard, by decide, by decide, rfl, hsec.of_guard, by decide⟩

end LatticeMesh.Transport.Lifecycle
