import LatticeMesh.Transport.Lifecycle

/-! # When a probe gives up -/

namespace LatticeMesh.Transport.Lifecycle

open List

def Point.succeeds : Point → Bool
  | .store _ _ => true
  | _ => false

def Point.closes : Point → Bool
  | .failed _ .close | .giveUp _ => true
  | _ => false

def WindowClear (s : Pool Shared Point) (p : Point) : Prop :=
  p.succeeds = true →
    s.shared.firstFailureAt = none ∧ ∀ q ∈ s.threads, q.closes = false

instance (s : Pool Shared Point) (p : Point) : Decidable (WindowClear s p) :=
  inferInstanceAs (Decidable (_ → _ ∧ ∀ q ∈ s.threads, _))

variable {cfg : Setup} {choice : Bool} {s : Shared} {p : Point}

structure WithinStreak (s : Shared) : Prop where
  window : ∀ t, s.firstFailureAt = some t → ∃ t₀, s.streak = some t₀ ∧ t₀ ≤ t
  streak : ∀ t₀, s.streak = some t₀ → t₀ ≤ s.now

def Overdue (s : Shared) : Prop := ∃ t₀, s.streak = some t₀ ∧ t₀ + giveUpAfter ≤ s.now

theorem WithinStreak.effect (h : WithinStreak s)
    (hcle : p.succeeds = true → s.firstFailureAt = none) :
    WithinStreak (effect cfg choice s p) := by
  cases p with
  | store c k =>
    refine ⟨fun t ht => ?_, nofun⟩
    rw [show s.firstFailureAt = some t from ht] at hcle
    cases hcle rfl
  | failure e f =>
    have hst : s.streak.getD s.now ≤ s.now := by
      cases hs : s.streak with
      | none => exact le_refl _
      | some t₀ => exact h.streak t₀ hs
    refine ⟨fun t ht => ⟨_, rfl, ?_⟩, fun t₀ ht₀ => ?_⟩
    · cases f with
      | dialerClosed => cases ht
      | other =>
        obtain rfl := Option.some.inj ht
        cases hf : s.firstFailureAt with
        | none => exact hst
        | some t =>
          obtain ⟨t₀, hs, hle⟩ := h.window t hf
          rw [hs]
          exact hle
    · obtain rfl := Option.some.inj ht₀
      exact hst
  | _ => exact ⟨h.window, h.streak⟩

theorem Overdue.effect (h : Overdue s) (hp : p.succeeds = false) :
    Overdue (effect cfg choice s p) := by
  obtain ⟨t₀, hs, hle⟩ := h
  cases p with
  | store c k => cases hp
  | failure e f =>
    refine ⟨t₀, ?_, hle⟩
    simp [Lifecycle.effect, hs]
  | _ => exact ⟨t₀, hs, hle⟩

theorem overdue_of_consequence (h : WithinStreak s) {f : Failure}
    (hf : s.consequence f = .close) : Overdue s := by
  cases f with
  | dialerClosed => cases hf
  | other =>
    have hwin : giveUpAfter ≤ s.now - s.firstFailureAt.getD s.now := by
      by_contra hear
      simp [Shared.consequence, hear] at hf
    cases hfst : s.firstFailureAt with
    | none =>
      rw [hfst] at hwin
      simp [giveUpAfter] at hwin
    | some t =>
      obtain ⟨t₀, hs, hle⟩ := h.window t hfst
      rw [hfst] at hwin
      simp only [Option.getD_some, giveUpAfter] at hwin
      refine ⟨t₀, hs, ?_⟩
      unfold giveUpAfter
      omega

theorem closes_next (h : (next choice s p).closes = true) :
    p.closes = true ∨ ∃ e f, p = .failure e f ∧ s.consequence f = .close := by
  unfold next at h
  (repeat' split at h) <;> first | exact .inl h | cases h | skip
  next e f =>
    refine .inr ⟨e, f, rfl, ?_⟩
    cases hf : s.consequence f <;> rw [hf] at h <;> first | rfl | cases h

theorem closes_spawn {q : Point} (h : q ∈ spawn s p) : q.closes = false := by
  unfold spawn at h
  split at h
  · exact mem_singleton.1 h ▸ rfl
  · exact mem_singleton.1 h ▸ rfl
  · exact mem_singleton.1 h ▸ rfl
  · cases h

theorem env_streak {t : Shared} {e : Event} {new : List Point} (h : Env s e t new) :
    (t.firstFailureAt = s.firstFailureAt ∧ t.streak = s.streak ∧ s.now ≤ t.now ∧ t.sm = s.sm) ∧
      ∀ q ∈ new, q.closes = false := by
  cases h with
  | tick n => exact ⟨⟨rfl, rfl, Nat.le_add_right _ _, rfl⟩, nofun⟩
  | race hr hs ha => exact ⟨⟨rfl, rfl, le_refl _, rfl⟩, nofun⟩
  | _ => exact ⟨⟨rfl, rfl, le_refl _, rfl⟩, by simp [Point.closes]⟩

theorem giveUp_of_closed (hsm : s.sm ≠ .closed) (h : (effect cfg choice s p).sm = .closed) :
    ∃ e, p = .giveUp e := by
  have hoth : ∀ target, target ≠ .closed → s.sm.transition target ≠ .closed := by
    intro target htgt hcl
    obtain hs | ⟨ht, -⟩ := PeerState.of_transition hcl
    · exact hsm hs
    · exact htgt ht
  cases p with
  | giveUp e => exact ⟨e, rfl⟩
  | startProbing nested e => exact absurd h (hoth .probing nofun)
  | ready c k => exact absurd h (hoth k.readyState (by cases k <;> nofun))
  | failed e next | restartFailed => exact absurd h (hoth .failed nofun)
  | _ => exact absurd h hsm

/-- **A probe gives up only after a minute of failures**, in every run in which successes find the
window clear. -/
theorem gives_up_after_window {s t : Pool Shared Point} {l : Move Bool Event}
    (h : Runs cfg WindowClear s) (hs : (lifecycle cfg).Step s l t)
    (hopen : s.shared.sm ≠ .closed) (hclosed : t.shared.sm = .closed) :
    ∃ t₀, s.shared.streak = some t₀ ∧ t₀ + giveUpAfter ≤ s.shared.now := by
  have hho : Program.Holds WithinStreak (fun s p => p.closes = true → Overdue s) s := by
    refine Program.holds ?_ ?_ ?_ ?_ h
    · rintro s ⟨now, rfl⟩
      exact ⟨nofun, nofun⟩
    · intro s i c p hs hi _ hG
      have hmem := mem_of_getElem? hi
      refine ⟨hs.1.effect fun hp => (hG p hi hp).1, fun hclo => ?_, fun q hq hclo => ?_⟩
      · obtain hp | ⟨e, f, rfl, hf⟩ := closes_next hclo
        · exact (hs.2 p hmem hp).effect (by cases p <;> first | rfl | cases hp)
        · exact (overdue_of_consequence hs.1 hf).effect rfl
      · rw [closes_spawn hq] at hclo
        cases hclo
    · intro s i c p q j hs hi _ hG hji hj hclo
      have hmem := mem_of_getElem? hj
      refine (hs.2 q hmem hclo).effect ?_
      by_contra hp
      rw [(hG p hi (by simpa using hp)).2 q hmem] at hclo
      cases hclo
    intro s e t new hs he _
    obtain ⟨⟨hfst, hstr, hnow, -⟩, hnew⟩ := env_streak he
    refine ⟨⟨fun t ht => ?_, fun t₀ ht₀ => ?_⟩, fun q hq hclo => ?_, fun q hq hclo => ?_⟩
    · rw [hstr]
      exact hs.1.window t (hfst ▸ ht)
    · exact (hs.1.streak t₀ (hstr ▸ ht₀)).trans hnow
    · rw [hnew q hq] at hclo
      cases hclo
    · obtain ⟨t₀, ht₀, hle⟩ := hs.2 q hq hclo
      exact ⟨t₀, hstr.trans ht₀, hle.trans hnow⟩
  cases hs with
  | run hi _ =>
    obtain ⟨e, rfl⟩ := giveUp_of_closed hopen hclosed
    exact hho.2 _ (mem_of_getElem? hi) rfl
  | env he => exact absurd ((env_streak he).1.2.2.2.symm.trans hclosed) hopen

def failedTwice : Pool Shared Point where
  shared := { failedOnce.shared with
    epoch := 1, now := giveUpAfter, races := [(0, unreachable), (1, unreachable)] }
  threads := [.done, .done, .done, .giveUp 1]

theorem unreachable_closes : ∃ s t, Runs initiator WindowClear s ∧
    (lifecycle initiator).Step s (.run 3 true) t ∧ s.shared.sm = .failed ∧
    t.shared.sm = .closed ∧ ∃ t₀, s.shared.streak = some t₀ ∧ t₀ + giveUpAfter ≤ s.shared.now := by
  have hfai := Runs.failedOnce (Runs.racing (C := WindowClear) rfl) rfl
  have hret := Runs.retried hfai giveUpAfter rfl
  have haga : Runs initiator WindowClear failedTwice := Program.reachable_exec
    (Runs.races (d := 1) (e := 1) hret rfl races_unreachable) (steps 3 5) rfl
  have hstep : (lifecycle initiator).Step failedTwice (.run 3 true) _ :=
    .run (p := .giveUp 1) rfl (show enabled _ _ = true from rfl)
  exact ⟨_, _, haga, hstep, rfl, rfl, gives_up_after_window haga hstep (by decide) rfl⟩

def reconnected : Pool Shared Point where
  shared := { failedOnce.shared with
    sm := .relayReady, epoch := 1, currentTransport := some .relay, upgradeTimer := some 1
    races := [(0, unreachable), (1, lateIce)], readied := 1, streak := none }
  threads := [.done, .done, .done, .done]

def failedLater : Pool Shared Point where
  shared := { reconnected.shared with
    sm := .failed, epoch := 2, upgradeTimer := none, now := giveUpAfter, streak := some giveUpAfter
    races := [(0, unreachable), (1, lateIce), (2, unreachable)] }
  threads := [.done, .done, .done, .done, .done, .giveUp 2]

theorem closed_at_first_failure : ∃ s t, (lifecycle initiator).system.Reachable s ∧
    (lifecycle initiator).Step s (.run 5 true) t ∧ s.shared.sm = .failed ∧
    t.shared.sm = .closed ∧ s.shared.streak = some s.shared.now := by
  have hfai := Runs.failedOnce (Runs.racing (C := fun _ _ => True) rfl) rfl
  have hret := Runs.retried hfai 0 rfl
  have hrdy : Runs initiator (fun _ _ => True) reconnected := Program.reachable_exec
    (Runs.races (d := 1) (e := 1) hret rfl races_lateIce) (steps 3 7) rfl
  have hres := Program.reachable_exec (Program.reachable_env
    (Program.reachable_env hrdy (Env.tick giveUpAfter)) Env.restart)
    (steps 4 13 ++ steps 5 1) rfl
  have haga : Runs initiator (fun _ _ => True) failedLater := Program.reachable_exec
    (Runs.races (d := 2) (e := 2) hres rfl races_unreachable) (steps 5 5) rfl
  exact ⟨failedLater, _, haga.of_guard,
    .run (p := .giveUp 2) rfl (show enabled _ _ = true from rfl), rfl, rfl, rfl⟩

end LatticeMesh.Transport.Lifecycle
