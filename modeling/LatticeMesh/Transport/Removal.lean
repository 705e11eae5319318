import LatticeMesh.Transport.Lifecycle

/-! # After a probe is removed -/

namespace LatticeMesh.Transport.Lifecycle

open List

def Point.configures : Point → Bool
  | .ready _ _ | .reassertWrite _ _ | .receive => true
  | _ => false

def Point.arms : Point → Bool
  | .arm _ _ | .watch _ _ | .retryArm _ | .tryUpgradeSignal _ | .schedule | .adopt _ => true
  | _ => false

def Point.inert (s : Shared) : Point → Bool
  | .settle _ _ | .store _ _ | .ready _ _ | .arm _ _ | .watch _ _ | .failure _ _ => false
  | .failed _ next => next ≠ .retry
  | .retryArm _ | .tryUpgradeSignal _ | .adopt _ | .schedule | .reassertWrite _ _ | .receive => false
  | .await _ e | .check e _ => e < s.epoch
  | .tryUpgrade e => e < s.epoch ∨ s.sm ≠ .relayReady
  | .shadowDial a _ => a ∈ s.cancelled ∨ s.sm ≠ .relayReady
  | .shadowDone _ ok | .shadowEpoch _ ok => ok = false ∨ s.sm ≠ .relayReady
  | .tryUpgradeState _ | .shadowState _ | .rearmState => s.sm ≠ .relayReady
  | .guard e _ => e < s.epoch ∨ s.sm ≠ .iceReady
  | .guardState _ _ | .reassert _ _ => s.sm ≠ .iceReady
  | _ => true

section

-- the equations are derived once, before the proofs
attribute [local simp] Point.inert

end

def Drained (s : Pool Shared Point) (p : Point) : Prop :=
  p = .closeReturn → (∀ q ∈ s.threads, q.inert s.shared = true) ∧
    s.shared.upgradeTimer = none ∧ ∀ x ∈ s.shared.races, x.2.claimable = false

instance (s : Pool Shared Point) (p : Point) : Decidable (Drained s p) :=
  inferInstanceAs (Decidable (_ → (∀ q ∈ s.threads, _) ∧ _ ∧ ∀ x ∈ s.shared.races, _))

variable {cfg : Setup} {choice : Bool} {s t : Shared} {p q : Point}

structure Later (s t : Shared) : Prop where
  epoch : s.epoch ≤ t.epoch
  cancelled : ∀ a ∈ s.cancelled, a ∈ t.cancelled
  sm : ∀ k : TransportType, t.sm = k.readyState → s.sm = k.readyState

theorem Later.inert (h : Later s t) (hq : q.inert s = true) : q.inert t = true := by
  have hepo : ∀ {e : ℕ}, e < s.epoch → e < t.epoch := fun he => he.trans_le h.epoch
  have hrel : s.sm ≠ .relayReady → t.sm ≠ .relayReady := mt (h.sm .relay)
  have hice : s.sm ≠ .iceReady → t.sm ≠ .iceReady := mt (h.sm .ice)
  cases q with
  | await d e | check e o => exact decide_eq_true (hepo (of_decide_eq_true hq))
  | tryUpgrade e => exact decide_eq_true ((of_decide_eq_true hq).imp hepo hrel)
  | shadowDial a e => exact decide_eq_true ((of_decide_eq_true hq).imp (h.cancelled a) hrel)
  | shadowDone e ok | shadowEpoch e ok =>
    exact decide_eq_true ((of_decide_eq_true hq).imp_right hrel)
  | tryUpgradeState e | shadowState e | rearmState =>
    exact decide_eq_true (hrel (of_decide_eq_true hq))
  | guard e n => exact decide_eq_true ((of_decide_eq_true hq).imp hepo hice)
  | guardState e n | reassert e n => exact decide_eq_true (hice (of_decide_eq_true hq))
  | _ => exact hq

theorem Later.effect (hp : ∀ c k, p ≠ .ready c k) : Later s (effect cfg choice s p) where
  epoch := by
    cases p with
    | restartEpoch t => exact Nat.le_succ _
    | _ => exact le_refl _
  cancelled := by
    intro a ha
    cases p with
    | restartShadow t | closeShadow => exact mem_append_right _ ha
    | _ => exact ha
  sm k hk := sm_of_effect hp hk

theorem not_ready_of_inert (h : p.inert s = true) (c : Caller) (k : TransportType) :
    p ≠ .ready c k := by
  rintro rfl
  cases h

structure Removed (s : Shared) : Prop where
  closing : s.closing = true
  dialers : s.dialers = false
  newShadow : s.newShadow = false
  upgradeTimer : s.upgradeTimer = none
  races : ∀ x ∈ s.races, x.2.claimable = false

theorem Removed.effect (h : Removed s) (hen : enabled s p = true) (hp : p.inert s = true) :
    Removed (effect cfg choice s p) := by
  cases p with
  | discover e => cases h.dialers.symm.trans hen
  | arm c k => cases hp
  | tryUpgradeSignal e => cases hp
  | schedule => cases hp
  | upgraded d =>
    refine ⟨h.closing, h.dialers, h.newShadow, h.upgradeTimer, fun x hx => ?_⟩
    obtain ⟨y, hy, -, -, hc⟩ := mem_finishUpgrade hx
    rw [h.races y hy] at hc
    exact Bool.eq_false_of_not_eq_true fun hx => Bool.noConfusion (hc hx)
  | restartStop t | closeUpgrade => exact ⟨h.closing, h.dialers, h.newShadow, rfl, h.races⟩
  | closeNewShadow => exact ⟨h.closing, h.dialers, rfl, h.upgradeTimer, h.races⟩
  | closeDialers => exact ⟨h.closing, rfl, h.newShadow, h.upgradeTimer, h.races⟩
  | _ => exact ⟨h.closing, h.dialers, h.newShadow, h.upgradeTimer, h.races⟩

theorem inert_next (h : Removed s) (hen : enabled s p = true) (hp : p.inert s = true) :
    (next choice s p).inert s = true := by
  cases p with
  | discover e => cases h.dialers.symm.trans hen
  | failed e c => cases c <;> first | rfl | cases hp
  | await d e =>
    dsimp only [next]
    split <;> exact hp
  | check e o =>
    have he : s.epoch ≠ e := (of_decide_eq_true hp).ne'
    simp [next, he, Point.inert]
  | tryUpgrade e =>
    dsimp only [next]
    split
    · next he =>
      exact decide_eq_true ((of_decide_eq_true hp).resolve_left (by rw [he]; exact lt_irrefl _))
    · rfl
  | tryUpgradeState e | shadowState e | rearmState =>
    have hsm : s.sm ≠ .relayReady := of_decide_eq_true hp
    simp [next, hsm, Point.inert]
  | beginAttempt e | rearm e => simp [next, h.newShadow, Point.inert]
  | shadowDial a e =>
    refine decide_eq_true ((of_decide_eq_true hp).imp_left fun ha => ?_)
    simp [ha]
  | shadowEpoch e ok =>
    dsimp only [next]
    split
    · next hok =>
      refine decide_eq_true ((of_decide_eq_true hp).resolve_left ?_)
      simp [hok.1]
    · rfl
  | guard e n =>
    cases n with
    | zero => rfl
    | succ n =>
      dsimp only [next]
      split
      · next he =>
        exact decide_eq_true ((of_decide_eq_true hp).resolve_left (by rw [he]; exact lt_irrefl _))
      · rfl
  | guardState e n | reassert e n =>
    have hsm : s.sm ≠ .iceReady := of_decide_eq_true hp
    simp [next, hsm, Point.inert]
  | shadowDone e ok => exact hp
  | _ => first | cases hp; done | (dsimp only [next]; repeat' split) <;> rfl

theorem inert_spawn (hp : p.inert s = true) (hq : q ∈ spawn s p) : q.inert s = true := by
  unfold spawn at hq
  split at hq
  · exact mem_singleton.1 hq ▸ rfl
  · cases hp
  · cases hp
  · cases hq

def Point.Closing (s : Shared) : Point → Prop
  | .close | .closeUpgrade | .closeNewShadow => s.closing = true
  | .closeShadow | .closeDialers => s.closing = true ∧ s.newShadow = false
  | .closeReturn => s.closing = true ∧ s.newShadow = false ∧ s.dialers = false
  | _ => True

theorem Point.Closing.mono (h : q.Closing s) (hclg : s.closing = true → t.closing = true)
    (hnew : s.newShadow = false → t.newShadow = false)
    (hdia : s.dialers = false → t.dialers = false) : q.Closing t := by
  cases q with
  | close => exact hclg h
  | closeUpgrade => exact hclg h
  | closeNewShadow => exact hclg h
  | closeShadow | closeDialers => exact ⟨hclg h.1, hnew h.2⟩
  | closeReturn => exact ⟨hclg h.1, hnew h.2.1, hdia h.2.2⟩
  | _ => trivial

theorem Point.Closing.effect (h : q.Closing s) : q.Closing (effect cfg choice s p) := by
  refine h.mono ?_ ?_ ?_
  · cases p <;> exact id
  · cases p with
    | closeNewShadow => exact fun _ => rfl
    | _ => exact id
  cases p with
  | closeDialers => exact fun _ => rfl
  | _ => exact id

theorem Point.Closing.next (h : p.Closing s) :
    (next choice s p).Closing (Lifecycle.effect cfg choice s p) := by
  cases p with
  | close => exact h
  | closeUpgrade => exact h
  | closeNewShadow => exact ⟨h, rfl⟩
  | closeShadow => exact h
  | closeDialers => exact ⟨h.1, h.2, rfl⟩
  | settle e o => cases o <;> trivial
  | watch c k => cases c <;> trivial
  | failed e c => cases c <;> trivial
  | guard e n =>
    cases n with
    | zero => trivial
    | succ n =>
      dsimp only [Lifecycle.next]
      split <;> trivial
  | _ => (dsimp only [Lifecycle.next]; repeat' split) <;> trivial

theorem closing_spawn (hq : q ∈ spawn s p) : q.Closing t := by
  unfold spawn at hq
  split at hq
  · exact mem_singleton.1 hq ▸ trivial
  · exact mem_singleton.1 hq ▸ trivial
  · exact mem_singleton.1 hq ▸ trivial
  · cases hq

theorem removed_of_effect (h : (effect cfg choice s p).removed = true) :
    s.removed = true ∨ p = .closeReturn := by
  cases p with
  | closeReturn => exact .inr rfl
  | _ => exact .inl h

structure Settled (s : Shared) : Prop where
  relayed : ∀ x ∈ s.races, x.2.Relayed
  removed : s.removed = true → Removed s

structure Stopping (s : Shared) (p : Point) : Prop where
  closing : p.Closing s
  inert : s.removed = true → p.inert s = true

theorem relayed_effect (h : ∀ x ∈ s.races, x.2.Relayed) :
    ∀ x ∈ (effect cfg choice s p).races, x.2.Relayed := by
  cases p with
  | discover e =>
    intro x hx
    obtain hx | hx := mem_append.1 hx
    · exact h x hx
    · obtain rfl := mem_singleton.1 hx
      exact Race.Relayed.start _ _
  | upgraded d =>
    intro x hx
    obtain ⟨y, hy, -, hrel, -⟩ := mem_finishUpgrade hx
    exact hrel (h y hy)
  | _ => exact h

theorem Removed.of_closeReturn {s : Pool Shared Point}
    (hclg : Point.closeReturn.Closing s.shared)
    (hdr : Drained s .closeReturn) : Removed s.shared := by
  obtain ⟨-, htim, hrac⟩ := hdr rfl
  exact ⟨hclg.1, hclg.2.2, hclg.2.1, htim, hrac⟩

theorem Settled.run {s : Pool Shared Point} {i : ℕ} (hs : Program.Holds Settled Stopping s)
    (hi : s.threads[i]? = some p) (hen : enabled s.shared p = true) (hdr : Drained s p) :
    Settled (effect cfg choice s.shared p) ∧
      Stopping (effect cfg choice s.shared p) (next choice s.shared p) ∧
      ∀ q ∈ spawn s.shared p, Stopping (effect cfg choice s.shared p) q := by
  have hp := hs.2 p (mem_of_getElem? hi)
  have hrem : (effect cfg choice s.shared p).removed = true →
      Removed s.shared ∧ p.inert s.shared = true := by
    intro h
    obtain h | rfl := removed_of_effect h
    · exact ⟨hs.1.removed h, hp.inert h⟩
    · exact ⟨.of_closeReturn hp.closing hdr, rfl⟩
  have hlat : p.inert s.shared = true → Later s.shared (effect cfg choice s.shared p) :=
    fun h => .effect (not_ready_of_inert h)
  refine ⟨⟨relayed_effect hs.1.relayed, fun h => ?_⟩, ⟨hp.closing.next, fun h => ?_⟩,
    fun q hq => ⟨closing_spawn hq, fun h => ?_⟩⟩
  · obtain ⟨hr, hine⟩ := hrem h
    exact hr.effect hen hine
  · obtain ⟨hr, hine⟩ := hrem h
    exact (hlat hine).inert (inert_next hr hen hine)
  · obtain ⟨hr, hine⟩ := hrem h
    exact (hlat hine).inert (inert_spawn hine hq)

theorem Stopping.other {s : Pool Shared Point} {i : ℕ} (hs : Program.Holds Settled Stopping s)
    (hi : s.threads[i]? = some p) (hdr : Drained s p) (hq : q ∈ s.threads) :
    Stopping (effect cfg choice s.shared p) q := by
  refine ⟨(hs.2 q hq).closing.effect, fun h => ?_⟩
  obtain h | rfl := removed_of_effect h
  · have hp := (hs.2 p (mem_of_getElem? hi)).inert h
    exact (Later.effect (not_ready_of_inert hp)).inert ((hs.2 q hq).inert h)
  · exact (Later.effect (by simp)).inert ((hdr rfl).1 q hq)

theorem Settled.race {d e : ℕ} {r r' : Race} {a : Race.Act} (hs : Settled s)
    (hr : s.races[d]? = some (e, r)) (hstep : Race.Step r a r') :
    Settled { s with races := s.races.set d (e, r') } := by
  have hmem := mem_of_getElem? hr
  refine ⟨fun x hx => ?_, fun h => ?_⟩
  · obtain hx | rfl := mem_or_eq_of_mem_set hx
    · exact hs.relayed x hx
    · exact (hs.relayed _ hmem).step hstep
  have hrem := hs.removed h
  refine ⟨hrem.closing, hrem.dialers, hrem.newShadow, hrem.upgradeTimer,
    fun x hx => ?_⟩
  obtain hx | rfl := mem_or_eq_of_mem_set hx
  · exact hrem.races x hx
  · refine Bool.eq_false_of_not_eq_true fun hc => ?_
    cases (Race.claimable_of_step hstep hc).symm.trans (hrem.races _ hmem)

theorem Settled.env {e : Event} {new : List Point} (hs : Settled s) (h : Env s e t new) :
    Settled t ∧ (∀ q ∈ new, Stopping t q) ∧ ∀ q, Stopping s q → Stopping t q := by
  have hnot : s.closing = false → ∀ {P : Prop}, s.removed = true → P := by
    intro hclg P hrem
    cases hclg.symm.trans (hs.removed hrem).closing
  cases h with
  | start h | receive h hdia | upgradeSyn h hnew hsm hsha =>
    refine ⟨hs, fun q hq => ?_, fun q hq => hq⟩
    obtain rfl := mem_singleton.1 hq
    exact ⟨trivial, hnot h⟩
  | restart =>
    refine ⟨hs, fun q hq => ?_, fun q hq => hq⟩
    obtain rfl := mem_singleton.1 hq
    exact ⟨trivial, fun _ => rfl⟩
  | close h =>
    refine ⟨⟨hs.relayed, hnot h⟩, fun q hq => ?_, fun q hq => ?_⟩
    · obtain rfl := mem_singleton.1 hq
      exact ⟨rfl, hnot h⟩
    · exact ⟨hq.closing.mono (fun _ => rfl) id id, hnot h⟩
  | @fireUpgrade e h =>
    refine ⟨⟨hs.relayed, fun hr => ?_⟩, fun q hq => ?_, fun q hq => ?_⟩
    · cases h.symm.trans (hs.removed hr).upgradeTimer
    · obtain rfl := mem_singleton.1 hq
      refine ⟨trivial, fun hr => ?_⟩
      cases h.symm.trans (hs.removed hr).upgradeTimer
    · refine ⟨hq.closing.mono id id id, fun hr => ?_⟩
      cases h.symm.trans (hs.removed hr).upgradeTimer
  | race hr hstep ha =>
    refine ⟨hs.race hr hstep, nofun, fun q hq => ⟨hq.closing.mono id id id, fun h => ?_⟩⟩
    exact Later.inert ⟨le_refl _, fun _ => id, fun _ => id⟩ (hq.inert h)
  | claim hr hstep =>
    have hmem := mem_of_getElem? hr
    have hc := Race.claimable_of_claim (hs.relayed _ hmem) hstep
    refine ⟨hs.race hr hstep, fun q hq => ?_, fun q hq => ⟨hq.closing.mono id id id, fun h => ?_⟩⟩
    · obtain rfl := mem_singleton.1 hq
      refine ⟨trivial, fun h => ?_⟩
      cases hc.symm.trans ((hs.removed h).races _ hmem)
    · exact Later.inert ⟨le_refl _, fun _ => id, fun _ => id⟩ (hq.inert h)
  | tick n =>
    refine ⟨⟨hs.relayed, fun h => ?_⟩, nofun, fun q hq => ⟨hq.closing.mono id id id, fun h => ?_⟩⟩
    · obtain ⟨hclg, hdia, hnew, htim, hrac⟩ := hs.removed h
      exact ⟨hclg, hdia, hnew, htim, hrac⟩
    · exact Later.inert ⟨le_refl _, fun _ => id, fun _ => id⟩ (hq.inert h)

/-- **Removal is final** in every run in which `Close` returns to a drained probe. -/
theorem removal_final {s : Pool Shared Point} (h : Runs cfg Drained s)
    (hremoved : s.shared.removed = true) :
    (∀ p ∈ s.threads, p.configures = false ∧ p.arms = false) ∧ s.shared.upgradeTimer = none ∧
      ∀ l t, (lifecycle cfg).Step s l t →
        ∀ k : TransportType, t.shared.sm = k.readyState → s.shared.sm = k.readyState := by
  have hs : Program.Holds Settled Stopping s := by
    refine Program.holds ?_ ?_ ?_ ?_ h
    · rintro s ⟨now, rfl⟩
      exact ⟨nofun, nofun⟩
    · intro s i c p hs hi hen hG
      exact Settled.run hs hi hen (hG p hi)
    · intro s i c p q j hs hi _ hG _ hj
      exact Stopping.other hs hi (hG p hi) (mem_of_getElem? hj)
    intro s e t new hs he _
    obtain ⟨hI, hnew, hold⟩ := hs.1.env he
    exact ⟨hI, hnew, fun q hq => hold q (hs.2 q hq)⟩
  have hine : ∀ p ∈ s.threads, p.inert s.shared = true := fun p hp => (hs.2 p hp).inert hremoved
  refine ⟨fun p hp => ?_, (hs.1.removed hremoved).upgradeTimer, fun l t hstep k hk => ?_⟩
  · have := hine p hp
    cases p <;> first | exact ⟨rfl, rfl⟩ | cases this
  cases hstep with
  | run hi _ =>
    exact sm_of_effect (not_ready_of_inert (hine _ (mem_of_getElem? hi))) hk
  | env he => cases he <;> exact hk

theorem armed_probe_removed : ∃ s, Runs initiator Drained s ∧ s.shared.removed = true ∧
    .restart (.timer 0 0) ∈ s.threads ∧ s.shared.upgradeTimer = none ∧
    (Point.restart (.timer 0 0)).configures = false ∧
    (Point.restart (.timer 0 0)).arms = false := by
  have harm := Runs.failedOnce (Runs.racing (C := Drained) rfl) rfl
  have hcl := Program.reachable_exec (Program.reachable_env harm (Env.close rfl))
    (steps 3 6) rfl
  obtain ⟨hthr, htim, -⟩ := removal_final hcl rfl
  suffices hmem : Point.restart (.timer 0 0) ∈ _ from
    ⟨_, hcl, rfl, hmem, htim, hthr _ hmem⟩
  decide

theorem removed_probe_ready : ∃ s t u, (lifecycle initiator).system.Reachable s ∧
    s.shared.removed = true ∧ s.shared.sm = .probing ∧ s.shared.upgradeTimer = none ∧
    (lifecycle initiator).Step s (.run 1 true) t ∧ t.shared.sm = .relayReady ∧
    (lifecycle initiator).Step t (.run 1 true) u ∧ u.shared.upgradeTimer = some 0 := by
  have hrac := Runs.racing (C := fun _ _ => True) rfl
  have hfnd := Runs.races (d := 0) (e := 0) hrac rfl races_lateIce
  have hcl := Program.reachable_exec (Program.reachable_env hfnd (Env.close rfl))
    (steps 2 6 ++ steps 1 4) rfl
  refine ⟨_, _, _, hcl.of_guard, rfl, rfl, rfl,
    .run (p := .ready (.discovery 0) .relay) rfl (show enabled _ _ = true from rfl), rfl,
    .run (p := .arm (.discovery 0) .relay) rfl (show enabled _ _ = true from rfl), rfl⟩

end LatticeMesh.Transport.Lifecycle
