import LatticeMesh.Transport.Lifecycle

/-! # Epochs of a probe -/

namespace LatticeMesh.Transport.Lifecycle

open List

def Caller.origin : Caller → Option ℕ
  | .discovery e | .racer _ e => some e
  | .shadow => none

def Trigger.origin : Trigger → Option ℕ
  | .outside => none
  | .dialerClosed e | .timer e _ => some e

def Point.trigger : Point → Option Trigger
  | .restart t | .restartStop t | .restartShadow t | .restartCheck t | .restartDialers t
  | .restartEpoch t => some t
  | _ => none

def Point.origin : Point → Option ℕ
  | .settle e _ | .failure e _ | .failed e _ | .giveUp e | .retryArm e => some e
  | .store c _ | .ready c _ | .arm c _ | .watch c _ => c.origin
  | .restart t | .restartStop t | .restartShadow t | .restartCheck t | .restartDialers t
  | .restartEpoch t => t.origin
  | _ => none

def Point.carried : Point → Option ℕ
  | .startProbing _ e | .startGo _ e | .discover e => some e
  | p => p.origin

def Point.retries : Point → Bool
  | .retryArm _ => true
  | p => match p.trigger with
    | some (.timer _ _) => true
    | _ => false

def Point.movesEpoch : Point → Bool
  | .restartEpoch _ => true
  | _ => false

def Point.probes : Point → Bool
  | .startProbing _ _ => true
  | _ => false

def Fences (s : Pool Shared Point) (p : Point) : Prop :=
  (p.movesEpoch = true → (∀ q ∈ s.threads.erase p, q.carried = none) ∧
    ∀ x ∈ s.shared.races, x.2.claimable = false) ∧
  (p.probes = true → s.shared.sm.allows .probing = true → ∀ q ∈ s.threads, q.retries = false)

instance (s : Pool Shared Point) (p : Point) : Decidable (Fences s p) :=
  inferInstanceAs (Decidable ((_ → (∀ q ∈ s.threads.erase p, _) ∧ ∀ x ∈ s.shared.races, _) ∧
    (_ → _ → ∀ q ∈ s.threads, _)))

variable {cfg : Setup} {choice : Bool} {s : Shared} {p : Point}

theorem epoch_effect (h : p.movesEpoch = false) : (effect cfg choice s p).epoch = s.epoch := by
  cases p with
  | restartEpoch t => cases h
  | _ => rfl

theorem carried_next {e : ℕ} (h : (next choice s p).carried = some e) :
    p.carried = some e ∨ s.epoch = e := by
  unfold next at h
  (repeat' split at h) <;> first | exact .inl h | exact .inr (Option.some.inj h) | cases h
  next hepo => exact .inr hepo

theorem retries_next (h : (next choice s p).retries = true) :
    p.retries = true ∨ ∃ e, p = .failed e .retry := by
  unfold next at h
  (repeat' split at h) <;> first | exact .inl h | exact .inr ⟨_, rfl⟩ | cases h

theorem trigger_next {e n : ℕ} (h : (next choice s p).trigger = some (.timer e n)) :
    p.trigger = some (.timer e n) := by
  unfold next at h
  (repeat' split at h) <;> first | exact h | cases h

theorem retries_of_trigger {e n : ℕ} (h : p.trigger = some (.timer e n)) : p.retries = true := by
  cases p <;> cases h <;> rfl

def Unready (x : PeerState) : Prop := ∀ k : TransportType, x.allows k.readyState = false

theorem unready_failed (x : PeerState) : Unready (x.transition .failed) := by
  intro k
  cases x <;> cases k <;> rfl

theorem Unready.closed {x : PeerState} (h : Unready x) : Unready (x.transition .closed) := by
  intro k
  cases x <;> cases k <;> first | rfl | exact h _

theorem Unready.effect (h : Unready s.sm)
    (hp : p.probes = true → s.sm.allows .probing = false) :
    Unready (effect cfg choice s p).sm ∧ (effect cfg choice s p).readied = s.readied := by
  have href : ∀ target, s.sm.allows target = false → Unready (s.sm.transition target) := by
    intro target htgt
    unfold PeerState.transition
    rw [htgt]
    exact h
  cases p with
  | startProbing nested e => exact ⟨href .probing (hp rfl), rfl⟩
  | ready c k =>
    refine ⟨href k.readyState (h k), ?_⟩
    simp [Lifecycle.effect, h k]
  | failed e next | restartFailed => exact ⟨unready_failed _, rfl⟩
  | giveUp e => exact ⟨h.closed, rfl⟩
  | _ => exact ⟨h, rfl⟩

def RacesFenced (s : Shared) : Prop :=
  ∀ x ∈ s.races, x.2.Relayed ∧ (x.2.claimable = true → s.epoch = x.1)

structure Fenced (s : Shared) (p : Point) : Prop where
  epoch : ∀ e, p.carried = some e → s.epoch = e
  unready : p.retries = true → Unready s.sm
  readied : ∀ e n, p.trigger = some (.timer e n) → s.readied = n

theorem Fenced.of_none (h : p.carried = none) (hret : p.retries = false) : Fenced s p := by
  refine ⟨fun e he => ?_, fun hr => ?_, fun e n ht => ?_⟩
  · rw [h] at he
    cases he
  · rw [hret] at hr
    cases hr
  · rw [retries_of_trigger ht] at hret
    cases hret

theorem RacesFenced.effect (h : RacesFenced s) (hp : ∀ e, p.carried = some e → s.epoch = e)
    (hcla : p.movesEpoch = true → ∀ x ∈ s.races, x.2.claimable = false) :
    RacesFenced (effect cfg choice s p) := by
  cases p with
  | discover e =>
    intro x hx
    obtain hx | hx := mem_append.1 hx
    · exact h x hx
    · obtain rfl := mem_singleton.1 hx
      exact ⟨Race.Relayed.start _ _, fun _ => hp e rfl⟩
  | upgraded d =>
    intro x hx
    obtain ⟨y, hy, hxy, hrel, hc⟩ := mem_finishUpgrade hx
    exact ⟨hrel (h y hy).1, fun hx => hxy ▸ (h y hy).2 (hc hx)⟩
  | restartEpoch t =>
    intro x hx
    refine ⟨(h x hx).1, fun hc => ?_⟩
    rw [hcla rfl x hx] at hc
    cases hc
  | _ => exact h

theorem Fenced.next (h : Fenced s p) : Fenced (effect cfg choice s p) (next choice s p) := by
  have hunr : p.retries = true → Unready (effect cfg choice s p).sm ∧
      (effect cfg choice s p).readied = s.readied := by
    intro hp
    refine (h.unready hp).effect fun hpro => ?_
    cases p <;> cases hpro
    cases hp
  refine ⟨fun e he => ?_, fun hr => ?_, fun e n ht => ?_⟩
  · have hs : s.epoch = e := (carried_next he).elim (h.epoch e) id
    cases p with
    | restartEpoch t => cases he
    | _ => exact hs
  · obtain hp | ⟨e, rfl⟩ := retries_next hr
    · exact (hunr hp).1
    · exact unready_failed _
  · have hp := trigger_next ht
    exact (hunr (retries_of_trigger hp)).2.trans (h.readied e n hp)

theorem Fenced.spawn (h : Fenced s p) {q : Point} (hq : q ∈ spawn s p) :
    Fenced (effect cfg choice s p) q := by
  unfold Lifecycle.spawn at hq
  split at hq
  · obtain rfl := mem_singleton.1 hq
    refine ⟨fun e he => ?_, nofun, nofun⟩
    exact h.epoch e he
  · obtain rfl := mem_singleton.1 hq
    exact .of_none rfl rfl
  · obtain rfl := mem_singleton.1 hq
    refine ⟨fun e he => h.epoch e he, fun _ => h.unready rfl, fun e n ht => ?_⟩
    cases ht
    rfl
  · cases hq

theorem Fenced.other {q : Point} (h : Fenced s q)
    (hmov : p.movesEpoch = true → q.carried = none)
    (hpro : p.probes = true → s.sm.allows .probing = true → q.retries = false) :
    Fenced (effect cfg choice s p) q := by
  have hunr : q.retries = true → Unready (effect cfg choice s p).sm ∧
      (effect cfg choice s p).readied = s.readied := by
    intro hq
    refine (h.unready hq).effect fun hp => ?_
    by_contra hall
    rw [hpro hp (by simpa using hall)] at hq
    cases hq
  refine ⟨fun e he => ?_, fun hq => (hunr hq).1, fun e n ht => ?_⟩
  · rw [epoch_effect]
    · exact h.epoch e he
    by_contra hp
    rw [hmov (by simpa using hp)] at he
    cases he
  · exact (hunr (retries_of_trigger ht)).2.trans (h.readied e n ht)

theorem Fenced.env {t : Shared} {ev : Event} {new : List Point} (hI : RacesFenced s)
    (h : Env s ev t new) : RacesFenced t ∧ (∀ q ∈ new, Fenced t q) ∧
      ∀ q, Fenced s q → Fenced t q := by
  have hset : ∀ {d e : ℕ} {r r' : Race}, s.races[d]? = some (e, r) →
      ∀ {a : Race.Act}, Race.Step r a r' →
        RacesFenced { s with races := s.races.set d (e, r') } := by
    intro d e r r' hr a hs x hx
    obtain hx | rfl := mem_or_eq_of_mem_set hx
    · exact hI x hx
    · obtain ⟨hrel, hepo⟩ := hI _ (mem_of_getElem? hr)
      exact ⟨hrel.step hs, fun hc => hepo (Race.claimable_of_step hs hc)⟩
  have hnone : ∀ q : Point, q.carried = none → q.retries = false → ∀ q' ∈ [q], Fenced t q' := by
    intro q hq hr q' hq'
    obtain rfl := mem_singleton.1 hq'
    exact .of_none hq hr
  cases h with
  | start h | restart | receive h hdia | upgradeSyn h hnew hsm hsha =>
    exact ⟨hI, hnone _ rfl rfl, fun q hq => hq⟩
  | close h | fireUpgrade h =>
    exact ⟨hI, hnone _ rfl rfl, fun q hq => ⟨hq.epoch, hq.unready, hq.readied⟩⟩
  | race hr hs ha => exact ⟨hset hr hs, nofun, fun q hq => ⟨hq.epoch, hq.unready, hq.readied⟩⟩
  | @claim d e r r' hr hs =>
    refine ⟨hset hr hs, fun q hq => ?_, fun q hq => ⟨hq.epoch, hq.unready, hq.readied⟩⟩
    obtain rfl := mem_singleton.1 hq
    obtain ⟨hrel, hepo⟩ := hI _ (mem_of_getElem? hr)
    refine ⟨fun e' he => ?_, nofun, nofun⟩
    cases he
    exact hepo (Race.claimable_of_claim hrel hs)
  | tick n => exact ⟨hI, nofun, fun q hq => ⟨hq.epoch, hq.unready, hq.readied⟩⟩

/-- **Epochs are respected** in every run that is fenced. -/
theorem epochs_respected {s : Pool Shared Point} (h : Runs cfg Fences s) {p : Point}
    (hp : p ∈ s.threads) :
    (∀ e, p.origin = some e → s.shared.epoch = e) ∧
      ∀ e n, p.trigger = some (.timer e n) → s.shared.readied = n := by
  have hfen : Program.Holds RacesFenced Fenced s := by
    refine Program.holds ?_ ?_ ?_ ?_ h
    · rintro s ⟨now, rfl⟩ x hx
      cases hx
    · intro s i c p hs hi _ hG
      have hmem := mem_of_getElem? hi
      have hp := hs.2 p hmem
      refine ⟨hs.1.effect hp.epoch fun hmov => ((hG p hi).1 hmov).2, hp.next, ?_⟩
      exact fun q hq => hp.spawn hq
    · intro s i c p q j hs hi _ hG hji hj
      have hoth := Program.mem_erase_of_ne hi hj hji
      refine (hs.2 q (mem_of_getElem? hj)).other (fun hmov => ?_) fun hpro hall => ?_
      · exact ((hG p hi).1 hmov).1 q hoth
      · exact (hG p hi).2 hpro hall q (mem_of_getElem? hj)
    intro s e t new hs he _
    obtain ⟨hI, hnew, hold⟩ := Fenced.env hs.1 he
    exact ⟨hI, hnew, fun q hq => hold q (hs.2 q hq)⟩
  have hpoi := hfen.2 p hp
  refine ⟨fun e he => hpoi.epoch e ?_, hpoi.readied⟩
  cases p <;> first | exact he | cases he

theorem retry_then_success : ∃ s t, Runs initiator Fences s ∧ Runs initiator Fences t ∧
    (.restart (.timer 0 0) ∈ s.threads ∧ s.shared.epoch = 0 ∧ s.shared.readied = 0) ∧
    .settle 1 (.transport .relay) ∈ t.threads ∧ t.shared.epoch = 1 := by
  have harm := Runs.failedOnce (Runs.racing (C := Fences) rfl) rfl
  have hret := Runs.retried harm 0 rfl
  have hfnd := Program.reachable_exec
    (Runs.races (d := 1) (e := 1) hret rfl races_lateIce) (steps 3 2) rfl
  have htim := epochs_respected harm (p := .restart (.timer 0 0)) (by decide)
  have hset := epochs_respected hfnd (p := .settle 1 (.transport .relay)) (by decide)
  exact ⟨_, _, harm, hfnd, ⟨by decide, htim.1 0 rfl, htim.2 0 0 rfl⟩, by decide,
    hset.1 1 rfl⟩

theorem earlier_epoch_acts :
    (∃ s, (lifecycle initiator).system.Reachable s ∧ .restart (.timer 0 0) ∈ s.threads ∧
      s.shared.epoch = 1 ∧ s.shared.readied = 1 ∧ s.shared.sm = .relayReady) ∧
    ∃ s, (lifecycle initiator).system.Reachable s ∧ .store (.racer 0 0) .ice ∈ s.threads ∧
      s.shared.epoch = 1 := by
  have hrac := Runs.racing (C := fun _ _ => True) rfl
  constructor
  · have harm := Runs.failedOnce hrac rfl
    have hres := Program.reachable_exec
      (Program.reachable_env harm Env.restart) (steps 3 13 ++ steps 4 1) rfl
    have hrdy := Program.reachable_exec
      (Runs.races (d := 1) (e := 1) hres rfl races_lateIce) (steps 4 5) rfl
    exact ⟨_, hrdy.of_guard, by decide, rfl, rfl, rfl⟩
  have hres := Program.reachable_exec
    (Program.reachable_env hrac Env.restart) (steps 2 13) rfl
  have hcla := Program.reachable_env
    (Runs.races (d := 0) (e := 0) hres rfl races_lateIce)
    (Env.claim (d := 0) (e := 0) (r := lateIce) rfl (.claim rfl rfl))
  exact ⟨_, hcla.of_guard, by decide, rfl⟩

end LatticeMesh.Transport.Lifecycle
