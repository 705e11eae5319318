import LatticeMesh.Lib.Threads
import LatticeMesh.Transport.Discovery
import LatticeMesh.Transport.Probe

/-! # The life of a probe -/

namespace LatticeMesh.Transport

open List

def PeerState.allows : PeerState → PeerState → Bool
  | .created, .probing => true
  | .probing, .iceReady | .probing, .relayReady | .probing, .failed => true
  | .relayReady, .iceReady | .relayReady, .failed | .relayReady, .closed => true
  | .iceReady, .failed | .iceReady, .closed => true
  | .failed, .probing | .failed, .closed => true
  | _, _ => false

def PeerState.transition (current target : PeerState) : PeerState :=
  if current.allows target then target else current

theorem PeerState.of_transition {current target x : PeerState}
    (h : current.transition target = x) : current = x ∨ target = x ∧ current.allows target := by
  unfold transition at h
  split at h
  · next hall => exact .inr ⟨h, hall⟩
  · exact .inl h

def TransportType.readyState : TransportType → PeerState
  | .ice => .iceReady
  | .relay => .relayReady

namespace Lifecycle

inductive Caller where
  | discovery (e : ℕ)
  | racer (d e : ℕ)
  | shadow
  deriving DecidableEq

inductive Consequence where
  | restart
  | close
  | retry
  deriving DecidableEq

inductive Trigger where
  | outside
  | dialerClosed (e : ℕ)
  | timer (e n : ℕ)
  deriving DecidableEq

inductive Point where
  | start (nested : Bool)
  | startEpoch (nested : Bool)
  | startProbing (nested : Bool) (e : ℕ)
  | startRejected (nested : Bool)
  | startGo (nested : Bool) (e : ℕ)
  | discover (e : ℕ)
  | await (d e : ℕ)
  | check (e : ℕ) (o : Outcome)
  | settle (e : ℕ) (o : Outcome)
  | store (c : Caller) (k : TransportType)
  | ready (c : Caller) (k : TransportType)
  | arm (c : Caller) (k : TransportType)
  | watch (c : Caller) (k : TransportType)
  | upgraded (d : ℕ)
  | failure (e : ℕ) (f : Failure)
  | failed (e : ℕ) (next : Consequence)
  | giveUp (e : ℕ)
  | retryArm (e : ℕ)
  | restart (t : Trigger)
  | restartStop (t : Trigger)
  | restartShadow (t : Trigger)
  | restartCheck (t : Trigger)
  | restartDialers (t : Trigger)
  | restartEpoch (t : Trigger)
  | restartFailed
  | restartRunning
  | restartEnd
  | tryUpgrade (e : ℕ)
  | tryUpgradeState (e : ℕ)
  | tryUpgradeSignal (e : ℕ)
  | beginAttempt (e : ℕ)
  | adopt (e : Option ℕ)
  | shadowDial (a : ℕ) (e : Option ℕ)
  | shadowDone (e : Option ℕ) (ok : Bool)
  | shadowEpoch (e : ℕ) (ok : Bool)
  | shadowState (e : ℕ)
  | rearm (e : ℕ)
  | rearmState
  | schedule
  | guard (e n : ℕ)
  | guardState (e n : ℕ)
  | reassert (e n : ℕ)
  | reassertWrite (e n : ℕ)
  | receive
  | close
  | closeUpgrade
  | closeNewShadow
  | closeShadow
  | closeDialers
  | closeReturn
  | done
  deriving DecidableEq

structure Shared where
  sm : PeerState
  epoch : ℕ
  running : Bool
  restartInProgress : Bool
  currentTransport : Option TransportType
  firstFailureAt : Option ℕ
  dialers : Bool
  newShadow : Bool
  shadow : Option ℕ
  attempts : ℕ
  cancelled : List ℕ
  upgradeTimer : Option ℕ
  races : List (ℕ × Race)
  closing : Bool
  removed : Bool
  now : ℕ
  readied : ℕ
  streak : Option ℕ

structure Setup where
  enableRelay : Bool
  retriesUpgrade : Bool

def giveUpAfter : ℕ := 60 * 1000000000

namespace Shared

def new (now : ℕ) : Shared where
  sm := .created
  epoch := 0
  running := false
  restartInProgress := false
  currentTransport := none
  firstFailureAt := none
  dialers := true
  newShadow := true
  shadow := none
  attempts := 0
  cancelled := []
  upgradeTimer := none
  races := []
  closing := false
  removed := false
  now := now
  readied := 0
  streak := none

def scheduled (cfg : Setup) (s : Shared) : Option ℕ :=
  if cfg.retriesUpgrade then some s.epoch else s.upgradeTimer

def armed (cfg : Setup) (s : Shared) : TransportType → Option ℕ
  | .ice => none
  | .relay => s.scheduled cfg

def cancelUpgrade (s : Shared) : Shared := { s with upgradeTimer := none }

def cancelShadow (s : Shared) : Shared :=
  { s with shadow := none, cancelled := s.shadow.toList ++ s.cancelled }

def transition (s : Shared) (target : PeerState) : Shared :=
  { s with sm := s.sm.transition target }

def firstFailure (s : Shared) : Failure → Option ℕ
  | .dialerClosed => none
  | .other => some (s.firstFailureAt.getD s.now)

def consequence (s : Shared) : Failure → Consequence
  | .dialerClosed => .restart
  | .other => if giveUpAfter ≤ s.now - s.firstFailureAt.getD s.now then .close else .retry

def outcome (s : Shared) (d : ℕ) : Option Outcome :=
  match s.races[d]? with
  | some (_, r) =>
    match r.main with
    | .returned o => some o
    | _ => none
  | none => none

end Shared

open Shared

def finishUpgrade (x : ℕ × Race) : ℕ × Race :=
  (x.1, { x.2.setRacer .ice .done with adopted := .ice :: x.2.adopted })

def effect (cfg : Setup) (choice : Bool) (s : Shared) : Point → Shared
  | .start _ => { s with running := true }
  | .startProbing _ _ => s.transition .probing
  | .startRejected _ => { s with running := false }
  | .discover e => { s with races := s.races ++ [(e, .start cfg.enableRelay false)] }
  | .settle _ _ => { s with running := false }
  | .store _ k => { s with currentTransport := some k, streak := none }
  | .ready _ k =>
    { s.transition k.readyState with
      readied := if s.sm.allows k.readyState then s.readied + 1 else s.readied }
  | .arm _ k => { s with upgradeTimer := s.armed cfg k }
  | .upgraded d => { s with races := s.races.modify d finishUpgrade }
  | .failure _ f => { s with
      firstFailureAt := s.firstFailure f, streak := some (s.streak.getD s.now) }
  | .failed _ _ => s.transition .failed
  | .giveUp _ => s.transition .closed
  | .restart _ => { s with restartInProgress := true }
  | .restartStop _ => s.cancelUpgrade
  | .restartShadow _ => s.cancelShadow
  | .restartEpoch _ => { s with epoch := s.epoch + 1 }
  | .restartFailed => s.transition .failed
  | .restartRunning => { s with running := false }
  | .restartEnd => { s with restartInProgress := false }
  | .tryUpgradeSignal _ =>
    { s with upgradeTimer := if choice then s.upgradeTimer else some s.epoch }
  | .adopt _ => { s with
      shadow := some (s.shadow.getD s.attempts)
      attempts := if s.shadow = none then s.attempts + 1 else s.attempts }
  | .shadowDone _ _ => { s with shadow := none }
  | .schedule => { s with upgradeTimer := s.scheduled cfg }
  | .closeUpgrade => s.cancelUpgrade
  | .closeNewShadow => { s with newShadow := false }
  | .closeShadow => s.cancelShadow
  | .closeDialers => { s with dialers := false }
  | .closeReturn => { s with removed := true }
  | _ => s

def next (choice : Bool) (s : Shared) : Point → Point
  | .start nested =>
    if s.running then if nested then .restartEnd else .done else .startEpoch nested
  | .startEpoch nested => .startProbing nested s.epoch
  | .startProbing nested e =>
    if s.sm.allows .probing then .startGo nested e else .startRejected nested
  | .startRejected nested => if nested then .restartEnd else .done
  | .startGo nested _ => if nested then .restartEnd else .done
  | .discover e => .await s.races.length e
  | .await d e =>
    match s.outcome d with
    | some o => .check e o
    | none => .await d e
  | .check e o => if s.epoch = e then .settle e o else .done
  | .settle e (.transport k) => .store (.discovery e) k
  | .settle e (.error f) => .failure e f
  | .store c k => .ready c k
  | .ready c k => .arm c k
  | .arm c k => .watch c k
  | .watch (.racer d _) _ => .upgraded d
  | .watch _ _ => .done
  | .upgraded _ => .done
  | .failure e f => .failed e (s.consequence f)
  | .failed e .restart => .restart (.dialerClosed e)
  | .failed e .close => .giveUp e
  | .failed e .retry => .retryArm e
  | .giveUp _ => .done
  | .retryArm _ => .done
  | .restart t => if s.restartInProgress then .done else .restartStop t
  | .restartStop t => .restartShadow t
  | .restartShadow t => .restartCheck t
  | .restartCheck t => if s.dialers then .restartDialers t else .restartEnd
  | .restartDialers t => .restartEpoch t
  | .restartEpoch _ => .restartFailed
  | .restartFailed => .restartRunning
  | .restartRunning => .start true
  | .restartEnd => .done
  | .tryUpgrade e => if s.epoch = e then .tryUpgradeState e else .done
  | .tryUpgradeState e => if s.sm = .relayReady then .tryUpgradeSignal e else .done
  | .tryUpgradeSignal e => if choice then .beginAttempt e else .done
  | .beginAttempt e => if s.newShadow then .adopt (some e) else .done
  | .adopt e => if s.shadow = none then .shadowDial s.attempts e else .shadowDone e false
  | .shadowDial a e => .shadowDone e (choice && !(s.cancelled.contains a))
  | .shadowDone e ok => .shadowEpoch (e.getD s.epoch) ok
  | .shadowEpoch e ok => if ok ∧ s.epoch = e then .shadowState e else .rearm e
  | .shadowState e => if s.sm = .relayReady then .store .shadow .ice else .rearm e
  | .rearm e => if s.newShadow ∧ s.epoch = e then .rearmState else .done
  | .rearmState => if s.sm = .relayReady then .schedule else .done
  | .schedule => .done
  | .guard _ 0 => .done
  | .guard e (n + 1) => if s.epoch = e then .guardState e n else .done
  | .guardState e n => if s.sm = .iceReady then .reassert e n else .done
  | .reassert e n =>
    if choice ∧ s.sm = .iceReady ∧ s.currentTransport = some .ice then .reassertWrite e n
    else .guard e n
  | .reassertWrite e n => .guard e n
  | .receive => .done
  | .close => .closeUpgrade
  | .closeUpgrade => .closeNewShadow
  | .closeNewShadow => .closeShadow
  | .closeShadow => .closeDialers
  | .closeDialers => .closeReturn
  | .closeReturn => .done
  | .done => .done

section

-- the equations are derived once, before the proofs
attribute [local simp] next effect

end

def spawn (s : Shared) : Point → List Point
  | .startGo _ e => [.discover e]
  | .watch _ .ice => [.guard s.epoch 5]
  | .retryArm e => [.restart (.timer e s.readied)]
  | _ => []

def enabled (s : Shared) : Point → Bool
  | .discover _ | .restartDialers _ => s.dialers
  | .await d _ => (s.outcome d).isSome
  | .done => false
  | _ => true

inductive Event where
  | start
  | restart
  | receive
  | upgradeSyn
  | close
  | fireUpgrade
  | race (d : ℕ) (a : Race.Act)
  | claim (d : ℕ)
  | tick (n : ℕ)

inductive Env : Shared → Event → Shared → List Point → Prop
  | start {s : Shared} (h : s.closing = false) : Env s .start s [.start false]
  | restart {s : Shared} : Env s .restart s [.restart .outside]
  | receive {s : Shared} (h : s.closing = false) (hdialers : s.dialers = true) :
      Env s .receive s [.receive]
  | upgradeSyn {s : Shared} (h : s.closing = false) (hnew : s.newShadow = true)
      (hsm : s.sm = .relayReady) (hshadow : s.shadow = none) : Env s .upgradeSyn s [.adopt none]
  | close {s : Shared} (h : s.closing = false) :
      Env s .close { s with closing := true } [.close]
  | fireUpgrade {s : Shared} {e : ℕ} (h : s.upgradeTimer = some e) :
      Env s .fireUpgrade s.cancelUpgrade [.tryUpgrade e]
  | race {s : Shared} {d e : ℕ} {r r' : Race} {a : Race.Act} (h : s.races[d]? = some (e, r))
      (hs : Race.Step r a r') (ha : a ≠ .claim ∧ a ≠ .upgraded) :
      Env s (.race d a) { s with races := s.races.set d (e, r') } []
  | claim {s : Shared} {d e : ℕ} {r r' : Race} (h : s.races[d]? = some (e, r))
      (hs : Race.Step r .claim r') :
      Env s (.claim d) { s with races := s.races.set d (e, r') } [.store (.racer d e) .ice]
  | tick {s : Shared} (n : ℕ) : Env s (.tick n) { s with now := s.now + n } []

def lifecycle (cfg : Setup) : Program Shared Point Bool Event where
  init s := ∃ now, s = .new now
  enabled s p := enabled s p = true
  effect := effect cfg
  next := next
  spawn _ := spawn
  env := Env

instance (cfg : Setup) (s : Shared) (p : Point) : Decidable ((lifecycle cfg).enabled s p) :=
  inferInstanceAs (Decidable (enabled s p = true))

variable {cfg : Setup}

theorem sm_of_effect {choice : Bool} {s : Shared} {p : Point} {k : TransportType}
    (h : ∀ c k, p ≠ .ready c k) (hsm : (effect cfg choice s p).sm = k.readyState) :
    s.sm = k.readyState := by
  have hoth : ∀ target, target = .probing ∨ target = .failed ∨ target = .closed →
      s.sm.transition target = k.readyState → s.sm = k.readyState := by
    intro target htgt htra
    refine (PeerState.of_transition htra).resolve_right fun hrdy => ?_
    obtain ⟨rfl, -⟩ := hrdy
    cases k <;> simp [TransportType.readyState] at htgt
  cases p with
  | ready c k => exact absurd rfl (h c k)
  | startProbing nested e => exact hoth .probing (by simp) hsm
  | failed e next | restartFailed => exact hoth .failed (by simp) hsm
  | giveUp e => exact hoth .closed (by simp) hsm
  | _ => exact hsm

theorem mem_finishUpgrade {races : List (ℕ × Race)} {d : ℕ} {x : ℕ × Race}
    (h : x ∈ races.modify d finishUpgrade) :
    ∃ y ∈ races, x.1 = y.1 ∧ (y.2.Relayed → x.2.Relayed) ∧
      (x.2.claimable = true → y.2.claimable = true) := by
  obtain ⟨i, hi⟩ := mem_iff_getElem?.1 h
  rw [getElem?_modify] at hi
  obtain ⟨y, hy, hxy⟩ := Option.map_eq_some_iff.1 hi
  refine ⟨y, mem_of_getElem? hy, ?_⟩
  split at hxy
  · subst hxy
    refine ⟨rfl, id, fun hc => ?_⟩
    simp [finishUpgrade, Race.claimable, Race.setRacer, Race.Racer.undecided] at hc
  · subst hxy
    exact ⟨rfl, id, id⟩

abbrev Runs (cfg : Setup) (C : Pool Shared Point → Point → Prop) (s : Pool Shared Point) : Prop :=
  ((lifecycle cfg).system.guard (Program.onlyIf C)).Reachable s

variable {C : Pool Shared Point → Point → Prop}

theorem Runs.new (now : ℕ) :
    Runs cfg C ⟨.new now, []⟩ := .init ⟨⟨now, rfl⟩, rfl⟩

def Races : Race → Race → Prop :=
  Relation.ReflTransGen fun r r' => ∃ a, Race.Step r a r' ∧ a ≠ .claim ∧ a ≠ .upgraded

theorem Races.refl (r : Race) : Races r r := Relation.ReflTransGen.refl

theorem Races.step {r r' r'' : Race} {a : Race.Act} (h : Races r r') (hs : Race.Step r' a r'')
    (ha : a ≠ .claim ∧ a ≠ .upgraded) : Races r r'' :=
  h.tail ⟨a, hs, ha⟩

theorem Runs.races {s : Pool Shared Point} {d e : ℕ} {r r' : Race} (h : Runs cfg C s)
    (hr : s.shared.races[d]? = some (e, r)) (hrac : Races r r') :
    Runs cfg C ⟨{ s.shared with races := s.shared.races.set d (e, r') }, s.threads⟩ := by
  obtain ⟨hlt, hself⟩ := List.getElem?_eq_some_iff.1 hr
  induction hrac with
  | refl =>
    have hsame : s.shared.races.set d (e, r) = s.shared.races := by
      rw [← hself]
      exact set_getElem_self hlt
    rw [hsame]
    exact h
  | @tail r₁ r₂ _ hlast ih =>
    obtain ⟨a, hs, ha⟩ := hlast
    have hget : (s.shared.races.set d (e, r₁))[d]? = some (e, r₁) := getElem?_set_self hlt
    have hnext := Program.reachable_env ih (Env.race hget hs ha)
    dsimp only at hnext
    rw [set_set, append_nil] at hnext
    exact hnext

def initiator : Setup := ⟨true, true⟩

def steps (i n : ℕ) : List (ℕ × Bool) := List.replicate n (i, true)

def racing : Pool Shared Point where
  shared := { Shared.new 0 with
    sm := .probing, running := true, races := [(0, .start true false)] }
  threads := [.done, .await 0 0]

theorem Runs.racing [∀ s p, Decidable (C s p)] (h : (lifecycle initiator).exec C ⟨.new 0, [.start
      false]⟩ (steps 0 4 ++ steps 1 1) = some racing) :
    Runs initiator C racing :=
  Program.reachable_exec (Program.reachable_env (Runs.new 0) (Env.start rfl)) _ h

def lateIce : Race :=
  { ((((Race.start true false).setRacer .relay .delivering).setRacer .relay .done).setRacer .ice
      .delivering).setRacer .ice .delivered with
    result := [.ice], relayWon := true, main := .returned (.transport .relay) }

theorem races_lateIce : Races (.start true false) lateIce := by
  have hrel := ((((Races.refl (.start true false)).step (.dial (k := .relay) rfl)
    (by decide)).step (.deliver (k := .relay) rfl) (by decide)).step
    (@Race.Step.receive _ 0 .relay [] rfl rfl) (by decide)).step (.graceOver rfl) (by decide)
  exact (hrel.step (.dial (k := .ice) rfl) (by decide)).step (.deliver (k := .ice) rfl)
    (by decide)

def unreachable : Race :=
  { ((((Race.start true false).setRacer .ice (.reporting .other)).setRacer .ice .failed).setRacer
      .relay (.reporting .other)).setRacer .relay .failed with
    main := .returned (.error .other) }

theorem races_unreachable : Races (.start true false) unreachable := by
  have hice := (((Races.refl (.start true false)).step (.fail (k := .ice) (f := .other) rfl)
    (by decide)).step (.report (k := .ice) (f := .other) rfl) (by decide)).step
    (@Race.Step.countError _ 0 .other [] rfl rfl) (by decide)
  exact ((hice.step (.fail (k := .relay) (f := .other) rfl) (by decide)).step
    (.report (k := .relay) (f := .other) rfl) (by decide)).step
    (@Race.Step.countError _ 1 .other [] rfl rfl) (by decide)

def failedOnce : Pool Shared Point where
  shared := { racing.shared with
    sm := .failed, running := false, races := [(0, unreachable)]
    firstFailureAt := some 0, streak := some 0 }
  threads := [.done, .done, .restart (.timer 0 0)]

theorem Runs.failedOnce [∀ s p, Decidable (C s p)] (h : Runs initiator C Lifecycle.racing)
    (hexec : (lifecycle initiator).exec C ⟨{ Lifecycle.racing.shared with races := [(0,
      unreachable)] }, Lifecycle.racing.threads⟩ (steps 1 6) = some Lifecycle.failedOnce) :
    Runs initiator C Lifecycle.failedOnce :=
  Program.reachable_exec (Runs.races (d := 0) (e := 0) h rfl races_unreachable) (steps 1 6) hexec

def retried (now : ℕ) : Pool Shared Point where
  shared := { failedOnce.shared with
    sm := .probing, epoch := 1, running := true, now := now
    races := [(0, unreachable), (1, .start true false)] }
  threads := [.done, .done, .done, .await 1 1]

theorem Runs.retried [∀ s p, Decidable (C s p)] (h : Runs initiator C Lifecycle.failedOnce)
    (now : ℕ) (hexec : (lifecycle initiator).exec C ⟨{ Lifecycle.failedOnce.shared with now := 0 +
      now }, Lifecycle.failedOnce.threads⟩ (steps 2 13 ++ steps 3 1) = some (Lifecycle.retried now))
    :
    Runs initiator C (Lifecycle.retried now) := by
  have hwai := Program.reachable_env h (Env.tick now)
  rw [append_nil] at hwai
  exact Program.reachable_exec hwai _ hexec

end Lifecycle

end LatticeMesh.Transport
