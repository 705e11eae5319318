import Mathlib
import LatticeMesh.Transport.Lifecycle

/-! # Who sends SYN packets -/

namespace LatticeMesh.Transport.Senders

open List Program

structure Shared where
  sm : PeerState := .created
  epoch : ℕ := 0
  running : Bool := false
  restartInProgress : Bool := false
  dialer : TransportType → Option ℕ := fun k => if k = .ice then some 0 else some 1
  newDialers : Bool := true
  dialers : ℕ := 2
  senders : ℕ := 0
  cancel : ℕ → Option ℕ := fun _ => none
  cancelled : List ℕ := []
  stopped : List ℕ := []

inductive Point where
  | start (nested : Bool)
  | startEpoch (nested : Bool)
  | startProbing (nested : Bool) (e : ℕ)
  | startEnd (nested : Bool)
  | discover (e : ℕ)
  | settle (e : ℕ)
  | failure
  | restart
  | restartDialers
  | restartEpoch
  | restartRunning
  | close
  | closeDialer (d : ℕ)
  | ack (d : ℕ)
  | prepare (k : TransportType) (d : ℕ)
  | register (k : TransportType) (d : ℕ)
  | send (k : TransportType) (d i : ℕ)
  | done
  deriving DecidableEq

structure Choice where
  ok : Bool := true
  kind : TransportType := .ice
  giveUp : Bool := false

structure Setup where
  enableRelay : Bool

variable (cfg : Setup)

def Setup.replaces (k : TransportType) : Bool := k = .ice || cfg.enableRelay

def stop (s : Shared) (d : ℕ) : Shared := { s with cancelled := (s.cancel d).toList ++ s.cancelled }

def effect (c : Choice) (s : Shared) : Point → Shared
  | .start _ => { s with running := true }
  | .startProbing _ _ => { s with
      running := s.running && s.sm.allows .probing
      sm := s.sm.transition .probing }
  | .startEnd nested => { s with restartInProgress := s.restartInProgress && !nested }
  | .settle e =>
    if s.epoch ≠ e then s
    else if c.ok then { s with running := false, sm := s.sm.transition c.kind.readyState }
    else { s with running := false }
  | .failure =>
    let sm := s.sm.transition .failed
    { s with sm := if c.giveUp then sm.transition .closed else sm }
  | .restart => { s with restartInProgress := true }
  | .restartDialers =>
    if s.newDialers then
      { s with
        dialer := fun k => if cfg.replaces k then some (s.dialers + if k = .ice then 0 else 1)
          else s.dialer k
        dialers := s.dialers + 2 }
    else { s with restartInProgress := false }
  | .restartEpoch => { s with epoch := s.epoch + 1, sm := s.sm.transition .failed }
  | .restartRunning => { s with running := false }
  | .close => { s with newDialers := false, dialer := fun _ => none }
  | .closeDialer d => if d ∈ s.stopped then s else { stop s d with stopped := d :: s.stopped }
  | .ack d => stop s d
  | .register _ d =>
    { stop s d with
      senders := s.senders + 1
      cancel := Function.update s.cancel d (some s.senders) }
  | _ => s

def next (c : Choice) (s : Shared) : Point → Point
  | .start nested => if s.running then .startEnd nested else .startEpoch nested
  | .startEpoch nested => .startProbing nested s.epoch
  | .startProbing nested _ => .startEnd nested
  | .discover e => .settle e
  | .settle e => if s.epoch = e ∧ c.ok = false then .failure else .done
  | .failure => if c.ok && !c.giveUp then .restart else .done
  | .restart => if s.restartInProgress then .done else .restartDialers
  | .restartDialers => if s.newDialers then .restartEpoch else .done
  | .restartEpoch => .restartRunning
  | .restartRunning => .start true
  | .register k d => .send k d s.senders
  | .send k d i =>
    if c.ok ∨ i ∈ s.cancelled ∨ k = .relay ∧ d ∈ s.stopped then .done else .send k d i
  | _ => .done

section

-- the equations are derived once, before the proofs
attribute [local simp] effect next

end

def spawn (c : Choice) (s : Shared) : Point → List Point
  | .startProbing _ e => if s.sm.allows .probing then [.discover e] else []
  | .discover _ =>
    ((s.dialer .ice).map (.prepare .ice)).toList ++
      if cfg.enableRelay then ((s.dialer .relay).map (.prepare .relay)).toList else []
  | .close => ((s.dialer .ice).toList ++ (s.dialer .relay).toList).map .closeDialer
  | .prepare k d => if k = .relay ∨ c.ok then [.register k d] else []
  | _ => []

inductive Env (s : Shared) : Unit → Shared → List Point → Prop
  | start : Env s () s [.start false]
  | restart : Env s () s [.restart]
  | close : Env s () s [.close]
  | ack (d : ℕ) : Env s () s [.ack d]
  | closeDialer (d : ℕ) : Env s () s [.closeDialer d]

def senders : Program Shared Point Choice Unit where
  init s := s = {}
  enabled _ p := p ≠ .done
  effect := effect cfg
  next := next
  spawn := spawn cfg
  env := Env

instance (s : Shared) (p : Point) : Decidable ((senders cfg).enabled s p) :=
  inferInstanceAs (Decidable (p ≠ .done))

def Point.holds : Point → Option (TransportType × ℕ)
  | .prepare k d | .register k d | .send k d _ => some (k, d)
  | _ => none

def Point.sends : Point → Option (TransportType × ℕ)
  | .register k d | .send k d _ => some (k, d)
  | _ => none

def Retired (s : Pool Shared Point) : Point → Prop
  | .restartDialers => s.shared.newDialers = true →
    ∀ q ∈ s.threads, ∀ k d, q.holds = some (k, d) → cfg.replaces k = false
  | .close => ∀ q ∈ s.threads, q.holds = none
  | _ => True

variable {cfg} {s : Pool Shared Point} {c : Choice} {p q : Point} {k : TransportType} {d : ℕ}

theorem dialer_effect (h : Retired cfg s p) (hq : q ∈ s.threads) (hho : q.holds = some (k, d)) :
    (effect cfg c s.shared p).dialer k = s.shared.dialer k := by
  cases p with
  | restartDialers =>
    dsimp only [effect]
    split
    · next hnew =>
      dsimp only
      rw [h hnew q hq k d hho]
      rfl
    · rfl
  | close =>
    rw [h q hq] at hho
    cases hho
  | settle e =>
    dsimp only [effect]
    repeat' split
    all_goals rfl
  | closeDialer e =>
    dsimp only [effect]
    split <;> rfl
  | _ => rfl

theorem holds_next (h : (next c s.shared p).holds = some (k, d)) : p.holds = some (k, d) := by
  cases p with
  | send k' d' i =>
    dsimp only [next] at h
    split at h
    · cases h
    · exact h
  | register => exact h
  | _ =>
    exfalso
    dsimp only [next] at h
    (repeat' split at h) <;> cases h

theorem holds_spawn (hq : q ∈ spawn cfg c s.shared p) (h : q.holds = some (k, d)) :
    p.holds = some (k, d) ∨ ∃ e, p = .discover e ∧ s.shared.dialer k = some d := by
  cases p with
  | prepare k' d' =>
    dsimp only [spawn] at hq
    split at hq
    · obtain rfl := mem_singleton.1 hq
      exact .inl h
    · cases hq
  | discover e =>
    refine .inr ⟨e, rfl, ?_⟩
    have hmem : ∀ k', q ∈ ((s.shared.dialer k').map (Point.prepare k')).toList →
        s.shared.dialer k = some d := by
      intro k' hq
      obtain ⟨d', hd', rfl⟩ := Option.map_eq_some_iff.1 (Option.mem_toList.1 hq)
      cases h
      exact hd'
    obtain hq | hq := mem_append.1 hq
    · exact hmem _ hq
    split at hq
    · exact hmem _ hq
    · cases hq
  | startProbing nested e =>
    dsimp only [spawn] at hq
    split at hq
    · obtain rfl := mem_singleton.1 hq
      cases h
    · cases hq
  | close =>
    obtain ⟨d', -, rfl⟩ := List.mem_map.1 hq
    cases h
  | _ => cases hq

/-- **Who sends**, in every run in which a dialer is only replaced or taken away when it has no
sender: each goroutine that sends SYN packets belongs to a current dialer. -/
theorem senders_current (h : ((senders cfg).system.guard
    (Program.onlyIf (Retired cfg))).Reachable s) :
    ∀ p ∈ s.threads, ∀ k d, p.sends = some (k, d) → s.shared.dialer k = some d := by
  have hcur : ∀ p ∈ s.threads, ∀ k d, p.holds = some (k, d) → s.shared.dialer k = some d := by
    refine (Program.holds (I := fun _ => True)
      (P := fun s p => ∀ k d, p.holds = some (k, d) → s.dialer k = some d) (fun _ _ => trivial)
      ?_ ?_ ?_ h).2
    · intro s i c p hs hi _ hG
      have hp := mem_of_getElem? hi
      have hret := hG p hi
      refine ⟨trivial, fun k d hnext => ?_, fun q hq k d hq' => ?_⟩
      · exact (dialer_effect hret hp (holds_next hnext)).trans
          (hs.2 p hp k d (holds_next hnext))
      obtain hold | ⟨e, rfl, hnow⟩ := holds_spawn hq hq'
      · exact (dialer_effect hret hp hold).trans (hs.2 p hp k d hold)
      · exact hnow
    · intro s i c p q j hs hi _ hG _ hj k d hq
      have hmem := mem_of_getElem? hj
      exact (dialer_effect (hG p hi) hmem hq).trans (hs.2 q hmem k d hq)
    rintro s e t new hs henv -
    cases henv <;> refine ⟨trivial, fun q hq k d hq' => ?_, hs.2⟩ <;>
      (obtain rfl := mem_singleton.1 hq; cases hq')
  intro p hp k d hsen
  refine hcur p hp k d ?_
  cases p <;> first | exact hsen | cases hsen

theorem current_dialer_sends : ∃ s,
    ((senders ⟨true⟩).system.guard (Program.onlyIf (Retired ⟨true⟩))).Reachable s ∧
    (∃ p ∈ s.threads, p.sends = some (.relay, 1)) ∧ s.shared.dialer .relay = some 1 := by
  have hinit : ((senders ⟨true⟩).system.guard (Program.onlyIf (Retired ⟨true⟩))).Reachable
      ⟨{}, []⟩ := .init ⟨rfl, rfl⟩
  have hst := reachable_env hinit Env.start
  obtain ⟨s, hexec, p, hp, hsen⟩ := Program.exists_exec (M := senders ⟨true⟩)
    (C := fun _ p => p ≠ .restartDialers ∧ p ≠ .close) (s := ⟨{}, [.start false]⟩)
    (l := [0, 0, 0, 1, 3, 4].map fun i => (i, {}))
    (Q := fun s => ∃ p ∈ s.threads, p.sends = some (.relay, 1)) (by decide)
  have hs := (steps_exec (fun s i c p hi hne => onlyIf_run hi (by
    cases p <;> trivial)) _ hexec).reachable hst
  exact ⟨s, hs, ⟨p, hp, hsen⟩, senders_current hs p hp _ _ hsen⟩

theorem replaced_dialer_sends : ∃ s, (senders ⟨true⟩).system.Reachable s ∧
    ∃ p ∈ s.threads, p.sends = some (.relay, 1) ∧ s.shared.dialer .relay ≠ some 1 := by
  have hinit : ((senders ⟨true⟩).system.guard (Program.onlyIf fun _ _ => True)).Reachable
      ⟨{}, []⟩ := .init ⟨rfl, rfl⟩
  have hst := reachable_env hinit Env.start
  have hres := reachable_env hst Env.restart
  obtain ⟨s, hs, hsen⟩ := exists_of_exec
    (Q := fun s => ∃ p ∈ s.threads, p.sends = some (.relay, 1) ∧ s.shared.dialer .relay ≠ some 1)
    hres ([0, 0, 0, 2, 4, 5, 1, 1].map fun i => (i, {})) (by decide)
  exact ⟨s, hs.of_guard, hsen⟩

end LatticeMesh.Transport.Senders
