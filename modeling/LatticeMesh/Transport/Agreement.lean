import LatticeMesh.Transport.Lifecycle

/-! # The state of a probe and its transport -/

namespace LatticeMesh.Transport.Lifecycle

open List Program

structure Agrees (s : Shared) : Prop where
  ice : s.sm = .iceReady → s.currentTransport = some .ice
  relay : s.sm = .relayReady → s.currentTransport = some .relay

def Point.inCall : Point → Bool
  | .store _ _ | .ready _ _ | .arm _ _ | .watch _ _ => true
  | _ => false

def Quiescent (s : Pool Shared Point) : Prop := ∀ p ∈ s.threads, p.inCall = false

def Point.stores : Point → Option TransportType
  | .store _ k => some k
  | _ => none

def Point.reports : Point → Option TransportType
  | .ready _ k => some k
  | _ => none

def StoresAlone (s : Pool Shared Point) (p : Point) : Prop :=
  ∀ k, p.stores = some k →
    (∀ q ∈ s.threads, ∀ j, q.reports = some j → j = k) ∧ (k = .relay → s.shared.sm ≠ .iceReady)

instance (s : Pool Shared Point) (p : Point) : Decidable (StoresAlone s p) :=
  inferInstanceAs (Decidable (∀ k, p.stores = some k →
    (∀ q ∈ s.threads, ∀ j, q.reports = some j → j = k) ∧ (k = .relay → s.shared.sm ≠ .iceReady)))

structure Settling (s : Pool Shared Point) : Prop where
  pending : ∀ c k, .ready c k ∈ s.threads → s.shared.currentTransport = some k
  ice : s.shared.sm = .iceReady → s.shared.currentTransport = some .ice
  relay : s.shared.sm = .relayReady →
    s.shared.currentTransport = some .relay ∨ ∃ c, .ready c .ice ∈ s.threads

variable {cfg : Setup} {choice : Bool}

variable {p : Point}

theorem currentTransport_effect {s : Shared} (h : ∀ c k, p ≠ .store c k) :
    (effect cfg choice s p).currentTransport = s.currentTransport := by
  cases p with
  | store c k => exact absurd rfl (h c k)
  | _ => rfl

variable {c : Caller} {k : TransportType}

theorem next_ready {s : Shared} (h : next choice s p = .ready c k) : p = .store c k := by
  unfold next at h
  (repeat' split at h) <;> cases h
  rfl

theorem ready_notMem_spawn {s : Shared} :
    .ready c k ∉ spawn s p := by
  unfold spawn
  split <;> simp

theorem env_frame {s t : Shared} {e : Event} {new : List Point} (h : Env s e t new) :
    t.sm = s.sm ∧ t.currentTransport = s.currentTransport ∧ ∀ c k, .ready c k ∉ new := by
  cases h <;> exact ⟨rfl, rfl, by simp⟩

namespace Settling

variable {s : Pool Shared Point} {i : ℕ}

theorem of_init (h : (lifecycle cfg).system.init s) : Settling s := by
  obtain ⟨⟨now, hs⟩, hthr⟩ := h
  refine ⟨fun c k hmem => ?_, fun hsm => ?_, fun hsm => ?_⟩
  · rw [hthr] at hmem
    cases hmem
  · rw [hs] at hsm
    cases hsm
  · rw [hs] at hsm
    cases hsm

theorem of_store (hi : s.threads[i]? = some (.store c k)) (halo : StoresAlone s (.store c k)) :
    Settling ((lifecycle cfg).after s i choice (.store c k)) := by
  obtain ⟨halo, hice⟩ := halo k rfl
  have hmem : .ready c k ∈ ((lifecycle cfg).after s i choice (.store c k)).threads :=
    next_mem_after hi
  refine ⟨fun c' k' hq => ?_, fun hsm => ?_, fun hsm => ?_⟩
  · obtain hq | hq | ⟨j, -, hj⟩ := mem_after hq
    · cases hq
      rfl
    · cases hq
    · rw [halo _ (mem_of_getElem? hj) k' rfl]
      rfl
  · cases k with
    | ice => rfl
    | relay => exact absurd hsm (hice rfl)
  cases k with
  | ice => exact .inr ⟨c, hmem⟩
  | relay => exact .inl rfl

theorem ready (h : Settling s) (hi : s.threads[i]? = some (.ready c k)) :
    Settling ((lifecycle cfg).after s i choice (.ready c k)) := by
  have hk : s.shared.currentTransport = some k := h.pending c k (mem_of_getElem? hi)
  refine ⟨fun c' k' hq => ?_, fun hsm => ?_, fun hsm => ?_⟩
  · obtain hq | hq | ⟨j, -, hj⟩ := mem_after hq
    · cases hq
    · cases hq
    · exact h.pending c' k' (mem_of_getElem? hj)
  · obtain hsame | ⟨hto, -⟩ := PeerState.of_transition hsm
    · exact h.ice hsame
    cases k with
    | ice => exact hk
    | relay => cases hto
  obtain hsame | ⟨hto, -⟩ := PeerState.of_transition hsm
  · obtain hrel | ⟨c', hpend⟩ := h.relay hsame
    · exact .inl hrel
    obtain rfl : k = .ice := Option.some.inj (hk.symm.trans (h.pending c' .ice hpend))
    have hice : s.shared.sm.transition .iceReady = .iceReady := by
      rw [hsame]
      rfl
    rw [show s.shared.sm.transition .iceReady = .relayReady from hsm] at hice
    cases hice
  cases k with
  | ice => cases hto
  | relay => exact .inl hk

theorem other (h : Settling s) (hi : s.threads[i]? = some p) (hsto : ∀ c k, p ≠ .store c k)
    (hrdy : ∀ c k, p ≠ .ready c k) :
    Settling ((lifecycle cfg).after s i choice p) := by
  have htra : ((lifecycle cfg).after s i choice p).shared.currentTransport =
      s.shared.currentTransport := currentTransport_effect hsto
  have hsame : ∀ k : TransportType, ((lifecycle cfg).after s i choice p).shared.sm =
      k.readyState → s.shared.sm = k.readyState := fun k hsm => sm_of_effect hrdy hsm
  refine ⟨fun c k hq => ?_, fun hsm => ?_, fun hsm => ?_⟩
  · rw [htra]
    obtain hq | hq | ⟨j, -, hj⟩ := mem_after hq
    · exact absurd (next_ready hq.symm) (hsto c k)
    · exact absurd hq ready_notMem_spawn
    · exact h.pending c k (mem_of_getElem? hj)
  · rw [htra]
    exact h.ice (hsame .ice hsm)
  rw [htra]
  obtain hrel | ⟨c, hpend⟩ := h.relay (hsame .relay hsm)
  · exact .inl hrel
  · exact .inr ⟨c, mem_after_of_ne hi hpend (Ne.symm (hrdy c .ice))⟩

theorem step {t : Pool Shared Point} {l : Move Bool Event} (h : Settling s)
    (hl : Program.onlyIf StoresAlone s l) (hs : (lifecycle cfg).Step s l t) : Settling t := by
  cases hs with
  | @run i c p hi _ =>
    cases p with
    | store c k => exact of_store hi (hl _ hi)
    | ready c k => exact h.ready hi
    | _ => exact h.other hi (by simp) (by simp)
  | env he =>
    obtain ⟨hsm, htra, hnew⟩ := env_frame he
    refine ⟨fun c k hq => ?_, fun hice => ?_, fun hrel => ?_⟩
    · obtain hq | hq := mem_append.1 hq
      · exact htra.trans (h.pending c k hq)
      · exact absurd hq (hnew c k)
    · exact htra.trans (h.ice (hsm.symm.trans hice))
    obtain hr | ⟨c, hr⟩ := h.relay (hsm.symm.trans hrel)
    · exact .inl (htra.trans hr)
    · exact .inr ⟨c, mem_append_left _ hr⟩

end Settling

/-- **State and transport agree** whenever no call that makes the probe ready is in progress, in
every run in which transports are stored alone. -/
theorem state_transport_agree {s : Pool Shared Point}
    (h : Runs cfg StoresAlone s) (hquiescent : Quiescent s) :
    Agrees s.shared := by
  have hs : Settling s := by
    refine LTS.Reachable.invariant (I := Settling) ?_ ?_ h
    · exact fun s hs => Settling.of_init hs
    · rintro s l t - hs ⟨hl, hstep⟩
      exact hs.step hl hstep
  refine ⟨hs.ice, fun hrel => (hs.relay hrel).resolve_right ?_⟩
  rintro ⟨c, hpend⟩
  cases hquiescent _ hpend

theorem relay_then_ice : ∃ s, Runs initiator StoresAlone s ∧ Quiescent s ∧
    s.shared.sm = .iceReady ∧ Agrees s.shared := by
  have hrac := Runs.racing (C := StoresAlone) rfl
  have hrdy := Program.reachable_exec (Runs.races (d := 0) (e := 0) hrac rfl races_lateIce)
    (steps 1 7) rfl
  have hcla := reachable_env hrdy
    (Env.claim (d := 0) (e := 0) (r := lateIce) rfl (.claim rfl rfl))
  have hupg := Program.reachable_exec hcla
    (steps 2 5) rfl
  suffices hqui : Quiescent _ from
    ⟨_, hupg, hqui, rfl, state_transport_agree hupg hqui⟩
  unfold Quiescent
  decide

theorem relay_in_iceReady : ∃ s, (lifecycle initiator).system.Reachable s ∧ Quiescent s ∧
    s.shared.sm = .iceReady ∧ s.shared.currentTransport = some .relay := by
  have hrac := Runs.racing (C := fun _ _ => True) rfl
  have hcla := reachable_env (Runs.races (d := 0) (e := 0) hrac rfl races_lateIce)
    (Env.claim (d := 0) (e := 0) (r := lateIce) rfl (.claim rfl rfl))
  have hupg := Program.reachable_exec hcla
    (steps 2 5) rfl
  have hwin := Program.reachable_exec hupg
    (steps 1 7) rfl
  refine ⟨_, hwin.of_guard, ?_, rfl, rfl⟩
  unfold Quiescent
  decide

end LatticeMesh.Transport.Lifecycle
