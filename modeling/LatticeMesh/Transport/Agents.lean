import Mathlib
import LatticeMesh.Lib.Threads

/-! # The ICE agent of a dialer -/

namespace LatticeMesh.Transport.Agents

open List Program

inductive Phase where
  | fresh
  | flagged
  | taken (agent : Bool)
  | returned
  deriving DecidableEq

structure Shared where
  agent : Bool := false
  pending : List ℕ := []
  phase : Phase := .fresh
  agents : ℕ := 0
  live : ℕ := 0
  buffered : List ℕ := []
  replayed : List ℕ := []

inductive Point where
  | syn
  | ack
  | check (syn : Bool)
  | create (syn : Bool)
  | store (syn : Bool)
  | sendAck (pending : List ℕ)
  | gather (pending : List ℕ)
  | replay (pending : List ℕ)
  | offer (candidate : ℕ)
  | offerAgent (candidate : ℕ)
  | add (candidate : ℕ)
  | done
  deriving DecidableEq

def effect (ok : Bool) (s : Shared) : Point → Shared
  | .create _ => if ok then { s with agents := s.agents + 1, live := s.live + 1 } else s
  | .store syn =>
    if syn || !s.agent then { s with agent := true, pending := [] }
    else { s with live := s.live - 1 }
  | .offerAgent candidate =>
    if s.agent then s
    else
      { s with pending := s.pending ++ [candidate], buffered := s.buffered ++ [candidate] }
  | .replay (candidate :: _) => { s with replayed := s.replayed ++ [candidate] }
  | _ => s

def next (ok : Bool) (s : Shared) : Point → Point
  | .syn => if s.phase = .fresh then .check true else .done
  | .check syn => if s.agent then .done else .create syn
  | .create syn => if ok then .store syn else .done
  | .store true => .sendAck s.pending
  | .store false => if s.agent then .done else .replay s.pending
  | .sendAck pending => if ok then .gather pending else .done
  | .gather pending => if ok then .replay pending else .done
  | .replay (_ :: rest) => .replay rest
  | .offer candidate => if s.phase = .fresh ∧ ok = true then .offerAgent candidate else .done
  | .offerAgent candidate => if s.agent then .add candidate else .done
  | _ => .done

section

-- the equations are derived once, before the proofs
attribute [local simp] next effect

end

inductive Event where
  | call (p : Point)
  | close
  | closeTake
  | closeAgent

inductive Env (s : Shared) : Event → Shared → List Point → Prop
  | call {p : Point} (h : p = .syn ∨ p = .ack ∨ p = .check false ∨ ∃ c, p = .offer c) :
      Env s (.call p) s [p]
  | close (h : s.phase = .fresh) : Env s .close { s with phase := .flagged } []
  | closeTake (h : s.phase = .flagged) :
      Env s .closeTake { s with phase := .taken s.agent, agent := false } []
  | closeAgent {agent : Bool} (h : s.phase = .taken agent) :
      Env s .closeAgent { s with phase := .returned, live := s.live - agent.toNat } []

def program : Program Shared Point Bool Event where
  init s := s = {}
  enabled _ p := p ≠ .done
  effect := effect
  next := next
  spawn _ _ _ := []
  env := Env

instance (s : Shared) (p : Point) : Decidable (program.enabled s p) :=
  inferInstanceAs (Decidable (p ≠ .done))

def Point.creates : Point → Bool
  | .create _ => true
  | _ => false

def Point.stores : Point → Bool
  | .store _ => true
  | _ => false

def Point.carries : Point → List ℕ
  | .sendAck pending | .gather pending | .replay pending => pending
  | _ => []

def Phase.owns : Phase → ℕ
  | .taken agent => agent.toNat
  | _ => 0

def Phase.took : Phase → Bool
  | .taken _ | .returned => true
  | _ => false

def creating (threads : List Point) : ℕ :=
  threads.countP Point.creates + threads.countP Point.stores

def Exclusive (s : Pool Shared Point) : Move Bool Event → Prop
  | .run i ok => ∀ p, s.threads[i]? = some p →
    match p with
    | .check _ => s.shared.phase = .fresh ∧ creating s.threads = 0
    | .sendAck pending | .gather pending => ok = true ∨ pending = []
    | _ => True
  | .env .close => creating s.threads = 0
  | .env _ => True

structure Sole (s : Shared) (creates stores : ℕ) (carried : ℕ → ℕ) : Prop where
  live : s.live = s.agent.toNat + stores + s.phase.owns
  one : creates + stores ≤ 1
  idle : 1 ≤ creates + stores → s.agent = false ∧ s.phase = .fresh
  gone : s.phase.took = true → s.agent = false
  agents : s.agents ≤ 1
  first : s.phase = .fresh → s.agents = s.agent.toNat + stores
  empty : s.agent = true → s.pending = []
  kept : ∀ c, s.pending.count c + carried c + s.replayed.count c = s.buffered.count c

variable {s : Shared} {a b a' b' : ℕ} {k k' : ℕ → ℕ} {ok : Bool} {p : Point}

theorem Sole.run (hs : Sole s a b k)
    (ha : a' + p.creates.toNat = a + (next ok s p).creates.toNat)
    (hb : b' + p.stores.toNat = b + (next ok s p).stores.toNat)
    (hk : ∀ c, k' c + p.carries.count c = k c + (next ok s p).carries.count c)
    (hche : ∀ syn, p = .check syn → s.phase = .fresh ∧ a + b = 0)
    (hlost : p.carries = [] ∨ p = .replay p.carries ∨ ok = true) :
    Sole (effect ok s p) a' b' k' := by
  have hsti : effect ok s p = s → (next ok s p).creates = p.creates →
      (next ok s p).stores = p.stores → (next ok s p).carries = p.carries →
      Sole (effect ok s p) a' b' k' := by
    intro he hc hst hca
    rw [hc] at ha
    rw [hst] at hb
    rw [hca] at hk
    obtain rfl := Nat.add_right_cancel ha
    obtain rfl := Nat.add_right_cancel hb
    obtain rfl : k' = k := funext fun c => Nat.add_right_cancel (hk c)
    exact he.symm ▸ hs
  obtain ⟨hlive, hone, hidle, hgone, hage, hfst, hemp, hkept⟩ := hs
  cases p with
  | check syn =>
    cases hag : s.agent with
    | true =>
      have hnext : next ok s (.check syn) = .done := if_pos hag
      refine hsti rfl ?_ ?_ ?_ <;> rw [hnext] <;> rfl
    | false =>
      obtain ⟨hfr, hzero⟩ := hche syn rfl
      simp [next, hag, Point.creates, Point.stores, Point.carries] at ha hb hk
      obtain rfl := funext hk
      subst hb
      exact ⟨hlive, by omega, fun _ => ⟨hag, hfr⟩, hgone, hage, hfst, hemp, hkept⟩
  | create syn =>
    cases ok with
    | false =>
      simp [next, Point.creates, Point.stores, Point.carries] at ha hb hk
      obtain rfl := funext hk
      subst hb
      exact ⟨hlive, by omega, fun _ => hidle (by omega), hgone, hage, hfst, hemp, hkept⟩
    | true =>
      simp [next, Point.creates, Point.stores, Point.carries] at ha hb hk
      obtain rfl := funext hk
      obtain ⟨hag, hfr⟩ := hidle (by omega)
      have hnone := hfst hfr
      rw [hag, Bool.toNat_false] at hlive hnone
      refine ⟨?_, by omega, fun _ => ⟨hag, hfr⟩, hgone, ?_, fun _ => ?_, hemp, hkept⟩ <;>
        simp only [effect, if_true, hag, Bool.toNat_false] <;> omega
  | store syn =>
    have hnext : (next ok s (.store syn)).stores = false := by
      cases syn <;> cases hag : s.agent <;> simp [next, hag, Point.stores]
    rw [hnext] at hb
    simp only [Point.stores, Bool.toNat_true, Bool.toNat_false] at hb
    obtain ⟨hag, hfr⟩ := hidle (by omega)
    have hcar : (next ok s (.store syn)).carries = s.pending := by
      cases syn <;> simp [next, hag, Point.carries]
    have hcre : (next ok s (.store syn)).creates = false := by
      cases syn <;> simp [next, hag, Point.creates]
    have heff : effect ok s (.store syn) = { s with agent := true, pending := [] } := by
      simp [effect, hag]
    rw [hcre] at ha
    simp only [Point.creates, Bool.toNat_false, Nat.add_zero] at ha
    rw [hag, Bool.toNat_false] at hlive
    rw [hag, Bool.toNat_false] at hfst
    rw [heff]
    refine ⟨?_, by omega, fun _ => by omega, fun htook => ?_, hage, fun h => ?_, fun _ => rfl,
      fun c => ?_⟩
    · simp only [Bool.toNat_true]
      omega
    · dsimp only at htook
      rw [hfr] at htook
      cases htook
    · have := hfst h
      simp only [Bool.toNat_true]
      omega
    have hc := hk c
    rw [hcar] at hc
    simp only [Point.carries, count_nil, Nat.add_zero, Nat.zero_add] at hc ⊢
    rw [hc, ← hkept c]
    omega
  | offerAgent x =>
    cases hag : s.agent with
    | true =>
      have hnext : next ok s (.offerAgent x) = .add x := if_pos hag
      refine hsti (if_pos hag) ?_ ?_ ?_ <;> rw [hnext] <;> rfl
    | false =>
      simp [next, hag, Point.creates, Point.stores, Point.carries] at ha hb hk
      obtain rfl := funext hk
      subst ha hb
      have heff : effect ok s (.offerAgent x) =
          { s with pending := s.pending ++ [x], buffered := s.buffered ++ [x] } := by
        simp [effect, hag]
      rw [heff]
      refine ⟨hlive, hone, hidle, hgone, hage, hfst, fun h => ?_, fun c => ?_⟩
      · rw [hag] at h
        cases h
      have := hkept c
      simp only [count_append]
      omega
  | replay l =>
    cases l with
    | nil => exact hsti rfl rfl rfl rfl
    | cons x rest =>
      obtain rfl := Nat.add_right_cancel ha
      obtain rfl := Nat.add_right_cancel hb
      refine ⟨hlive, hone, hidle, hgone, hage, hfst, hemp, fun c => ?_⟩
      have hc := hk c
      have := hkept c
      simp only [effect, next, Point.carries, count_append, count_cons,
        count_nil] at hc ⊢
      omega
  | sendAck l | gather l =>
    obtain hnil | hrep | rfl := hlost
    · obtain rfl : l = [] := hnil
      cases ok <;> exact hsti rfl rfl rfl rfl
    · cases hrep
    · exact hsti rfl rfl rfl rfl
  | syn | offer x =>
    refine hsti rfl ?_ ?_ ?_ <;> dsimp only [next] <;> split <;> rfl
  | _ => exact hsti rfl rfl rfl rfl

theorem Sole.env {e : Event} {t : Shared} {new : List Point} (hs : Sole s a b k)
    (henv : Env s e t new) (hG : e = .close → a + b = 0) : Sole t a b k := by
  obtain ⟨hlive, hone, hidle, hgone, hage, hfst, hemp, hkept⟩ := hs
  cases henv with
  | call => exact ⟨hlive, hone, hidle, hgone, hage, hfst, hemp, hkept⟩
  | close hph =>
    have hzero := hG rfl
    rw [hph] at hlive
    exact ⟨hlive, hone, fun h => by omega, nofun, hage, nofun, hemp, hkept⟩
  | closeTake hph =>
    have hbusy : a + b = 0 := Nat.eq_zero_of_not_pos fun h => by
      have := (hidle h).2
      rw [hph] at this
      cases this
    rw [hph] at hlive
    refine ⟨?_, hone, fun h => by omega, fun _ => rfl, hage, nofun, nofun, hkept⟩
    simp only [Phase.owns, Bool.toNat_false] at hlive ⊢
    omega
  | @closeAgent agent hph =>
    have hag := hgone (by rw [hph]; rfl)
    have hbusy : a + b = 0 := Nat.eq_zero_of_not_pos fun h => by
      have := (hidle h).2
      rw [hph] at this
      cases this
    rw [hph, hag] at hlive
    refine ⟨?_, hone, fun h => by omega, fun _ => hag, hage, nofun, hemp, hkept⟩
    simp only [Phase.owns, hag, Bool.toNat_false] at hlive ⊢
    omega

theorem sole_reachable {s : Pool Shared Point} (h : (program.system.guard Exclusive).Reachable s) :
    Sole s.shared (s.threads.countP Point.creates) (s.threads.countP Point.stores)
      fun c => (s.threads.flatMap Point.carries).count c := by
  refine h.invariant (I := fun s => Sole s.shared (s.threads.countP Point.creates)
    (s.threads.countP Point.stores) fun c => (s.threads.flatMap Point.carries).count c) ?_ ?_
  · rintro ⟨s, threads⟩ ⟨rfl, rfl⟩
    exact ⟨rfl, Nat.zero_le 1, nofun, nofun, Nat.zero_le 1, fun _ => rfl, nofun, fun _ => rfl⟩
  rintro s l t - hs ⟨hG, hstep⟩
  cases hstep with
  | @run i ok p hi hen =>
    have hcond := hG p hi
    refine hs.run (countP_after hi _) (countP_after hi _)
      (count_flatMap_after hi _) ?_ ?_
    · rintro syn rfl
      exact hcond
    cases p with
    | sendAck | gather => exact hcond.symm.imp_right .inr
    | replay l => exact .inr (.inl rfl)
    | _ => exact .inl rfl
  | @env e t new he =>
    have hs' := hs.env he (by rintro rfl; exact hG)
    have hqt : ∀ q ∈ new, q.creates = false ∧ q.stores = false ∧ q.carries = [] := by
      intro q hq
      cases he with
      | call hp =>
        obtain rfl := mem_singleton.1 hq
        obtain rfl | rfl | rfl | ⟨c, rfl⟩ := hp <;> exact ⟨rfl, rfl, rfl⟩
      | _ => cases hq
    have hcre : new.countP Point.creates = 0 :=
      countP_eq_zero.2 fun q hq => by simp [(hqt q hq).1]
    have hsto : new.countP Point.stores = 0 :=
      countP_eq_zero.2 fun q hq => by simp [(hqt q hq).2.1]
    have hcar : new.flatMap Point.carries = [] :=
      flatMap_eq_nil_iff.2 fun q hq => (hqt q hq).2.2
    simpa [hcre, hsto, hcar] using hs'

/-- **One agent per dialer**, in every run in which no handler looks for an agent while another is
creating one or the dialer is closed, `Close` is not called meanwhile, and an ACK or
`GatherCandidates` only fails when no candidates were kept: at most one agent is ever created; each
candidate that was kept is in the buffer, while there is no agent, or on its way to the agent, or
was added to it, exactly once; and once `Close` has returned no agent is open. -/
theorem one_agent {s : Pool Shared Point} (h : (program.system.guard Exclusive).Reachable s) :
    s.shared.agents ≤ 1 ∧ s.shared.live ≤ 1 ∧
    (∀ c, s.shared.pending.count c + (s.threads.flatMap Point.carries).count c +
      s.shared.replayed.count c = s.shared.buffered.count c) ∧
    (s.shared.agent = true → s.shared.pending = []) ∧
    (s.shared.phase = .returned → s.shared.live = 0) := by
  obtain ⟨hlive, hone, hidle, hgone, hage, -, hemp, hkept⟩ := sole_reachable h
  have hsum : s.shared.agent.toNat + s.shared.phase.owns ≤ 1 := by
    cases hph : s.shared.phase with
    | taken agent =>
      rw [hgone (by rw [hph]; rfl)]
      exact (Nat.zero_add _).trans_le (Bool.toNat_le agent)
    | _ => exact Bool.toNat_le _
  refine ⟨hage, ?_, hkept, hemp, fun hret => ?_⟩
  · by_cases hbusy : 1 ≤ s.threads.countP Point.creates + s.threads.countP Point.stores
    · obtain ⟨hag, hfr⟩ := hidle hbusy
      rw [hag, hfr] at hlive
      simp only [Bool.toNat_false, Phase.owns] at hlive
      omega
    · omega
  have hbusy := mt (fun h => (hidle h).2) (by rw [hret]; exact nofun)
  rw [hgone (by rw [hret]; rfl), hret] at hlive
  simp only [Bool.toNat_false, Phase.owns] at hlive
  omega

theorem kept_candidate_added : ∃ s, (program.system.guard Exclusive).Reachable s ∧
    s.shared.buffered = [7] ∧ s.shared.replayed = [7] ∧ s.shared.agents ≤ 1 := by
  have hinit : (program.system.guard Exclusive).Reachable ⟨{}, []⟩ := .init ⟨rfl, rfl⟩
  have hcall : ∀ {s : Pool Shared Point} {p : Point},
      (program.system.guard Exclusive).Reachable s → Env s.shared (.call p) s.shared [p] →
      (program.system.guard Exclusive).Reachable ⟨s.shared, s.threads ++ [p]⟩ := fun h he =>
    .step (l := .env (.call _)) h ⟨trivial, .env he⟩
  have hoff := hcall hinit (.call (.inr (.inr (.inr ⟨7, rfl⟩))))
  have hpre := hcall hoff (.call (.inr (.inr (.inl rfl))))
  obtain ⟨s, hexec, hbuf, hrep⟩ := Program.exists_exec (M := program)
    (C := fun s p => s.shared.phase = .fresh ∧ (creating s.threads = 0 ∨ ∀ b, p ≠ .check b) ∧
      (p.carries = [] ∨ p = .replay p.carries)) (s := ⟨{}, [.offer 7, .check false]⟩)
    (l := [0, 0, 1, 1, 1, 1].map fun i => (i, true))
    (Q := fun s => s.shared.buffered = [7] ∧ s.shared.replayed = [7]) (by decide)
  have hs := (steps_exec (G := Exclusive) (fun s i c p hi hp q hq => by
    cases hi.symm.trans hq
    cases p with
    | check b => exact ⟨hp.1, hp.2.1.resolve_right fun h => h b rfl⟩
    | sendAck | gather => exact .inr (hp.2.2.resolve_right nofun)
    | _ => trivial) _ hexec).reachable hpre
  exact ⟨s, hs, hbuf, hrep, (one_agent hs).1⟩

theorem two_agents_open : ∃ s, program.system.Reachable s ∧ s.shared.live = 2 := by
  have hinit : (program.system.guard (Program.onlyIf fun _ _ => True)).Reachable ⟨{}, []⟩ :=
    .init ⟨rfl, rfl⟩
  have hone := reachable_env hinit (Env.call (.inl rfl))
  have htwo := reachable_env hone (Env.call (.inl rfl))
  obtain ⟨s, hs, hlive⟩ := exists_of_exec (Q := fun s => s.shared.live = 2) htwo
    ([0, 0, 1, 1, 0, 0, 1, 1].map fun i => (i, true)) (by decide)
  exact ⟨s, hs.of_guard, hlive⟩

end LatticeMesh.Transport.Agents
