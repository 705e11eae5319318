import Mathlib
import LatticeMesh.Reconcile.Exclusion

/-! # Expiry of agent identities -/

namespace LatticeMesh.Reconcile.IdentityGC

open List Queues

inductive Phase where
  | unset
  | pending
  | active
  | expired
  | revoked
  deriving DecidableEq

def Phase.terminal (p : Phase) : Bool := p = .expired ∨ p = .revoked

structure Round where
  now : Int
  getFails : Bool
  updateFails : Bool
  applied : Bool

def second : Int := 10 ^ 9

def requeueAfter (now deadline : Int) : Int :=
  max second ((max (-2 ^ 63) (min (2 ^ 63 - 1) (deadline - now)) + second).bmod (2 ^ 64))

def Round.update (r : Round) (phase new : Phase) (outcome : Outcome) : Phase × Outcome :=
  if r.updateFails then (if r.applied then new else phase, .failed) else (new, outcome)

def reconcile (expiresAt : Option Int) (phase : Phase) (r : Round) : Phase × Outcome :=
  if r.getFails then (phase, .failed)
  else if phase.terminal then (phase, .done 0)
  else if expiresAt.any (· < r.now) then r.update phase .expired (.done 0)
  else
    let outcome := .done (expiresAt.elim 0 (requeueAfter r.now))
    if phase = .unset ∨ phase = .pending then r.update phase .active outcome else (phase, outcome)

structure Identity where
  phase : Phase
  rounds : ℕ

def Follows (expiresAt : Option Int) (req : Request) {n : ℕ} (s : State n) (x y : Identity)
    (r : Round) : Label n → Prop
  | .finish w outcome =>
    if s.workers w = .running req then
      (y.phase, outcome) = reconcile expiresAt x.phase r ∧ y.rounds = x.rounds + 1
    else y = x
  | _ => y = x

def system (cfg : Config) (req : Request) (expiresAt : Option Int) :
    LTS (State cfg.workers × Identity) (Label cfg.workers × Round) where
  init s := (runner cfg).init s.1 ∧ s.2.rounds = 0
  step s l t := Step cfg s.1 l.1 t.1 ∧ Follows expiresAt req s.1 s.2 t.2 l.2 l.1

def Outcome.Requeues (o : Outcome) : Prop := o = .failed ∨ ∃ d > 0, o = .done d

def Phase.Moves (p q : Phase) : Prop :=
  q = p ∨ (p = .unset ∨ p = .pending) ∧ q = .active ∨ p.terminal = false ∧ q = .expired

theorem reconcile_spec (expiresAt : Int) (phase : Phase) (r : Round) :
    phase.Moves (reconcile expiresAt phase r).1 ∧
    (phase ≠ .expired → (reconcile expiresAt phase r).1 = .expired → expiresAt < r.now) ∧
    ((reconcile expiresAt phase r).1.terminal ∨
      Outcome.Requeues (reconcile expiresAt phase r).2) := by
  have hpos : 0 < requeueAfter r.now expiresAt := lt_of_lt_of_le (by decide) (le_max_left _ _)
  unfold reconcile Round.update Phase.Moves Outcome.Requeues
  obtain ⟨now, get, upd, app⟩ := r
  cases get <;> cases upd <;> cases app <;> cases phase <;> by_cases h : expiresAt < now <;>
    simp [Phase.terminal, h, hpos]

section

variable {cfg : Config} {req : Request} {expiresAt : Int} {s t : State cfg.workers} {x y : Identity}

def Waiting (req : Request) (q : Queues) : Prop :=
  (∃ e ∈ q.events, e.action = .requeue req) ∨ req ∈ q.pending ∨ req ∈ q.inFlight

structure Scheduled (req : Request) (s : State cfg.workers) (x : Identity) : Prop where
  starting : s.scheduler = .starting → x.rounds = 0 ∧ ∀ w, (s.workers w).request = none
  outcome : ∀ w o, s.workers w = .completing req o → x.phase.terminal ∨ Outcome.Requeues o
  waiting : 0 < x.rounds → x.phase.terminal = false → Waiting req s.queues

theorem Phase.Moves.terminal {p q : Phase} (h : p.Moves q) (hp : p.terminal = true) : q = p := by
  obtain heq | ⟨rfl | rfl, -⟩ | ⟨hp', -⟩ := h
  · exact heq
  · cases hp
  · cases hp
  · cases hp.symm.trans hp'

theorem Waiting.mono {q q' : Queues} (h : Waiting req q) (he : q.events ⊆ q'.events)
    (hp : q.pending ⊆ q'.pending) (hi : q.inFlight ⊆ q'.inFlight) : Waiting req q' :=
  h.imp (fun ⟨e, hmem, ha⟩ => ⟨e, he hmem, ha⟩) (Or.imp (@hp req) (@hi req))

theorem Scheduled.keep (h : Scheduled req s x) (hsch : t.scheduler = .starting →
      s.scheduler = .starting) (hw : ∀ w, t.workers w = s.workers w ∨ (t.workers w).request = none)
    (hq : x.phase.terminal = false → Waiting req s.queues → Waiting req t.queues) :
    Scheduled req t x := by
  refine ⟨fun hst => ⟨(h.starting (hsch hst)).1, fun w => ?_⟩, fun w o hc => ?_,
    fun hr hp => hq hp (h.waiting hr hp)⟩
  · obtain heq | hnone := hw w
    · rw [heq]
      exact (h.starting (hsch hst)).2 w
    · exact hnone
  obtain heq | hnone := hw w
  · exact h.outcome w o (heq ▸ hc)
  · simp [hc, Worker.request] at hnone

theorem setWorker_free (s : State cfg.workers) {w : Fin cfg.workers} {v : Worker}
    (hv : v.request = none) (u : Fin cfg.workers) :
    (s.setWorker w v).workers u = s.workers u ∨ ((s.setWorker w v).workers u).request = none := by
  rw [workers_setWorker]
  split
  · exact .inr hv
  · exact .inl rfl

theorem Waiting.fire {q : Queues} {ev : Event} (h : Waiting req q) (firedAt : Time)
    (listed : Option (List Request)) :
    Waiting req (Queues.fire cfg { q with events := q.events.erase ev } firedAt ev.action listed) := by
  rw [fire_eq]
  by_cases hin : req ∈ q.inFlight
  · exact .inr (.inr (by simpa [Queues.withEvents, inFlight_enqueueAll] using hin))
  obtain ⟨e, hmem, ha⟩ | hp | hin' := h
  · by_cases heq : e = ev
    · subst heq
      refine .inr (.inl (mem_pending_enqueueAll.2 (.inr ⟨?_, hin⟩)))
      simp [Queues.followed, ha]
    · refine .inl ⟨e, mem_append_right _ ?_, ha⟩
      exact (List.mem_erase_of_ne heq).2 hmem
  · exact .inr (.inl (mem_pending_enqueueAll.2 (.inl hp)))
  · exact absurd hin' hin

theorem Scheduled.step (h : Scheduled req s x) (hinv : Inv cfg s) {l : Label cfg.workers}
    {r : Round} (hs : Step cfg s l t) (hf : Follows expiresAt req s x y r l) :
    Scheduled req t y := by
  have hsame : t.workers = s.workers → ∀ w, t.workers w = s.workers w ∨
      (t.workers w).request = none := fun heq w => .inl (congrFun heq w)
  cases hs with
  | notify | signal | cancel =>
    cases hf
    exact h.keep id (hsame rfl) fun _ => id
  | arm | stop | wake | timer | fired | idle | abandon =>
    cases hf
    exact h.keep (fun hst => by cases hst) (hsame rfl) fun _ => id
  | start hst =>
    cases hf
    have hzero := (h.starting hst).1
    exact ⟨fun hst => (by cases hst), h.outcome, fun hr => absurd hr (by omega)⟩
  | drain =>
    cases hf
    refine h.keep (fun hst => by cases hst) (hsame rfl) fun _ hw => hw.mono ?_ ?_ ?_
    · simp [events_enqueueAll]
    · exact fun r hr => mem_pending_enqueueAll.2 (.inl hr)
    · simp [inFlight_enqueueAll]
  | fire hsch =>
    cases hf
    exact h.keep (by simp [hsch]) (hsame rfl) fun _ hw => hw.fire _ _
  | @dispatch req' rest _ _ hq =>
    cases hf
    refine h.keep (fun hst => by cases hst) (hsame rfl) fun _ hw => ?_
    obtain he | hp | hi := hw
    · exact .inl he
    · by_cases heq : req = req'
      · exact .inr (.inr (Finset.mem_insert.2 (.inl heq)))
      · exact .inr (.inl (Finset.mem_erase.2 ⟨heq, hp⟩))
    · exact .inr (.inr (Finset.mem_insert_of_mem hi))
  | send =>
    cases hf
    refine ⟨fun hst => (by cases hst), fun u o hu => ?_, h.waiting⟩
    rw [workers_setWorker] at hu
    split at hu
    · cases hu
    · exact h.outcome u o hu
  | @complete req' outcome w now _ hw =>
    cases hf
    refine h.keep (fun hst => by cases hst) (setWorker_free _ rfl) fun hp hwait => ?_
    unfold Waiting
    simp only [State.setWorker, events_complete, mem_pending_complete,
      inFlight_complete]
    by_cases heq : req' = req
    · subst heq
      refine .inl ?_
      obtain hterm | rfl | ⟨d, hd, rfl⟩ := h.outcome w outcome hw
      · cases hp.symm.trans hterm
      · exact ⟨_, mem_cons_self, rfl⟩
      · exact ⟨_, by rw [Queues.retry, if_pos hd]; exact mem_cons_self, rfl⟩
    obtain ⟨e, he, ha⟩ | hpend | hin := hwait
    · exact .inl ⟨e, mem_append_right _ he, ha⟩
    · exact .inr (.inl (.inl hpend))
    · exact .inr (.inr (Finset.mem_erase.2 ⟨Ne.symm heq, hin⟩))
  | ready | exit =>
    cases hf
    exact h.keep id (setWorker_free s rfl) fun _ => id
  | @finish w req' outcome hw =>
    have hstart : s.scheduler ≠ .starting := fun hst => by
      simpa [hw, Worker.request] using (h.starting hst).2 w
    simp only [Follows, hw, Worker.running.injEq] at hf
    by_cases heq : req' = req
    · subst heq
      rw [if_pos rfl] at hf
      obtain ⟨hmoves, -, hout⟩ := reconcile_spec expiresAt x.phase r
      rw [← hf.1] at hmoves hout
      dsimp only at hmoves hout
      refine ⟨fun hst => absurd hst hstart, fun u o hu => ?_, fun _ _ => .inr (.inr ?_)⟩
      · rw [workers_setWorker] at hu
        split at hu
        · cases hu
          exact hout
        · exact (h.outcome u o hu).imp_left fun hx => by rwa [hmoves.terminal hx]
      · exact hinv.held w req' (by rw [hw, Worker.request])
    rw [if_neg heq] at hf
    subst hf
    refine ⟨fun hst => absurd hst hstart, fun u o hu => ?_, h.waiting⟩
    rw [workers_setWorker] at hu
    split at hu
    · cases hu
      exact absurd rfl heq
    · exact h.outcome u o hu

theorem scheduled_reachable (h : (system cfg req expiresAt).Reachable (s, x)) :
    (runner cfg).Reachable s ∧ Scheduled req s x := by
  refine h.invariant (I := fun s => (runner cfg).Reachable s.1 ∧ Scheduled req s.1 s.2) ?_ ?_
  · rintro ⟨s, x⟩ ⟨hs, hx⟩
    obtain rfl : s = _ := hs
    have hzero : x.rounds = 0 := hx
    exact ⟨.init rfl, fun _ => ⟨hx, fun _ => rfl⟩, fun _ _ hw => (by cases hw), fun hr => absurd hr (by omega)⟩
  · rintro ⟨s, x⟩ l ⟨t, y⟩ - ⟨hr, hsched⟩ ⟨hs, hf⟩
    exact ⟨hr.step hs, hsched.step (Inv.reachable hr) hs hf⟩

end

/-- **Expiry.** In every run the phase of an identity with a deadline only moves forward, a terminal
phase never changes, and the identity becomes expired only after the deadline. -/
theorem expiry_scheduled (cfg : Config) (req : Request) (expiresAt : Int) (s : State cfg.workers)
    (x : Identity) (h : (system cfg req expiresAt).Reachable (s, x)) :
    (∀ l t y, (system cfg req expiresAt).step (s, x) l (t, y) →
      x.phase.Moves y.phase ∧ (x.phase.terminal → y.phase = x.phase) ∧
      (x.phase ≠ .expired → y.phase = .expired → expiresAt < l.2.now)) ∧
    (0 < x.rounds → x.phase.terminal = false → Waiting req s.queues) := by
  refine ⟨fun l t y hstep => ?_, (scheduled_reachable h).2.waiting⟩
  have hround : y.phase = x.phase ∨ y.phase = (reconcile expiresAt x.phase l.2).1 := by
    have hf := hstep.2
    unfold Follows at hf
    split at hf
    · split at hf
      · exact .inr (congrArg Prod.fst hf.1)
      · exact .inl (congrArg Identity.phase hf)
    · exact .inl (congrArg Identity.phase hf)
  obtain ⟨hmoves, hlate, -⟩ := reconcile_spec expiresAt x.phase l.2
  obtain heq | heq := hround <;> rw [heq]
  · exact ⟨.inl rfl, fun _ => rfl, fun hne he => absurd he hne⟩
  · exact ⟨hmoves, hmoves.terminal, hlate⟩

def gcRunner : Config := { oneWorker with regs := GoMap.empty.set "AgentIdentity" ⟨false, 0⟩ }

def agent : Request := ⟨"AgentIdentity", "a"⟩

theorem step_finish {s : State gcRunner.workers} {w : Fin gcRunner.workers}
    (hw : s.workers w = .running agent) (x : Identity) (r : Round) :
    (system gcRunner agent (some 5)).step (s, x) (.finish w (reconcile (some 5) x.phase r).2, r)
      (s.setWorker w (.completing agent (reconcile (some 5) x.phase r).2),
        ⟨(reconcile (some 5) x.phase r).1, x.rounds + 1⟩) :=
  ⟨Step.finish hw, by rw [Follows, if_pos hw]; exact ⟨rfl, rfl⟩⟩

theorem reachable_running : ∃ s, (system gcRunner agent (some 5)).Reachable (s, ⟨.pending, 0⟩) ∧
    ∃ w, s.workers w = .running agent := by
  let r : Round := ⟨0, false, false, false⟩
  let w : Fin gcRunner.workers := ⟨0, gcRunner.workers_pos⟩
  have hstep {s t : State gcRunner.workers} {l : Label gcRunner.workers}
      (h : (system gcRunner agent (some 5)).Reachable (s, ⟨.pending, 0⟩)) (hs : Step gcRunner s l t)
      (hf : Follows (some 5) agent s ⟨.pending, 0⟩ ⟨.pending, 0⟩ r l) :
      (system gcRunner agent (some 5)).Reachable (t, ⟨.pending, 0⟩) := h.step (l := (l, r)) ⟨hs, hf⟩
  have hinit : (system gcRunner agent (some 5)).Reachable
      (⟨∅, false, 0, false, .starting, .empty, fun _ => .looping⟩, ⟨.pending, 0⟩) := .init ⟨rfl, rfl⟩
  have hnot := hstep hinit (@Step.notify gcRunner _ agent (by decide)) rfl
  have hsig := hstep hnot (Step.signal (by decide)) rfl
  have hst := hstep hsig (@Step.start gcRunner _ (fun _ => 0) rfl) rfl
  have hwake := hstep (hstep hst (Step.arm rfl rfl) rfl) (Step.wake rfl rfl) rfl
  have hdra := hstep hwake
    (@Step.drain gcRunner _ [agent] rfl (nodup_singleton _) rfl) rfl
  have hdis := hstep hdra (Step.dispatch rfl (by decide) rfl) rfl
  have hrea := hstep hdis (@Step.ready gcRunner _ w rfl) rfl
  exact ⟨_, hstep hrea (@Step.send gcRunner _ agent w rfl rfl) rfl, w, rfl⟩

theorem active_identity_waits : ∃ s x, (system gcRunner agent (some 5)).Reachable (s, x) ∧
    0 < x.rounds ∧ x.phase = .active ∧ Waiting agent s.queues := by
  obtain ⟨s, hs, w, hw⟩ := reachable_running
  have hfin := hs.step (step_finish hw ⟨.pending, 0⟩ ⟨1, false, false, false⟩)
  exact ⟨_, _, hfin, Nat.zero_lt_one, rfl,
    (expiry_scheduled gcRunner agent 5 _ _ hfin).2 Nat.zero_lt_one rfl⟩

theorem pending_identity_expires : ∃ s t l, (system gcRunner agent (some 5)).Reachable
      (s, ⟨.pending, 0⟩) ∧
    (system gcRunner agent (some 5)).step (s, ⟨.pending, 0⟩) l (t, ⟨.expired, 1⟩) := by
  obtain ⟨s, hs, w, hw⟩ := reachable_running
  exact ⟨s, _, _, hs, step_finish hw ⟨.pending, 0⟩ ⟨6, false, false, false⟩⟩

end LatticeMesh.Reconcile.IdentityGC
