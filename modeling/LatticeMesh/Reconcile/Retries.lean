import LatticeMesh.Lib.Behaviour
import LatticeMesh.Reconcile.Exclusion

/-! # Retry chains -/

namespace LatticeMesh.Reconcile

open List Queues

def retries (req : Request) (eq : List Event) : ℕ := eq.countP fun e => e.action = .requeue req

def waiting (req : Request) (q : Queues) : ℕ :=
  (if req ∈ q.pending then 1 else 0) + if req ∈ q.pendingAfter then 1 else 0

def chains (req : Request) (q : Queues) : ℕ :=
  retries req q.events + waiting req q + if req ∈ q.inFlight then 1 else 0

section

variable {n : ℕ} (req : Request)

def triggers (_ : State n) : Label n → ℕ
  | .drain order => if req ∈ order then 1 else 0
  | .fire ⟨_, .resync _⟩ (some keys) => if req ∈ keys then 1 else 0
  | _ => 0

def expires (_ : State n) : Label n → ℕ
  | .fire ev _ => if ev.action = .requeue req then 1 else 0
  | _ => 0

def starts (s : State n) : Label n → ℕ
  | .dispatch => if s.queues.pendingQueue.head? = some req then 1 else 0
  | _ => 0

def completes (s : State n) : Label n → ℕ
  | .complete w _ => if (s.workers w).request = some req then 1 else 0
  | _ => 0

end

variable {cfg : Config} {q : Queues} {s t : State cfg.workers} (req : Request)

theorem waiting_enqueueAll (reqs : List Request) :
    waiting req (q.enqueueAll reqs) ≤ waiting req q + if req ∈ reqs then 1 else 0 := by
  unfold waiting
  simp only [mem_pending_enqueueAll, mem_pendingAfter_enqueueAll]
  by_cases hr : req ∈ reqs
  · by_cases hin : req ∈ q.inFlight
    · simp only [hr, hin, not_true_eq_false, and_false, or_false, and_self, or_true, if_true]
      omega
    · simp only [hr, hin, not_false_eq_true, and_self, or_true, if_true, and_false, or_false]
      omega
  · simp only [hr, false_and, or_false, if_false]
    omega

theorem waiting_dispatchHead (h : QueuesOk q) {head : Request} {rest : List Request}
    (hq : q.pendingQueue = head :: rest) :
    waiting req (q.dispatchHead head rest) + (if head = req then 1 else 0) = waiting req q := by
  have hpend : head ∈ q.pending := by
    rw [← h.pending, hq]
    exact List.mem_toFinset.2 mem_cons_self
  unfold waiting Queues.dispatchHead
  dsimp only
  by_cases hr : head = req
  · subst hr
    rw [if_neg (Finset.notMem_erase head _), if_pos hpend, if_pos rfl]
    omega
  rw [if_neg hr]
  simp only [Finset.mem_erase, ne_eq, Ne.symm hr, not_false_eq_true, true_and]
  omega

theorem waiting_complete (h : QueuesOk q) {done : Request} (hdone : done ∈ q.inFlight)
    (outcome : Outcome) (now : Time) :
    waiting req (q.complete cfg done outcome now) = waiting req q := by
  unfold waiting
  simp only [mem_pending_complete, mem_pendingAfter_complete]
  by_cases hr : req = done
  · subst hr
    have hout : req ∉ q.pending := Finset.disjoint_right.1 h.disjoint hdone
    simp [hout]
  · simp [hr]

theorem waiting_fire (q : Queues) (firedAt : Time) (action : Action)
    (listed : Option (List Request)) :
    waiting req (q.fire cfg firedAt action listed) ≤
      waiting req q + if req ∈ Queues.followed cfg action listed then 1 else 0 := by
  rw [fire_eq]
  exact waiting_enqueueAll req _

theorem retries_append (l₁ l₂ : List Event) :
    retries req (l₁ ++ l₂) = retries req l₁ + retries req l₂ :=
  countP_append

theorem retries_rearm (firedAt : Time) (action : Action) :
    retries req (Queues.rearm cfg firedAt action) = 0 := by
  unfold Queues.rearm
  cases action with
  | requeue r => rfl
  | resync kind =>
    dsimp only
    split
    · rfl
    · split <;> simp [retries]

theorem retries_retry (cfg : Config) (req : Request) (q : Queues) (done : Request)
    (outcome : Outcome) (now : Time) :
    retries req (q.retry cfg done outcome now) ≤ if done = req then 1 else 0 := by
  unfold Queues.retry retries
  cases outcome with
  | failed => simp
  | done requeueAfter =>
    dsimp only
    split <;> simp

theorem retries_erase {ev : Event} (hev : ev ∈ q.events) :
    retries req (q.events.erase ev) + (if ev.action = .requeue req then 1 else 0) =
      retries req q.events := by
  unfold retries
  rw [(perm_cons_erase hev).countP_eq, countP_cons]
  simp

theorem mem_of_mem_followed {req : Request} {kind : String} {listed : Option (List Request)}
    (h : req ∈ Queues.followed cfg (.resync kind) listed) :
    ∃ keys, listed = some keys ∧ req ∈ keys := by
  simp only [Queues.followed] at h
  split at h
  · next keys _ =>
    split at h
    · exact ⟨keys, rfl, h⟩
    · cases h
  · cases h

theorem mem_followed (s : State cfg.workers) (ev : Event) (listed : Option (List Request)) :
    (if req ∈ Queues.followed cfg ev.action listed then 1 else 0) ≤
      expires req s (.fire ev listed) + triggers req s (.fire ev listed) := by
  obtain ⟨atTime, action⟩ := ev
  split
  · next h =>
    cases action with
    | requeue r => simp_all [Queues.followed, expires]
    | resync kind =>
      obtain ⟨keys, rfl, hkeys⟩ := mem_of_mem_followed h
      simp [triggers, hkeys]
  · exact Nat.zero_le _

variable {l : Label cfg.workers}

theorem waiting_step (hinv : Inv cfg s) (hs : Step cfg s l t) :
    waiting req t.queues + starts req s l ≤
      waiting req s.queues + (expires req s l + triggers req s l) := by
  cases hs with
  | notify | signal | cancel | start | arm | stop | wake | timer | fired | idle | abandon | send
  | ready | finish | exit => exact Nat.le_add_right _ _
  | @drain order => simpa [starts, expires, triggers] using waiting_enqueueAll req order
  | @fire firedAt ev listed h hev =>
    exact (waiting_fire req _ firedAt ev.action listed).trans
      (Nat.add_le_add_left (mem_followed req s ev listed) _)
  | @dispatch head rest h hb hq =>
    have hwait := waiting_dispatchHead req hinv.queues hq
    simp only [starts, expires, triggers, hq, head?_cons, Option.some.injEq]
    exact hwait.le
  | complete h hw =>
    have hheld := hinv.held _ _ (by rw [hw]; rfl)
    exact (waiting_complete req hinv.queues hheld _ _).le

theorem retries_step (hs : Step cfg s l t) :
    retries req t.queues.events + expires req s l ≤
      retries req s.queues.events + completes req s l := by
  cases hs with
  | notify | signal | cancel | arm | stop | wake | timer | fired | idle | abandon | send
  | ready | finish | exit | dispatch => exact le_rfl
  | @start times =>
    have hnone : retries req (cfg.resynced.map fun kind => ⟨times kind, .resync kind⟩) = 0 := by
      simp [retries]
    simp only [expires, hnone]
    omega
  | drain =>
    simp only [expires, completes, events_enqueueAll]
    exact le_rfl
  | @fire firedAt ev listed h hev =>
    have hera := retries_erase req hev
    simp only [expires, completes, events_fire, retries_append, retries_rearm]
    omega
  | @complete done outcome w now h hw =>
    have hret := retries_retry cfg req s.queues done outcome now
    simp only [expires, completes, hw, Worker.request, Option.some.injEq]
    change retries req (s.queues.complete cfg done outcome now).events + 0 ≤ _
    rw [events_complete, retries_append]
    omega

theorem inFlight_step (hinv : Inv cfg s) (hs : Step cfg s l t) :
    (if req ∈ t.queues.inFlight then 1 else 0) + completes req s l ≤
      (if req ∈ s.queues.inFlight then 1 else 0) + starts req s l := by
  cases hs with
  | notify | signal | cancel | start | arm | stop | wake | timer | fired | idle | abandon | send
  | ready | finish | exit => exact le_rfl
  | drain => simp only [inFlight_enqueueAll, starts, completes]; exact le_rfl
  | fire => simp only [inFlight_fire, starts, completes]; exact le_rfl
  | @dispatch head rest h hb hq =>
    simp only [starts, completes, hq, head?_cons, Option.some.injEq, Queues.dispatchHead,
      Finset.mem_insert]
    by_cases hr : head = req
    · rw [if_pos (.inl hr.symm), if_pos hr]
      omega
    rw [if_neg hr]
    simp only [Ne.symm hr, false_or]
    exact le_rfl
  | @complete done outcome w now h hw =>
    have hheld := hinv.held w done (by rw [hw]; rfl)
    change (if req ∈ (s.queues.complete cfg done outcome now).inFlight then 1 else 0) + _ ≤ _
    rw [inFlight_complete]
    simp only [starts, completes, hw, Worker.request, Option.some.injEq, Finset.mem_erase]
    by_cases hr : done = req
    · subst hr
      simp [hheld]
    · simp [hr, Ne.symm hr]

theorem chains_step (hinv : Inv cfg s) (hs : Step cfg s l t) :
    chains req t.queues ≤ chains req s.queues + triggers req s l := by
  have hwai := waiting_step req hinv hs
  have hret := retries_step req hs
  have hfl := inFlight_step req hinv hs
  unfold chains
  omega

theorem requeue_origin (hs : Step cfg s l t) {e : Event} (he : e ∈ t.queues.events)
    (hreq : e.action = .requeue req) :
    e ∈ s.queues.events ∨ ∃ w now outcome, l = .complete w now ∧
      s.workers w = .completing req outcome ∧ e ∈ s.queues.retry cfg req outcome now := by
  cases hs with
  | notify | signal | cancel | arm | stop | wake | timer | fired | idle | abandon | send
  | ready | finish | exit | dispatch => exact .inl he
  | start =>
    obtain ⟨kind, -, rfl⟩ := List.mem_map.1 he
    cases hreq
  | drain =>
    rw [events_enqueueAll] at he
    exact .inl he
  | @fire firedAt ev listed =>
    rw [events_fire] at he
    rcases mem_append.1 he with hnew | hold
    · have hpos : 0 < retries req (Queues.rearm cfg firedAt ev.action) :=
        countP_pos_iff.2 ⟨e, hnew, by simpa using hreq⟩
      rw [retries_rearm] at hpos
      cases hpos
    · exact .inl (mem_of_mem_erase hold)
  | @complete done outcome w now h hw =>
    change e ∈ (s.queues.complete cfg done outcome now).events at he
    rw [events_complete] at he
    rcases mem_append.1 he with hnew | hold
    · have hpos : 0 < retries req (s.queues.retry cfg done outcome now) :=
        countP_pos_iff.2 ⟨e, hnew, by simpa using hreq⟩
      have hle := retries_retry cfg req s.queues done outcome now
      split at hle
      · next hdone =>
        subst hdone
        exact .inr ⟨w, now, outcome, rfl, hw, hnew⟩
      · omega
    · exact .inl hold

structure RetryChains (b : Behaviour (runner cfg)) (req : Request) : Prop where
  chains : ∀ m n, m ≤ n →
    chains req (b.state n).queues ≤ chains req (b.state m).queues + b.total (triggers req) m n
  rounds : ∀ m n, m ≤ n → waiting req (b.state n).queues + b.total (starts req) m n ≤
    waiting req (b.state m).queues + (b.total (expires req) m n + b.total (triggers req) m n)
  events : ∀ m n, m ≤ n → retries req (b.state n).queues.events + b.total (expires req) m n ≤
    retries req (b.state m).queues.events + b.total (completes req) m n
  delays : ∀ n, ∀ e ∈ (b.state n).queues.events, e.action = .requeue req →
    ∃ k < n, ∃ w now outcome, b.label k = some (.complete w now) ∧
      (b.state k).workers w = .completing req outcome ∧
      e ∈ (b.state k).queues.retry cfg req outcome now

/-- **Retry chains.** Whatever the outcomes of the rounds, only notifications and resyncs add to the
chains of a request, each at most one. -/
theorem retry_chains (b : Behaviour (runner cfg)) (req : Request) : RetryChains b req := by
  refine ⟨?_, ?_, ?_, ?_⟩
  · intro m n hmn
    have hacc := b.account (fun s => chains req s.queues) (fun _ _ => 0) (triggers req)
      (fun s l t hr hs => chains_step req (.reachable hr) hs) hmn
    exact (Nat.le_add_right _ _).trans hacc
  · intro m n hmn
    rw [← b.total_add]
    exact b.account (fun s => waiting req s.queues) (starts req) _
      (fun s l t hr hs => waiting_step req (.reachable hr) hs) hmn
  · intro m n hmn
    exact b.account (fun s => retries req s.queues.events) (expires req) (completes req)
      (fun s l t _ hs => retries_step req hs) hmn
  intro n
  induction n with
  | zero =>
    intro e he
    rw [show b.state 0 = _ from b.init] at he
    cases he
  | succ n ih =>
    intro e he hreq
    have hold : e ∈ (b.state n).queues.events → ∃ k < n + 1, ∃ w now outcome,
        b.label k = some (.complete w now) ∧ (b.state k).workers w = .completing req outcome ∧
          e ∈ (b.state k).queues.retry cfg req outcome now := by
      intro hmem
      obtain ⟨k, hk, hrou⟩ := ih e hmem hreq
      exact ⟨k, by omega, hrou⟩
    rcases b.next_cases n with ⟨-, hsame⟩ | ⟨l, hl, hs⟩
    · rw [hsame] at he
      exact hold he
    rcases requeue_origin req hs he hreq with hmem | ⟨w, now, outcome, rfl, hw, hnew⟩
    · exact hold hmem
    · exact ⟨n, by omega, w, now, outcome, hl, hw, hnew⟩

def workspace : Request := ⟨"netmap", "ws"⟩

def single (scheduler : Scheduler) (q : Queues) (x : Worker) : State oneWorker.workers :=
  ⟨∅, false, 0, false, scheduler, q, fun _ => x⟩

def Quiet (eq : List Event) : Prop :=
  ∃ fails, (runner oneWorker).Reachable (single .top ⟨∅, [], ∅, ∅, fails, eq, 0⟩ .idle)

theorem Quiet.of_dispatching {fails : GoMap Request ℕ} {eq : List Event} (now : Time)
    (h : (runner oneWorker).Reachable
      (single .dispatching ⟨{workspace}, [workspace], ∅, ∅, fails, eq, 0⟩ .idle)) :
    Quiet (⟨now + 100000000, .requeue workspace⟩ :: eq) := by
  let w : Fin oneWorker.workers := ⟨0, Nat.zero_lt_one⟩
  let q : Queues := ⟨∅, [], {workspace}, ∅, fails, eq, 1⟩
  have hsen : (runner oneWorker).Reachable (single (.sending workspace) q .idle) :=
    h.step (.dispatch rfl Int.zero_lt_one rfl)
  have hrun : (runner oneWorker).Reachable (single .dispatching q (.running workspace)) :=
    hsen.step (step_oneWorker (@Step.send oneWorker _ workspace w rfl rfl))
  have hfai : (runner oneWorker).Reachable
      (single .dispatching q (.completing workspace .failed)) :=
    hrun.step (step_oneWorker (@Step.finish oneWorker _ w workspace .failed rfl))
  have htop : (runner oneWorker).Reachable (single .top q (.completing workspace .failed)) :=
    hfai.step (.idle rfl (.inr rfl))
  have hsel : (runner oneWorker).Reachable
      (single .selecting q (.completing workspace .failed)) := htop.step (.arm rfl rfl)
  have hcom : q.complete oneWorker workspace .failed now = ⟨∅, [], ∅, ∅,
      fails.set workspace ((fails.get workspace).getD 0 + 1),
      ⟨now + 100000000, .requeue workspace⟩ :: eq, 0⟩ := by
    have hbac : ∀ attempt, Queues.backoffAt oneWorker attempt = 100000000 := by
      simp [Queues.backoffAt, oneWorker]
    simp only [Queues.complete, Queues.settle, hbac]
    rfl
  have hdis : (runner oneWorker).Reachable
      (single .dispatching (q.complete oneWorker workspace .failed now) .looping) :=
    hsel.step (step_oneWorker (@Step.complete oneWorker _ workspace .failed w now rfl rfl))
  rw [hcom] at hdis
  have htop' := hdis.step (.idle rfl (.inr rfl))
  exact ⟨_, htop'.step (step_oneWorker (@Step.ready oneWorker _ w rfl))⟩

theorem Quiet.notified {eq : List Event} (h : Quiet eq) (now : Time) :
    Quiet (⟨now + 100000000, .requeue workspace⟩ :: eq) := by
  obtain ⟨fails, h⟩ := h
  have hnot := h.step (@Step.notify oneWorker _ workspace (by decide))
  have hsig := hnot.step (.signal Nat.zero_lt_one)
  have harm := hsig.step (.arm rfl rfl)
  have hwake := harm.step (.wake rfl rfl)
  exact .of_dispatching now (hwake.step
    (@Step.drain oneWorker _ [workspace] rfl (nodup_singleton _) rfl))

theorem two_retries_outstanding :
    ∃ s, (runner oneWorker).Reachable s ∧ retries workspace s.queues.events = 2 := by
  have hst : Quiet [] := by
    have hinit : (runner oneWorker).Reachable
        ⟨∅, false, 0, false, .starting, .empty, fun _ => .looping⟩ := .init rfl
    have hst : (runner oneWorker).Reachable (single .top .empty .looping) :=
      hinit.step (@Step.start oneWorker _ (fun _ => 0) rfl)
    exact ⟨_, hst.step (step_oneWorker (@Step.ready oneWorker _ ⟨0, Nat.zero_lt_one⟩ rfl))⟩
  obtain ⟨fails, h⟩ := (hst.notified 0).notified 50000000
  exact ⟨_, h, rfl⟩

end LatticeMesh.Reconcile
