import LatticeMesh.Reconcile.Runner

/-!
# What the scheduler's operations do

The closures of `loop` in terms of the structures they touch.
-/

namespace LatticeMesh.Reconcile

open List

namespace Queues

def withEvents (q : Queues) (eq : List Event) : Queues := { q with events := eq }

def followed (cfg : Config) (action : Action) (listed : Option (List Request)) : List Request :=
  match action with
  | .requeue req => [req]
  | .resync kind =>
    match cfg.regs.get kind, listed with
    | some reg, some keys => if reg.lister then keys else []
    | _, _ => []

def rearm (cfg : Config) (firedAt : Time) : Action → List Event
  | .requeue _ => []
  | .resync kind =>
    match cfg.regs.get kind with
    | none => []
    | some reg => if reg.lister ∧ reg.resync > 0 then [⟨firedAt + reg.resync, .resync kind⟩] else []

def retry (cfg : Config) (q : Queues) (req : Request) (outcome : Outcome) (now : Time) :
    List Event :=
  match outcome with
  | .failed => [⟨now + backoffAt cfg ((q.fails.get req).getD 0 + 1), .requeue req⟩]
  | .done requeueAfter => if requeueAfter > 0 then [⟨now + requeueAfter, .requeue req⟩] else []

theorem inFlight_enqueue (q : Queues) (req : Request) : (q.enqueue req).inFlight = q.inFlight := by
  unfold enqueue
  split
  · rfl
  · split <;> rfl

theorem events_enqueue (q : Queues) (req : Request) : (q.enqueue req).events = q.events := by
  unfold enqueue
  split
  · rfl
  · split <;> rfl

theorem busy_enqueue (q : Queues) (req : Request) : (q.enqueue req).busy = q.busy := by
  unfold enqueue
  split
  · rfl
  · split <;> rfl

theorem enqueue_withEvents (q : Queues) (eq : List Event) (req : Request) :
    (q.withEvents eq).enqueue req = (q.enqueue req).withEvents eq := by
  unfold enqueue withEvents
  dsimp only
  split
  · rfl
  · split <;> rfl

variable {q : Queues} {r req : Request}

theorem mem_pending_enqueue :
    r ∈ (q.enqueue req).pending ↔ r ∈ q.pending ∨ r = req ∧ r ∉ q.inFlight := by
  unfold enqueue
  split
  · next hin =>
    refine ⟨.inl, ?_⟩
    rintro (hp | ⟨rfl, hout⟩)
    · exact hp
    · exact absurd hin hout
  next hin =>
  split
  · next hp =>
    refine ⟨.inl, ?_⟩
    rintro (hr | ⟨rfl, -⟩)
    · exact hr
    · exact hp
  rw [Finset.mem_insert]
  constructor
  · rintro (rfl | hr)
    · exact .inr ⟨rfl, hin⟩
    · exact .inl hr
  rintro (hr | ⟨rfl, -⟩)
  · exact .inr hr
  · exact .inl rfl

theorem mem_pendingAfter_enqueue :
    r ∈ (q.enqueue req).pendingAfter ↔ r ∈ q.pendingAfter ∨ r = req ∧ r ∈ q.inFlight := by
  unfold enqueue
  split
  · next hin =>
    rw [Finset.mem_insert]
    constructor
    · rintro (rfl | hr)
      · exact .inr ⟨rfl, hin⟩
      · exact .inl hr
    rintro (hr | ⟨rfl, -⟩)
    · exact .inr hr
    · exact .inl rfl
  next hin =>
  have hnew : ∀ q' : Queues, q'.pendingAfter = q.pendingAfter →
      (r ∈ q'.pendingAfter ↔ r ∈ q.pendingAfter ∨ r = req ∧ r ∈ q.inFlight) := by
    intro q' hq
    rw [hq]
    refine ⟨.inl, ?_⟩
    rintro (hr | ⟨rfl, hr⟩)
    · exact hr
    · exact absurd hr hin
  split <;> exact hnew _ rfl

theorem pendingQueue_enqueue (q : Queues) (req : Request) :
    ∃ new, (q.enqueue req).pendingQueue = q.pendingQueue ++ new := by
  unfold enqueue
  split
  · exact ⟨[], (append_nil _).symm⟩
  split
  · exact ⟨[], (append_nil _).symm⟩
  · exact ⟨[req], rfl⟩

theorem enqueueAll_keeps {β : Type} (f : Queues → β) (h : ∀ q req, f (enqueue q req) = f q)
    (q : Queues) (reqs : List Request) : f (q.enqueueAll reqs) = f q := by
  unfold enqueueAll
  induction reqs generalizing q with
  | nil => rfl
  | cons req rest ih => exact (ih _).trans (h q req)

theorem inFlight_enqueueAll (q : Queues) (reqs : List Request) :
    (q.enqueueAll reqs).inFlight = q.inFlight :=
  enqueueAll_keeps _ inFlight_enqueue q reqs

theorem events_enqueueAll (q : Queues) (reqs : List Request) :
    (q.enqueueAll reqs).events = q.events :=
  enqueueAll_keeps _ events_enqueue q reqs

theorem busy_enqueueAll (q : Queues) (reqs : List Request) : (q.enqueueAll reqs).busy = q.busy :=
  enqueueAll_keeps _ busy_enqueue q reqs

theorem enqueueAll_withEvents (q : Queues) (eq : List Event) (reqs : List Request) :
    (q.withEvents eq).enqueueAll reqs = (q.enqueueAll reqs).withEvents eq := by
  unfold enqueueAll
  induction reqs generalizing q with
  | nil => rfl
  | cons req rest ih =>
    rw [foldl_cons, enqueue_withEvents]
    exact ih _

theorem mem_pending_enqueueAll {reqs : List Request} :
    r ∈ (q.enqueueAll reqs).pending ↔ r ∈ q.pending ∨ r ∈ reqs ∧ r ∉ q.inFlight := by
  unfold enqueueAll
  induction reqs generalizing q with
  | nil => simp
  | cons req rest ih =>
    rw [foldl_cons, ih, mem_pending_enqueue, inFlight_enqueue, mem_cons]
    tauto

theorem mem_pendingAfter_enqueueAll {reqs : List Request} :
    r ∈ (q.enqueueAll reqs).pendingAfter ↔ r ∈ q.pendingAfter ∨ r ∈ reqs ∧ r ∈ q.inFlight := by
  unfold enqueueAll
  induction reqs generalizing q with
  | nil => simp
  | cons req rest ih =>
    rw [foldl_cons, ih, mem_pendingAfter_enqueue, inFlight_enqueue, mem_cons]
    tauto

theorem pendingQueue_enqueueAll (q : Queues) (reqs : List Request) :
    ∃ new, (q.enqueueAll reqs).pendingQueue = q.pendingQueue ++ new := by
  unfold enqueueAll
  induction reqs generalizing q with
  | nil => exact ⟨[], (append_nil _).symm⟩
  | cons req rest ih =>
    obtain ⟨new, hnew⟩ := pendingQueue_enqueue q req
    obtain ⟨more, hmore⟩ := ih (q.enqueue req)
    exact ⟨new ++ more, by rw [foldl_cons, hmore, hnew, append_assoc]⟩

theorem fire_eq (cfg : Config) (q : Queues) (firedAt : Time) (action : Action)
    (listed : Option (List Request)) :
    q.fire cfg firedAt action listed =
      (q.enqueueAll (followed cfg action listed)).withEvents
        (rearm cfg firedAt action ++ q.events) := by
  cases action with
  | requeue req =>
    change q.enqueue req = (q.enqueue req).withEvents q.events
    rw [← events_enqueue q req]
    rfl
  | resync kind =>
    simp only [fire, followed, rearm]
    cases cfg.regs.get kind with
    | none => rfl
    | some reg =>
      cases hl : reg.lister with
      | false => cases listed <;> simp [hl, enqueueAll, withEvents]
      | true =>
        by_cases hr : reg.resync > 0
        · cases listed with
          | none => simp [hl, hr, enqueueAll, withEvents]
          | some keys =>
            simp only [hl, hr, and_self, if_true]
            exact enqueueAll_withEvents q _ keys
        cases listed with
        | none => simp [hl, hr, enqueueAll, withEvents]
        | some keys =>
          simp only [hl, hr, and_false, if_true, if_false, nil_append]
          rw [← events_enqueueAll q keys]
          rfl

theorem inFlight_fire (cfg : Config) (q : Queues) (firedAt : Time) (action : Action)
    (listed : Option (List Request)) :
    (q.fire cfg firedAt action listed).inFlight = q.inFlight := by
  rw [fire_eq]
  exact inFlight_enqueueAll ..

theorem events_fire (cfg : Config) (q : Queues) (firedAt : Time) (action : Action)
    (listed : Option (List Request)) :
    (q.fire cfg firedAt action listed).events = rearm cfg firedAt action ++ q.events := by
  rw [fire_eq]
  rfl

theorem busy_fire (cfg : Config) (q : Queues) (firedAt : Time) (action : Action)
    (listed : Option (List Request)) : (q.fire cfg firedAt action listed).busy = q.busy := by
  rw [fire_eq]
  exact busy_enqueueAll ..

theorem settle_eq (cfg : Config) (q : Queues) (req : Request) (outcome : Outcome) (now : Time) :
    ∃ fails, q.settle cfg req outcome now =
      { q with fails := fails, events := q.retry cfg req outcome now ++ q.events } := by
  cases outcome with
  | failed => exact ⟨_, rfl⟩
  | done requeueAfter =>
    refine ⟨q.fails.delete req, ?_⟩
    simp only [settle, retry]
    split <;> rfl

def rerun (q : Queues) (req : Request) : Queues :=
  if req ∈ q.pendingAfter then
    enqueue { q with pendingAfter := q.pendingAfter.erase req } req
  else q

theorem complete_eq (cfg : Config) (q : Queues) (req : Request) (outcome : Outcome) (now : Time) :
    ∃ fails, q.complete cfg req outcome now =
      rerun { q with
        busy := q.busy - 1
        inFlight := q.inFlight.erase req
        fails := fails
        events := q.retry cfg req outcome now ++ q.events } req := by
  obtain ⟨fails, hset⟩ :=
    settle_eq cfg { q with busy := q.busy - 1, inFlight := q.inFlight.erase req } req outcome now
  exact ⟨fails, congrArg (rerun · req) hset⟩

theorem rerun_keeps {β : Type} (f : Queues → β) (h : ∀ q req, f (enqueue q req) = f q)
    (haft : ∀ (q : Queues) after, f { q with pendingAfter := after } = f q) (q : Queues)
    (req : Request) : f (q.rerun req) = f q := by
  unfold rerun
  split
  · rw [h, haft]
  · rfl

theorem inFlight_complete (cfg : Config) (q : Queues) (req : Request) (outcome : Outcome)
    (now : Time) : (q.complete cfg req outcome now).inFlight = q.inFlight.erase req := by
  obtain ⟨fails, hq⟩ := complete_eq cfg q req outcome now
  rw [hq, rerun_keeps Queues.inFlight inFlight_enqueue fun _ _ => rfl]

theorem events_complete (cfg : Config) (q : Queues) (req : Request) (outcome : Outcome)
    (now : Time) :
    (q.complete cfg req outcome now).events = q.retry cfg req outcome now ++ q.events := by
  obtain ⟨fails, hq⟩ := complete_eq cfg q req outcome now
  rw [hq, rerun_keeps Queues.events events_enqueue fun _ _ => rfl]

theorem busy_complete (cfg : Config) (q : Queues) (req : Request) (outcome : Outcome)
    (now : Time) : (q.complete cfg req outcome now).busy = q.busy - 1 := by
  obtain ⟨fails, hq⟩ := complete_eq cfg q req outcome now
  rw [hq, rerun_keeps Queues.busy busy_enqueue fun _ _ => rfl]

theorem mem_pending_complete {cfg : Config} {outcome : Outcome} {now : Time} :
    r ∈ (q.complete cfg req outcome now).pending ↔
      r ∈ q.pending ∨ r = req ∧ r ∈ q.pendingAfter := by
  obtain ⟨fails, hq⟩ := complete_eq cfg q req outcome now
  rw [hq]
  unfold rerun
  dsimp only
  split
  · next haft =>
    rw [mem_pending_enqueue]
    constructor
    · rintro (hp | ⟨rfl, -⟩)
      · exact .inl hp
      · exact .inr ⟨rfl, haft⟩
    rintro (hp | ⟨rfl, -⟩)
    · exact .inl hp
    · exact .inr ⟨rfl, Finset.notMem_erase r q.inFlight⟩
  next haft =>
  refine ⟨.inl, ?_⟩
  rintro (hp | ⟨rfl, hr⟩)
  · exact hp
  · exact absurd hr haft

theorem mem_pendingAfter_complete {cfg : Config} {outcome : Outcome} {now : Time} :
    r ∈ (q.complete cfg req outcome now).pendingAfter ↔
      r ≠ req ∧ r ∈ q.pendingAfter := by
  obtain ⟨fails, hq⟩ := complete_eq cfg q req outcome now
  rw [hq]
  unfold rerun
  dsimp only
  split
  · rw [mem_pendingAfter_enqueue, Finset.mem_erase]
    constructor
    · rintro (hr | ⟨rfl, hr⟩)
      · exact hr
      · exact absurd hr (Finset.notMem_erase r q.inFlight)
    · exact .inl
  next haft =>
  constructor
  · intro hr
    refine ⟨?_, hr⟩
    rintro rfl
    exact haft hr
  · exact And.right

theorem pendingQueue_complete (cfg : Config) (q : Queues) (req : Request) (outcome : Outcome)
    (now : Time) :
    ∃ new, (q.complete cfg req outcome now).pendingQueue = q.pendingQueue ++ new := by
  obtain ⟨fails, hq⟩ := complete_eq cfg q req outcome now
  rw [hq]
  unfold rerun
  dsimp only
  split
  · exact pendingQueue_enqueue ..
  · exact ⟨[], (append_nil _).symm⟩

end Queues

end LatticeMesh.Reconcile
