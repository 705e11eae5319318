import Mathlib.Data.Finset.Max
import LatticeMesh.Reconcile.EventHeap
import LatticeMesh.Reconcile.Notifications

/-! # Fair behaviours of the runner -/

namespace LatticeMesh.Reconcile

open List Queues

variable {cfg : Config} {s t : State cfg.workers} {req : Request}

def Label.byScheduler {n : ℕ} : Label n → Prop
  | .start _ | .arm | .drain _ | .fire _ _ | .fired | .dispatch | .idle => True
  | _ => False

structure Fair (b : Behaviour (runner cfg)) : Prop where
  running : ∀ n, b.label n ≠ some .cancel
  signal : b.WeaklyFair {.signal}
  scheduler : b.WeaklyFair {l | l.byScheduler}
  send : b.WeaklyFair {l | ∃ w, l = .send w}
  wake : b.StronglyFair {.wake}
  complete : ∀ w, b.StronglyFair {l | ∃ now, l = .complete w now}
  ready : ∀ w, b.WeaklyFair {.ready w}
  finish : ∀ w, b.WeaklyFair {l | ∃ outcome, l = .finish w outcome}

structure Live (s : State cfg.workers) : Prop where
  running : s.cancelled = false
  looping : s.scheduler ≠ .returned
  held : ∀ req ∈ s.queues.inFlight,
    (∃ w, (s.workers w).request = some req) ∨ s.scheduler = .sending req
  saturated : s.scheduler = .starting ∨ s.scheduler = .top ∨ s.scheduler = .selecting →
    (cfg.workers : Int) ≤ s.queues.busy ∨ s.queues.pendingQueue = []
  noticed : s.inbox = ∅ ∨ 0 < s.signals ∨ Woken s

theorem Live.held_of_same (h : Live s) (hin : t.queues.inFlight = s.queues.inFlight)
    (hw : ∀ w, (t.workers w).request = (s.workers w).request)
    (hs : ∀ req, s.scheduler = .sending req → t.scheduler = .sending req) :
    ∀ req ∈ t.queues.inFlight, (∃ w, (t.workers w).request = some req) ∨
      t.scheduler = .sending req := by
  intro req hreq
  rw [hin] at hreq
  rcases h.held req hreq with ⟨w, hheld⟩ | hsend
  · exact .inl ⟨w, by rw [hw]; exact hheld⟩
  · exact .inr (hs req hsend)

theorem request_setWorker_of_ne {w v : Fin cfg.workers} {x : Worker} (hne : v ≠ w) :
    ((s.setWorker w x).workers v).request = (s.workers v).request := by
  rw [workers_setWorker, if_neg hne]

variable {l : Label cfg.workers}

theorem Live.held_step (h : Live s) (hs : Step cfg s l t) :
    ∀ req ∈ t.queues.inFlight,
      (∃ w, (t.workers w).request = some req) ∨ t.scheduler = .sending req := by
  cases hs with
  | notify | signal | cancel => exact h.held
  | start hsch | arm hsch | wake hsch | timer hsch | fired hsch | idle hsch =>
    refine h.held_of_same rfl (fun _ => rfl) ?_
    intro req hsend
    rw [hsch] at hsend
    cases hsend
  | drain hsch =>
    refine h.held_of_same (inFlight_enqueueAll ..) (fun _ => rfl) ?_
    intro req hsend
    rw [hsch] at hsend
    cases hsend
  | fire => exact h.held_of_same (inFlight_fire ..) (fun _ => rfl) fun _ => id
  | stop _ hc | abandon _ hc | exit _ hc =>
    rw [h.running] at hc
    cases hc
  | @dispatch head rest hsch =>
    intro req hreq
    rcases Finset.mem_insert.1 hreq with rfl | hold
    · exact .inr rfl
    rcases h.held req hold with hheld | hsend
    · exact .inl hheld
    · rw [hsch] at hsend
      cases hsend
  | @send head w hsch hw =>
    intro req hreq
    rcases h.held req hreq with ⟨v, hv⟩ | hsend
    · have hne : v ≠ w := by
        rintro rfl
        rw [hw] at hv
        cases hv
      exact .inl ⟨v, (request_setWorker_of_ne hne).trans hv⟩
    rw [hsch] at hsend
    cases hsend
    refine .inl ⟨w, ?_⟩
    rw [workers_setWorker, if_pos rfl]
    rfl
  | @complete done outcome w now hsch hw =>
    intro req hreq
    change req ∈ (s.queues.complete cfg done outcome now).inFlight at hreq
    rw [inFlight_complete, Finset.mem_erase] at hreq
    rcases h.held req hreq.2 with ⟨v, hv⟩ | hsend
    · have hne : v ≠ w := by
        rintro rfl
        rw [hw] at hv
        exact hreq.1 (Option.some.inj hv).symm
      exact .inl ⟨v, (request_setWorker_of_ne hne).trans hv⟩
    · rw [hsch] at hsend
      cases hsend
  | ready hw | finish hw =>
    refine h.held_of_same rfl ?_ fun _ => id
    intro v
    rw [workers_setWorker]
    split
    · next hv =>
      rw [hv, hw]
      rfl
    · rfl

theorem Live.saturated_step (h : Live s) (hs : Step cfg s l t) :
    t.scheduler = .starting ∨ t.scheduler = .top ∨ t.scheduler = .selecting →
      (cfg.workers : Int) ≤ t.queues.busy ∨ t.queues.pendingQueue = [] := by
  cases hs with
  | notify | signal | cancel | ready | finish | exit => exact h.saturated
  | start hsch => exact fun _ => h.saturated (.inl hsch)
  | arm hsch => exact fun _ => h.saturated (.inr (.inl hsch))
  | idle _ hdone => exact fun _ => hdone
  | stop _ hc | abandon _ hc =>
    rw [h.running] at hc
    cases hc
  | fire hsch =>
    dsimp only
    rw [hsch]
    rintro (hx | hx | hx) <;> cases hx
  | wake | drain | timer | fired | dispatch | send | complete =>
    rintro (hx | hx | hx) <;> cases hx

theorem Live.noticed_step (h : Live s) (hs : Step cfg s l t) :
    t.inbox = ∅ ∨ 0 < t.signals ∨ Woken t := by
  cases hs with
  | notify => exact .inr (.inl (Nat.succ_pos _))
  | signal => exact .inr (.inr (.inl rfl))
  | wake => exact .inr (.inr (.inr rfl))
  | drain => exact .inl rfl
  | cancel | fire | ready | finish | exit => exact h.noticed
  | start hsch | arm hsch | timer hsch | fired hsch | dispatch hsch | idle hsch
  | send hsch | complete hsch =>
    rcases h.noticed with hin | hsig | hw | hw
    · exact .inl hin
    · exact .inr (.inl hsig)
    · exact .inr (.inr (.inl hw))
    · rw [hsch] at hw
      cases hw
  | stop _ hc | abandon _ hc =>
    rw [h.running] at hc
    cases hc

theorem Live.step (h : Live s) {l : Label cfg.workers} (hl : l ≠ .cancel)
    (hs : Step cfg s l t) : Live t := by
  refine ⟨?_, ?_, h.held_step hs, h.saturated_step hs, h.noticed_step hs⟩
  · have hrun := h.running
    cases hs with
    | cancel => exact absurd rfl hl
    | _ => exact hrun
  have hloo := h.looping
  cases hs with
  | stop _ hc =>
    rw [h.running] at hc
    cases hc
  | notify | signal | cancel | fire | ready | finish | exit => exact hloo
  | _ => exact Scheduler.noConfusion

theorem Fair.live {b : Behaviour (runner cfg)} (hf : Fair b) (n : ℕ) : Live (b.state n) := by
  refine b.invariant ?_ ?_ n
  · intro s hs
    rw [show s = _ from hs]
    exact ⟨rfl, Scheduler.noConfusion, fun req hreq => absurd hreq (Finset.notMem_empty req),
      fun _ => .inr rfl, .inl rfl⟩
  intro n l hl hs h
  refine h.step ?_ hs
  rintro rfl
  exact hf.running n hl

def rank (s : State cfg.workers) : ℕ :=
  let free := ((cfg.workers : Int) - s.queues.busy).toNat
  match s.scheduler with
  | .selecting | .returned => 0
  | .top => 1
  | .starting => 2
  | .dispatching => 2 + 2 * free
  | .sending _ | .woken => 3 + 2 * free
  | .firing firedAt => 3 + 2 * free + (due firedAt s.queues.events).length

theorem rank_step (hl : l.byScheduler ∨ ∃ w, l = .send w) (hs : Step cfg s l t) :
    rank t < rank s := by
  cases hs with
  | start hsch | arm hsch | fired hsch | idle hsch => simp only [rank, hsch]; omega
  | drain hsch => simp only [rank, hsch, busy_enqueueAll]; omega
  | @fire firedAt ev listed hsch hev hmin hdue =>
    have hfew : (due firedAt (s.queues.events.erase ev)).length + 1 =
        (due firedAt s.queues.events).length := by
      have hperm := ((perm_cons_erase hev).filter
        fun e => decide (e.atTime ≤ firedAt)).length_eq
      rw [filter_cons_of_pos (by simpa using hdue)] at hperm
      exact hperm.symm
    have hpus : due firedAt (Queues.rearm cfg firedAt ev.action ++ s.queues.events.erase ev) =
        due firedAt (s.queues.events.erase ev) := by
      rw [due, filter_append, ← due, ← due, due_rearm, nil_append]
    simp only [rank, hsch, busy_fire, events_fire, hpus]
    omega
  | dispatch hsch hb => simp only [rank, hsch, Queues.dispatchHead]; omega
  | send hsch => simp only [rank, hsch, State.setWorker]; omega
  | _ => simp [Label.byScheduler] at hl

theorem scheduler_step (hlive : Live s) (hsel : s.scheduler ≠ .selecting) (hs : Step cfg s l t) :
    (l.byScheduler ∨ ∃ w, l = .send w) ∨ t.scheduler = s.scheduler ∧ t.queues = s.queues := by
  cases hs with
  | start | arm | drain | fire | fired | dispatch | idle => exact .inl (.inl trivial)
  | send => exact .inl (.inr ⟨_, rfl⟩)
  | notify | signal | cancel | ready | finish | exit => exact .inr ⟨rfl, rfl⟩
  | wake hsch | timer hsch | complete hsch => exact absurd hsch hsel
  | stop _ hc | abandon _ hc =>
    rw [hlive.running] at hc
    cases hc

theorem scheduler_enabled (hlive : Live s) (hsel : s.scheduler ≠ .selecting)
    (hsend : ∀ req, s.scheduler ≠ .sending req) :
    (runner cfg).Enabled {l | l.byScheduler} s := by
  cases hsch : s.scheduler with
  | starting => exact ⟨.start fun _ => 0, trivial, _, .start hsch⟩
  | top => exact ⟨.arm, trivial, _, .arm hsch hlive.running⟩
  | selecting => exact absurd hsch hsel
  | woken =>
    exact ⟨.drain s.inbox.toList, trivial, _,
      .drain hsch s.inbox.nodup_toList s.inbox.toList_toFinset⟩
  | firing firedAt =>
    by_cases hdue : ∃ e ∈ s.queues.events, e.atTime ≤ firedAt
    · obtain ⟨e, he, hle⟩ := hdue
      obtain ⟨ev, hev, hmin⟩ := Finset.exists_min_image s.queues.events.toFinset Event.atTime
        ⟨e, List.mem_toFinset.2 he⟩
      exact ⟨.fire ev none, trivial, _, .fire hsch (List.mem_toFinset.1 hev)
        (fun e he => hmin e (List.mem_toFinset.2 he))
        ((hmin e (List.mem_toFinset.2 he)).trans hle)⟩
    · push Not at hdue
      exact ⟨.fired, trivial, _, .fired hsch hdue⟩
  | dispatching =>
    by_cases hb : s.queues.busy < (cfg.workers : Int)
    · cases hq : s.queues.pendingQueue with
      | nil => exact ⟨.idle, trivial, _, .idle hsch (.inr hq)⟩
      | cons req rest => exact ⟨.dispatch, trivial, _, .dispatch hsch hb hq⟩
    · exact ⟨.idle, trivial, _, .idle hsch (.inl (not_lt.1 hb))⟩
  | sending req => exact absurd hsch (hsend req)
  | returned => exact absurd hsch hlive.looping

def Worker.Moves {n : ℕ} (w : Fin n) (l : Option (Label n)) (x y : Worker) : Prop :=
  match x with
  | .looping => y = .looping ∨ y = .idle
  | .idle => y = .idle ∨ l = some (.send w)
  | .running req => y = .running req ∨ ∃ outcome, y = .completing req outcome
  | .completing req outcome => y = .completing req outcome ∨ ∃ now, l = some (.complete w now)
  | .exited => y = .exited

theorem Worker.Moves.refl {n : ℕ} (w : Fin n) (l : Option (Label n)) (x : Worker) :
    Worker.Moves w l x x := by
  cases x with
  | exited => rfl
  | _ => exact .inl rfl

theorem worker_step (hlive : Live s) (hs : Step cfg s l t) (w : Fin cfg.workers) :
    Worker.Moves w (some l) (s.workers w) (t.workers w) := by
  have hset : ∀ (s' : State cfg.workers) (v : Fin cfg.workers) (x : Worker),
      s'.workers = s.workers → (v = w → Worker.Moves w (some l) (s.workers w) x) →
        Worker.Moves w (some l) (s.workers w) ((s'.setWorker v x).workers w) := by
    intro s' v x hsame hx
    rw [workers_setWorker, hsame]
    split
    · next hv => exact hx hv.symm
    · exact .refl ..
  cases hs with
  | notify | signal | cancel | start | arm | wake | drain | timer | fire | fired | dispatch
  | idle => exact .refl ..
  | stop _ hc | abandon _ hc | exit _ hc =>
    rw [hlive.running] at hc
    cases hc
  | send _ hw | ready hw =>
    apply hset _ _ _ rfl
    rintro rfl
    rw [hw]
    exact .inr rfl
  | complete _ hw | finish hw =>
    apply hset _ _ _ rfl
    rintro rfl
    rw [hw]
    exact .inr ⟨_, rfl⟩

theorem rank_congr (h : t.scheduler = s.scheduler)
    (hq : t.queues = s.queues) : rank t = rank s := by
  unfold rank
  rw [h, hq]

section

variable {b : Behaviour (runner cfg)} (hf : Fair b)

include hf

theorem Fair.scheduler_next (n : ℕ) (hsel : (b.state n).scheduler ≠ .selecting) :
    rank (b.state (n + 1)) < rank (b.state n) ∨
      (b.state (n + 1)).scheduler = (b.state n).scheduler ∧
        (b.state (n + 1)).queues = (b.state n).queues := by
  rcases b.next_cases n with ⟨-, hsame⟩ | ⟨l, hl, hs⟩
  · rw [hsame]
    exact .inr ⟨rfl, rfl⟩
  rcases scheduler_step (hf.live n) hsel hs with hsch | hsame
  · exact .inl (rank_step hsch hs)
  · exact .inr hsame

theorem Fair.worker_next (n : ℕ) (w : Fin cfg.workers) :
    Worker.Moves w (b.label n) ((b.state n).workers w) ((b.state (n + 1)).workers w) := by
  rcases b.next_cases n with ⟨-, hsame⟩ | ⟨l, hl, hs⟩
  · rw [hsame]
    exact .refl ..
  · rw [hl]
    exact worker_step (hf.live n) hs w

theorem Fair.rank_falls (r : ℕ) :
    LeadsTo (fun n => rank (b.state n) = r ∧ (b.state n).scheduler ≠ .selecting ∧
      ∀ req, (b.state n).scheduler ≠ .sending req) fun n => rank (b.state (n + 1)) < r := by
  apply hf.scheduler.leadsTo
  · rintro n ⟨hr, hsel, hsend⟩
    rcases hf.scheduler_next n hsel with hlt | ⟨hsch, hq⟩
    · exact .inr (hr ▸ hlt)
    refine .inl ⟨(rank_congr hsch hq).trans hr, ?_, ?_⟩
    · rwa [hsch]
    · rwa [hsch]
  · rintro n ⟨hr, -, -⟩ ⟨l, hby, hl⟩
    exact hr ▸ rank_step (.inl hby) (b.step_of_label hl)
  · rintro n ⟨-, hsel, hsend⟩
    exact scheduler_enabled (hf.live n) hsel hsend

theorem Fair.sending_next {n r : ℕ} (hr : rank (b.state n) = r)
    (hsend : (b.state n).scheduler = .sending req) :
    rank (b.state (n + 1)) < r ∨
      rank (b.state (n + 1)) = r ∧ (b.state (n + 1)).scheduler = .sending req := by
  rcases hf.scheduler_next n (by rw [hsend]; exact Scheduler.noConfusion) with hlt | ⟨hsch, hq⟩
  · exact .inl (hr ▸ hlt)
  · exact .inr ⟨(rank_congr hsch hq).trans hr, hsch.trans hsend⟩

theorem Fair.sent_to_idle (r : ℕ) (req : Request) (w : Fin cfg.workers) :
    LeadsTo (fun n => rank (b.state n) = r ∧ (b.state n).scheduler = .sending req ∧
      (b.state n).workers w = .idle) fun n => rank (b.state (n + 1)) < r := by
  apply hf.send.leadsTo
  · rintro n ⟨hr, hsend, hidle⟩
    have hwo := hf.worker_next n w
    rw [hidle] at hwo
    rcases hf.sending_next hr hsend with hlt | ⟨hr', hsend'⟩
    · exact .inr hlt
    rcases hwo with hidle' | hl
    · exact .inl ⟨hr', hsend', hidle'⟩
    · exact .inr (hr ▸ rank_step (.inr ⟨w, rfl⟩) (b.step_of_label hl))
  · rintro n ⟨hr, -, -⟩ ⟨l, hsend, hl⟩
    exact hr ▸ rank_step (.inr hsend) (b.step_of_label hl)
  · rintro n ⟨-, hsend, hidle⟩
    exact ⟨.send w, ⟨w, rfl⟩, _, .send hsend hidle⟩

theorem Fair.waits (w : Fin cfg.workers) :
    LeadsTo (fun n => (b.state n).workers w = .looping)
      fun n => (b.state (n + 1)).workers w = .idle := by
  apply (hf.ready w).leadsTo
  · intro n hloop
    have hwo := hf.worker_next n w
    rw [hloop] at hwo
    exact hwo
  · rintro n - ⟨l, rfl, hl⟩
    have hs := b.step_of_label hl
    generalize b.state (n + 1) = t at hs
    cases hs
    rw [workers_setWorker, if_pos rfl]
  · intro n hloop
    exact ⟨.ready w, rfl, _, .ready hloop⟩

theorem Fair.sent (r : ℕ) (req : Request) :
    LeadsTo (fun n => rank (b.state n) = r ∧ (b.state n).scheduler = .sending req)
      fun n => rank (b.state (n + 1)) < r := by
  intro n hn
  obtain ⟨w, hw⟩ := (Inv.reachable (b.reachable n)).exists_free hn.2
  have hkeep : ∀ k, rank (b.state k) = r ∧ (b.state k).scheduler = .sending req →
      (rank (b.state (k + 1)) = r ∧ (b.state (k + 1)).scheduler = .sending req) ∨
        rank (b.state (k + 1)) < r := by
    rintro k ⟨hr, hsend⟩
    exact (hf.sending_next hr hsend).symm
  cases hwo : (b.state n).workers w with
  | idle => exact hf.sent_to_idle r req w n ⟨hn.1, hn.2, hwo⟩
  | looping =>
    obtain ⟨m, hnm, hidle⟩ := hf.waits w n hwo
    rcases LeadsTo.kept_until hkeep (show n ≤ m + 1 by omega) hn with hm | ⟨k, hnk, -, hk⟩
    · obtain ⟨k, hmk, hk⟩ := hf.sent_to_idle r req w (m + 1) ⟨hm.1, hm.2, hidle⟩
      exact ⟨k, by omega, hk⟩
    · exact ⟨k, hnk, hk⟩
  | running | completing =>
    rw [hwo] at hw
    cases hw
  | exited =>
    have hcan := (Inv.reachable (b.reachable n)).exited w hwo
    rw [(hf.live n).running] at hcan
    cases hcan

theorem Fair.selecting_again :
    LeadsTo (fun _ => True) fun n => (b.state n).scheduler = .selecting := by
  apply LeadsTo.of_rank fun n => rank (b.state n)
  rintro r n ⟨-, hr⟩
  by_cases hsel : (b.state n).scheduler = .selecting
  · exact ⟨n, le_rfl, .inl hsel⟩
  have hfal : ∃ m, n ≤ m ∧ rank (b.state (m + 1)) < r := by
    by_cases hsend : ∃ req, (b.state n).scheduler = .sending req
    · obtain ⟨req, hsend⟩ := hsend
      exact hf.sent r req n ⟨hr, hsend⟩
    · push Not at hsend
      exact hf.rank_falls r n ⟨hr, hsel, hsend⟩
  obtain ⟨m, hnm, hlt⟩ := hfal
  exact ⟨m + 1, by omega, .inr ⟨trivial, hlt⟩⟩

end

end LatticeMesh.Reconcile
