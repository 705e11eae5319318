import LatticeMesh.Reconcile.Fairness

/-!
# Every notification causes a round

Along a fair behaviour the argument follows the notification.
-/

namespace LatticeMesh.Reconcile

open List LeadsTo Queues

variable {cfg : Config} {req : Request} {b : Behaviour (runner cfg)}

def CompletedAt (b : Behaviour (runner cfg)) (req : Request) (n : ℕ) : Prop :=
  ∃ w now outcome, b.label n = some (.complete w now) ∧
    (b.state n).workers w = .completing req outcome

def DispatchedAt (b : Behaviour (runner cfg)) (n : ℕ) : Prop := b.label n = some .dispatch

variable {s t : State cfg.workers} {l : Label cfg.workers}

theorem drain_of_woken (hs : Step cfg s l t) (h : s.scheduler = .woken)
    (hl : l.byScheduler ∨ ∃ w, l = .send w) :
    ∃ order, l = .drain order := by
  cases hs with
  | drain => exact ⟨_, rfl⟩
  | start hsch | arm hsch | fire hsch | fired hsch | dispatch hsch | idle hsch
  | send hsch =>
    rw [hsch] at h
    cases h
  | _ => simp [Label.byScheduler] at hl

theorem dispatch_of_dispatching (hs : Step cfg s l t) (h : s.scheduler = .dispatching)
    (hb : s.queues.busy < (cfg.workers : Int)) (hq : s.queues.pendingQueue ≠ [])
    (hl : l.byScheduler ∨ ∃ w, l = .send w) : l = .dispatch := by
  cases hs with
  | dispatch => rfl
  | idle _ hdone =>
    rcases hdone with hbusy | hnil
    · exact absurd hb (not_lt.2 hbusy)
    · exact absurd hnil hq
  | start hsch | arm hsch | drain hsch | fire hsch | fired hsch | send hsch =>
    rw [hsch] at h
    cases h
  | _ => simp [Label.byScheduler] at hl

theorem pendingQueue_step (hs : Step cfg s l t) :
    (∃ new, t.queues.pendingQueue = s.queues.pendingQueue ++ new) ∨ l = .dispatch := by
  cases hs with
  | dispatch => exact .inr rfl
  | drain => exact .inl (pendingQueue_enqueueAll ..)
  | fire =>
    rw [fire_eq]
    exact .inl (pendingQueue_enqueueAll ..)
  | complete => exact .inl (pendingQueue_complete ..)
  | _ => exact .inl ⟨[], (append_nil _).symm⟩

theorem pendingQueue_next (n : ℕ) :
    (∃ new, (b.state (n + 1)).queues.pendingQueue = (b.state n).queues.pendingQueue ++ new) ∨
      DispatchedAt b n := by
  rcases b.next_cases n with ⟨-, hsame⟩ | ⟨l, hl, hs⟩
  · rw [hsame]
    exact .inl ⟨[], (append_nil _).symm⟩
  rcases pendingQueue_step hs with hnew | rfl
  · exact .inl hnew
  · exact .inr hl

variable {n : ℕ}

theorem idxOf_dispatched (hd : DispatchedAt b n) (hn : req ∈ (b.state n).queues.pendingQueue) :
    StartedAt b req n ∨ req ∈ (b.state (n + 1)).queues.pendingQueue ∧
      (b.state (n + 1)).queues.pendingQueue.idxOf req <
        (b.state n).queues.pendingQueue.idxOf req := by
  have hhead : ∃ head,
      (b.state n).queues.pendingQueue = head :: (b.state (n + 1)).queues.pendingQueue := by
    have hs := b.step_of_label hd
    generalize b.state (n + 1) = t at hs
    cases hs with
    | dispatch _ _ hq => exact ⟨_, hq⟩
  obtain ⟨head, hhead⟩ := hhead
  rw [hhead] at hn
  by_cases hr : head = req
  · exact .inl ⟨hd, by rw [hhead, hr]; rfl⟩
  refine .inr ⟨(mem_cons.1 hn).resolve_left (Ne.symm hr), ?_⟩
  rw [hhead, idxOf_cons_ne _ hr]
  exact Nat.lt_succ_self _

theorem inbox_until_drained (hn : req ∈ (b.state n).inbox) :
    req ∈ (b.state (n + 1)).inbox ∨ DrainedAt b n := by
  rcases b.next_cases n with ⟨-, hsame⟩ | ⟨l, hl, hs⟩
  · rw [hsame]
    exact .inl hn
  generalize b.state (n + 1) = t at hs
  cases hs with
  | notify => exact .inl (Finset.mem_insert_of_mem hn)
  | drain => exact .inr ⟨_, hl⟩
  | _ => exact .inl hn

theorem queued_of_drained (hd : DrainedAt b n) (hn : req ∈ (b.state n).inbox) :
    Queued req (b.state (n + 1)).queues := by
  obtain ⟨order, hl⟩ := hd
  have hs := b.step_of_label hl
  generalize b.state (n + 1) = t at hs
  cases hs with
  | drain _ _ ho =>
    apply queued_enqueueAll
    rwa [← List.mem_toFinset, ho]

theorem pending_of_completed (hc : CompletedAt b req n) (hn : Queued req (b.state n).queues) :
    req ∈ (b.state (n + 1)).queues.pending := by
  obtain ⟨w, now, outcome, hl, hw⟩ := hc
  have hs := b.step_of_label hl
  generalize b.state (n + 1) = t at hs
  cases hs with
  | complete _ hw' =>
    rw [hw] at hw'
    cases hw'
    refine mem_pending_complete.2 ?_
    rcases hn with hp | ⟨ha, -⟩
    · exact .inl hp
    · exact .inr ⟨rfl, ha⟩

theorem mem_pendingQueue (n : ℕ) :
    req ∈ (b.state n).queues.pendingQueue ↔ req ∈ (b.state n).queues.pending := by
  rw [← (Inv.reachable (b.reachable n)).queues.pending, List.mem_toFinset]

section

variable (hf : Fair b)

include hf

theorem Fair.token_sent :
    LeadsTo (fun n => 0 < (b.state n).signals) fun n => (b.state (n + 1)).wake = true := by
  apply hf.signal.leadsTo
  · intro n hn
    rcases b.next_cases n with ⟨-, hsame⟩ | ⟨l, -, hs⟩
    · rw [hsame]
      exact .inl hn
    generalize b.state (n + 1) = t at hs
    cases hs with
    | notify => exact .inl (Nat.succ_pos _)
    | signal => exact .inr rfl
    | _ => exact .inl hn
  · rintro n - ⟨l, rfl, hl⟩
    have hs := b.step_of_label hl
    generalize b.state (n + 1) = t at hs
    cases hs
    rfl
  · intro n hn
    exact ⟨.signal, rfl, _, .signal hn⟩

theorem Fair.token_taken :
    LeadsTo (fun n => (b.state n).wake = true) fun n => (b.state (n + 1)).scheduler = .woken := by
  have hkeep : ∀ n, (b.state n).wake = true →
      (b.state (n + 1)).wake = true ∨ (b.state (n + 1)).scheduler = .woken := by
    intro n hn
    rcases b.next_cases n with ⟨-, hsame⟩ | ⟨l, -, hs⟩
    · rw [hsame]
      exact .inl hn
    generalize b.state (n + 1) = t at hs
    cases hs with
    | signal => exact .inl rfl
    | wake => exact .inr rfl
    | _ => exact .inl hn
  apply hf.wake.leadsTo hkeep
  · rintro n - ⟨l, rfl, hl⟩
    have hs := b.step_of_label hl
    generalize b.state (n + 1) = t at hs
    cases hs
    rfl
  intro n hn
  obtain ⟨m, hnm, hsel⟩ := hf.selecting_again n trivial
  rcases kept_until hkeep hnm hn with hm | ⟨k, hnk, -, hk⟩
  · exact ⟨m, hnm, .inl ⟨.wake, rfl, _, .wake hsel hm⟩⟩
  · exact ⟨k, hnk, .inr hk⟩

theorem Fair.kept_until_step {I : Scheduler → Queues → Prop}
    (hsel : (b.state n).scheduler ≠ .selecting) (h : I (b.state n).scheduler (b.state n).queues) :
    I (b.state (n + 1)).scheduler (b.state (n + 1)).queues ∨
      ∃ l, b.label n = some l ∧ (l.byScheduler ∨ ∃ w, l = .send w) := by
  rcases b.next_cases n with ⟨-, hsame⟩ | ⟨l, hl, hs⟩
  · rw [hsame]
    exact .inl h
  rcases scheduler_step (hf.live n) hsel hs with hby | ⟨hsch, hq⟩
  · exact .inr ⟨l, hl, hby⟩
  · rw [hsch, hq]
    exact .inl h

theorem Fair.drained : LeadsTo (fun n => (b.state n).scheduler = .woken) (DrainedAt b) := by
  have hdra : ∀ n l, (b.state n).scheduler = .woken → b.label n = some l →
      (l.byScheduler ∨ ∃ w, l = .send w) → DrainedAt b n := by
    intro n l hn hl hby
    obtain ⟨order, rfl⟩ := drain_of_woken (b.step_of_label hl) hn hby
    exact ⟨order, hl⟩
  apply hf.scheduler.leadsTo
  · intro n hn
    rcases hf.kept_until_step (I := fun x _ => x = .woken) (by rw [hn]; exact Scheduler.noConfusion)
      hn with hkept | ⟨l, hl, hby⟩
    · exact .inl hkept
    · exact .inr (hdra n l hn hl hby)
  · rintro n hn ⟨l, hby, hl⟩
    exact hdra n l hn hl (.inl hby)
  intro n hn
  exact scheduler_enabled (hf.live n) (by rw [hn]; exact Scheduler.noConfusion)
    (by rw [hn]; exact fun _ => Scheduler.noConfusion)

theorem Fair.inbox_drained : LeadsTo (fun n => (b.state n).inbox ≠ ∅) (DrainedAt b) := by
  intro n hn
  have hwake : LeadsTo (fun n => (b.state n).wake = true) (DrainedAt b) :=
    hf.token_taken.of_succ.trans hf.drained
  rcases (hf.live n).noticed with hin | hsig | hw | hw
  · exact absurd hin hn
  · exact (hf.token_sent.of_succ.trans hwake) n hsig
  · exact hwake n hw
  · exact hf.drained n hw

theorem Fair.received (req : Request) :
    LeadsTo (fun n => (b.state n).scheduler = .sending req)
      fun n => ∃ w, (b.state (n + 1)).workers w = .running req := by
  have hrec : ∀ n l, (b.state n).scheduler = .sending req → b.label n = some l →
      (l.byScheduler ∨ ∃ w, l = .send w) → ∃ w, (b.state (n + 1)).workers w = .running req := by
    intro n l hn hl hby
    have hs := b.step_of_label hl
    generalize b.state (n + 1) = t at hs
    cases hs with
    | @send _ w hsch =>
      rw [hn] at hsch
      cases hsch
      exact ⟨w, by rw [workers_setWorker, if_pos rfl]⟩
    | start hsch | arm hsch | drain hsch | fire hsch | fired hsch | dispatch hsch
    | idle hsch =>
      rw [hn] at hsch
      cases hsch
    | _ => simp [Label.byScheduler] at hby
  intro n hn
  obtain ⟨m, hnm, hsel⟩ := hf.selecting_again n trivial
  rcases kept_until (P := fun n => (b.state n).scheduler = .sending req) (fun k hk => by
    rcases hf.kept_until_step (I := fun x _ => x = .sending req)
      (by rw [hk]; exact Scheduler.noConfusion) hk with hkept | ⟨l, hl, hby⟩
    · exact .inl hkept
    · exact .inr (hrec k l hk hl hby)) hnm hn with hm | ⟨k, hnk, -, hk⟩
  · rw [hsel] at hm
    cases hm
  · exact ⟨k, hnk, hk⟩

theorem Fair.finished (w : Fin cfg.workers) (req : Request) :
    LeadsTo (fun n => (b.state n).workers w = .running req)
      fun n => ∃ outcome, (b.state (n + 1)).workers w = .completing req outcome := by
  apply (hf.finish w).leadsTo
  · intro n hrun
    have hwo := hf.worker_next n w
    rw [hrun] at hwo
    exact hwo
  · rintro n hrun ⟨l, ⟨outcome, rfl⟩, hl⟩
    have hs := b.step_of_label hl
    generalize b.state (n + 1) = t at hs
    cases hs with
    | finish hw =>
      rw [hrun] at hw
      cases hw
      exact ⟨outcome, by rw [workers_setWorker, if_pos rfl]⟩
  · intro n hrun
    exact ⟨.finish w .failed, ⟨_, rfl⟩, _, .finish hrun⟩

theorem Fair.completion_taken (w : Fin cfg.workers) (req : Request) (outcome : Outcome) :
    LeadsTo (fun n => (b.state n).workers w = .completing req outcome) (CompletedAt b req) := by
  have hkeep : ∀ n, (b.state n).workers w = .completing req outcome →
      (b.state (n + 1)).workers w = .completing req outcome ∨ CompletedAt b req n := by
    intro n hn
    have hwo := hf.worker_next n w
    rw [hn] at hwo
    rcases hwo with hsame | ⟨now, hl⟩
    · exact .inl hsame
    · exact .inr ⟨w, now, outcome, hl, hn⟩
  apply (hf.complete w).leadsTo hkeep
  · rintro n hn ⟨l, ⟨now, rfl⟩, hl⟩
    exact ⟨w, now, outcome, hl, hn⟩
  intro n hn
  obtain ⟨m, hnm, hsel⟩ := hf.selecting_again n trivial
  rcases kept_until hkeep hnm hn with hm | ⟨k, hnk, -, hk⟩
  · exact ⟨m, hnm, .inl ⟨.complete w 0, ⟨0, rfl⟩, _, .complete hsel hm⟩⟩
  · exact ⟨k, hnk, .inr hk⟩

theorem Fair.completed (req : Request) :
    LeadsTo (fun n => req ∈ (b.state n).queues.inFlight) (CompletedAt b req) := by
  have hrun : ∀ w, LeadsTo (fun n => (b.state n).workers w = .running req)
      (CompletedAt b req) := by
    intro w n hn
    obtain ⟨m, hnm, outcome, hm⟩ := hf.finished w req n hn
    obtain ⟨k, hmk, hk⟩ := hf.completion_taken w req outcome (m + 1) hm
    exact ⟨k, by omega, hk⟩
  intro n hn
  rcases (hf.live n).held req hn with ⟨w, hw⟩ | hsend
  · cases hwo : (b.state n).workers w with
    | running r =>
      rw [hwo] at hw
      cases hw
      exact hrun w n hwo
    | completing r outcome =>
      rw [hwo] at hw
      cases hw
      exact hf.completion_taken w req outcome n hwo
    | looping | idle | exited =>
      rw [hwo] at hw
      cases hw
  obtain ⟨m, hnm, w, hw⟩ := hf.received req n hsend
  obtain ⟨k, hmk, hk⟩ := hrun w (m + 1) hw
  exact ⟨k, by omega, hk⟩

theorem Fair.dispatches :
    LeadsTo (fun n => (b.state n).scheduler = .dispatching ∧
      (b.state n).queues.busy < (cfg.workers : Int) ∧ (b.state n).queues.pendingQueue ≠ [])
      (DispatchedAt b) := by
  have hdis : ∀ n l, ((b.state n).scheduler = .dispatching ∧
      (b.state n).queues.busy < (cfg.workers : Int) ∧ (b.state n).queues.pendingQueue ≠ []) →
      b.label n = some l → (l.byScheduler ∨ ∃ w, l = .send w) → DispatchedAt b n := by
    rintro n l ⟨hsch, hb, hq⟩ hl hby
    obtain rfl := dispatch_of_dispatching (b.step_of_label hl) hsch hb hq hby
    exact hl
  apply hf.scheduler.leadsTo
  · intro n hn
    rcases hf.kept_until_step
      (I := fun x q => x = .dispatching ∧ q.busy < (cfg.workers : Int) ∧ q.pendingQueue ≠ [])
      (by rw [hn.1]; exact Scheduler.noConfusion) hn with hkept | ⟨l, hl, hby⟩
    · exact .inl hkept
    · exact .inr (hdis n l hn hl hby)
  · rintro n hn ⟨l, hby, hl⟩
    exact hdis n l hn hl (.inl hby)
  rintro n ⟨hsch, -, -⟩
  exact scheduler_enabled (hf.live n) (by rw [hsch]; exact Scheduler.noConfusion)
    (by rw [hsch]; exact fun _ => Scheduler.noConfusion)

theorem Fair.dispatched :
    LeadsTo (fun n => (b.state n).queues.pendingQueue ≠ []) (DispatchedAt b) := by
  have hkeep : ∀ n, (b.state n).queues.pendingQueue ≠ [] →
      (b.state (n + 1)).queues.pendingQueue ≠ [] ∨ DispatchedAt b n := by
    intro n hn
    rcases pendingQueue_next n with ⟨new, hnew⟩ | hd
    · rw [hnew]
      exact .inl (append_ne_nil_of_left_ne_nil hn new)
    · exact .inr hd
  apply of_kept hkeep
  intro n hpend
  obtain ⟨m, hnm, hsel⟩ := hf.selecting_again n trivial
  have hinv := Inv.reachable (b.reachable m)
  have hbusy : (cfg.workers : Int) ≤ (b.state m).queues.busy := by
    rcases (hf.live m).saturated (.inr (.inr hsel)) with hbusy | hnil
    · exact hbusy
    · exact absurd hnil (hpend m hnm)
  obtain ⟨r, hr⟩ : (b.state m).queues.inFlight.Nonempty := by
    rw [← Finset.card_pos]
    have hcard := hinv.queues.busy
    have hpos := cfg.workers_pos
    omega
  obtain ⟨c, hmc, w, now, outcome, hl, hw⟩ := hf.completed r m hr
  have hbou := (Inv.reachable (b.reachable c)).bound
  have hfree : (b.state (c + 1)).scheduler = .dispatching ∧
      (b.state (c + 1)).queues.busy < (cfg.workers : Int) := by
    have hs := b.step_of_label hl
    generalize b.state (c + 1) = t at hs
    cases hs
    refine ⟨rfl, ?_⟩
    change (Queues.complete ..).busy < _
    rw [busy_complete]
    omega
  obtain ⟨k, hck, hk⟩ := hf.dispatches (c + 1) ⟨hfree.1, hfree.2, hpend (c + 1) (by omega)⟩
  exact ⟨k, by omega, hk⟩

theorem Fair.started_of_pending (req : Request) :
    LeadsTo (fun n => req ∈ (b.state n).queues.pendingQueue) (StartedAt b req) := by
  apply LeadsTo.of_rank fun n => (b.state n).queues.pendingQueue.idxOf req
  intro r
  have hdis : LeadsTo (fun n => req ∈ (b.state n).queues.pendingQueue ∧
      (b.state n).queues.pendingQueue.idxOf req = r) fun n => StartedAt b req n ∨
        req ∈ (b.state (n + 1)).queues.pendingQueue ∧
          (b.state (n + 1)).queues.pendingQueue.idxOf req < r := by
    have htak : ∀ n, (req ∈ (b.state n).queues.pendingQueue ∧
        (b.state n).queues.pendingQueue.idxOf req = r) → DispatchedAt b n →
        StartedAt b req n ∨ req ∈ (b.state (n + 1)).queues.pendingQueue ∧
          (b.state (n + 1)).queues.pendingQueue.idxOf req < r := by
      rintro n ⟨hn, rfl⟩ hd
      exact idxOf_dispatched hd hn
    apply of_kept
    · rintro n ⟨hn, hr⟩
      rcases pendingQueue_next n with ⟨new, hnew⟩ | hd
      · rw [hnew]
        exact .inl ⟨mem_append_left new hn, (idxOf_append_of_mem hn).trans hr⟩
      · exact .inr (htak n ⟨hn, hr⟩ hd)
    intro n hkept
    obtain ⟨m, hnm, hd⟩ := hf.dispatched n (ne_nil_of_mem (hkept n le_rfl).1)
    exact ⟨m, hnm, htak m (hkept m hnm) hd⟩
  intro n hn
  obtain ⟨m, hnm, hs | hlt⟩ := hdis n hn
  · exact ⟨m, hnm, .inl hs⟩
  · exact ⟨m + 1, by omega, .inr hlt⟩

theorem Fair.started_of_queued (req : Request) :
    LeadsTo (fun n => Queued req (b.state n).queues) (StartedAt b req) := by
  intro n hn
  rcases hn with hp | ⟨ha, hin⟩
  · exact hf.started_of_pending req n ((mem_pendingQueue n).2 hp)
  obtain ⟨c, hnc, hc⟩ := hf.completed req n hin
  rcases kept_until (P := fun n => Queued req (b.state n).queues)
    (fun _ => queued_next) hnc (.inr ⟨ha, hin⟩) with hq | ⟨k, hnk, -, hk⟩
  · have hp := pending_of_completed hc hq
    obtain ⟨e, hce, he⟩ := hf.started_of_pending req (c + 1) ((mem_pendingQueue (c + 1)).2 hp)
    exact ⟨e, by omega, he⟩
  · exact ⟨k, hnk, hk⟩

theorem Fair.causes {i : ℕ} (hi : NotifiedAt b req i) : ∃ e, Causes b req i e := by
  have hdr : ∃ d, i < d ∧ DrainedAt b d :=
    hf.inbox_drained (i + 1) (Finset.ne_empty_of_mem hi.mem_inbox)
  obtain ⟨d, hd⟩ := FirstAfter.exists_of hdr
  have hinb : req ∈ (b.state d).inbox := by
    rcases kept_until (P := fun n => req ∈ (b.state n).inbox)
      (fun _ => inbox_until_drained) (show i + 1 ≤ d from hd.1) hi.mem_inbox with
      hin | ⟨k, hik, hkd, hk⟩
    · exact hin
    · exact absurd hk (hd.2.2 k hik hkd)
  have hstd : ∃ e, d < e ∧ StartedAt b req e :=
    hf.started_of_queued req (d + 1) (queued_of_drained hd.2.1 hinb)
  obtain ⟨e, he⟩ := FirstAfter.exists_of hstd
  exact ⟨e, d, hd, he⟩

theorem Fair.runs {e : ℕ} (he : StartedAt b req e) :
    ∃ k w, e < k ∧ (b.state k).workers w = .running req := by
  have hsend : (b.state (e + 1)).scheduler = .sending req := by
    obtain ⟨hl, hhead⟩ := he
    have hs := b.step_of_label hl
    generalize b.state (e + 1) = t at hs
    cases hs with
    | dispatch _ _ hq =>
      rw [hq] at hhead
      cases hhead
      rfl
  obtain ⟨k, hek, w, hw⟩ := hf.received req (e + 1) hsend
  exact ⟨k + 1, w, by omega, hw⟩

end

structure Notifications (b : Behaviour (runner cfg)) : Prop where
  kept : ∀ req i j k, NotifiedAt b req i → i < j → b.label j = some .signal → j < k →
    (∃ e, i < e ∧ e < k ∧ StartedAt b req e) ∨ Tracked req (b.state k)
  at_most_two : ∀ req a,
    Set.encard {e | ∃ i, NotifiedAt b req i ∧ InRound b req a i ∧ Causes b req i e} ≤ 2
  at_least_one : Fair b → ∀ req i, NotifiedAt b req i →
    ∃ e, Causes b req i e ∧ i < e ∧ ∃ k w, e < k ∧ (b.state k).workers w = .running req

/-- **No lost notification.** -/
theorem no_lost_notification (b : Behaviour (runner cfg)) : Notifications b := by
  refine ⟨?_, at_most_two_rounds b, ?_⟩
  · intro req i j k hi hij hj hjk
    exact tracked_until_started hi hij hj hjk
  intro hf req i hi
  obtain ⟨e, d, hd, he⟩ := hf.causes hi
  exact ⟨e, ⟨d, hd, he⟩, hd.1.trans he.1, hf.runs he.2.1⟩

def served (inbox : Finset Request) (wake : Bool) (signals : ℕ) (scheduler : Scheduler) (q : Queues)
    (x : Worker) : State oneWorker.workers :=
  ⟨inbox, wake, signals, false, scheduler, q, fun _ => x⟩

def servedRun : List (Label oneWorker.workers × State oneWorker.workers) :=
  let req : Request := ⟨"netmap", "ws"⟩
  let w : Fin oneWorker.workers := ⟨0, Nat.zero_lt_one⟩
  let q : Queues := ⟨∅, [], {req}, ∅, .empty, [], 1⟩
  [(.start fun _ => 0, served ∅ false 0 .top .empty .looping),
    (.ready w, served ∅ false 0 .top .empty .idle),
    (.arm, served ∅ false 0 .selecting .empty .idle),
    (.notify req, served {req} false 1 .selecting .empty .idle),
    (.signal, served {req} true 0 .selecting .empty .idle),
    (.wake, served {req} false 0 .woken .empty .idle),
    (.drain [req], served ∅ false 0 .dispatching ⟨{req}, [req], ∅, ∅, .empty, [], 0⟩ .idle),
    (.dispatch, served ∅ false 0 (.sending req) q .idle),
    (.send w, served ∅ false 0 .dispatching q (.running req)),
    (.idle, served ∅ false 0 .top q (.running req)),
    (.arm, served ∅ false 0 .selecting q (.running req)),
    (.finish w (.done 0), served ∅ false 0 .selecting q (.completing req (.done 0))),
    (.complete w 0, served ∅ false 0 .dispatching .empty .looping),
    (.ready w, served ∅ false 0 .dispatching .empty .idle),
    (.idle, served ∅ false 0 .top .empty .idle),
    (.arm, served ∅ false 0 .selecting .empty .idle)]

theorem path_servedRun :
    (runner oneWorker).Path (served ∅ false 0 .starting .empty .looping) servedRun := by
  refine ⟨.start rfl, step_oneWorker (.ready rfl), .arm rfl rfl, .notify (by decide),
    .signal Nat.zero_lt_one, .wake rfl rfl, .drain rfl (nodup_singleton _) rfl,
    .dispatch rfl Int.zero_lt_one rfl, step_oneWorker (.send rfl rfl),
    .idle rfl (.inr rfl), .arm rfl rfl, step_oneWorker (.finish rfl),
    ?_, step_oneWorker (.ready rfl), .idle rfl (.inr rfl), .arm rfl rfl, trivial⟩
  exact step_oneWorker (@Step.complete oneWorker _ ⟨"netmap", "ws"⟩ (.done 0)
    ⟨0, Nat.zero_lt_one⟩ 0 rfl rfl)

theorem step_served {l : Label oneWorker.workers} {t : State oneWorker.workers}
    (hs : Step oneWorker (served ∅ false 0 .selecting .empty .idle) l t) :
    (∃ req, l = .notify req) ∨ l = .cancel := by
  cases hs with
  | notify => exact .inl ⟨_, rfl⟩
  | cancel => exact .inr rfl
  | signal h => cases h
  | start h | arm h | drain h | fire h | fired h | dispatch h | idle h | abandon h | send h =>
    cases h
  | stop _ hc | exit _ hc => cases hc
  | wake _ hw => cases hw
  | timer _ he => exact absurd rfl he
  | complete _ hw | ready hw | finish hw => cases hw

def servedBehaviour : Behaviour (runner oneWorker) := .ofPath rfl path_servedRun

theorem fair_servedBehaviour : Fair servedBehaviour := by
  have hqt : ∀ A : Set (Label oneWorker.workers), (∀ req, .notify req ∉ A) → .cancel ∉ A →
      ∀ n, 16 ≤ n → ¬ (runner oneWorker).Enabled A (servedBehaviour.state n) := by
    rintro A hnot hcan n hn ⟨l, hl, t, hs⟩
    rw [show servedBehaviour.state n = _ from Behaviour.pathState_of_le hn] at hs
    rcases step_served hs with ⟨req, rfl⟩ | rfl
    · exact hnot req hl
    · exact hcan hl
  constructor
  · intro n hl
    obtain ⟨⟨l, t⟩, he, rfl⟩ := Option.map_eq_some_iff.1 hl
    have hmem := mem_of_getElem? he
    simp [servedRun] at hmem
  all_goals first
    | exact .of_end (hqt _ (by simp [Label.byScheduler]) (by simp [Label.byScheduler]))
    | exact fun w => .of_end (hqt _ (by simp) (by simp))

theorem served_notification :
    ∃ b : Behaviour (runner oneWorker), Fair b ∧ NotifiedAt b ⟨"netmap", "ws"⟩ 3 ∧
      Notifications b ∧ ∃ e, Causes b ⟨"netmap", "ws"⟩ 3 e := by
  have hall := no_lost_notification servedBehaviour
  obtain ⟨e, he, -⟩ := hall.at_least_one fair_servedBehaviour ⟨"netmap", "ws"⟩ 3 rfl
  exact ⟨servedBehaviour, fair_servedBehaviour, rfl, hall, e, he⟩

end LatticeMesh.Reconcile
