import LatticeMesh.Reconcile.EventHeap

/-! # The resync schedule -/

namespace LatticeMesh.Reconcile

open List

def Config.resyncs (cfg : Config) (kind : String) : ℕ :=
  match cfg.regs.get kind with
  | none => 0
  | some reg => if reg.lister ∧ reg.resync > 0 then 1 else 0

def resyncEvents (kind : String) (eq : List Event) : ℕ :=
  eq.countP fun e => e.action = .resync kind

variable {cfg : Config} {s t : State cfg.workers}

theorem mem_resynced {kind : String} : kind ∈ cfg.resynced ↔ cfg.resyncs kind = 1 := by
  unfold Config.resynced Config.resyncs
  rw [mem_filterMap]
  constructor
  · rintro ⟨⟨k, reg⟩, hmem, hif⟩
    rw [Option.ite_none_right_eq_some] at hif
    obtain ⟨hr, hk⟩ := hif
    cases hk
    rw [GoMap.mem_toList.1 hmem]
    exact if_pos hr
  intro h
  cases hreg : cfg.regs.get kind with
  | none =>
    rw [hreg] at h
    cases h
  | some reg =>
    rw [hreg] at h
    dsimp only at h
    split at h
    · next hr => exact ⟨(kind, reg), GoMap.mem_toList.2 hreg, if_pos hr⟩
    · cases h

theorem resyncs_le_one (cfg : Config) (kind : String) : cfg.resyncs kind ≤ 1 := by
  unfold Config.resyncs
  split
  · exact Nat.zero_le 1
  split
  · exact le_rfl
  · exact Nat.zero_le 1

theorem nodup_resynced (cfg : Config) : cfg.resynced.Nodup := by
  have hkeys : (cfg.regs.toList.map Prod.fst).Nodup := by
    unfold GoMap.toList
    rw [List.map_map]
    exact cfg.regs.alist.nodupKeys
  unfold Config.resynced
  refine pairwise_filterMap.2 ((pairwise_map.1 hkeys).imp ?_)
  rintro ⟨k, reg⟩ ⟨k', reg'⟩ hne b hb b' hb'
  rw [Option.ite_none_right_eq_some] at hb hb'
  obtain ⟨-, hk⟩ := hb
  obtain ⟨-, hk'⟩ := hb'
  rw [← Option.some.inj hk, ← Option.some.inj hk']
  exact hne

theorem resyncEvents_start (times : String → Time) (kind : String) :
    resyncEvents kind (cfg.resynced.map fun k => ⟨times k, .resync k⟩) = cfg.resyncs kind := by
  have hcnt : resyncEvents kind (cfg.resynced.map fun k => ⟨times k, .resync k⟩) =
      cfg.resynced.count kind := by
    unfold resyncEvents List.count
    rw [countP_map]
    apply countP_congr
    intro k _
    simp
  rw [hcnt]
  by_cases hmem : kind ∈ cfg.resynced
  · rw [count_eq_one_of_mem (nodup_resynced cfg) hmem, mem_resynced.1 hmem]
  rw [count_eq_zero_of_not_mem hmem]
  have hle := resyncs_le_one cfg kind
  have hne := mt mem_resynced.2 hmem
  omega

theorem resyncEvents_append (kind : String) (l₁ l₂ : List Event) :
    resyncEvents kind (l₁ ++ l₂) = resyncEvents kind l₁ + resyncEvents kind l₂ :=
  countP_append

theorem resyncEvents_rearm (kind : String) (firedAt : Time) (action : Action) :
    resyncEvents kind (Queues.rearm cfg firedAt action) =
      if action = .resync kind then cfg.resyncs kind else 0 := by
  unfold Queues.rearm Config.resyncs
  cases action with
  | requeue req => rfl
  | resync k =>
    dsimp only
    by_cases hk : k = kind
    · subst hk
      rw [if_pos rfl]
      cases cfg.regs.get k with
      | none => rfl
      | some reg =>
        dsimp only
        split <;> simp [resyncEvents]
    rw [if_neg (by simpa using hk)]
    cases cfg.regs.get k with
    | none => rfl
    | some reg =>
      dsimp only
      split <;> simp [resyncEvents, hk]

theorem resyncEvents_retry (kind : String) (q : Queues) (req : Request) (outcome : Outcome)
    (now : Time) : resyncEvents kind (q.retry cfg req outcome now) = 0 := by
  unfold Queues.retry
  cases outcome with
  | failed => rfl
  | done requeueAfter =>
    dsimp only
    split <;> rfl

theorem resyncEvents_fire (kind : String) (firedAt : Time) {q : Queues} {ev : Event}
    (hev : ev ∈ q.events) (listed : Option (List Request))
    (h : ∀ kind, resyncEvents kind q.events = cfg.resyncs kind) :
    resyncEvents kind (({ q with events := q.events.erase ev } : Queues).fire cfg firedAt ev.action
      listed).events = cfg.resyncs kind := by
  have hone := h kind
  have hq : resyncEvents kind q.events =
      resyncEvents kind (q.events.erase ev) + if ev.action = .resync kind then 1 else 0 := by
    unfold resyncEvents
    rw [(perm_cons_erase hev).countP_eq, countP_cons]
    simp
  rw [Queues.events_fire, resyncEvents_append, resyncEvents_rearm]
  change _ + resyncEvents kind (q.events.erase ev) = _
  by_cases hk : ev.action = .resync kind
  · -- the popped event was the only one of its kind, so the kind is resynced
    have hle := resyncs_le_one cfg kind
    rw [if_pos hk] at hq ⊢
    omega
  · rw [if_neg hk] at hq ⊢
    omega

def Scheduled (cfg : Config) (s : State cfg.workers) : Prop :=
  s.scheduler ≠ .starting → ∀ kind, resyncEvents kind s.queues.events = cfg.resyncs kind

theorem Scheduled.step (h : Scheduled cfg s) {l : Label cfg.workers} (hs : Step cfg s l t) :
    Scheduled cfg t := by
  cases hs with
  | notify | signal | cancel | ready | finish | exit => exact h
  | start =>
    intro _ kind
    exact resyncEvents_start _ kind
  | arm hsch | wake hsch | timer hsch | fired hsch | idle hsch | abandon hsch
  | dispatch hsch | send hsch =>
    intro _
    exact h (by rw [hsch]; exact Scheduler.noConfusion)
  | stop hsch =>
    intro _
    apply h
    rcases hsch with hsch | hsch <;> rw [hsch] <;> exact Scheduler.noConfusion
  | drain hsch =>
    intro _ kind
    rw [← h (by rw [hsch]; exact Scheduler.noConfusion) kind]
    exact congrArg (resyncEvents kind) (Queues.events_enqueueAll ..)
  | fire hsch hev =>
    intro _ kind
    exact resyncEvents_fire kind _ hev _ (h (by rw [hsch]; exact Scheduler.noConfusion))
  | complete hsch =>
    intro _ kind
    rw [← h (by rw [hsch]; exact Scheduler.noConfusion) kind]
    refine (congrArg (resyncEvents kind) (Queues.events_complete ..)).trans ?_
    rw [resyncEvents_append, resyncEvents_retry, Nat.zero_add]

theorem Scheduled.reachable (h : (runner cfg).Reachable s) : Scheduled cfg s := by
  refine h.invariant ?_ fun _ _ _ _ hinv hs => hinv.step hs
  intro s hs hst
  rw [show s = _ from hs] at hst
  exact absurd rfl hst

structure ResyncSchedule (cfg : Config) (s : State cfg.workers) : Prop where
  ordered : EventHeap s.queues.events
  events : s.scheduler ≠ .starting →
    ∀ kind, resyncEvents kind s.queues.events = cfg.resyncs kind
  fireDue : ∀ firedAt, s.scheduler = .firing firedAt → ∀ lists, ∃ popped q',
    (∀ fuel, (due firedAt s.queues.events).length < fuel →
      s.queues.fireDue cfg firedAt fuel lists = some (popped, q')) ∧
    Fired cfg firedAt s.queues popped q' ∧
    (heapRunner cfg).Reachable { s with scheduler := .dispatching, queues := q' }

/-- **The resync schedule**, at every step of every run. -/
theorem resync_schedule (h : (heapRunner cfg).Reachable s) : ResyncSchedule cfg s := by
  obtain ⟨hheap, a, ha, hr⟩ := heapRunner_refines h
  refine ⟨hheap, ?_, ?_⟩
  · intro hst kind
    rw [← Scheduled.reachable ha (by rw [hr.same] at hst; exact hst) kind]
    exact hr.perm.countP_eq _
  intro firedAt hf lists
  obtain ⟨popped, q', hrun, hfir⟩ :=
    fireDue_fired cfg firedAt lists hheap (Nat.lt_succ_self _)
  exact ⟨popped, q', fun fuel hfuel => fireDue_mono hfuel hrun, hfir,
    fireDue_reachable h hf hrun⟩

theorem oneLister_backoff_ne : [100000000] ≠ ([] : List Time) := cons_ne_nil _ _

def oneLister : Config where
  workers := 1
  backoff := [100000000]
  regs := GoMap.empty.set "netmap" ⟨true, 30000000000⟩
  workers_pos := Nat.one_pos
  backoff_ne := oneLister_backoff_ne

theorem resync_schedule_at_start :
    ∃ s, (heapRunner oneLister).Reachable s ∧ s.scheduler = .firing 5 ∧
      ResyncSchedule oneLister s := by
  have hinit : (heapRunner oneLister).Reachable
      ⟨∅, false, 0, false, .starting, .empty, fun _ => .looping⟩ := .init rfl
  have hst := hinit.step (@HeapStep.start oneLister _ (fun _ => 0) ["netmap"] rfl (by decide))
  have harm := hst.step (.other id (.arm rfl rfl))
  have hsome : pushAll [] [⟨0, .resync "netmap"⟩] ≠ [] := by
    intro hnil
    have hperm := pushAll_perm [] [⟨0, .resync "netmap"⟩]
    rw [hnil] at hperm
    cases hperm.nil_eq
  have htim := harm.step (.other id (@Step.timer oneLister _ 5 rfl hsome))
  exact ⟨_, htim, rfl, resync_schedule htim⟩

end LatticeMesh.Reconcile
