import LatticeMesh.Lib.Heap
import LatticeMesh.Reconcile.Queues

/-! # The event heap and the resync schedule -/

namespace LatticeMesh.Reconcile

open List Option Heap Queues

def heapPush (eq : List Event) (ev : Event) : List Event := Heap.push Event.atTime eq ev

def heapPop (eq : List Event) : Option (Event × List Event) := Heap.pop Event.atTime eq

def pushAll (eq : List Event) (evs : List Event) : List Event := evs.foldl heapPush eq

def EventHeap (eq : List Event) : Prop := Heap.IsHeap Event.atTime eq

theorem pushAll_perm (eq evs : List Event) : (pushAll eq evs).Perm (evs ++ eq) := by
  unfold pushAll
  induction evs generalizing eq with
  | nil => exact .refl _
  | cons ev evs ih =>
    refine (ih _).trans ?_
    exact ((push_perm _ eq ev).append_left evs).trans perm_middle

variable {eq : List Event}

theorem EventHeap.pushAll (h : EventHeap eq) (evs : List Event) :
    EventHeap (pushAll eq evs) := by
  unfold Reconcile.pushAll
  induction evs generalizing eq with
  | nil => exact h
  | cons ev evs ih => exact ih (push_isHeap _ h ev)

namespace Queues

def fireHeap (cfg : Config) (q : Queues) (firedAt : Time) (action : Action)
    (listed : Option (List Request)) : Queues :=
  match action with
  | .requeue req => q.enqueue req
  | .resync kind =>
    match cfg.regs.get kind with
    | none => q
    | some reg =>
      let q := if reg.lister ∧ reg.resync > 0 then
        { q with events := heapPush q.events ⟨firedAt + reg.resync, .resync kind⟩ } else q
      if reg.lister then
        match listed with
        | none => q
        | some keys => q.enqueueAll keys
      else q

def settleHeap (cfg : Config) (q : Queues) (req : Request) (outcome : Outcome) (now : Time) :
    Queues :=
  match outcome with
  | .failed =>
    let attempt := (q.fails.get req).getD 0 + 1
    { q with
      fails := q.fails.set req attempt
      events := heapPush q.events ⟨now + backoffAt cfg attempt, .requeue req⟩ }
  | .done requeueAfter =>
    { q with
      fails := q.fails.delete req
      events := if requeueAfter > 0 then heapPush q.events ⟨now + requeueAfter, .requeue req⟩
        else q.events }

def completeHeap (cfg : Config) (q : Queues) (req : Request) (outcome : Outcome) (now : Time) :
    Queues :=
  let q := { q with busy := q.busy - 1, inFlight := q.inFlight.erase req }
  (q.settleHeap cfg req outcome now).rerun req

def fireDue (cfg : Config) (firedAt : Time) :
    ℕ → (ℕ → Option (List Request)) → Queues → Option (List Event × Queues)
  | 0, _, _ => none
  | fuel + 1, lists, q =>
    match q.events.head? with
    | none => some ([], q)
    | some root =>
      if root.atTime > firedAt then some ([], q)
      else
        match heapPop q.events with
        | none => none
        | some (ev, rest) =>
          (fireDue cfg firedAt fuel (fun n => lists (n + 1))
            (fireHeap cfg { q with events := rest } firedAt ev.action (lists 0))).map
            fun r => (ev :: r.1, r.2)

theorem rerun_withEvents (q : Queues) (eq : List Event) (req : Request) :
    (q.withEvents eq).rerun req = (q.rerun req).withEvents eq := by
  by_cases h : req ∈ q.pendingAfter
  · have hrer : q.rerun req =
        enqueue { q with pendingAfter := q.pendingAfter.erase req } req := if_pos h
    rw [hrer, ← enqueue_withEvents]
    exact if_pos h
  have hrer : q.rerun req = q := if_neg h
  rw [hrer]
  exact if_neg h

theorem fireHeap_withEvents (cfg : Config) (q : Queues) (eq : List Event) (firedAt : Time)
    (action : Action) (listed : Option (List Request)) :
    (q.withEvents eq).fireHeap cfg firedAt action listed =
      (q.fire cfg firedAt action listed).withEvents (pushAll eq (rearm cfg firedAt action)) := by
  rw [fire_eq]
  cases action with
  | requeue req => exact enqueue_withEvents ..
  | resync kind =>
    simp only [fireHeap, followed, rearm]
    cases cfg.regs.get kind with
    | none => rfl
    | some reg =>
      cases hl : reg.lister with
      | false => cases listed <;> simp [hl, pushAll, enqueueAll, withEvents]
      | true =>
        by_cases hr : reg.resync > 0
        · cases listed with
          | none => simp [hl, hr, pushAll, enqueueAll, withEvents]
          | some keys =>
            simp only [hl, hr, and_self, if_true]
            exact enqueueAll_withEvents q _ keys
        cases listed with
        | none => simp [hl, hr, pushAll, enqueueAll, withEvents]
        | some keys =>
          simp only [hl, hr, and_false, if_true, if_false]
          exact enqueueAll_withEvents q eq keys

theorem completeHeap_withEvents (cfg : Config) (q : Queues) (eq : List Event) (req : Request)
    (outcome : Outcome) (now : Time) :
    (q.withEvents eq).completeHeap cfg req outcome now =
      (q.complete cfg req outcome now).withEvents (pushAll eq (q.retry cfg req outcome now)) := by
  have hset : ∀ q : Queues, (q.withEvents eq).settleHeap cfg req outcome now =
      (q.settle cfg req outcome now).withEvents (pushAll eq (q.retry cfg req outcome now)) := by
    intro q
    cases outcome with
    | failed => rfl
    | done requeueAfter =>
      simp only [settleHeap, settle, retry]
      split <;> rfl
  have hfre := hset { q with busy := q.busy - 1, inFlight := q.inFlight.erase req }
  exact (congrArg (rerun · req) hfre).trans (rerun_withEvents ..)

end Queues

def State.withEvents {n : Nat} (s : State n) (eq : List Event) : State n :=
  { s with queues := s.queues.withEvents eq }

def Label.onHeap {n : Nat} : Label n → Prop
  | .start _ | .fire _ _ | .fired | .complete _ _ => True
  | _ => False

section

variable (cfg : Config)

inductive HeapStep : State cfg.workers → Label cfg.workers → State cfg.workers → Prop
  | start {s} {times : String → Time} {order : List String} (h : s.scheduler = .starting)
      (ho : order.Perm cfg.resynced) :
      HeapStep s (.start times) { s with
        scheduler := .top
        queues := s.queues.withEvents
          (pushAll [] (order.map fun kind => ⟨times kind, .resync kind⟩)) }
  | fire {s firedAt ev rest listed} (h : s.scheduler = .firing firedAt)
      (hpop : heapPop s.queues.events = some (ev, rest)) (hdue : ev.atTime ≤ firedAt) :
      HeapStep s (.fire ev listed) { s with
        queues := (s.queues.withEvents rest).fireHeap cfg firedAt ev.action listed }
  | fired {s firedAt} (h : s.scheduler = .firing firedAt)
      (hroot : ∀ root, s.queues.events.head? = some root → firedAt < root.atTime) :
      HeapStep s .fired { s with scheduler := .dispatching }
  | complete {s req outcome w now} (h : s.scheduler = .selecting)
      (hw : s.workers w = .completing req outcome) :
      HeapStep s (.complete w now) ({ s with
        scheduler := .dispatching
        queues := s.queues.completeHeap cfg req outcome now }.setWorker w .looping)
  | other {s l t} (hl : ¬ l.onHeap) (h : Step cfg s l t) : HeapStep s l t

def heapRunner : LTS (State cfg.workers) (Label cfg.workers) where
  init := (runner cfg).init
  step := HeapStep cfg

end

variable {cfg : Config} {a s t : State cfg.workers}

structure Refines (a s : State cfg.workers) : Prop where
  same : s = a.withEvents s.queues.events
  perm : s.queues.events.Perm a.queues.events

theorem Refines.of_withEvents {b : State cfg.workers} (h : eq.Perm b.queues.events) :
    Refines b (b.withEvents eq) := ⟨rfl, h⟩

theorem Step.of_withEvents {l : Label cfg.workers} (hl : ¬ l.onHeap) (hp : eq.Perm a.queues.events)
    (h : Step cfg (a.withEvents eq) l t) :
    ∃ b, Step cfg a l b ∧ t = b.withEvents eq ∧ b.queues.events = a.queues.events := by
  cases h with
  | notify hreg => exact ⟨_, .notify hreg, rfl, rfl⟩
  | signal h => exact ⟨_, .signal h, rfl, rfl⟩
  | cancel => exact ⟨_, .cancel, rfl, rfl⟩
  | arm h hc => exact ⟨_, .arm h hc, rfl, rfl⟩
  | stop h hc => exact ⟨_, .stop h hc, rfl, rfl⟩
  | wake h hw => exact ⟨_, .wake h hw, rfl, rfl⟩
  | drain h hn ho =>
    refine ⟨_, .drain h hn ho, ?_, events_enqueueAll ..⟩
    exact congrArg (fun q => { a with scheduler := .dispatching, inbox := ∅, queues := q })
      (enqueueAll_withEvents ..)
  | timer h he =>
    refine ⟨_, .timer h ?_, rfl, rfl⟩
    intro hnil
    rw [hnil] at hp
    exact he hp.eq_nil
  | dispatch h hb hq => exact ⟨_, .dispatch h hb hq, rfl, rfl⟩
  | idle h hdone => exact ⟨_, .idle h hdone, rfl, rfl⟩
  | abandon h hc => exact ⟨_, .abandon h hc, rfl, rfl⟩
  | send h hw => exact ⟨_, .send h hw, rfl, rfl⟩
  | ready hw => exact ⟨_, .ready hw, rfl, rfl⟩
  | finish hw => exact ⟨_, .finish hw, rfl, rfl⟩
  | exit hw hc => exact ⟨_, .exit hw hc, rfl, rfl⟩
  | start | fire | fired | complete => exact absurd trivial hl

theorem HeapStep.refines {l : Label cfg.workers} (hr : Refines a s)
    (hheap : EventHeap s.queues.events) (h : HeapStep cfg s l t) :
    EventHeap t.queues.events ∧ ∃ b, Step cfg a l b ∧ Refines b t := by
  obtain ⟨hsame, hperm⟩ := hr
  generalize s.queues.events = eq at hsame hperm hheap
  subst hsame
  cases h with
  | start h ho =>
    have hnil : EventHeap [] := isHeap_nil Event.atTime
    refine ⟨hnil.pushAll _, _, .start h, .of_withEvents ?_⟩
    refine (pushAll_perm ..).trans ?_
    rw [append_nil]
    exact ho.map _
  | @fire firedAt ev rest listed h hpop hdue =>
    obtain ⟨hhead, hrest⟩ := pop_perm _ hpop
    have hev : ev ∈ a.queues.events :=
      hperm.mem_iff.1 (hrest.mem_iff.2 mem_cons_self)
    have hmin : ∀ e ∈ a.queues.events, ev.atTime ≤ e.atTime := by
      intro e he
      exact hheap.root_le _ hhead (hperm.mem_iff.2 he)
    have hera : rest.Perm (a.queues.events.erase ev) :=
      (cons_perm_iff_perm_erase.1 (hrest.symm.trans hperm)).2
    have hfire : (((a.withEvents eq).queues.withEvents rest).fireHeap cfg firedAt ev.action
        listed) = ((a.queues.withEvents (a.queues.events.erase ev)).fire cfg firedAt ev.action
          listed).withEvents (pushAll rest (Queues.rearm cfg firedAt ev.action)) :=
      fireHeap_withEvents cfg (a.queues.withEvents (a.queues.events.erase ev)) rest ..
    rw [hfire]
    have hleft : EventHeap rest := pop_isHeap _ hheap hpop
    refine ⟨hleft.pushAll _, _, .fire h hev hmin hdue, .of_withEvents ?_⟩
    rw [events_fire]
    exact (pushAll_perm ..).trans (hera.append_left _)
  | fired h hroot =>
    refine ⟨hheap, _, .fired h ?_, .of_withEvents hperm⟩
    intro e he
    cases hhead : eq.head? with
    | none =>
      rw [head?_eq_none_iff.1 hhead] at hperm
      rw [hperm.symm.eq_nil] at he
      cases he
    | some root =>
      exact (hroot root hhead).trans_le (hheap.root_le _ hhead (hperm.mem_iff.2 he))
  | @complete req outcome w now h hw =>
    have hcom : (a.withEvents eq).queues.completeHeap cfg req outcome now =
        (a.queues.complete cfg req outcome now).withEvents
          (pushAll eq (a.queues.retry cfg req outcome now)) :=
      completeHeap_withEvents ..
    rw [hcom]
    refine ⟨hheap.pushAll _, _, .complete h hw, .of_withEvents ?_⟩
    change List.Perm _ (a.queues.complete cfg req outcome now).events
    rw [events_complete]
    exact (pushAll_perm ..).trans (hperm.append_left _)
  | other hl h =>
    obtain ⟨b, hb, rfl, hev⟩ := h.of_withEvents hl hperm
    exact ⟨hheap, b, hb, .of_withEvents (hev ▸ hperm)⟩

theorem heapRunner_refines (h : (heapRunner cfg).Reachable s) :
    EventHeap s.queues.events ∧ ∃ a, (runner cfg).Reachable a ∧ Refines a s := by
  induction h with
  | @init s h =>
    refine ⟨?_, s, .init h, rfl, .refl _⟩
    rw [show s = _ from h]
    exact isHeap_nil Event.atTime
  | step _ hs ih =>
    obtain ⟨hheap, a, ha, hr⟩ := ih
    obtain ⟨hheap', b, hb, hr'⟩ := hs.refines hr hheap
    exact ⟨hheap', b, ha.step hb, hr'⟩

def due (firedAt : Time) (eq : List Event) : List Event := eq.filter fun e => e.atTime ≤ firedAt

def later (firedAt : Time) (eq : List Event) : List Event := eq.filter fun e => firedAt < e.atTime

variable {firedAt : Time} {q : Queues}

theorem mem_rearm {action : Action} {e : Event} (h : e ∈ Queues.rearm cfg firedAt action) :
    firedAt < e.atTime := by
  cases action with
  | requeue req => cases h
  | resync kind =>
    unfold Queues.rearm at h
    dsimp only at h
    split at h
    · cases h
    split at h
    · next hr =>
      rw [mem_singleton.1 h]
      exact Int.lt_add_of_pos_right firedAt hr.2
    · cases h

theorem due_rearm (cfg : Config) (firedAt : Time) (action : Action) :
    due firedAt (Queues.rearm cfg firedAt action) = [] := by
  apply filter_eq_nil_iff.2
  intro e he
  simpa using mem_rearm he

theorem later_rearm (firedAt : Time) (action : Action) :
    later firedAt (Queues.rearm cfg firedAt action) = Queues.rearm cfg firedAt action := by
  apply filter_eq_self.2
  intro e he
  simpa using mem_rearm he

structure Fired (cfg : Config) (firedAt : Time) (q : Queues) (popped : List Event) (q' : Queues) :
    Prop where
  heap : EventHeap q'.events
  pops : popped.Perm (due firedAt q.events)
  leaves : q'.events.Perm
    (later firedAt q.events ++ popped.flatMap fun e => Queues.rearm cfg firedAt e.action)

theorem Fired.round {q' : Queues} {ev : Event} {rest popped : List Event}
    {listed : Option (List Request)} (hpop : heapPop q.events = some (ev, rest))
    (hdue : ev.atTime ≤ firedAt)
    (h : Fired cfg firedAt ((q.withEvents rest).fireHeap cfg firedAt ev.action listed) popped q') :
    Fired cfg firedAt q (ev :: popped) q' := by
  obtain ⟨-, hperm⟩ := pop_perm _ hpop
  obtain ⟨hheap, hpops, hlv⟩ := h
  have heve : ((q.withEvents rest).fireHeap cfg firedAt ev.action listed).events.Perm
      (Queues.rearm cfg firedAt ev.action ++ rest) := by
    rw [fireHeap_withEvents]
    exact pushAll_perm ..
  refine ⟨hheap, ?_, ?_⟩
  · have hq : due firedAt (ev :: rest) = ev :: due firedAt rest :=
      filter_cons_of_pos (by simpa using hdue)
    have hrest : (due firedAt (Queues.rearm cfg firedAt ev.action ++ rest)) = due firedAt rest := by
      rw [due, filter_append, ← due, ← due, due_rearm, nil_append]
    calc List.Perm (ev :: popped)
          (ev :: due firedAt (Queues.rearm cfg firedAt ev.action ++ rest)) :=
        (hpops.trans (heve.filter _)).cons ev
      _ = due firedAt (ev :: rest) := by rw [hrest, hq]
      List.Perm _ (due firedAt q.events) := hperm.symm.filter _
  have hq : later firedAt (ev :: rest) = later firedAt rest :=
    filter_cons_of_neg (by simpa using hdue)
  have hrest : later firedAt (Queues.rearm cfg firedAt ev.action ++ rest) =
      Queues.rearm cfg firedAt ev.action ++ later firedAt rest := by
    rw [later, filter_append, ← later, ← later, later_rearm]
  have hlat : (later firedAt q.events).Perm (later firedAt rest) := by
    rw [← hq]
    exact hperm.filter _
  refine hlv.trans ?_
  refine ((heve.filter _).append_right _).trans ?_
  rw [← later, hrest, flatMap_cons, ← append_assoc]
  exact (perm_append_comm.trans (hlat.symm.append_right _)).append_right _

theorem Fired.done (hheap : EventHeap q.events)
    (hroot : ∀ root, q.events.head? = some root → firedAt < root.atTime) :
    Fired cfg firedAt q [] q := by
  have hlat : ∀ e ∈ q.events, firedAt < e.atTime := by
    intro e he
    cases hhead : q.events.head? with
    | none =>
      rw [head?_eq_none_iff.1 hhead] at he
      cases he
    | some root => exact (hroot root hhead).trans_le (hheap.root_le _ hhead he)
  refine ⟨hheap, ?_, ?_⟩
  · have hdue : due firedAt q.events = [] := by
      apply filter_eq_nil_iff.2
      intro e he
      simpa using hlat e he
    rw [hdue]
  have hkeep : later firedAt q.events = q.events := by
    apply filter_eq_self.2
    intro e he
    simpa using hlat e he
  rw [hkeep, flatMap_nil, append_nil]

theorem root_cases (firedAt : Time) (eq : List Event) :
    (∀ root, eq.head? = some root → firedAt < root.atTime) ∨
      ∃ ev rest, heapPop eq = some (ev, rest) ∧ ev.atTime ≤ firedAt := by
  cases hhead : eq.head? with
  | none => exact .inl nofun
  | some root =>
    by_cases hdue : root.atTime ≤ firedAt
    · obtain ⟨rest, hpop, -⟩ := pop_eq Event.atTime hhead
      exact .inr ⟨root, rest, hpop, hdue⟩
    left
    intro r hr
    rw [← Option.some.inj hr]
    exact not_le.1 hdue

theorem fireDue_done (fuel : ℕ) (lists : ℕ → Option (List Request))
    (hroot : ∀ root, q.events.head? = some root → firedAt < root.atTime) :
    q.fireDue cfg firedAt (fuel + 1) lists = some ([], q) := by
  unfold Queues.fireDue
  split
  · rfl
  · next root hhead => rw [if_pos (hroot root hhead)]

theorem fireDue_round (fuel : ℕ) (lists : ℕ → Option (List Request)) {ev : Event}
    {rest : List Event} (hpop : heapPop q.events = some (ev, rest)) (hdue : ev.atTime ≤ firedAt) :
    q.fireDue cfg firedAt (fuel + 1) lists =
      (((q.withEvents rest).fireHeap cfg firedAt ev.action (lists 0)).fireDue cfg firedAt fuel
        fun n => lists (n + 1)).map fun r => (ev :: r.1, r.2) := by
  rw [Queues.fireDue, (pop_perm _ hpop).1]
  dsimp only
  rw [if_neg (not_lt.2 hdue), hpop]
  rfl

variable {fuel : ℕ}

theorem fireDue_fired (cfg : Config) (firedAt : Time) (lists : ℕ → Option (List Request))
    (hheap : EventHeap q.events) (hfuel : (due firedAt q.events).length < fuel) :
    ∃ popped q', q.fireDue cfg firedAt fuel lists = some (popped, q') ∧
      Fired cfg firedAt q popped q' := by
  induction fuel generalizing q lists with
  | zero => exact absurd hfuel (Nat.not_lt_zero _)
  | succ fuel ih =>
    rcases root_cases firedAt q.events with hroot | ⟨ev, rest, hpop, hdue⟩
    · exact ⟨[], q, fireDue_done fuel lists hroot, .done hheap hroot⟩
    have hleft : EventHeap rest := pop_isHeap _ hheap hpop
    have heve : ((q.withEvents rest).fireHeap cfg firedAt ev.action (lists 0)).events =
        pushAll rest (Queues.rearm cfg firedAt ev.action) := by
      rw [fireHeap_withEvents]
      rfl
    have hless : (due firedAt (pushAll rest (Queues.rearm cfg firedAt ev.action))).length <
        fuel := by
      have hpush := ((pushAll_perm rest (Queues.rearm cfg firedAt ev.action)).filter
        fun e => decide (e.atTime ≤ firedAt)).length_eq
      have hq := ((pop_perm _ hpop).2.filter fun e => decide (e.atTime ≤ firedAt)).length_eq
      have hnone := due_rearm cfg firedAt ev.action
      rw [filter_cons_of_pos (by simpa using hdue)] at hq
      unfold due at hnone hfuel ⊢
      rw [filter_append, hnone, nil_append] at hpush
      rw [length_cons] at hq
      omega
    obtain ⟨popped, q', hrun, hfir⟩ := ih (fun n => lists (n + 1))
      (heve ▸ hleft.pushAll _) (heve ▸ hless)
    refine ⟨ev :: popped, q', ?_, hfir.round hpop hdue⟩
    rw [fireDue_round fuel lists hpop hdue, hrun]
    rfl

theorem fireDue_mono {fuel' : ℕ} {lists : ℕ → Option (List Request)} {r : List Event × Queues}
    (hle : fuel ≤ fuel') (h : q.fireDue cfg firedAt fuel lists = some r) :
    q.fireDue cfg firedAt fuel' lists = some r := by
  induction fuel generalizing fuel' lists q r with
  | zero => cases h
  | succ fuel ih =>
    obtain ⟨fuel', rfl⟩ : ∃ k, fuel' = k + 1 := ⟨fuel' - 1, by omega⟩
    rcases root_cases firedAt q.events with hroot | ⟨ev, rest, hpop, hdue⟩
    · rw [fireDue_done fuel lists hroot] at h
      rw [fireDue_done fuel' lists hroot, h]
    rw [fireDue_round fuel lists hpop hdue] at h
    obtain ⟨r', hr', heq⟩ := map_eq_some_iff.1 h
    rw [fireDue_round fuel' lists hpop hdue, ih (by omega) hr', map_some, heq]

theorem fireDue_reachable {lists : ℕ → Option (List Request)} {popped : List Event} {q' : Queues}
    (hs : (heapRunner cfg).Reachable s) (hf : s.scheduler = .firing firedAt)
    (hrun : s.queues.fireDue cfg firedAt fuel lists = some (popped, q')) :
    (heapRunner cfg).Reachable { s with scheduler := .dispatching, queues := q' } := by
  induction fuel generalizing s lists popped with
  | zero => cases hrun
  | succ fuel ih =>
    rcases root_cases firedAt s.queues.events with hroot | ⟨ev, rest, hpop, hdue⟩
    · rw [fireDue_done fuel lists hroot] at hrun
      cases hrun
      exact hs.step (.fired hf hroot)
    rw [fireDue_round fuel lists hpop hdue] at hrun
    obtain ⟨r, hr, heq⟩ := map_eq_some_iff.1 hrun
    cases heq
    have hnext := hs.step (@HeapStep.fire cfg s firedAt ev rest (lists 0) hf hpop hdue)
    have hend := ih hnext hf hr
    exact hend

end LatticeMesh.Reconcile
