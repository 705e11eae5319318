import LatticeMesh.Reconcile.Queues

/-!
# Mutual exclusion and progress of dispatch

`QueuesOk` relates the scheduler's own structures to each other.
-/

namespace LatticeMesh.Reconcile

open List Queues

structure QueuesOk (q : Queues) : Prop where
  nodup : q.pendingQueue.Nodup
  pending : q.pendingQueue.toFinset = q.pending
  disjoint : Disjoint q.pending q.inFlight
  after : q.pendingAfter ⊆ q.inFlight
  busy : q.busy = q.inFlight.card

namespace QueuesOk

variable {cfg : Config} {q : Queues}

theorem empty : QueuesOk .empty := by
  constructor <;> simp [Queues.empty]

theorem congr {q' : Queues} (h : QueuesOk q) (hp : q'.pending = q.pending)
    (hq : q'.pendingQueue = q.pendingQueue) (hi : q'.inFlight = q.inFlight)
    (ha : q'.pendingAfter = q.pendingAfter) (hb : q'.busy = q.busy) : QueuesOk q' := by
  constructor
  · rw [hq]
    exact h.nodup
  · rw [hq, hp]
    exact h.pending
  · rw [hp, hi]
    exact h.disjoint
  · rw [ha, hi]
    exact h.after
  · rw [hb, hi]
    exact h.busy

theorem enqueue (h : QueuesOk q) (req : Request) : QueuesOk (q.enqueue req) := by
  unfold Queues.enqueue
  split
  · next hin =>
    refine ⟨h.nodup, h.pending, h.disjoint, ?_, h.busy⟩
    exact Finset.insert_subset hin h.after
  next hin =>
  split
  · exact h
  next hp =>
  have hnew : req ∉ q.pendingQueue := by
    rw [← List.mem_toFinset, h.pending]
    exact hp
  refine ⟨?_, ?_, ?_, h.after, h.busy⟩
  · rw [nodup_append_comm]
    exact nodup_cons.2 ⟨hnew, h.nodup⟩
  · rw [toFinset_append, h.pending, Finset.union_comm]
    rfl
  · exact Finset.disjoint_insert_left.2 ⟨hin, h.disjoint⟩

theorem enqueueAll (h : QueuesOk q) (reqs : List Request) : QueuesOk (q.enqueueAll reqs) := by
  unfold Queues.enqueueAll
  induction reqs generalizing q with
  | nil => exact h
  | cons req rest ih => exact ih (h.enqueue req)

theorem fire (h : QueuesOk q) (firedAt : Time) (action : Action)
    (listed : Option (List Request)) : QueuesOk (q.fire cfg firedAt action listed) := by
  rw [fire_eq]
  exact (h.enqueueAll _).congr rfl rfl rfl rfl rfl

theorem dispatchHead (h : QueuesOk q) {req : Request} {rest : List Request}
    (hq : q.pendingQueue = req :: rest) :
    req ∉ q.inFlight ∧ QueuesOk (q.dispatchHead req rest) := by
  have hnod := h.nodup
  have hpend := h.pending
  rw [hq] at hnod hpend
  obtain ⟨hnot, hrest⟩ := nodup_cons.1 hnod
  have hmem : req ∈ q.pending := by
    rw [← hpend]
    exact List.mem_toFinset.2 mem_cons_self
  have hfree : req ∉ q.inFlight := Finset.disjoint_left.1 h.disjoint hmem
  refine ⟨hfree, hrest, ?_, ?_, ?_, ?_⟩
  · change rest.toFinset = q.pending.erase req
    rw [← hpend, toFinset_cons, Finset.erase_insert]
    rwa [List.mem_toFinset]
  · change Disjoint (q.pending.erase req) (insert req q.inFlight)
    rw [Finset.disjoint_insert_right]
    exact ⟨Finset.notMem_erase req q.pending, h.disjoint.mono_left (Finset.erase_subset ..)⟩
  · exact h.after.trans (Finset.subset_insert ..)
  change q.busy + 1 = (insert req q.inFlight).card
  rw [Finset.card_insert_of_notMem hfree, h.busy]
  push_cast
  rfl

theorem complete (h : QueuesOk q) {req : Request} (hreq : req ∈ q.inFlight) (outcome : Outcome)
    (now : Time) : QueuesOk (q.complete cfg req outcome now) := by
  obtain ⟨fails, hq⟩ := complete_eq cfg q req outcome now
  rw [hq]
  have hdisj := h.disjoint.mono_right (Finset.erase_subset req q.inFlight)
  have hbusy : q.busy - 1 = ((q.inFlight.erase req).card : Int) := by
    have hpos : 0 < q.inFlight.card := Finset.card_pos.2 ⟨req, hreq⟩
    rw [Finset.card_erase_of_mem hreq, h.busy]
    omega
  unfold Queues.rerun
  dsimp only
  split
  · apply QueuesOk.enqueue
    exact ⟨h.nodup, h.pending, hdisj, Finset.erase_subset_erase req h.after, hbusy⟩
  next hno =>
  refine ⟨h.nodup, h.pending, hdisj, ?_, hbusy⟩
  intro k hk
  refine Finset.mem_erase.2 ⟨?_, h.after hk⟩
  intro heq
  exact hno (heq ▸ hk)

end QueuesOk

structure Inv (cfg : Config) (s : State cfg.workers) : Prop where
  queues : QueuesOk s.queues
  held : ∀ w req, (s.workers w).request = some req → req ∈ s.queues.inFlight
  unique : ∀ w w' req, (s.workers w).request = some req → (s.workers w').request = some req → w = w'
  sending : ∀ req, s.scheduler = .sending req →
    req ∈ s.queues.inFlight ∧ ∀ w, (s.workers w).request ≠ some req
  bound : s.queues.busy ≤ (cfg.workers : Int)
  exited : ∀ w, s.workers w = .exited → s.cancelled = true

variable {cfg : Config} {s t : State cfg.workers}

theorem workers_setWorker (w v : Fin cfg.workers) (x : Worker) :
    (s.setWorker w x).workers v = if v = w then x else s.workers v :=
  Function.update_apply ..

variable {req : Request} {w : Fin cfg.workers} {x : Worker}

theorem request_setWorker {v : Fin cfg.workers}
    (h : ((s.setWorker w x).workers v).request = some req) :
    v = w ∧ x.request = some req ∨ v ≠ w ∧ (s.workers v).request = some req := by
  rw [workers_setWorker] at h
  by_cases hvw : v = w
  · rw [if_pos hvw] at h
    exact .inl ⟨hvw, h⟩
  · rw [if_neg hvw] at h
    exact .inr ⟨hvw, h⟩

theorem exited_setWorker {v : Fin cfg.workers}
    (hs : ∀ v, s.workers v = .exited → s.cancelled = true) (hx : x = .exited → s.cancelled = true)
    (h : (s.setWorker w x).workers v = .exited) :
    (s.setWorker w x).cancelled = true := by
  rw [workers_setWorker] at h
  split at h
  · exact hx h
  · exact hs v h

namespace Inv

theorem init : Inv cfg ⟨∅, false, 0, false, .starting, .empty, fun _ => .looping⟩ where
  queues := .empty
  held w req h := by cases h
  unique w w' req h := by cases h
  sending req h := by cases h
  bound := Int.natCast_nonneg _
  exited w h := by cases h

theorem keep (h : Inv cfg s) (hq : QueuesOk t.queues)
    (hin : t.queues.inFlight = s.queues.inFlight) (hw : t.workers = s.workers)
    (hs : ∀ req, t.scheduler = .sending req → s.scheduler = .sending req)
    (hc : s.cancelled = true → t.cancelled = true) : Inv cfg t := by
  refine ⟨hq, ?_, ?_, ?_, ?_, ?_⟩
  · rw [hw, hin]
    exact h.held
  · rw [hw]
    exact h.unique
  · intro req hreq
    rw [hw, hin]
    exact h.sending req (hs req hreq)
  · rw [hq.busy, hin, ← h.queues.busy]
    exact h.bound
  intro w hx
  rw [hw] at hx
  exact hc (h.exited w hx)

theorem setWorker (h : Inv cfg s) (w : Fin cfg.workers)
    (hx : ∀ req, x.request = some req → (s.workers w).request = some req)
    (hexit : x = .exited → s.cancelled = true) : Inv cfg (s.setWorker w x) := by
  have hold : ∀ v req, ((s.setWorker w x).workers v).request = some req →
      (s.workers v).request = some req := by
    intro v req hv
    rcases request_setWorker hv with ⟨rfl, hxr⟩ | ⟨-, hk⟩
    · exact hx req hxr
    · exact hk
  refine ⟨h.queues, ?_, ?_, ?_, h.bound, fun v hv => exited_setWorker h.exited hexit hv⟩
  · intro v req hv
    exact h.held v req (hold v req hv)
  · intro v v' req hv hv'
    exact h.unique v v' req (hold v req hv) (hold v' req hv')
  intro req hreq
  obtain ⟨hmem, hnone⟩ := h.sending req hreq
  exact ⟨hmem, fun v hv => hnone v (hold v req hv)⟩

theorem dispatch (h : Inv cfg s) {rest : List Request} (hb : s.queues.busy < (cfg.workers : Int))
    (hq : s.queues.pendingQueue = req :: rest) :
    Inv cfg { s with scheduler := .sending req, queues := s.queues.dispatchHead req rest } := by
  obtain ⟨hfree, hok⟩ := h.queues.dispatchHead hq
  refine ⟨hok, ?_, h.unique, ?_, ?_, h.exited⟩
  · intro w k hk
    exact Finset.mem_insert_of_mem (h.held w k hk)
  · intro k hk
    cases hk
    refine ⟨Finset.mem_insert_self .., ?_⟩
    intro w hw
    exact hfree (h.held w req hw)
  · change s.queues.busy + 1 ≤ _
    omega

theorem send (h : Inv cfg s) (hsend : s.scheduler = .sending req) :
    Inv cfg ({ s with scheduler := .dispatching }.setWorker w (.running req)) := by
  obtain ⟨hmem, hnone⟩ := h.sending req hsend
  have hold : ∀ v k, (({ s with scheduler := .dispatching }.setWorker w
      (.running req)).workers v).request = some k →
      v = w ∧ k = req ∨ v ≠ w ∧ (s.workers v).request = some k := by
    intro v k hv
    rcases request_setWorker hv with ⟨hvw, hrun⟩ | hoth
    · exact .inl ⟨hvw, (Option.some.inj hrun).symm⟩
    · exact .inr hoth
  refine ⟨h.queues, ?_, ?_, ?_, h.bound, fun v hv => exited_setWorker h.exited nofun hv⟩
  · intro v k hv
    rcases hold v k hv with ⟨-, rfl⟩ | ⟨-, hk⟩
    · exact hmem
    · exact h.held v k hk
  · intro v v' k hv hv'
    rcases hold v k hv with ⟨rfl, rfl⟩ | ⟨-, hk⟩
    · rcases hold v' k hv' with ⟨rfl, -⟩ | ⟨-, hk'⟩
      · rfl
      · exact absurd hk' (hnone v')
    rcases hold v' k hv' with ⟨-, rfl⟩ | ⟨-, hk'⟩
    · exact absurd hk (hnone v)
    · exact h.unique v v' k hk hk'
  · intro k hk
    cases hk

theorem complete (h : Inv cfg s) {outcome : Outcome} (hw : s.workers w = .completing req outcome)
    (now : Time) :
    Inv cfg ({ s with
      scheduler := .dispatching
      queues := s.queues.complete cfg req outcome now }.setWorker w .looping) := by
  have hreq : (s.workers w).request = some req := by rw [hw]; rfl
  have hmem := h.held w req hreq
  have hok : QueuesOk (s.queues.complete cfg req outcome now) :=
    h.queues.complete hmem outcome now
  have hold : ∀ v k, (({ s with
      scheduler := .dispatching
      queues := s.queues.complete cfg req outcome now }.setWorker w .looping).workers v).request =
        some k → v ≠ w ∧ (s.workers v).request = some k := by
    intro v k hv
    rcases request_setWorker hv with ⟨-, hloop⟩ | hoth
    · cases hloop
    · exact hoth
  refine ⟨hok, ?_, ?_, ?_, ?_, fun v hv => exited_setWorker h.exited nofun hv⟩
  · intro v k hv
    obtain ⟨hvw, hk⟩ := hold v k hv
    change k ∈ (s.queues.complete cfg req outcome now).inFlight
    rw [inFlight_complete]
    refine Finset.mem_erase.2 ⟨?_, h.held v k hk⟩
    intro heq
    exact hvw (h.unique v w req (heq ▸ hk) hreq)
  · intro v v' k hv hv'
    exact h.unique v v' k (hold v k hv).2 (hold v' k hv').2
  · intro k hk
    cases hk
  change (s.queues.complete cfg req outcome now).busy ≤ _
  have hle : (s.queues.inFlight.erase req).card ≤ s.queues.inFlight.card :=
    Finset.card_erase_le
  have hbou := h.bound
  rw [h.queues.busy] at hbou
  rw [hok.busy, inFlight_complete]
  omega

theorem step (h : Inv cfg s) {l : Label cfg.workers} (hs : Step cfg s l t) : Inv cfg t := by
  cases hs with
  | notify | signal => exact h.keep h.queues rfl rfl (fun _ hr => hr) id
  | cancel => exact h.keep h.queues rfl rfl (fun _ hr => hr) fun _ => rfl
  | start =>
    refine h.keep (h.queues.congr rfl rfl rfl rfl rfl) rfl rfl ?_ id
    intro req hr
    cases hr
  | arm | stop | wake | timer | fired | idle | abandon =>
    refine h.keep h.queues rfl rfl ?_ id
    intro req hr
    cases hr
  | drain =>
    refine h.keep (h.queues.enqueueAll _) (inFlight_enqueueAll ..) rfl ?_ id
    intro req hr
    cases hr
  | fire =>
    have hpop : ∀ events, QueuesOk { s.queues with events := events } :=
      fun _ => h.queues.congr rfl rfl rfl rfl rfl
    exact h.keep ((hpop _).fire ..) (inFlight_fire ..) rfl (fun _ hr => hr) id
  | dispatch _ hb hq => exact h.dispatch hb hq
  | send hsend => exact h.send hsend
  | complete _ hw => exact h.complete hw _
  | ready =>
    refine h.setWorker _ ?_ ?_
    · intro req hr
      cases hr
    · intro hx
      cases hx
  | finish hw =>
    refine h.setWorker _ ?_ ?_
    · intro req hr
      rw [hw]
      exact hr
    · intro hx
      cases hx
  | exit _ hc =>
    refine h.setWorker _ ?_ fun _ => hc
    intro req hr
    cases hr

theorem reachable (h : (runner cfg).Reachable s) : Inv cfg s := by
  refine h.invariant ?_ ?_
  · intro s hs
    rw [hs]
    exact init
  · intro s l t _ hinv hs
    exact hinv.step hs

end Inv

def Label.byWorker {n : Nat} : Label n → Prop
  | .ready _ | .finish _ _ | .exit _ => True
  | _ => False

def WorkerStep (cfg : Config) (s t : State cfg.workers) : Prop :=
  ∃ l : Label cfg.workers, l.byWorker ∧ Step cfg s l t

theorem Inv.exists_free (h : Inv cfg s) (hsend : s.scheduler = .sending req) :
    ∃ w, (s.workers w).request = none := by
  by_contra hall
  push Not at hall
  have hkey : ∀ w, ∃ k, (s.workers w).request = some k :=
    fun w => Option.ne_none_iff_exists'.1 (hall w)
  choose key hkey using hkey
  obtain ⟨hmem, hnone⟩ := h.sending req hsend
  have hinj : Function.Injective key := by
    intro w w' hww
    exact h.unique w w' (key w) (hkey w) (hww ▸ hkey w')
  have hsub : Finset.univ.image key ⊆ s.queues.inFlight.erase req := by
    intro k hk
    obtain ⟨w, -, rfl⟩ := Finset.mem_image.1 hk
    refine Finset.mem_erase.2 ⟨?_, h.held w _ (hkey w)⟩
    intro heq
    exact hnone w (heq ▸ hkey w)
  have hcard := Finset.card_le_card hsub
  rw [Finset.card_image_of_injective _ hinj, Finset.card_univ, Fintype.card_fin,
    Finset.card_erase_of_mem hmem] at hcard
  have hbou := h.bound
  rw [h.queues.busy] at hbou
  have hpos : 0 < s.queues.inFlight.card := Finset.card_pos.2 ⟨req, hmem⟩
  omega

def NotStuck (cfg : Config) (s : State cfg.workers) (req : Request) : Prop :=
  (s.cancelled = true ∧ ∃ t, Step cfg s .abandon t) ∨
    ∃ s', Relation.ReflTransGen (WorkerStep cfg) s s' ∧ s'.scheduler = .sending req ∧
      ∃ w t, Step cfg s' (.send w) t

theorem Inv.notStuck (h : Inv cfg s) (hsend : s.scheduler = .sending req) :
    NotStuck cfg s req := by
  cases hc : s.cancelled with
  | true => exact .inl ⟨hc, _, .abandon hsend hc⟩
  | false =>
    right
    obtain ⟨w, hw⟩ := h.exists_free hsend
    cases hwo : s.workers w with
    | idle => exact ⟨s, .refl, hsend, w, _, .send hsend hwo⟩
    | looping =>
      have hidle : (s.setWorker w .idle).workers w = .idle := by
        rw [workers_setWorker, if_pos rfl]
      exact ⟨_, .single ⟨.ready w, trivial, .ready hwo⟩, hsend, w, _, .send hsend hidle⟩
    | running | completing =>
      rw [hwo] at hw
      cases hw
    | exited =>
      have hcan := h.exited w hwo
      rw [hc] at hcan
      cases hcan

structure Exclusive (cfg : Config) (s : State cfg.workers) : Prop where
  one_worker : ∀ w w' req, (s.workers w).request = some req →
    (s.workers w').request = some req → w = w'
  busy : s.queues.busy = s.queues.inFlight.card
  bound : s.queues.busy ≤ (cfg.workers : Int)
  queue_nodup : s.queues.pendingQueue.Nodup
  queue_pending : ∀ req, req ∈ s.queues.pendingQueue ↔ req ∈ s.queues.pending
  disjoint : Disjoint s.queues.pending s.queues.inFlight
  after : s.queues.pendingAfter ⊆ s.queues.inFlight
  progress : ∀ req, s.scheduler = .sending req → NotStuck cfg s req

/-- **Mutual exclusion**, at every point of every interleaving. -/
theorem mutual_exclusion (h : (runner cfg).Reachable s) : Exclusive cfg s := by
  have hinv := Inv.reachable h
  refine ⟨hinv.unique, hinv.queues.busy, hinv.bound, hinv.queues.nodup, ?_, hinv.queues.disjoint,
    hinv.queues.after, fun req => hinv.notStuck⟩
  intro req
  rw [← hinv.queues.pending, List.mem_toFinset]

def oneWorker : Config where
  workers := 1
  backoff := [100000000]
  regs := GoMap.empty.set "netmap" ⟨false, 0⟩
  workers_pos := by decide
  backoff_ne := by decide

theorem setWorker_oneWorker (s : State oneWorker.workers) (w : Fin oneWorker.workers) (x : Worker) :
    s.setWorker w x = { s with workers := fun _ => x } := by
  unfold State.setWorker
  congr 1
  funext v
  have hv : v = w := Fin.ext ((Nat.lt_one_iff.1 v.isLt).trans (Nat.lt_one_iff.1 w.isLt).symm)
  rw [hv, Function.update_self]

theorem step_oneWorker {s t : State oneWorker.workers} {l : Label oneWorker.workers}
    {w : Fin oneWorker.workers} (h : Step oneWorker s l (t.setWorker w x)) :
    Step oneWorker s l { t with workers := fun _ => x } :=
  setWorker_oneWorker t w x ▸ h

theorem exclusive_while_sending :
    ∃ s, (runner oneWorker).Reachable s ∧ s.scheduler = .sending ⟨"netmap", "ws"⟩ ∧
      Exclusive oneWorker s := by
  have hinit : (runner oneWorker).Reachable
      ⟨∅, false, 0, false, .starting, .empty, fun _ => .looping⟩ := .init rfl
  have hnot := hinit.step (@Step.notify oneWorker _ ⟨"netmap", "ws"⟩ (by decide))
  have hsig := hnot.step (Step.signal (by decide))
  have hst := hsig.step (@Step.start oneWorker _ (fun _ => 0) rfl)
  have harm := hst.step (Step.arm rfl rfl)
  have hwake := harm.step (Step.wake rfl rfl)
  have hdra := hwake.step
    (@Step.drain oneWorker _ [⟨"netmap", "ws"⟩] rfl (nodup_singleton _) rfl)
  have hsen := hdra.step (Step.dispatch rfl (by decide) rfl)
  exact ⟨_, hsen, rfl, mutual_exclusion hsen⟩

end LatticeMesh.Reconcile
