import Mathlib.Data.Set.Card
import LatticeMesh.Lib.Behaviour
import LatticeMesh.Reconcile.Exclusion

/-! # Notifications are kept and coalesced -/

namespace LatticeMesh.Reconcile

open Queues

variable {cfg : Config} {s t : State cfg.workers} {req : Request}

def Queued (req : Request) (q : Queues) : Prop :=
  req ∈ q.pending ∨ req ∈ q.pendingAfter ∧ req ∈ q.inFlight

def Woken (s : State cfg.workers) : Prop := s.wake = true ∨ s.scheduler = .woken

def Tracked (req : Request) (s : State cfg.workers) : Prop :=
  req ∈ s.inbox ∧ Woken s ∨ Queued req s.queues

variable {q : Queues}

theorem Queued.enqueueAll (h : Queued req q) (reqs : List Request) :
    Queued req (q.enqueueAll reqs) := by
  unfold Queued
  rw [mem_pending_enqueueAll, mem_pendingAfter_enqueueAll,
    inFlight_enqueueAll]
  rcases h with hp | ⟨ha, hin⟩
  · exact .inl (.inl hp)
  · exact .inr ⟨.inl ha, hin⟩

theorem queued_enqueueAll {reqs : List Request} (h : req ∈ reqs) :
    Queued req (q.enqueueAll reqs) := by
  unfold Queued
  rw [mem_pending_enqueueAll, mem_pendingAfter_enqueueAll,
    inFlight_enqueueAll]
  by_cases hin : req ∈ q.inFlight
  · exact .inr ⟨.inr ⟨h, hin⟩, hin⟩
  · exact .inl (.inr ⟨h, hin⟩)

theorem Queued.complete (h : Queued req q) (done : Request) (outcome : Outcome) (now : Time) :
    Queued req (q.complete cfg done outcome now) := by
  unfold Queued
  rw [mem_pending_complete, mem_pendingAfter_complete, inFlight_complete,
    Finset.mem_erase]
  rcases h with hp | ⟨ha, hin⟩
  · exact .inl (.inl hp)
  by_cases hr : req = done
  · exact .inl (.inr ⟨hr, ha⟩)
  · exact .inr ⟨⟨hr, ha⟩, hr, hin⟩

theorem Queued.step (h : Queued req s.queues) {l : Label cfg.workers} (hs : Step cfg s l t) :
    Queued req t.queues ∨ l = .dispatch ∧ s.queues.pendingQueue.head? = some req := by
  cases hs with
  | notify | signal | cancel | start | arm | stop | wake | timer | fired | idle | abandon | send
  | ready | finish | exit => exact .inl h
  | drain => exact .inl (h.enqueueAll _)
  | @fire firedAt ev listed =>
    have hpop : Queued req { s.queues with events := s.queues.events.erase ev } := h
    rw [fire_eq]
    exact .inl (hpop.enqueueAll _)
  | @dispatch head rest _ _ hq =>
    by_cases hr : req = head
    · exact .inr ⟨rfl, by rw [hq, hr]; rfl⟩
    rcases h with hp | ⟨ha, hin⟩
    · exact .inl (.inl (Finset.mem_erase.2 ⟨hr, hp⟩))
    · exact .inl (.inr ⟨ha, Finset.mem_insert_of_mem hin⟩)
  | complete => exact .inl (h.complete _ _ _)

theorem inbox_step (h : req ∈ s.inbox) {l : Label cfg.workers} (hs : Step cfg s l t) :
    req ∈ t.inbox ∧ (Woken s → Woken t) ∨ Queued req t.queues := by
  cases hs with
  | notify => exact .inl ⟨Finset.mem_insert_of_mem h, id⟩
  | signal => exact .inl ⟨h, fun _ => .inl rfl⟩
  | cancel | ready | finish | exit => exact .inl ⟨h, id⟩
  | wake => exact .inl ⟨h, fun _ => .inr rfl⟩
  | drain _ _ ho =>
    right
    apply queued_enqueueAll
    rwa [← List.mem_toFinset, ho]
  | start hsch | arm hsch | timer hsch | fired hsch | dispatch hsch | idle hsch
  | abandon hsch | send hsch | complete hsch =>
    refine .inl ⟨h, ?_⟩
    rintro (hw | hw)
    · exact .inl hw
    · rw [hsch] at hw
      cases hw
  | fire => exact .inl ⟨h, id⟩
  | stop hsch =>
    refine .inl ⟨h, ?_⟩
    rintro (hw | hw)
    · exact .inl hw
    rcases hsch with hsch | hsch <;>
    · rw [hsch] at hw
      cases hw

section

variable (b : Behaviour (runner cfg)) (req : Request)

def NotifiedAt (n : ℕ) : Prop := b.label n = some (.notify req)

def DrainedAt (n : ℕ) : Prop := ∃ order, b.label n = some (.drain order)

def StartedAt (n : ℕ) : Prop :=
  b.label n = some .dispatch ∧ (b.state n).queues.pendingQueue.head? = some req

def Causes (i e : ℕ) : Prop :=
  ∃ d, FirstAfter (DrainedAt b) i d ∧ FirstAfter (StartedAt b req) d e

def InRound (a i : ℕ) : Prop :=
  StartedAt b req a ∧ a < i ∧ ∀ k, a < k → k ≤ i → req ∈ (b.state k).queues.inFlight

end

variable {b : Behaviour (runner cfg)}

variable {n : ℕ}

theorem queued_next (h : Queued req (b.state n).queues) :
    Queued req (b.state (n + 1)).queues ∨ StartedAt b req n := by
  rcases b.next_cases n with ⟨-, hsame⟩ | ⟨l, hl, hs⟩
  · rw [hsame]
    exact .inl h
  rcases h.step hs with hq | ⟨rfl, hhead⟩
  · exact .inl hq
  · exact .inr ⟨hl, hhead⟩

theorem inbox_next (h : req ∈ (b.state n).inbox) :
    req ∈ (b.state (n + 1)).inbox ∧ (Woken (b.state n) → Woken (b.state (n + 1))) ∨
      Queued req (b.state (n + 1)).queues := by
  rcases b.next_cases n with ⟨-, hsame⟩ | ⟨l, -, hs⟩
  · rw [hsame]
    exact .inl ⟨h, id⟩
  · exact inbox_step h hs

theorem tracked_next (h : Tracked req (b.state n)) :
    Tracked req (b.state (n + 1)) ∨ StartedAt b req n := by
  rcases h with ⟨hin, hw⟩ | hq
  · rcases inbox_next hin with ⟨hin', hw'⟩ | hq'
    · exact .inl (.inl ⟨hin', hw' hw⟩)
    · exact .inl (.inr hq')
  rcases queued_next hq with hq' | hs
  · exact .inl (.inr hq')
  · exact .inr hs

theorem kept_next (h : req ∈ (b.state n).inbox ∨ Queued req (b.state n).queues) :
    (req ∈ (b.state (n + 1)).inbox ∨ Queued req (b.state (n + 1)).queues) ∨ StartedAt b req n := by
  rcases h with hin | hq
  · rcases inbox_next hin with ⟨hin', -⟩ | hq'
    · exact .inl (.inl hin')
    · exact .inl (.inr hq')
  rcases queued_next hq with hq' | hs
  · exact .inl (.inr hq')
  · exact .inr hs

theorem NotifiedAt.mem_inbox {i : ℕ} (h : NotifiedAt b req i) :
    req ∈ (b.state (i + 1)).inbox := by
  have hs := b.step_of_label h
  generalize b.state (i + 1) = t at hs
  cases hs
  exact Finset.mem_insert_self ..

theorem kept_until_started {m : ℕ} (hnm : n ≤ m)
    (h : req ∈ (b.state n).inbox ∨ Queued req (b.state n).queues) :
    (req ∈ (b.state m).inbox ∨ Queued req (b.state m).queues) ∨
      ∃ e, n ≤ e ∧ e < m ∧ StartedAt b req e :=
  LeadsTo.kept_until (P := fun n => req ∈ (b.state n).inbox ∨ Queued req (b.state n).queues)
    (fun _ => kept_next) hnm h

theorem tracked_until_started {i j k : ℕ} (hi : NotifiedAt b req i) (hij : i < j)
    (hj : b.label j = some .signal) (hjk : j < k) :
    (∃ e, i < e ∧ e < k ∧ StartedAt b req e) ∨ Tracked req (b.state k) := by
  rcases kept_until_started (show i + 1 ≤ j + 1 by omega) (.inl hi.mem_inbox) with
    hkept | ⟨e, hie, hej, he⟩
  · have hwok : Woken (b.state (j + 1)) := by
      have hs := b.step_of_label hj
      generalize b.state (j + 1) = t at hs
      cases hs
      exact .inl rfl
    have htra : Tracked req (b.state (j + 1)) := by
      rcases hkept with hin | hq
      · exact .inl ⟨hin, hwok⟩
      · exact .inr hq
    rcases LeadsTo.kept_until (P := fun n => Tracked req (b.state n)) (fun _ => tracked_next)
      (show j + 1 ≤ k by omega) htra with hk | ⟨e, hje, hek, he⟩
    · exact .inr hk
    · exact .inl ⟨e, by omega, hek, he⟩
  · exact .inl ⟨e, by omega, by omega, he⟩

theorem StartedAt.not_inFlight (h : StartedAt b req n) :
    req ∉ (b.state n).queues.inFlight := by
  obtain ⟨-, hhead⟩ := h
  obtain ⟨rest, hq⟩ := List.head?_eq_some_iff.1 hhead
  exact ((Inv.reachable (b.reachable n)).queues.dispatchHead hq).1

theorem InRound.next_round {a d e : ℕ} (hrou : InRound b req a d)
    (he : FirstAfter (StartedAt b req) d e) : FirstAfter (StartedAt b req) a e := by
  obtain ⟨-, had, hin⟩ := hrou
  refine he.of_none had.le ?_
  intro k hak hkd hk
  exact hk.not_inFlight (hin k hak hkd)

theorem InRound.next_drain {a i d : ℕ} (hi : InRound b req a i)
    (hd : FirstAfter (DrainedAt b) i d) (hout : ¬ InRound b req a d) :
    ∃ c, FirstAfter (fun k => req ∉ (b.state k).queues.inFlight) a (c + 1) ∧
      FirstAfter (DrainedAt b) c d := by
  obtain ⟨hst, hai, hin⟩ := hi
  have hend : ∃ k, a < k ∧ req ∉ (b.state k).queues.inFlight := by
    by_contra hall
    push Not at hall
    exact hout ⟨hst, hai.trans hd.1, fun k hak _ => hall k hak⟩
  obtain ⟨c, hc⟩ := FirstAfter.exists_of hend
  have hic : i < c := by
    by_contra hle
    exact hc.2.1 (hin c hc.1 (by omega))
  have hcd : c ≤ d := by
    by_contra hlt
    refine hout ⟨hst, hai.trans hd.1, ?_⟩
    intro k hak hkd
    exact not_not.1 (hc.2.2 k hak (by omega))
  obtain ⟨c, rfl⟩ : ∃ c', c = c' + 1 := ⟨c - 1, by omega⟩
  exact ⟨c, hc, hd.of_lt (by omega) (by omega)⟩

theorem at_most_two_rounds (b : Behaviour (runner cfg)) (req : Request) (a : ℕ) :
    Set.encard {e | ∃ i, NotifiedAt b req i ∧ InRound b req a i ∧ Causes b req i e} ≤ 2 := by
  have hcov : {e | ∃ i, NotifiedAt b req i ∧ InRound b req a i ∧ Causes b req i e} ⊆
      {e | FirstAfter (StartedAt b req) a e} ∪ {e | ∃ c d,
        FirstAfter (fun k => req ∉ (b.state k).queues.inFlight) a (c + 1) ∧
        FirstAfter (DrainedAt b) c d ∧ FirstAfter (StartedAt b req) d e} := by
    rintro e ⟨i, -, hi, d, hd, he⟩
    by_cases hrou : InRound b req a d
    · exact .inl (hrou.next_round he)
    · obtain ⟨c, hc, hcd⟩ := hi.next_drain hd hrou
      exact .inr ⟨c, d, hc, hcd, he⟩
  refine (Set.encard_le_encard hcov).trans ((Set.encard_union_le _ _).trans ?_)
  rw [show (2 : ℕ∞) = 1 + 1 from rfl]
  refine add_le_add (Set.encard_le_one_iff.2 ?_) (Set.encard_le_one_iff.2 ?_)
  · intro e e' he he'
    exact FirstAfter.unique he he'
  rintro e e' ⟨c, d, hc, hd, he⟩ ⟨c', d', hc', hd', he'⟩
  obtain rfl : c = c' := Nat.succ.inj (hc.unique hc')
  obtain rfl := hd.unique hd'
  exact he.unique he'

end LatticeMesh.Reconcile
