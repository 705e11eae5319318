import Mathlib

/-! # Limiters with a fixed window -/

namespace LatticeMesh.Agent.RateLimits

open List

def second : ℤ := 10 ^ 9

structure Window where
  start : ℤ := 0
  count : ℕ := 0

def opened (unopened : ℤ → Bool) (w : Window) (now : ℤ) : Window :=
  if unopened w.start ∨ second ≤ now - w.start then ⟨now, 0⟩ else w

def allowIn (unopened : ℤ → Bool) (limit : ℕ) (w : Window) (now : ℤ) : Bool × Window :=
  let w := opened unopened w now
  if limit ≤ w.count then (false, w) else (true, { w with count := w.count + 1 })

def icmp6RatePerSecond : ℕ := 100

def pongPerSecond : ℕ := 100

def allow : Window → ℤ → Bool × Window := allowIn (fun start => start = 0) icmp6RatePerSecond

def allowPong : Window → ℤ → Bool × Window := allowIn (fun _ => false) pongPerSecond

def granted (allow : Window → ℤ → Bool × Window) : List ℤ → List ℤ × Window
  | [] => ([], {})
  | now :: earlier =>
    let g := granted allow earlier
    let answer := allow g.2 now
    (if answer.1 then now :: g.1 else g.1, answer.2)

def within (x : ℤ) (times : List ℤ) : ℕ := times.countP fun t => x ≤ t ∧ t < x + second

def since (x : ℤ) (times : List ℤ) : ℕ := times.countP fun t => x ≤ t

theorem within_le_since (x : ℤ) (times : List ℤ) : within x times ≤ since x times :=
  countP_mono_left fun t _ h => by
    simp only [decide_eq_true_eq] at h ⊢
    exact h.1

structure Counted (unopened : ℤ → Bool) (limit : ℕ) (times : List ℤ) (w : Window) (now : ℤ) :
    Prop where
  split : ∃ cur old, times = cur ++ old ∧ cur.length = w.count ∧
    (old = [] ∨ w.start ≤ now ∧ ∀ t ∈ cur, w.start ≤ t) ∧ (∀ t ∈ old, t ≤ w.start) ∧
    ∀ x, w.start - second < x → since x old ≤ limit
  count : w.count ≤ limit
  unopened : unopened w.start = true → times = []
  latest : ∀ t ∈ times, t ≤ now
  bounded : ∀ x, within x times ≤ 2 * limit

section

variable {unopened : ℤ → Bool} {limit : ℕ} {times : List ℤ} {w : Window} {now now' : ℤ}

theorem Counted.later (h : Counted unopened limit times w now) (hle : now ≤ now') :
    Counted unopened limit times w now' := by
  obtain ⟨⟨cur, old, heq, hcur, hstart, hold⟩, hcount, hun, hlatest, hbounded⟩ := h
  refine ⟨⟨cur, old, heq, hcur, ?_, hold⟩, hcount, hun, fun t ht => (hlatest t ht).trans hle,
    hbounded⟩
  exact hstart.imp_right fun h => ⟨h.1.trans hle, h.2⟩

theorem Counted.opened (h : Counted unopened limit times w now) (hnow : unopened now = false) :
    Counted unopened limit times (opened unopened w now) now := by
  unfold RateLimits.opened
  split
  · next hopen =>
    obtain ⟨⟨cur, old, rfl, hcur, -, hold, -⟩, hcount, hun, hlatest, hbounded⟩ := h
    refine ⟨⟨[], cur ++ old, rfl, rfl, .inr ⟨le_rfl, fun _ h => by cases h⟩, hlatest, fun x hx => ?_⟩,
      Nat.zero_le _, fun h => (by cases hnow.symm.trans h), hlatest, hbounded⟩
    obtain hopen | hopen := hopen
    · simp [hun hopen, since]
    have hnone : since x old = 0 := by
      refine countP_eq_zero.2 fun t ht => ?_
      have := hold t ht
      simp only at hx
      simp only [decide_eq_true_eq]
      omega
    have hadd : since x (cur ++ old) = since x cur + since x old := countP_append
    have hlen : since x cur ≤ cur.length := countP_le_length
    omega
  · exact h

theorem Counted.grant (h : Counted unopened limit times w now) (hcount : w.count < limit)
    (hun : unopened w.start = false) :
    Counted unopened limit (now :: times) { w with count := w.count + 1 } now := by
  obtain ⟨⟨cur, old, rfl, hcur, hstart, hold, hlast⟩, -, -, hlatest, hbounded⟩ := h
  refine ⟨⟨now :: cur, old, rfl, by simp [hcur], ?_, hold, hlast⟩, hcount,
    fun h => (by cases hun.symm.trans h), ?_, fun x => ?_⟩
  · exact hstart.imp_right fun h => ⟨h.1, forall_mem_cons.2 h⟩
  · exact forall_mem_cons.2 ⟨le_rfl, hlatest⟩
  have hadd : within x (now :: (cur ++ old)) = within x (now :: cur) + within x old := by
    rw [← cons_append, within, countP_append]
    rfl
  have hlen : within x (now :: cur) ≤ cur.length + 1 := countP_le_length
  by_cases hx : w.start - second < x
  · have hsince := (within_le_since x old).trans (hlast x hx)
    omega
  obtain rfl | ⟨hnow, hall⟩ := hstart
  · have hnil : within x [] = 0 := rfl
    omega
  have hnone : within x (now :: cur) = 0 := by
    refine countP_eq_zero.2 fun t ht => ?_
    have := forall_mem_cons.2 ⟨hnow, hall⟩ t ht
    simp only [decide_eq_true_eq]
    omega
  have hold := hbounded x
  have hsplit : within x (cur ++ old) = within x cur + within x old := countP_append
  omega

theorem Counted.allowIn (h : Counted unopened limit times w now) (hnow : unopened now = false) :
    Counted unopened limit
      (if (RateLimits.allowIn unopened limit w now).1 then now :: times else times)
      (RateLimits.allowIn unopened limit w now).2 now := by
  have hopened := h.opened hnow
  unfold RateLimits.allowIn
  dsimp only
  split
  · exact hopened
  next hlt =>
  refine hopened.grant (Nat.lt_of_not_le hlt) ?_
  unfold RateLimits.opened
  split
  · exact hnow
  · next hno => exact Bool.eq_false_iff.2 fun h => hno (.inl h)

theorem counted_granted {calls : List ℤ} (hsorted : calls.Pairwise (· ≥ ·))
    (hnow : ∀ t ∈ calls, unopened t = false) (hle : ∀ t ∈ calls, t ≤ now) :
    Counted unopened limit (granted (RateLimits.allowIn unopened limit) calls).1
      (granted (RateLimits.allowIn unopened limit) calls).2 now := by
  induction calls generalizing now with
  | nil =>
    exact ⟨⟨[], [], rfl, rfl, .inl rfl, fun _ h => (by cases h), fun _ _ => Nat.zero_le _⟩, Nat.zero_le _,
      fun _ => rfl, fun _ h => (by cases h), fun _ => Nat.zero_le _⟩
  | cons call calls ih =>
    obtain ⟨hfirst, hrest⟩ := pairwise_cons.1 hsorted
    obtain ⟨hcall, hcalls⟩ := forall_mem_cons.1 hnow
    exact ((ih hrest hcalls hfirst).allowIn hcall).later (hle call mem_cons_self)

theorem within_granted_le {calls : List ℤ} (hsorted : calls.Pairwise (· ≤ ·))
    (hnow : ∀ t ∈ calls, unopened t = false) (x : ℤ) :
    within x (granted (RateLimits.allowIn unopened limit) calls.reverse).1 ≤ 2 * limit := by
  obtain ⟨now, hle⟩ := calls.toFinset.exists_le
  have hcounted : Counted unopened limit _ _ now :=
    counted_granted (pairwise_reverse.2 hsorted) ?_ ?_
  · exact hcounted.bounded x
  · exact fun t ht => hnow t (mem_reverse.1 ht)
  · exact fun t ht => hle t (List.mem_toFinset.2 (mem_reverse.1 ht))

end

/-- **Twice the limit.** For calls in the order of their times, each limiter grants at most twice its
limit in any half-open second; the ICMPv6 limiter if no call is at the zero time. -/
theorem grants_bounded (calls : List ℤ) (hsorted : calls.Pairwise (· ≤ ·)) (x : ℤ) :
    within x (granted allowPong calls.reverse).1 ≤ 2 * pongPerSecond ∧
      ((∀ t ∈ calls, t ≠ 0) →
        within x (granted allow calls.reverse).1 ≤ 2 * icmp6RatePerSecond) :=
  ⟨within_granted_le hsorted (fun _ _ => rfl) x,
    fun hnow => within_granted_le hsorted (fun t ht => decide_eq_false (hnow t ht)) x⟩

theorem two_calls_granted : within 1 (granted allow [2, 1]).1 = 2 ∧
    within 1 (granted allow [1, 2].reverse).1 ≤ 2 * icmp6RatePerSecond :=
  ⟨by decide, (grants_bounded [1, 2] (by decide) 1).2 (by decide)⟩

theorem zero_time_unlimited : (List.replicate 201 (0 : ℤ)).Pairwise (· ≤ ·) ∧
    within 0 (granted allow (List.replicate 201 0).reverse).1 = 201 ∧
    2 * icmp6RatePerSecond < 201 := by
  refine ⟨pairwise_replicate.2 (.inr le_rfl), ?_, by decide⟩
  decide +kernel

end LatticeMesh.Agent.RateLimits
