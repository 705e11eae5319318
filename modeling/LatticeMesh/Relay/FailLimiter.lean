import Mathlib
import LatticeMesh.Lib.GoMap

/-! # The limiter of relay failure warnings -/

namespace LatticeMesh.Relay.FailLimiter

open List

abbrev Last := GoMap UInt32 ℤ

def relayFailLogEvery : ℤ := 30 * 10 ^ 9

def relayFailLogMax : ℕ := 1024

def forget (now : ℤ) (last : Last) : Last :=
  last.toList.foldl (fun m e => if relayFailLogEvery ≤ now - e.2 then m.delete e.1 else m) last

def allow (last : Last) (dst : UInt32) (now : ℤ) : Bool × Last :=
  if (last.get dst).any (fun t => now - t < relayFailLogEvery) then (false, last)
  else
    let last := if relayFailLogMax ≤ last.toList.length then forget now last else last
    (true, last.set dst now)

def allowAll (last : UInt32 → Option ℤ) (dst : UInt32) (now : ℤ) :
    Bool × (UInt32 → Option ℤ) :=
  if (last dst).any (fun t => now - t < relayFailLogEvery) then (false, last)
  else (true, Function.update last dst (some now))

def answers {σ : Type} (allow : σ → UInt32 → ℤ → Bool × σ) (s : σ) :
    List (UInt32 × ℤ) → List Bool
  | [] => []
  | (dst, now) :: calls => (allow s dst now).1 :: answers allow (allow s dst now).2 calls

def Keeps (now : ℤ) (last : Last) (all : UInt32 → Option ℤ) : Prop :=
  ∀ dst, last.get dst = all dst ∨
    last.get dst = none ∧ ∃ t, all dst = some t ∧ relayFailLogEvery ≤ now - t

variable {now : ℤ} {last : Last} {all : UInt32 → Option ℤ}

theorem Keeps.later {now' : ℤ} (h : Keeps now last all) (hle : now ≤ now') :
    Keeps now' last all := by
  intro dst
  obtain heq | ⟨hnone, t, hat, hold⟩ := h dst
  · exact .inl heq
  · exact .inr ⟨hnone, t, hat, by omega⟩

theorem get_foldl_delete (l : List (UInt32 × ℤ)) (m : Last) (dst : UInt32) :
    (l.foldl (fun m e => if relayFailLogEvery ≤ now - e.2 then m.delete e.1 else m) m).get dst =
      if ∃ e ∈ l, e.1 = dst ∧ relayFailLogEvery ≤ now - e.2 then none else m.get dst := by
  induction l generalizing m with
  | nil => simp
  | cons e l ih =>
    rw [foldl_cons, ih]
    by_cases he : relayFailLogEvery ≤ now - e.2
    · by_cases hdst : e.1 = dst
      · simp [he, hdst, GoMap.get_delete]
      · simp only [exists_mem_cons_iff, he, hdst, if_true, false_and, false_or,
          GoMap.get_delete, Ne.symm hdst, if_false]
    · simp only [exists_mem_cons_iff, he, and_false, false_or, if_false]

theorem Keeps.forget (h : Keeps now last all) : Keeps now (forget now last) all := by
  intro dst
  unfold FailLimiter.forget
  rw [get_foldl_delete]
  split
  · next hold =>
    obtain ⟨⟨_, t⟩, hmem, rfl, hat⟩ := hold
    have hget := GoMap.mem_toList.1 hmem
    obtain heq | ⟨hnone, -⟩ := h _
    · exact .inr ⟨rfl, t, heq ▸ hget, hat⟩
    · cases hget.symm.trans hnone
  · exact h dst

theorem Keeps.set (h : Keeps now last all) (dst : UInt32) :
    Keeps now (last.set dst now) (Function.update all dst (some now)) := by
  intro dst'
  rw [GoMap.get_set, Function.update_apply]
  split
  · exact .inl rfl
  · exact h dst'

theorem Keeps.allow (h : Keeps now last all) (dst : UInt32) :
    (allow last dst now).1 = (allowAll all dst now).1 ∧
      Keeps now (allow last dst now).2 (allowAll all dst now).2 := by
  have hany : (last.get dst).any (fun t => now - t < relayFailLogEvery) =
      (all dst).any (fun t => now - t < relayFailLogEvery) := by
    obtain heq | ⟨hnone, t, hat, hold⟩ := h dst
    · rw [heq]
    · simp [hnone, hat, hold]
  unfold FailLimiter.allow allowAll
  rw [hany]
  split
  · exact ⟨rfl, h⟩
  refine ⟨rfl, Keeps.set ?_ dst⟩
  split
  · exact h.forget
  · exact h

theorem Keeps.answers {calls : List (UInt32 × ℤ)} (h : Keeps now last all)
    (hlater : ∀ c ∈ calls, now ≤ c.2) (hsorted : calls.Pairwise fun c d => c.2 ≤ d.2) :
    FailLimiter.answers FailLimiter.allow last calls =
      FailLimiter.answers allowAll all calls := by
  induction calls generalizing now last all with
  | nil => rfl
  | cons call calls ih =>
    obtain ⟨hfirst, hrest⟩ := pairwise_cons.1 hsorted
    have hstep := (h.later (hlater call mem_cons_self)).allow call.1
    unfold FailLimiter.answers
    rw [hstep.1, ih hstep.2 hfirst hrest]

/-- **Forgetting is not seen.** -/
theorem forgetting_unobservable (calls : List (UInt32 × ℤ))
    (hsorted : calls.Pairwise fun c d => c.2 ≤ d.2) :
    answers allow .empty calls = answers allowAll (fun _ => none) calls := by
  cases calls with
  | nil => rfl
  | cons call calls =>
    have hempty : Keeps call.2 .empty fun _ => none := fun _ => .inl rfl
    refine hempty.answers (fun c hc => ?_) hsorted
    obtain rfl | hc := mem_cons.1 hc
    · exact Int.le_refl _
    · exact (pairwise_cons.1 hsorted).1 c hc

theorem second_failure_held_back : answers allow .empty [(7, 0), (7, 10 ^ 9)] = [true, false] ∧
    answers allow .empty [(7, 0), (7, 10 ^ 9)] =
      answers allowAll (fun _ => none) [(7, 0), (7, 10 ^ 9)] :=
  ⟨by decide, forgetting_unobservable _ (by decide)⟩

end LatticeMesh.Relay.FailLimiter
