import Mathlib.Data.List.Basic
import Mathlib.Tactic.Ring

/-! # Dyadic blocks -/

namespace LatticeMesh

open List

theorem add_le_of_dvd {d a b : ℕ} (ha : d ∣ a) (hb : d ∣ b) (hlt : a < b) : a + d ≤ b := by
  obtain ⟨k, rfl⟩ := ha
  obtain ⟨m, rfl⟩ := hb
  have hkm : k + 1 ≤ m := Nat.lt_of_mul_lt_mul_left hlt
  calc d * k + d = d * (k + 1) := by ring
    _ ≤ d * m := Nat.mul_le_mul_left d hkm

structure DyadicBlock where
  start : ℕ
  order : ℕ
  aligned : 2 ^ order ∣ start

namespace DyadicBlock

def stop (b : DyadicBlock) : ℕ := b.start + 2 ^ b.order

instance : Membership ℕ DyadicBlock := ⟨fun b x => b.start ≤ x ∧ x < b.stop⟩

variable {b c : DyadicBlock} {x : ℕ}

theorem start_lt_stop (b : DyadicBlock) : b.start < b.stop :=
  Nat.lt_add_of_pos_right (Nat.two_pow_pos b.order)

theorem start_mem (b : DyadicBlock) : b.start ∈ b := ⟨Nat.le_refl _, b.start_lt_stop⟩

theorem nested (hbc : b.order ≤ c.order) (hb : x ∈ b) (hc : x ∈ c) :
    c.start ≤ b.start ∧ b.stop ≤ c.stop := by
  have hdvd : 2 ^ b.order ∣ c.start := (Nat.pow_dvd_pow 2 hbc).trans c.aligned
  have hdvd' : 2 ^ b.order ∣ c.stop := Nat.dvd_add hdvd (Nat.pow_dvd_pow 2 hbc)
  obtain ⟨hle, hlt⟩ := hb
  obtain ⟨hle', hlt'⟩ := hc
  refine ⟨Nat.le_of_not_lt fun h => ?_, Nat.le_of_not_lt fun h => ?_⟩
  · have hstep : b.stop ≤ c.start := add_le_of_dvd b.aligned hdvd h
    omega
  have hstep := add_le_of_dvd hdvd' (Nat.dvd_add b.aligned (Nat.dvd_refl _)) h
  unfold stop at *
  omega

end DyadicBlock

open DyadicBlock

def Covers (l : List DyadicBlock) (lo hi : ℕ) : Prop := ∀ x, (∃ b ∈ l, x ∈ b) ↔ lo ≤ x ∧ x < hi

inductive Greedy (K : ℕ) : ℕ → ℕ → List DyadicBlock → Prop
  | nil {n : ℕ} : Greedy K n n []
  | cons {b : DyadicBlock} {hi : ℕ} {l : List DyadicBlock} (hle : b.stop ≤ hi)
      (hmax : ∀ j ≤ K, 2 ^ j ∣ b.start → b.start + 2 ^ j ≤ hi → j ≤ b.order)
      (h : Greedy K b.stop hi l) : Greedy K b.start hi (b :: l)

namespace Greedy

variable {K lo hi : ℕ} {l m : List DyadicBlock}

theorem stop_le (h : Greedy K lo hi l) {b : DyadicBlock} (hb : b ∈ l) : b.stop ≤ hi := by
  induction h with
  | nil => cases hb
  | cons hle _ _ ih =>
    rcases mem_cons.1 hb with rfl | hb
    · exact hle
    · exact ih hb

theorem covers (h : Greedy K lo hi l) : Covers l lo hi := by
  induction h with
  | nil => simp [Covers]
  | @cons b hi l hle _ _ ih =>
    intro x
    rw [exists_mem_cons_iff, ih x]
    have hlt := b.start_lt_stop
    constructor
    · rintro (⟨hx, hx'⟩ | ⟨hx, hx'⟩) <;> omega
    rintro ⟨hx, hx'⟩
    by_cases hb : x < b.stop
    · exact .inl ⟨hx, hb⟩
    · exact .inr ⟨Nat.le_of_not_lt hb, hx'⟩

theorem ascending (h : Greedy K lo hi l) : l.Pairwise fun b c => b.stop ≤ c.start := by
  induction h with
  | nil => exact .nil
  | cons _ _ h ih => exact .cons (fun c hc => ((h.covers c.start).1 ⟨c, hc, c.start_mem⟩).1) ih

theorem minimal (h : Greedy K lo hi l) (hK : hi ≤ 2 ^ K) (hm : Covers m lo hi) :
    l.length ≤ m.length := by
  induction h generalizing m with
  | nil => exact Nat.zero_le _
  | @cons b hi l hle hmax _ ih =>
    have hbou : ∀ c ∈ m, b.start ≤ c.start ∧ c.stop ≤ hi := by
      intro c hc
      have hlast : c.stop - 1 ∈ c := by
        have hstop := c.start_lt_stop
        exact ⟨by omega, by omega⟩
      have hin := (hm c.start).1 ⟨c, hc, c.start_mem⟩
      have hin' := (hm (c.stop - 1)).1 ⟨c, hc, hlast⟩
      exact ⟨hin.1, by omega⟩
    have hsma : ∀ c ∈ m, c.start = b.start → c.order ≤ b.order := by
      intro c hc heq
      have hsize : 2 ^ c.order ≤ 2 ^ K :=
        Nat.le_trans (Nat.le_add_left ..) (Nat.le_trans (hbou c hc).2 hK)
      exact hmax c.order ((Nat.pow_le_pow_iff_right (by decide)).1 hsize) (heq ▸ c.aligned)
        (heq ▸ (hbou c hc).2)
    have hrest : Covers (m.filter fun c => b.stop ≤ c.start) b.stop hi := by
      intro x
      have hstop := b.start_lt_stop
      constructor
      · rintro ⟨c, hc, hx⟩
        rw [mem_filter, decide_eq_true_eq] at hc
        exact ⟨Nat.le_trans hc.2 hx.1, Nat.lt_of_lt_of_le hx.2 (hbou c hc.1).2⟩
      rintro ⟨hx, hx'⟩
      obtain ⟨c, hc, hxc⟩ := (hm x).2 ⟨by omega, hx'⟩
      refine ⟨c, mem_filter.2 ⟨hc, decide_eq_true ?_⟩, hxc⟩
      by_contra hlt
      have hcb : c.start ∈ b := ⟨(hbou c hc).1, Nat.lt_of_not_le hlt⟩
      rcases Nat.le_total c.order b.order with hord | hord
      · have hin := (nested hord c.start_mem hcb).2
        exact absurd hxc.2 (by omega)
      have heq := Nat.le_antisymm (nested hord hcb c.start_mem).1 (hbou c hc).1
      have hsame := Nat.le_antisymm hord (hsma c hc heq)
      have hxc' := hxc.2
      unfold stop at *
      rw [hsame] at hx
      omega
    obtain ⟨c, hc, hbc⟩ := (hm b.start).2 ⟨Nat.le_refl _, Nat.lt_of_lt_of_le b.start_lt_stop hle⟩
    have hfew : (m.filter fun c => b.stop ≤ c.start).length < m.length := by
      refine length_filter_lt_length_iff_exists.2 ⟨c, hc, ?_⟩
      have hstop := b.start_lt_stop
      have hst := hbc.1
      rw [decide_eq_true_eq]
      omega
    exact Nat.lt_of_le_of_lt (ih hK hrest) hfew

end Greedy

end LatticeMesh
