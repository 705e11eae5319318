import Mathlib
import LatticeMesh.Lib.Dyadic
import LatticeMesh.Netmap.Overlay6

/-! # Ranges of addresses -/

namespace LatticeMesh.Split

open Netmap List

structure Range where
  start : ℕ
  stop : ℕ
  le : start ≤ stop
  lt : stop < 2 ^ 32

instance : Membership ℕ Range := ⟨fun r x => r.start ≤ x ∧ x ≤ r.stop⟩

def uintToIP (v : ℕ) : IPv4 :=
  ⟨Fin.ofNat 256 (v / 2 ^ 24), Fin.ofNat 256 (v / 2 ^ 16), Fin.ofNat 256 (v / 2 ^ 8), Fin.ofNat 256 v⟩

def ipToUint (ip : IPv4) : ℕ := ((ip.a * 256 + ip.b) * 256 + ip.c) * 256 + ip.d

def Sorts (l sorted : List Range) : Prop :=
  sorted.Perm l ∧ sorted.Pairwise fun r s => r.start ≤ s.start

def Range.extend (last r : Range) : Range :=
  if h : last.stop < r.stop then ⟨last.start, r.stop, Nat.le_of_lt (Nat.lt_of_le_of_lt last.le h), r.lt⟩
  else last

def mergeFrom (last : Range) : List Range → List Range
  | [] => [last]
  | r :: rs =>
    if r.start ≤ last.stop + 1 then mergeFrom (last.extend r) rs else last :: mergeFrom r rs

def mergeRanges : List Range → List Range
  | [] => []
  | r :: rs => mergeFrom r rs

def shrink (room : ℕ) : ℕ → ℕ → ℕ
  | 0, size => size
  | fuel + 1, size => if room < size then shrink room fuel (size / 2) else size

def lowBit (start : ℕ) : ℕ := start &&& (2 ^ 64 - start)

def blockSize (start stop : ℕ) : ℕ :=
  shrink (stop - start + 1) 33 (if start ≠ 0 then lowBit start else 2 ^ 32)

def len64 (n : ℕ) : ℕ := if n = 0 then 0 else n.log2 + 1

def printCIDR (start bits : ℕ) : String := (uintToIP start).toString ++ "/" ++ Nat.repr bits

def cidrsFrom (stop : ℕ) : ℕ → ℕ → List String
  | 0, _ => []
  | fuel + 1, start =>
    if start ≤ stop then
      printCIDR (start % 2 ^ 32) (33 - len64 (blockSize start stop)) ::
        cidrsFrom stop fuel ((start + blockSize start stop) % 2 ^ 64)
    else []

def rangeToCIDRs (r : Range) : List String := cidrsFrom r.stop (r.stop - r.start + 1) r.start

variable {last r : Range} {rs : List Range} {x : ℕ}

theorem start_extend : (last.extend r).start = last.start := by
  unfold Range.extend
  split <;> rfl

theorem mem_extend (hle : last.start ≤ r.start) (hnext : r.start ≤ last.stop + 1) :
    x ∈ last.extend r ↔ x ∈ last ∨ x ∈ r := by
  have hlast := last.le
  unfold Range.extend
  split <;> simp only [Membership.mem] <;> omega

theorem sorted_extend (h : (last :: r :: rs).Pairwise fun r s => r.start ≤ s.start) :
    (last.extend r :: rs).Pairwise fun r s => r.start ≤ s.start := by
  rw [pairwise_cons, pairwise_cons] at h
  refine pairwise_cons.2 ⟨fun t ht => ?_, h.2.2⟩
  rw [start_extend]
  exact h.1 t (mem_cons_of_mem _ ht)

theorem le_start_of_mem_mergeFrom (hsort : (last :: rs).Pairwise fun r s => r.start ≤ s.start)
    (hr : r ∈ mergeFrom last rs) : last.start ≤ r.start := by
  induction rs generalizing last with
  | nil =>
    rw [mem_singleton.1 hr]
  | cons s rs ih =>
    unfold mergeFrom at hr
    split at hr
    · rw [← start_extend (r := s)]
      exact ih (sorted_extend hsort) hr
    rw [pairwise_cons] at hsort
    rcases mem_cons.1 hr with rfl | hr
    · exact Nat.le_refl _
    · exact Nat.le_trans (hsort.1 s mem_cons_self) (ih hsort.2 hr)

theorem mergeFrom_spec (hsort : (last :: rs).Pairwise fun r s => r.start ≤ s.start) :
    (mergeFrom last rs).Pairwise (fun r s => r.stop + 1 < s.start) ∧
      ∀ x, (∃ r ∈ mergeFrom last rs, x ∈ r) ↔ ∃ r ∈ last :: rs, x ∈ r := by
  induction rs generalizing last with
  | nil => exact ⟨pairwise_singleton _ _, fun _ => Iff.rfl⟩
  | cons s rs ih =>
    have hs := (pairwise_cons.1 hsort).1 s mem_cons_self
    unfold mergeFrom
    split
    · next hnext =>
      obtain ⟨hgaps, hcov⟩ := ih (sorted_extend hsort)
      refine ⟨hgaps, fun x => (hcov x).trans ?_⟩
      simp only [exists_mem_cons_iff, mem_extend hs hnext, or_assoc]
    next hgap =>
    rw [pairwise_cons] at hsort
    obtain ⟨hgaps, hcov⟩ := ih hsort.2
    refine ⟨.cons (fun t ht => ?_) hgaps, fun x => ?_⟩
    · have ht := le_start_of_mem_mergeFrom hsort.2 ht
      omega
    · rw [exists_mem_cons_iff, hcov x, exists_mem_cons_iff (l := s :: rs)]

theorem mergeRanges_spec {l sorted : List Range} (h : Sorts l sorted) :
    (mergeRanges sorted).Pairwise (fun r s => r.stop + 1 < s.start) ∧
      ∀ x, (∃ r ∈ mergeRanges sorted, x ∈ r) ↔ ∃ r ∈ l, x ∈ r := by
  have hl : ∀ x, (∃ r ∈ sorted, x ∈ r) ↔ ∃ r ∈ l, x ∈ r := fun x =>
    exists_congr fun r => and_congr_left' h.1.mem_iff
  cases sorted with
  | nil => exact ⟨.nil, hl⟩
  | cons r rs =>
    obtain ⟨hgaps, hcov⟩ := mergeFrom_spec h.2
    exact ⟨hgaps, fun x => (hcov x).trans (hl x)⟩

theorem lowBit_eq {k m : ℕ} (h : 2 ^ k * (2 * m + 1) < 2 ^ 64) :
    lowBit (2 ^ k * (2 * m + 1)) = 2 ^ k := by
  have hpos := Nat.two_pow_pos k
  have hx : 2 ^ k * (2 * m + 1) = 2 ^ k * (2 * m) + (2 ^ k - 1) + 1 := by
    rw [Nat.mul_add]
    omega
  apply Nat.eq_of_testBit_eq
  intro i
  unfold lowBit
  rw [Nat.testBit_and, Nat.testBit_two_pow]
  nth_rewrite 2 [hx]
  rw [Nat.testBit_two_pow_sub_succ (by omega), Nat.testBit_two_pow_mul_add _ (by omega),
    Nat.testBit_two_pow_mul]
  rcases Nat.lt_trichotomy i k with hlt | rfl | hgt
  · simp [Nat.not_le.2 hlt, Nat.ne_of_gt hlt]
  · have hi : i < 64 := (Nat.pow_lt_pow_iff_right (by decide)).1
      (Nat.lt_of_le_of_lt (Nat.le_mul_of_pos_right _ (by omega)) h)
    simp [hi]
  obtain ⟨j, rfl⟩ := Nat.exists_eq_add_of_lt hgt
  have hj : k + j + 1 - k = j + 1 := by omega
  have hodd : (2 * m + 1).testBit (j + 1) = m.testBit j := by
    rw [Nat.testBit_succ, show (2 * m + 1) / 2 = m by omega]
  have heven : (2 * m).testBit (j + 1) = m.testBit j := by
    rw [Nat.testBit_succ, show 2 * m / 2 = m by omega]
  cases hm : m.testBit j <;>
    simp [hj, hodd, heven, hm, Nat.not_lt.2 (Nat.le_of_lt hgt), Nat.ne_of_lt hgt]

theorem shrink_spec {room fuel k : ℕ} (hroom : 1 ≤ room) (hk : k ≤ fuel) :
    ∃ j ≤ k, shrink room fuel (2 ^ k) = 2 ^ j ∧ 2 ^ j ≤ room ∧ ∀ i ≤ k, 2 ^ i ≤ room → i ≤ j := by
  induction fuel generalizing k with
  | zero =>
    obtain rfl : k = 0 := by omega
    exact ⟨0, Nat.le_refl _, rfl, hroom, fun i hi _ => hi⟩
  | succ fuel ih =>
    unfold shrink
    split
    · next hlt =>
      cases k with
      | zero => omega
      | succ k =>
        obtain ⟨j, hj, heq, hle, hmax⟩ := ih (k := k) (by omega)
        rw [Nat.pow_succ, Nat.mul_div_cancel _ (by decide)]
        refine ⟨j, by omega, heq, hle, fun i hi hroom => ?_⟩
        rcases Nat.lt_or_eq_of_le hi with hlt' | rfl
        · exact hmax i (by omega) hroom
        · omega
    · next hle => exact ⟨k, Nat.le_refl _, rfl, by omega, fun i hi _ => hi⟩

theorem blockSize_spec {start stop : ℕ} (hle : start ≤ stop) (hlt : stop < 2 ^ 32) :
    ∃ b : DyadicBlock, b.start = start ∧ blockSize start stop = 2 ^ b.order ∧ b.stop ≤ stop + 1 ∧
      ∀ j ≤ 32, 2 ^ j ∣ b.start → b.start + 2 ^ j ≤ stop + 1 → j ≤ b.order := by
  obtain ⟨k, hk, hdvd, hsize, hmax⟩ : ∃ k ≤ 32, 2 ^ k ∣ start ∧
      (if start ≠ 0 then lowBit start else 2 ^ 32) = 2 ^ k ∧ ∀ j ≤ 32, 2 ^ j ∣ start → j ≤ k := by
    by_cases h0 : start = 0
    · exact ⟨32, Nat.le_refl _, h0 ▸ Nat.dvd_zero _, by simp [h0], fun j hj _ => hj⟩
    obtain ⟨k, m, ⟨n, rfl⟩, hst⟩ := Nat.exists_eq_two_pow_mul_odd h0
    have hk : 2 ^ k ≤ start := hst ▸ Nat.le_mul_of_pos_right _ (by omega)
    have hk32 : 2 ^ k < 2 ^ 32 := by omega
    refine ⟨k, Nat.le_of_lt ((Nat.pow_lt_pow_iff_right (by decide)).1 hk32), ⟨_, hst⟩, ?_,
      fun j _ hj => ?_⟩
    · rw [if_pos h0, hst, lowBit_eq (by rw [← hst]; omega)]
    rw [hst] at hj
    have hcop : Nat.Coprime (2 ^ j) (2 * n + 1) :=
      Nat.Coprime.pow_left j ((Nat.coprime_two_left).2 ⟨n, rfl⟩)
    exact (Nat.pow_dvd_pow_iff_le_right (by decide)).1 (hcop.dvd_of_dvd_mul_right hj)
  obtain ⟨j, hj, heq, hroom, hlar⟩ := shrink_spec (show 1 ≤ stop - start + 1 by omega)
    (show k ≤ 33 by omega)
  refine ⟨⟨start, j, (Nat.pow_dvd_pow 2 hj).trans hdvd⟩, rfl, ?_, ?_, fun i hi hd hfit => ?_⟩
  · rw [blockSize, hsize, heq]
  · simp only [DyadicBlock.stop]
    omega
  · exact hlar i (hmax i hi hd) (by simp only at hfit; omega)

def cidr (b : DyadicBlock) : String := printCIDR b.start (32 - b.order)

theorem cidrsFrom_spec {start stop : ℕ} (hle : start ≤ stop + 1) (hlt : stop < 2 ^ 32) :
    ∃ l, Greedy 32 start (stop + 1) l ∧
      ∀ fuel, stop + 1 - start ≤ fuel → cidrsFrom stop fuel start = l.map cidr := by
  induction hn : stop + 1 - start using Nat.strongRecOn generalizing start with
  | ind n ih =>
    by_cases hst : start ≤ stop
    · obtain ⟨b, rfl, hsize, hfit, hmax⟩ := blockSize_spec hst hlt
      have hpos := b.start_lt_stop
      obtain ⟨l, hl, heq⟩ := ih _ (by omega) hfit rfl
      refine ⟨b :: l, .cons hfit hmax hl, fun fuel hfuel => ?_⟩
      have hnext : (b.start + 2 ^ b.order) % 2 ^ 64 = b.stop :=
        Nat.mod_eq_of_lt (show b.stop < 2 ^ 64 by omega)
      have hbits : 33 - len64 (2 ^ b.order) = 32 - b.order := by
        rw [len64, if_neg (Nat.two_pow_pos _).ne', Nat.log2_two_pow]
        omega
      cases fuel with
      | zero => omega
      | succ fuel =>
        rw [cidrsFrom, if_pos hst, hsize, hnext, hbits, Nat.mod_eq_of_lt (by omega),
          heq fuel (by omega)]
        rfl
    obtain rfl : start = stop + 1 := by omega
    refine ⟨[], .nil, fun fuel _ => ?_⟩
    cases fuel <;> simp [cidrsFrom]

theorem covers_iff {l : List DyadicBlock} :
    Covers l r.start (r.stop + 1) ↔ ∀ x, (∃ b ∈ l, x ∈ b) ↔ x ∈ r :=
  forall_congr' fun _ => by rw [Nat.lt_succ_iff]; rfl

theorem cidrsFrom_eq (r : Range) : ∃ blocks : List DyadicBlock,
    (∀ fuel, r.stop - r.start < fuel → cidrsFrom r.stop fuel r.start = blocks.map cidr) ∧
    (∀ b ∈ blocks, b.start < 2 ^ 32 ∧ b.order ≤ 32) ∧
    blocks.Pairwise (fun b c => b.stop ≤ c.start) ∧ (∀ x, (∃ b ∈ blocks, x ∈ b) ↔ x ∈ r) ∧
    ∀ other : List DyadicBlock, (∀ x, (∃ b ∈ other, x ∈ b) ↔ x ∈ r) →
      blocks.length ≤ other.length := by
  have hlt := r.lt
  have hle := r.le
  obtain ⟨blocks, hgre, heq⟩ := cidrsFrom_spec (Nat.le_succ_of_le hle) hlt
  have hstop : ∀ b ∈ blocks, b.stop ≤ 2 ^ 32 := fun b hb => Nat.le_trans (hgre.stop_le hb) hlt
  refine ⟨blocks, fun fuel hfuel => heq fuel (by omega), fun b hb => ⟨?_, ?_⟩, hgre.ascending,
    covers_iff.1 hgre.covers, fun other hoth => hgre.minimal hlt (covers_iff.2 hoth)⟩
  · exact Nat.lt_of_lt_of_le b.start_lt_stop (hstop b hb)
  · exact (Nat.pow_le_pow_iff_right (by decide)).1
      (Nat.le_trans (Nat.le_add_left (2 ^ b.order) b.start) (hstop b hb))

theorem rangeToCIDRs_spec (r : Range) : ∃ blocks : List DyadicBlock,
    rangeToCIDRs r = blocks.map cidr ∧ (∀ b ∈ blocks, b.start < 2 ^ 32 ∧ b.order ≤ 32) ∧
    ∀ x, (∃ b ∈ blocks, x ∈ b) ↔ x ∈ r := by
  obtain ⟨blocks, heq, hbou, -, hcov, -⟩ := cidrsFrom_eq r
  exact ⟨blocks, heq _ (Nat.lt_succ_self _), hbou, hcov⟩

end LatticeMesh.Split
