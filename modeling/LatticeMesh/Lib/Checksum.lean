import Mathlib
import LatticeMesh.Lib.Bytes

/-! # Ones' complement checksums -/

namespace LatticeMesh.Bytes

open List

def wordSum : List UInt8 → ℕ
  | [] => 0
  | [a] => a.toNat * 256
  | a :: b :: rest => a.toNat * 256 + b.toNat + wordSum rest

def fold (sum : ℕ) : ℕ :=
  if sum / 65536 = 0 then sum else fold (sum / 65536 + sum % 65536)
termination_by sum
decreasing_by omega

def be16 (x : ℕ) : List UInt8 := [UInt8.ofNat (x / 256), UInt8.ofNat x]

theorem wordSum_be16 {x : ℕ} (h : x < 65536) : wordSum (be16 x) = x := by
  simp only [be16, wordSum, UInt8.toNat_ofNat']
  omega

theorem beNat_be16 (x : ℕ) : beNat (be16 x) = x % 65536 := by
  simp only [be16, beNat, reverse_cons, reverse_nil, nil_append, cons_append,
    leNat, UInt8.toNat_ofNat']
  omega

theorem wordSum_append {a : List UInt8} (b : List UInt8) (h : Even a.length) :
    wordSum (a ++ b) = wordSum a + wordSum b := by
  induction a using wordSum.induct with
  | case1 => simp [wordSum]
  | case2 x => exact absurd h Nat.not_even_one
  | case3 x y rest ih =>
    have hrest : Even rest.length := by simpa [Nat.even_add_one] using h
    simp only [cons_append, wordSum, ih hrest]
    omega

theorem wordSum_le (b : List UInt8) : 2 * wordSum b ≤ 65535 * (b.length + 1) := by
  induction b using wordSum.induct with
  | case1 => simp [wordSum]
  | case2 x =>
    have hx := x.toNat_lt
    simp only [wordSum, length_singleton]
    omega
  | case3 x y rest ih =>
    have hx := x.toNat_lt
    have hy := y.toNat_lt
    simp only [wordSum, length_cons]
    omega

theorem fold_spec (sum : ℕ) :
    fold sum % 65535 = sum % 65535 ∧ fold sum < 65536 ∧ (sum ≠ 0 → fold sum ≠ 0) := by
  induction sum using fold.induct with
  | case1 sum h =>
    rw [fold, if_pos h]
    omega
  | case2 sum h ih =>
    rw [fold, if_neg h]
    omega

theorem fold_add_complement {sum : ℕ} (h : 0 < sum) :
    fold (sum + (65535 - fold sum)) = 65535 := by
  obtain ⟨hmod, hlt, hne⟩ := fold_spec sum
  obtain ⟨hmod', hlt', hne'⟩ := fold_spec (sum + (65535 - fold sum))
  omega

end LatticeMesh.Bytes
