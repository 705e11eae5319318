import LatticeMesh.Lib.Dyadic
import Mathlib.Data.Nat.Digits.Defs

/-! # Addresses, prefixes and their names -/

namespace LatticeMesh.Ipam

def add32 (a b : ℕ) : ℕ := (a + b) % 2 ^ 32

def sub32 (a b : ℕ) : ℕ := (a + 2 ^ 32 - b) % 2 ^ 32

def shl32 (s : ℕ) : ℕ := if s < 32 then 2 ^ s else 0

variable {a b : ℕ}

theorem add32_of_lt (h : a + b < 2 ^ 32) : add32 a b = a + b := Nat.mod_eq_of_lt h

theorem add32_lt (a b : ℕ) : add32 a b < 2 ^ 32 := Nat.mod_lt _ (by decide)

theorem shl32_of_lt {s : ℕ} (h : s < 32) : shl32 s = 2 ^ s := if_pos h

structure IPv4Net where
  ip : ℕ
  ones : ℕ
  ip_lt : ip < 2 ^ 32
  ones_le : ones ≤ 32
  deriving DecidableEq

namespace IPv4Net

def size (n : IPv4Net) : ℕ := 2 ^ (32 - n.ones)

def mask (n : IPv4Net) (a : ℕ) : ℕ := a / n.size * n.size

def base (n : IPv4Net) : ℕ := n.mask n.ip

def broadcast (n : IPv4Net) : ℕ := n.base + n.size - 1

def Contains (n : IPv4Net) (a : ℕ) : Prop := n.mask a = n.base

instance (n : IPv4Net) (a : ℕ) : Decidable (n.Contains a) :=
  inferInstanceAs (Decidable (n.mask a = n.base))

variable (n : IPv4Net)

theorem size_pos : 0 < n.size := Nat.two_pow_pos _

theorem size_dvd : n.size ∣ 2 ^ 32 := Nat.pow_dvd_pow 2 (Nat.sub_le 32 n.ones)

theorem size_dvd_base : n.size ∣ n.base := Nat.dvd_mul_left ..

theorem base_lt : n.base < 2 ^ 32 := Nat.lt_of_le_of_lt (Nat.div_mul_le_self ..) n.ip_lt

theorem base_add_size_le : n.base + n.size ≤ 2 ^ 32 :=
  add_le_of_dvd n.size_dvd_base n.size_dvd n.base_lt

theorem contains_iff : n.Contains a ↔ n.base ≤ a ∧ a < n.base + n.size := by
  have hpos := n.size_pos
  have ha : n.mask a ≤ a ∧ a < n.mask a + n.size := by
    refine ⟨Nat.div_mul_le_self .., ?_⟩
    unfold mask
    calc a < (a / n.size + 1) * n.size := Nat.lt_mul_of_div_lt (Nat.lt_succ_self _) hpos
      _ = a / n.size * n.size + n.size := by ring
  constructor
  · intro h
    rwa [show n.mask a = n.base from h] at ha
  rintro ⟨hle, hlt⟩
  have hdvd : n.size ∣ n.mask a := Nat.dvd_mul_left ..
  refine Nat.le_antisymm (Nat.le_of_not_lt fun hgt => ?_) (Nat.le_of_not_lt fun hgt => ?_)
  · have hstep := add_le_of_dvd n.size_dvd_base hdvd hgt
    omega
  · have hstep := add_le_of_dvd hdvd n.size_dvd_base hgt
    omega

theorem contains_base : n.Contains n.base :=
  n.contains_iff.2 ⟨Nat.le_refl _, Nat.lt_add_of_pos_right n.size_pos⟩

end IPv4Net

inductive CIDR where
  | invalid (err : String)
  | v4 (net : IPv4Net)
  | v6 (ones : ℕ)
  deriving DecidableEq

def lowerHex : ℕ → ℕ → List Char
  | 0, _ => []
  | k + 1, n => lowerHex k (n / 16) ++ [Nat.digitChar (n % 16)]

theorem length_lowerHex (k n : ℕ) : (lowerHex k n).length = k := by
  induction k generalizing n with
  | zero => rfl
  | succ k ih => rw [lowerHex, List.length_append, ih, List.length_singleton]

theorem digitChar_inj (ha : a < 16) (hb : b < 16) (h : Nat.digitChar a = Nat.digitChar b) :
    a = b := by
  have hall : ∀ a < 16, ∀ b < 16, Nat.digitChar a = Nat.digitChar b → a = b := by decide
  exact hall a ha b hb h

theorem lowerHex_inj {k : ℕ} (ha : a < 16 ^ k) (hb : b < 16 ^ k) (h : lowerHex k a = lowerHex k b) :
    a = b := by
  induction k generalizing a b with
  | zero => omega
  | succ k ih =>
    rw [lowerHex, lowerHex] at h
    obtain ⟨hinit, hlast⟩ := List.append_inj h (by rw [length_lowerHex, length_lowerHex])
    rw [pow_succ] at ha hb
    have hdiv := ih (Nat.div_lt_of_lt_mul (by omega)) (Nat.div_lt_of_lt_mul (by omega)) hinit
    have hmod := digitChar_inj (Nat.mod_lt a (by decide)) (Nat.mod_lt b (by decide))
      (List.cons.inj hlast).1
    omega

def ipToHex (a : ℕ) : String := String.ofList (lowerHex 8 a)

theorem ipToHex_inj (ha : a < 2 ^ 32) (hb : b < 2 ^ 32) (h : ipToHex a = ipToHex b) :
    a = b := by
  refine lowerHex_inj (k := 8) (by omega) (by omega) ?_
  have hlis := congrArg String.toList h
  rwa [ipToHex, ipToHex, String.toList_ofList, String.toList_ofList] at hlis

def tenNet : IPv4Net := ⟨0x0a000000, 24, by decide, by decide⟩

def tenOneNet : IPv4Net := ⟨0x0a000100, 24, by decide, by decide⟩

def tenWideNet : IPv4Net := ⟨0x0a000000, 8, by decide, by decide⟩

end LatticeMesh.Ipam
