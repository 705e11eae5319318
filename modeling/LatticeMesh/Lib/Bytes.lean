import Mathlib.Tactic

/-! # Byte buffers and fixed-width integers -/

namespace LatticeMesh

open List

namespace Bytes

def leBytes : Nat → Nat → List UInt8
  | 0, _ => []
  | n + 1, x => UInt8.ofNat x :: leBytes n (x / 256)

def leNat : List UInt8 → Nat
  | [] => 0
  | b :: bs => b.toNat + 256 * leNat bs

def beNat (bs : List UInt8) : Nat := leNat bs.reverse

@[simp] theorem length_leBytes (n x : Nat) : (leBytes n x).length = n := by
  induction n generalizing x with
  | zero => rfl
  | succ n ih => simp [leBytes, ih]

theorem leNat_leBytes (n x : Nat) : leNat (leBytes n x) = x % 256 ^ n := by
  induction n generalizing x with
  | zero => simp [leBytes, leNat, Nat.mod_one]
  | succ n ih =>
    have hb : (UInt8.ofNat x).toNat = x % 256 := UInt8.toNat_ofNat'
    rw [leBytes, leNat, ih, hb, pow_succ', Nat.mod_mul]

theorem leNat_leBytes_of_lt {n x : Nat} (h : x < 256 ^ n) : leNat (leBytes n x) = x := by
  rw [leNat_leBytes, Nat.mod_eq_of_lt h]

theorem leBytes_leNat (bs : List UInt8) : leBytes bs.length (leNat bs) = bs := by
  induction bs with
  | nil => rfl
  | cons b bs ih =>
    have hb : b.toNat < 256 := b.toNat_lt
    have hmod : (b.toNat + 256 * leNat bs) % 256 = b.toNat := by omega
    have hdiv : (b.toNat + 256 * leNat bs) / 256 = leNat bs := by omega
    simp only [length_cons, leBytes, leNat, hdiv, ih, List.cons.injEq, and_true]
    apply UInt8.toNat_inj.1
    exact UInt8.toNat_ofNat'.trans hmod

theorem leNat_lt (bs : List UInt8) : leNat bs < 256 ^ bs.length := by
  induction bs with
  | nil => simp [leNat]
  | cons b bs ih =>
    have hb : b.toNat < 256 := b.toNat_lt
    simp only [leNat, length_cons, pow_succ']
    omega

def slice (b : List UInt8) (i j : Nat) : List UInt8 := (b.take j).drop i

def putAt (b : List UInt8) (i : Nat) (w : List UInt8) : List UInt8 :=
  b.take i ++ w ++ b.drop (i + w.length)

variable {b w : List UInt8}

theorem length_putAt {i : Nat} (h : i + w.length ≤ b.length) :
    (putAt b i w).length = b.length := by
  simp only [putAt, length_append, length_take, length_drop]
  omega

theorem getElem?_putAt {i : Nat} (h : i + w.length ≤ b.length) {j : Nat}
    (hj : j < i ∨ i + w.length ≤ j) : (putAt b i w)[j]? = b[j]? := by
  have hi : i ≤ b.length := by omega
  have hlen : (b.take i).length = i := by simp [hi]
  unfold putAt
  rcases hj with hj | hj
  · rw [append_assoc, getElem?_append_left (by omega), getElem?_take_of_lt hj]
  have hlen' : (b.take i ++ w).length = i + w.length := by
    rw [length_append, hlen]
  rw [getElem?_append_right (by omega), hlen', getElem?_drop]
  congr 1
  omega

theorem putAt_append {c : List UInt8} {i : Nat} (h : i + w.length ≤ b.length) :
    putAt (b ++ c) i w = putAt b i w ++ c := by
  unfold putAt
  rw [take_append_of_le_length (by omega), drop_append_of_le_length h]
  simp only [append_assoc]

def readFull (n : Nat) (input : List UInt8) : Option (List UInt8 × List UInt8) :=
  if n ≤ input.length then some (input.take n, input.drop n) else none

theorem readFull_append (a b : List UInt8) : readFull a.length (a ++ b) = some (a, b) := by
  unfold readFull
  rw [if_pos (by simp)]
  simp

theorem readFull_of_lt {n : Nat} {input : List UInt8} (h : input.length < n) :
    readFull n input = none := by
  unfold readFull
  rw [if_neg (by omega)]

end Bytes

end LatticeMesh
