import Mathlib.Data.List.Basic

/-! # Percent-encoding -/

namespace LatticeMesh

open List

namespace Percent

def percent : UInt8 := 0x25

def space : UInt8 := 0x20

def plus : UInt8 := 0x2B

def upperhex (n : ℕ) : UInt8 := UInt8.ofNat (if n < 10 then 0x30 + n else 0x37 + n)

def unhex? (c : UInt8) : Option ℕ :=
  let n := c.toNat
  if 0x30 ≤ n ∧ n ≤ 0x39 then some (n - 0x30)
  else if 0x61 ≤ n ∧ n ≤ 0x66 then some (n - 0x57)
  else if 0x41 ≤ n ∧ n ≤ 0x46 then some (n - 0x37)
  else none

def unreserved (c : UInt8) : Bool :=
  let n := c.toNat
  (0x61 ≤ n && n ≤ 0x7A) || (0x41 ≤ n && n ≤ 0x5A) || (0x30 ≤ n && n ≤ 0x39) ||
    n == 0x2D || n == 0x5F || n == 0x2E || n == 0x7E

def escapeByte (c : UInt8) : List UInt8 :=
  [percent, upperhex (c.toNat / 16), upperhex (c.toNat % 16)]

def queryEscapeByte (c : UInt8) : List UInt8 :=
  if c = space then [plus] else if unreserved c then [c] else escapeByte c

def queryEscape (s : List UInt8) : List UInt8 := s.flatMap queryEscapeByte

def pathUnescape : List UInt8 → Option (List UInt8)
  | [] => some []
  | c :: rest =>
    if c = percent then
      match rest with
      | hi :: lo :: rest =>
        match unhex? hi, unhex? lo with
        | some h, some l => (pathUnescape rest).map (UInt8.ofNat (16 * h + l) :: ·)
        | _, _ => none
      | _ => none
    else (pathUnescape rest).map (c :: ·)

theorem unhex?_upperhex : ∀ n < 16, unhex? (upperhex n) = some n := by decide

theorem unreserved_upperhex : ∀ n < 16, unreserved (upperhex n) = true := by decide

theorem pathUnescape_cons {c : UInt8} (hc : c ≠ percent) (rest : List UInt8) :
    pathUnescape (c :: rest) = (pathUnescape rest).map (c :: ·) := by
  conv_lhs => unfold pathUnescape
  rw [if_neg hc]

theorem pathUnescape_escapeByte (c : UInt8) (rest : List UInt8) :
    pathUnescape (escapeByte c ++ rest) = (pathUnescape rest).map (c :: ·) := by
  have hc : c.toNat < 256 := c.toNat_lt
  have hhi : unhex? (upperhex (c.toNat / 16)) = some (c.toNat / 16) := unhex?_upperhex _ (by omega)
  have hlo : unhex? (upperhex (c.toNat % 16)) = some (c.toNat % 16) := unhex?_upperhex _ (by omega)
  have hbyte : UInt8.ofNat (16 * (c.toNat / 16) + c.toNat % 16) = c := by
    rw [Nat.div_add_mod, UInt8.ofNat_toNat]
  simp [escapeByte, pathUnescape, hhi, hlo, hbyte]

theorem ne_of_unreserved {c d : UInt8} (hc : unreserved c = true) (hd : unreserved d = false) :
    c ≠ d := by
  rintro rfl
  rw [hc] at hd
  cases hd

def plusForSpace (c : UInt8) : UInt8 := if c = space then plus else c

theorem pathUnescape_queryEscapeByte (c : UInt8) (rest : List UInt8) :
    pathUnescape (queryEscapeByte c ++ rest) =
      (pathUnescape rest).map (plusForSpace c :: ·) := by
  unfold queryEscapeByte plusForSpace
  split
  · exact pathUnescape_cons (by decide) rest
  split
  next hc => exact pathUnescape_cons (ne_of_unreserved hc rfl) rest
  next => exact pathUnescape_escapeByte c rest

theorem pathUnescape_queryEscape (s : List UInt8) :
    pathUnescape (queryEscape s) = some (s.map plusForSpace) := by
  induction s with
  | nil => rfl
  | cons c s ih =>
    rw [queryEscape, flatMap_cons, pathUnescape_queryEscapeByte, ← queryEscape, ih]
    rfl

theorem plusForSpace_eq_iff (c : UInt8) : plusForSpace c = c ↔ c ≠ space := by
  unfold plusForSpace
  split
  next hc => simp [hc, plus, space]
  next hc => simp [hc]

theorem map_plusForSpace_eq_iff (s : List UInt8) : s.map plusForSpace = s ↔ space ∉ s := by
  induction s with
  | nil => simp
  | cons c s ih =>
    rw [map_cons, cons_eq_cons, plusForSpace_eq_iff, ih, mem_cons, not_or, ne_comm]

theorem not_mem_queryEscape {d : UInt8} (hd : unreserved d = false) (hper : d ≠ percent)
    (hplus : d ≠ plus) (s : List UInt8) : d ∉ queryEscape s := by
  intro hmem
  obtain ⟨c, -, hc⟩ := mem_flatMap.1 hmem
  unfold queryEscapeByte at hc
  split at hc
  · exact hplus (mem_singleton.1 hc)
  split at hc
  next hunr =>
    exact ne_of_unreserved hunr hd (mem_singleton.1 hc).symm
  next =>
    have hlt : c.toNat < 256 := c.toNat_lt
    simp only [escapeByte, mem_cons, not_mem_nil, or_false] at hc
    rcases hc with rfl | rfl | rfl
    · exact hper rfl
    · simp [unreserved_upperhex _ (show c.toNat / 16 < 16 by omega)] at hd
    · simp [unreserved_upperhex _ (show c.toNat % 16 < 16 by omega)] at hd

end Percent

end LatticeMesh
