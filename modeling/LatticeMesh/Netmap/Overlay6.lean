import Mathlib.Data.List.FinRange
import LatticeMesh.Lib.Text

/-! # Overlay addresses -/

namespace LatticeMesh.Netmap

open Text List

structure IPv4 where
  a : Fin 256
  b : Fin 256
  c : Fin 256
  d : Fin 256
  deriving DecidableEq

def parseOctet (s : String) : Option (Fin 256) :=
  (List.finRange 256).find? fun n => Nat.repr n = s

def parseIPv4 (s : String) : Option IPv4 :=
  match split '.' s with
  | [a, b, c, d] => do
    return ⟨← parseOctet a, ← parseOctet b, ← parseOctet c, ← parseOctet d⟩
  | _ => none

def IPv4.toString (ip : IPv4) : String :=
  join '.' [Nat.repr ip.a, Nat.repr ip.b, Nat.repr ip.c, Nat.repr ip.d]

def hex (n : ℕ) : String := String.ofList (Nat.toDigits 16 n)

def derive (ip : IPv4) : String :=
  let hi := ip.a.val * 256 + ip.b.val
  let lo := ip.c.val * 256 + ip.d.val
  if hi ≠ 0 then "fd6c:7270:6c74::" ++ hex hi ++ ":" ++ hex lo
  else if lo ≠ 0 then "fd6c:7270:6c74::" ++ hex lo
  else "fd6c:7270:6c74::"

def hostAllowedIPs (v4 : String) (dual : Bool) : String :=
  match parseIPv4 (trimSpace v4) with
  | none => ""
  | some ip =>
    let out := ip.toString ++ "/32"
    if dual then out ++ "," ++ derive ip ++ "/128" else out

variable {s : String}

theorem repr_of_parseOctet {n : Fin 256} (h : parseOctet s = some n) :
    Nat.repr n = s := by
  simpa using find?_some h

theorem join_split (sep : Char) (s : String) : join sep (split sep s) = s := by
  unfold join split
  rw [List.map_map, String.toList_comp_ofList, List.map_id, intercalate_splitOn,
    String.ofList_toList]

theorem toString_of_parseIPv4 {ip : IPv4} (h : parseIPv4 s = some ip) :
    ip.toString = s := by
  unfold parseIPv4 at h
  split at h
  · next a b c d hspl =>
    simp only [Option.pure_def, Option.bind_eq_bind, Option.bind_eq_some_iff] at h
    obtain ⟨oa, ha, ob, hb, oc, hc, od, hd, hip⟩ := h
    cases hip
    unfold IPv4.toString
    rw [repr_of_parseOctet ha, repr_of_parseOctet hb, repr_of_parseOctet hc, repr_of_parseOctet hd,
      ← hspl, join_split]
  · cases h

theorem not_isSpace_of_isDigit {c : Char} (h : c.isDigit = true) : isSpace c = false := by
  have hbou : 48 ≤ c.toNat ∧ c.toNat ≤ 57 := by
    simpa [Char.isDigit, UInt32.le_iff_toNat_le] using h
  simp only [isSpace, Bool.or_eq_false_iff, Bool.and_eq_false_iff, decide_eq_false_iff_not,
    beq_eq_false_iff_ne]
  omega

theorem isDigit_of_mem_repr {n : ℕ} {ch : Char} (hch : ch ∈ (Nat.repr n).toList) :
    ch.isDigit = true := by
  rw [Nat.repr, String.toList_ofList] at hch
  exact Nat.isDigit_of_mem_toDigits (by decide) (by decide) hch

theorem trimSpace_toString (ip : IPv4) : trimSpace ip.toString = ip.toString := by
  have hcha : ∀ ch ∈ ip.toString.toList, isSpace ch = false := by
    intro ch hch
    simp only [IPv4.toString, join, map_cons, map_nil, String.toList_ofList,
      intercalate_cons_cons, intercalate_singleton, mem_append,
      mem_singleton, or_assoc] at hch
    rcases hch with h | rfl | h | rfl | h | rfl | h
    all_goals first
      | rfl
      | exact not_isSpace_of_isDigit (isDigit_of_mem_repr h)
  unfold trimSpace
  rw [trim_eq_self hcha, String.ofList_toList]

theorem hostAllowedIPs_of_parseIPv4 {ip : IPv4} (h : parseIPv4 s = some ip) (dual : Bool) :
    hostAllowedIPs s dual =
      join ',' ((s ++ "/32") :: if dual then [derive ip ++ "/128"] else []) := by
  have hs := toString_of_parseIPv4 h
  have htrim : trimSpace s = s := hs ▸ trimSpace_toString ip
  unfold hostAllowedIPs
  rw [htrim, h, ← hs]
  cases dual with
  | false => simp [join]
  | true => simp [join, intercalate_cons_cons, ← String.toList_inj]

example : hostAllowedIPs "10.96.0.4" true = "10.96.0.4/32,fd6c:7270:6c74::a60:4/128" := by
  decide +kernel

end LatticeMesh.Netmap
