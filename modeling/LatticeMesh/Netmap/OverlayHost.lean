import Mathlib
import LatticeMesh.Netmap.Overlay6

/-! # A node's own overlay address -/

namespace LatticeMesh.Netmap

open Text List

inductive Addr where
  | v4 (ip : IPv4)
  | v6 (n : BitVec 128)
  deriving DecidableEq

structure Prefix where
  addr : Addr
  bits : ℕ
  deriving DecidableEq

def IPv4.toNat (ip : IPv4) : ℕ := ((ip.a * 256 + ip.b) * 256 + ip.c) * 256 + ip.d

def fromV4 (p : Prefix) (v4 : Addr) : Except String Addr :=
  match p.addr, v4 with
  | .v4 _, _ => .error "overlay6: prefix must be an IPv6 prefix of at most /96"
  | .v6 n, v4 =>
    if n.toNat / 2 ^ 32 = 0xffff ∨ 96 < p.bits then
      .error "overlay6: prefix must be an IPv6 prefix of at most /96"
    else
      let masked := n.toNat / 2 ^ (128 - p.bits) * 2 ^ (128 - p.bits)
      match v4 with
      | .v6 _ => .error "overlay6: not an IPv4 address"
      | .v4 ip => .ok (.v6 (.ofNat 128 (masked / 2 ^ 32 * 2 ^ 32 + ip.toNat)))

def overlayBase : ℕ := 0xfd6c72706c74 * 2 ^ 80

def defaultPrefix : Prefix := ⟨.v6 (.ofNat 128 overlayBase), 64⟩

def gatewayAddr : Addr := .v6 (.ofNat 128 (overlayBase + 1))

def overlayContains : Addr → Bool
  | .v4 _ => false
  | .v6 n => n.toNat / 2 ^ 64 = overlayBase / 2 ^ 64

def hostFromAllowedIPs (parsePrefix : String → Option Prefix) (allowed : String) : Option Addr :=
  (split ',' allowed).findSome? fun part =>
    (parsePrefix (trimSpace part)).bind fun p =>
      if p.bits = 128 ∧ overlayContains p.addr then some p.addr else none

variable {ip ip' : IPv4}

theorem IPv4.toNat_lt (ip : IPv4) : ip.toNat < 2 ^ 32 := by
  unfold IPv4.toNat
  omega

theorem IPv4.toNat_inj (h : ip.toNat = ip'.toNat) : ip = ip' := by
  obtain ⟨a, b, c, d⟩ := ip
  obtain ⟨a', b', c', d'⟩ := ip'
  simp only [IPv4.toNat] at h
  simp only [IPv4.mk.injEq, Fin.ext_iff]
  omega

theorem fromV4_default (ip : IPv4) :
    fromV4 defaultPrefix (.v4 ip) = .ok (.v6 (.ofNat 128 (overlayBase + ip.toNat))) := rfl

theorem fromV4_inj {p : Prefix} {a : Addr} (h : fromV4 p (.v4 ip) = .ok a)
    (h' : fromV4 p (.v4 ip') = .ok a) : ip = ip' := by
  have heq := h.trans h'.symm
  obtain ⟨addr, bits⟩ := p
  cases addr with
  | v4 => cases h
  | v6 n =>
    by_cases hok : n.toNat / 2 ^ 32 = 0xffff ∨ 96 < bits
    · simp only [fromV4, hok, if_true] at h
      cases h
    simp only [fromV4, hok, if_false, Except.ok.injEq, Addr.v6.injEq] at heq
    have hlow := congrArg (fun x => x.toNat % 2 ^ 32) heq
    have := ip.toNat_lt
    have := ip'.toNat_lt
    simp only [BitVec.toNat_ofNat] at hlow
    exact IPv4.toNat_inj (by omega)

theorem mem_toDigits {n : ℕ} {c : Char} (h : c ∈ Nat.toDigits 16 n) :
    ∃ d < 16, c = Nat.digitChar d := by
  induction n using Nat.strong_induction_on with
  | _ n ih =>
    rw [Nat.toDigits_eq_if (by decide)] at h
    split at h
    · next hlt => exact ⟨n, hlt, mem_singleton.1 h⟩
    obtain h | h := mem_append.1 h
    · exact ih _ (by omega) h
    · exact ⟨n % 16, by omega, mem_singleton.1 h⟩

def unbroken (s : String) : Bool := s.toList.all fun c => c != ',' && !isSpace c

theorem unbroken_append (s t : String) : unbroken (s ++ t) = (unbroken s && unbroken t) := by
  simp [unbroken, String.toList_append]

theorem unbroken_hex (n : ℕ) : unbroken (hex n) = true := by
  refine List.all_eq_true.2 fun c hc => ?_
  rw [hex, String.toList_ofList] at hc
  obtain ⟨d, hd, rfl⟩ := mem_toDigits hc
  clear hc
  revert d
  decide

theorem unbroken_repr (n : ℕ) : unbroken (Nat.repr n) = true := by
  refine List.all_eq_true.2 fun c hc => ?_
  have hdigit := isDigit_of_mem_repr hc
  have hne : c ≠ ',' := by
    rintro rfl
    exact absurd hdigit (by decide)
  simp [hne, not_isSpace_of_isDigit hdigit]

theorem unbroken_derive (ip : IPv4) : unbroken (derive ip) = true := by
  have hbase : unbroken "fd6c:7270:6c74::" = true := by decide +kernel
  have hcolon : unbroken ":" = true := by decide +kernel
  unfold derive
  dsimp only
  split
  · simp [unbroken_append, unbroken_hex, hbase, hcolon]
  · split <;> simp [unbroken_append, unbroken_hex, hbase]

theorem unbroken_toString (ip : IPv4) : unbroken ip.toString = true := by
  have hrepr := unbroken_repr
  unfold unbroken at hrepr
  simp only [unbroken, IPv4.toString, join, map_cons, map_nil, String.toList_ofList,
    intercalate_cons_cons, intercalate_singleton, all_append, hrepr]
  decide

theorem splitOn_of_unbroken {s : String} (h : unbroken s = true) : split ',' s = [s] := by
  have hmem : ',' ∉ s.toList := fun hc => by simpa using List.all_eq_true.1 h _ hc
  unfold split
  rw [splitOn_eq_singleton hmem, map_singleton, String.ofList_toList]

theorem trimSpace_of_unbroken {s : String} (h : unbroken s = true) : trimSpace s = s := by
  have hspace (c : Char) (hc : c ∈ s.toList) : isSpace c = false := by
    simpa using (Bool.and_eq_true_iff.1 (List.all_eq_true.1 h c hc)).2
  unfold trimSpace
  rw [trim_eq_self hspace, String.ofList_toList]

theorem split_append (s t : String) : split ',' (s ++ "," ++ t) = split ',' s ++ split ',' t := by
  unfold split
  have : (s ++ "," ++ t).toList = s.toList ++ ',' :: t.toList := by simp [String.toList_append]
  rw [this, splitOn_append_cons_self, map_append]

theorem split_join_cons (s : String) (l : List String) :
    ∃ rest, split ',' (join ',' (s :: l)) = split ',' s ++ rest := by
  cases l with
  | nil => exact ⟨[], by simp [join]⟩
  | cons t l =>
    refine ⟨split ',' (join ',' (t :: l)), ?_⟩
    rw [← split_append]
    congr 1
    simp [join, intercalate_cons_cons, ← String.toList_inj]

theorem hostFromAllowedIPs_extended {parsePrefix : String → Option Prefix} {v4 : String}
    (hv4 : parseIPv4 (trimSpace v4) = some ip)
    (h4 : parsePrefix (ip.toString ++ "/32") = some ⟨.v4 ip, 32⟩) {a : Addr}
    (ha : overlayContains a) (h6 : parsePrefix (derive ip ++ "/128") = some ⟨a, 128⟩)
    (routes : List String) :
    hostFromAllowedIPs parsePrefix (join ',' (hostAllowedIPs v4 true :: routes)) = some a := by
  have hplain4 : unbroken (ip.toString ++ "/32") = true := by
    rw [unbroken_append, unbroken_toString]
    decide
  have hplain6 : unbroken (derive ip ++ "/128") = true := by
    rw [unbroken_append, unbroken_derive]
    decide
  have hsplit : split ',' (hostAllowedIPs v4 true) = [ip.toString ++ "/32", derive ip ++ "/128"] := by
    simp only [hostAllowedIPs, hv4, if_true]
    rw [String.append_assoc, split_append, splitOn_of_unbroken hplain4, splitOn_of_unbroken hplain6]
    rfl
  obtain ⟨rest, hrest⟩ := split_join_cons (hostAllowedIPs v4 true) routes
  unfold hostFromAllowedIPs
  rw [hrest, hsplit]
  simp [trimSpace_of_unbroken hplain4, trimSpace_of_unbroken hplain6, h4, h6, ha]

def readPrefix (s : String) : Option Prefix :=
  (parseIPv4 "10.96.0.4").map fun ip =>
    if s = "10.96.0.4/32" then ⟨.v4 ip, 32⟩
    else ⟨.v6 (.ofNat 128 (overlayBase + ip.toNat)), 128⟩

end LatticeMesh.Netmap
