import LatticeMesh.Split.CNSet

/-! # From the delegation file to the set -/

namespace LatticeMesh.Split

open Netmap Text List

def scan (text : String) : List String × Bool :=
  ((split '\n' text).takeWhile fun line => line.utf8ByteSize < 2 ^ 20,
    (split '\n' text).any fun line => 2 ^ 20 ≤ line.utf8ByteSize)

section

variable (parseIP : String → Option IPv4)

def recordRange (cc line : String) : Option Range :=
  match split '|' line with
  | _ :: country :: kind :: addr :: value :: _ :: status :: _ =>
    if country ≠ cc ∨ kind ≠ "ipv4" ∨ (status ≠ "allocated" ∧ status ≠ "assigned") then none
    else
      match parseIP addr, decimal value with
      | some ip, some count =>
        if h : count < 2 ^ 32 ∧ count ≠ 0 ∧ ipToUint ip + count - 1 < 2 ^ 32 then
          some ⟨ipToUint ip, ipToUint ip + count - 1, by omega, h.2.2⟩
        else none
      | _, _ => none
  | _ => none

def parseAPNIC (text cc : String) : List Range × Bool :=
  ((scan text).1.filterMap fun line =>
    if isBlank (trimSpace line) then none else recordRange parseIP cc (trimSpace line), (scan text).2)

def Recorded (text cc : String) (x : ℕ) : Prop :=
  ∃ line ∈ split '\n' text, ∃ registry addr value date status rest ip count,
    split '|' (trimSpace line) = registry :: cc :: "ipv4" :: addr :: value :: date :: status :: rest ∧
    (status = "allocated" ∨ status = "assigned") ∧
    parseIP addr = some ip ∧ decimal value = some count ∧ ipToUint ip ≤ x ∧ x < ipToUint ip + count

end

variable {parseIP : String → Option IPv4} {text : String} {x : ℕ}

theorem recorded_of_mem {cc : String} {r : Range} (hr : r ∈ (parseAPNIC parseIP text cc).1)
    (hx : x ∈ r) : Recorded parseIP text cc x := by
  obtain ⟨line, hline, hran⟩ := mem_filterMap.1 hr
  refine ⟨line, (List.takeWhile_prefix _).subset hline, ?_⟩
  split at hran
  · cases hran
  unfold recordRange at hran
  split at hran
  · next registry country kind addr value date status rest hfie =>
    split at hran
    · cases hran
    next hkind =>
    simp only [ne_eq, not_or, not_and_or, not_not] at hkind
    obtain ⟨rfl, rfl, hst⟩ := hkind
    split at hran
    · next ip count haddr hval =>
      split at hran
      · obtain rfl := Option.some.inj hran
        obtain ⟨hx, hx'⟩ := hx
        dsimp only at hx hx'
        exact ⟨registry, addr, value, date, status, rest, ip, count, hfie, hst, haddr,
          hval, hx, by omega⟩
      · cases hran
    · cases hran
  · cases hran

theorem decimal_repr (n : ℕ) : decimal (Nat.repr n) = some n := by
  have hne : (Nat.repr n).toList ≠ [] := by
    rw [Nat.repr, String.toList_ofList]
    exact Nat.toDigits_ne_nil
  have hdig : (Nat.repr n).toList.all Char.isDigit = true :=
    List.all_eq_true.2 fun ch => isDigit_of_mem_repr
  rw [decimal, if_pos ⟨hne, hdig⟩, Nat.repr, String.toList_ofList,
    Nat.ofDigitChars_toDigits (by decide) (by decide)]

theorem parseOctet_repr (n : Fin 256) : parseOctet (Nat.repr n) = some n := by
  cases h : parseOctet (Nat.repr n) with
  | none => simpa using find?_eq_none.1 h n (mem_finRange n)
  | some m =>
    have hdec := (congrArg decimal (repr_of_parseOctet h)).symm
    rw [decimal_repr, decimal_repr, Option.some.injEq] at hdec
    rw [Fin.ext hdec]

variable {ch : Char}

theorem not_mem_repr (h : ch.isDigit = false) (n : ℕ) : ch ∉ (Nat.repr n).toList :=
  fun hmem => Bool.false_ne_true (h.symm.trans (isDigit_of_mem_repr hmem))

theorem parseIPv4_toString (ip : IPv4) : parseIPv4 ip.toString = some ip := by
  unfold parseIPv4 IPv4.toString
  rw [split_join]
  · simp [parseOctet_repr]
  · intro s hs
    simp only [mem_cons, not_mem_nil, or_false] at hs
    rcases hs with rfl | rfl | rfl | rfl <;> exact not_mem_repr rfl _
  · simp

theorem ipToUint_uintToIP {v : ℕ} (h : v < 2 ^ 32) : ipToUint (uintToIP v) = v := by
  simp only [ipToUint, uintToIP, Fin.val_ofNat]
  omega

theorem printCIDR_eq (start bits : ℕ) :
    printCIDR start bits = join '/' [(uintToIP start).toString, Nat.repr bits] := by
  simp [printCIDR, join, intercalate_cons_cons, ← String.toList_inj]

theorem mem_toString {ip : IPv4} (h : ch ∈ ip.toString.toList) :
    ch.isDigit = true ∨ ch = '.' := by
  simp only [IPv4.toString, join, map_cons, map_nil, String.toList_ofList,
    intercalate_cons_cons, intercalate_singleton, mem_append, mem_singleton,
    or_assoc] at h
  rcases h with h | h | h | h | h | h | h
  all_goals first
    | exact .inr h
    | exact .inl (isDigit_of_mem_repr h)

theorem mem_printCIDR {start bits : ℕ} (h : ch ∈ (printCIDR start bits).toList) :
    ch.isDigit = true ∨ ch = '.' ∨ ch = '/' := by
  rw [printCIDR, String.toList_append, String.toList_append, mem_append, mem_append] at h
  rcases h with (h | h) | h
  · exact (mem_toString h).imp_right .inl
  · exact .inr (.inr (by simpa using h))
  · exact .inl (isDigit_of_mem_repr h)

theorem trimSpace_cidr (b : DyadicBlock) : trimSpace (cidr b) = cidr b := by
  unfold trimSpace
  rw [trim_eq_self fun ch hch => ?_, String.ofList_toList]
  rcases mem_printCIDR hch with hd | rfl | rfl
  · exact not_isSpace_of_isDigit hd
  · rfl
  · rfl

theorem parseCIDR_cidr {b : DyadicBlock} {c : Cidr} (hlt : b.start < 2 ^ 32) (hle : b.order ≤ 32)
    (h : parseCIDR (cidr b) = some c) : c.block = b := by
  have hspl : split '/' (cidr b) = [(uintToIP b.start).toString, Nat.repr (32 - b.order)] := by
    rw [cidr, printCIDR_eq, split_join]
    · simp only [forall_mem_cons, not_mem_nil, false_implies, implies_true, and_true]
      refine ⟨fun hmem => ?_, not_mem_repr rfl _⟩
      rcases mem_toString hmem with h | h <;> exact absurd h (by decide)
    · simp
  have hdvd := Nat.div_mul_cancel b.aligned
  have hord : 32 - (32 - b.order) = b.order := by omega
  unfold parseCIDR at h
  rw [trimSpace_cidr, hspl] at h
  simp only [parseIPv4_toString, decimal_repr, ipToUint_uintToIP hlt, hord, hdvd] at h
  split at h
  · obtain rfl := Option.some.inj h
    simp only [Cidr.block, hord]
  · cases h

theorem block_of_line {ranges : List Range} {line : String} {c : Cidr}
    (hline : line ∈ split '\n' (join '\n' (ranges.flatMap rangeToCIDRs)))
    (hc : lineBlock line = some c) : ∃ r ∈ ranges, ∀ x ∈ c, x ∈ r := by
  have hblo : ∀ r ∈ ranges, ∀ s ∈ rangeToCIDRs r, ∃ b : DyadicBlock, s = cidr b ∧
      b.start < 2 ^ 32 ∧ b.order ≤ 32 ∧ ∀ x ∈ b, x ∈ r := by
    intro r _ s hs
    obtain ⟨blocks, heq, hbou, hcov⟩ := rangeToCIDRs_spec r
    rw [heq] at hs
    obtain ⟨b, hb, rfl⟩ := List.mem_map.1 hs
    exact ⟨b, rfl, (hbou b hb).1, (hbou b hb).2, fun x hx => (hcov x).1 ⟨b, hb, hx⟩⟩
  have hmem : line ∈ ranges.flatMap rangeToCIDRs := by
    by_cases hnil : ranges.flatMap rangeToCIDRs = []
    · -- the text is empty, and its only line is blank
      rw [hnil] at hline
      obtain rfl : line = "" := by simpa [join, split] using hline
      exact absurd hc (by simp [lineBlock, isBlank, trimSpace, trim])
    rwa [split_join (fun s hs hmem => ?_) hnil] at hline
    obtain ⟨r, hr, hs⟩ := mem_flatMap.1 hs
    obtain ⟨b, rfl, -⟩ := hblo r hr s hs
    rcases mem_printCIDR hmem with h | h | h <;> exact absurd h (by decide)
  obtain ⟨r, hr, hs⟩ := mem_flatMap.1 hmem
  obtain ⟨b, rfl, hlt, hle, hsub⟩ := hblo r hr line hs
  refine ⟨r, hr, fun x hx => hsub x ?_⟩
  unfold lineBlock at hc
  split at hc
  · cases hc
  · rw [trimSpace_cidr] at hc
    exact parseCIDR_cidr hlt hle hc ▸ Cidr.mem_block.2 hx

/-- **The safe direction.** Only addresses of records are direct, and no reserved ones. -/
theorem direct_addresses_recorded {sorted : List Range} {ip : List UInt8}
    (hsorted : Sorts (parseAPNIC parseIP text "CN").1 sorted)
    (h : contains (parseCNSet (join '\n' ((mergeRanges sorted).flatMap rangeToCIDRs))) ip = true) :
    ∃ v, to4 ip = some v ∧ Recorded parseIP text "CN" v ∧ ∀ r ∈ reserved, v ∉ r := by
  obtain ⟨hapa, hcov⟩ := parseCNSet_spec
    (join '\n' ((mergeRanges sorted).flatMap rangeToCIDRs))
  obtain ⟨v, hv, hin⟩ := (contains_iff hapa).1 h
  obtain ⟨line, hline, c, hc, hvc, hfree⟩ := (hcov v).1 hin
  obtain ⟨r, hr, hrc⟩ := block_of_line hline hc
  obtain ⟨r', hr', hvr⟩ := ((mergeRanges_spec hsorted).2 v).1 ⟨r, hr, hrc v hvc⟩
  refine ⟨v, hv, recorded_of_mem hr' hvr, fun r hr hvr => ?_⟩
  exact Bool.false_ne_true (hfree.symm.trans (touchesReserved_iff.2 ⟨r, hr, v, hvr, hvc⟩))

def oneRecord : String := "apnic|CN|ipv4|1.0.1.0|256|20110414|allocated"

theorem recorded_address_direct :
    contains (parseCNSet (join '\n' ((mergeRanges (parseAPNIC parseIPv4 oneRecord "CN").1).flatMap
      rangeToCIDRs))) [1, 0, 1, 7] = true ∧
    ∃ v, to4 [1, 0, 1, 7] = some v ∧ Recorded parseIPv4 oneRecord "CN" v ∧ ∀ r ∈ reserved, v ∉ r := by
  have hdir : contains (parseCNSet (join '\n' ((mergeRanges
      (parseAPNIC parseIPv4 oneRecord "CN").1).flatMap rangeToCIDRs))) [1, 0, 1, 7] = true := by
    decide +kernel
  exact ⟨hdir, direct_addresses_recorded ⟨.refl _, by decide +kernel⟩ hdir⟩

end LatticeMesh.Split
