import LatticeMesh.Lib.Bytes
import LatticeMesh.Lib.Sorted
import LatticeMesh.Split.Ranges

/-! # The set of direct addresses -/

namespace LatticeMesh.Split

open Netmap Text List Option

structure Cidr where
  start : ℕ
  bits : ℕ
  bits_le : bits ≤ 32
  aligned : 2 ^ (32 - bits) ∣ start
  lt : start < 2 ^ 32

instance : DecidableEq Cidr := fun c d =>
  decidable_of_iff (c.start = d.start ∧ c.bits = d.bits) (by cases c; cases d; simp)

namespace Cidr

def stop (c : Cidr) : ℕ := if c.bits = 0 then 2 ^ 32 - 1 else c.start ||| (2 ^ (32 - c.bits) - 1)

def toString (c : Cidr) : String := printCIDR c.start c.bits

instance : Membership ℕ Cidr := ⟨fun c x => c.start ≤ x ∧ x ≤ c.stop⟩

def block (c : Cidr) : DyadicBlock := ⟨c.start, 32 - c.bits, c.aligned⟩

def size (c : Cidr) : ℕ := 2 ^ (32 - c.bits)

def Before (c d : Cidr) : Prop := c.start < d.start ∨ c.start = d.start ∧ c.bits ≤ d.bits

instance : DecidableRel Before := fun c d =>
  inferInstanceAs (Decidable (c.start < d.start ∨ c.start = d.start ∧ c.bits ≤ d.bits))

end Cidr

def decimal (s : String) : Option ℕ :=
  if s.toList ≠ [] ∧ s.toList.all Char.isDigit then some (Nat.ofDigitChars 10 s.toList 0) else none

theorem ipToUint_lt (ip : IPv4) : ipToUint ip < 2 ^ 32 := by
  have ha := ip.a.isLt
  have hb := ip.b.isLt
  have hc := ip.c.isLt
  have hd := ip.d.isLt
  unfold ipToUint
  omega

def parseCIDR (s : String) : Option Cidr :=
  match split '/' (trimSpace s) with
  | [addr, mask] =>
    match parseIPv4 addr, decimal mask with
    | some ip, some ones =>
      if h : ones ≤ 32 then
        some ⟨ipToUint ip / 2 ^ (32 - ones) * 2 ^ (32 - ones), ones, h, Nat.dvd_mul_left ..,
          Nat.lt_of_le_of_lt (Nat.div_mul_le_self ..) (ipToUint_lt ip)⟩
      else none
    | _, _ => none
  | _ => none

def reserved : List Cidr :=
  ["0.0.0.0/8", "10.0.0.0/8", "100.64.0.0/10", "127.0.0.0/8", "169.254.0.0/16", "172.16.0.0/12",
    "192.168.0.0/16", "224.0.0.0/3"].filterMap parseCIDR

def touchesReserved (c : Cidr) : Bool :=
  reserved.any fun r => decide (c.start ≤ r.stop) && decide (r.start ≤ c.stop)

def isBlank (line : String) : Bool := line.isEmpty || line.toList.head? == some '#'

def lineBlock (line : String) : Option Cidr :=
  if isBlank (trimSpace line) then none else parseCIDR (trimSpace line)

abbrev CNSet := List Cidr

def keep (last : Option Cidr) : List Cidr → CNSet
  | [] => []
  | c :: cs =>
    if last.any fun d => decide (c.start ≤ d.stop) then keep last cs else c :: keep (some c) cs

def parseCNSet (text : String) : CNSet :=
  keep none ((((split '\n' text).filterMap lineBlock).filter (!touchesReserved ·)).insertionSort
    Cidr.Before)

def to4 (ip : List UInt8) : Option ℕ :=
  if ip.length = 4 then some (Bytes.beNat ip)
  else if ip.length = 16 ∧ ip.take 12 = List.replicate 10 0 ++ [255, 255] then
    some (Bytes.beNat (ip.drop 12))
  else none

def contains (s : CNSet) (ip : List UInt8) : Bool :=
  match to4 ip with
  | none => false
  | some v =>
    match search s.length fun i => s[i]?.any fun c => decide (v < c.start) with
    | 0 => false
    | i + 1 => s[i]?.any fun c => decide (v ≤ c.stop)

def selectBlocks (s : CNSet) (max : Int) : List Cidr :=
  if 0 < max ∧ max < s.length then
    ((s.insertionSort fun c d => c.bits ≤ d.bits).take max.toNat).insertionSort
      fun c d => c.start ≤ d.start
  else s

def routes (s : CNSet) (max : Int) : List String := (selectBlocks s max).map Cidr.toString

namespace Cidr

theorem stop_eq (c : Cidr) : c.stop + 1 = c.block.stop := by
  have hlt := c.lt
  obtain ⟨a, ha⟩ := c.aligned
  unfold stop block DyadicBlock.stop
  dsimp only
  split
  · next h0 =>
    rw [h0] at ha ⊢
    have hzero : a = 0 := by omega
    simp [ha, hzero]
  have hpos := Nat.two_pow_pos (32 - c.bits)
  rw [ha, ← Nat.two_pow_add_eq_or_of_lt (by omega) a]
  omega

theorem mem_block {c : Cidr} {x : ℕ} : x ∈ c.block ↔ x ∈ c := by
  have hstop := c.stop_eq
  show c.start ≤ x ∧ x < c.block.stop ↔ c.start ≤ x ∧ x ≤ c.stop
  omega

theorem start_le_stop (c : Cidr) : c.start ≤ c.stop := (mem_block.1 c.block.start_mem).2

theorem Before.mem {c d : Cidr} (h : Before c d) (hin : d.start ≤ c.stop) {x : ℕ} (hx : x ∈ d) :
    x ∈ c := by
  have hst : d.block.start ∈ c.block :=
    mem_block.2 ⟨h.elim Nat.le_of_lt fun h => Nat.le_of_eq h.1, hin⟩
  have hwit : d.block.order ≤ c.block.order := by
    by_contra hlt
    have hle := (DyadicBlock.nested (by omega) hst d.block.start_mem).1
    simp only [block] at hle hlt
    rcases h with h | ⟨-, h⟩ <;> omega
  obtain ⟨hlow, hhigh⟩ := DyadicBlock.nested hwit d.block.start_mem hst
  obtain ⟨hx, hx'⟩ := mem_block.2 hx
  exact mem_block.1 ⟨Nat.le_trans hlow hx, Nat.lt_of_lt_of_le hx' hhigh⟩

instance : IsTrans Cidr Before where
  trans := by
    rintro c d e (h | h) (h' | h') <;> unfold Before <;> omega

instance : Std.Total Before where
  total c d := by
    unfold Before
    omega

end Cidr

theorem touchesReserved_iff {c : Cidr} :
    touchesReserved c = true ↔ ∃ r ∈ reserved, ∃ x, x ∈ r ∧ x ∈ c := by
  have hc := c.start_le_stop
  simp only [touchesReserved, List.any_eq_true, Bool.and_eq_true, decide_eq_true_eq]
  refine exists_congr fun r => and_congr_right fun _ => ⟨fun ⟨h, h'⟩ => ?_, fun ⟨x, hr, hx⟩ => ?_⟩
  · have hr := r.start_le_stop
    exact ⟨max c.start r.start, ⟨by omega, by omega⟩, ⟨by omega, by omega⟩⟩
  · exact ⟨Nat.le_trans hx.1 hr.2, Nat.le_trans hr.1 hx.2⟩

theorem keep_spec {last : Cidr} {l : List Cidr} (hsort : (last :: l).Pairwise Cidr.Before) :
    (last :: keep (some last) l).Pairwise (fun c d => c.stop < d.start) ∧
      ∀ x, (∃ c ∈ last :: keep (some last) l, x ∈ c) ↔ ∃ c ∈ last :: l, x ∈ c := by
  induction l generalizing last with
  | nil => exact ⟨pairwise_singleton _ _, fun _ => Iff.rfl⟩
  | cons d l ih =>
    have hd := (pairwise_cons.1 hsort).1 d mem_cons_self
    unfold keep
    simp only [any_some, decide_eq_true_eq]
    split
    · next hin =>
      obtain ⟨hapa, hcov⟩ := ih (hsort.sublist
        (.cons_cons last (sublist_cons_self d l)))
      refine ⟨hapa, fun x => (hcov x).trans ?_⟩
      simp only [exists_mem_cons_iff]
      refine ⟨Or.imp_right .inr, ?_⟩
      rintro (hx | hx | hx)
      · exact .inl hx
      · exact .inl (hd.mem hin hx)
      · exact .inr hx
    next hout =>
    obtain ⟨hapa, hcov⟩ := ih (pairwise_cons.1 hsort).2
    refine ⟨.cons (fun e he => ?_) hapa, fun x => ?_⟩
    · rcases mem_cons.1 he with rfl | he
      · omega
      have hlt := (pairwise_cons.1 hapa).1 e he
      have hle := d.start_le_stop
      omega
    · rw [exists_mem_cons_iff, hcov x, exists_mem_cons_iff (l := d :: l)]

theorem parseCNSet_spec (text : String) :
    (parseCNSet text).Pairwise (fun c d => c.stop < d.start) ∧
      ∀ x, (∃ c ∈ parseCNSet text, x ∈ c) ↔
        ∃ line ∈ split '\n' text, ∃ c, lineBlock line = some c ∧ x ∈ c ∧ touchesReserved c = false := by
  unfold parseCNSet
  set blocks := ((split '\n' text).filterMap lineBlock).filter (!touchesReserved ·) with hblo
  have hmem : ∀ c, c ∈ blocks.insertionSort Cidr.Before ↔
      ∃ line ∈ split '\n' text, lineBlock line = some c ∧ touchesReserved c = false := by
    intro c
    rw [(perm_insertionSort _ _).mem_iff, hblo, mem_filter, mem_filterMap]
    simp only [Bool.not_eq_true', ← exists_and_right, and_assoc]
  have hsort := pairwise_insertionSort Cidr.Before blocks
  have hcov : ∀ x, (∃ c ∈ blocks.insertionSort Cidr.Before, x ∈ c) ↔
      ∃ line ∈ split '\n' text, ∃ c, lineBlock line = some c ∧ x ∈ c ∧ touchesReserved c = false := by
    intro x
    constructor
    · rintro ⟨c, hc, hx⟩
      obtain ⟨line, hline, hc, ht⟩ := (hmem c).1 hc
      exact ⟨line, hline, c, hc, hx, ht⟩
    · rintro ⟨line, hline, c, hc, hx, ht⟩
      exact ⟨c, (hmem c).2 ⟨line, hline, hc, ht⟩, hx⟩
  generalize blocks.insertionSort Cidr.Before = l at hsort hcov
  cases l with
  | nil => exact ⟨.nil, hcov⟩
  | cons c l =>
    obtain ⟨hapa, hkeep⟩ := keep_spec hsort
    exact ⟨hapa, fun x => (hkeep x).trans (hcov x)⟩

theorem contains_iff {s : CNSet} (hs : s.Pairwise fun c d => c.stop < d.start) {ip : List UInt8} :
    contains s ip = true ↔ ∃ v, to4 ip = some v ∧ ∃ c ∈ s, v ∈ c := by
  unfold contains
  cases to4 ip with
  | none => simp
  | some v =>
    simp only [Option.some.injEq, exists_eq_left']
    have happ : ∀ (i j : ℕ) (c d : Cidr), i < j → s[i]? = some c → s[j]? = some d → c.stop < d.start := by
      intro i j c d hij hc hd
      obtain ⟨hi, rfl⟩ := List.getElem?_eq_some_iff.1 hc
      obtain ⟨hj, rfl⟩ := List.getElem?_eq_some_iff.1 hd
      exact pairwise_iff_getElem.1 hs i j hi hj hij
    have hsea : ∀ (j : ℕ) (c : Cidr), s[j]? = some c →
        (j < search s.length (fun i => s[i]?.any fun c => decide (v < c.start)) ↔ c.start ≤ v) := by
      intro j c hc
      rw [lt_search_iff ?_ (List.getElem?_eq_some_iff.1 hc).1, hc, any_some,
        decide_eq_false_iff_not, Nat.not_lt]
      intro a b hab hb ha
      obtain ⟨d, hd, hlt⟩ := (Option.any_eq_true ..).1 ha
      rw [getElem?_eq_getElem hb, any_some]
      rcases Nat.lt_or_eq_of_le hab with hab | rfl
      · have hstop := happ a b d _ hab hd (getElem?_eq_getElem hb)
        have hle := d.start_le_stop
        simp only [decide_eq_true_eq] at hlt ⊢
        omega
      · rw [getElem?_eq_getElem hb, Option.some.injEq] at hd
        exact hd ▸ hlt
    have hle : search s.length (fun i => s[i]?.any fun c => decide (v < c.start)) ≤ s.length :=
      searchFrom_le (Nat.zero_le _)
    generalize search s.length (fun i => s[i]?.any fun c => decide (v < c.start)) = n at hsea hle
    cases n with
    | zero =>
      simp only [Bool.false_eq_true, false_iff]
      rintro ⟨c, hc, hv⟩
      obtain ⟨j, hj⟩ := getElem?_of_mem hc
      exact absurd ((hsea j c hj).2 hv.1) (Nat.not_lt_zero j)
    | succ i =>
      have hi : s[i]? = some s[i] := getElem?_eq_getElem hle
      simp only [hi, any_some, decide_eq_true_eq]
      constructor
      · exact fun hv => ⟨s[i], getElem_mem hle, (hsea i _ hi).1 (Nat.lt_succ_self i), hv⟩
      rintro ⟨c, hc, hv⟩
      obtain ⟨j, hj⟩ := getElem?_of_mem hc
      rcases Nat.lt_or_eq_of_le (Nat.le_of_lt_succ ((hsea j c hj).2 hv.1)) with hlt | rfl
      · have hstop := happ j i c _ hlt hj hi
        have hst := (hsea i _ hi).1 (Nat.lt_succ_self i)
        have hv' := hv.2
        omega
      · rw [hi, Option.some.injEq] at hj
        exact hj ▸ hv.2

def total (l : List Cidr) : ℕ := (l.map Cidr.size).sum

theorem selectBlocks_perm (s : CNSet) {max : Int} (hmax : 0 < max) :
    (selectBlocks s max).Perm ((s.insertionSort fun c d => c.bits ≤ d.bits).take max.toNat) := by
  unfold selectBlocks
  split
  · exact perm_insertionSort _ _
  next hle =>
  rw [take_of_length_le]
  · exact (perm_insertionSort _ _).symm
  · rw [length_insertionSort]
    omega

theorem selectBlocks_subperm (s : CNSet) (max : Int) : (selectBlocks s max).Subperm s := by
  by_cases hmax : 0 < max
  · exact ((selectBlocks_perm s hmax).subperm.trans (take_sublist _ _).subperm).trans
      (perm_insertionSort _ _).subperm
  · rw [selectBlocks, if_neg fun h => hmax h.1]

theorem total_le_selectBlocks {s other : CNSet} {max : Int} (hoth : other.Subperm s)
    (hlen : (other.length : Int) ≤ max) : total other ≤ total (selectBlocks s max) := by
  by_cases hmax : 0 < max
  · have hperm := ((selectBlocks_perm s hmax).map Cidr.size).sum_eq
    unfold total
    rw [hperm]
    refine sum_le_sum_take ?_ (hoth.trans (perm_insertionSort _ _).symm.subperm) (by omega)
    have : IsTrans Cidr fun c d => c.bits ≤ d.bits := ⟨fun _ _ _ => Nat.le_trans⟩
    have : Std.Total fun c d : Cidr => c.bits ≤ d.bits := ⟨fun _ _ => Nat.le_total ..⟩
    refine (pairwise_insertionSort (fun c d : Cidr => c.bits ≤ d.bits) s).imp fun h => ?_
    exact Nat.pow_le_pow_right (by decide) (Nat.sub_le_sub_left h 32)
  · obtain rfl : other = [] := length_eq_zero_iff.1 (by omega)
    exact Nat.zero_le _

/-- **The set of direct addresses.** It has the addresses of the lines that touch no reserved range,
and the routes with a positive limit are the largest blocks of it. -/
theorem cn_set (text : String) :
    (parseCNSet text).Pairwise (fun c d => c.stop < d.start) ∧
    (∀ ip, contains (parseCNSet text) ip = true ↔ ∃ v, to4 ip = some v ∧
      ∃ line ∈ split '\n' text, ∃ c, lineBlock line = some c ∧ v ∈ c ∧
        ∀ r ∈ reserved, ∀ x ∈ c, x ∉ r) ∧
    (∀ ip v, to4 ip = some v → (∃ r ∈ reserved, v ∈ r) → contains (parseCNSet text) ip = false) ∧
    ∀ max, ∃ blocks, routes (parseCNSet text) max = blocks.map Cidr.toString ∧
      blocks.Subperm (parseCNSet text) ∧ (max ≤ 0 → blocks = parseCNSet text) ∧
      (0 < max → blocks.length ≤ max ∧ ∀ other : List Cidr, other.Subperm (parseCNSet text) →
        other.length ≤ max → total other ≤ total blocks) := by
  obtain ⟨hapa, hcov⟩ := parseCNSet_spec text
  have hfree : ∀ c : Cidr, touchesReserved c = false ↔ ∀ r ∈ reserved, ∀ x ∈ c, x ∉ r := by
    intro c
    rw [← Bool.not_eq_true, touchesReserved_iff]
    exact ⟨fun h r hr x hx hxr => h ⟨r, hr, x, hxr, hx⟩, fun h ⟨r, hr, x, hxr, hx⟩ => h r hr x hx hxr⟩
  have hcon : ∀ ip, contains (parseCNSet text) ip = true ↔ ∃ v, to4 ip = some v ∧
      ∃ line ∈ split '\n' text, ∃ c, lineBlock line = some c ∧ v ∈ c ∧
        ∀ r ∈ reserved, ∀ x ∈ c, x ∉ r := by
    intro ip
    simp only [contains_iff hapa, hcov, hfree]
  refine ⟨hapa, hcon, fun ip v hv ⟨r, hr, hvr⟩ => ?_, fun max => ?_⟩
  · rw [← Bool.not_eq_true, hcon]
    rintro ⟨w, hw, -, -, c, -, hwc, hc⟩
    cases hv.symm.trans hw
    exact hc r hr v hwc hvr
  refine ⟨_, rfl, selectBlocks_subperm _ _, fun hmax => ?_, fun hmax => ⟨?_, fun other hoth hlen =>
    total_le_selectBlocks hoth hlen⟩⟩
  · rw [selectBlocks, if_neg (by omega)]
  · rw [(selectBlocks_perm _ hmax).length_eq, length_take]
    omega

theorem routes_of_negative_limit :
    ¬ ((routes (parseCNSet "1.0.1.0/24") (-1)).length : Int) ≤ -1 := by
  decide +kernel

end LatticeMesh.Split
