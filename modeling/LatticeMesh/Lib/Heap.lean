import Mathlib.Data.List.Basic
import Mathlib.Logic.Equiv.Basic
import Mathlib.Order.WithBot

/-! # Binary heaps on slices -/

namespace LatticeMesh.Heap

open List

def parent (i : ℕ) : ℕ := (i - 1) / 2

variable {i : ℕ}

theorem parent_lt (h : i ≠ 0) : parent i < i := by
  unfold parent
  omega

@[simp] theorem parent_zero : parent 0 = 0 := rfl

variable {j : ℕ}

theorem parent_eq_iff (hj : j ≠ 0) : parent j = i ↔ j = 2 * i + 1 ∨ j = 2 * i + 2 := by
  unfold parent
  omega

section Order

variable {τ : Type*} [LinearOrder τ] {f : ℕ → τ}

def Ordered (f : ℕ → τ) : Prop :=
  ∀ i, f (parent i) ≤ f i

theorem Ordered.root_le (h : Ordered f) (i : ℕ) : f 0 ≤ f i := by
  induction i using Nat.strongRecOn with
  | ind i ih =>
    by_cases hi : i = 0
    · rw [hi]
    · exact (ih (parent i) (parent_lt hi)).trans (h i)

structure Upward (f : ℕ → τ) (j : ℕ) : Prop where
  off : ∀ i, i ≠ j → f (parent i) ≤ f i
  across : ∀ i, parent i = j → f (parent j) ≤ f i

theorem Upward.stop (h : Upward f j) (hj : f (parent j) ≤ f j) : Ordered f := by
  intro i
  by_cases hi : i = j
  · rw [hi]
    exact hj
  · exact h.off i hi

theorem Upward.move (h : Upward f j) (hj : j ≠ 0) (hlt : f j < f (parent j)) :
    Upward (f ∘ Equiv.swap (parent j) j) (parent j) := by
  have hp : parent j < j := parent_lt hj
  have hat : ∀ i, i ≠ parent j → i ≠ j → (f ∘ Equiv.swap (parent j) j) i = f i := by
    intro i h1 h2
    exact congrArg f (Equiv.swap_apply_of_ne_of_ne h1 h2)
  have hpar : (f ∘ Equiv.swap (parent j) j) (parent j) = f j :=
    congrArg f (Equiv.swap_apply_left ..)
  have hself : (f ∘ Equiv.swap (parent j) j) j = f (parent j) :=
    congrArg f (Equiv.swap_apply_right ..)
  constructor
  · intro i hi
    by_cases hij : i = j
    · rw [hij, hpar, hself]
      exact hlt.le
    rw [hat i hi hij]
    by_cases h1 : parent i = parent j
    · rw [h1, hpar]
      exact hlt.le.trans (h1 ▸ h.off i hij)
    by_cases h2 : parent i = j
    · rw [h2, hself]
      exact h.across i h2
    · rw [hat _ h1 h2]
      exact h.off i hij
  intro i hi
  have hup : (f ∘ Equiv.swap (parent j) j) (parent (parent j)) ≤ f (parent j) := by
    by_cases h0 : parent j = 0
    · rw [h0, parent_zero, ← h0, hpar]
      exact hlt.le
    have hpp := parent_lt h0
    rw [hat _ (by omega) (by omega)]
    exact h.off (parent j) (by omega)
  by_cases hij : i = j
  · rw [hij, hself]
    exact hup
  by_cases hip : i = parent j
  · rw [hip, ← hi, hip]
    rw [hip] at hi
    rw [hi, hi]
  · rw [hat i hip hij]
    exact hup.trans (hi ▸ h.off i hij)

structure Downward (f : ℕ → τ) (i : ℕ) : Prop where
  off : ∀ m, parent m ≠ i → f (parent m) ≤ f m
  across : i ≠ 0 → ∀ m, parent m = i → f (parent i) ≤ f m

theorem Downward.stop (h : Downward f i) (hi : ∀ m, parent m = i → f i ≤ f m) :
    Ordered f := by
  intro m
  by_cases hm : parent m = i
  · rw [hm]
    exact hi m hm
  · exact h.off m hm

theorem Downward.move (h : Downward f i) (hj : j ≠ 0) (hji : parent j = i)
    (hmin : ∀ m, m ≠ 0 → parent m = i → f j ≤ f m) (hlt : f j < f i) :
    Downward (f ∘ Equiv.swap i j) j := by
  have hp : i < j := hji ▸ parent_lt hj
  have hat : ∀ m, m ≠ i → m ≠ j → (f ∘ Equiv.swap i j) m = f m := by
    intro m h1 h2
    exact congrArg f (Equiv.swap_apply_of_ne_of_ne h1 h2)
  have hleft : (f ∘ Equiv.swap i j) i = f j := congrArg f (Equiv.swap_apply_left ..)
  have hrig : (f ∘ Equiv.swap i j) j = f i := congrArg f (Equiv.swap_apply_right ..)
  constructor
  · intro m hm
    by_cases hmj : m = j
    · rw [hmj, hji, hleft, hrig]
      exact hlt.le
    by_cases hmi : m = i
    · by_cases h0 : i = 0
      · rw [hmi, h0, parent_zero]
      have hpi := parent_lt h0
      rw [hmi, hleft, hat _ (by omega) (by omega)]
      exact h.across h0 j hji
    rw [hat m hmi hmj]
    by_cases hpm : parent m = i
    · have h0 : m ≠ 0 := by
        intro h0
        rw [h0, parent_zero] at hpm
        omega
      rw [hpm, hleft]
      exact hmin m h0 hpm
    · rw [hat _ hpm hm]
      exact h.off m hpm
  intro _ m hm
  have h0 : m ≠ 0 := by
    intro h0
    rw [h0, parent_zero] at hm
    omega
  have hmp := parent_lt h0
  rw [hji, hleft, hat m (by omega) (by omega), ← hm]
  exact h.off m (by omega)

end Order

section Operations

variable {α : Type*}

def swap (l : List α) (i j : ℕ) : List α :=
  match l[i]?, l[j]? with
  | some x, some y => (l.set i y).set j x
  | _, _ => l

variable {κ : Type*} (key : α → κ)

def keyAt (l : List α) (i : ℕ) : WithTop κ := (l[i]?).elim ⊤ fun x => (key x : WithTop κ)

theorem swap_perm (l : List α) (i j : ℕ) : (swap l i j).Perm l := by
  unfold swap
  split
  · next x y hi hj =>
    obtain ⟨hi', rfl⟩ := List.getElem?_eq_some_iff.1 hi
    obtain ⟨hj', rfl⟩ := List.getElem?_eq_some_iff.1 hj
    exact set_set_perm hi' hj'
  · exact .refl _

theorem length_swap (l : List α) (i j : ℕ) : (swap l i j).length = l.length :=
  (swap_perm l i j).length_eq

variable {l : List α}

theorem getElem?_swap (hi : i < l.length) (hj : j < l.length) (k : ℕ) :
    (swap l i j)[k]? = l[Equiv.swap i j k]? := by
  unfold swap
  rw [getElem?_eq_getElem hi, getElem?_eq_getElem hj]
  dsimp only
  rw [getElem?_set, length_set]
  by_cases hkj : j = k
  · rw [if_pos hkj, if_pos hj, ← hkj, Equiv.swap_apply_right, getElem?_eq_getElem hi]
  rw [if_neg hkj, getElem?_set]
  by_cases hki : i = k
  · rw [if_pos hki, if_pos hi, ← hki, Equiv.swap_apply_left, getElem?_eq_getElem hj]
  · rw [if_neg hki, Equiv.swap_apply_of_ne_of_ne (Ne.symm hki) (Ne.symm hkj)]

theorem keyAt_swap (hi : i < l.length) (hj : j < l.length) :
    keyAt key (swap l i j) = keyAt key l ∘ Equiv.swap i j := by
  funext k
  unfold keyAt
  rw [getElem?_swap hi hj]
  rfl

theorem keyAt_of_le (h : l.length ≤ i) : keyAt key l i = ⊤ := by
  unfold keyAt
  rw [getElem?_eq_none h]
  rfl

def keyBelow (l : List α) (n i : ℕ) : WithTop κ := if i < n then keyAt key l i else ⊤

theorem swap_lt_iff {n : ℕ} (hi : i < n) (hj : j < n) (k : ℕ) :
    Equiv.swap i j k < n ↔ k < n := by
  rw [Equiv.swap_apply_def]
  split
  · omega
  · split <;> omega

theorem keyBelow_swap {n : ℕ} (hn : n ≤ l.length) (hi : i < n) (hj : j < n) :
    keyBelow key (swap l i j) n = keyBelow key l n ∘ Equiv.swap i j := by
  funext k
  unfold keyBelow
  rw [keyAt_swap key (by omega) (by omega)]
  simp only [Function.comp_apply, swap_lt_iff hi hj]

theorem keyBelow_length (l : List α) : keyBelow key l l.length = keyAt key l := by
  funext i
  unfold keyBelow
  split
  · rfl
  · next h => exact (keyAt_of_le key (by omega)).symm

variable [LinearOrder κ]

def up (l : List α) (j : ℕ) : List α :=
  if parent j = j ∨ ¬ keyAt key l j < keyAt key l (parent j) then l
  else up (swap l (parent j) j) (parent j)
termination_by j
decreasing_by
  apply parent_lt
  intro h0
  simp_all

def lesserChild (l : List α) (i n : ℕ) : ℕ :=
  let j1 := 2 * i + 1
  let j2 := j1 + 1
  if j2 < n ∧ keyAt key l j2 < keyAt key l j1 then j2 else j1

theorem lesserChild_eq (l : List α) (i n : ℕ) :
    lesserChild key l i n = 2 * i + 1 ∨ lesserChild key l i n = 2 * i + 2 := by
  unfold lesserChild
  dsimp only
  split
  · exact .inr rfl
  · exact .inl rfl

def down (l : List α) (i n : ℕ) : List α :=
  if 2 * i + 1 ≥ n then l
  else
    let j := lesserChild key l i n
    if ¬ keyAt key l j < keyAt key l i then l
    else down (swap l i j) j n
termination_by n - i
decreasing_by
  have := lesserChild_eq key l i n
  omega

def push (l : List α) (x : α) : List α := up key (l ++ [x]) l.length

def pop (l : List α) : Option (α × List α) :=
  let n := l.length - 1
  let l' := down key (swap l 0 n) 0 n
  l'.getLast?.map fun x => (x, l'.dropLast)

theorem up_perm (l : List α) (j : ℕ) : (up key l j).Perm l := by
  induction l, j using up.induct key with
  | case1 l j h =>
    rw [up, if_pos h]
  | case2 l j h ih =>
    rw [up, if_neg h]
    exact ih.trans (swap_perm ..)

theorem up_ordered (l : List α) (j : ℕ) (hj : j < l.length) (h : Upward (keyAt key l) j) :
    Ordered (keyAt key (up key l j)) := by
  induction l, j using up.induct key with
  | case1 l j hstop =>
    rw [up, if_pos hstop]
    apply h.stop
    rcases hstop with hroot | hle
    · rw [hroot]
    · exact not_lt.1 hle
  | case2 l j hmove ih =>
    rw [up, if_neg hmove]
    push Not at hmove
    have h0 : j ≠ 0 := by
      intro h0
      exact hmove.1 (by rw [h0, parent_zero])
    have hp := parent_lt h0
    apply ih
    · rw [length_swap]
      omega
    · rw [keyAt_swap key (by omega) hj]
      exact h.move h0 hmove.2

theorem down_perm (l : List α) (i n : ℕ) : (down key l i n).Perm l := by
  induction l, i using down.induct key n with
  | case1 l i h =>
    rw [down, if_pos h]
  | case2 l i h j hstop =>
    rw [down, if_neg h]
    dsimp only
    rw [if_pos hstop]
  | case3 l i h j hmove ih =>
    rw [down, if_neg h]
    dsimp only
    rw [if_neg hmove]
    exact ih.trans (swap_perm ..)

theorem getElem?_down (l : List α) (i n k : ℕ) (hn : n ≤ l.length) (hk : n ≤ k) :
    (down key l i n)[k]? = l[k]? := by
  induction l, i using down.induct key n with
  | case1 l i h =>
    rw [down, if_pos h]
  | case2 l i h j hstop =>
    rw [down, if_neg h]
    dsimp only
    rw [if_pos hstop]
  | case3 l i h j hmove ih =>
    rw [down, if_neg h]
    dsimp only
    rw [if_neg hmove, ih (by rwa [length_swap])]
    have hj : j < n := by
      simp only [j, lesserChild]
      split <;> omega
    rw [getElem?_swap (by omega) (by omega), Equiv.swap_apply_of_ne_of_ne (by omega) (by omega)]

theorem lesserChild_spec (l : List α) (i n : ℕ) (h : 2 * i + 1 < n) :
    lesserChild key l i n < n ∧
      ∀ m, m ≠ 0 → parent m = i → keyAt key l (lesserChild key l i n) ≤ keyBelow key l n m := by
  have hlt : lesserChild key l i n < n := by
    unfold lesserChild
    dsimp only
    split <;> omega
  refine ⟨hlt, ?_⟩
  intro m h0 hm
  unfold keyBelow
  split
  · next hmn =>
    unfold lesserChild
    dsimp only
    rcases (parent_eq_iff h0).1 hm with rfl | rfl
    · split
      · next hc => exact hc.2.le
      · exact le_rfl
    split
    · exact le_rfl
    next hc =>
    push Not at hc
    exact hc hmn
  · exact le_top

theorem down_ordered (l : List α) (i n : ℕ) (hn : n ≤ l.length)
    (h : Downward (keyBelow key l n) i) : Ordered (keyBelow key (down key l i n) n) := by
  induction l, i using down.induct key n with
  | case1 l i hleaf =>
    rw [down, if_pos hleaf]
    apply h.stop
    intro m hm
    by_cases h0 : m = 0
    · rw [h0, parent_zero] at hm
      rw [h0, hm]
    have hge : ¬ m < n := by
      have := (parent_eq_iff h0).1 hm
      omega
    unfold keyBelow
    rw [if_neg hge]
    exact le_top
  | case2 l i hin j hstop =>
    rw [down, if_neg hin]
    dsimp only
    rw [if_pos hstop]
    obtain ⟨-, hmin⟩ := lesserChild_spec key l i n (by omega)
    have hi : keyBelow key l n i = keyAt key l i := if_pos (by omega)
    apply h.stop
    intro m hm
    by_cases h0 : m = 0
    · rw [h0, parent_zero] at hm
      rw [h0, hm]
    · rw [hi]
      exact (not_lt.1 hstop).trans (hmin m h0 hm)
  | case3 l i hin j hmove ih =>
    rw [down, if_neg hin]
    dsimp only
    rw [if_neg hmove]
    obtain ⟨hj, hmin⟩ := lesserChild_spec key l i n (by omega)
    have hi : keyBelow key l n i = keyAt key l i := if_pos (by omega)
    have hjk : keyBelow key l n j = keyAt key l j := if_pos hj
    have hcas := lesserChild_eq key l i n
    have h0 : j ≠ 0 := by omega
    apply ih
    · rwa [length_swap]
    rw [keyBelow_swap key hn (by omega) hj]
    apply h.move h0 ((parent_eq_iff h0).2 hcas)
    · intro m hm0 hm
      rw [hjk]
      exact hmin m hm0 hm
    · rw [hjk, hi]
      exact not_not.1 hmove

def IsHeap (l : List α) : Prop := Ordered (keyAt key l)

theorem isHeap_nil : IsHeap key ([] : List α) := by
  intro i
  exact le_rfl

theorem push_perm (l : List α) (x : α) : (push key l x).Perm (x :: l) :=
  (up_perm key _ _).trans perm_append_comm

theorem push_isHeap (h : IsHeap key l) (x : α) : IsHeap key (push key l x) := by
  have hold : ∀ i, i < l.length → keyAt key (l ++ [x]) i = keyAt key l i := by
    intro i hi
    unfold keyAt
    rw [getElem?_append_left hi]
  apply up_ordered
  · rw [length_append, length_singleton]
    omega
  constructor
  · intro i hi
    by_cases hlt : i < l.length
    · have hp : parent i ≤ i := Nat.div_le_of_le_mul (by omega)
      rw [hold i hlt, hold _ (by omega)]
      exact h i
    · rw [keyAt_of_le key (i := i) (by rw [length_append, length_singleton]; omega)]
      exact le_top
  intro i hi
  by_cases h0 : i = 0
  · rw [h0, parent_zero] at hi
    rw [h0, ← hi, parent_zero]
  have hp := parent_lt h0
  rw [keyAt_of_le key (i := i) (by rw [length_append, length_singleton]; omega)]
  exact le_top

variable {r : α}

theorem IsHeap.root_le (h : IsHeap key l) {x : α} (hr : l.head? = some r) (hx : x ∈ l) :
    key r ≤ key x := by
  obtain ⟨i, hi⟩ := mem_iff_getElem?.1 hx
  have hle := Ordered.root_le h i
  unfold keyAt at hle
  rw [← head?_eq_getElem?, hr, hi] at hle
  exact WithTop.coe_le_coe.1 hle

theorem pop_eq (hr : l.head? = some r) :
    ∃ rest, pop key l = some (r, rest) ∧
      down key (swap l 0 (l.length - 1)) 0 (l.length - 1) = rest ++ [r] := by
  have hpos : 0 < l.length := by
    cases l with
    | nil => cases hr
    | cons x l => exact Nat.succ_pos _
  have hlen : (down key (swap l 0 (l.length - 1)) 0 (l.length - 1)).length = l.length := by
    rw [(down_perm ..).length_eq, length_swap]
  have hlast : (down key (swap l 0 (l.length - 1)) 0 (l.length - 1)).getLast? = some r := by
    rw [getLast?_eq_getElem?, hlen, getElem?_down key _ _ _ _ (by rw [length_swap]; omega)
      le_rfl, getElem?_swap hpos (by omega), Equiv.swap_apply_right, ← head?_eq_getElem?, hr]
  refine ⟨_, ?_, (dropLast_append_getLast? r hlast).symm⟩
  unfold pop
  dsimp only
  rw [hlast]
  rfl

theorem pop_perm {rest : List α} (h : pop key l = some (r, rest)) :
    l.head? = some r ∧ l.Perm (r :: rest) := by
  cases hr : l.head? with
  | none =>
    rw [head?_eq_none_iff.1 hr] at h
    simp [pop, swap, down] at h
  | some r' =>
    obtain ⟨rest', hpop, hdown⟩ := pop_eq key hr
    rw [hpop] at h
    obtain ⟨rfl, rfl⟩ := Prod.mk.inj (Option.some.inj h)
    refine ⟨rfl, ?_⟩
    have hperm := (down_perm key (swap l 0 (l.length - 1)) 0 (l.length - 1)).trans
      (swap_perm l 0 (l.length - 1))
    rw [hdown] at hperm
    exact hperm.symm.trans perm_append_comm

theorem pop_isHeap {rest : List α} (hl : IsHeap key l) (h : pop key l = some (r, rest)) :
    IsHeap key rest := by
  obtain ⟨hr, hperm⟩ := pop_perm key h
  obtain ⟨rest', hpop, hdown⟩ := pop_eq key hr
  rw [hpop] at h
  obtain ⟨-, rfl⟩ := Prod.mk.inj (Option.some.inj h)
  have hlen : l.length = rest'.length + 1 := hperm.length_eq
  have hst : Downward (keyBelow key (swap l 0 (l.length - 1)) (l.length - 1)) 0 := by
    constructor
    · intro m hm
      have h0 : m ≠ 0 := by
        intro h0
        exact hm (by rw [h0, parent_zero])
      have hp := parent_lt h0
      unfold keyBelow
      by_cases hlt : m < l.length - 1
      · rw [if_pos hlt, if_pos (by omega), keyAt_swap key (by omega) (by omega)]
        simp only [Function.comp_apply]
        rw [Equiv.swap_apply_of_ne_of_ne h0 (by omega),
          Equiv.swap_apply_of_ne_of_ne hm (by omega)]
        exact hl m
      · rw [if_neg hlt]
        exact le_top
    · intro h0
      exact absurd rfl h0
  have hord := down_ordered key _ 0 _ (by rw [length_swap]; omega) hst
  have hkeys : keyBelow key (rest' ++ [r]) (l.length - 1) = keyAt key rest' := by
    have hlen' : l.length - 1 = rest'.length := by omega
    rw [hlen', ← keyBelow_length key rest']
    funext i
    unfold keyBelow
    split
    · next hi =>
      unfold keyAt
      rw [getElem?_append_left hi]
    · rfl
  rw [hdown, hkeys] at hord
  exact hord

end Operations

end LatticeMesh.Heap
