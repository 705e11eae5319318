import Mathlib.Data.List.Infix

/-! # Full reads of a stream that arrives in pieces -/

namespace LatticeMesh

open List

universe u

inductive Arrival (α : Type u) where
  | chunk (items : List α)
  | timeout
  | broken
  deriving DecidableEq

inductive ReadResult (α : Type u) where
  | complete (items : List α) (rest : List (Arrival α))
  | timeout (lost : List α) (rest : List (Arrival α))
  | broken (lost : List α) (rest : List (Arrival α))
  | blocked

def ReadResult.rest? {α : Type u} : ReadResult α → Option (List (Arrival α))
  | .complete _ rest | .timeout _ rest | .broken _ rest => some rest
  | .blocked => none

namespace Arrival

variable {α : Type u}

def items : List (Arrival α) → List α
  | [] => []
  | .chunk l :: rest => l ++ items rest
  | .timeout :: rest => items rest
  | .broken :: _ => []

theorem items_append {input : List (Arrival α)} (h : .broken ∉ input) (more : List (Arrival α)) :
    items (input ++ more) = items input ++ items more := by
  induction input with
  | nil => rfl
  | cons a rest ih =>
    obtain ⟨ha, hrest⟩ := not_or.1 (mem_cons.not.1 h)
    cases a with
    | chunk l => rw [cons_append, items, items, ih hrest, append_assoc]
    | timeout => exact ih hrest
    | broken => exact absurd rfl ha

def readFrom (got : List α) : ℕ → List (Arrival α) → ReadResult α
  | 0, input => .complete got input
  | _ + 1, [] => .blocked
  | _ + 1, .timeout :: rest => .timeout got rest
  | _ + 1, .broken :: rest => .broken got (.broken :: rest)
  | n + 1, .chunk l :: rest =>
    if n + 1 ≤ l.length then .complete (got ++ l.take (n + 1)) (.chunk (l.drop (n + 1)) :: rest)
    else readFrom (got ++ l) (n + 1 - l.length) rest

def read (n : ℕ) (input : List (Arrival α)) : ReadResult α := readFrom [] n input

def Took (got : List α) (n : ℕ) (input : List (Arrival α)) : ReadResult α → Prop
  | .complete l rest => ∃ new, l = got ++ new ∧ new.length = n ∧ items input = new ++ items rest
  | .timeout l rest => ∃ new, l = got ++ new ∧ new.length < n ∧ items input = new ++ items rest
  | .broken l rest => ∃ new, l = got ++ new ∧ new.length < n ∧ items input = new ++ items rest ∧
      rest.head? = some .broken
  | .blocked => (items input).length < n ∧ .timeout ∉ input ∧ .broken ∉ input

theorem Took.chunk {got l : List α} {n : ℕ} {rest : List (Arrival α)} {r : ReadResult α}
    (hl : l.length < n) (h : Took (got ++ l) (n - l.length) rest r) :
    Took got n (.chunk l :: rest) r := by
  cases r with
  | complete | timeout =>
    obtain ⟨new, rfl, hlen, hit⟩ := h
    exact ⟨l ++ new, by simp, by simp; omega, by simp [items, hit]⟩
  | broken =>
    obtain ⟨new, rfl, hlen, hit, hhead⟩ := h
    exact ⟨l ++ new, by simp, by simp; omega, by simp [items, hit], hhead⟩
  | blocked =>
    obtain ⟨hlen, htim, hbr⟩ := h
    exact ⟨by simp [items]; omega, by simp [htim], by simp [hbr]⟩

theorem took_readFrom (got : List α) (n : ℕ) (input : List (Arrival α)) :
    Took got n input (readFrom got n input) := by
  induction input generalizing got n with
  | nil =>
    cases n with
    | zero => exact ⟨[], by simp, rfl, rfl⟩
    | succ n => exact ⟨Nat.succ_pos n, nofun, nofun⟩
  | cons a rest ih =>
    cases n with
    | zero => exact ⟨[], by simp, rfl, rfl⟩
    | succ n =>
      cases a with
      | timeout => exact ⟨[], by simp, Nat.succ_pos n, rfl⟩
      | broken => exact ⟨[], by simp, Nat.succ_pos n, rfl, rfl⟩
      | chunk l =>
        unfold readFrom
        split
        · next hle =>
          refine ⟨l.take (n + 1), rfl, length_take_of_le hle, ?_⟩
          rw [items, items, ← append_assoc, take_append_drop]
        · next hlt => exact .chunk (Nat.lt_of_not_le hlt) (ih _ _)

theorem broken_mem_rest (got : List α) (n : ℕ) {input : List (Arrival α)} (h : .broken ∈ input) :
    ∃ rest, (readFrom got n input).rest? = some rest ∧ .broken ∈ rest := by
  induction input generalizing got n with
  | nil => cases h
  | cons a rest ih =>
    cases n with
    | zero => exact ⟨_, rfl, h⟩
    | succ n =>
      cases a with
      | timeout => exact ⟨rest, rfl, (mem_cons.1 h).resolve_left nofun⟩
      | broken => exact ⟨_, rfl, h⟩
      | chunk l =>
        have hrest := (mem_cons.1 h).resolve_left nofun
        unfold readFrom
        split
        · exact ⟨_, rfl, mem_cons_of_mem _ hrest⟩
        · exact ih _ _ hrest

variable {n : ℕ} {input rest : List (Arrival α)} {l : List α}

theorem read_complete (h : read n input = .complete l rest) :
    l.length = n ∧ items input = l ++ items rest := by
  have htook := took_readFrom [] n input
  rw [← read, h] at htook
  obtain ⟨new, rfl, hlen, hit⟩ := htook
  exact ⟨hlen, hit⟩

theorem read_timeout (h : read n input = .timeout l rest) :
    l.length < n ∧ items input = l ++ items rest := by
  have htook := took_readFrom [] n input
  rw [← read, h] at htook
  obtain ⟨new, rfl, hlen, hit⟩ := htook
  exact ⟨hlen, hit⟩

theorem read_broken (h : read n input = .broken l rest) :
    l.length < n ∧ items input = l ++ items rest ∧ rest.head? = some .broken := by
  have htook := took_readFrom [] n input
  rw [← read, h] at htook
  obtain ⟨new, rfl, hlen, hit, hhead⟩ := htook
  exact ⟨hlen, hit, hhead⟩

theorem read_of_broken (hn : 0 < n) (h : input.head? = some .broken) :
    read n input = .broken [] input := by
  obtain ⟨n, rfl⟩ := Nat.exists_eq_succ_of_ne_zero hn.ne'
  obtain ⟨rest, rfl⟩ := head?_eq_some_iff.1 h
  rfl

end Arrival

end LatticeMesh
