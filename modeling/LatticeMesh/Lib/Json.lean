import Mathlib.Data.List.Basic

/-! # JSON values and their decoding into typed variables -/

namespace LatticeMesh

open List

inductive Json where
  | null
  | bool (b : Bool)
  | num (q : Rat)
  | str (s : String)
  | arr (elems : List Json)
  | obj (members : List (String × Json))

namespace Json

def lookup (members : List (String × Json)) (name : String) : Option Json :=
  (members.reverse.find? (·.1 = name)).map (·.2)

def asStr : Json → Option String
  | .str s => some s
  | _ => none

def asNum : Json → Option Rat
  | .num q => some q
  | _ => none

def asArr : Json → Option (List Json)
  | .arr elems => some elems
  | _ => none

def asObj : Json → Option (List (String × Json))
  | .obj members => some members
  | _ => none

mutual

def allNums (p : Rat → Bool) : Json → Bool
  | .num q => p q
  | .arr elems => allNumsElems p elems
  | .obj members => allNumsMembers p members
  | _ => true

def allNumsElems (p : Rat → Bool) : List Json → Bool
  | [] => true
  | v :: elems => v.allNums p && allNumsElems p elems

def allNumsMembers (p : Rat → Bool) : List (String × Json) → Bool
  | [] => true
  | (_, v) :: members => v.allNums p && allNumsMembers p members

end

def foldRune (c : Char) : Char :=
  if c = 'ſ' then 'S' else if c = '\u212A' then 'K' else c.toUpper

def foldName (name : String) : List Char := name.toList.map foldRune

def sameName (x y : String) : Bool := foldName x = foldName y

def valuesOf (members : List (String × Json)) (name : String) : List Json :=
  (members.filter (sameName ·.1 name)).map (·.2)

end Json

universe u v

structure Decoder (α : Type u) where
  store : α → Json → α
  fails : Json → Bool

namespace Decoder

open Json

variable {α : Type u} {β : Type v}

def string : Decoder String where
  store
    | _, .str s => s
    | old, _ => old
  fails
    | .str _ | .null => false
    | _ => true

def map (fits : Rat → Bool) : Decoder (Option (List (String × Json))) where
  store
    | old, .obj members => some (old.getD [] ++ members)
    | _, .null => none
    | old, _ => old
  fails
    | .obj members => !allNumsMembers fits members
    | .null => false
    | _ => true

def field (get : α → β) (set : α → β → α) (d : Decoder β) : Decoder α where
  store a v := set a (d.store (get a) v)
  fails := d.fails

def lookupField (fields : List (String × Decoder α)) (name : String) : Option (Decoder α) :=
  (fields.find? (sameName name ·.1)).map (·.2)

def storeMember (fields : List (String × Decoder α)) (a : α) (m : String × Json) : α :=
  match lookupField fields m.1 with
  | none => a
  | some d => d.store a m.2

def struct (fields : List (String × Decoder α)) : Decoder α where
  store
    | a, .obj members => members.foldl (storeMember fields) a
    | a, _ => a
  fails
    | .obj members => members.any fun m => (lookupField fields m.1).any (·.fails m.2)
    | .null => false
    | _ => true

theorem store_struct {fields : List (String × Decoder α)} {get : α → β} {name : String}
    {d : Decoder β}
    (h : ∀ a m, get (storeMember fields a m) =
      if sameName m.1 name then d.store (get a) m.2 else get a)
    (a : α) (members : List (String × Json)) :
    get ((struct fields).store a (.obj members)) =
      (valuesOf members name).foldl d.store (get a) := by
  change get (members.foldl (storeMember fields) a) = _
  induction members generalizing a with
  | nil => rfl
  | cons m members ih =>
    rw [foldl_cons, ih, h]
    cases hm : sameName m.1 name with
    | false => simp [valuesOf, hm]
    | true => simp [valuesOf, hm]

theorem fails_struct {fields : List (String × Decoder α)} {members : List (String × Json)}
    (h : ∀ f ∈ fields, ∀ v ∈ valuesOf members f.1, f.2.fails v = false) :
    (struct fields).fails (.obj members) = false := by
  change (members.any _) = false
  rw [List.any_eq_false]
  rintro ⟨name, v⟩ hm hfai
  rw [Option.any_eq_true] at hfai
  obtain ⟨d, hd, hv⟩ := hfai
  obtain ⟨f, hf, rfl⟩ := Option.map_eq_some_iff.1 hd
  have hname := find?_some hf
  have hval : v ∈ valuesOf members f.1 :=
    List.mem_map.2 ⟨(name, v), mem_filter.2 ⟨hm, hname⟩, rfl⟩
  rw [h f (mem_of_find?_eq_some hf) v hval] at hv
  cases hv

end Decoder

end LatticeMesh
