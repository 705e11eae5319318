import LatticeMesh.Lib.Percent
import LatticeMesh.Lib.Text
import Mathlib.Data.List.Infix

/-! # The auth token in a relay address -/

namespace LatticeMesh.Relay

open Percent List

def question : UInt8 := 0x3F

def ampersand : UInt8 := 0x26

def tokenKey : List UInt8 := Text.ascii "token="

def relayURLWithToken (advertise token : List UInt8) : List UInt8 :=
  if token = [] ∨ (question :: tokenKey) <:+: advertise ∨
      (ampersand :: tokenKey) <:+: advertise then
    advertise
  else
    let sep := if question ∈ advertise then ampersand else question
    advertise ++ sep :: (tokenKey ++ queryEscape token)

def tokenOf : List (List UInt8) → List UInt8
  | [] => []
  | kv :: kvs =>
    match kv.dropPrefix? tokenKey with
    | some v => (pathUnescape v).getD v
    | none => tokenOf kvs

def splitURLToken (addr : List UInt8) : List UInt8 × List UInt8 :=
  if question ∈ addr then
    (addr.takeWhile (· ≠ question),
      tokenOf ((addr.dropWhile (· ≠ question)).tail.splitOn ampersand))
  else (addr, [])

theorem splitURLToken_append {a : List UInt8} (ha : question ∉ a) (query : List UInt8) :
    splitURLToken (a ++ question :: query) = (a, tokenOf (query.splitOn ampersand)) := by
  have hne : ∀ c ∈ a, decide (c ≠ question) = true := by
    intro c hc
    exact decide_eq_true fun e => ha (e ▸ hc)
  unfold splitURLToken
  rw [if_pos (by simp), takeWhile_append_of_pos hne, dropWhile_append_of_pos hne]
  simp

theorem tokenOf_singleton (v : List UInt8) :
    tokenOf [tokenKey ++ v] = (pathUnescape v).getD v := by
  rw [tokenOf, dropPrefix?_append_of_beq v (beq_self_eq_true tokenKey)]

theorem splitOn_token (token : List UInt8) :
    (tokenKey ++ queryEscape token).splitOn ampersand = [tokenKey ++ queryEscape token] := by
  apply splitOn_eq_singleton
  rw [mem_append, not_or]
  exact ⟨by decide +kernel, not_mem_queryEscape rfl (by decide) (by decide) token⟩

section

variable {advertise token : List UInt8} (hquestion : question ∉ advertise) (htoken : token ≠ [])

include hquestion

theorem not_infix_of_question : ¬ (question :: tokenKey) <:+: advertise :=
  fun h => hquestion (h.subset mem_cons_self)

theorem split_of_embedded (h : (ampersand :: tokenKey) <:+: advertise) :
    splitURLToken (relayURLWithToken advertise token) = (advertise, []) := by
  rw [relayURLWithToken, if_pos (.inr (.inr h)), splitURLToken, if_neg hquestion]

include htoken

theorem split_of_appended (h : ¬ (ampersand :: tokenKey) <:+: advertise) :
    splitURLToken (relayURLWithToken advertise token) = (advertise, token.map plusForSpace) := by
  have hleft : ¬ (token = [] ∨ (question :: tokenKey) <:+: advertise ∨
      (ampersand :: tokenKey) <:+: advertise) := by
    rintro (h' | h' | h')
    · exact htoken h'
    · exact not_infix_of_question hquestion h'
    · exact h h'
  rw [relayURLWithToken, if_neg hleft, if_neg hquestion, splitURLToken_append hquestion,
    splitOn_token, tokenOf_singleton, pathUnescape_queryEscape]
  rfl

/-- **Round trip of the token.** -/
theorem round_trip_iff :
    splitURLToken (relayURLWithToken advertise token) = (advertise, token) ↔
      space ∉ token ∧ ¬ (ampersand :: tokenKey) <:+: advertise := by
  by_cases h : (ampersand :: tokenKey) <:+: advertise
  · rw [split_of_embedded hquestion h]
    simp [h, htoken.symm]
  · rw [split_of_appended hquestion htoken h, Prod.mk.injEq, map_plusForSpace_eq_iff]
    simp [h]

end

theorem base64_round_trip :
    splitURLToken (relayURLWithToken (Text.ascii "10.0.0.1:6266") (Text.ascii "ab+cd/ef=")) =
      (Text.ascii "10.0.0.1:6266", Text.ascii "ab+cd/ef=") :=
  (round_trip_iff (by decide +kernel) (by decide +kernel)).2 (by decide +kernel)

theorem passphrase_changed :
    splitURLToken (relayURLWithToken (Text.ascii "10.0.0.1:6266") (Text.ascii "open sesame")) =
      (Text.ascii "10.0.0.1:6266", Text.ascii "open+sesame") ∧
    Text.ascii "open+sesame" ≠ Text.ascii "open sesame" := by
  decide +kernel

end LatticeMesh.Relay
