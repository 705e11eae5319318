import LatticeMesh.Agent.PeerManager

/-! # AllowedIPs -/

namespace LatticeMesh.Transport

open Agent Text List

def prefixes (allowedIPs : String) : List String :=
  (fields ',' allowedIPs.toList).map String.ofList

def hostRoute (address : String) : String := address ++ "/32"

def mergeAllowedIPs (existing incoming : String) : String :=
  let existing := trimSpace existing
  let incoming := trimSpace incoming
  if existing = "" then incoming
  else if incoming = "" then existing
  else
    let cidrs := (split ',' (existing ++ "," ++ incoming)).map trimSpace
    join ',' (cidrs.filter (· ≠ "")).eraseDups

theorem prefixes_trimSpace (s : String) : prefixes (trimSpace s) = prefixes s := by
  unfold prefixes trimSpace
  rw [String.toList_ofList, fields_trim (by decide)]

theorem prefixes_append (a b : String) : prefixes (a ++ "," ++ b) = prefixes a ++ prefixes b := by
  have h : (a ++ "," ++ b).toList = a.toList ++ ',' :: b.toList := by simp
  unfold prefixes
  rw [h, fields_append, map_append]

theorem split_fields (s : String) :
    ((split ',' s).map trimSpace).filter (· ≠ "") = prefixes s := by
  unfold split prefixes fields
  rw [List.map_map, List.filter_map, List.filter_map, List.map_map]
  have hpred : ((fun x => decide (x ≠ "")) ∘ (trimSpace ∘ String.ofList)) =
      (fun x => decide (x ≠ [])) ∘ trim := by
    funext l
    simp [trimSpace]
  have hmap : trimSpace ∘ String.ofList = String.ofList ∘ trim := by
    funext l
    simp [trimSpace]
  rw [hpred, hmap]

theorem prefixes_join {cidrs : List String} (h : ∀ c ∈ cidrs, ∃ s, c ∈ prefixes s) :
    prefixes (join ',' cidrs) = cidrs := by
  have hfie : ∀ f ∈ cidrs.map String.toList, trim f = f ∧ ',' ∉ f ∧ f ≠ [] := by
    intro f hf
    obtain ⟨c, hc, rfl⟩ := List.mem_map.1 hf
    obtain ⟨s, hs⟩ := h c hc
    obtain ⟨g, hg, rfl⟩ := List.mem_map.1 hs
    rw [String.toList_ofList]
    exact of_mem_fields hg
  unfold prefixes join
  rw [String.toList_ofList, fields_intercalate hfie, List.map_map]
  conv_rhs => rw [← List.map_id cidrs]
  exact map_congr_left fun c _ => String.ofList_toList

theorem mem_prefixes_merge {p a b : String} :
    p ∈ prefixes (mergeAllowedIPs a b) ↔ p ∈ prefixes a ∨ p ∈ prefixes b := by
  have hemp : prefixes "" = [] := by decide
  unfold mergeAllowedIPs
  rw [← prefixes_trimSpace a, ← prefixes_trimSpace b]
  dsimp only
  split
  · next h => simp [h, hemp]
  split
  · next h => simp [h, hemp]
  rw [split_fields, prefixes_append, prefixes_join]
  · rw [mem_eraseDups, mem_append]
  intro c hc
  rw [mem_eraseDups, mem_append] at hc
  exact hc.elim (fun h => ⟨_, h⟩) fun h => ⟨_, h⟩

structure Install where
  key : Key
  allowedIPs : String
  endpoint : String
  deriving DecidableEq

def allowedLines (field value : String) : List String :=
  (split '\n' (field ++ "=" ++ value)).filterMap fun line =>
    if line.toList.take 11 = "allowed_ip=".toList then some (String.ofList (line.toList.drop 11))
    else none

def Install.allowed (i : Install) : List String :=
  (prefixes i.allowedIPs).flatMap (allowedLines "allowed_ip") ++ allowedLines "endpoint" i.endpoint

theorem allowedLines_endpoint {e : String} (h : '\n' ∉ e.toList) :
    allowedLines "endpoint" e = [] := by
  have htext : ("endpoint" ++ "=" ++ e).toList = 'e' :: ("ndpoint=".toList ++ e.toList) := by
    simp only [String.toList_append]
    rfl
  have hmem : '\n' ∉ ("endpoint" ++ "=" ++ e).toList := by
    rw [htext, mem_cons, mem_append]
    rintro (heq | hin | hin)
    · exact absurd heq (by decide)
    · exact absurd hin (by decide)
    · exact h hin
  have hhead : ("endpoint" ++ "=" ++ e).toList.take 11 ≠ "allowed_ip=".toList := by
    rw [htext, take_succ_cons]
    intro heq
    exact absurd (head_eq_of_cons_eq heq) (by decide)
  unfold allowedLines split
  rw [splitOn_eq_singleton hmem, map_singleton, String.ofList_toList]
  simp only [filterMap_cons, if_neg hhead, filterMap_nil]

end LatticeMesh.Transport
