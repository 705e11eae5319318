import Mathlib
import LatticeMesh.Controller.ConfigHash

/-! # The order of the policies -/

namespace LatticeMesh.Controller

open Netmap List Option

variable {σ η : Type} (lib : Library σ η) (current : Peer) (allPeers : List Peer)

def getComputedPeers (policies : List (LatticePolicy σ)) : Option (List Peer) :=
  (finalPeersMap lib current allPeers policies).map fun m => sortOn Peer.name (m.toList.map Prod.snd)

def others (peers : List Peer) : List Peer := peers.filter fun p => p.name ≠ current.name

def resolved (policy : LatticePolicy σ) : Option (Option (List Peer)) := do
  let accepts ← lib.selector policy.peerSelector
  if !accepts current.labels then
    return none
  let selections := (policy.egress ++ policy.ingress).flatMap PolicyRule.selections
  let matched ← selections.mapM (resolveSelectionToPeers lib allPeers)
  return some (others current matched.flatten)

def resolutions (policies : List (LatticePolicy σ)) : List (List Peer) :=
  policies.filterMap fun p => (resolved lib current allPeers p).join

def named (peers : List Peer) (name : String) : Option Peer :=
  peers.reverse.find? fun p => p.name = name

def put (m : GoMap String Peer) (peers : List Peer) : GoMap String Peer :=
  peers.foldl (fun m p => m.set p.name p) m

def addResolution (rest : List Peer) (m : GoMap String Peer) (r : List Peer) : GoMap String Peer :=
  if (put m r).toList = [] then put (put m r) rest else put m r

variable {lib current allPeers} {m m' : GoMap String Peer} {policies : List (LatticePolicy σ)}

theorem get_put (peers : List Peer) (k : String) :
    (put m peers).get k = (named peers k).or (m.get k) := by
  induction peers generalizing m with
  | nil => rfl
  | cons p peers ih =>
    rw [put, foldl_cons, ← put, ih, GoMap.get_set, named, named, reverse_cons,
      find?_append]
    by_cases h : k = p.name
    · simp [h]
    · simp [h, Ne.symm h]

theorem toList_eq_nil_iff : m.toList = [] ↔ ∀ k, m.get k = none := by
  simp [eq_nil_iff_forall_not_mem, GoMap.mem_toList, eq_none_iff_forall_ne_some]

theorem named_eq_none {peers : List Peer} {k : String} :
    named peers k = none ↔ ∀ p ∈ peers, p.name ≠ k := by
  simp [named]

theorem toList_put_eq_nil {peers : List Peer} :
    (put m peers).toList = [] ↔ m.toList = [] ∧ peers = [] := by
  simp only [toList_eq_nil_iff, get_put, or_eq_none_iff, forall_and, named_eq_none]
  rw [and_comm]
  refine and_congr_right fun _ => ⟨fun h => ?_, fun h => by simp [h]⟩
  exact eq_nil_iff_forall_not_mem.2 fun p hp => h p.name p hp rfl

theorem addPolicy_eq (p : LatticePolicy σ) : addPolicy lib current allPeers m p =
    (resolved lib current allPeers p).map fun r =>
      r.elim m (addResolution (others current allPeers) m) := by
  unfold addPolicy resolved
  cases lib.selector p.peerSelector with
  | none => rfl
  | some accepts =>
    simp only [bind_eq_bind, bind_some]
    split
    · rfl
    cases ((p.egress ++ p.ingress).flatMap PolicyRule.selections).mapM
      (resolveSelectionToPeers lib allPeers) with
    | none => rfl
    | some matched => rfl

theorem finalPeersMap_eq : finalPeersMap lib current allPeers policies =
    if ∀ p ∈ policies, (resolved lib current allPeers p).isSome then
      some ((resolutions lib current allPeers policies).foldl
        (addResolution (others current allPeers)) .empty)
    else none := by
  unfold finalPeersMap
  generalize GoMap.empty = m
  induction policies generalizing m with
  | nil => simp [resolutions]
  | cons p policies ih =>
    rw [foldlM_cons, addPolicy_eq]
    cases h : resolved lib current allPeers p with
    | none => simp [h]
    | some r =>
      cases r <;> simp [h, ih, resolutions]

def layers (rest : List Peer) : List (List Peer) → List Peer
  | [] => []
  | r :: rs => (if r = [] then rest else r) ++ rs.flatten

variable {rest : List Peer} {rs : List (List Peer)} {k : String}

theorem foldl_addResolution (hm : m.toList ≠ [] ∨ rest = []) :
    rs.foldl (addResolution rest) m = put m rs.flatten := by
  induction rs generalizing m with
  | nil => rfl
  | cons r rs ih =>
    have hstep : addResolution rest m r = put m r := by
      unfold addResolution
      obtain hm | rfl := hm
      · rw [if_neg fun h => hm (toList_put_eq_nil.1 h).1]
      · exact ite_self _
    rw [foldl_cons, hstep, ih (hm.imp_left fun h h' => h (toList_put_eq_nil.1 h').1)]
    simp [put, foldl_append]

theorem foldl_addResolution_empty :
    rs.foldl (addResolution rest) .empty = put .empty (layers rest rs) := by
  cases rs with
  | nil => rfl
  | cons r rs =>
    have hstep : addResolution rest .empty r = put .empty (if r = [] then rest else r) := by
      unfold addResolution
      by_cases hr : r = []
      · subst hr
        rfl
      · rw [if_neg fun h => hr (toList_put_eq_nil.1 h).2, if_neg hr]
    rw [foldl_cons, hstep, foldl_addResolution, layers, put, put, put, foldl_append]
    by_cases hrest : rest = []
    · exact .inr hrest
    refine .inl fun h => ?_
    have := (toList_put_eq_nil.1 h).2
    split at this <;> contradiction

theorem sortOn_eq_iff (hm : FiledByName m) (hm' : FiledByName m') :
    sortOn Peer.name (m.toList.map Prod.snd) = sortOn Peer.name (m'.toList.map Prod.snd) ↔
      ∀ k, m.get k = m'.get k := by
  have hmem {m : GoMap String Peer} (hm : FiledByName m) (k : String) (p : Peer) :
      m.get k = some p ↔ p ∈ sortOn Peer.name (m.toList.map Prod.snd) ∧ p.name = k := by
    simp only [mem_sortOn, List.mem_map, Prod.exists, exists_eq_right, GoMap.mem_toList]
    refine ⟨fun h => ⟨⟨k, h⟩, hm k p h⟩, ?_⟩
    rintro ⟨⟨k', h⟩, rfl⟩
    exact hm k' p h ▸ h
  constructor
  · intro heq k
    refine Option.ext fun p => ?_
    rw [hmem hm, hmem hm', heq]
  intro heq
  refine sortOn_eq_of_perm (List.Perm.map _ ?_) ?_
  · refine (perm_ext_iff_of_nodup m.nodup_toList m'.nodup_toList).2 fun e => ?_
    rw [GoMap.mem_toList, GoMap.mem_toList, heq]
  intro p hp q hq hname
  have hp := (hmem hm p.name p).2 ⟨mem_sortOn.2 hp, rfl⟩
  rw [hname, (hmem hm q.name q).2 ⟨mem_sortOn.2 hq, rfl⟩] at hp
  exact (Option.some.inj hp).symm

theorem getComputedPeers_eq_iff {policies' : List (LatticePolicy σ)}
    (hsome : ∀ p ∈ policies, (resolved lib current allPeers p).isSome)
    (hsome' : ∀ p ∈ policies', (resolved lib current allPeers p).isSome) :
    getComputedPeers lib current allPeers policies' =
        getComputedPeers lib current allPeers policies ↔
      ∀ k, named (layers (others current allPeers) (resolutions lib current allPeers policies')) k =
        named (layers (others current allPeers) (resolutions lib current allPeers policies)) k := by
  have hfinal {policies : List (LatticePolicy σ)}
      (hsome : ∀ p ∈ policies, (resolved lib current allPeers p).isSome) :
      finalPeersMap lib current allPeers policies = some (put .empty
        (layers (others current allPeers) (resolutions lib current allPeers policies))) := by
    rw [finalPeersMap_eq, if_pos hsome, foldl_addResolution_empty]
  unfold getComputedPeers
  rw [hfinal hsome, hfinal hsome', map_some, map_some, Option.some.injEq,
    sortOn_eq_iff (finalPeersMap_filed (hfinal hsome')) (finalPeersMap_filed (hfinal hsome))]
  simp [get_put]

def Orderless (rest : List Peer) (rs : List (List Peer)) : Prop :=
  (∀ r ∈ rs, ∀ r' ∈ rs, ∀ k p p', named r k = some p → named r' k = some p' → p = p') ∧
    ([] ∈ rs → (∃ r ∈ rs, r ≠ []) → ∀ p ∈ rest, ∃ r ∈ rs, ∃ q ∈ r, q.name = p.name)

theorem named_append (l l' : List Peer) : named (l ++ l') k = (named l' k).or (named l k) := by
  simp [named, find?_append]

theorem named_flatten_eq_none : named rs.flatten k = none ↔ ∀ r ∈ rs, named r k = none := by
  simp only [named_eq_none, mem_flatten]
  grind

theorem named_flatten {p : Peer}
    (h : ∀ r ∈ rs, ∀ r' ∈ rs, ∀ k p p', named r k = some p → named r' k = some p' → p = p') :
    named rs.flatten k = some p ↔ ∃ r ∈ rs, named r k = some p := by
  induction rs with
  | nil => simp [named]
  | cons r rs ih =>
    have ih := ih fun r hr r' hr' =>
      h r (mem_cons_of_mem _ hr) r' (mem_cons_of_mem _ hr')
    rw [flatten_cons, named_append, or_eq_some_iff, ih, exists_mem_cons_iff,
      named_flatten_eq_none]
    constructor
    · rintro (h | ⟨-, h⟩)
      · exact .inr h
      · exact .inl h
    rintro (hr | hex)
    · by_cases hnone : ∀ r ∈ rs, named r k = none
      · exact .inr ⟨hnone, hr⟩
      push Not at hnone
      obtain ⟨r', hmem, hne⟩ := hnone
      obtain ⟨p', hp'⟩ := ne_none_iff_exists'.1 hne
      have heq := h r mem_cons_self r' (mem_cons_of_mem _ hmem) k p p' hr hp'
      exact .inl ⟨r', hmem, heq ▸ hp'⟩
    · exact .inl hex

theorem mem_of_named {l : List Peer} {p : Peer} (h : named l k = some p) : p ∈ l ∧ p.name = k :=
  ⟨mem_reverse.1 (mem_of_find?_eq_some h), by simpa using find?_some h⟩

theorem named_layers (h : Orderless rest rs) (p : Peer) :
    named (layers rest rs) k = some p ↔ (∃ r ∈ rs, named r k = some p) ∨
      ([] ∈ rs ∧ ¬∃ r ∈ rs, r ≠ []) ∧ named rest k = some p := by
  obtain ⟨hagree, hcover⟩ := h
  rw [← named_flatten hagree]
  cases rs with
  | nil => simp [layers]
  | cons r rs =>
    by_cases hr : r = []
    · subst hr
      rw [layers, if_pos rfl, named_append, or_eq_some_iff, flatten_cons, nil_append]
      refine or_congr_right ⟨?_, ?_⟩
      · rintro ⟨hnone, hp⟩
        refine ⟨⟨mem_cons_self, fun hex => ?_⟩, hp⟩
        obtain ⟨hmem, hname⟩ := mem_of_named hp
        obtain ⟨r', hr', q, hq, hqn⟩ := hcover mem_cons_self hex p hmem
        refine named_eq_none.1 hnone q ?_ (hqn.trans hname)
        exact mem_flatten.2
          ⟨r', (mem_cons.1 hr').resolve_left (ne_nil_of_mem hq), hq⟩
      rintro ⟨⟨-, hno⟩, hp⟩
      have hnil : rs.flatten = [] := flatten_eq_nil_iff.2 fun r' hr' => by
        by_contra hne
        exact hno ⟨r', mem_cons_of_mem _ hr', hne⟩
      exact ⟨by simp [hnil, named], hp⟩
    · rw [layers, if_neg hr, flatten_cons, iff_self_or]
      exact fun hno => absurd ⟨r, mem_cons_self, hr⟩ hno.1.2

theorem named_layers_concat {r : List Peer} {p : Peer} (h : named r k = some p) :
    named (layers rest (rs ++ [r])) k = some p := by
  cases rs with
  | nil =>
    have hr : r ≠ [] := ne_nil_of_mem (mem_of_named h).1
    simpa [layers, hr] using h
  | cons r' rs => simp [layers, named_append, h]

theorem Orderless.perm {rs' : List (List Peer)} (h : Orderless rest rs) (hp : rs'.Perm rs) :
    Orderless rest rs' := by
  unfold Orderless at h ⊢
  simpa only [hp.mem_iff] using h

theorem orderless_of_forall_perm (h : ∀ rs' : List (List Peer), rs'.Perm rs →
      ∀ k, named (layers rest rs') k = named (layers rest rs) k) : Orderless rest rs := by
  constructor
  · intro r hr r' hr' k p p' hp hp'
    have hlast {r : List Peer} {p : Peer} (hr : r ∈ rs) (hp : named r k = some p) :
        named (layers rest rs) k = some p := by
      obtain ⟨rs', hrs'⟩ := exists_perm_cons hr
      rw [← h (rs' ++ [r]) ((perm_append_singleton r rs').trans hrs'.symm)]
      exact named_layers_concat hp
    exact Option.some.inj ((hlast hr hp).symm.trans (hlast hr' hp'))
  rintro hnil ⟨r, hr, hne⟩ p hp
  obtain ⟨rs', hrs'⟩ := exists_perm_cons hnil
  obtain ⟨rs'', hrs''⟩ := exists_perm_cons hr
  have heq := (h _ hrs'.symm p.name).trans (h _ hrs''.symm p.name).symm
  have hsome : named (layers rest ([] :: rs')) p.name ≠ none := by
    refine fun hnone => named_eq_none.1 hnone p ?_ rfl
    simp [layers, hp]
  rw [heq, layers, if_neg hne, ← flatten_cons] at hsome
  obtain ⟨q, hq⟩ := ne_none_iff_exists'.1 hsome
  obtain ⟨hmem, hname⟩ := mem_of_named hq
  obtain ⟨r', hr', hqr⟩ := mem_flatten.1 hmem
  exact ⟨r', hrs''.mem_iff.2 hr', q, hqr, hname⟩

theorem exists_perm_filterMap {α β : Type} {f : α → Option β} {l : List α} {bs : List β}
    (h : bs.Perm (l.filterMap f)) : ∃ l' : List α, l'.Perm l ∧ l'.filterMap f = bs := by
  induction bs generalizing l with
  | nil => exact ⟨l, .rfl, h.nil_eq.symm⟩
  | cons b bs ih =>
    obtain ⟨x, hx, hfx⟩ := mem_filterMap.1 (h.mem_iff.1 mem_cons_self)
    obtain ⟨rest, hrest⟩ := exists_perm_cons hx
    have htail := h.trans (hrest.filterMap f)
    rw [filterMap_cons_some hfx] at htail
    obtain ⟨l', hl', heq⟩ := ih htail.cons_inv
    exact ⟨x :: l', (hl'.cons x).trans hrest.symm, by rw [filterMap_cons_some hfx, heq]⟩

/-- **The order of the policies.** Every order of the policies gives the same peers exactly if none
does, because a selector does not parse, or the resolutions have no order. -/
theorem computed_peers_order_iff (lib : Library σ η) (current : Peer) (allPeers : List Peer)
    (policies : List (LatticePolicy σ)) :
    (∀ policies' : List (LatticePolicy σ), policies'.Perm policies →
        getComputedPeers lib current allPeers policies' =
          getComputedPeers lib current allPeers policies) ↔
      (∃ p ∈ policies, resolved lib current allPeers p = none) ∨
        Orderless (others current allPeers) (resolutions lib current allPeers policies) := by
  by_cases hsome : ∀ p ∈ policies, (resolved lib current allPeers p).isSome
  · have hno : ¬∃ p ∈ policies, resolved lib current allPeers p = none := by
      rintro ⟨p, hp, hnone⟩
      simpa [hnone] using hsome p hp
    rw [or_iff_right hno]
    constructor
    · intro h
      refine orderless_of_forall_perm fun rs' hrs' => ?_
      obtain ⟨policies', hperm, rfl⟩ := exists_perm_filterMap hrs'
      have hsome' := fun p hp => hsome p (hperm.mem_iff.1 hp)
      exact (getComputedPeers_eq_iff hsome hsome').1 (h policies' hperm)
    intro h policies' hperm
    have hrs : (resolutions lib current allPeers policies').Perm
        (resolutions lib current allPeers policies) := hperm.filterMap _
    have hsome' := fun p hp => hsome p (hperm.mem_iff.1 hp)
    refine (getComputedPeers_eq_iff hsome hsome').2 fun k => Option.ext fun p => ?_
    rw [named_layers h, named_layers (h.perm hrs)]
    simp only [hrs.mem_iff]
  refine iff_of_true (fun policies' hperm => ?_) (.inl ?_)
  · simp only [getComputedPeers, finalPeersMap_eq, hperm.mem_iff, hsome, if_false]
  · simpa using hsome

def labelled (name : String) (labels : Labels) : Peer :=
  ⟨0, name, "", "", "", none, "", "", "", "", "", "", "", .unset, labels, []⟩

def selecting (egress : List (PolicyRule (Labels → Bool))) : LatticePolicy (Labels → Bool) :=
  ⟨"", "", fun _ => true, [], egress, ""⟩

theorem policy_order_matters :
    let lib : Library (Labels → Bool) Unit := { Library.plain with selector := some }
    let a := labelled "a" ⟨[("role", "db")], pairwise_singleton _ _⟩
    let b := labelled "b" .empty
    let one := selecting [⟨[⟨some fun l => l ≠ .empty, none⟩], []⟩]
    getComputedPeers lib (labelled "c" .empty) [a, b] [one, selecting []] = some [a] ∧
      getComputedPeers lib (labelled "c" .empty) [a, b] [selecting [], one] = some [a, b] := by
  decide +kernel

end LatticeMesh.Controller
