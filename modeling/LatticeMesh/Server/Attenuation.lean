import LatticeMesh.Server.Delegation

/-! # Attenuation along delegations -/

namespace LatticeMesh.AgentRegistration

open List GoMap

structure History where
  requests : GoMap ℕ DelegateRequest := GoMap.empty
  delegated : List (String × DelegateRequest) := []
  issued : List (String × AgentClaims) := []
  applied : List Key := []

def History.record (s : Pool Shared Point) (g : History) : Move Outcome Event → History
  | .env (.delegate req) => { g with requests := g.requests.set s.threads.length req }
  | .env (.apply key _) => { g with applied := g.applied ++ [key] }
  | .env _ => g
  | .run i o =>
    match s.threads[i]? with
    | some (.createToken _ _) =>
      if creates o s.shared.tokens o.fresh then
        { g with
          delegated := g.delegated ++ ((g.requests.get i).map fun req => (o.fresh, req)).toList }
      else g
    | some (.issueAgentJWT req tok) =>
      if o.err.isSome then g
      else { g with
        issued := g.issued ++ [(req.enrollmentToken, newClaims s.shared.now req tok)] }
    | _ => g

def recorded : LTS (Pool Shared Point × History) (Move Outcome Event) :=
  program.system.recording {} History.record

inductive Inherits (g : History) (ancestor : AgentClaims) : String → Prop
  | child {token : String} {req : DelegateRequest} (h : (token, req) ∈ g.delegated)
      (hderive : req.roleName = "") (hparent : req.parentJWT = ancestor) : Inherits g ancestor token
  | further {parent token : String} {req : DelegateRequest} (hancestor : Inherits g ancestor parent)
      (hparent : (parent, req.parentJWT) ∈ g.issued) (h : (token, req) ∈ g.delegated)
      (hderive : req.roleName = "") : Inherits g ancestor token

def Shared.grant (s : Shared) (token : String) : Option (List String × String) :=
  (s.tokens.get token).map fun tok => (tok.allowedTools, tok.allowedNamespace)

def Shared.spec (s : Shared) (key : Key) : Option (List String × List String) :=
  (s.identities.get key).map fun id => (id.allowedTools, id.allowedNamespaces)

structure Grows (s t : Shared) : Prop where
  grant : ∀ token g, s.grant token = some g → t.grant token = some g
  registrations : s.registrations ⊆ t.registrations
  jwts : s.jwts ⊆ t.jwts

section

variable {o : Outcome} {s t : Shared} {p : Point} {key : Key}

theorem grant_effect {token : String} {g : List String × String} (h : s.grant token = some g) :
    (effect o s p).grant token = some g := by
  obtain hsame | ⟨-, hmar⟩ | hnone := tokens_effect o s p token
  · rw [← h]
    exact congrArg _ hsame
  · rw [← h]
    unfold Shared.grant
    rw [hmar, Option.map_map]
    rfl
  unfold Shared.grant at h
  rw [hnone] at h
  cases h

theorem grows_effect (o : Outcome) (s : Shared) (p : Point) : Grows s (effect o s p) := by
  refine ⟨fun token g => grant_effect, ?_, ?_⟩
  · cases p with
    | createIdentity req tok =>
      unfold effect
      dsimp only
      split
      · exact subset_append_left _ _
      · exact List.Subset.refl _
    | createPeer _ _ _ | issueAgentJWT _ _ | deletePeer _ _ | patchRevoked _ | markUsed _ _
    | createToken _ _ =>
      unfold effect
      dsimp only
      split <;> exact List.Subset.refl _
    | _ => exact List.Subset.refl _
  cases p with
  | issueAgentJWT req tok =>
    unfold effect
    dsimp only
    split
    · exact List.Subset.refl _
    · exact subset_append_left _ _
  | createPeer _ _ _ | createIdentity _ _ | deletePeer _ _ | patchRevoked _ | markUsed _ _
  | createToken _ _ =>
    unfold effect
    dsimp only
    split <;> exact List.Subset.refl _
  | _ => exact List.Subset.refl _

theorem spec_setPhase (key' : Key) (phase : AgentPhase) :
    (s.setPhase key' phase).spec key = s.spec key := by
  unfold Shared.spec Shared.setPhase
  rw [GoMap.get_modify]
  split
  · next hkey =>
    rw [hkey, Option.map_map]
    rfl
  · rfl

theorem spec_effect {v : List String × List String} (h : s.spec key = some v) :
    (effect o s p).spec key = some v := by
  cases p with
  | createIdentity req tok =>
    unfold effect
    dsimp only
    split
    · next hcre =>
      have hne : key ≠ registeredKey req tok := by
        rintro rfl
        have hnone := (Bool.and_eq_true_iff.1 hcre).2
        rw [Option.isNone_iff_eq_none] at hnone
        unfold Shared.spec at h
        rw [hnone] at h
        cases h
      unfold Shared.spec
      dsimp only
      rw [get_set, if_neg hne]
      exact h
    · exact h
  | patchRevoked key' =>
    unfold effect
    dsimp only
    split
    · exact (spec_setPhase ..).trans h
    · exact h
  | createPeer _ _ _ | issueAgentJWT _ _ | deletePeer _ _ | markUsed _ _ | createToken _ _ =>
    unfold effect
    dsimp only
    split <;> exact h
  | _ => exact h

variable {e : Event} {new : List Point}

theorem grows_env (h : Env s e t new) : Grows s t := by
  cases h with
  | enroll tok hnone =>
    refine ⟨fun token g hg => ?_, List.Subset.refl _, List.Subset.refl _⟩
    have hne : token ≠ tok.token := by
      rintro rfl
      unfold Shared.grant at hg
      rw [hnone] at hg
      cases hg
    unfold Shared.grant
    dsimp only
    rw [get_set, if_neg hne]
    exact hg
  | _ => exact ⟨fun _ _ => id, List.Subset.refl _, List.Subset.refl _⟩

theorem spec_env (h : Env s e t new) (hne : ∀ identity, e ≠ .apply key identity) :
    t.spec key = s.spec key := by
  cases h with
  | apply key' identity =>
    have hkey : key ≠ key' := by
      rintro rfl
      exact hne identity rfl
    unfold Shared.spec
    dsimp only
    rw [get_set, if_neg hkey]
  | activate key' | expire key' => exact spec_setPhase ..
  | _ => rfl

theorem registrations_env (h : Env s e t new) :
    t.registrations = s.registrations ∧ t.jwts = s.jwts := by
  cases h <;> exact ⟨rfl, rfl⟩

end

def Justified (s : Shared) (g : History) (i : ℕ) : Point → Prop
  | .listNetworks req tok | .createPeer req tok _ | .createIdentity req tok =>
    s.grant req.enrollmentToken = some (tok.allowedTools, tok.allowedNamespace)
  | .markUsed req tok | .issueAgentJWT req tok =>
    s.grant req.enrollmentToken = some (tok.allowedTools, tok.allowedNamespace) ∧
      (req.enrollmentToken, registeredKey req tok) ∈ s.registrations
  | .validateAgentJWT req => g.requests.get i = some req
  | .parentIdentity claims _ | .roleIdentity claims _ => ∃ req, g.requests.get i = some req ∧
      req.parentJWT = claims ∧ claims ∈ s.jwts ∧ req.roleName ≠ ""
  | .createToken claims tools => ∃ req, g.requests.get i = some req ∧
      req.parentJWT = claims ∧ claims ∈ s.jwts ∧ (req.roleName = "" → tools ⊆ claims.allowedTools)
  | _ => True

structure Attenuated (s : Pool Shared Point) (g : History) : Prop where
  delegated : ∀ token req, (token, req) ∈ g.delegated → req.parentJWT ∈ s.shared.jwts ∧
    (req.roleName = "" → ∃ tools, s.shared.grant token = some (tools, req.parentJWT.ns) ∧
      tools ⊆ req.parentJWT.allowedTools)
  issued : ∀ token c, (token, c) ∈ g.issued →
    s.shared.grant token = some (c.allowedTools, c.ns) ∧ (token, c.key) ∈ s.shared.registrations
  jwts : ∀ c ∈ s.shared.jwts, ∃ token, (token, c) ∈ g.issued
  registered : ∀ token key, (token, key) ∈ s.shared.registrations →
    ∃ tools, s.shared.grant token = some (tools, key.ns) ∧
      (key ∉ g.applied → s.shared.spec key = some (tools, [key.ns]))
  calls : ∀ i p, s.threads[i]? = some p → Justified s.shared g i p

section

variable {o : Outcome} {s t : Shared} {g g' : History} {i : ℕ} {p : Point}

theorem Justified.mono (h : Justified s g i p) (hgr : Grows s t)
    (hrequ : g'.requests.get i = g.requests.get i) : Justified t g' i p := by
  cases p with
  | listNetworks req tok | createPeer req tok network | createIdentity req tok =>
    exact hgr.grant _ _ h
  | markUsed req tok | issueAgentJWT req tok =>
    exact ⟨hgr.grant _ _ h.1, hgr.registrations h.2⟩
  | validateAgentJWT req => exact hrequ.trans h
  | parentIdentity claims roleName | roleIdentity claims roleName | createToken claims tools =>
    obtain ⟨req, hreq, hpar, hclm, hrest⟩ := h
    exact ⟨req, hrequ.trans hreq, hpar, hgr.jwts hclm, hrest⟩
  | _ => trivial

theorem Justified.next (h : Justified s g i p) :
    Justified (effect o s p) g i (AgentRegistration.next o s p) := by
  have hgr := grows_effect o s p
  cases p with
  | getByToken req =>
    unfold AgentRegistration.next
    dsimp only
    split
    · trivial
    next tok htok =>
    split at htok
    · cases htok
    have hgra : s.grant req.enrollmentToken = some (tok.allowedTools, tok.allowedNamespace) :=
      Option.map_eq_some_iff.2 ⟨tok, htok, rfl⟩
    split
    · trivial
    split
    · trivial
    · exact hgra
  | listNetworks req tok => exact h
  | createPeer req tok network =>
    unfold AgentRegistration.next
    dsimp only
    split
    · exact hgr.grant _ _ h
    · trivial
  | createIdentity req tok =>
    unfold AgentRegistration.next
    dsimp only
    split
    · next hcre =>
      refine ⟨hgr.grant _ _ h, ?_⟩
      unfold effect
      dsimp only
      rw [if_pos hcre]
      exact mem_append_right _ (mem_singleton_self _)
    · trivial
  | markUsed req tok => exact ⟨hgr.grant _ _ h.1, hgr.registrations h.2⟩
  | issueAgentJWT req tok =>
    unfold AgentRegistration.next
    dsimp only
    split <;> trivial
  | validateAgentJWT req =>
    unfold AgentRegistration.next
    dsimp only
    split
    · next hval =>
      split
      · next hrole => exact ⟨req, h, rfl, hgr.jwts hval.1, hrole⟩
      split
      · trivial
      next hfind =>
      refine ⟨req, h, rfl, hgr.jwts hval.1, fun _ tool htool => ?_⟩
      simpa using find?_eq_none.1 hfind tool htool
    · trivial
  | parentIdentity claims roleName =>
    unfold AgentRegistration.next
    dsimp only
    split
    · trivial
    split
    · exact h
    · trivial
  | roleIdentity claims roleName =>
    unfold AgentRegistration.next
    dsimp only
    split
    · trivial
    · obtain ⟨req, hreq, hpar, hclm, hrole⟩ := h
      exact ⟨req, hreq, hpar, hclm, fun hemp => absurd hemp hrole⟩
  | _ =>
    unfold AgentRegistration.next
    dsimp only
    (repeat' split) <;> trivial

theorem record_run {s : Pool Shared Point} (hi : s.threads[i]? = some p)
    (h : Justified s.shared g i p) :
    (g.record s (.run i o)).requests = g.requests ∧ (g.record s (.run i o)).applied = g.applied ∧
    (∀ token req, (token, req) ∈ (g.record s (.run i o)).delegated → (token, req) ∈ g.delegated ∨
      req.parentJWT ∈ s.shared.jwts ∧ (req.roleName = "" →
        ∃ tools, (effect o s.shared p).grant token = some (tools, req.parentJWT.ns) ∧
          tools ⊆ req.parentJWT.allowedTools)) ∧
    (∀ token c, (token, c) ∈ (g.record s (.run i o)).issued → (token, c) ∈ g.issued ∨
      s.shared.grant token = some (c.allowedTools, c.ns) ∧
        (token, c.key) ∈ s.shared.registrations) ∧
    g.issued ⊆ (g.record s (.run i o)).issued ∧
    ∀ c ∈ (effect o s.shared p).jwts, c ∈ s.shared.jwts ∨
      ∃ token, (token, c) ∈ (g.record s (.run i o)).issued := by
  unfold History.record
  dsimp only
  rw [hi]
  cases p with
  | createToken claims tools =>
    dsimp only
    obtain ⟨req, hreq, hpar, hclm, htoo⟩ := h
    split
    · next hcre =>
      refine ⟨rfl, rfl, fun token req' hmem => ?_, fun _ _ => .inl, List.Subset.refl _, ?_⟩
      · rw [hreq] at hmem
        obtain hmem | hmem := mem_append.1 hmem
        · exact .inl hmem
        obtain ⟨rfl, rfl⟩ := Prod.mk.inj (mem_singleton.1 hmem)
        refine .inr ⟨hpar ▸ hclm, fun hrole => ⟨tools, ?_, hpar ▸ htoo hrole⟩⟩
        unfold effect
        dsimp only
        rw [if_pos hcre]
        unfold Shared.grant
        dsimp only
        rw [get_set, if_pos rfl, hpar]
        rfl
      intro c hc
      unfold effect at hc
      dsimp only at hc
      rw [if_pos hcre] at hc
      exact .inl hc
    next hcre =>
    refine ⟨rfl, rfl, fun _ _ => .inl, fun _ _ => .inl, List.Subset.refl _, fun c hc => ?_⟩
    unfold effect at hc
    dsimp only at hc
    rw [if_neg hcre] at hc
    exact .inl hc
  | issueAgentJWT req tok =>
    dsimp only
    unfold effect
    dsimp only
    split
    · exact ⟨rfl, rfl, fun _ _ => .inl, fun _ _ => .inl, List.Subset.refl _, fun _ => .inl⟩
    refine ⟨rfl, rfl, fun _ _ => .inl, fun token c hmem => ?_, subset_append_left _ _, ?_⟩
    · obtain hmem | hmem := mem_append.1 hmem
      · exact .inl hmem
      · obtain ⟨rfl, rfl⟩ := Prod.mk.inj (mem_singleton.1 hmem)
        exact .inr h
    intro c hc
    obtain hc | hc := mem_append.1 hc
    · exact .inl hc
    · rw [mem_singleton.1 hc]
      exact .inr ⟨_, mem_append_right _ (mem_singleton_self _)⟩
  | createPeer _ _ _ | createIdentity _ _ | deletePeer _ _ | patchRevoked _ | markUsed _ _ =>
    refine ⟨rfl, rfl, fun _ _ => .inl, fun _ _ => .inl, List.Subset.refl _, fun c hc => .inl ?_⟩
    unfold effect at hc
    dsimp only at hc
    split at hc <;> exact hc
  | _ => exact ⟨rfl, rfl, fun _ _ => .inl, fun _ _ => .inl, List.Subset.refl _, fun _ => .inl⟩

theorem registrations_of_effect {token : String} {key : Key} (h : Justified s g i p)
    (hmem : (token, key) ∈ (effect o s p).registrations) : (token, key) ∈ s.registrations ∨
      ∃ tools, s.grant token = some (tools, key.ns) ∧
        (effect o s p).spec key = some (tools, [key.ns]) := by
  cases p with
  | createIdentity req tok =>
    unfold effect at hmem ⊢
    dsimp only at hmem ⊢
    split at hmem
    · next hcre =>
      obtain hmem | hmem := mem_append.1 hmem
      · exact .inl hmem
      obtain ⟨rfl, rfl⟩ := Prod.mk.inj (mem_singleton.1 hmem)
      refine .inr ⟨tok.allowedTools, h, ?_⟩
      rw [if_pos hcre]
      unfold Shared.spec
      dsimp only
      rw [get_set, if_pos rfl]
      rfl
    · exact .inl hmem
  | createPeer _ _ _ | issueAgentJWT _ _ | deletePeer _ _ | patchRevoked _ | markUsed _ _
  | createToken _ _ =>
    unfold effect at hmem
    dsimp only at hmem
    split at hmem <;> exact .inl hmem
  | _ => exact .inl hmem

end

section

variable {s : Pool Shared Point} {g : History}

theorem Attenuated.run {i : ℕ} {o : Outcome} {p : Point} (hs : Attenuated s g)
    (hi : s.threads[i]? = some p) :
    Attenuated (program.after s i o p) (g.record s (.run i o)) := by
  have hgr : Grows s.shared (program.after s i o p).shared := grows_effect o s.shared p
  have hp := hs.calls i p hi
  obtain ⟨hreq, happ, hdel, hiss, hkept, hjwts⟩ := record_run (o := o) hi hp
  refine ⟨fun token req hmem => ?_, fun token c hmem => ?_, fun c hc => ?_,
    fun token key hmem => ?_, fun j q hq => ?_⟩
  · obtain hmem | ⟨hpar, hder⟩ := hdel token req hmem
    · obtain ⟨hpar, hder⟩ := hs.delegated token req hmem
      refine ⟨hgr.jwts hpar, fun hrole => ?_⟩
      obtain ⟨tools, hgra, hsub⟩ := hder hrole
      exact ⟨tools, hgr.grant _ _ hgra, hsub⟩
    · exact ⟨hgr.jwts hpar, hder⟩
  · obtain ⟨hgra, hreg⟩ := (hiss token c hmem).elim (hs.issued token c) id
    exact ⟨hgr.grant _ _ hgra, hgr.registrations hreg⟩
  · obtain hc | hc := hjwts c hc
    · obtain ⟨token, htk⟩ := hs.jwts c hc
      exact ⟨token, hkept htk⟩
    · exact hc
  · rw [happ]
    obtain hmem | ⟨tools, hgra, hspec⟩ := registrations_of_effect hp hmem
    · obtain ⟨tools, hgra, hspec⟩ := hs.registered token key hmem
      exact ⟨tools, hgr.grant _ _ hgra, fun hkey => spec_effect (hspec hkey)⟩
    · exact ⟨tools, hgr.grant _ _ hgra, fun _ => hspec⟩
  by_cases hij : i = j
  · subst hij
    rw [Program.getElem?_after_self hi] at hq
    obtain rfl := Option.some.inj hq
    exact hp.next.mono ⟨fun _ _ => id, List.Subset.refl _, List.Subset.refl _⟩
      (by rw [hreq])
  have hq : s.threads[j]? = some q := by
    unfold Program.after at hq
    rw [show program.spawn o s.shared p = [] from rfl, append_nil,
      getElem?_set_ne hij] at hq
    exact hq
  exact (hs.calls j q hq).mono hgr (by rw [hreq])

theorem Attenuated.env {e : Event} {t : Shared} {new : List Point} (hs : Attenuated s g)
    (h : Env s.shared e t new) : Attenuated ⟨t, s.threads ++ new⟩ (g.record s (.env e)) := by
  have hgr := grows_env h
  obtain ⟨hreg, hjwts⟩ := registrations_env h
  have hsame : (g.record s (.env e)).delegated = g.delegated ∧
      (g.record s (.env e)).issued = g.issued ∧ g.applied ⊆ (g.record s (.env e)).applied := by
    cases h with
    | apply key identity => exact ⟨rfl, rfl, subset_append_left _ _⟩
    | _ => exact ⟨rfl, rfl, List.Subset.refl _⟩
  obtain ⟨hdel, hiss, happ⟩ := hsame
  refine ⟨fun token req hmem => ?_, fun token c hmem => ?_, fun c hc => ?_,
    fun token key hmem => ?_, fun i p hi => ?_⟩
  · obtain ⟨hpar, hder⟩ := hs.delegated token req (hdel ▸ hmem)
    refine ⟨hgr.jwts hpar, fun hrole => ?_⟩
    obtain ⟨tools, hgra, hsub⟩ := hder hrole
    exact ⟨tools, hgr.grant _ _ hgra, hsub⟩
  · obtain ⟨hgra, hregi⟩ := hs.issued token c (hiss ▸ hmem)
    exact ⟨hgr.grant _ _ hgra, hgr.registrations hregi⟩
  · rw [hiss]
    exact hs.jwts c (hjwts ▸ hc)
  · obtain ⟨tools, hgra, hspec⟩ := hs.registered token key (hreg ▸ hmem)
    refine ⟨tools, hgr.grant _ _ hgra, fun hkey => ?_⟩
    rw [spec_env h ?_]
    · exact hspec fun hold => hkey (happ hold)
    · rintro identity rfl
      exact hkey (mem_append_right _ (mem_singleton_self _))
  by_cases hlt : i < s.threads.length
  · rw [getElem?_append_left hlt] at hi
    refine (hs.calls i p hi).mono hgr ?_
    cases h with
    | delegate req =>
      exact (get_set ..).trans (if_neg (Nat.ne_of_lt hlt))
    | _ => rfl
  have hnew : new[i - s.threads.length]? = some p := by
    rwa [getElem?_append_right (Nat.le_of_not_lt hlt)] at hi
  have hp : p ∈ new := mem_of_getElem? hnew
  cases h with
  | delegate req =>
    have hidx : i = s.threads.length := by
      obtain ⟨hbou, -⟩ := List.getElem?_eq_some_iff.1 hnew
      simp only [length_singleton] at hbou
      omega
    rw [mem_singleton.1 hp, hidx]
    exact (get_set ..).trans (if_pos rfl)
  | register req | revoke key =>
    rw [mem_singleton.1 hp]
    trivial
  | _ => cases hp

theorem Attenuated.reachable (h : recorded.Reachable (s, g)) : Attenuated s g := by
  refine h.invariant (I := fun x => Attenuated x.1 x.2) ?_ ?_
  · rintro ⟨⟨shared, threads⟩, g⟩ ⟨⟨rfl, rfl⟩, rfl⟩
    constructor <;> intros <;> rename_i h <;> cases h
  rintro ⟨s, g⟩ l ⟨t, g'⟩ - hs ⟨hstep, rfl⟩
  cases hstep with
  | run hi _ => exact hs.run hi
  | env he => exact hs.env he

theorem exists_recorded (h : program.system.Reachable s) : ∃ g, recorded.Reachable (s, g) :=
  h.exists_recording ({} : History) History.record

theorem Attenuated.inherits (hs : Attenuated s g) {ancestor : AgentClaims} {token : String}
    (h : Inherits g ancestor token) : ancestor ∈ s.shared.jwts ∧
      ∃ tools, s.shared.grant token = some (tools, ancestor.ns) ∧
        tools ⊆ ancestor.allowedTools := by
  induction h with
  | child hmem hder hpar =>
    subst hpar
    obtain ⟨hjwt, hgr⟩ := hs.delegated _ _ hmem
    exact ⟨hjwt, hgr hder⟩
  | further _ hpar hmem hder ih =>
    obtain ⟨hjwt, tools, hgr, hsub⟩ := ih
    obtain ⟨tools', hgr', hsub'⟩ := (hs.delegated _ _ hmem).2 hder
    obtain ⟨rfl, hns⟩ := Prod.mk.inj (Option.some.inj ((hs.issued _ _ hpar).1.symm.trans hgr))
    exact ⟨hjwt, tools', hns ▸ hgr', List.Subset.trans hsub' hsub⟩

/-- **Attenuation.** Identities that an administrator has written count for neither side. -/
theorem delegation_attenuates (h : recorded.Reachable (s, g)) {ancestor : AgentClaims}
    {token : String} (hinherits : Inherits g ancestor token) :
    ancestor ∈ s.shared.jwts ∧
    (ancestor.key ∉ g.applied →
      s.shared.spec ancestor.key = some (ancestor.allowedTools, [ancestor.ns])) ∧
    (∀ c, (token, c) ∈ g.issued → c.allowedTools ⊆ ancestor.allowedTools ∧ c.ns = ancestor.ns) ∧
    ∀ key, (token, key) ∈ s.shared.registrations → key.ns = ancestor.ns ∧ (key ∉ g.applied →
      ∃ tools, s.shared.spec key = some (tools, [ancestor.ns]) ∧
        tools ⊆ ancestor.allowedTools) := by
  have hs := Attenuated.reachable h
  obtain ⟨hjwt, tools, hgr, hsub⟩ := hs.inherits hinherits
  refine ⟨hjwt, fun hkey => ?_, fun c hc => ?_, fun key hkey => ?_⟩
  · obtain ⟨root, hroot⟩ := hs.jwts ancestor hjwt
    obtain ⟨hiss, hreg⟩ := hs.issued root ancestor hroot
    obtain ⟨tools', hgr', hspec⟩ := hs.registered root ancestor.key hreg
    obtain ⟨rfl, -⟩ := Prod.mk.inj (Option.some.inj (hiss.symm.trans hgr'))
    exact hspec hkey
  · obtain ⟨rfl, hns⟩ := Prod.mk.inj (Option.some.inj ((hs.issued _ _ hc).1.symm.trans hgr))
    exact ⟨hsub, hns⟩
  obtain ⟨tools', hgr', hspec⟩ := hs.registered token key hkey
  obtain ⟨rfl, hns⟩ := Prod.mk.inj (Option.some.inj (hgr'.symm.trans hgr))
  exact ⟨hns, fun happ => ⟨_, hns ▸ hspec happ, hsub⟩⟩

end

def replay (s : Pool Shared Point) (g : History) :
    List (ℕ × Outcome) → Option (Pool Shared Point × History)
  | [] => some (s, g)
  | (i, o) :: rest =>
    match s.threads[i]? with
    | none => none
    | some p =>
      if program.enabled s.shared p then
        replay (program.after s i o p) (g.record s (.run i o)) rest
      else none

theorem reachable_replay {s : Pool Shared Point} {g : History} {x : Pool Shared Point × History}
    (h : recorded.Reachable (s, g)) (moves : List (ℕ × Outcome))
    (hx : replay s g moves = some x) : recorded.Reachable x := by
  induction moves generalizing s g with
  | nil =>
    cases hx
    exact h
  | cons move rest ih =>
    unfold replay at hx
    split at hx
    · cases hx
    next p hi =>
    split at hx
    · next hen =>
      exact ih (h.step (l := .run move.1 move.2) ⟨.run hi hen, rfl⟩) hx
    · cases hx

theorem reachable_recorded_env {s : Pool Shared Point} {g : History} {e : Event} {t : Shared}
    {new : List Point} (h : recorded.Reachable (s, g)) (he : Env s.shared e t new) :
    recorded.Reachable (⟨t, s.threads ++ new⟩, g.record s (.env e)) :=
  h.step (l := .env e) ⟨.env he, rfl⟩

def childRequest : DelegateRequest := ⟨agentClaims, ["list_peers"], ""⟩

def childClaims : AgentClaims :=
  newClaims 0 (agentRequest "t2" "b") (delegateToken 0 "t2" agentClaims ["list_peers"])

def grandchildRequest : DelegateRequest := ⟨childClaims, [], ""⟩

def grandchildClaims : AgentClaims :=
  newClaims 0 (agentRequest "t3" "c") (delegateToken 0 "t3" childClaims [])

def familyCalls : Pool Shared Point :=
  ⟨enrolled, [.getByToken (agentRequest "t1" "a"), .validateAgentJWT childRequest,
    .getByToken (agentRequest "t2" "b"), .validateAgentJWT grandchildRequest,
    .getByToken (agentRequest "t3" "c")]⟩

def familyHistory : History :=
  { requests := (GoMap.empty.set 1 childRequest).set 3 grandchildRequest }

theorem familyCalls_reachable : recorded.Reachable (familyCalls, familyHistory) := by
  have hinit : recorded.Reachable (⟨{}, []⟩, {}) := .init ⟨⟨rfl, rfl⟩, rfl⟩
  have henr := reachable_recorded_env hinit (.enroll adminToken rfl rfl rfl)
  have ha := reachable_recorded_env henr (.register (agentRequest "t1" "a"))
  have hchi := reachable_recorded_env ha (.delegate childRequest)
  have hb := reachable_recorded_env hchi (.register (agentRequest "t2" "b"))
  have hgra := reachable_recorded_env hb (.delegate grandchildRequest)
  exact reachable_recorded_env hgra (.register (agentRequest "t3" "c"))

def familyMoves : List (ℕ × Outcome) :=
  [(6, 0, ""), (1, 1, ""), (1, 1, "t2"), (6, 2, ""), (1, 3, ""), (1, 3, "t3"), (6, 4, "")].flatMap
    fun (n, i, fresh) => List.replicate n (i, { fresh := fresh })

theorem grandchild_attenuated : ∃ s g, recorded.Reachable (s, g) ∧
    ("t3", grandchildClaims) ∈ g.issued ∧ Inherits g agentClaims "t3" ∧
    grandchildClaims.allowedTools ⊆ agentClaims.allowedTools ∧
    grandchildClaims.ns = agentClaims.ns := by
  have hrun : (replay familyCalls familyHistory familyMoves).any (fun x =>
      decide (x.2.issued = [("t1", agentClaims), ("t2", childClaims), ("t3", grandchildClaims)] ∧
        x.2.delegated = [("t2", childRequest), ("t3", grandchildRequest)])) = true := by
    decide +kernel
  obtain ⟨⟨s, g⟩, hx, hche⟩ := (Option.any_eq_true ..).1 hrun
  obtain ⟨hiss, hdel⟩ : g.issued = _ ∧ g.delegated = _ := of_decide_eq_true hche
  have hrea := reachable_replay familyCalls_reachable familyMoves hx
  have hchi : ("t2", childRequest) ∈ g.delegated := by simp [hdel]
  have hpar : ("t2", childClaims) ∈ g.issued := by simp [hiss]
  have hgra : ("t3", grandchildRequest) ∈ g.delegated := by simp [hdel]
  have hinh : Inherits g agentClaims "t3" :=
    .further (.child hchi rfl rfl) hpar hgra rfl
  have hmem : ("t3", grandchildClaims) ∈ g.issued := by simp [hiss]
  exact ⟨s, g, hrea, hmem, hinh,
    (delegation_attenuates hrea hinh).2.2.1 grandchildClaims hmem⟩

end LatticeMesh.AgentRegistration
