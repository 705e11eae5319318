import Mathlib
import LatticeMesh.Lib.GoMap
import LatticeMesh.Lib.Threads

/-! # Registration of agents -/

namespace LatticeMesh.AgentRegistration

open List Program

abbrev Time := Int

structure Key where
  ns : String
  name : String
  deriving DecidableEq

structure AgentEnrollmentToken where
  token : String
  allowedNamespace : String
  allowedTools : List String
  usedAt : Option Time := none
  expiresAt : Time
  createdBy : String
  parentAgentID : String := ""
  deriving DecidableEq

inductive AgentPhase where
  | unset
  | pending
  | active
  | expired
  | revoked
  deriving DecidableEq

structure LatticePeer where
  appId : String
  publicKey : String
  network : Option String

structure AgentIdentity where
  peerRef : String
  allowedTools : List String
  allowedNamespaces : List String
  sandbox : String
  expiresAt : Option Time := none
  parentRef : String := ""
  spawnableRoles : List String := []
  phase : AgentPhase := .unset

structure AgentClaims where
  agentID : String
  ns : String
  allowedTools : List String
  parentAgentID : String
  issuedAt : Time
  expiresAt : Time
  deriving DecidableEq

def AgentClaims.key (c : AgentClaims) : Key := ⟨c.ns, c.agentID⟩

structure AgentRegisterRequest where
  enrollmentToken : String
  agentName : String
  publicKey : String
  sandbox : String
  deriving DecidableEq

structure AgentRegisterResponse where
  jwt : AgentClaims
  agentIdentityName : String
  enforcerMode : String
  tier : String
  deriving DecidableEq

structure DelegateRequest where
  parentJWT : AgentClaims
  requestedTools : List String
  roleName : String
  deriving DecidableEq

structure Outcome where
  err : Option String := none
  network : Option String := none
  fresh : String := ""
  enforcerMode : String := ""
  tier : String := ""

structure Shared where
  now : Time := 0
  tokens : GoMap String AgentEnrollmentToken := GoMap.empty
  peers : GoMap Key LatticePeer := GoMap.empty
  identities : GoMap Key AgentIdentity := GoMap.empty
  jwts : List AgentClaims := []
  registrations : List (String × Key) := []
  ended : List Key := []

inductive Point where
  | getByToken (req : AgentRegisterRequest)
  | listNetworks (req : AgentRegisterRequest) (tok : AgentEnrollmentToken)
  | createPeer (req : AgentRegisterRequest) (tok : AgentEnrollmentToken) (network : Option String)
  | createIdentity (req : AgentRegisterRequest) (tok : AgentEnrollmentToken)
  | deletePeer (key : Key) (err : String)
  | markUsed (req : AgentRegisterRequest) (tok : AgentEnrollmentToken)
  | issueAgentJWT (req : AgentRegisterRequest) (tok : AgentEnrollmentToken)
  | registered (resp : AgentRegisterResponse)
  | validateAgentJWT (req : DelegateRequest)
  | parentIdentity (claims : AgentClaims) (roleName : String)
  | roleIdentity (claims : AgentClaims) (roleName : String)
  | createToken (claims : AgentClaims) (tools : List String)
  | delegated (token : String) (expiresAt : Time)
  | getIdentity (key : Key)
  | patchRevoked (key : Key)
  | revoked
  | failed (err : String)
  deriving DecidableEq

def registeredKey (req : AgentRegisterRequest) (tok : AgentEnrollmentToken) : Key :=
  ⟨tok.allowedNamespace, req.agentName⟩

def newPeer (req : AgentRegisterRequest) (network : Option String) : LatticePeer where
  appId := req.agentName
  publicKey := req.publicKey
  network := network

def newIdentity (req : AgentRegisterRequest) (tok : AgentEnrollmentToken) : AgentIdentity where
  peerRef := req.agentName
  allowedTools := tok.allowedTools
  allowedNamespaces := [tok.allowedNamespace]
  sandbox := if req.sandbox = "" then "none" else req.sandbox
  parentRef := tok.parentAgentID

def newClaims (now : Time) (req : AgentRegisterRequest) (tok : AgentEnrollmentToken) :
    AgentClaims where
  agentID := req.agentName
  ns := tok.allowedNamespace
  allowedTools := tok.allowedTools
  parentAgentID := tok.parentAgentID
  issuedAt := now
  expiresAt := now + 365 * 24 * 3600

def delegateToken (now : Time) (token : String) (claims : AgentClaims) (tools : List String) :
    AgentEnrollmentToken where
  token := token
  allowedNamespace := claims.ns
  allowedTools := tools
  expiresAt := now + 15 * 60
  createdBy := claims.agentID
  parentAgentID := claims.agentID

namespace Shared

def markUsed (s : Shared) (token : String) : Shared :=
  { s with tokens := s.tokens.modify token fun tok => { tok with usedAt := some s.now } }

def setPhase (s : Shared) (key : Key) (phase : AgentPhase) : Shared :=
  { s with identities := s.identities.modify key fun id => { id with phase := phase } }

def endPhase (s : Shared) (key : Key) (phase : AgentPhase) : Shared :=
  { s.setPhase key phase with ended := s.ended ++ [key] }

def validJWT (s : Shared) (jwt : AgentClaims) : Prop := jwt ∈ s.jwts ∧ s.now < jwt.expiresAt

instance (s : Shared) (jwt : AgentClaims) : Decidable (s.validJWT jwt) :=
  inferInstanceAs (Decidable (_ ∧ _))

end Shared

def creates {κ ν : Type} [DecidableEq κ] (o : Outcome) (m : GoMap κ ν) (key : κ) : Bool :=
  o.err.isNone && (m.get key).isNone

def patches {κ ν : Type} [DecidableEq κ] (o : Outcome) (m : GoMap κ ν) (key : κ) : Bool :=
  o.err.isNone && (m.get key).isSome

def effect (o : Outcome) (s : Shared) : Point → Shared
  | .createPeer req tok network =>
    if creates o s.peers (registeredKey req tok) then
      { s with peers := s.peers.set (registeredKey req tok) (newPeer req network) }
    else s
  | .createIdentity req tok =>
    if creates o s.identities (registeredKey req tok) then
      { s with
        identities := s.identities.set (registeredKey req tok) (newIdentity req tok)
        registrations := s.registrations ++ [(req.enrollmentToken, registeredKey req tok)] }
    else s
  | .deletePeer key _ => if o.err.isSome then s else { s with peers := s.peers.delete key }
  | .markUsed req _ => if o.err.isSome then s else s.markUsed req.enrollmentToken
  | .issueAgentJWT req tok =>
    if o.err.isSome then s else { s with jwts := s.jwts ++ [newClaims s.now req tok] }
  | .createToken claims tools =>
    if creates o s.tokens o.fresh then
      { s with tokens := s.tokens.set o.fresh (delegateToken s.now o.fresh claims tools) }
    else s
  | .patchRevoked key =>
    if patches o s.identities key then s.endPhase key .revoked else s
  | _ => s

def next (o : Outcome) (s : Shared) : Point → Point
  | .getByToken req =>
    match if o.err.isSome then none else s.tokens.get req.enrollmentToken with
    | none => .failed "invalid enrollment token"
    | some tok =>
      if tok.usedAt.isSome then .failed "enrollment token already used"
      else if tok.expiresAt < s.now then .failed "enrollment token expired"
      else .listNetworks req tok
  | .listNetworks req tok => .createPeer req tok o.network
  | .createPeer req tok _ =>
    if creates o s.peers (registeredKey req tok) then .createIdentity req tok
    else .failed ("create LatticePeer: " ++ o.err.getD "already exists")
  | .createIdentity req tok =>
    if creates o s.identities (registeredKey req tok) then .markUsed req tok
    else .deletePeer (registeredKey req tok) (o.err.getD "already exists")
  | .deletePeer _ err => .failed ("create AgentIdentity: " ++ err)
  | .markUsed req tok => .issueAgentJWT req tok
  | .issueAgentJWT req tok =>
    match o.err with
    | some err => .failed ("issue JWT: " ++ err)
    | none => .registered ⟨newClaims s.now req tok, req.agentName, o.enforcerMode, o.tier⟩
  | .validateAgentJWT req =>
    if s.validJWT req.parentJWT then
      if req.roleName ≠ "" then .parentIdentity req.parentJWT req.roleName
      else
        match req.requestedTools.find? (· ∉ req.parentJWT.allowedTools) with
        | some tool => .failed ("tool \"" ++ tool ++ "\" not permitted by parent")
        | none => .createToken req.parentJWT req.requestedTools
    else .failed "invalid parent JWT"
  | .parentIdentity claims roleName =>
    match if o.err.isSome then none else s.identities.get claims.key with
    | none => .failed ("lookup parent AgentIdentity: " ++ o.err.getD "not found")
    | some parent =>
      if roleName ∈ parent.spawnableRoles then .roleIdentity claims roleName
      else .failed ("role \"" ++ roleName ++ "\" not in parent's spawnableRoles")
  | .roleIdentity claims roleName =>
    match if o.err.isSome then none else s.identities.get ⟨claims.ns, roleName⟩ with
    | none => .failed ("lookup role template \"" ++ roleName ++ "\": " ++ o.err.getD "not found")
    | some role => .createToken claims role.allowedTools
  | .createToken _ _ =>
    if creates o s.tokens o.fresh then .delegated o.fresh (s.now + 15 * 60)
    else .failed ("store delegate token: " ++ o.err.getD "duplicate key")
  | .getIdentity key =>
    match o.err with
    | some err => .failed err
    | none =>
      match s.identities.get key with
      | none => .revoked
      | some id => if id.phase = .revoked then .revoked else .patchRevoked key
  | .patchRevoked key =>
    if patches o s.identities key then .revoked
    else .failed ("patch AgentIdentity status: " ++ o.err.getD "not found")
  | p => p

section

-- the equations are derived once, before the proofs
attribute [local simp] next effect

end

inductive Event where
  | register (req : AgentRegisterRequest)
  | delegate (req : DelegateRequest)
  | revoke (key : Key)
  | enroll (tok : AgentEnrollmentToken)
  | tick (now : Time)
  | apply (key : Key) (identity : AgentIdentity)
  | activate (key : Key)
  | expire (key : Key)

inductive Env (s : Shared) : Event → Shared → List Point → Prop
  | register (req : AgentRegisterRequest) : Env s (.register req) s [.getByToken req]
  | delegate (req : DelegateRequest) : Env s (.delegate req) s [.validateAgentJWT req]
  | revoke (key : Key) : Env s (.revoke key) s [.getIdentity key]
  | enroll (tok : AgentEnrollmentToken) (hnew : s.tokens.get tok.token = none)
      (hunused : tok.usedAt = none) (hparent : tok.parentAgentID = "") :
    Env s (.enroll tok) { s with tokens := s.tokens.set tok.token tok } []
  | tick (now : Time) (h : s.now ≤ now) : Env s (.tick now) { s with now := now } []
  | apply (key : Key) (identity : AgentIdentity) :
    Env s (.apply key identity)
      { s with
        identities := s.identities.set key
          { identity with phase := ((s.identities.get key).map AgentIdentity.phase).getD .unset } }
      []
  | activate (key : Key) : Env s (.activate key) (s.setPhase key .active) []
  | expire (key : Key) (h : (s.identities.get key).isSome) :
    Env s (.expire key) (s.endPhase key .expired) []

def Point.done : Point → Bool
  | .registered _ | .delegated _ _ | .revoked | .failed _ => true
  | _ => false

def program : Program Shared Point Outcome Event where
  init s := s = {}
  enabled _ p := p.done = false
  effect := effect
  next := next
  spawn _ _ _ := []
  env := Env

instance (s : Shared) (p : Point) : Decidable (program.enabled s p) :=
  inferInstanceAs (Decidable (p.done = false))

def Point.holds (token : String) : Point → Bool
  | .listNetworks req _ | .createPeer req _ _ | .createIdentity req _ | .markUsed req _ =>
    req.enrollmentToken = token
  | _ => false

def Point.marks (token : String) : Point → Bool
  | .markUsed req _ => req.enrollmentToken = token
  | _ => false

def Shared.unused (s : Shared) (token : String) : Prop :=
  ∃ tok, s.tokens.get token = some tok ∧ tok.usedAt = none

section

variable {o : Outcome} {s : Shared} {p : Point} {token : String}

theorem holds_of_marks (h : p.marks token = true) : p.holds token = true := by
  cases p <;> first | exact h | cases h

theorem holds_of_next (h : (next o s p).holds token = true) :
    p.holds token = true ∨
      (∃ req, p = .getByToken req ∧ req.enrollmentToken = token) ∧ s.unused token := by
  cases p with
  | getByToken req =>
    unfold next at h
    dsimp only at h
    split at h
    · cases h
    next tok htok =>
    split at h
    · cases h
    next hun =>
    split at h
    · cases h
    have hreq : req.enrollmentToken = token := of_decide_eq_true h
    split at htok
    · cases htok
    · refine .inr ⟨⟨req, rfl, hreq⟩, tok, hreq ▸ htok, ?_⟩
      simpa using hun
  | listNetworks req tok => exact .inl h
  | createPeer req tok network | createIdentity req tok =>
    unfold next at h
    dsimp only at h
    split at h
    · exact .inl h
    · cases h
  | markUsed req tok => cases h
  | _ =>
    unfold next at h
    dsimp only at h
    (repeat' split at h) <;> cases h

theorem get_markUsed (s : Shared) (token j : String) :
    (s.markUsed token).tokens.get j =
      if j = token then (s.tokens.get token).map fun tok => { tok with usedAt := some s.now }
      else s.tokens.get j :=
  GoMap.get_modify ..

theorem tokens_effect (o : Outcome) (s : Shared) (p : Point) (token : String) :
    (effect o s p).tokens.get token = s.tokens.get token ∨
      (p.marks token = true ∧ (effect o s p).tokens.get token =
        (s.tokens.get token).map fun tok => { tok with usedAt := some s.now }) ∨
      s.tokens.get token = none := by
  cases p with
  | createPeer _ _ _ | createIdentity _ _ | issueAgentJWT _ _ | deletePeer _ _ | patchRevoked _ =>
    refine .inl ?_
    unfold effect
    dsimp only
    split <;> rfl
  | markUsed req tok =>
    unfold effect
    dsimp only
    split
    · exact .inl rfl
    rw [get_markUsed]
    by_cases htk : token = req.enrollmentToken
    · rw [if_pos htk, htk]
      exact .inr (.inl ⟨decide_eq_true rfl, rfl⟩)
    · exact .inl (if_neg htk)
  | createToken claims tools =>
    unfold effect
    dsimp only
    split
    · next hcre =>
      by_cases htk : token = o.fresh
      · refine .inr (.inr ?_)
        rw [htk]
        simpa using (Bool.and_eq_true_iff.1 hcre).2
      · exact .inl ((GoMap.get_set ..).trans (if_neg htk))
    · exact .inl rfl
  | _ => exact .inl rfl

theorem unused_effect (hp : p.marks token = false) (h : s.unused token) :
    (effect o s p).unused token := by
  obtain ⟨tok, htok, hun⟩ := h
  obtain hsame | ⟨hmar, -⟩ | hnone := tokens_effect o s p token
  · exact ⟨tok, hsame.trans htok, hun⟩
  · simp [hp] at hmar
  · simp [hnone] at htok

theorem registrations_effect (o : Outcome) (s : Shared) (p : Point) (token : String) :
    (effect o s p).registrations.countP (fun r => r.1 = token) =
        s.registrations.countP (fun r => r.1 = token) ∨
      (∃ req tok, p = .createIdentity req tok ∧ req.enrollmentToken = token ∧
        next o s p = .markUsed req tok ∧
        (effect o s p).registrations.countP (fun r => r.1 = token) =
          s.registrations.countP (fun r => r.1 = token) + 1) := by
  cases p with
  | createIdentity req tok =>
    unfold effect next
    dsimp only
    split
    · by_cases htk : req.enrollmentToken = token
      · refine .inr ⟨req, tok, rfl, htk, rfl, ?_⟩
        simp [htk]
      · refine .inl ?_
        simp [htk]
    · exact .inl rfl
  | createPeer _ _ _ | issueAgentJWT _ _ | deletePeer _ _ | patchRevoked _ | markUsed _ _
  | createToken _ _ =>
    refine .inl ?_
    unfold effect
    dsimp only
    split <;> rfl
  | _ => exact .inl rfl

end

def Undisturbed (s : Pool Shared Point) : Move Outcome Event → Prop
  | .run i o => ∀ p, s.threads[i]? = some p →
      match p with
      | .getByToken req => ∀ q ∈ s.threads, q.holds req.enrollmentToken = false
      | .markUsed _ _ => o.err = none
      | _ => True
  | .env _ => True

def undisturbed : LTS (Pool Shared Point) (Move Outcome Event) := program.system.guard Undisturbed

section

variable {s : Pool Shared Point} {token : String}

structure OneHolder (s : Pool Shared Point) (token : String) : Prop where
  one : s.threads.countP (Point.holds token) ≤ 1
  unused : ∀ p ∈ s.threads, p.holds token = true → s.shared.unused token

variable {i : ℕ}

theorem OneHolder.alone {j : ℕ} {p q : Point} (hs : OneHolder s token) (hi : s.threads[i]? = some p)
    (hj : s.threads[j]? = some q) (hji : j ≠ i) (hp : p.holds token = true) :
    q.holds token = false := by
  by_contra hq
  have htwo := two_le_countP hi hj hji hp (eq_true_of_ne_false hq)
  have hone := hs.one
  omega

theorem OneHolder.run {o : Outcome} {p : Point} (hs : OneHolder s token)
    (hi : s.threads[i]? = some p) (hgd : Undisturbed s (.run i o)) :
    OneHolder (program.after s i o p) token := by
  have hcnt : (program.after s i o p).threads.countP (Point.holds token) +
      (p.holds token).toNat =
      s.threads.countP (Point.holds token) + ((next o s.shared p).holds token).toNat :=
    countP_after (M := program) hi (Point.holds token)
  have hone := hs.one
  cases hnext : (next o s.shared p).holds token with
  | true =>
    rw [hnext] at hcnt
    obtain hp | ⟨⟨req, rfl, rfl⟩, hun⟩ := holds_of_next hnext
    · rw [hp] at hcnt
      have hmar : p.marks token = false := by
        cases p <;> first | rfl | cases hnext
      have hun := hs.unused p (mem_of_getElem? hi) hp
      exact ⟨by omega, fun _ _ _ => unused_effect hmar hun⟩
    have hfree : ∀ q ∈ s.threads, q.holds req.enrollmentToken = false := hgd _ hi
    have hzero : s.threads.countP (Point.holds req.enrollmentToken) = 0 :=
      countP_eq_zero.2 fun q hq => by simp [hfree q hq]
    have hp : (Point.getByToken req).holds req.enrollmentToken = false := rfl
    rw [hzero, hp] at hcnt
    exact ⟨Nat.le_of_eq hcnt, fun _ _ _ => hun⟩
  | false =>
    rw [hnext] at hcnt
    refine ⟨by simp at hcnt; omega, fun q hq hho => ?_⟩
    obtain rfl | hnew | ⟨j, hji, hj⟩ := mem_after hq
    · exact absurd (hnext.symm.trans hho) Bool.false_ne_true
    · cases hnew
    have hmar : p.marks token = false := by
      by_contra hp
      have hp := holds_of_marks (eq_true_of_ne_false hp)
      simp [hs.alone hi hj hji hp] at hho
    exact unused_effect hmar (hs.unused q (mem_of_getElem? hj) hho)

theorem OneHolder.env {e : Event} {t : Shared} {new : List Point} (hs : OneHolder s token)
    (h : Env s.shared e t new) : OneHolder ⟨t, s.threads ++ new⟩ token := by
  have hnew : ∀ p ∈ new, p.holds token = false := by
    intro p hp
    cases h <;> first | rw [mem_singleton.1 hp]; rfl | cases hp
  have hun : s.shared.unused token → t.unused token := by
    rintro ⟨tok, htok, hun⟩
    cases h with
    | enroll tok' hnone =>
      have hne : token ≠ tok'.token := by
        rintro rfl
        simp [hnone] at htok
      exact ⟨tok, (GoMap.get_set ..).trans ((if_neg hne).trans htok), hun⟩
    | _ => exact ⟨tok, htok, hun⟩
  refine ⟨?_, fun p hp hho => ?_⟩
  · have hzero : new.countP (Point.holds token) = 0 :=
      countP_eq_zero.2 fun p hp => by simp [hnew p hp]
    rw [countP_append, hzero]
    exact hs.one
  obtain hp | hp := mem_append.1 hp
  · exact hun (hs.unused p hp hho)
  · simp [hnew p hp] at hho

theorem OneHolder.reachable (h : undisturbed.Reachable s) : OneHolder s token := by
  refine h.invariant (I := fun s => OneHolder s token) ?_ ?_
  · rintro ⟨shared, threads⟩ ⟨-, rfl⟩
    exact ⟨Nat.zero_le 1, fun _ hp => (nomatch hp)⟩
  rintro s l t - hs ⟨hgd, hstep⟩
  cases hstep with
  | run hi _ => exact hs.run hi hgd
  | env he => exact hs.env he

def Open (token : String) (s : Pool Shared Point) : Prop :=
  (∀ tok, s.shared.tokens.get token = some tok → tok.usedAt = none) ∧
    s.threads.countP (Point.marks token) = 0

theorem OneHolder.open_of_createIdentity {req : AgentRegisterRequest} {tok : AgentEnrollmentToken}
    (hs : OneHolder s req.enrollmentToken) (hi : s.threads[i]? = some (.createIdentity req tok)) :
    Open req.enrollmentToken s := by
  have hho : (Point.createIdentity req tok).holds req.enrollmentToken = true :=
    decide_eq_true rfl
  refine ⟨fun tok' htok' => ?_, countP_eq_zero.2 fun q hq hmar => ?_⟩
  · obtain ⟨tok₀, htok₀, hun⟩ := hs.unused _ (mem_of_getElem? hi) hho
    rw [htok'] at htok₀
    exact Option.some.inj htok₀ ▸ hun
  obtain ⟨j, hj⟩ := mem_iff_getElem?.1 hq
  by_cases hji : j = i
  · subst hji
    rw [hi] at hj
    obtain rfl := Option.some.inj hj
    cases hmar
  have hfree := hs.alone hi hj hji hho
  rw [holds_of_marks hmar] at hfree
  cases hfree

theorem not_open_of_marks {o : Outcome} {p : Point} (hs : OneHolder s token)
    (hi : s.threads[i]? = some p) (hgd : Undisturbed s (.run i o))
    (hmar : p.marks token = true) : ¬ Open token (program.after s i o p) := by
  obtain ⟨tok, htok, -⟩ := hs.unused p (mem_of_getElem? hi) (holds_of_marks hmar)
  cases p with
  | markUsed req tok' =>
    obtain rfl : req.enrollmentToken = token := of_decide_eq_true hmar
    have herr : o.err = none := hgd _ hi
    have hused : (program.after s i o (.markUsed req tok')).shared.tokens.get req.enrollmentToken =
        some { tok with usedAt := some s.shared.now } := by
      show (effect o s.shared (.markUsed req tok')).tokens.get req.enrollmentToken = _
      simp only [effect, herr, Option.isSome_none, Bool.false_eq_true, if_false]
      rw [get_markUsed, if_pos rfl, htok, Option.map_some]
    exact fun hopen => nomatch hopen.1 _ hused
  | _ => cases hmar

theorem open_of_after {o : Outcome} {p : Point} (hs : OneHolder s token)
    (hi : s.threads[i]? = some p) (hgd : Undisturbed s (.run i o))
    (hopen : Open token (program.after s i o p)) : Open token s := by
  have hmar : p.marks token = false := by
    by_contra hp
    exact not_open_of_marks hs hi hgd (eq_true_of_ne_false hp) hopen
  refine ⟨fun tok htok => ?_, ?_⟩
  · obtain hsame | ⟨hp, -⟩ | hnone := tokens_effect o s.shared p token
    · exact hopen.1 tok (hsame.trans htok)
    · simp [hmar] at hp
    · simp [hnone] at htok
  have hcnt : (program.after s i o p).threads.countP (Point.marks token) +
      (p.marks token).toNat =
      s.threads.countP (Point.marks token) + ((next o s.shared p).marks token).toNat :=
    countP_after (M := program) hi (Point.marks token)
  rw [hopen.2, hmar] at hcnt
  exact (Nat.add_eq_zero_iff.1 hcnt.symm).1

theorem open_of_env {e : Event} {t : Shared} {new : List Point} (h : Env s.shared e t new)
    (hopen : Open token ⟨t, s.threads ++ new⟩) : Open token s := by
  refine ⟨fun tok htok => ?_, ?_⟩
  · cases h with
    | enroll tok' hnone =>
      have hne : token ≠ tok'.token := by
        rintro rfl
        simp [hnone] at htok
      exact hopen.1 tok ((GoMap.get_set ..).trans ((if_neg hne).trans htok))
    | _ => exact hopen.1 tok htok
  have hcnt := hopen.2
  rw [countP_append] at hcnt
  exact (Nat.add_eq_zero_iff.1 hcnt).1

/-- **Single use.** In every run in which no call looks the token up while another one uses it, and
in which tokens are marked, no token registers two agents. -/
theorem token_single_use (h : undisturbed.Reachable s) (token : String) :
    s.shared.registrations.countP (fun r => r.1 = token) ≤ 1 := by
  refine (LTS.Reachable.once (fun s => s.shared.registrations.countP fun r => r.1 = token)
    (Open token) ?_ ?_ h).1
  · rintro s ⟨hs, -⟩
    rw [hs]
    rfl
  rintro s l t hr ⟨hgd, hstep⟩
  have hs : OneHolder s token := .reachable hr
  cases hstep with
  | @run i o p hi _ =>
    obtain hsame | ⟨req, tok, rfl, rfl, hnext, hmore⟩ :=
      registrations_effect o s.shared p token
    · exact .inl ⟨hsame, open_of_after hs hi hgd⟩
    refine .inr ⟨hmore, hs.open_of_createIdentity hi, fun hopen => ?_⟩
    have hmem : .markUsed req tok ∈
        (program.after s i o (.createIdentity req tok)).threads :=
      hnext ▸ next_mem_after (M := program) hi
    exact countP_eq_zero.1 hopen.2 _ hmem (decide_eq_true rfl)
  | env he =>
    refine .inl ⟨?_, open_of_env he⟩
    cases he <;> rfl

end

def adminToken : AgentEnrollmentToken where
  token := "t1"
  allowedNamespace := "ws"
  allowedTools := ["list_peers"]
  expiresAt := 3600
  createdBy := "admin"

def agentRequest (token name : String) : AgentRegisterRequest := ⟨token, name, "key-" ++ name, ""⟩

def enrolled : Shared := { tokens := GoMap.empty.set "t1" adminToken }

theorem enrolled_reachable {G : Pool Shared Point → Move Outcome Event → Prop}
    (hG : ∀ s, G s (.env (.enroll adminToken))) :
    (program.system.guard G).Reachable ⟨enrolled, []⟩ := by
  have hinit : (program.system.guard G).Reachable ⟨{}, []⟩ := .init ⟨rfl, rfl⟩
  exact hinit.step ⟨hG _, .env (.enroll adminToken rfl rfl rfl)⟩

def Clear (s : Pool Shared Point) : Point → Prop
  | .getByToken req => ∀ q ∈ s.threads, q.holds req.enrollmentToken = false
  | .markUsed _ _ => False
  | _ => True

instance (s : Pool Shared Point) (p : Point) : Decidable (Clear s p) := by
  cases p <;> dsimp only [Clear] <;> infer_instance

theorem undisturbed_of_clear (s : Pool Shared Point) (i : ℕ) (o : Outcome) (p : Point)
    (hi : s.threads[i]? = some p) (hp : Clear s p) : Undisturbed s (.run i o) := by
  intro q hq
  rw [hi] at hq
  obtain rfl := Option.some.inj hq
  cases p <;> first | exact hp | exact hp.elim

theorem registered_once : ∃ s, undisturbed.Reachable s ∧
    s.threads = [.issueAgentJWT (agentRequest "t1" "a") adminToken] ∧
    s.shared.registrations = [("t1", ⟨"ws", "a"⟩)] ∧
    s.shared.registrations.countP (fun r => r.1 = "t1") ≤ 1 := by
  have hcall : undisturbed.Reachable ⟨enrolled, [.getByToken (agentRequest "t1" "a")]⟩ :=
    (enrolled_reachable fun _ => trivial).step (l := .env _) ⟨trivial, .env (.register _)⟩
  obtain ⟨⟨shared, threads⟩, hexec, hthr, hreg⟩ := Program.exists_exec
    (M := program) (C := Clear)
    (Q := fun s => s.threads = [.markUsed (agentRequest "t1" "a") adminToken] ∧
      s.shared.registrations = [("t1", ⟨"ws", "a"⟩)])
    (s := ⟨enrolled, [.getByToken (agentRequest "t1" "a")]⟩)
    (l := [(0, {}), (0, {}), (0, {}), (0, {})]) (by decide +kernel)
  have hmark := (steps_exec undisturbed_of_clear _ hexec).reachable hcall
  obtain rfl : threads = [.markUsed (agentRequest "t1" "a") adminToken] := hthr
  have hmar : undisturbed.Reachable (program.after _ 0 {} _) :=
    hmark.step (l := .run 0 {}) ⟨fun p hp => Option.some.inj hp ▸ rfl, .run rfl rfl⟩
  exact ⟨_, hmar, rfl, hreg, token_single_use hmar "t1"⟩

theorem two_agents :
    (∃ s, program.system.Reachable s ∧
      s.shared.registrations = [("t1", ⟨"ws", "a"⟩), ("t1", ⟨"ws", "b"⟩)] ∧
      .markUsed (agentRequest "t1" "a") adminToken ∈ s.threads) ∧
    ∃ s, program.system.Reachable s ∧
      s.shared.registrations = [("t1", ⟨"ws", "a"⟩), ("t1", ⟨"ws", "b"⟩)] ∧
      (s.threads[0]?.any Point.done) = true := by
  have hcall := reachable_env (C := fun _ _ => True) (enrolled_reachable fun _ => trivial)
    (.register (agentRequest "t1" "a"))
  have hcal := reachable_env hcall (.register (agentRequest "t1" "b"))
  obtain ⟨s, hs, hrace⟩ := exists_of_exec
    (Q := fun s => s.shared.registrations = [("t1", ⟨"ws", "a"⟩), ("t1", ⟨"ws", "b"⟩)] ∧
      .markUsed (agentRequest "t1" "a") adminToken ∈ s.threads) hcal
    [(0, {}), (1, {}), (0, {}), (0, {}), (0, {}), (1, {}), (1, {}), (1, {})] (by decide +kernel)
  obtain ⟨t, ht, hunm⟩ := exists_of_exec
    (Q := fun s => s.shared.registrations = [("t1", ⟨"ws", "a"⟩), ("t1", ⟨"ws", "b"⟩)] ∧
      (s.threads[0]?.any Point.done) = true) hcal
    [(0, {}), (0, {}), (0, {}), (0, {}), (0, { err := some "database is locked" }), (0, {}),
      (1, {}), (1, {}), (1, {}), (1, {})] (by decide +kernel)
  exact ⟨⟨s, hs.of_guard, hrace⟩, t, ht.of_guard, hunm⟩

end LatticeMesh.AgentRegistration
