import LatticeMesh.Server.AgentRegistration

/-! # Revocation and delegation -/

namespace LatticeMesh.AgentRegistration

open List Option Program

def Descends (tok : AgentEnrollmentToken) (key : Key) : Prop :=
  tok.parentAgentID ≠ "" ∧ (⟨tok.allowedNamespace, tok.parentAgentID⟩ : Key) = key

def Point.actsFor (key : Key) : Point → Prop
  | .listNetworks _ tok | .createPeer _ tok _ | .createIdentity _ tok => Descends tok key
  | .markUsed req tok | .issueAgentJWT req tok => Descends tok key ∨ registeredKey req tok = key
  | .parentIdentity claims _ | .roleIdentity claims _ | .createToken claims _ => claims.key = key
  | _ => False

structure Quiet (s : Pool Shared Point) (key : Key) : Prop where
  jwts : ∀ c ∈ s.shared.jwts, c.key = key → c.expiresAt ≤ s.shared.now
  tokens : ∀ token tok, s.shared.tokens.get token = some tok → Descends tok key →
    tok.usedAt.isSome ∨ tok.expiresAt < s.shared.now
  calls : ∀ p ∈ s.threads, ¬ p.actsFor key

def EndsQuietly (s : Pool Shared Point) : Move Outcome Event → Prop
  | .run i _ => ∀ key, s.threads[i]? = some (.patchRevoked key) → Quiet s key
  | .env (.expire key) => Quiet s key
  | .env _ => True

section

variable {o : Outcome} {s : Shared} {p : Point} {key : Key}

theorem actsFor_of_next (h : (next o s p).actsFor key) :
    p.actsFor key ∨
      (∃ req tok, p = .getByToken req ∧ s.tokens.get req.enrollmentToken = some tok ∧
        Descends tok key ∧ tok.usedAt = none ∧ ¬ tok.expiresAt < s.now) ∨
      (∃ req, p = .validateAgentJWT req ∧ req.parentJWT.key = key ∧ s.validJWT req.parentJWT) ∨
      (∃ req tok, p = .createIdentity req tok ∧ s.identities.get key = none) := by
  cases p with
  | getByToken req =>
    unfold next at h
    dsimp only at h
    split at h
    · cases h
    next tok htok =>
    split at h
    · cases h
    next hun =>
    split at h
    · cases h
    next hlive =>
    split at htok
    · cases htok
    · exact .inr (.inl ⟨req, tok, rfl, htok, h, by simpa using hun, hlive⟩)
  | validateAgentJWT req =>
    unfold next at h
    dsimp only at h
    split at h
    · next hval =>
      refine .inr (.inr (.inl ⟨req, rfl, ?_, hval⟩))
      split at h
      · exact h
      split at h
      · cases h
      · exact h
    · cases h
  | createIdentity req tok =>
    unfold next at h
    dsimp only at h
    split at h
    · next hcre =>
      obtain h | h := h
      · exact .inl h
      · refine .inr (.inr (.inr ⟨req, tok, rfl, ?_⟩))
        simpa [h] using (Bool.and_eq_true_iff.1 hcre).2
    · cases h
  | listNetworks _ _ | markUsed _ _ => exact .inl h
  | createPeer _ _ _ =>
    unfold next at h
    dsimp only at h
    split at h
    · exact .inl h
    · cases h
  | parentIdentity _ _ | roleIdentity _ _ =>
    unfold next at h
    dsimp only at h
    (repeat' split at h) <;> first | cases h; done | exact .inl h
  | _ =>
    unfold next at h
    dsimp only at h
    (repeat' split at h) <;> cases h

theorem not_actsFor_of_done (h : p.done = true) : ¬ p.actsFor key := by
  cases p <;> first | exact id | cases h

theorem now_effect : (effect o s p).now = s.now := by
  unfold effect
  (repeat' split) <;> rfl

theorem jwts_effect {c : AgentClaims} (h : c ∈ (effect o s p).jwts) :
    c ∈ s.jwts ∨ p.actsFor c.key := by
  cases p with
  | issueAgentJWT req tok =>
    unfold effect at h
    dsimp only at h
    split at h
    · exact .inl h
    obtain h | h := mem_append.1 h
    · exact .inl h
    · rw [mem_singleton.1 h]
      exact .inr (.inr rfl)
  | createPeer _ _ _ | createIdentity _ _ | deletePeer _ _ | patchRevoked _ | markUsed _ _
  | createToken _ _ =>
    unfold effect at h
    dsimp only at h
    split at h <;> exact .inl h
  | _ => exact .inl h

theorem tokens_of_effect {token : String} {tok : AgentEnrollmentToken}
    (h : (effect o s p).tokens.get token = some tok) (hdesc : Descends tok key) :
    (s.tokens.get token = some tok ∨ tok.usedAt.isSome) ∨ p.actsFor key := by
  cases p with
  | createToken claims tools =>
    unfold effect at h
    dsimp only at h
    split at h
    · rw [GoMap.get_set] at h
      split at h
      · cases h
        exact .inr hdesc.2
      · exact .inl (.inl h)
    · exact .inl (.inl h)
  | markUsed req tok' =>
    unfold effect at h
    dsimp only at h
    split at h
    · exact .inl (.inl h)
    rw [get_markUsed] at h
    split at h
    · obtain ⟨tok₀, -, rfl⟩ := map_eq_some_iff.1 h
      exact .inl (.inr rfl)
    · exact .inl (.inl h)
  | createPeer _ _ _ | createIdentity _ _ | deletePeer _ _ | patchRevoked _
  | issueAgentJWT _ _ =>
    unfold effect at h
    dsimp only at h
    split at h <;> exact .inl (.inl h)
  | _ => exact .inl (.inl h)

theorem isSome_setPhase (key' : Key) (phase : AgentPhase) (h : (s.identities.get key).isSome) :
    ((s.setPhase key' phase).identities.get key).isSome := by
  unfold Shared.setPhase
  rw [GoMap.get_modify]
  split
  · next hkey =>
    rw [isSome_map, ← hkey]
    exact h
  · exact h

theorem isSome_effect (h : (s.identities.get key).isSome) :
    ((effect o s p).identities.get key).isSome := by
  cases p with
  | createIdentity req tok =>
    unfold effect
    dsimp only
    split
    · show ((s.identities.set _ _).get key).isSome
      rw [GoMap.get_set]
      split
      · rfl
      · exact h
    · exact h
  | patchRevoked key' =>
    unfold effect
    dsimp only
    split
    · exact isSome_setPhase key' .revoked h
    · exact h
  | createPeer _ _ _ | deletePeer _ _ | markUsed _ _ | issueAgentJWT _ _ | createToken _ _ =>
    unfold effect
    dsimp only
    split <;> exact h
  | _ => exact h

theorem ended_effect {key : Key} (h : key ∈ (effect o s p).ended) :
    key ∈ s.ended ∨ p = .patchRevoked key ∧ (s.identities.get key).isSome := by
  cases p with
  | patchRevoked key' =>
    unfold effect at h
    dsimp only at h
    split at h
    · next hpat =>
      obtain h | h := mem_append.1 h
      · exact .inl h
      · obtain rfl := mem_singleton.1 h
        exact .inr ⟨rfl, (Bool.and_eq_true_iff.1 hpat).2⟩
    · exact .inl h
  | createIdentity _ _ | createPeer _ _ _ | deletePeer _ _ | markUsed _ _ | issueAgentJWT _ _
  | createToken _ _ =>
    unfold effect at h
    dsimp only at h
    split at h <;> exact .inl h
  | _ => exact .inl h

end

section

variable {s : Pool Shared Point} {key : Key}

theorem Quiet.run {i : ℕ} {o : Outcome} {p : Point} (hs : Quiet s key)
    (hi : s.threads[i]? = some p) (hid : (s.shared.identities.get key).isSome) :
    Quiet (program.after s i o p) key := by
  have hmem : p ∈ s.threads := mem_of_getElem? hi
  have hnow : (program.after s i o p).shared.now = s.shared.now := now_effect
  refine ⟨fun c hc hkey => ?_, fun token tok htok hdesc => ?_, fun q hq hacts => ?_⟩
  · rw [hnow]
    obtain hc | hacts := jwts_effect hc
    · exact hs.jwts c hc hkey
    · exact absurd (hkey ▸ hacts) (hs.calls p hmem)
  · rw [hnow]
    obtain (htok | hused) | hacts := tokens_of_effect htok hdesc
    · exact hs.tokens token tok htok hdesc
    · exact .inl hused
    · exact absurd hacts (hs.calls p hmem)
  obtain rfl | hnew | ⟨j, -, hj⟩ := mem_after hq
  · obtain hp | ⟨req, tok, rfl, htok, hdesc, hun, hlive⟩ | ⟨req, rfl, hkey, hval⟩ |
      ⟨req, tok, rfl, hnone⟩ := actsFor_of_next hacts
    · exact hs.calls p hmem hp
    · obtain hused | hexp := hs.tokens _ tok htok hdesc
      · simp [hun] at hused
      · exact hlive hexp
    · exact absurd hval.2 (Int.not_lt.2 (hs.jwts _ hval.1 hkey))
    · simp [hnone] at hid
  · cases hnew
  · exact hs.calls q (mem_of_getElem? hj) hacts

variable {e : Event} {t : Shared} {new : List Point}

theorem Quiet.env (hs : Quiet s key) (h : Env s.shared e t new) :
    Quiet ⟨t, s.threads ++ new⟩ key := by
  have hcal : ∀ p ∈ s.threads ++ new, ¬ p.actsFor key := by
    intro p hp hacts
    obtain hp | hp := mem_append.1 hp
    · exact hs.calls p hp hacts
    · cases h <;> first | (rw [mem_singleton.1 hp] at hacts; exact hacts) | cases hp
  cases h with
  | enroll tok' hnone hun hpar =>
    refine ⟨hs.jwts, fun token tok htok hdesc => ?_, hcal⟩
    rw [GoMap.get_set] at htok
    split at htok
    · cases htok
      exact absurd hpar hdesc.1
    · exact hs.tokens token tok htok hdesc
  | tick now hle =>
    refine ⟨fun c hc hkey => Int.le_trans (hs.jwts c hc hkey) hle, ?_, hcal⟩
    intro token tok htok hdesc
    exact (hs.tokens token tok htok hdesc).imp_right fun hlt => Int.lt_of_lt_of_le hlt hle
  | _ => exact ⟨hs.jwts, hs.tokens, hcal⟩

theorem isSome_env (h : Env s.shared e t new) (hid : (s.shared.identities.get key).isSome) :
    (t.identities.get key).isSome := by
  cases h with
  | apply key' identity =>
    show ((s.shared.identities.set _ _).get key).isSome
    rw [GoMap.get_set]
    split
    · rfl
    · exact hid
  | activate key' | expire key' => exact isSome_setPhase _ _ hid
  | _ => exact hid

theorem ended_env (h : Env s.shared e t new) (hkey : key ∈ t.ended) :
    key ∈ s.shared.ended ∨ e = .expire key ∧ (s.shared.identities.get key).isSome := by
  cases h with
  | expire key' hid =>
    obtain h | h := mem_append.1 hkey
    · exact .inl h
    · obtain rfl := mem_singleton.1 h
      exact .inr ⟨rfl, hid⟩
  | _ => exact .inl hkey

theorem Quiet.reachable (h : (program.system.guard EndsQuietly).Reachable s) :
    ∀ key ∈ s.shared.ended, Quiet s key ∧ (s.shared.identities.get key).isSome := by
  refine h.invariant
    (I := fun s => ∀ key ∈ s.shared.ended, Quiet s key ∧ (s.shared.identities.get key).isSome) ?_ ?_
  · rintro ⟨shared, threads⟩ ⟨rfl, -⟩ key hkey
    cases hkey
  rintro s l t - hs ⟨hgd, hstep⟩ key hkey
  cases hstep with
  | @run i o p hi _ =>
    obtain ⟨hqt, hid⟩ : Quiet s key ∧ (s.shared.identities.get key).isSome := by
      obtain hkey | ⟨rfl, hid⟩ := ended_effect hkey
      · exact hs key hkey
      · exact ⟨hgd key hi, hid⟩
    exact ⟨hqt.run hi hid, isSome_effect hid⟩
  | env he =>
    obtain ⟨hqt, hid⟩ : Quiet s key ∧ (s.shared.identities.get key).isSome := by
      obtain hkey | ⟨rfl, hid⟩ := ended_env he hkey
      · exact hs key hkey
      · exact ⟨hgd, hid⟩
    exact ⟨hqt.env he, isSome_env he hid⟩

structure CutOff (s : Pool Shared Point) (key : Key) : Prop where
  delegate : ∀ o req, req.parentJWT.key = key →
    ∃ err, next o s.shared (.validateAgentJWT req) = .failed err
  register : ∀ o req tok, s.shared.tokens.get req.enrollmentToken = some tok → Descends tok key →
    ∃ err, next o s.shared (.getByToken req) = .failed err
  calls : ∀ p ∈ s.threads, ¬ p.actsFor key

/-- **Revocation.** In every run in which identities end only when their agent is quiet, an agent is
cut off once its identity has been revoked or has expired. -/
theorem revocation_cuts_off (h : (program.system.guard EndsQuietly).Reachable s)
    (hkey : key ∈ s.shared.ended) : CutOff s key := by
  obtain ⟨hqt, -⟩ := Quiet.reachable h key hkey
  refine ⟨fun o req hreq => ?_, fun o req tok htok hdesc => ?_, hqt.calls⟩
  · have hinv : ¬ s.shared.validJWT req.parentJWT := fun hval =>
      Int.not_lt.2 (hqt.jwts _ hval.1 hreq) hval.2
    exact ⟨_, if_neg hinv⟩
  unfold next
  dsimp only
  split
  · exact ⟨_, rfl⟩
  next tok' htok' =>
  split at htok'
  · cases htok'
  obtain rfl : tok = tok' := Option.some.inj (htok.symm.trans htok')
  obtain hused | hexp := hqt.tokens _ tok htok hdesc
  · rw [if_pos hused]
    exact ⟨_, rfl⟩
  · rw [if_pos hexp]
    split <;> exact ⟨_, rfl⟩

end

def agentKey : Key := ⟨"ws", "a"⟩

def agentClaims : AgentClaims := newClaims 0 (agentRequest "t1" "a") adminToken

def NotPatch (_ : Pool Shared Point) : Point → Prop
  | .patchRevoked _ => False
  | _ => True

instance (s : Pool Shared Point) : (p : Point) → Decidable (NotPatch s p)
  | .patchRevoked _ => .isFalse id
  | .getByToken _ | .markUsed _ _ | .listNetworks _ _ | .createPeer _ _ _ | .createIdentity _ _
  | .deletePeer _ _ | .issueAgentJWT _ _ | .registered _ | .validateAgentJWT _
  | .parentIdentity _ _ | .roleIdentity _ _ | .createToken _ _ | .delegated _ _ | .getIdentity _
  | .revoked | .failed _ => .isTrue trivial

theorem endsQuietly_of_notPatch (s : Pool Shared Point) (i : ℕ) (o : Outcome) (p : Point)
    (hi : s.threads[i]? = some p) (hp : NotPatch s p) : EndsQuietly s (.run i o) := by
  intro key hkey
  rw [hi] at hkey
  obtain rfl := Option.some.inj hkey
  exact hp.elim

def registering : Pool Shared Point := ⟨enrolled, [.getByToken (agentRequest "t1" "a")]⟩

def registration : List (ℕ × Outcome) := List.replicate 6 (0, {})

def yearLater (s : Pool Shared Point) : Pool Shared Point :=
  ⟨{ s.shared with now := 365 * 24 * 3600 }, s.threads ++ [.getIdentity agentKey]⟩

theorem revoked_after_year : ∃ s, (program.system.guard EndsQuietly).Reachable s ∧
    agentClaims ∈ s.shared.jwts ∧ agentKey ∈ s.shared.ended ∧ CutOff s agentKey := by
  have hcall : (program.system.guard EndsQuietly).Reachable registering :=
    (enrolled_reachable fun _ => trivial).step (l := .env (.register _))
      ⟨trivial, .env (.register _)⟩
  obtain ⟨s, hexec, hnow⟩ := Program.exists_exec (M := program) (C := NotPatch)
    (Q := fun s => s.shared.now = 0) (s := registering) (l := registration) (by decide +kernel)
  have hs := (steps_exec endsQuietly_of_notPatch _ hexec).reachable hcall
  have htick : (program.system.guard EndsQuietly).Reachable
      ⟨{ s.shared with now := 365 * 24 * 3600 }, s.threads ++ []⟩ :=
    hs.step (l := .env (.tick _)) ⟨trivial, .env (.tick _ (by rw [hnow]; decide))⟩
  rw [append_nil] at htick
  have hrev : (program.system.guard EndsQuietly).Reachable (yearLater s) :=
    htick.step (l := .env (.revoke agentKey)) ⟨trivial, .env (.revoke agentKey)⟩
  have hrun : ((program.exec NotPatch registering registration).bind fun s =>
      program.exec NotPatch (yearLater s) [(1, {})]).any (fun t =>
        decide (t.shared.jwts = [agentClaims] ∧ t.shared.now = 365 * 24 * 3600 ∧
          (t.shared.tokens.toList.all fun e => e.2.parentAgentID = "") = true ∧
          (t.shared.identities.get agentKey).isSome = true ∧
          (t.threads[0]?.any Point.done) = true ∧
          t.threads.tail = [.patchRevoked agentKey])) = true := by decide +kernel
  rw [hexec, bind_some] at hrun
  obtain ⟨⟨shared, threads⟩, hexec, hjwts, hnow, hpar, hid, hdone, htail⟩ :=
    Program.exists_exec hrun
  have ht := (steps_exec endsQuietly_of_notPatch _ hexec).reachable hrev
  obtain ⟨p, rfl, hp⟩ : ∃ p, threads = [p, .patchRevoked agentKey] ∧ p.done = true := by
    cases threads with
    | nil => cases hdone
    | cons p ps => exact ⟨p, congrArg (p :: ·) htail, hdone⟩
  have hqt : Quiet ⟨shared, [p, .patchRevoked agentKey]⟩ agentKey := by
    refine ⟨fun c hc _ => ?_, fun token tok htok hdesc => ?_, ?_⟩
    · rw [show shared.jwts = [agentClaims] from hjwts] at hc
      rw [mem_singleton.1 hc, show shared.now = _ from hnow]
      decide
    · have hpare := List.all_eq_true.1 hpar _ (GoMap.mem_toList.2 htok)
      exact absurd (of_decide_eq_true hpare) hdesc.1
    simp only [mem_cons, not_mem_nil, or_false]
    rintro q (rfl | rfl)
    · exact not_actsFor_of_done hp
    · exact id
  have hpat : (program.system.guard EndsQuietly).Reachable
      (program.after ⟨shared, [p, .patchRevoked agentKey]⟩ 1 {} (.patchRevoked agentKey)) := by
    refine ht.step (l := .run 1 {}) ⟨?_, .run rfl rfl⟩
    rintro key ⟨⟩
    exact hqt
  have hpatc : patches {} shared.identities agentKey = true := hid
  have heff : effect {} shared (.patchRevoked agentKey) = shared.endPhase agentKey .revoked :=
    if_pos hpatc
  have hend : agentKey ∈ (effect {} shared (.patchRevoked agentKey)).ended := by
    rw [heff]
    exact mem_append_right _ mem_cons_self
  refine ⟨_, hpat, ?_, hend, revocation_cuts_off hpat hend⟩
  show agentClaims ∈ (effect {} shared (.patchRevoked agentKey)).jwts
  rw [heff, show (shared.endPhase agentKey .revoked).jwts = [agentClaims] from hjwts]
  exact mem_cons_self

def revoking : Pool Shared Point :=
  ⟨enrolled, [.getByToken (agentRequest "t1" "a"), .getIdentity agentKey]⟩

def revocation : List (ℕ × Outcome) :=
  registration ++ ([(1, {}), (1, {})] : List (ℕ × Outcome))

def delegateRequest : DelegateRequest := ⟨agentClaims, ["list_peers"], ""⟩

def delegating (s : Pool Shared Point) : Pool Shared Point :=
  ⟨s.shared, s.threads ++ [.validateAgentJWT delegateRequest] ++
    [.getByToken (agentRequest "t2" "sub")]⟩

def delegation : List (ℕ × Outcome) :=
  (2, {}) :: (2, { fresh := "t2" }) :: List.replicate 4 (3, {})

theorem descendant_after_revocation : ∃ s t, program.system.Reachable s ∧
    agentKey ∈ s.shared.ended ∧ (s.threads.all Point.done) = true ∧ program.system.Steps s t ∧
    .delegated "t2" 900 ∈ t.threads ∧
    (t.shared.identities.get ⟨"ws", "sub"⟩).map AgentIdentity.parentRef = some "a" := by
  have hcal : (program.system.guard (Program.onlyIf fun _ _ => True)).Reachable revoking :=
    reachable_env (reachable_env (enrolled_reachable fun _ => trivial)
      (.register (agentRequest "t1" "a"))) (.revoke agentKey)
  obtain ⟨s, hexec, hend, hdone⟩ := Program.exists_exec (M := program) (C := fun _ _ => True)
    (Q := fun s => agentKey ∈ s.shared.ended ∧ (s.threads.all Point.done) = true)
    (s := revoking) (l := revocation) (by decide +kernel)
  have hrun : ((program.exec (fun _ _ => True) revoking revocation).bind fun s =>
      program.exec (fun _ _ => True) (delegating s) delegation).any (fun t =>
        decide (.delegated "t2" 900 ∈ t.threads ∧
          (t.shared.identities.get ⟨"ws", "sub"⟩).map AgentIdentity.parentRef = some "a")) =
      true := by decide +kernel
  rw [hexec, bind_some] at hrun
  obtain ⟨t, ht, hdel, hpar⟩ := Program.exists_exec hrun
  refine ⟨s, t, (Program.reachable_exec hcal _ hexec).of_guard, hend, hdone, ?_, hdel,
    hpar⟩
  have hcall : program.system.Steps s (delegating s) :=
    .tail (.single ⟨.env (.delegate delegateRequest), .env (.delegate delegateRequest)⟩)
      ⟨.env (.register (agentRequest "t2" "sub")), .env (.register (agentRequest "t2" "sub"))⟩
  have hste := steps_exec (G := fun _ _ => True) (fun _ _ _ _ _ _ => trivial) _ ht
  exact hcall.trans (Relation.ReflTransGen.mono (fun _ _ ⟨l, h⟩ => ⟨l, h.2⟩) _ _ hste)

end LatticeMesh.AgentRegistration
