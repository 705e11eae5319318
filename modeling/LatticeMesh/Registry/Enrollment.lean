import LatticeMesh.Registry.System

/-! # Enrollment tokens -/

namespace LatticeMesh.Registry

open List Function TokenTable

def TokenRow.terms (tok : TokenRow) : String × Time × Int :=
  (tok.token, tok.expiresAt, tok.usageLimit)

def enrolledWith (id : String) (s : State) : ℕ := s.enrolled.countP fun e => e.tok.id = id

def UsesCounted (s : State) : Label → Prop
  | .create p _ => ∀ e, s.calls p = .create e →
      (∃ tok, s.tokens.get e.tok.id = some tok ∧ tok.deleted = false ∧
        tok.usedCount = e.tok.usedCount) ∧
      ∀ q tok, s.calls q = .incrementUsedCount tok → tok.id ≠ e.tok.id
  | .fail p => ∀ tok, s.calls p ≠ .incrementUsedCount tok
  | _ => True

variable {cfg : Config} {s t : State} {l : Label}

theorem terms_used (tok : TokenRow) : tok.used.terms = tok.terms := by
  unfold TokenRow.used
  split <;> rfl

variable {id : String} {tok : TokenRow}

theorem terms_step (hi : IdsIssued s) (h : Step cfg s l t) (htok : s.tokens.get id = some tok) :
    ∃ tok', t.tokens.get id = some tok' ∧ tok'.terms = tok.terms := by
  cases h with
  | begin | advance | refuse | create | save | delete | fail | tick | setWorkspaces =>
    exact ⟨tok, htok, rfl⟩
  | @createToken new hnew _ _ htk =>
    refine ⟨tok, ?_, rfl⟩
    change (s.tokens.insert new htk).get id = some tok
    rw [get_insert, if_neg]
    · exact htok
    rintro rfl
    have hid := hi.tokens tok (TokenTable.mem_of_get htok)
    rw [s.tokens.keyed _ _ htok] at hid
    exact hnew hid
  | @incrementUsedCount p used =>
    change ∃ tok', (s.tokens.incrementUsedCount used.id).get id = some tok' ∧ _
    rw [get_incrementUsedCount]
    split
    · next hid =>
      rw [← hid, htok]
      exact ⟨tok.used, rfl, terms_used tok⟩
    · exact ⟨tok, htok, rfl⟩
  | @deleteToken gone =>
    change ∃ tok', (s.tokens.delete gone).get id = some tok' ∧ _
    rw [TokenTable.get_delete]
    split
    · next hid =>
      rw [← hid, htok]
      exact ⟨_, rfl, rfl⟩
    · exact ⟨tok, htok, rfl⟩

def Call.token : Call → Option TokenRow
  | readPeer _ _ tok | checkExpiry _ _ tok _ | readWorkspace _ _ tok _ | checkLimits _ _ tok _
  | allocate _ _ tok _ | incrementUsedCount tok => some tok
  | create e => some e.tok
  | _ => none

variable {c : Call} {now : Time}

theorem Call.Begins.token (h : c.Begins now) : c.token = none := by
  cases c <;> first | rfl | exact False.elim h

variable {e : Enrollment}

theorem enrollPending_eq {dto : PeerDto} {generated : String × String} {started : Time}
    {hasUses : tok.HasUses} (h : enrollPending cfg dto generated started now tok hasUses = .ok e) :
    e.tok = tok ∧ e.started = started := by
  obtain ⟨keys, -, rfl⟩ := map_ok h
  exact ⟨rfl, rfl⟩

theorem enrollApproved_eq {dto : PeerDto} {generated : String × String} {started : Time}
    {hasUses : tok.HasUses} {rows : List PeerRow}
    (h : enrollApproved cfg dto generated started now tok hasUses rows = .ok e) :
    e.tok = tok ∧ e.started = started := by
  unfold enrollApproved at h
  split at h
  · cases h
  · obtain ⟨keys, -, rfl⟩ := map_ok h
    exact ⟨rfl, rfl⟩

def Call.Timely (now : Time) : Call → Prop
  | registerStandalone _ started | readPeer _ started _ | checkExpiry _ started _ _ =>
    started ≤ now
  | readWorkspace _ started tok none | checkLimits _ started tok _ | allocate _ started tok _ =>
    started ≤ tok.expiresAt
  | create e => e.started ≤ e.tok.expiresAt
  | _ => True

theorem Reads.token_timely {c' : Call} (h : Reads cfg s c (.ok c')) :
    (∀ tok, c'.token = some tok → c.token = some tok ∨ tok ∈ s.tokens) ∧
      (c.Timely s.now → c'.Timely s.now) := by
  generalize hres : (Except.ok c' : Except Refusal Call) = res at h
  cases h with
  | token dto started =>
    split at hres
    · cases hres
    split at hres
    · cases hres
    next tok htok =>
    cases hres
    refine ⟨?_, id⟩
    rintro _ ⟨⟩
    exact .inr (getByToken_mem htok).1
  | peer | workspace =>
    cases hres
    exact ⟨fun _ => .inl, id⟩
  | expiry dto started tok existing =>
    split at hres
    · cases hres
    next hexp =>
    cases hres
    refine ⟨fun _ => .inl, ?_⟩
    intro htim
    cases existing with
    | some => trivial
    | none =>
      have hval : s.now ≤ tok.expiresAt := not_lt.1 fun hlt => hexp ⟨hlt, rfl⟩
      exact le_trans htim hval
  | resume | routes =>
    split at hres
    · cases hres
    · obtain ⟨w, -, rfl⟩ := map_ok hres.symm
      exact ⟨by rintro _ ⟨⟩, fun _ => trivial⟩
  | limits =>
    unfold checkLimits at hres
    split at hres
    · cases hres
    split at hres
    · split at hres
      · obtain ⟨e, he, rfl⟩ := map_ok hres.symm
        obtain ⟨rfl, rfl⟩ := enrollPending_eq he
        exact ⟨fun _ => .inl, id⟩
      · cases hres
        exact ⟨fun _ => .inl, id⟩
    · cases hres
  | allocate =>
    obtain ⟨e, he, rfl⟩ := map_ok hres.symm
    obtain ⟨rfl, rfl⟩ := enrollApproved_eq he
    exact ⟨fun _ => .inl, id⟩
  | approvalWorkspace =>
    split at hres
    · cases hres
    · cases hres
      exact ⟨by rintro _ ⟨⟩, fun _ => trivial⟩
  | approval | disabled | update | delete =>
    obtain ⟨w, -, rfl⟩ := map_ok hres.symm
    exact ⟨by rintro _ ⟨⟩, fun _ => trivial⟩

theorem Call.Timely.mono {now' : Time} (h : c.Timely now) (hle : now ≤ now') :
    c.Timely now' := by
  cases c with
  | registerStandalone | readPeer | checkExpiry => exact le_trans h hle
  | readWorkspace _ _ _ existing => cases existing <;> exact h
  | idle | checkLimits | allocate | create | incrementUsedCount | setPeerApproval
  | listForApproval | setPeerDisabled | updatePeer | setAdvertisedRoutes | deletePeer | save
  | delete => exact h

theorem Call.Begins.timely (h : c.Begins now) : c.Timely now := by
  cases c <;> first | trivial | exact False.elim h | exact le_of_eq h

theorem now_step (h : Step cfg s l t) : s.now ≤ t.now := by
  cases h with
  | begin | advance | refuse | create | save | delete | incrementUsedCount | fail | createToken
  | deleteToken | setWorkspaces => exact le_refl _
  | tick h => exact h

theorem enrolled_step (h : Step cfg s l t) :
    t.enrolled = s.enrolled ∨
      ∃ p e id, l = .create p id ∧ s.calls p = .create e ∧ t.enrolled = e :: s.enrolled := by
  cases h with
  | begin | advance | refuse | save | delete | incrementUsedCount | fail | tick | createToken
  | deleteToken | setWorkspaces => exact .inl rfl
  | create h => exact .inr ⟨_, _, _, rfl, h, rfl⟩

structure OnTerms (s : State) : Prop where
  calls : ∀ p tok, (s.calls p).token = some tok →
    ∃ row, s.tokens.get tok.id = some row ∧ row.terms = tok.terms
  timely : ∀ p, (s.calls p).Timely s.now
  enrolled : ∀ e ∈ s.enrolled, (∃ row, s.tokens.get e.tok.id = some row ∧
    row.terms = e.tok.terms) ∧ e.started ≤ e.tok.expiresAt

theorem OnTerms.step (ho : OnTerms s) (hi : IdsIssued s) (h : Step cfg s l t) : OnTerms t := by
  have hkept : ∀ {tok : TokenRow}, (∃ row, s.tokens.get tok.id = some row ∧ row.terms = tok.terms) →
      ∃ row, t.tokens.get tok.id = some row ∧ row.terms = tok.terms := by
    rintro tok ⟨row, hrow, hter⟩
    obtain ⟨row', hrow', hter'⟩ := terms_step hi h hrow
    exact ⟨row', hrow', hter'.trans hter⟩
  refine ⟨?_, ?_, ?_⟩
  · intro p tok htok
    rcases calls_step h p with hsame | hidle | ⟨-, hbeg⟩ | hrea | ⟨e, id, -, hcre, hcnt⟩
    · rw [hsame] at htok
      exact hkept (ho.calls p tok htok)
    · rw [hidle] at htok
      cases htok
    · rw [hbeg.token] at htok
      cases htok
    · rcases hrea.token_timely.1 tok htok with hheld | hsto
      · exact hkept (ho.calls p tok hheld)
      · exact hkept ⟨tok, hsto, rfl⟩
    rw [hcnt] at htok
    cases htok
    exact hkept (ho.calls p e.tok (by rw [hcre]; rfl))
  · intro p
    apply Call.Timely.mono _ (now_step h)
    rcases calls_step h p with hsame | hidle | ⟨-, hbeg⟩ | hrea | ⟨e, id, -, -, hcnt⟩
    · rw [hsame]
      exact ho.timely p
    · rw [hidle]
      trivial
    · exact hbeg.timely
    · exact hrea.token_timely.2 (ho.timely p)
    · rw [hcnt]
      trivial
  intro e he
  rcases enrolled_step h with hsame | ⟨p, e', id, -, hcre, hnew⟩
  · rw [hsame] at he
    exact ⟨hkept (ho.enrolled e he).1, (ho.enrolled e he).2⟩
  rw [hnew] at he
  rcases mem_cons.1 he with rfl | he
  · have htim := ho.timely p
    rw [hcre] at htim
    exact ⟨hkept (ho.calls p e.tok (by rw [hcre]; rfl)), htim⟩
  · exact ⟨hkept (ho.enrolled e he).1, (ho.enrolled e he).2⟩

theorem OnTerms.reachable (h : (registry cfg).Reachable s) : OnTerms s := by
  apply h.invariant
  · intro s hs
    refine ⟨?_, ?_, ?_⟩
    · intro p tok htok
      rw [hs.idle p] at htok
      cases htok
    · intro p
      rw [hs.idle p]
      trivial
    intro e he
    rw [hs.enrolled] at he
    cases he
  · intro s l t hr ho hs
    exact ho.step (.reachable hr) hs

def Uncounted (s : State) (id : String) : Prop :=
  ∃ p tok, s.calls p = .incrementUsedCount tok ∧ tok.id = id

structure Balanced (s : State) (id : String) (tok : TokenRow) : Prop where
  counted : tok.deleted = false → (enrolledWith id s : Int) ≤ tok.usedCount ∨
    Uncounted s id ∧ (enrolledWith id s : Int) ≤ tok.usedCount + 1
  limited : 0 < tok.usageLimit → (enrolledWith id s : Int) ≤ tok.usageLimit

def Ledger (s : State) : Prop := ∀ id tok, s.tokens.get id = some tok → Balanced s id tok

theorem uncounted_step (h : Step cfg s l t) {p : ℕ} (hp : s.calls p = .incrementUsedCount tok) :
    t.calls p = .incrementUsedCount tok ∨ l = .incrementUsedCount p ∨ l = .fail p := by
  have hoth : ∀ {s' : State} {q : ℕ} {c : Call}, s'.calls = s.calls → p ≠ q →
      (s'.setCall q c).calls p = .incrementUsedCount tok := by
    intro s' q c hs' hpq
    rw [State.calls_setCall, update_of_ne hpq, hs', hp]
  cases h with
  | tick | createToken | deleteToken | setWorkspaces => exact .inl hp
  | @begin q c hq | @create q e id t' hq | @save q w t' hq | @delete q id hq
  | @advance q c hq | @refuse q e hq =>
    refine .inl (hoth rfl ?_)
    rintro rfl
    rw [hp] at hq
    cases hq
  | @incrementUsedCount q =>
    by_cases hpq : p = q
    · exact .inr (.inl (by rw [hpq]))
    · exact .inl (hoth rfl hpq)
  | @fail q =>
    by_cases hpq : p = q
    · exact .inr (.inr (by rw [hpq]))
    · exact .inl (hoth rfl hpq)

theorem Balanced.keep (h : Balanced s id tok) (henr : enrolledWith id t = enrolledWith id s)
    (hunc : Uncounted s id → Uncounted t id) : Balanced t id tok := by
  refine ⟨?_, ?_⟩
  · intro hlive
    rw [henr]
    rcases h.counted hlive with hcou | ⟨hun, hcou⟩
    · exact .inl hcou
    · exact .inr ⟨hunc hun, hcou⟩
  · rw [henr]
    exact h.limited

theorem OnTerms.issued (ho : OnTerms s) (hi : IdsIssued s) (he : e ∈ s.enrolled) :
    e.tok.id ∈ s.issued := by
  obtain ⟨⟨row, hrow, -⟩, -⟩ := ho.enrolled e he
  rw [← s.tokens.keyed _ _ hrow]
  exact hi.tokens row (TokenTable.mem_of_get hrow)

theorem Uncounted.step (hun : Uncounted s id) (h : Step cfg s l t)
    (hcnt : ∀ p tok, l = .incrementUsedCount p → s.calls p = .incrementUsedCount tok →
      tok.id ≠ id) (hu : UsesCounted s l) : Uncounted t id := by
  obtain ⟨p, tok, hp, hid⟩ := hun
  rcases uncounted_step h hp with hkept | rfl | rfl
  · exact ⟨p, tok, hkept, hid⟩
  · exact absurd hid (hcnt p tok rfl hp)
  · exact absurd hp (hu tok)

theorem Ledger.create (hl : Ledger s) (ho : OnTerms s) (h : Step cfg s l t) (hu : UsesCounted s l)
    {p : ℕ} {new : String} (hlab : l = .create p new) (hp : s.calls p = .create e)
    (hcall : t.calls p = .incrementUsedCount e.tok) (htoke : t.tokens = s.tokens)
    (henr : t.enrolled = e :: s.enrolled) : Ledger t := by
  intro id tok htok
  rw [htoke] at htok
  by_cases hid : e.tok.id = id
  · -- the token of the new peer: nothing was uncounted, and it had uses left
    have hadd : enrolledWith id t = enrolledWith id s + 1 := by
      unfold enrolledWith
      rw [henr, countP_cons_of_pos (by simpa using hid)]
    subst hlab
    obtain ⟨⟨stored, hsto, hlive, hused⟩, halo⟩ := hu e hp
    rw [hid, htok] at hsto
    obtain rfl := Option.some.inj hsto
    have hcou : (enrolledWith id s : Int) ≤ tok.usedCount := by
      rcases (hl id tok htok).counted hlive with hcou | ⟨⟨q, used, hq, hqid⟩, -⟩
      · exact hcou
      · exact absurd (hqid.trans hid.symm) (halo q used hq)
    refine ⟨fun _ => .inr ⟨⟨p, e.tok, hcall, hid⟩, ?_⟩, ?_⟩
    · rw [hadd]
      push_cast
      omega
    intro hlim
    obtain ⟨row, hrow, hter⟩ := ho.calls p e.tok (by rw [hp]; rfl)
    rw [hid, htok] at hrow
    obtain rfl := Option.some.inj hrow
    have hsame : tok.usageLimit = e.tok.usageLimit := congrArg (·.2.2) hter
    have huses := e.hasUses (hsame ▸ hlim)
    rw [hadd]
    push_cast
    omega
  apply (hl id tok htok).keep
  · unfold enrolledWith
    rw [henr, countP_cons_of_neg (by simpa using hid)]
  · intro hun
    exact hun.step h (fun q used hq => by rw [hlab] at hq; cases hq) hu

theorem Balanced.count (h : Balanced s id tok) (henr : enrolledWith id t = enrolledWith id s) :
    Balanced t id tok.used := by
  have hlim : tok.used.usageLimit = tok.usageLimit := congrArg (·.2.2) (terms_used tok)
  refine ⟨?_, ?_⟩
  · intro hlive
    rw [henr]
    by_cases hdel : tok.deleted = true
    · rw [TokenRow.used, if_pos hdel, hdel] at hlive
      cases hlive
    rw [TokenRow.used, if_neg hdel]
    rw [Bool.not_eq_true] at hdel
    rcases h.counted hdel with hcou | ⟨-, hcou⟩
    · exact .inl (by dsimp only; omega)
    · exact .inl hcou
  · rw [henr, hlim]
    exact h.limited

theorem OnTerms.balanced_new (ho : OnTerms s) (hi : IdsIssued s) (hnew : tok.id ∉ s.issued)
    (hused : tok.usedCount = 0) (henr : t.enrolled = s.enrolled) :
    Balanced t tok.id tok := by
  have hnone : enrolledWith tok.id t = 0 := by
    unfold enrolledWith
    rw [henr, countP_eq_zero]
    intro e he
    rw [decide_eq_true_iff]
    intro hid
    exact hnew (hid ▸ ho.issued hi he)
  refine ⟨?_, ?_⟩
  · intro _
    rw [hnone, hused]
    exact .inl le_rfl
  intro hpos
  rw [hnone]
  exact le_of_lt hpos

theorem Ledger.step (hl : Ledger s) (ho : OnTerms s) (hi : IdsIssued s) (hu : UsesCounted s l)
    (h : Step cfg s l t) : Ledger t := by
  have hkeep : ∀ {id : String} {tok : TokenRow}, Balanced s id tok →
      enrolledWith id t = enrolledWith id s →
      (∀ p used, l = .incrementUsedCount p → s.calls p = .incrementUsedCount used →
        used.id ≠ id) → Balanced t id tok :=
    fun hbal henr hcnt => hbal.keep henr fun hun => hun.step h hcnt hu
  cases hs : h with
  | begin | advance | refuse | save | delete | tick | setWorkspaces | fail =>
    exact fun id tok htok => hkeep (hl id tok htok) rfl nofun
  | create hp => exact hl.create ho h hu rfl hp (update_self ..) rfl rfl
  | @incrementUsedCount p used hp =>
    intro id tok htok
    rw [State.tokens_setCall, get_incrementUsedCount] at htok
    split at htok
    · next hid =>
      obtain ⟨old, hold, rfl⟩ := Option.map_eq_some_iff.1 htok
      exact (hl id old (hid ▸ hold)).count rfl
    next hid =>
    apply hkeep (hl id tok htok) rfl
    rintro q used' ⟨⟩ hq
    rw [hp] at hq
    cases hq
    exact Ne.symm hid
  | @createToken new hnew hzero _ htk =>
    intro id tok htok
    rw [get_insert] at htok
    split at htok
    · next hid =>
      obtain rfl := Option.some.inj htok
      rw [hid]
      exact ho.balanced_new hi hnew hzero rfl
    · exact hkeep (hl id tok htok) rfl nofun
  | @deleteToken gone =>
    intro id tok htok
    rw [TokenTable.get_delete] at htok
    split at htok
    · next hid =>
      obtain ⟨old, hold, rfl⟩ := Option.map_eq_some_iff.1 htok
      exact ⟨nofun, (hl id old (hid ▸ hold)).limited⟩
    · exact hkeep (hl id tok htok) rfl nofun

theorem Ledger.reachable (h : ((registry cfg).guard UsesCounted).Reachable s) : Ledger s := by
  apply h.invariant
  · intro s hs id tok htok
    rw [hs.tokens] at htok
    cases htok
  · intro s l t hr hl hs
    exact hl.step (.reachable hr.of_guard) (.reachable hr.of_guard) hs.1 hs.2

/-- **Enrollment limits**, where every use is counted before the next insertion; and in every run no
peer is enrolled by a registration that started after the expiry of its token. -/
theorem enrollment_limits (cfg : Config) :
    (∀ s, ((registry cfg).guard UsesCounted).Reachable s → ∀ tok ∈ s.tokens, 0 < tok.usageLimit →
      (enrolledWith tok.id s : Int) ≤ tok.usageLimit) ∧
    ∀ s, (registry cfg).Reachable s → ∀ e ∈ s.enrolled,
      ∃ tok ∈ s.tokens, tok.id = e.tok.id ∧ e.started ≤ tok.expiresAt := by
  refine ⟨?_, ?_⟩
  · intro s h tok htok
    exact (Ledger.reachable h tok.id tok htok).limited
  intro s h e he
  obtain ⟨⟨tok, htok, hter⟩, hstd⟩ := (OnTerms.reachable h).enrolled e he
  have hexp : tok.expiresAt = e.tok.expiresAt := congrArg (·.2.1) hter
  exact ⟨tok, TokenTable.mem_of_get htok, s.tokens.keyed _ _ htok, hexp ▸ hstd⟩

theorem limit_exceeded : ∃ s, (registry plain).Reachable s ∧
    ∃ tok ∈ s.tokens, tok.usageLimit = 1 ∧ enrolledWith tok.id s = 2 := by
  obtain ⟨e, e', t, calls, htok, htok', h, -, -⟩ := two_devices 1 (by decide)
  refine ⟨_, h, deviceToken 1, rfl, rfl, ?_⟩
  change [e', e].countP _ = 2
  simp [htok, htok']

theorem usesCounted_reads (s : State) (l : Label) (h : l.Reads) : UsesCounted s l := by
  cases l <;> trivial

theorem limit_kept : ∃ s, ((registry plain).guard UsesCounted).Reachable s ∧
    (∃ tok ∈ s.tokens, tok.usageLimit = 1 ∧ (enrolledWith tok.id s : Int) ≤ tok.usageLimit) ∧
    ∃ e ∈ s.enrolled, ∃ tok ∈ s.tokens, tok.id = e.tok.id ∧ e.started ≤ tok.expiresAt := by
  obtain ⟨e, htok, -, he⟩ := reachable_device usesCounted_reads (by decide) "a"
    (by decide +kernel) (reachable_deployment usesCounted_reads 1) (p := 0) rfl
  obtain ⟨t, ht⟩ := PeerTable.empty.exists_create (r := e.row) "p1" fun r hr =>
    absurd hr (PeerTable.not_mem_empty r)
  have hcou : UsesCounted (deployment 1 .empty {"t1"} []
      (Function.update (fun _ => .idle) 0 (.create e))) (.create 0 "p1") := by
    intro e' he'
    obtain rfl : e = e' := Call.create.inj he'
    refine ⟨⟨deviceToken 1, by rw [htok]; rfl, rfl, by rw [htok]⟩, ?_⟩
    intro q tok hq
    change Function.update (fun _ => Call.idle) 0 (.create e) q = .incrementUsedCount tok at hq
    by_cases hq0 : q = 0
    · rw [hq0, update_self] at hq
      cases hq
    · rw [update_of_ne hq0] at hq
      cases hq
  have hcr := reachable_inserted he hcou rfl (by decide) ht
  obtain ⟨hlim, htim⟩ := enrollment_limits plain
  exact ⟨_, hcr, ⟨deviceToken 1, rfl, rfl, hlim _ hcr _ rfl (by decide)⟩,
    e, mem_cons_self, htim _ hcr.of_guard e mem_cons_self⟩

end LatticeMesh.Registry
