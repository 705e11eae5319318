import LatticeMesh.Lib.GoMap
import LatticeMesh.Lib.Threads

/-! # Decisions on workflow requests -/

namespace LatticeMesh.Workflow

open List Option Program

abbrev Time := Int

inductive WorkflowStatus where
  | pending
  | approved
  | rejected
  | executed
  | failed
  deriving DecidableEq

def WorkflowStatus.text : WorkflowStatus → String
  | .pending => "pending"
  | .approved => "approved"
  | .rejected => "rejected"
  | .executed => "executed"
  | .failed => "failed"

structure WorkflowRequest where
  id : String
  resourceType : String
  action : String
  payload : String
  status : WorkflowStatus := .pending
  reviewedBy : String := ""
  reviewedByName : String := ""
  reviewedAt : Option Time := none
  reviewNote : String := ""
  executedAt : Option Time := none
  errorMessage : String := ""

structure WorkflowTable where
  rows : GoMap String WorkflowRequest
  keyed : ∀ id r, rows.get id = some r → r.id = id

namespace WorkflowTable

def getByID (t : WorkflowTable) (id : String) : Option WorkflowRequest := t.rows.get id

def updateStatus (t : WorkflowTable) (id : String) (status : WorkflowStatus)
    (fields : WorkflowRequest → WorkflowRequest) (hid : ∀ r, (fields r).id = r.id) :
    WorkflowTable where
  rows := t.rows.modify id fun r => { fields r with status := status }
  keyed := by
    intro j r h
    rw [GoMap.get_modify] at h
    split at h
    · next hj =>
      obtain ⟨r', hr', rfl⟩ := map_eq_some_iff.1 h
      exact (hid r').trans (hj ▸ t.keyed id r' hr')
    · exact t.keyed j r h

def delete (t : WorkflowTable) (id : String) : WorkflowTable where
  rows := t.rows.delete id
  keyed j r h := t.keyed j r (GoMap.get_of_get_delete h)

end WorkflowTable

inductive Decision where
  | approve
  | reject
  deriving DecidableEq

namespace Decision

def status : Decision → WorkflowStatus
  | .approve => .approved
  | .reject => .rejected

def verb : Decision → String
  | .approve => "approve"
  | .reject => "reject"

end Decision

structure Review where
  reviewerID : String
  reviewerName : String
  note : String

structure Config where
  executors : List String
  quote : String → String

def executorKey (resourceType action : String) : String := resourceType ++ ":" ++ action

def WorkflowRequest.key (wr : WorkflowRequest) : String := executorKey wr.resourceType wr.action

structure Outcome where
  err : Option String := none
  now : Time := 0

structure Run where
  id : String
  status : Option WorkflowStatus
  deriving DecidableEq

structure Shared where
  requests : WorkflowTable
  decisions : List (String × Decision) := []
  runs : List Run := []
  missing : List String := []

inductive Point where
  | check (d : Decision) (id : String) (review : Review)
  | update (d : Decision) (wr : WorkflowRequest) (review : Review)
  | execute (wr : WorkflowRequest)
  | record (id : String) (err : Option String) (executedAt : Time)
  | returned (err : Option String)

def approve (id : String) (review : Review) : Point := .check .approve id review

def reject (id : String) (review : Review) : Point := .check .reject id review

def Review.sign (review : Review) (now : Time) (r : WorkflowRequest) : WorkflowRequest :=
  { r with
    reviewedBy := review.reviewerID
    reviewedByName := review.reviewerName
    reviewedAt := some now
    reviewNote := review.note }

def stamp (err : Option String) (executedAt : Time) (r : WorkflowRequest) : WorkflowRequest :=
  match err with
  | none => { r with executedAt := some executedAt }
  | some message => { r with executedAt := some executedAt, errorMessage := message }

theorem stamp_id (err : Option String) (executedAt : Time) (r : WorkflowRequest) :
    (stamp err executedAt r).id = r.id := by cases err <;> rfl

namespace Shared

def statusOf (s : Shared) (id : String) : Option WorkflowStatus :=
  (s.requests.getByID id).map WorkflowRequest.status

def decide (s : Shared) (d : Decision) (id : String) (review : Review) (now : Time) : Shared :=
  { s with
    requests := s.requests.updateStatus id d.status (review.sign now) fun _ => rfl
    decisions := s.decisions ++ [(id, d)] }

def finish (s : Shared) (id : String) (err : Option String) (executedAt : Time) : Shared :=
  { s with
    requests := s.requests.updateStatus id (if err.isSome then .failed else .executed)
      (stamp err executedAt) (stamp_id err executedAt) }

def delete (s : Shared) (id : String) : Shared := { s with requests := s.requests.delete id }

end Shared

def effect (cfg : Config) (o : Outcome) (s : Shared) : Point → Shared
  | .update d wr review => if o.err.isSome then s else s.decide d wr.id review o.now
  | .execute wr =>
    if wr.key ∈ cfg.executors then { s with runs := s.runs ++ [⟨wr.id, s.statusOf wr.id⟩] }
    else { s with missing := s.missing ++ [wr.id] }
  | .record id err executedAt => if o.err.isSome then s else s.finish id err executedAt
  | .check _ _ _ | .returned _ => s

def next (cfg : Config) (o : Outcome) (s : Shared) : Point → Point
  | .check d id review =>
    match if o.err.isSome then none else s.requests.getByID id with
    | none => .returned (some "workflow request not found")
    | some wr =>
      if wr.status = .pending then .update d wr review
      else .returned (some ("cannot " ++ d.verb ++ " a request with status " ++
        cfg.quote wr.status.text))
  | .update _ _ _ => .returned o.err
  | .execute wr =>
    if wr.key ∈ cfg.executors then
      .record wr.id o.err o.now
    else .record wr.id (some ("no executor registered for " ++ cfg.quote wr.key)) o.now
  | .record _ _ _ => .returned none
  | .returned err => .returned err

def spawn (o : Outcome) : Point → List Point
  | .update .approve wr review =>
    if o.err.isSome then [] else [.execute (review.sign o.now { wr with status := .approved })]
  | _ => []

inductive Event where
  | call (d : Decision) (id : String) (review : Review)
  | delete (id : String)

inductive Env (s : Shared) : Event → Shared → List Point → Prop
  | call (d : Decision) (id : String) (review : Review) :
    Env s (.call d id review) s [.check d id review]
  | delete (id : String) : Env s (.delete id) (s.delete id) []

def program (cfg : Config) : Program Shared Point Outcome Event where
  init s := s.decisions = [] ∧ s.runs = [] ∧ s.missing = []
  enabled _ p := ∀ err, p ≠ .returned err
  effect := effect cfg
  next := next cfg
  spawn o _ := spawn o
  env := Env

instance (cfg : Config) (s : Shared) : (p : Point) → Decidable ((program cfg).enabled s p)
  | .returned err => .isFalse fun h => h err rfl
  | .check _ _ _ | .update _ _ _ | .execute _ | .record _ _ _ => .isTrue nofun

namespace Shared

def decided (s : Shared) (id : String) : ℕ := s.decisions.countP fun d => d.1 = id

def ran (s : Shared) (id : String) : ℕ := s.runs.countP fun r => r.id = id

end Shared

section

variable {cfg : Config} {o : Outcome} {s : Shared} {p : Point} {id : String}

theorem getByID_updateStatus (t : WorkflowTable) (id : String) (status : WorkflowStatus)
    (fields : WorkflowRequest → WorkflowRequest) (hid : ∀ r, (fields r).id = r.id) (j : String) :
    ((t.updateStatus id status fields hid).getByID j).map WorkflowRequest.status =
      if j = id then ((t.getByID j).map WorkflowRequest.status).map fun _ => status
      else (t.getByID j).map WorkflowRequest.status := by
  unfold WorkflowTable.getByID WorkflowTable.updateStatus
  rw [GoMap.get_modify]
  split
  · next hj =>
    rw [hj]
    cases t.rows.get id <;> rfl
  · rfl

theorem statusOf_decide (d : Decision) (review : Review) (now : Time) (j : String) :
    (s.decide d id review now).statusOf j =
      if j = id then (s.statusOf j).map fun _ => d.status else s.statusOf j :=
  getByID_updateStatus s.requests id d.status (review.sign now) (fun _ => rfl) j

theorem decided_decide (d : Decision) (review : Review) (now : Time) (j : String) :
    (s.decide d id review now).decided j = s.decided j + if id = j then 1 else 0 := by
  unfold Shared.decided Shared.decide
  rw [countP_append]
  by_cases h : id = j <;> simp [h]

theorem statusOf_finish (err : Option String) (executedAt : Time) (j : String) :
    (s.finish id err executedAt).statusOf j =
      if j = id then (s.statusOf j).map fun _ => if err.isSome then .failed else .executed
      else s.statusOf j :=
  getByID_updateStatus s.requests id _ (stamp err executedAt) (stamp_id err executedAt) j

theorem effect_cases (cfg : Config) (o : Outcome) (s : Shared) (p : Point) (id : String) :
    (∃ d wr review, p = .update d wr review ∧ wr.id = id ∧ o.err = none ∧
      effect cfg o s p = s.decide d id review o.now) ∨
    ((effect cfg o s p).decided id = s.decided id ∧
      ∀ st, (effect cfg o s p).statusOf id = some st → s.statusOf id = some st ∨
        (st = .failed ∨ st = .executed) ∧ ∃ err executedAt, p = .record id err executedAt) := by
  cases p with
  | check _ _ _ | returned _ => exact .inr ⟨rfl, fun _ => .inl⟩
  | update d wr review =>
    cases herr : o.err with
    | some _ =>
      have heff : effect cfg o s (.update d wr review) = s := by simp [effect, herr]
      rw [heff]
      exact .inr ⟨rfl, fun _ => .inl⟩
    | none =>
      have heff : effect cfg o s (.update d wr review) = s.decide d wr.id review o.now := by
        simp [effect, herr]
      rw [heff]
      by_cases hid : wr.id = id
      · exact .inl ⟨d, wr, review, rfl, hid, rfl, by rw [hid]⟩
      · rw [decided_decide, if_neg hid, statusOf_decide, if_neg (Ne.symm hid)]
        exact .inr ⟨rfl, fun _ => .inl⟩
  | execute wr =>
    refine .inr ?_
    unfold effect
    dsimp only
    split <;> exact ⟨rfl, fun _ => .inl⟩
  | record j err executedAt =>
    refine .inr ?_
    unfold effect
    dsimp only
    split
    · exact ⟨rfl, fun _ => .inl⟩
    refine ⟨rfl, fun st hst => ?_⟩
    rw [statusOf_finish] at hst
    split at hst
    · next hid =>
      obtain ⟨-, -, rfl⟩ := map_eq_some_iff.1 hst
      exact .inr ⟨by cases err <;> simp, err, executedAt, by rw [hid]⟩
    · exact .inl hst

def StillPending (s : Pool Shared Point) : Point → Prop
  | .update _ wr _ => s.shared.statusOf wr.id = some .pending
  | _ => True

instance (s : Pool Shared Point) : (p : Point) → Decidable (StillPending s p)
  | .update _ wr _ => inferInstanceAs (Decidable (s.shared.statusOf wr.id = some .pending))
  | .check _ _ _ | .execute _ | .record _ _ _ | .returned _ => .isTrue trivial

def timely (cfg : Config) : LTS (Pool Shared Point) (Move Outcome Event) :=
  (program cfg).system.guard (Program.onlyIf StillPending)

def Point.Ok (s : Shared) : Point → Prop
  | .update _ wr _ => s.statusOf wr.id = some .pending ∨ s.statusOf wr.id = none ∨
      1 ≤ s.decided wr.id
  | .execute wr => 1 ≤ s.decided wr.id ∧ s.statusOf wr.id ≠ some .pending ∧
      s.statusOf wr.id ≠ some .rejected
  | .record id _ _ => 1 ≤ s.decided id
  | .check _ _ _ | .returned _ => True

variable {q : Point}

theorem Point.Ok.keeps (hp : p.Ok s) (hq : q.Ok s)
    (hpend : ∀ d wr review, p = .update d wr review → s.statusOf wr.id = some .pending) :
    q.Ok (effect cfg o s p) := by
  cases q with
  | check _ _ _ | returned _ => trivial
  | update d wr review =>
    obtain ⟨d', wr', review', rfl, hid, -, heff⟩ | ⟨hdec, hsta⟩ :=
      effect_cases cfg o s p wr.id
    · refine .inr (.inr ?_)
      rw [heff, decided_decide, if_pos rfl]
      omega
    rw [Point.Ok, hdec]
    cases hst : (effect cfg o s p).statusOf wr.id with
    | none => exact .inr (.inl rfl)
    | some st =>
      obtain hsame | ⟨-, err, executedAt, rfl⟩ := hsta st hst
      · rwa [← hsame]
      · exact .inr (.inr hp)
  | execute wr =>
    obtain ⟨d', wr', review', rfl, hid, -, heff⟩ | ⟨hdec, hsta⟩ :=
      effect_cases cfg o s p wr.id
    · exact absurd (hid ▸ hpend _ _ _ rfl) hq.2.1
    refine ⟨hdec ▸ hq.1, fun hst => ?_, fun hst => ?_⟩
    · obtain hsame | ⟨hend, -⟩ := hsta _ hst
      · exact hq.2.1 hsame
      · simp at hend
    obtain hsame | ⟨hend, -⟩ := hsta _ hst
    · exact hq.2.2 hsame
    · simp at hend
  | record id err executedAt =>
    obtain ⟨d', wr', review', rfl, hid, -, heff⟩ | ⟨hdec, -⟩ := effect_cases cfg o s p id
    · rw [Point.Ok, heff, decided_decide, if_pos rfl]
      omega
    · exact le_of_le_of_eq hq hdec.symm

theorem Point.Ok.next (hp : p.Ok s) : (next cfg o s p).Ok (effect cfg o s p) := by
  cases p with
  | check d id review =>
    unfold Workflow.next
    dsimp only
    split
    · trivial
    next wr hwr =>
    split
    · next hpend =>
      split at hwr
      · cases hwr
      have hid : wr.id = id := s.requests.keyed id wr hwr
      refine .inl ?_
      show (s.requests.getByID wr.id).map WorkflowRequest.status = some .pending
      rw [hid, hwr, map_some, hpend]
    · trivial
  | update _ _ _ | record _ _ _ | returned _ => trivial
  | execute wr =>
    have hdec : (effect cfg o s (.execute wr)).decided wr.id = s.decided wr.id := by
      unfold effect
      dsimp only
      split <;> rfl
    unfold Workflow.next
    dsimp only
    split <;> exact le_of_le_of_eq hp.1 hdec.symm

theorem Point.Ok.spawn (hq : q ∈ spawn o p) : q.Ok (effect cfg o s p) := by
  unfold Workflow.spawn at hq
  split at hq
  · next wr review =>
    split at hq
    · cases hq
    next herr =>
    rw [mem_singleton.1 hq]
    have heff : effect cfg o s (.update .approve wr review) =
        s.decide .approve wr.id review o.now := if_neg herr
    have hid : (review.sign o.now { wr with status := .approved }).id = wr.id := rfl
    rw [Point.Ok, hid, heff, decided_decide, statusOf_decide, if_pos rfl, if_pos rfl]
    refine ⟨Nat.le_add_left 1 _, ?_, ?_⟩ <;> cases s.statusOf wr.id <;> simp [Decision.status]
  · cases hq

def RunsLive (s : Shared) : Prop := ∀ r ∈ s.runs, r.status ≠ some .rejected

theorem RunsLive.effect (hs : RunsLive s) (hp : p.Ok s) : RunsLive (effect cfg o s p) := by
  unfold Workflow.effect
  split
  · split
    · exact hs
    · exact hs
  · next wr =>
    split
    · intro r hr
      obtain hr | hr := mem_append.1 hr
      · exact hs r hr
      · rw [mem_singleton.1 hr]
        exact hp.2.2
    · exact hs
  · split
    · exact hs
    · exact hs
  · exact hs
  · exact hs

theorem statusOf_delete (id j : String) :
    (s.delete id).statusOf j = if j = id then none else s.statusOf j := by
  unfold Shared.statusOf Shared.delete WorkflowTable.delete WorkflowTable.getByID
  rw [GoMap.get_delete]
  split <;> rfl

theorem statusOf_of_delete {j : String} {st : WorkflowStatus}
    (h : (s.delete id).statusOf j = some st) : s.statusOf j = some st := by
  rw [statusOf_delete] at h
  split at h
  · cases h
  · exact h

theorem Point.Ok.delete (hq : q.Ok s) (id : String) : q.Ok (s.delete id) := by
  cases q with
  | check _ _ _ | returned _ => trivial
  | update d wr review =>
    rw [Point.Ok, statusOf_delete]
    split
    · exact .inr (.inl rfl)
    · exact hq
  | execute wr =>
    exact ⟨hq.1, fun h => hq.2.1 (statusOf_of_delete h), fun h => hq.2.2 (statusOf_of_delete h)⟩
  | record id err executedAt => exact hq

theorem ok_reachable {s : Pool Shared Point} (h : (timely cfg).Reachable s) :
    Program.Holds RunsLive (fun s p => p.Ok s) s := by
  refine Program.holds ?_ ?_ ?_ ?_ h
  · intro s hs r hr
    rw [hs.2.1] at hr
    cases hr
  · intro s i o p hs hi _ _
    have hp := hs.2 p (mem_of_getElem? hi)
    exact ⟨hs.1.effect hp, hp.next, fun q hq => Point.Ok.spawn hq⟩
  · intro s i o p q j hs hi _ hgd _ hj
    refine (hs.2 p (mem_of_getElem? hi)).keeps (hs.2 q (mem_of_getElem? hj)) ?_
    rintro d wr review rfl
    exact hgd _ hi
  intro s e t new hs he _
  cases he with
  | call d id review =>
    refine ⟨hs.1, fun q hq => ?_, hs.2⟩
    rw [mem_singleton.1 hq]
    trivial
  | delete id => exact ⟨hs.1, fun _ hq => (nomatch hq), fun q hq => (hs.2 q hq).delete id⟩

theorem decided_le_one {s : Pool Shared Point} (h : (timely cfg).Reachable s) (id : String) :
    s.shared.decided id ≤ 1 ∧ (s.shared.statusOf id = some .pending → s.shared.decided id = 0) := by
  refine LTS.Reachable.once (fun s => s.shared.decided id)
    (fun s => s.shared.statusOf id = some .pending) ?_ ?_ h
  · rintro s ⟨hs, -⟩
    rw [Shared.decided, hs.1, countP_nil]
  rintro s l t - ⟨hgd, hstep⟩
  cases hstep with
  | @run i o p hi _ =>
    obtain ⟨d, wr, review, rfl, rfl, -, heff⟩ | ⟨hdec, hst⟩ :=
      effect_cases cfg o s.shared p id
    · refine .inr ⟨?_, hgd _ hi, ?_⟩
      · show (effect cfg o s.shared _).decided wr.id = _
        rw [heff, decided_decide, if_pos rfl]
      show (effect cfg o s.shared _).statusOf wr.id ≠ _
      rw [heff, statusOf_decide, if_pos rfl]
      cases s.shared.statusOf wr.id <;> cases d <;> simp [Decision.status]
    refine .inl ⟨hdec, fun ht => ?_⟩
    obtain hsame | ⟨hend, -⟩ := hst _ ht
    · exact hsame
    · simp at hend
  | env he =>
    cases he with
    | call => exact .inl ⟨rfl, fun h => h⟩
    | delete j => exact .inl ⟨rfl, statusOf_of_delete⟩

def Point.executes (id : String) : Point → Bool
  | .execute wr => wr.id = id
  | _ => false

def Shared.approvals (s : Shared) (id : String) : ℕ := s.decisions.count (id, .approve)

theorem approvals_balance {s : Pool Shared Point} (h : (program cfg).system.Reachable s)
    (id : String) :
    s.shared.ran id + s.shared.missing.count id + s.threads.countP (Point.executes id) =
      s.shared.approvals id := by
  refine Program.balance (Point.executes id) (fun s => s.ran id + s.missing.count id)
    (fun s => s.approvals id) ?_ ?_ ?_ h
  · rintro s ⟨hdec, hruns, hmis⟩
    simp [Shared.ran, Shared.approvals, hdec, hruns, hmis]
  · intro s o p _ _ _ _
    cases p with
    | check d j review =>
      have hnext : (next cfg o s.shared (.check d j review)).executes id = false := by
        unfold next
        dsimp only
        (repeat' split) <;> rfl
      have hp : (Point.check d j review).executes id = false := rfl
      simp [program, effect, spawn, hnext, hp]
    | update d wr review =>
      cases herr : o.err <;> cases d <;>
        simp [program, effect, next, spawn, herr, Point.executes, Shared.decide, Shared.ran,
          Shared.approvals, Review.sign, count_singleton, countP_singleton]
      omega
    | execute wr =>
      by_cases hkey : wr.key ∈ cfg.executors <;> by_cases hid : wr.id = id <;>
        simp [program, effect, next, spawn, hkey, hid, Point.executes, Shared.ran,
          Shared.approvals]
      all_goals omega
    | record j err executedAt =>
      cases herr : o.err <;>
        simp [program, effect, next, spawn, herr, Point.executes, Shared.finish, Shared.ran,
          Shared.approvals]
    | returned err => simp [program, effect, next, spawn, Point.executes]
  intro s e t new he
  cases he with
  | call => simp [Point.executes]
  | delete => rfl

theorem decided_eq (s : Shared) (id : String) :
    s.decided id = s.approvals id + s.decisions.count (id, .reject) := by
  unfold Shared.decided Shared.approvals
  induction s.decisions with
  | nil => rfl
  | cons d ds ih =>
    obtain ⟨j, d⟩ := d
    by_cases hj : j = id <;> cases d <;> simp [hj, ih] <;> omega

structure OneDecision (s : Shared) (id : String) : Prop where
  decided : s.decided id ≤ 1
  ran : s.ran id ≤ 1
  rejected : (id, .reject) ∈ s.decisions → s.ran id = 0
  live : ∀ r ∈ s.runs, r.id = id → r.status ≠ some .rejected

theorem oneDecision_of_reachable {s : Pool Shared Point} (h : (timely cfg).Reachable s)
    (id : String) : OneDecision s.shared id := by
  have hdec := (decided_le_one h id).1
  have hspl := decided_eq s.shared id
  have hruns := approvals_balance h.of_guard id
  refine ⟨hdec, by omega, fun hrej => ?_, fun r hr _ => (ok_reachable h).1 r hr⟩
  have hpos := count_pos_iff.2 hrej
  omega

/-- **One decision.** In every run in which decisions find their request pending, every request has
at most one; from there, a decision on a request of the table breaks this exactly if it finds the
request decided. -/
theorem one_decision (cfg : Config) (s : Pool Shared Point) (hs : (timely cfg).Reachable s) :
    (∀ id, OneDecision s.shared id) ∧
    ∀ i o d wr review, s.threads[i]? = some (.update d wr review) → o.err = none →
      s.shared.statusOf wr.id ≠ none →
      (OneDecision ((program cfg).after s i o (.update d wr review)).shared wr.id ↔
        s.shared.statusOf wr.id = some .pending) := by
  refine ⟨oneDecision_of_reachable hs, fun i o d wr review hi herr hrow => ?_⟩
  refine ⟨fun h => ?_, fun h => ?_⟩
  · obtain hpend | hnone | hdec := (ok_reachable hs).2 _ (mem_of_getElem? hi)
    · exact hpend
    · exact absurd hnone hrow
    have hone : (effect cfg o s.shared (.update d wr review)).decided wr.id ≤ 1 := h.decided
    simp only [effect, herr, isSome_none, Bool.false_eq_true, if_false] at hone
    rw [decided_decide, if_pos rfl] at hone
    omega
  · refine oneDecision_of_reachable (.step (l := .run i o) hs ⟨?_, .run hi nofun⟩) wr.id
    exact onlyIf_run hi h

end

def policyRequest : WorkflowRequest where
  id := "r1"
  resourceType := "policy"
  action := "create"
  payload := "\x7b\x7d"

def oneRequest : Shared where
  requests :=
    { rows := GoMap.empty.set "r1" policyRequest
      keyed := by
        intro id r h
        rw [GoMap.get_set] at h
        split at h
        · next hid =>
          cases h
          exact hid.symm
        · cases h }

def policyExecutor : Config where
  executors := ["policy:create"]
  quote s := "\"" ++ s ++ "\""

def reviewer (name : String) : Review := ⟨name, name, ""⟩

theorem approved_and_executed : ∃ s, (timely policyExecutor).Reachable s ∧
    s.shared.statusOf "r1" = some .executed ∧ s.shared.ran "r1" = 1 ∧
    OneDecision s.shared "r1" := by
  have hinit : (timely policyExecutor).Reachable ⟨oneRequest, []⟩ := .init ⟨⟨rfl, rfl, rfl⟩, rfl⟩
  have hcall := reachable_env hinit (.call .approve "r1" (reviewer "ann"))
  obtain ⟨s, hs, hst, hran⟩ := exists_of_exec
    (Q := fun s => s.shared.statusOf "r1" = some .executed ∧ s.shared.ran "r1" = 1) hcall
    [(0, {}), (0, {}), (1, {}), (1, {})] (by decide +kernel)
  exact ⟨s, hs, hst, hran, (one_decision policyExecutor s hs).1 "r1"⟩

theorem two_reviewers :
    (∃ s, (program policyExecutor).system.Reachable s ∧ s.shared.ran "r1" = 2) ∧
    ∃ s, (program policyExecutor).system.Reachable s ∧
      s.shared.decisions = [("r1", .approve), ("r1", .reject)] ∧
      s.shared.runs = [⟨"r1", some .rejected⟩] := by
  have hinit : ((program policyExecutor).system.guard
      (Program.onlyIf fun _ _ => True)).Reachable ⟨oneRequest, []⟩ := .init ⟨⟨rfl, rfl, rfl⟩, rfl⟩
  have hann := reachable_env hinit (.call .approve "r1" (reviewer "ann"))
  obtain ⟨s, hs, hran⟩ := exists_of_exec (Q := fun s => s.shared.ran "r1" = 2)
    (reachable_env hann (.call .approve "r1" (reviewer "bob")))
    [(0, {}), (1, {}), (0, {}), (1, {}), (2, {}), (3, {})] (by decide +kernel)
  obtain ⟨t, ht, hboth⟩ := exists_of_exec
    (Q := fun s => s.shared.decisions = [("r1", .approve), ("r1", .reject)] ∧
      s.shared.runs = [⟨"r1", some .rejected⟩])
    (reachable_env hann (.call .reject "r1" (reviewer "bob")))
    [(0, {}), (1, {}), (0, {}), (1, {}), (2, {})] (by decide +kernel)
  exact ⟨⟨s, hs.of_guard, hran⟩, t, ht.of_guard, hboth⟩

end LatticeMesh.Workflow
