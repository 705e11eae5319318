import LatticeMesh.Lib.Alternation
import LatticeMesh.Lib.GoMap

/-!
# The alert engine

`engine.go` evaluates the enabled rules round after round.
-/

namespace LatticeMesh.AlertEngine

open List

class Float64 (V : Type) where
  lt : V → V → Bool
  le : V → V → Bool
  eq : V → V → Bool

structure AlertRule (V : Type) where
  id : String
  name : String
  workspaceID : String
  metricType : String
  operator : String
  threshold : V
  lookback : String
  channels : String
  severity : String
  message : String
  silenceUntil : Option Int

structure AlertSilence where
  startsAt : Int
  endsAt : Int

structure AlertChannel where
  type : String
  config : String
  enabled : Bool

structure QueryRequest where
  metricType : String
  labels : List (String × String)
  inNamespace : String
  timeRangeEnd : Int
  lookback : String

inductive Status where
  | firing
  | resolved
  deriving DecidableEq

def Status.isFiring : Status → Bool
  | .firing => true
  | .resolved => false

structure AlertHistory (V : Type) where
  ruleID : String
  workspaceID : String
  status : Status
  severity : String
  value : V
  startedAt : Int
  endedAt : Option Int := none
  message : String

structure AlertItem (V : Type) where
  labels : List (String × String)
  value : V
  message : String

structure NotificationRequest (V : Type) where
  ruleName : String
  severity : String
  status : Status
  alerts : List (AlertItem V)
  startedAt : Int

structure ActiveAlert (V : Type) where
  ruleID : String
  groupKey : String
  firstSeen : Int
  lastSeen : Int
  value : V

structure Send (V : Type) where
  channelID : String
  request : NotificationRequest V
  config : String
  succeeded : Bool

structure Change (V : Type) where
  history : AlertHistory V
  stored : Bool
  sends : List (Send V)

def Change.notified {V : Type} (c : Change V) : Bool := c.sends.any (·.succeeded)

structure Config where
  notifiers : List String
  unmarshal : String → Option (List String)

structure Engine (V : Type) where
  activeAlerts : GoMap String (ActiveAlert V) := .empty
  log : List (Change V) := []

structure Answers (V : Type) where
  now : Int
  listAlertSilences : Option (List AlertSilence)
  query : QueryRequest → Except String (Option V)
  createAlertHistory : Bool
  getAlertChannel : Nat → Option AlertChannel
  send : Nat → Bool

variable {V : Type} [Float64 V]

def compareThreshold (value : V) (operator : String) (threshold : V) : Bool :=
  match operator with
  | "gt" => Float64.lt threshold value
  | "gte" => Float64.le threshold value
  | "lt" => Float64.lt value threshold
  | "lte" => Float64.le value threshold
  | "eq" => Float64.eq value threshold
  | "neq" => !Float64.eq value threshold
  | _ => false

omit [Float64 V] in
def isSilenced (rule : AlertRule V) (a : Answers V) : Bool :=
  rule.silenceUntil.any (a.now < ·) ||
    (a.listAlertSilences.getD []).any fun s => s.startsAt < a.now && a.now < s.endsAt

omit [Float64 V] in
def sendNotification (cfg : Config) (rule : AlertRule V) (items : List (AlertItem V))
    (status : Status) (a : Answers V) : List (Send V) :=
  match if rule.channels = "" then some [] else cfg.unmarshal rule.channels with
  | none => []
  | some channelIDs =>
    channelIDs.zipIdx.filterMap fun (chID, i) =>
      match a.getAlertChannel i with
      | none => none
      | some ch =>
        if ch.enabled && cfg.notifiers.contains ch.type then
          some
            { channelID := chID
              request :=
                { ruleName := rule.name, severity := rule.severity, status, alerts := items
                  startedAt := a.now }
              config := ch.config
              succeeded := a.send i }
        else none

omit [Float64 V] in
def Engine.report (cfg : Config) (e : Engine V) (rule : AlertRule V) (history : AlertHistory V)
    (a : Answers V) : Engine V :=
  if a.createAlertHistory then
    { e with
      log := e.log ++ [⟨history, true, sendNotification cfg rule
        [⟨[], history.value, history.message⟩] history.status a⟩] }
  else { e with log := e.log ++ [⟨history, false, []⟩] }

omit [Float64 V] in
def handleFiring (cfg : Config) (e : Engine V) (rule : AlertRule V) (key : String) (value : V)
    (a : Answers V) : Engine V :=
  match e.activeAlerts.get key with
  | none =>
    let e := { e with
      activeAlerts := e.activeAlerts.set key
        { ruleID := rule.id, groupKey := key, firstSeen := a.now, lastSeen := a.now, value } }
    e.report cfg rule
      { ruleID := rule.id, workspaceID := rule.workspaceID, status := .firing
        severity := rule.severity, value, startedAt := a.now, message := rule.message } a
  | some active =>
    { e with activeAlerts := e.activeAlerts.set key { active with lastSeen := a.now, value } }

omit [Float64 V] in
def handleResolved (cfg : Config) (e : Engine V) (rule : AlertRule V) (key : String) (value : V)
    (a : Answers V) : Engine V :=
  match e.activeAlerts.get key with
  | none => e
  | some active =>
    let e := { e with activeAlerts := e.activeAlerts.delete key }
    e.report cfg rule
      { ruleID := rule.id, workspaceID := rule.workspaceID, status := .resolved
        severity := rule.severity, value, startedAt := active.firstSeen, endedAt := some a.now
        message := "Resolved: " ++ rule.message } a

def alertKey (ruleID : String) : String := ruleID ++ ":default"

def evaluateRule (cfg : Config) (e : Engine V) (rule : AlertRule V) (a : Answers V) :
    Engine V × Option String :=
  if isSilenced rule a then (e, none)
  else
    match a.query
      { metricType := rule.metricType, labels := [], inNamespace := rule.workspaceID
        timeRangeEnd := a.now, lookback := rule.lookback } with
    | .error err => (e, some ("query metric: " ++ err))
    | .ok none => (e, none)
    | .ok (some currentValue) =>
      if compareThreshold currentValue rule.operator rule.threshold then
        (handleFiring cfg e rule (alertKey rule.id) currentValue a, none)
      else (handleResolved cfg e rule (alertKey rule.id) currentValue a, none)

abbrev Round (V : Type) := Option (List (AlertRule V × Answers V))

def evaluate (cfg : Config) (e : Engine V) (round : Round V) : Engine V :=
  match round with
  | none => e
  | some rules => rules.foldl (fun e rule => (evaluateRule cfg e rule.1 rule.2).1) e

def run (cfg : Config) (rounds : List (Round V)) : Engine V := rounds.foldl (evaluate cfg) {}

section

omit [Float64 V]

def Engine.active (e : Engine V) (ruleID : String) : Bool :=
  (e.activeAlerts.get (alertKey ruleID)).isSome

def Engine.changesOf (e : Engine V) (ruleID : String) : List (Change V) :=
  e.log.filter (·.history.ruleID = ruleID)

def Engine.notifications (e : Engine V) (ruleID : String) : List Status :=
  ((e.changesOf ruleID).filter (·.notified)).map (·.history.status)

theorem alertKey_inj {r r' : String} : alertKey r = alertKey r' ↔ r = r' := by
  unfold alertKey
  rw [← String.toList_inj, String.toList_append, String.toList_append, append_left_inj,
    String.toList_inj]

inductive Step (e e' : Engine V) : Prop where
  | same (hlog : e'.log = e.log) (hactive : ∀ r, e'.active r = e.active r)
  | change (c : Change V) (hlog : e'.log = e.log ++ [c])
      (hbefore : e.active c.history.ruleID = !c.history.status.isFiring)
      (hafter : ∀ r, e'.active r =
        if r = c.history.ruleID then c.history.status.isFiring else e.active r)

theorem changesOf_of_log {e e' : Engine V} {c : Change V} (h : e'.log = e.log ++ [c])
    (r : String) : e'.changesOf r =
      if r = c.history.ruleID then e.changesOf r ++ [c] else e.changesOf r := by
  simp only [Engine.changesOf, h, filter_append, filter_cons, filter_nil,
    decide_eq_true_eq, eq_comm (a := r)]
  split <;> simp

theorem report_cases (cfg : Config) (e : Engine V) (rule : AlertRule V) (history : AlertHistory V)
    (a : Answers V) : ∃ c : Change V, c.history = history ∧
      e.report cfg rule history a = { e with log := e.log ++ [c] } := by
  unfold Engine.report
  split
  · exact ⟨_, rfl, rfl⟩
  · exact ⟨_, rfl, rfl⟩

theorem step_handleFiring (cfg : Config) (e : Engine V) (rule : AlertRule V) (value : V)
    (a : Answers V) : Step e (handleFiring cfg e rule (alertKey rule.id) value a) := by
  unfold handleFiring
  split
  · next hnone =>
    obtain ⟨c, hc, heq⟩ := report_cases cfg
      { e with
        activeAlerts := e.activeAlerts.set (alertKey rule.id)
          { ruleID := rule.id, groupKey := alertKey rule.id, firstSeen := a.now, lastSeen := a.now
            value } } rule
      { ruleID := rule.id, workspaceID := rule.workspaceID, status := .firing
        severity := rule.severity, value, startedAt := a.now, message := rule.message } a
    simp only [heq]
    refine .change c rfl ?_ fun r => ?_
    · simp [hc, Engine.active, hnone, Status.isFiring]
    · simp only [Engine.active, GoMap.get_set, alertKey_inj, hc, Status.isFiring]
      split <;> rfl
  next active hsome =>
  refine .same rfl fun r => ?_
  simp only [Engine.active, GoMap.get_set, alertKey_inj]
  split
  · next h => rw [h, hsome]; rfl
  · rfl

theorem step_handleResolved (cfg : Config) (e : Engine V) (rule : AlertRule V) (value : V)
    (a : Answers V) : Step e (handleResolved cfg e rule (alertKey rule.id) value a) := by
  unfold handleResolved
  split
  · exact .same rfl fun _ => rfl
  next active hsome =>
  obtain ⟨c, hc, heq⟩ := report_cases cfg
    { e with activeAlerts := e.activeAlerts.delete (alertKey rule.id) } rule
    { ruleID := rule.id, workspaceID := rule.workspaceID, status := .resolved
      severity := rule.severity, value, startedAt := active.firstSeen, endedAt := some a.now
      message := "Resolved: " ++ rule.message } a
  simp only [heq]
  refine .change c rfl ?_ fun r => ?_
  · simp [hc, Engine.active, hsome, Status.isFiring]
  · simp only [Engine.active, GoMap.get_delete, alertKey_inj, hc, Status.isFiring]
    split <;> rfl

end

theorem step_evaluateRule (cfg : Config) (e : Engine V) (rule : AlertRule V) (a : Answers V) :
    Step e (evaluateRule cfg e rule a).1 := by
  have hsame : Step e e := .same rfl fun _ => rfl
  unfold evaluateRule
  split
  · exact hsame
  split
  · exact hsame
  · exact hsame
  split
  · exact step_handleFiring ..
  · exact step_handleResolved ..

def InStep (e : Engine V) : Prop :=
  ∀ r, Alternates true ((e.changesOf r).map (·.history.status.isFiring)) ∧
    (e.active r = false ↔ Even (e.changesOf r).length)

omit [Float64 V] in
theorem InStep.step {e e' : Engine V} (h : InStep e) (hstep : Step e e') : InStep e' := by
  intro r
  obtain ⟨halt, hact⟩ := h r
  cases hstep with
  | same hlog hsame =>
    rw [Engine.changesOf, hlog, hsame]
    exact ⟨halt, hact⟩
  | change c hlog hbef haft =>
    rw [changesOf_of_log hlog, haft]
    by_cases hr : r = c.history.ruleID
    · rw [hr, hbef] at hact
      rw [if_pos hr, if_pos hr, map_append, map_singleton, Alternates.concat_iff,
        length_map, length_append, length_singleton, Nat.even_add_one, hr, ← hact]
      refine ⟨⟨hr ▸ halt, ?_⟩, ?_⟩ <;> cases c.history.status <;> decide
    · rw [if_neg hr, if_neg hr]
      exact ⟨halt, hact⟩

theorem InStep.evaluate {cfg : Config} {e : Engine V} (h : InStep e) (round : Round V) :
    InStep (evaluate cfg e round) := by
  cases round with
  | none => exact h
  | some rules =>
    change InStep (rules.foldl _ e)
    induction rules generalizing e with
    | nil => exact h
    | cons rule rules ih => exact ih (h.step (step_evaluateRule cfg e rule.1 rule.2))

theorem inStep_run (cfg : Config) (rounds : List (Round V)) : InStep (run cfg rounds) := by
  have hnew : InStep ({} : Engine V) := fun r => ⟨trivial, iff_of_true rfl Even.zero⟩
  unfold run
  generalize ({} : Engine V) = e at hnew
  induction rounds generalizing e with
  | nil => exact hnew
  | cons round rounds ih => exact ih _ (hnew.evaluate round)

instance : Float64 Int where
  lt x y := x < y
  le x y := x ≤ y
  eq x y := x = y

def latencyRule : AlertRule Int where
  id := "r1"
  name := "latency"
  workspaceID := "ws"
  metricType := "latency"
  operator := "gt"
  threshold := 100
  lookback := "5m"
  channels := "[\"ch1\"]"
  severity := "warning"
  message := "latency is high"
  silenceUntil := none

def oneChannel : Config where
  notifiers := ["slack"]
  unmarshal _ := some ["ch1"]

def measured (value : Int) (stored : Bool) : Round Int :=
  some [(latencyRule,
    { now := 0
      listAlertSilences := some []
      query := fun _ => .ok (some value)
      createAlertHistory := stored
      getAlertChannel := fun _ => some ⟨"slack", "", true⟩
      send := fun _ => true })]

end LatticeMesh.AlertEngine
