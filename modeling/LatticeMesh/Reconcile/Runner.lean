import Mathlib.Data.Finset.Card
import Mathlib.Data.Fintype.Card
import LatticeMesh.Lib.GoMap
import LatticeMesh.Lib.LTS

/-! # The reconcile runner -/

namespace LatticeMesh.Reconcile

structure Request where
  kind : String
  key : String
  deriving DecidableEq

abbrev Time := Int

structure Registration where
  lister : Bool
  resync : Time

structure Config where
  workers : Nat
  backoff : List Time
  regs : GoMap String Registration
  workers_pos : 0 < workers
  backoff_ne : backoff ≠ []

inductive Action where
  | requeue (req : Request)
  | resync (kind : String)
  deriving DecidableEq

structure Event where
  atTime : Time
  action : Action
  deriving DecidableEq

inductive Outcome where
  | failed
  | done (requeueAfter : Time)
  deriving DecidableEq

structure Queues where
  pending : Finset Request
  pendingQueue : List Request
  inFlight : Finset Request
  pendingAfter : Finset Request
  fails : GoMap Request Nat
  events : List Event
  busy : Int

namespace Queues

def empty : Queues := ⟨∅, [], ∅, ∅, .empty, [], 0⟩

def enqueue (q : Queues) (req : Request) : Queues :=
  if req ∈ q.inFlight then { q with pendingAfter := insert req q.pendingAfter }
  else if req ∈ q.pending then q
  else
    { q with
      pending := insert req q.pending
      pendingQueue := q.pendingQueue ++ [req] }

def enqueueAll (q : Queues) (reqs : List Request) : Queues := reqs.foldl enqueue q

def fire (cfg : Config) (q : Queues) (firedAt : Time) (action : Action)
    (listed : Option (List Request)) : Queues :=
  match action with
  | .requeue req => q.enqueue req
  | .resync kind =>
    match cfg.regs.get kind with
    | none => q
    | some reg =>
      if reg.lister then
        let q := if reg.resync > 0 then
          { q with events := ⟨firedAt + reg.resync, .resync kind⟩ :: q.events } else q
        match listed with
        | none => q
        | some keys => q.enqueueAll keys
      else q

def dispatchHead (q : Queues) (req : Request) (rest : List Request) : Queues :=
  { q with
    pendingQueue := rest
    pending := q.pending.erase req
    inFlight := insert req q.inFlight
    busy := q.busy + 1 }

def backoffAt (cfg : Config) (attempt : Nat) : Time :=
  cfg.backoff.getD (min (attempt - 1) (cfg.backoff.length - 1)) 0

def settle (cfg : Config) (q : Queues) (req : Request) (outcome : Outcome) (now : Time) : Queues :=
  match outcome with
  | .failed =>
    let attempt := (q.fails.get req).getD 0 + 1
    { q with
      fails := q.fails.set req attempt
      events := ⟨now + backoffAt cfg attempt, .requeue req⟩ :: q.events }
  | .done requeueAfter =>
    { q with
      fails := q.fails.delete req
      events := if requeueAfter > 0 then ⟨now + requeueAfter, .requeue req⟩ :: q.events
        else q.events }

def complete (cfg : Config) (q : Queues) (req : Request) (outcome : Outcome) (now : Time) :
    Queues :=
  let q := { q with busy := q.busy - 1, inFlight := q.inFlight.erase req }
  let q := q.settle cfg req outcome now
  if req ∈ q.pendingAfter then
    enqueue { q with pendingAfter := q.pendingAfter.erase req } req
  else q

end Queues

inductive Scheduler where
  | starting
  | top
  | selecting
  | woken
  | firing (firedAt : Time)
  | dispatching
  | sending (req : Request)
  | returned
  deriving DecidableEq

inductive Worker where
  | looping
  | idle
  | running (req : Request)
  | completing (req : Request) (outcome : Outcome)
  | exited
  deriving DecidableEq

def Worker.request : Worker → Option Request
  | .running req => some req
  | .completing req _ => some req
  | _ => none

structure State (n : Nat) where
  inbox : Finset Request
  wake : Bool
  signals : Nat
  cancelled : Bool
  scheduler : Scheduler
  queues : Queues
  workers : Fin n → Worker

inductive Label (n : Nat) where
  | notify (req : Request)
  | signal
  | cancel
  | start (times : String → Time)
  | arm
  | stop
  | wake
  | drain (order : List Request)
  | timer (firedAt : Time)
  | fire (ev : Event) (listed : Option (List Request))
  | fired
  | dispatch
  | idle
  | abandon
  | send (w : Fin n)
  | complete (w : Fin n) (now : Time)
  | ready (w : Fin n)
  | finish (w : Fin n) (outcome : Outcome)
  | exit (w : Fin n)

section

variable (cfg : Config)

def Config.resynced : List String :=
  cfg.regs.toList.filterMap fun e => if e.2.lister ∧ e.2.resync > 0 then some e.1 else none

def State.setWorker {n : Nat} (s : State n) (w : Fin n) (x : Worker) : State n :=
  { s with workers := Function.update s.workers w x }

inductive Step : State cfg.workers → Label cfg.workers → State cfg.workers → Prop
  | notify {s req} (hreg : (cfg.regs.get req.kind).isSome) :
      Step s (.notify req) { s with inbox := insert req s.inbox, signals := s.signals + 1 }
  | signal {s} (h : 0 < s.signals) :
      Step s .signal { s with signals := s.signals - 1, wake := true }
  | cancel {s} : Step s .cancel { s with cancelled := true }
  | start {s} {times : String → Time} (h : s.scheduler = .starting) :
      Step s (.start times) { s with
        scheduler := .top
        queues := { s.queues with
          events := cfg.resynced.map fun kind => ⟨times kind, .resync kind⟩ } }
  | arm {s} (h : s.scheduler = .top) (hc : s.cancelled = false) :
      Step s .arm { s with scheduler := .selecting }
  | stop {s} (h : s.scheduler = .top ∨ s.scheduler = .selecting) (hc : s.cancelled = true) :
      Step s .stop { s with scheduler := .returned }
  | wake {s} (h : s.scheduler = .selecting) (hw : s.wake = true) :
      Step s .wake { s with scheduler := .woken, wake := false }
  | drain {s order} (h : s.scheduler = .woken) (hn : order.Nodup) (ho : order.toFinset = s.inbox) :
      Step s (.drain order) { s with
        scheduler := .dispatching
        inbox := ∅
        queues := s.queues.enqueueAll order }
  | timer {s firedAt} (h : s.scheduler = .selecting) (he : s.queues.events ≠ []) :
      Step s (.timer firedAt) { s with scheduler := .firing firedAt }
  | fire {s firedAt ev listed} (h : s.scheduler = .firing firedAt) (hev : ev ∈ s.queues.events)
      (hmin : ∀ e ∈ s.queues.events, ev.atTime ≤ e.atTime) (hdue : ev.atTime ≤ firedAt) :
      Step s (.fire ev listed) { s with
        queues := Queues.fire cfg { s.queues with events := s.queues.events.erase ev } firedAt
          ev.action listed }
  | fired {s firedAt} (h : s.scheduler = .firing firedAt)
      (hnone : ∀ e ∈ s.queues.events, firedAt < e.atTime) :
      Step s .fired { s with scheduler := .dispatching }
  | dispatch {s req rest} (h : s.scheduler = .dispatching)
      (hb : s.queues.busy < (cfg.workers : Int))
      (hq : s.queues.pendingQueue = req :: rest) :
      Step s .dispatch { s with
        scheduler := .sending req
        queues := s.queues.dispatchHead req rest }
  | idle {s} (h : s.scheduler = .dispatching)
      (hdone : (cfg.workers : Int) ≤ s.queues.busy ∨ s.queues.pendingQueue = []) :
      Step s .idle { s with scheduler := .top }
  | abandon {s req} (h : s.scheduler = .sending req) (hc : s.cancelled = true) :
      Step s .abandon { s with scheduler := .top }
  | send {s req w} (h : s.scheduler = .sending req) (hw : s.workers w = .idle) :
      Step s (.send w) ({ s with scheduler := .dispatching }.setWorker w (.running req))
  | complete {s req outcome w now} (h : s.scheduler = .selecting)
      (hw : s.workers w = .completing req outcome) :
      Step s (.complete w now) ({ s with
        scheduler := .dispatching
        queues := s.queues.complete cfg req outcome now }.setWorker w .looping)
  | ready {s w} (hw : s.workers w = .looping) : Step s (.ready w) (s.setWorker w .idle)
  | finish {s w req outcome} (hw : s.workers w = .running req) :
      Step s (.finish w outcome) (s.setWorker w (.completing req outcome))
  | exit {s w} (hw : s.workers w = .idle ∨ ∃ req outcome, s.workers w = .completing req outcome)
      (hc : s.cancelled = true) : Step s (.exit w) (s.setWorker w .exited)

def runner : LTS (State cfg.workers) (Label cfg.workers) where
  init s := s = ⟨∅, false, 0, false, .starting, .empty, fun _ => .looping⟩
  step := Step cfg

end

end LatticeMesh.Reconcile
