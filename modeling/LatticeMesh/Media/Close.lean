import LatticeMesh.Lib.Progress
import LatticeMesh.Media.Handle

/-! # Closing a media handle -/

namespace LatticeMesh.Media

open List

structure Reader where
  offset : Int
  n : Nat
  late : Bool
  deriving DecidableEq

inductive Discards where
  | openAt (r : Reader)
  | fail (r : Reader)
  | close
  deriving DecidableEq

structure Shared where
  handle : Handle := {}
  mu : Bool := false
  cancel : Option Nat := none
  contexts : Nat := 0
  cancelled : List Nat := []
  requests : List Nat := []
  bodyOf : Option Nat := none
  returned : Bool := false

inductive Point where
  | lock (r : Reader)
  | check (r : Reader)
  | discard (k : Discards)
  | drop (k : Discards) (cancel : Option Nat)
  | publish (r : Reader)
  | checkClosing (r : Reader) (id : Nat)
  | send (r : Reader) (id : Nat)
  | wait (r : Reader) (id : Nat)
  | unpublish (r : Reader) (id : Nat)
  | abort (r : Reader) (id : Nat)
  | read (r : Reader)
  | unlock (r : Reader) (result : Int)
  | done (r : Reader) (result : Int)
  | close
  | snapshot (sleeps : Nat)
  | fire (sleeps : Nat) (cancel : Option Nat)
  | tryLock (sleeps : Nat)
  | deadline (sleeps : Nat)
  | sleep (sleeps : Nat)
  | giveUp
  | setClosed
  | closeUnlock
  | closed
  deriving DecidableEq

structure Choice where
  response : Response := .failed ""
  interrupted : Option Nat := none
  contended : Bool := false
  late : Bool := false

instance : Nonempty Choice := ⟨{}⟩

namespace Shared

def fire (s : Shared) (cancel : Option Nat) : Shared :=
  { s with cancelled := cancel.toList ++ s.cancelled }

def readFull (s : Shared) (c : Choice) (b : Body) (n : Nat) : Read :=
  match c.interrupted with
  | none => Media.readFull b n
  | some count =>
    if s.bodyOf.any (s.cancelled.contains ·) then
      ⟨b.arriving.take count, some .other, { b with arriving := b.arriving.drop count }⟩
    else Media.readFull b n

end Shared

def closeRetryInterval : Nat := 5

def closeRetryTimeout : Nat := 5000

def afterDeadline (c : Choice) (sleeps : Nat) : Bool :=
  c.late || closeRetryTimeout < sleeps * closeRetryInterval

def enabled (s : Shared) : Point → Prop
  | .lock _ => s.mu = false
  | .done _ _ | .closed => False
  | _ => True

instance (s : Shared) (p : Point) : Decidable (enabled s p) := by
  cases p <;> dsimp only [enabled] <;> infer_instance

def effect (content : List UInt8) (c : Choice) (s : Shared) : Point → Shared
  | .lock _ => { s with mu := true }
  | .discard _ => { s with cancel := none }
  | .drop _ cancel =>
    { s.fire cancel with
      handle := s.handle.discardBody
      requests := s.requests.filter (some · ≠ s.bodyOf)
      bodyOf := none }
  | .publish _ => { s with cancel := some s.contexts, contexts := s.contexts + 1 }
  | .send _ id => { s with requests := id :: s.requests }
  | .wait r id =>
    match adopt content r.offset c.response with
    | .error _ => { s with requests := s.requests.filter (· ≠ id) }
    | .ok body =>
      { s with handle := { s.handle with body := some body, pos := r.offset }, bodyOf := some id }
  | .unpublish _ _ => { s with cancel := none }
  | .abort _ id => s.fire (some id)
  | .read r =>
    match s.handle.body with
    | none => s
    | some b =>
      let read := s.readFull c b r.n
      { s with
        handle := { s.handle with body := some read.rest, pos := s.handle.pos + read.data.length } }
  | .unlock _ _ => { s with mu := false }
  | .close => { s with handle := { s.handle with closing := true } }
  | .fire _ cancel => s.fire cancel
  | .tryLock _ => if s.mu || c.contended then s else { s with mu := true }
  | .giveUp => { s with returned := true }
  | .setClosed => { s with handle := { s.handle with closed := true } }
  | .closeUnlock => { s with mu := false, returned := true }
  | _ => s

def Discards.next : Discards → Point
  | .openAt r => .publish r
  | .fail r => .unlock r (-1)
  | .close => .setClosed

def next (content : List UInt8) (c : Choice) (s : Shared) : Point → Point
  | .lock r => .check r
  | .check r =>
    if s.handle.closed then .unlock r (-1)
    else if s.handle.body = none ∨ s.handle.pos ≠ r.offset then .discard (.openAt r)
    else .read r
  | .discard k => .drop k s.cancel
  | .drop k _ => k.next
  | .publish r => .checkClosing r s.contexts
  | .checkClosing r id => if s.handle.closing then .unpublish r id else .send r id
  | .send r id => .wait r id
  | .wait r id =>
    match adopt content r.offset c.response with
    | .error _ => .unpublish r id
    | .ok _ => .read r
  | .unpublish r id => .abort r id
  | .abort r _ => .unlock r (-1)
  | .read r =>
    match s.handle.body with
    | none => .unlock r (-1)
    | some b =>
      let read := s.readFull c b r.n
      if read.err = some .other then .discard (.fail r) else .unlock r read.data.length
  | .unlock r result => .done r result
  | .close => .snapshot 0
  | .snapshot sleeps => .fire sleeps s.cancel
  | .fire sleeps _ => .tryLock sleeps
  | .tryLock sleeps => if s.mu || c.contended then .deadline sleeps else .discard .close
  | .deadline sleeps => if afterDeadline c sleeps then .giveUp else .sleep sleeps
  | .sleep sleeps => .snapshot (sleeps + 1)
  | .giveUp => .closed
  | .setClosed => .closeUnlock
  | .closeUnlock => .closed
  | p => p

section

-- the equations are derived once, before the proofs
attribute [local simp] next effect

end

inductive UserCall where
  | readAt (offset : Int) (n : Nat)
  | close

inductive Env (s : Shared) : UserCall → Shared → List Point → Prop
  | readAt (offset : Int) (n : Nat) : Env s (.readAt offset n) s [.lock ⟨offset, n, s.returned⟩]
  | close : Env s .close s [.close]

def program (content : List UInt8) : Program Shared Point Choice UserCall where
  init s := s = {}
  enabled := enabled
  effect := effect content
  next := next content
  spawn _ _ _ := []
  env := Env

instance (content : List UInt8) (s : Shared) (p : Point) :
    Decidable ((program content).enabled s p) :=
  inferInstanceAs (Decidable (enabled s p))

variable {content : List UInt8} {c : Choice} {s : Shared} {p : Point}

def Point.holds : Point → Bool
  | .check _ | .discard _ | .drop _ _ | .publish _ | .checkClosing _ _ | .send _ _ | .wait _ _
  | .unpublish _ _ | .abort _ _ | .read _ | .unlock _ _ | .setClosed | .closeUnlock => true
  | _ => false

theorem holds_next (hen : enabled s p) (hp : p.holds = true → s.mu = true) :
    (next content c s p).holds.toNat + s.mu.toNat =
      p.holds.toNat + (effect content c s p).mu.toNat := by
  cases p with
  | lock r =>
    rw [show s.mu = false from hen]
    rfl
  | unlock | closeUnlock =>
    rw [hp rfl]
    rfl
  | tryLock sleeps =>
    simp only [next, effect]
    cases hmu : s.mu <;> cases hc : c.contended <;> simp [Point.holds, hmu]
  | drop k cancel => cases k <;> simp [next, effect, Discards.next, Point.holds, Shared.fire]
  | check r =>
    simp only [next, effect]
    (repeat' split) <;> simp [Point.holds]
  | wait r id | checkClosing | deadline =>
    simp only [next, effect]
    split <;> simp [Point.holds]
  | read r =>
    simp only [next, effect]
    split
    · simp [Point.holds]
    · split <;> simp [Point.holds]
  | _ => simp [next, effect, Point.holds, Shared.fire]

theorem lock_balance {s : Pool Shared Point} (h : (program content).system.Reachable s) :
    s.threads.countP Point.holds = s.shared.mu.toNat := by
  have hsum := (program content).balance Point.holds (fun _ => 0) (fun s => s.mu.toNat) ?_ ?_ ?_ h
  · simpa using hsum
  · rintro s rfl
    rfl
  · rintro s c p - hp hsum hen
    have hmu : p.holds = true → s.shared.mu = true := by
      intro hho
      have hpos : 0 < s.threads.countP Point.holds := countP_pos_iff.2 ⟨p, hp, hho⟩
      cases hmu : s.shared.mu with
      | true => rfl
      | false =>
        rw [hmu] at hsum
        simp only [Bool.toNat_false] at hsum
        omega
    have hnext : (next content c s.shared p).holds.toNat + _ = _ := holds_next hen hmu
    simp only [program, countP_nil]
    omega
  · rintro s e t new henv
    cases henv <;> simp [Point.holds]

variable {i : ℕ}

theorem mu_of_holds {s : Pool Shared Point} (h : (program content).system.Reachable s)
    (hi : s.threads[i]? = some p) (hp : p.holds = true) : s.shared.mu = true := by
  have hpos : 0 < s.threads.countP Point.holds :=
    countP_pos_iff.2 ⟨p, mem_of_getElem? hi, hp⟩
  rw [lock_balance h] at hpos
  cases hmu : s.shared.mu with
  | true => rfl
  | false =>
    rw [hmu] at hpos
    exact absurd hpos (Nat.lt_irrefl 0)

theorem not_both_hold {s : Pool Shared Point} {j : ℕ} {q : Point}
    (h : (program content).system.Reachable s) (hi : s.threads[i]? = some p)
    (hj : s.threads[j]? = some q) (hji : j ≠ i) (hp : p.holds = true) : q.holds = false := by
  by_contra hq
  have htwo := Program.two_le_countP hi hj hji hp (eq_true_of_ne_false hq)
  rw [lock_balance h] at htwo
  have hone := Bool.toNat_le s.shared.mu
  omega

namespace Shared

def Settled (s : Shared) : Prop :=
  s.requests = s.bodyOf.toList ∧ (s.bodyOf = none → s.handle.body = none)

structure Quiet (s : Shared) : Prop where
  requests : s.requests = []
  bodyOf : s.bodyOf = none
  body : s.handle.body = none

theorem Quiet.settled {s : Shared} (h : s.Quiet) : s.Settled := by
  refine ⟨?_, fun _ => h.body⟩
  rw [h.requests, h.bodyOf]
  rfl

theorem Settled.quiet_drop (h : s.Settled) (k : Discards) (cancel : Option Nat) :
    (effect content c s (.drop k cancel)).Quiet := by
  refine ⟨?_, rfl, rfl⟩
  simp only [effect, h.1]
  cases s.bodyOf <;> simp

end Shared

def Reader.Early (r : Reader) (s : Shared) : Prop := r.late = false ∧ s.handle.closed = false

def Assert (s : Shared) : Point → Prop
  | .lock r => r.late = true → s.handle.closed = true
  | .check r => (r.late = true → s.handle.closed = true) ∧ s.Settled
  | .discard (.openAt r) | .discard (.fail r) | .drop (.openAt r) _ | .drop (.fail r) _
  | .read r => r.Early s ∧ s.Settled
  | .publish r | .checkClosing r _ | .send r _ | .unpublish r _ | .abort r _ => r.Early s ∧ s.Quiet
  | .wait r id =>
    r.Early s ∧ s.requests = [id] ∧ s.bodyOf = none ∧ s.handle.body = none
  | .unlock r result => (r.late = true → result = -1) ∧ s.Settled
  | .done r result => r.late = true → result = -1
  | .discard .close | .drop .close _ => s.Settled
  | .setClosed => s.Quiet
  | .closeUnlock => s.Quiet ∧ s.handle.closed = true
  | .closed => s.handle.closed = true
  | _ => True

structure Inv (s : Shared) : Prop where
  settled : s.mu = false → s.Settled
  quiet : s.handle.closed = true → s.Quiet
  closed : s.returned = true → s.handle.closed = true

def Shared.view (s : Shared) : Option Body × Option Nat × List Nat × Bool :=
  (s.handle.body, s.bodyOf, s.requests, s.handle.closed)

variable {t : Shared}

theorem Shared.settled_congr {s : Shared} (h : t.view = s.view) : t.Settled ↔ s.Settled := by
  simp only [view, Prod.mk.injEq] at h
  simp only [Settled, h]

theorem Shared.quiet_congr {s : Shared} (h : t.view = s.view) : t.Quiet ↔ s.Quiet := by
  simp only [view, Prod.mk.injEq] at h
  constructor
  · rintro ⟨h₁, h₂, h₃⟩
    exact ⟨by rw [← h.2.2.1, h₁], by rw [← h.2.1, h₂], by rw [← h.1, h₃]⟩
  · rintro ⟨h₁, h₂, h₃⟩
    exact ⟨by rw [h.2.2.1, h₁], by rw [h.2.1, h₂], by rw [h.1, h₃]⟩

theorem assert_congr {s : Shared} (h : t.view = s.view) : Assert t p ↔ Assert s p := by
  have hset := Shared.settled_congr h
  have hqt := Shared.quiet_congr h
  simp only [Shared.view, Prod.mk.injEq] at h
  cases p with
  | discard k | drop k => cases k <;> simp only [Assert, Reader.Early, hset, h]
  | _ => simp only [Assert, Reader.Early, hset, hqt, h]

theorem view_effect (hp : p.holds = false) : (effect content c s p).view = s.view := by
  cases p with
  | tryLock =>
    simp only [effect]
    split <;> rfl
  | _ => first | rfl | cases hp

theorem closed_effect (h : s.handle.closed = true) :
    (effect content c s p).handle.closed = true := by
  cases p with
  | wait | read | tryLock =>
    simp only [effect]
    split <;> exact h
  | setClosed => rfl
  | _ => exact h

theorem assert_of_closed {s : Shared} {q : Point} (hq : q.holds = false)
    (hcl : s.handle.closed = true → t.handle.closed = true) (h : Assert s q) : Assert t q := by
  cases q with
  | lock r => exact fun hlate => hcl (h hlate)
  | closed => exact hcl h
  | done => exact h
  | _ => trivial

def NoGiveUp (_ : Pool Shared Point) (p : Point) : Prop := p ≠ .giveUp

theorem Inv.of_locked {s : Shared} (h : Inv s) (hmu : t.mu = true)
    (hcl : t.handle.closed = s.handle.closed) (hopen : s.handle.closed = false)
    (hret : t.returned = s.returned) : Inv t := by
  refine ⟨fun hfree => ?_, fun hc => ?_, fun hr => ?_⟩
  · rw [hmu] at hfree
    cases hfree
  · rw [hcl, hopen] at hc
    cases hc
  · rw [hcl]
    exact h.closed (hret ▸ hr)

theorem Inv.of_view {s : Shared} (h : Inv s) (hview : t.view = s.view)
    (hmu : t.mu = false → s.mu = false ∨ s.Settled) (hret : t.returned = s.returned) :
    Inv t := by
  have hcl : t.handle.closed = s.handle.closed := by
    simp only [Shared.view, Prod.mk.injEq] at hview
    exact hview.2.2.2
  refine ⟨fun hfree => ?_, fun hc => ?_, fun hr => ?_⟩
  · exact (Shared.settled_congr hview).2 ((hmu hfree).elim h.settled id)
  · exact (Shared.quiet_congr hview).2 (h.quiet (hcl ▸ hc))
  · exact hcl ▸ h.closed (hret ▸ hr)

theorem step_of_holds (hinv : Inv s) (h : Assert s p) (hp : p.holds = true) (hmu : s.mu = true) :
    Inv (effect content c s p) ∧ Assert (effect content c s p) (next content c s p) := by
  have hloc : ∀ t : Shared, t.mu = s.mu → t.mu = false → s.mu = false ∨ s.Settled :=
    fun t ht hfree => .inl (ht ▸ hfree)
  cases p with
  | check r =>
    refine ⟨hinv.of_view rfl (hloc _ rfl) rfl, ?_⟩
    simp only [next, effect]
    split
    · exact ⟨fun _ => rfl, h.2⟩
    next hopen =>
    have hear : r.Early s := by
      refine ⟨?_, eq_false_of_ne_true hopen⟩
      by_contra hlate
      exact hopen (h.1 (eq_true_of_ne_false hlate))
    split
    · exact ⟨hear, h.2⟩
    · exact ⟨hear, h.2⟩
  | discard k =>
    refine ⟨hinv.of_view rfl (hloc _ rfl) rfl, ?_⟩
    cases k <;> exact (assert_congr rfl).2 h
  | drop k cancel =>
    have hset : s.Settled := by
      cases k with
      | close => exact h
      | _ => exact h.2
    have hqt : (effect content c s (.drop k cancel)).Quiet := hset.quiet_drop k cancel
    refine ⟨⟨fun _ => hqt.settled, fun _ => hqt, hinv.closed⟩, ?_⟩
    cases k with
    | openAt r => exact ⟨h.1, hqt⟩
    | fail r => exact ⟨fun _ => rfl, hqt.settled⟩
    | close => exact hqt
  | publish r | unpublish r id =>
    refine ⟨hinv.of_view rfl (hloc _ rfl) rfl, ?_⟩
    exact ⟨h.1, h.2.requests, h.2.bodyOf, h.2.body⟩
  | checkClosing r id =>
    refine ⟨hinv.of_view rfl (hloc _ rfl) rfl, ?_⟩
    simp only [next, effect]
    split <;> exact h
  | send r id =>
    refine ⟨hinv.of_locked hmu rfl h.1.2 rfl, h.1, ?_, h.2.bodyOf, h.2.body⟩
    exact congrArg (id :: ·) h.2.requests
  | wait r id =>
    simp only [next, effect]
    obtain ⟨hear, hreq, hbod, hbody⟩ := h
    split
    · refine ⟨hinv.of_locked hmu rfl hear.2 rfl, hear, ?_, hbod, hbody⟩
      simp [hreq]
    refine ⟨hinv.of_locked hmu rfl hear.2 rfl, hear, ?_, fun hnone => ?_⟩
    · exact hreq
    · cases hnone
  | abort r id =>
    refine ⟨hinv.of_view rfl (hloc _ rfl) rfl, ?_⟩
    exact ⟨fun _ => rfl, (Shared.settled_congr rfl).2 h.2.settled⟩
  | read r =>
    obtain ⟨hear, hset⟩ := h
    simp only [next, effect]
    split
    · exact ⟨hinv, fun _ => rfl, hset⟩
    next b hb =>
    refine ⟨hinv.of_locked hmu rfl hear.2 rfl, ?_⟩
    have hsti : Shared.Settled { s with
        handle := { s.handle with
          body := some (s.readFull c b r.n).rest
          pos := s.handle.pos + (s.readFull c b r.n).data.length } } := by
      refine ⟨hset.1, fun hnone => ?_⟩
      rw [hset.2 hnone] at hb
      cases hb
    split
    · exact ⟨hear, hsti⟩
    refine ⟨fun hlate => ?_, hsti⟩
    rw [hear.1] at hlate
    cases hlate
  | unlock r result => exact ⟨hinv.of_view rfl (fun _ => .inr h.2) rfl, h.1⟩
  | setClosed =>
    have hqt : (effect content c s .setClosed).Quiet := ⟨h.requests, h.bodyOf, h.body⟩
    exact ⟨⟨fun _ => hqt.settled, fun _ => hqt, fun _ => rfl⟩, hqt, rfl⟩
  | closeUnlock =>
    have hqt : (effect content c s .closeUnlock).Quiet :=
      ⟨h.1.requests, h.1.bodyOf, h.1.body⟩
    exact ⟨⟨fun _ => hqt.settled, fun _ => hqt, fun _ => h.2⟩, h.2⟩
  | _ => cases hp

theorem step_of_not_holds (hinv : Inv s) (h : Assert s p) (hp : p.holds = false)
    (hen : enabled s p) (hgive : p ≠ .giveUp) :
    Inv (effect content c s p) ∧ Assert (effect content c s p) (next content c s p) := by
  have hview : (effect content c s p).view = s.view := view_effect hp
  cases p with
  | lock r =>
    refine ⟨hinv.of_view hview (fun hfree => ?_) rfl, h, ?_⟩
    · cases hfree
    · exact (Shared.settled_congr hview).2 (hinv.settled hen)
  | tryLock sleeps =>
    simp only [next, effect]
    cases hmu : s.mu || c.contended with
    | true => exact ⟨hinv, trivial⟩
    | false =>
      have hfree : s.mu = false := (Bool.or_eq_false_iff.1 hmu).1
      refine ⟨hinv.of_view rfl (fun h => ?_) rfl, ?_⟩
      · cases h
      · exact (Shared.settled_congr rfl).2 (hinv.settled hfree)
  | deadline sleeps =>
    refine ⟨hinv, ?_⟩
    simp only [next, effect]
    split <;> trivial
  | giveUp => exact absurd rfl hgive
  | close | snapshot | fire | sleep => exact ⟨hinv.of_view rfl .inl rfl, trivial⟩
  | done | closed => exact hen.elim
  | _ => cases hp

theorem holds_noGiveUp {s : Pool Shared Point}
    (h : ((program content).system.guard (Program.onlyIf NoGiveUp)).Reachable s) :
    Program.Holds Inv Assert s := by
  refine Program.holds_reachable ?_ ?_ ?_ ?_ h
  · rintro s rfl
    refine ⟨fun _ => ⟨rfl, fun _ => rfl⟩, fun hc => ?_, fun hr => ?_⟩
    · cases hc
    · cases hr
  · intro s i c p hr hs hi hen hgd
    have hass := hs.2 p (mem_of_getElem? hi)
    have hstep : Inv (effect content c s.shared p) ∧
        Assert (effect content c s.shared p) (next content c s.shared p) := by
      cases hp : p.holds with
      | true => exact step_of_holds hs.1 hass hp (mu_of_holds hr.of_guard hi hp)
      | false => exact step_of_not_holds hs.1 hass hp hen (hgd p hi)
    refine ⟨hstep.1, hstep.2, fun q hq => ?_⟩
    cases hq
  · intro s i c p q j hr hs hi hen hgd hji hj
    have hass := hs.2 q (mem_of_getElem? hj)
    cases hp : p.holds with
    | true => exact assert_of_closed (not_both_hold hr.of_guard hi hj hji hp) closed_effect hass
    | false => exact (assert_congr (view_effect hp)).2 hass
  intro s e t new hs henv hgd
  cases henv with
  | readAt offset n =>
    refine ⟨hs.1, fun q hq => ?_, hs.2⟩
    rw [mem_singleton.1 hq]
    exact hs.1.closed
  | close =>
    refine ⟨hs.1, fun q hq => ?_, hs.2⟩
    rw [mem_singleton.1 hq]
    trivial


def Point.closes : Point → Bool
  | .close | .discard .close | .drop .close _ | .giveUp | .setClosed | .closeUnlock => true
  | .snapshot sleeps | .fire sleeps _ | .tryLock sleeps | .deadline sleeps =>
    sleeps ≤ closeRetryTimeout / closeRetryInterval + 1
  | .sleep sleeps => sleeps ≤ closeRetryTimeout / closeRetryInterval
  | _ => false

def Point.left : Point → Nat
  | .close => 6020
  | .snapshot sleeps => 6019 - 6 * sleeps
  | .fire sleeps _ => 6018 - 6 * sleeps
  | .tryLock sleeps => 6017 - 6 * sleeps
  | .deadline sleeps => 6016 - 6 * sleeps
  | .sleep sleeps => 6015 - 6 * sleeps
  | .discard _ => 4
  | .drop _ _ => 3
  | .setClosed => 2
  | .giveUp | .closeUnlock => 1
  | _ => 0

theorem left_next (hp : p.closes = true) :
    next content c s p = .closed ∨
      (next content c s p).closes = true ∧ (next content c s p).left < p.left := by
  cases p with
  | discard k | drop k =>
    cases k with
    | close => exact .inr ⟨rfl, by simp only [next, Discards.next, Point.left]; omega⟩
    | _ => cases hp
  | giveUp | closeUnlock => exact .inl rfl
  | close | setClosed => exact .inr ⟨rfl, by simp only [next, Point.left]; omega⟩
  | snapshot sleeps | fire sleeps =>
    refine .inr ⟨hp, ?_⟩
    have hle := of_decide_eq_true hp
    simp only [next, Point.left, closeRetryTimeout, closeRetryInterval] at hle ⊢
    omega
  | tryLock sleeps =>
    have hle := of_decide_eq_true hp
    simp only [closeRetryTimeout, closeRetryInterval] at hle
    simp only [next]
    split
    · refine .inr ⟨hp, ?_⟩
      simp only [Point.left]
      omega
    refine .inr ⟨rfl, ?_⟩
    simp only [Point.left]
    omega
  | deadline sleeps =>
    have hle := of_decide_eq_true hp
    simp only [closeRetryTimeout, closeRetryInterval] at hle
    cases hlate : afterDeadline c sleeps with
    | true =>
      simp only [next, hlate, if_true]
      exact .inr ⟨rfl, by simp only [Point.left]; omega⟩
    | false =>
      have hfit : ¬ 5000 < sleeps * 5 := of_decide_eq_false (Bool.or_eq_false_iff.1 hlate).2
      simp only [next, hlate, Bool.false_eq_true, if_false]
      refine .inr ⟨decide_eq_true ?_, ?_⟩
      · simp only [closeRetryTimeout, closeRetryInterval]
        omega
      · simp only [Point.left]
        omega
  | sleep sleeps =>
    have hle := of_decide_eq_true hp
    simp only [closeRetryTimeout, closeRetryInterval] at hle
    refine .inr ⟨decide_eq_true ?_, ?_⟩
    · simp only [closeRetryTimeout, closeRetryInterval]
      omega
    · simp only [next, Point.left]
      omega
  | _ => cases hp

theorem enabled_of_closes (hp : p.closes = true) : enabled s p := by
  cases p <;> trivial

theorem inevitable_closed {s : Pool Shared Point} (hi : s.threads[i]? = some p)
    (hp : p.closes = true) :
    Inevitable ((program content).Own i) ((program content).Others i)
      (fun t => ∃ q, t.threads[i]? = some q ∧ q = .closed) s :=
  Program.inevitable_of_rank (I := fun p => p.closes = true) Point.left
    (fun _ _ => enabled_of_closes) (fun _ _ _ => left_next) hi hp

theorem closed_later {b : Behaviour (program content).system} {n m : ℕ} (hnm : n ≤ m)
    (h : (b.state n).shared.handle.closed = true) : (b.state m).shared.handle.closed = true := by
  induction m, hnm using Nat.le_induction with
  | base => exact h
  | succ m hnm ih =>
    obtain ⟨-, hsame⟩ | ⟨l, -, hstep⟩ := b.next_cases m
    · exact hsame ▸ ih
    generalize b.state (m + 1) = t at hstep
    cases hstep with
    | run hi hen => exact closed_effect ih
    | env henv => cases henv <;> exact ih

def Point.held : Point → Nat
  | .discard _ => 4
  | .drop _ _ => 3
  | .check _ | .setClosed => 2
  | .unlock _ _ | .closeUnlock => 1
  | _ => 0

theorem held_next (hcl : s.handle.closed = true) (h : Assert s p) (hp : p.holds = true) :
    (effect content c s p).mu = false ∨
      (next content c s p).holds = true ∧ (next content c s p).held < p.held := by
  have hear : ∀ r : Reader, ¬ r.Early s := fun r hr => by
    rw [hr.2] at hcl
    cases hcl
  cases p with
  | check r =>
    simp only [next, hcl, if_true]
    exact .inr ⟨rfl, Nat.lt_succ_self 1⟩
  | discard k | drop k =>
    cases k with
    | close => exact .inr ⟨rfl, Nat.lt_succ_self _⟩
    | _ => exact absurd h.1 (hear _)
  | unlock | closeUnlock => exact .inl rfl
  | setClosed => exact .inr ⟨rfl, Nat.lt_succ_self 1⟩
  | publish | checkClosing | send | wait | unpublish | abort | read => exact absurd h.1 (hear _)
  | _ => cases hp

section

variable {b : Behaviour (program content).system} {n : ℕ}

theorem lock_free (hfair : ∀ i, b.StronglyFair (Program.steps i))
    (hgd : ∀ n l, b.label n = some l → Program.onlyIf NoGiveUp (b.state n) l)
    (hcl : (b.state n).shared.handle.closed = true) :
    ∃ m, n ≤ m ∧ (b.state m).shared.mu = false := by
  cases hmu : (b.state n).shared.mu with
  | false => exact ⟨n, le_rfl, hmu⟩
  | true =>
    have hcnt := lock_balance (b.reachable n)
    rw [hmu] at hcnt
    obtain ⟨p, hp, hho⟩ : ∃ p ∈ (b.state n).threads, p.holds = true :=
      countP_pos_iff.1 (hcnt ▸ Nat.one_pos)
    obtain ⟨j, hj⟩ := mem_iff_getElem?.1 hp
    refine Program.progress_of_rank (hfair j) Point.held (I := fun p => p.holds = true)
      (fun m p hnm hi hp => ⟨m, le_rfl, ?_⟩) (fun m p c hnm hi hp _ _ haft => ?_) hj hho
    · change enabled _ p
      cases p <;> trivial
    rw [haft]
    exact held_next (closed_later hnm hcl)
      ((holds_noGiveUp (b.reachable_guard hgd m)).2 p (mem_of_getElem? hi)) hp

def Point.toReturn : Point → Nat
  | .lock _ => 3
  | .check _ => 2
  | .unlock _ _ => 1
  | _ => 0

theorem returns_of_closed (hfair : ∀ i, b.StronglyFair (Program.steps i))
    (hgd : ∀ n l, b.label n = some l → Program.onlyIf NoGiveUp (b.state n) l)
    (hcl : (b.state n).shared.handle.closed = true) {r : Reader}
    (hi : (b.state n).threads[i]? = some (.lock r)) :
    ∃ m, n ≤ m ∧ (b.state m).threads[i]? = some (.done r (-1)) := by
  refine Program.progress_of_rank (hfair i) Point.toReturn
    (I := fun p => p = .lock r ∨ p = .check r ∨ p = .unlock r (-1))
    (fun m p hnm _ hp => ?_) (fun m p c hnm hi' hp _ _ haft => ?_) hi (.inl rfl)
  · obtain rfl | rfl | rfl := hp
    · exact lock_free hfair hgd (closed_later hnm hcl)
    · exact ⟨m, le_rfl, trivial⟩
    · exact ⟨m, le_rfl, trivial⟩
  obtain rfl | rfl | rfl := hp
  · exact .inr ⟨.inr (.inl rfl), Nat.lt_succ_self 2⟩
  · have hnext : next content c (b.state m).shared (.check r) = .unlock r (-1) :=
      if_pos (closed_later hnm hcl)
    change _ ∨ _ ∧ (next content c (b.state m).shared (.check r)).toReturn < _
    rw [hnext]
    exact .inr ⟨.inr (.inr hnext), Nat.lt_succ_self 1⟩
  refine .inl ?_
  rw [haft]
  exact Program.getElem?_after_self hi'

end

/-- **Closing.** A call of `close` returns after finitely many of its own steps. -/
theorem close_final (content : List UInt8) :
    (∀ (s : Pool Shared Point) (i : ℕ), (program content).system.Reachable s →
      s.threads[i]? = some .close →
      Inevitable ((program content).Own i) ((program content).Others i)
        (fun t => ∃ q, t.threads[i]? = some q ∧ q = .closed) s) ∧
    (∀ s, ((program content).system.guard (Program.onlyIf NoGiveUp)).Reachable s →
      .closed ∈ s.threads → s.shared.requests = [] ∧ s.shared.handle.body = none ∧
        ∀ r result, .done r result ∈ s.threads → r.late = true → result = -1) ∧
    ∀ b : Behaviour (program content).system, (∀ i, b.StronglyFair (Program.steps i)) →
      (∀ n l, b.label n = some l → Program.onlyIf NoGiveUp (b.state n) l) →
      ∀ (n i : ℕ) (r : Reader), (b.state n).threads[i]? = some (.lock r) → r.late = true →
        ∃ m, n ≤ m ∧ (b.state m).threads[i]? = some (.done r (-1)) := by
  refine ⟨fun s i _ hi => inevitable_closed hi rfl, fun s h hret => ?_,
    fun b hfair hgd n i r hi hlate => ?_⟩
  · have hho := holds_noGiveUp h
    have hqt := hho.1.quiet (hho.2 _ hret)
    exact ⟨hqt.requests, hqt.body, fun r result hdone => hho.2 _ hdone⟩
  · have hlock := (holds_noGiveUp (b.reachable_guard hgd n)).2 _ (mem_of_getElem? hi)
    exact returns_of_closed hfair hgd (hlock hlate) hi

def atEnd : Pool Shared Point where
  shared :=
    { handle := { body := some ⟨[], none⟩, pos := 2 }, mu := true, cancel := some 0, contexts := 1
      requests := [0], bodyOf := some 0 }
  threads := [.unlock ⟨0, 4, false⟩ 2]

def gaveUp : Pool Shared Point where
  shared :=
    { handle := { body := some ⟨[], none⟩, pos := 2, closing := true }, cancel := some 0
      contexts := 1, cancelled := [0], requests := [0], bodyOf := some 0, returned := true }
  threads := [.done ⟨0, 4, false⟩ 2, .closed]

theorem zero_after_close :
    (program [1, 2]).system.Reachable
      ⟨gaveUp.shared, [.done ⟨0, 4, false⟩ 2, .closed, .done ⟨2, 4, true⟩ 0]⟩ ∧
    gaveUp.shared.requests = [0] ∧ gaveUp.shared.handle.body.isSome := by
  have hinit : ((program [1, 2]).system.guard (Program.onlyIf fun _ _ => True)).Reachable
      ⟨{}, []⟩ := .init ⟨rfl, rfl⟩
  have hread : ((program [1, 2]).system.guard (Program.onlyIf fun _ _ => True)).Reachable atEnd :=
    Program.reachable_exec (Program.reachable_env hinit (.readAt 0 4))
      (List.replicate 9 (0, { response := .answered 206 2 .eof })) rfl
  have hclo : ((program [1, 2]).system.guard (Program.onlyIf fun _ _ => True)).Reachable gaveUp :=
    Program.reachable_exec (Program.reachable_env hread .close)
      (List.replicate 6 (1, { late := true }) ++ [(0, ({} : Choice))]) rfl
  have hlate : ((program [1, 2]).system.guard (Program.onlyIf fun _ _ => True)).Reachable
      ⟨gaveUp.shared, [.done ⟨0, 4, false⟩ 2, .closed, .done ⟨2, 4, true⟩ 0]⟩ :=
    Program.reachable_exec (Program.reachable_env hclo (.readAt 2 4))
      (List.replicate 4 (2, ({} : Choice))) rfl
  exact ⟨hlate.of_guard, rfl, rfl⟩

end LatticeMesh.Media
