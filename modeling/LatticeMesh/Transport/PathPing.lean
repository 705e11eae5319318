import Mathlib
import LatticeMesh.Transport.Probe

/-! # The path-ping monitor -/

namespace LatticeMesh.Transport.PathPing

open List

def pathPingMisses : ℕ := 3

def pathPingGiveUp : ℕ := 6

structure Seen where
  epoch : ℤ
  state : PeerState

structure Round where
  before : Seen
  answer : Option ℤ
  after : Seen

structure Monitor where
  running : Bool := true
  armed : Bool := false
  unanswered : ℕ := 0
  sent : ℕ := 0
  rtt : ℤ := 0
  restarts : ℕ := 0
  pings : List Bool := []
  checks : List Bool := []

def Seen.ok (epoch : ℤ) (seen : Seen) : Bool := seen.epoch = epoch ∧ seen.state = .iceReady

def Monitor.check (epoch : ℤ) (seen : Seen) (m : Monitor) : Monitor :=
  { m with running := m.running && seen.ok epoch, checks := seen.ok epoch :: m.checks }

def Monitor.ping (answer : Option ℤ) (m : Monitor) : Monitor :=
  { m with sent := m.sent + 1, pings := answer.isSome :: m.pings }

def Monitor.setRTT (d : ℤ) (m : Monitor) : Monitor := { m with rtt := if d ≤ 0 then 0 else d }

def Monitor.judge (initiator : Bool) (answer : Option ℤ) (m : Monitor) : Monitor :=
  match answer with
  | some rtt => { m with armed := true, unanswered := 0 }.setRTT rtt
  | none =>
    let m := { m with unanswered := m.unanswered + 1 }
    if !m.armed ∧ pathPingGiveUp ≤ m.sent then { m with running := false }
    else if m.armed ∧ pathPingMisses ≤ m.unanswered ∧ !initiator then m.setRTT 0
    else if m.armed ∧ pathPingMisses ≤ m.unanswered then
      { m with running := false, restarts := m.restarts + 1 }
    else m

def Monitor.tick (initiator : Bool) (epoch : ℤ) (m : Monitor) (r : Round) : Monitor :=
  if !m.running then m
  else
    let m := m.check epoch r.before
    if !m.running then m
    else
      let m := (m.ping r.answer).check epoch r.after
      if !m.running then m else m.judge initiator r.answer

def monitor (initiator : Bool) (epoch : ℤ) (rounds : List Round) : Monitor :=
  rounds.foldl (Monitor.tick initiator epoch) {}

def Dead (initiator : Bool) (m : Monitor) : Prop :=
  initiator ∧ (∀ c ∈ m.checks, c = true) ∧
    ∃ l, m.pings = false :: false :: false :: true :: l

structure Running (initiator : Bool) (m : Monitor) : Prop where
  checks : ∀ c ∈ m.checks, c = true
  restarts : m.restarts = 0
  sent : m.sent = m.pings.length
  pings : if m.armed then
      (initiator → m.unanswered < pathPingMisses) ∧
        ∃ l, m.pings = List.replicate m.unanswered false ++ true :: l
    else m.sent < pathPingGiveUp ∧ m.pings = List.replicate m.sent false

structure Follows (initiator : Bool) (m : Monitor) : Prop where
  running : m.running → Running initiator m
  once : m.restarts ≤ 1
  dead : m.restarts = 1 ↔ Dead initiator m
  silent : true ∉ m.pings → m.sent ≤ pathPingGiveUp

section

variable {initiator : Bool} {epoch : ℤ} {m : Monitor}

theorem replicate_append_eq {n : ℕ} {l l' : List Bool}
    (h : List.replicate n false ++ true :: l = false :: false :: false :: true :: l') : n = 3 := by
  match n with
  | 0 | 1 | 2 | 3 => simp_all [List.replicate]
  | n + 4 => simp [List.replicate] at h

theorem Running.sent_lt (h : Running initiator m) (hsilent : true ∉ m.pings) :
    m.sent < pathPingGiveUp := by
  have hpings := h.pings
  split at hpings
  · obtain ⟨-, l, hl⟩ := hpings
    simp [hl] at hsilent
  · exact hpings.1

theorem Running.follows (h : Running initiator m) : Follows initiator m := by
  have hrestarts := h.restarts
  refine ⟨fun _ => h, by omega, ?_, fun hsilent => (h.sent_lt hsilent).le⟩
  refine iff_of_false (by omega) ?_
  rintro ⟨rfl, -, l', heq⟩
  have hpings := h.pings
  split at hpings
  · obtain ⟨hlt, l, hl⟩ := hpings
    have := replicate_append_eq (hl.symm.trans heq)
    exact absurd (hlt rfl) (by simp [this, pathPingMisses])
  · have : true ∈ List.replicate m.sent false := by simp [← hpings.2, heq]
    simp at this

theorem Follows.failed {seen : Seen} (hrestarts : m.restarts = 0) (hfail : seen.ok epoch = false)
    (hsilent : true ∉ m.pings → m.sent ≤ pathPingGiveUp) :
    Follows initiator (m.check epoch seen) := by
  refine ⟨?_, ?_, ?_, hsilent⟩
  · simp [Monitor.check, hfail]
  · simp [Monitor.check, hrestarts]
  refine iff_of_false (by simp [Monitor.check, hrestarts]) ?_
  rintro ⟨-, hchecks, -⟩
  simp [Monitor.check, hfail] at hchecks

theorem Running.check {seen : Seen} (h : Running initiator m) (hok : seen.ok epoch = true) :
    Running initiator (m.check epoch seen) :=
  ⟨forall_mem_cons.2 ⟨hok, h.checks⟩, h.restarts, h.sent, h.pings⟩

theorem Running.judge {seen : Seen} (h : Running initiator m) (answer : Option ℤ)
    (hok : seen.ok epoch = true) :
    Follows initiator (((m.ping answer).check epoch seen).judge initiator answer) := by
  obtain ⟨hchecks, hrestarts, hsent, hpings⟩ := h.check hok
  have hsent : (m.ping answer).sent = (m.ping answer).pings.length := congrArg (· + 1) hsent
  cases answer with
  | some rtt =>
    exact Running.follows ⟨hchecks, hrestarts, hsent, fun _ => Nat.zero_lt_succ 2, m.pings, rfl⟩
  | none =>
    simp only [Monitor.check] at hpings
    simp only [Monitor.judge, Monitor.check, Monitor.ping]
    by_cases harmed : m.armed = false
    · simp only [harmed, Bool.false_eq_true, if_false] at hpings
      obtain ⟨hlt, heq⟩ := hpings
      have hnext : false :: m.pings = List.replicate (m.sent + 1) false := by
        rw [heq, replicate_succ]
      by_cases hlast : pathPingGiveUp ≤ m.sent + 1
      · simp only [harmed, hlast, Bool.not_false, and_self, if_true]
        refine ⟨fun h => (by cases h), hrestarts.trans_le (by omega), ?_, fun _ => hlt⟩
        refine iff_of_false (fun h => by simp_all [Monitor.check]) ?_
        rintro ⟨-, -, l, hl⟩
        have hmem : true ∈ List.replicate (m.sent + 1) false := by simp [hnext.symm.trans hl]
        simp at hmem
      simp only [harmed, hlast, and_false, if_false, Bool.false_eq_true, false_and]
      refine Running.follows ⟨hchecks, hrestarts, hsent, ?_⟩
      simpa using ⟨Nat.lt_of_not_le hlast, hnext⟩
    rw [Bool.not_eq_false] at harmed
    simp only [harmed, if_true] at hpings
    obtain ⟨hlt, l, heq⟩ := hpings
    have hnext : false :: m.pings = List.replicate (m.unanswered + 1) false ++ true :: l := by
      rw [heq, replicate_succ, cons_append]
    by_cases hmiss : pathPingMisses ≤ m.unanswered + 1
    · cases initiator
      · -- a responder only measures
        simp only [harmed, hmiss, Bool.not_true, Bool.false_eq_true, false_and, if_false,
          Bool.not_false, and_self, if_true]
        exact Running.follows ⟨hchecks, hrestarts, hsent, fun h => (by cases h), l, hnext⟩
      have htwo : m.unanswered = 2 := by
        have := hlt rfl
        simp only [pathPingMisses] at this hmiss
        omega
      simp only [harmed, hmiss, Bool.not_true, Bool.false_eq_true, false_and, and_false, if_false,
        and_self, if_true]
      refine ⟨fun h => (by cases h), (congrArg (· + 1) hrestarts).le, ?_, fun hsilent => ?_⟩
      · refine iff_of_true (congrArg (· + 1) hrestarts) ⟨rfl, hchecks, l, hnext.trans ?_⟩
        rw [htwo]
        rfl
      · simp [heq] at hsilent
    · simp only [harmed, hmiss, Bool.not_true, Bool.false_eq_true, false_and, and_false, if_false]
      exact Running.follows ⟨hchecks, hrestarts, hsent, fun _ => Nat.lt_of_not_le hmiss, l, hnext⟩

theorem Follows.tick (h : Follows initiator m) (r : Round) :
    Follows initiator (m.tick initiator epoch r) := by
  unfold Monitor.tick
  cases hrun : m.running
  · simpa using h
  have hr := h.running hrun
  cases hb : r.before.ok epoch
  · simpa [Monitor.check, hb] using Follows.failed hr.restarts hb h.silent
  cases ha : r.after.ok epoch
  · have hsilent (hs : true ∉ (m.ping r.answer).pings) : m.sent + 1 ≤ pathPingGiveUp :=
      hr.sent_lt fun hmem => hs (mem_cons_of_mem _ hmem)
    have hfail : Follows initiator
        (((m.check epoch r.before).ping r.answer).check epoch r.after) :=
      .failed hr.restarts ha hsilent
    simpa [Monitor.check, Monitor.ping, hrun, hb, ha] using hfail
  · simpa [Monitor.check, Monitor.ping, hrun, hb, ha] using (hr.check hb).judge r.answer ha

theorem follows_monitor (initiator : Bool) (epoch : ℤ) (rounds : List Round) :
    Follows initiator (monitor initiator epoch rounds) := by
  have hrun (m : Monitor) (h : Follows initiator m) :
      Follows initiator (rounds.foldl (Monitor.tick initiator epoch) m) := by
    induction rounds generalizing m with
    | nil => exact h
    | cons r rounds ih => exact ih _ (h.tick r)
  exact hrun _ (Running.follows ⟨fun _ h => (by cases h), rfl, rfl, Nat.zero_lt_succ 5, rfl⟩)

end

end LatticeMesh.Transport.PathPing
