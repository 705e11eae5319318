import LatticeMesh.Lib.Threads

/-! # The writer of a relay session -/

namespace LatticeMesh.Relay.SessionWriter

open List Program

def forwardQueueDepth : ℕ := 256

inductive Once where
  | unused
  | running
  | done
  deriving DecidableEq

structure Shared where
  workOnce : Once := .unused
  closeOnce : Once := .unused
  sendCh : Option (List (List UInt8)) := none
  done : Option Bool := none
  streamClosed : Bool := false
  dropped : ℕ := 0
  framesDropped : ℕ := 0
  writers : ℕ := 0
  lateWriters : ℕ := 0

inductive Point where
  | enqueue (frame : List UInt8) (late : Bool)
  | makeSendCh (frame : List UInt8) (late : Bool)
  | makeDone (frame : List UInt8) (late : Bool)
  | goWriteLoop (frame : List UInt8) (late : Bool)
  | started (frame : List UInt8) (late : Bool)
  | select (frame : List UInt8) (late : Bool)
  | accepted (late : Bool)
  | rejected (late : Bool)
  | writeLoop
  | writeFrame (frame : List UInt8)
  | shutdown
  | closeDone
  | closeStream
  | returned
  deriving DecidableEq

namespace Shared

def hasRoom (s : Shared) : Bool :=
  match s.sendCh with
  | some queue => queue.length < forwardQueueDepth
  | none => false

def isClosed (s : Shared) : Bool := s.done = some true

def sends (s : Shared) (choice : Bool) : Bool := s.hasRoom && (choice || !s.isClosed)

def receives (s : Shared) (choice : Bool) : Option (List UInt8) :=
  if choice || !s.isClosed then s.sendCh.bind List.head? else none

end Shared

def enabled (s : Shared) : Point → Prop
  | .enqueue _ _ => s.workOnce ≠ .running
  | .shutdown => s.closeOnce ≠ .running
  | .writeLoop => s.isClosed = true ∨ s.sendCh.bind List.head? ≠ none
  | .accepted _ | .rejected _ | .returned => False
  | _ => True

instance (s : Shared) (p : Point) : Decidable (enabled s p) := by
  cases p <;> dsimp only [enabled] <;> infer_instance

def effect (choice : Bool) (s : Shared) : Point → Shared
  | .enqueue _ _ => if s.workOnce = .unused then { s with workOnce := .running } else s
  | .makeSendCh _ _ => { s with sendCh := some [] }
  | .makeDone _ _ => { s with done := some false }
  | .goWriteLoop _ _ =>
    { s with
      writers := s.writers + 1
      lateWriters := s.lateWriters + (decide (s.closeOnce = .done)).toNat }
  | .started _ _ => { s with workOnce := .done }
  | .select frame _ =>
    if s.sends choice then { s with sendCh := s.sendCh.map (· ++ [frame]) }
    else { s with dropped := s.dropped + 1, framesDropped := s.framesDropped + 1 }
  | .writeLoop =>
    if (s.receives choice).isSome then { s with sendCh := s.sendCh.map List.tail } else s
  | .shutdown => if s.closeOnce = .unused then { s with closeOnce := .running } else s
  | .closeDone => { s with done := s.done.map fun _ => true }
  | .closeStream => { s with streamClosed := true, closeOnce := .done }
  | _ => s

def next (choice : Bool) (s : Shared) : Point → Point
  | .enqueue frame late =>
    if s.workOnce = .unused then .makeSendCh frame late else .select frame late
  | .makeSendCh frame late => .makeDone frame late
  | .makeDone frame late => .goWriteLoop frame late
  | .goWriteLoop frame late => .started frame late
  | .started frame late => .select frame late
  | .select _ late => if s.sends choice then .accepted late else .rejected late
  | .writeLoop =>
    match s.receives choice with
    | some frame => .writeFrame frame
    | none => if s.isClosed then .returned else .writeLoop
  | .writeFrame _ => if choice then .writeLoop else .shutdown
  | .shutdown => if s.closeOnce = .unused then .closeDone else .returned
  | .closeDone => .closeStream
  | .closeStream => .returned
  | p => p

section

-- the equations are derived once, before the proofs
attribute [local simp] next effect

end

def spawn (_ : Bool) (_ : Shared) : Point → List Point
  | .goWriteLoop _ _ => [.writeLoop]
  | _ => []

inductive Call where
  | enqueue (frame : List UInt8)
  | shutdown

inductive Env (s : Shared) : Call → Shared → List Point → Prop
  | enqueue (frame : List UInt8) :
    Env s (.enqueue frame) s [.enqueue frame (decide (s.closeOnce = .done))]
  | shutdown : Env s .shutdown s [.shutdown]

def program : Program Shared Point Bool Call where
  init s := s = {}
  enabled := enabled
  effect := effect
  next := next
  spawn := spawn
  env := Env

instance (s : Shared) (p : Point) : Decidable (program.enabled s p) :=
  inferInstanceAs (Decidable (enabled s p))

def Point.starts : Point → Bool
  | .makeSendCh _ _ | .makeDone _ _ | .goWriteLoop _ _ => true
  | _ => false

def Point.starting : Point → Bool
  | .started _ _ => true
  | p => p.starts

def Point.atWorkOnce : Point → Bool
  | .enqueue _ _ | .started _ _ => true
  | _ => false

def Point.isRejected : Point → Bool
  | .rejected _ => true
  | _ => false

theorem starting_of_starts {p : Point} (h : p.starts = true) : p.starting = true := by
  cases p <;> first | rfl | cases h

variable {c : Bool} {s : Shared} {p : Point}

theorem workOnce_effect (h : p.atWorkOnce = false) : (effect c s p).workOnce = s.workOnce := by
  unfold effect
  (repeat' split) <;> first | rfl | cases h

theorem starting_next (h : p.atWorkOnce = false) : (next c s p).starting = p.starting := by
  unfold next
  (repeat' split) <;> first | rfl | cases h

theorem countP_spawn {f : Point → Bool} (h : f .writeLoop = false) :
    (spawn c s p).countP f = 0 := by
  unfold spawn
  split
  · simp [h]
  · rfl

theorem countP_env {call : Call} {t : Shared} {new : List Point} (h : Env s call t new) :
    t = s ∧ new.countP Point.starting = 0 ∧ new.countP Point.starts = 0 ∧
      new.countP Point.isRejected = 0 := by
  cases h <;> exact ⟨rfl, rfl, rfl, rfl⟩

def Once.idle : Once → ℕ
  | .running => 0
  | _ => 1

def Once.left : Once → ℕ
  | .unused => 1
  | _ => 0

theorem writers_effect (h : p.atWorkOnce = false) :
    (effect c s p).writers + (next c s p).starts.toNat = s.writers + p.starts.toNat := by
  cases p with
  | select | shutdown =>
    simp only [effect, next]
    split <;> rfl
  | writeLoop =>
    simp only [effect, next]
    (repeat' split) <;> rfl
  | writeFrame => cases c <;> rfl
  | _ => first | rfl | cases h

theorem lateWriters_effect (h : s.closeOnce = .done → p.starts = false) :
    (effect c s p).lateWriters = s.lateWriters := by
  cases p with
  | goWriteLoop =>
    have hopen : s.closeOnce ≠ .done := fun hdone => absurd (h hdone) nofun
    simp [effect, hopen]
  | enqueue | select | writeLoop | shutdown =>
    simp only [effect]
    split <;> rfl
  | _ => rfl

theorem closeOnce_effect (h : (effect c s p).closeOnce = .done) :
    p = .closeStream ∨ s.closeOnce = .done := by
  cases p with
  | closeStream => exact .inl rfl
  | shutdown =>
    simp only [effect] at h
    split at h
    · cases h
    · exact .inr h
  | enqueue | select | writeLoop =>
    simp only [effect] at h
    split at h <;> exact .inr h
  | _ => exact .inr h

theorem starts_of_next (h : (next c s p).starts = true) :
    p.starts = true ∨ (∃ frame late, p = .enqueue frame late) ∧ s.workOnce = .unused := by
  cases p with
  | makeSendCh | makeDone => exact .inl rfl
  | enqueue frame late =>
    simp only [next] at h
    split at h
    · next hun => exact .inr ⟨⟨frame, late, rfl⟩, hun⟩
    · cases h
  | select | writeFrame | shutdown =>
    simp only [next] at h
    split at h <;> cases h
  | writeLoop =>
    simp only [next] at h
    (repeat' split at h) <;> cases h
  | _ => cases h

theorem accepted_of_next {late : Bool} (h : next c s p = .accepted late) :
    p = .accepted late ∨ ∃ frame, p = .select frame late ∧ s.hasRoom = true := by
  cases p with
  | accepted => exact .inl h
  | select frame late' =>
    simp only [next] at h
    split at h
    · next hsen =>
      cases h
      exact .inr ⟨frame, rfl, (Bool.and_eq_true_iff.1 hsen).1⟩
    · cases h
  | enqueue | writeFrame | shutdown =>
    simp only [next] at h
    split at h <;> cases h
  | writeLoop =>
    simp only [next] at h
    (repeat' split at h) <;> cases h
  | _ => cases h

theorem spawn_writeLoop {q : Point} (h : q ∈ program.spawn c s p) : q = .writeLoop := by
  change q ∈ spawn c s p at h
  unfold spawn at h
  split at h
  · exact mem_singleton.1 h
  · cases h

theorem dropped_effect :
    (next c s p).isRejected.toNat + s.dropped = p.isRejected.toNat + (effect c s p).dropped ∧
      (next c s p).isRejected.toNat + s.framesDropped =
        p.isRejected.toNat + (effect c s p).framesDropped := by
  cases p with
  | enqueue | shutdown =>
    simp only [effect, next]
    split <;> exact ⟨rfl, rfl⟩
  | select =>
    simp only [effect, next]
    split
    · exact ⟨rfl, rfl⟩
    · simp only [Point.isRejected, Bool.toNat_true, Bool.toNat_false]
      omega
  | writeLoop =>
    simp only [effect, next]
    (repeat' split) <;> exact ⟨rfl, rfl⟩
  | writeFrame => cases c <;> exact ⟨rfl, rfl⟩
  | _ => exact ⟨rfl, rfl⟩

section

variable {s : Pool Shared Point}

theorem starting_balance (h : program.system.Reachable s) :
    s.shared.workOnce.idle + s.threads.countP Point.starting = 1 := by
  refine program.balance Point.starting (fun s => s.workOnce.idle) (fun _ => 1) ?_ ?_ ?_ h
  · rintro s rfl
    rfl
  · rintro s c p - hp hsum hen
    simp only [program]
    rw [countP_spawn rfl]
    cases hp' : p.atWorkOnce with
    | false => rw [workOnce_effect hp', starting_next hp']
    | true =>
      cases p with
      | enqueue frame late =>
        simp only [effect, next]
        cases honce : s.shared.workOnce with
        | running => exact absurd honce hen
        | unused => rfl
        | done => rw [if_neg nofun, if_neg nofun, honce]; rfl
      | started frame late =>
        have hpos : 0 < s.threads.countP Point.starting := countP_pos_iff.2 ⟨_, hp, rfl⟩
        have hrun : s.shared.workOnce.idle = 0 := by omega
        rw [hrun]
        rfl
      | _ => cases hp'
  intro s e t new henv
  obtain ⟨rfl, hnew, -⟩ := countP_env henv
  rw [hnew]

theorem running_of_starting (h : program.system.Reachable s) (hp : p ∈ s.threads)
    (hst : p.starting = true) : s.shared.workOnce = .running := by
  have hsum := starting_balance h
  have hpos : 0 < s.threads.countP Point.starting := countP_pos_iff.2 ⟨p, hp, hst⟩
  cases honce : s.shared.workOnce with
  | running => rfl
  | _ =>
    rw [honce] at hsum
    exact absurd hsum (by simp only [Once.idle]; omega)

theorem writers_balance (h : program.system.Reachable s) :
    s.shared.writers + s.shared.workOnce.left + s.threads.countP Point.starts = 1 := by
  refine program.balance Point.starts (fun s => s.writers + s.workOnce.left) (fun _ => 1) ?_ ?_ ?_ h
  · rintro s rfl
    rfl
  · rintro s c p hr hp - hen
    simp only [program]
    rw [countP_spawn rfl]
    cases hp' : p.atWorkOnce with
    | false =>
      have hwri := writers_effect (c := c) (s := s.shared) hp'
      rw [workOnce_effect hp']
      omega
    | true =>
      cases p with
      | enqueue frame late =>
        simp only [effect, next]
        split
        · next hun => rw [hun]; rfl
        · rfl
      | started frame late => rw [running_of_starting hr hp rfl]; rfl
      | _ => cases hp'
  intro s e t new henv
  obtain ⟨rfl, -, hnew, -⟩ := countP_env henv
  rw [hnew]

theorem rejected_balance {count : Shared → ℕ} (h0 : count {} = 0)
    (hcnt : ∀ c s p, (next c s p).isRejected.toNat + count s =
      p.isRejected.toNat + count (effect c s p)) (h : program.system.Reachable s) :
    s.threads.countP Point.isRejected = count s.shared := by
  have hsum := program.balance Point.isRejected (fun _ => 0) count ?_ ?_ ?_ h
  · rwa [Nat.zero_add] at hsum
  · rintro s rfl
    exact h0.symm
  · rintro s c p - - - -
    have hstep := hcnt c s.shared p
    simp only [program]
    rw [countP_spawn rfl]
    omega
  intro s e t new henv
  obtain ⟨rfl, -, -, hnew⟩ := countP_env henv
  rw [hnew]

def StartedBefore (s : Pool Shared Point) : Point → Prop
  | .enqueue _ _ => s.shared.workOnce = .unused → s.shared.closeOnce ≠ .done
  | .closeStream => s.shared.workOnce ≠ .running
  | .select _ true => s.shared.hasRoom = false
  | _ => True

instance (s : Pool Shared Point) (p : Point) : Decidable (StartedBefore s p) := by
  cases p with
  | select _ late => cases late <;> dsimp only [StartedBefore] <;> infer_instance
  | _ => dsimp only [StartedBefore]; infer_instance

structure Final (s : Pool Shared Point) : Prop where
  writers : s.shared.lateWriters = 0
  starts : s.shared.closeOnce = .done → ∀ p ∈ s.threads, p.starts = false
  accepted : .accepted true ∉ s.threads

theorem Final.env {call : Call} {t : Shared} {new : List Point} (hs : Final s)
    (h : Env s.shared call t new) : Final ⟨t, s.threads ++ new⟩ := by
  cases h with
  | enqueue frame | shutdown =>
    refine ⟨hs.writers, fun hdone p hp => ?_, ?_⟩
    · obtain hp | hp := mem_append.1 hp
      · exact hs.starts hdone p hp
      · exact mem_singleton.1 hp ▸ rfl
    · simp [hs.accepted]

theorem Final.run {i : ℕ} (hs : Final s) (hr : program.system.Reachable s)
    (hi : s.threads[i]? = some p) (hen : enabled s.shared p) (hp : StartedBefore s p) :
    Final (program.after s i c p) := by
  have hmem : p ∈ s.threads := mem_of_getElem? hi
  refine ⟨?_, fun hdone q hq => ?_, fun hacc => ?_⟩
  · exact (lateWriters_effect fun hdone => hs.starts hdone p hmem).trans hs.writers
  · obtain rfl | hcl := closeOnce_effect hdone
    · -- nobody runs `startWriter`, and this step starts nobody who does
      have hnone : ∀ q ∈ s.threads, q.starts = false := fun q hq => by
        by_contra hsta
        exact hp (running_of_starting hr hq (starting_of_starts (eq_true_of_ne_false hsta)))
      obtain rfl | hnew | ⟨j, -, hj⟩ := mem_after hq
      · rfl
      · cases hnew
      · exact hnone q (mem_of_getElem? hj)
    obtain rfl | hnew | ⟨j, -, hj⟩ := mem_after hq
    · by_contra hsta
      obtain hsta | ⟨⟨frame, late, rfl⟩, hun⟩ :=
        starts_of_next (eq_true_of_ne_false hsta)
      · exact absurd hsta (by simp [hs.starts hcl p hmem])
      · exact hp hun hcl
    · exact spawn_writeLoop hnew ▸ rfl
    · exact hs.starts hcl q (mem_of_getElem? hj)
  obtain hnext | hnew | ⟨j, -, hj⟩ := mem_after hacc
  · obtain rfl | ⟨frame, rfl, hroom⟩ := accepted_of_next hnext.symm
    · exact hen
    · exact absurd (hroom.symm.trans hp) nofun
  · exact absurd (spawn_writeLoop hnew) nofun
  · exact hs.accepted (mem_of_getElem? hj)

theorem Final.reachable
    (h : (program.system.guard (Program.onlyIf StartedBefore)).Reachable s) : Final s := by
  refine h.invariant ?_ ?_
  · rintro ⟨shared, threads⟩ ⟨rfl, rfl⟩
    exact ⟨rfl, nofun, nofun⟩
  rintro s l t hr hs ⟨hgd, hstep⟩
  cases hstep with
  | run hi hen => exact hs.run hr.of_guard hi hen (hgd _ hi)
  | env h => exact hs.env h

/-- **Shutdown.** At most one writer is started, and both counters count the rejected frames. -/
theorem shutdown_final (s : Pool Shared Point) :
    (program.system.Reachable s → s.shared.writers ≤ 1 ∧
      s.threads.countP Point.isRejected = s.shared.dropped ∧
      s.threads.countP Point.isRejected = s.shared.framesDropped ∧
      ∀ frame, .select frame true ∈ s.threads →
        ((∃ c, next c s.shared (.select frame true) = .accepted true) ↔ s.shared.hasRoom = true)) ∧
    ((program.system.guard (Program.onlyIf StartedBefore)).Reachable s →
      .accepted true ∉ s.threads ∧ s.shared.lateWriters = 0) := by
  refine ⟨fun h => ⟨?_, ?_, ?_, fun frame _ => ⟨?_, fun hroom => ⟨true, ?_⟩⟩⟩, fun h => ?_⟩
  · have hsum := writers_balance h
    omega
  · exact rejected_balance rfl (fun _ _ _ => dropped_effect.1) h
  · exact rejected_balance rfl (fun _ _ _ => dropped_effect.2) h
  · rintro ⟨c, hc⟩
    obtain hp | ⟨-, -, hroom⟩ := accepted_of_next hc
    · cases hp
    · exact hroom
  · simp [next, Shared.sends, hroom]
  · have hfin := Final.reachable h
    exact ⟨hfin.accepted, hfin.writers⟩

theorem written_then_shut : ∃ s, (program.system.guard (Program.onlyIf StartedBefore)).Reachable s ∧
    s.shared.closeOnce = .done ∧ s.shared.writers = 1 ∧ .accepted true ∉ s.threads ∧
    s.shared.lateWriters = 0 := by
  have hinit : (program.system.guard (Program.onlyIf StartedBefore)).Reachable ⟨{}, []⟩ :=
    .init ⟨rfl, rfl⟩
  have hwr := Program.reachable_exec (reachable_env hinit (.enqueue [1]))
    (List.replicate 6 (0, true) ++ List.replicate 2 (1, true)) rfl
  have hshut := Program.reachable_exec (reachable_env hwr .shutdown)
    (List.replicate 3 (2, true)) rfl
  exact ⟨_, hshut, rfl, rfl, (shutdown_final _).2 hshut⟩

theorem accepted_after_shutdown :
    (∃ s, program.system.Reachable s ∧ .accepted true ∈ s.threads ∧ s.shared.lateWriters = 1) ∧
      ∃ s, program.system.Reachable s ∧ .accepted true ∈ s.threads ∧ s.shared.isClosed = true := by
  have hinit : (program.system.guard (Program.onlyIf fun _ _ => True)).Reachable ⟨{}, []⟩ :=
    .init ⟨rfl, rfl⟩
  have hshut := Program.reachable_exec (reachable_env hinit .shutdown)
    (List.replicate 3 (0, true)) rfl
  have hfst := Program.reachable_exec (reachable_env hshut (.enqueue [1]))
    (List.replicate 6 (1, true)) rfl
  have hwr := Program.reachable_exec (reachable_env hinit (.enqueue [1]))
    (List.replicate 6 (0, true) ++ List.replicate 2 (1, true)) rfl
  have hcl := Program.reachable_exec (reachable_env hwr .shutdown)
    (List.replicate 3 (2, true)) rfl
  have hsec := Program.reachable_exec (reachable_env hcl (.enqueue [2]))
    (List.replicate 2 (3, true)) rfl
  exact ⟨⟨_, hfst.of_guard, by decide, rfl⟩, ⟨_, hsec.of_guard, by decide, rfl⟩⟩

end

end LatticeMesh.Relay.SessionWriter
