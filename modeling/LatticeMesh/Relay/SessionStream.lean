import Mathlib
import LatticeMesh.Relay.SessionWriter

/-! # The stream of a relay session -/

namespace LatticeMesh.Relay.SessionWriter

open List Program

structure Wire where
  challenge : List UInt8
  bytes : List UInt8
  broken : Bool
  cut : Option ℕ
  accepted : List (List UInt8) := []

namespace Wire

def registered (challenge : List UInt8) (sent : ℕ) (cut : Option ℕ) : Wire :=
  ⟨challenge, challenge.take sent, decide (sent < challenge.length), cut, []⟩

def items (g : Wire) : List (List UInt8) := g.challenge :: g.accepted

def write (g : Wire) (frame : List UInt8) (ok : Bool) : Wire :=
  if g.broken then g
  else if ok then { g with bytes := g.bytes ++ frame }
  else { g with bytes := g.bytes ++ frame.take (g.cut.getD 0), broken := g.cut.isSome }

def record (s : Pool Shared Point) (g : Wire) : Move Bool Call → Wire
  | .run i choice =>
    match s.threads[i]? with
    | some (.select frame _) =>
      if s.shared.sends choice then { g with accepted := g.accepted ++ [frame] } else g
    | some (.writeFrame frame) => g.write frame choice
    | _ => g
  | .env _ => g

def Sticky (s : Pool Shared Point × Wire) : Move Bool Call → Prop
  | .run i choice => ∀ frame, s.1.threads[i]? = some (.writeFrame frame) →
    s.2.broken = true → choice = false
  | .env _ => True

end Wire

open Wire

def system (challenge : List UInt8) (sent : ℕ) (cut : Option ℕ) :
    LTS (Pool Shared Point × Wire) (Move Bool Call) :=
  (program.system.recording (registered challenge sent cut) record).guard Sticky

def Point.atLoop : Point → Bool
  | .writeLoop => true
  | _ => false

def Point.inHand : Point → Bool
  | .writeFrame _ => true
  | _ => false

def writing (threads : List Point) : ℕ := threads.countP Point.atLoop + threads.countP Point.inHand

def Shared.queue (s : Shared) : List (List UInt8) := s.sendCh.getD []

def Live (s : Pool Shared Point) (g : Wire) : Prop :=
  g.broken = false ∧ ∃ written hand, g.accepted = written ++ hand ++ s.shared.queue ∧
    g.bytes = g.challenge ++ written.flatten ∧
    (∀ frame, .writeFrame frame ∈ s.threads → hand = [frame]) ∧
    (s.threads.countP Point.inHand = 0 → hand = [])

def Ended (s : Pool Shared Point) (g : Wire) : Prop :=
  (∃ k n, ∃ h : k < g.items.length, (g.broken = true ∨ n = 0) ∧
      g.bytes = (g.items.take k).flatten ++ (g.items[k]).take n) ∧
    (g.broken = true ∨ s.shared.writers = 1 ∧ writing s.threads = 0)

structure Streams (s : Pool Shared Point) (g : Wire) : Prop where
  writers : writing s.threads ≤ s.shared.writers
  unused : s.shared.workOnce = .unused → s.shared.sendCh = none
  making : ∀ frame late, .makeSendCh frame late ∈ s.threads → s.shared.sendCh = none
  bytes : Live s g ∨ Ended s g

section

variable {s : Pool Shared Point} {g : Wire} {i : ℕ} {c : Bool} {p : Point}

theorem writers_le (h : program.system.Reachable s) : s.shared.writers ≤ 1 := by
  have := writers_balance h
  omega

theorem writing_after (hi : s.threads[i]? = some p) :
    s.shared.writers ≤ (program.after s i c p).shared.writers ∧
      writing (program.after s i c p).threads + s.shared.writers ≤
        writing s.threads + (program.after s i c p).shared.writers := by
  have hloop := countP_after (M := program) (c := c) hi Point.atLoop
  have hhand := countP_after (M := program) (c := c) hi Point.inHand
  unfold writing
  suffices hstep : s.shared.writers ≤ (effect c s.shared p).writers ∧
      (next c s.shared p).atLoop.toNat + (next c s.shared p).inHand.toNat +
        (spawn c s.shared p).countP Point.atLoop + (spawn c s.shared p).countP Point.inHand +
        s.shared.writers ≤ p.atLoop.toNat + p.inHand.toNat + (effect c s.shared p).writers by
    refine ⟨hstep.1, ?_⟩
    change _ + _ ≤ _ + (effect c s.shared p).writers
    simp only [program] at hloop hhand ⊢
    omega
  cases p with
  | enqueue | select | shutdown =>
    dsimp only [effect, next]
    split <;> exact ⟨le_rfl, le_rfl⟩
  | goWriteLoop =>
    simp [effect, next, spawn, Point.atLoop, Point.inHand]
    omega
  | writeLoop =>
    dsimp only [effect, next]
    cases s.shared.receives c with
    | none =>
      dsimp only [Option.isSome]
      (repeat' split) <;> simp [Point.atLoop, Point.inHand, spawn]
    | some frame => simp [Point.atLoop, Point.inHand, spawn]
  | writeFrame => cases c <;> simp [effect, next, spawn, Point.atLoop, Point.inHand]
  | _ => exact ⟨le_rfl, le_rfl⟩

theorem sendCh_effect (hp : ∀ frame late, p ≠ .makeSendCh frame late)
    (h : s.shared.sendCh = none) : (effect c s.shared p).sendCh = none := by
  cases p with
  | makeSendCh frame late => exact absurd rfl (hp frame late)
  | select | writeLoop =>
    dsimp only [effect]
    split <;> simp [h]
  | enqueue | shutdown =>
    dsimp only [effect]
    split <;> exact h
  | _ => exact h

variable {frame : List UInt8}

theorem makeSendCh_of_next {late : Bool} (h : next c s.shared p = .makeSendCh frame late) :
    p = .enqueue frame late ∧ s.shared.workOnce = .unused := by
  cases p with
  | enqueue =>
    dsimp only [next] at h
    split at h
    · next hun =>
      cases h
      exact ⟨rfl, hun⟩
    · cases h
  | select | writeFrame | shutdown =>
    dsimp only [next] at h
    split at h <;> cases h
  | writeLoop =>
    dsimp only [next] at h
    (repeat' split at h) <;> cases h
  | _ => cases h

theorem sendCh_after (hr : program.system.Reachable s) (hs : Streams s g)
    (hi : s.threads[i]? = some p) :
    ((program.after s i c p).shared.workOnce = .unused →
      (program.after s i c p).shared.sendCh = none) ∧
    ∀ frame late, .makeSendCh frame late ∈ (program.after s i c p).threads →
      (program.after s i c p).shared.sendCh = none := by
  have hmem : p ∈ s.threads := mem_of_getElem? hi
  by_cases hmake : ∃ frame late, p = .makeSendCh frame late
  · obtain ⟨frame, late, rfl⟩ := hmake
    refine ⟨fun hun => ?_, fun frame' late' hq => ?_⟩
    · cases (running_of_starting hr hmem rfl).symm.trans hun
    obtain hq | hq | ⟨j, hji, hj⟩ := mem_after hq
    · cases hq
    · cases hq
    have htwo := two_le_countP (f := Point.starts) hi hj hji rfl rfl
    have := writers_balance hr
    omega
  have hne : ∀ frame late, p ≠ .makeSendCh frame late := fun frame late h => hmake ⟨_, _, h⟩
  refine ⟨fun hun => sendCh_effect hne (hs.unused ?_), fun frame late hq => ?_⟩
  · change (effect c s.shared p).workOnce = .unused at hun
    cases hp : p.atWorkOnce with
    | false => rwa [workOnce_effect hp] at hun
    | true =>
      cases p with
      | enqueue =>
        dsimp only [effect] at hun
        split at hun
        · cases hun
        · exact hun
      | started => cases hun
      | _ => cases hp
  obtain hq | hq | ⟨j, -, hj⟩ := mem_after hq
  · exact sendCh_effect hne (hs.unused (makeSendCh_of_next hq.symm).2)
  · cases spawn_writeLoop hq
  · exact sendCh_effect hne (hs.making frame late (mem_of_getElem? hj))

theorem Ended.grows {l : List (List UInt8)} {t : Pool Shared Point} (h : Ended s g)
    (ht : g.broken = true ∨ t.shared.writers = 1 ∧ writing t.threads = 0) :
    Ended t { g with accepted := g.accepted ++ l } := by
  obtain ⟨⟨k, n, hk, hcut, hbyt⟩, -⟩ := h
  have hit : items { g with accepted := g.accepted ++ l } = g.items ++ l := rfl
  refine ⟨⟨k, n, by rw [hit, length_append]; omega, hcut, ?_⟩, ht⟩
  simp only [hit, take_append_of_le_length hk.le, getElem_append_left hk]
  exact hbyt

theorem Ended.after (hr : program.system.Reachable (program.after s i c p)) (h : Ended s g)
    (hi : s.threads[i]? = some p) :
    Ended (program.after s i c p) (record s g (.run i c)) := by
  have hone := writers_le hr
  obtain ⟨hmono, hstep⟩ := writing_after (c := c) hi
  have hend : g.broken = true ∨ (program.after s i c p).shared.writers = 1 ∧
      writing (program.after s i c p).threads = 0 :=
    h.2.imp_right fun ⟨hwri, hnone⟩ => ⟨by omega, by omega⟩
  have hsame : Ended (program.after s i c p) g := by simpa using h.grows (l := []) hend
  simp only [record, hi]
  cases p with
  | select frame late =>
    dsimp only
    split
    · exact h.grows hend
    · exact hsame
  | writeFrame frame =>
    obtain hbr | ⟨-, hnone⟩ := h.2
    · simpa only [write, hbr, if_true] using hsame
    have hpos : 0 < s.threads.countP Point.inHand :=
      countP_pos_iff.2 ⟨_, mem_of_getElem? hi, rfl⟩
    unfold writing at hnone
    omega
  | _ => exact hsame

theorem Live.grows {l : List (List UInt8)} (h : Live s g) (hi : s.threads[i]? = some p)
    (hque : (effect c s.shared p).queue = s.shared.queue ++ l) (hp : p.inHand = false)
    (hnext : (next c s.shared p).inHand = false) :
    Live (program.after s i c p) { g with accepted := g.accepted ++ l } := by
  obtain ⟨hbr, written, hand, hacc, hbyt, hmem, hzero⟩ := h
  refine ⟨hbr, written, hand, ?_, hbyt, fun frame hq => ?_, fun hnone => hzero ?_⟩
  · change g.accepted ++ l = written ++ hand ++ (effect c s.shared p).queue
    rw [hacc, hque, append_assoc]
  · obtain hq | hq | ⟨j, -, hj⟩ := mem_after hq
    · cases (congrArg Point.inHand hq).trans hnext
    · cases spawn_writeLoop hq
    · exact hmem frame (mem_of_getElem? hj)
  have hcnt := countP_after (M := program) (c := c) hi Point.inHand
  simp only [program, hp, hnext, Bool.toNat_false] at hcnt hnone
  omega

theorem Live.still (h : Live s g) (hi : s.threads[i]? = some p)
    (hque : (effect c s.shared p).queue = s.shared.queue) (hp : p.inHand = false)
    (hnext : (next c s.shared p).inHand = false) : Live (program.after s i c p) g := by
  simpa using h.grows (l := []) hi (by simpa using hque) hp hnext

theorem alone (hle : writing s.threads ≤ 1) (hi : s.threads[i]? = some p)
    (hp : p.atLoop = true ∨ p.inHand = true) {j : ℕ} (hji : j ≠ i) (frame : List UInt8) :
    s.threads[j]? ≠ some (.writeFrame frame) := by
  intro hj
  have hhand : 0 < s.threads.countP Point.inHand :=
    countP_pos_iff.2 ⟨_, mem_of_getElem? hj, rfl⟩
  unfold writing at hle
  obtain hp | hp := hp
  · have hloop : 0 < s.threads.countP Point.atLoop :=
      countP_pos_iff.2 ⟨_, mem_of_getElem? hi, hp⟩
    omega
  · have htwo := two_le_countP hi hj hji hp rfl
    omega

theorem Live.takes (h : Live s g) (hle : writing s.threads ≤ 1)
    (hi : s.threads[i]? = some .writeLoop) (hrecv : s.shared.receives c = some frame) :
    Live (program.after s i c .writeLoop) g := by
  obtain ⟨hbr, written, hand, hacc, hbyt, -, hzero⟩ := h
  have hnext : program.next c s.shared .writeLoop = .writeFrame frame := by
    simp only [program, next, hrecv]
  have hque : s.shared.queue = frame :: (effect c s.shared .writeLoop).queue := by
    have hhead : s.shared.sendCh.bind List.head? = some frame := by
      unfold Shared.receives at hrecv
      split at hrecv
      · exact hrecv
      · cases hrecv
    obtain ⟨queue, hsen, hhead⟩ := Option.bind_eq_some_iff.1 hhead
    obtain ⟨rest, rfl⟩ := head?_eq_some_iff.1 hhead
    simp [effect, hrecv, Shared.queue, hsen]
  have hhand : hand = [] := by
    refine hzero (countP_eq_zero.2 fun q hq hin => ?_)
    have hloop : 0 < s.threads.countP Point.atLoop :=
      countP_pos_iff.2 ⟨_, mem_of_getElem? hi, rfl⟩
    have hpos : 0 < s.threads.countP Point.inHand := countP_pos_iff.2 ⟨_, hq, hin⟩
    unfold writing at hle
    omega
  subst hhand
  refine ⟨hbr, written, [frame], ?_, hbyt, fun other hq => ?_, fun hnone => ?_⟩
  · change g.accepted = written ++ [frame] ++ (effect c s.shared .writeLoop).queue
    rw [hacc, hque, append_nil, append_assoc, singleton_append]
  · obtain hq | hq | ⟨j, hji, hj⟩ := mem_after hq
    · cases hq.trans hnext
      rfl
    · cases spawn_writeLoop hq
    · exact absurd hj (alone hle hi (.inl rfl) hji other)
  · have hmem := hnext ▸ next_mem_after (M := program) (c := c) hi
    cases countP_eq_zero.1 hnone _ hmem rfl

theorem Live.writes (h : Live s g) (hle : writing s.threads ≤ 1)
    (hi : s.threads[i]? = some (.writeFrame frame)) :
    Live (program.after s i true (.writeFrame frame)) (g.write frame true) := by
  obtain ⟨hbr, written, hand, hacc, hbyt, hmem, -⟩ := h
  obtain rfl := hmem frame (mem_of_getElem? hi)
  simp only [write, hbr, Bool.false_eq_true, if_false, if_true]
  refine ⟨rfl, written ++ [frame], [], ?_, ?_, fun other hq => ?_, fun _ => rfl⟩
  · rw [append_nil]
    exact hacc
  · simp [hbyt]
  obtain hq | hq | ⟨j, hji, hj⟩ := mem_after hq
  · cases hq
  · cases spawn_writeLoop hq
  · exact absurd hj (alone hle hi (.inr rfl) hji other)

theorem Live.fails (h : Live s g) (hone : s.shared.writers ≤ 1)
    (hwri : writing s.threads ≤ s.shared.writers)
    (hi : s.threads[i]? = some (.writeFrame frame)) :
    Ended (program.after s i false (.writeFrame frame)) (g.write frame false) := by
  obtain ⟨hbr, written, hand, hacc, hbyt, hmem, -⟩ := h
  obtain rfl := hmem frame (mem_of_getElem? hi)
  simp only [write, hbr, Bool.false_eq_true, if_false]
  refine ⟨⟨written.length + 1, g.cut.getD 0, ?_, ?_, ?_⟩, ?_⟩
  · simp [items, hacc]
  · cases g.cut <;> simp
  · simp [items, hacc, hbyt]
  have hloop := countP_after (M := program) (c := false) hi Point.atLoop
  have hhand := countP_after (M := program) (c := false) hi Point.inHand
  simp only [program, next, spawn, Point.atLoop, Point.inHand, Bool.false_eq_true, if_false,
    Bool.toNat_false, Bool.toNat_true, countP_nil] at hloop hhand
  cases g.cut with
  | some => exact .inl rfl
  | none =>
    refine .inr ⟨?_, ?_⟩
    · change s.shared.writers = 1
      unfold writing at hwri
      omega
    unfold writing at hwri ⊢
    simp only [program]
    omega

theorem Live.after (hr : program.system.Reachable s) (hs : Streams s g) (h : Live s g)
    (hi : s.threads[i]? = some p) :
    Live (program.after s i c p) (record s g (.run i c)) ∨
      Ended (program.after s i c p) (record s g (.run i c)) := by
  have hle : writing s.threads ≤ 1 := hs.writers.trans (writers_le hr)
  simp only [record, hi]
  cases p with
  | select frame late =>
    left
    dsimp only
    by_cases hsen : s.shared.sends c = true
    · rw [if_pos hsen]
      refine h.grows hi ?_ rfl ?_
      · simp only [effect, hsen, if_true, Shared.queue]
        cases hsend : s.shared.sendCh with
        | none => simp [Shared.sends, Shared.hasRoom, hsend] at hsen
        | some => rfl
      · simp only [next, hsen, if_true, Point.inHand]
    rw [if_neg hsen]
    refine h.still hi ?_ rfl ?_
    · simp [effect, hsen, Shared.queue]
    · simp [next, hsen, Point.inHand]
  | writeLoop =>
    left
    cases hrecv : s.shared.receives c with
    | some => exact h.takes hle hi hrecv
    | none =>
      refine h.still hi ?_ rfl ?_
      · simp [effect, hrecv]
      · simp only [next, hrecv]
        split <;> rfl
  | writeFrame frame =>
    cases c with
    | true => exact .inl (h.writes hle hi)
    | false => exact .inr (h.fails (writers_le hr) hs.writers hi)
  | makeSendCh frame late =>
    have hnone := hs.making frame late (mem_of_getElem? hi)
    exact .inl (h.still hi (by simp [Shared.queue, effect, hnone]) rfl rfl)
  | enqueue | shutdown =>
    refine .inl (h.still hi ?_ rfl ?_) <;> dsimp only [effect, next] <;> split <;> rfl
  | _ => exact .inl (h.still hi rfl rfl rfl)

theorem Streams.run (hr : program.system.Reachable s)
    (hr' : program.system.Reachable (program.after s i c p)) (hs : Streams s g)
    (hi : s.threads[i]? = some p) :
    Streams (program.after s i c p) (record s g (.run i c)) := by
  have hwri := writing_after (c := c) hi
  have hwrit := hs.writers
  obtain ⟨hun, hmak⟩ := sendCh_after (c := c) hr hs hi
  refine ⟨by omega, hun, hmak, ?_⟩
  obtain hlive | hend := hs.bytes
  · exact hlive.after hr hs hi
  · exact .inr (hend.after hr' hi)

theorem Streams.env {call : Call} {t : Shared} {new : List Point} (hs : Streams s g)
    (h : Env s.shared call t new) : Streams ⟨t, s.threads ++ new⟩ g := by
  have hnew : t = s.shared ∧ ∀ q ∈ new, q.atLoop = false ∧ q.inHand = false ∧
      ∀ frame late, q ≠ .makeSendCh frame late := by
    cases h <;> simp [Point.atLoop, Point.inHand]
  obtain ⟨rfl, hnew⟩ := hnew
  have hloop : new.countP Point.atLoop = 0 :=
    countP_eq_zero.2 fun q hq => by simp [(hnew q hq).1]
  have hhand : new.countP Point.inHand = 0 :=
    countP_eq_zero.2 fun q hq => by simp [(hnew q hq).2.1]
  have hwri : writing (s.threads ++ new) = writing s.threads := by
    simp [writing, countP_append, hloop, hhand]
  refine ⟨hwri ▸ hs.writers, hs.unused, fun frame late hq => ?_, ?_⟩
  · obtain hq | hq := mem_append.1 hq
    · exact hs.making frame late hq
    · exact absurd rfl ((hnew _ hq).2.2 frame late)
  refine hs.bytes.imp ?_ fun ⟨hcut, hend⟩ => ⟨hcut, hwri ▸ hend⟩
  rintro ⟨hbr, written, hand, hacc, hbyt, hmem, hzero⟩
  refine ⟨hbr, written, hand, hacc, hbyt, fun frame hq => ?_, fun hnone => hzero ?_⟩
  · obtain hq | hq := mem_append.1 hq
    · exact hmem frame hq
    · cases (hnew _ hq).2.1
  · rwa [countP_append, hhand, Nat.add_zero] at hnone

theorem record_challenge {m : Move Bool Call} : (record s g m).challenge = g.challenge := by
  unfold record Wire.write
  (repeat' split) <;> rfl

end

variable {challenge : List UInt8} {sent : ℕ} {cut : Option ℕ} {s : Pool Shared Point} {g : Wire}

theorem streams_registered :
    Streams ⟨{}, []⟩ (registered challenge sent cut) := by
  refine ⟨le_rfl, fun _ => rfl, nofun, ?_⟩
  by_cases hsent : sent < challenge.length
  · right
    refine ⟨⟨0, sent, Nat.zero_lt_succ _, .inl ?_, rfl⟩, .inl ?_⟩ <;> exact decide_eq_true hsent
  left
  refine ⟨decide_eq_false hsent, [], [], rfl, ?_, nofun, fun _ => rfl⟩
  simpa [registered] using not_lt.1 hsent

theorem streams_reachable (h : (system challenge sent cut).Reachable (s, g)) :
    program.system.Reachable s ∧ Streams s g ∧ g.challenge = challenge := by
  refine h.invariant (I := fun s => program.system.Reachable s.1 ∧ Streams s.1 s.2 ∧
    s.2.challenge = challenge) ?_ ?_
  · rintro ⟨⟨shared, threads⟩, g⟩ ⟨hinit, rfl⟩
    obtain ⟨rfl, rfl⟩ := id hinit
    exact ⟨.init hinit, streams_registered, rfl⟩
  rintro ⟨s, g⟩ l ⟨t, g'⟩ - ⟨hr, hs, hcha⟩ ⟨-, hstep, rfl⟩
  have hr' : program.system.Reachable t := hr.step hstep
  refine ⟨hr', ?_, record_challenge.trans hcha⟩
  cases hstep with
  | run hi _ => exact hs.run hr hr' hi
  | env h => exact hs.env h

/-- **The stream of a session.** However the senders interleave, what was written is the challenge
and the accepted frames, in the order of acceptance, up to some frame; of the next one a part was
written only if a `Write` has failed. -/
theorem session_stream (challenge : List UInt8) (sent : ℕ) (cut : Option ℕ)
    (h : (system challenge sent cut).Reachable (s, g)) :
    ∃ k n, g.bytes = ((challenge :: g.accepted).take k).flatten ++
      (((challenge :: g.accepted)[k]?).getD []).take n ∧ (g.broken = false → n = 0) := by
  obtain ⟨-, hs, rfl⟩ := streams_reachable h
  obtain ⟨-, written, hand, hacc, hbyt, -⟩ | ⟨⟨k, n, hk, hcut, hbyt⟩, -⟩ := hs.bytes
  · refine ⟨written.length + 1, 0, ?_, fun _ => rfl⟩
    simp [hbyt, hacc]
  refine ⟨k, n, ?_, fun hwh => hcut.resolve_left (by simp [hwh])⟩
  change _ = (g.items.take k).flatten ++ ((g.items[k]?).getD []).take n
  rw [hbyt, getElem?_eq_getElem hk]
  rfl

theorem first_frame_streamed : ∃ s g, (system [1] 1 none).Reachable (s, g) ∧ g.bytes = [1, 7] ∧
    ∃ k n, g.bytes = (([1] :: g.accepted).take k).flatten ++
      ((([1] :: g.accepted)[k]?).getD []).take n ∧ (g.broken = false → n = 0) := by
  have hrun : ∀ {s g} i {p}, (system [1] 1 none).Reachable (s, g) → s.threads[i]? = some p →
      enabled s.shared p → g.broken = false →
      (system [1] 1 none).Reachable (program.after s i true p, record s g (.run i true)) :=
    fun i _ h hi hen hwh => h.step (l := .run i true)
      ⟨fun _ _ hbr => by simp [hwh] at hbr, .run hi hen, rfl⟩
  have hinit : (system [1] 1 none).Reachable (⟨{}, []⟩, registered [1] 1 none) :=
    .init ⟨⟨rfl, rfl⟩, rfl⟩
  have henq : (system [1] 1 none).Reachable
      (⟨{}, [.enqueue [7] false]⟩, registered [1] 1 none) :=
    LTS.Reachable.step (l := .env (.enqueue [7])) hinit
      ⟨trivial, .env (M := program) (Env.enqueue [7]), rfl⟩
  have hmake := hrun 0 henq rfl nofun rfl
  have hstd := hrun 0 (hrun 0 (hrun 0 hmake rfl trivial rfl) rfl trivial rfl) rfl trivial rfl
  have hacc := hrun 0 (hrun 0 hstd rfl trivial rfl) rfl trivial rfl
  have hwr := hrun 1 (hrun 1 hacc rfl (.inr nofun) rfl) rfl trivial rfl
  exact ⟨_, _, hwr, rfl, session_stream [1] 1 none hwr⟩

end LatticeMesh.Relay.SessionWriter
