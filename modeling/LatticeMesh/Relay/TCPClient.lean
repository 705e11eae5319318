import Mathlib
import LatticeMesh.Lib.Bufio
import LatticeMesh.Lib.Threads
import LatticeMesh.Relay.Auth
import LatticeMesh.Relay.Receive

/-! # The TCP client -/

namespace LatticeMesh.Relay.TCPClient

open List

def sendChanDepth : ℕ := 4096

def writerBufSize : ℕ := 128 * 1024

structure Config where
  localId : UInt64
  authToken : List UInt8
  privateKey : List UInt8
  x25519 : X25519

def Config.client (cfg : Config) (seq : UInt32) : RelayClient := ⟨cfg.localId, cfg.authToken, seq⟩

def Config.registerHeader (cfg : Config) (seq : UInt16) : Header :=
  ⟨seq, UInt32.ofNat cfg.authToken.length, Cmd.register, cfg.localId.toUInt32, 0⟩

def authResponse (seq : UInt16) (resp : List UInt8) : List UInt8 :=
  (⟨seq, UInt32.ofNat resp.length, Cmd.authResponse, 0, 0⟩ : Header).marshal ++ resp

structure Conn where
  rx : Rx := { input := [] }
  written : List UInt8 := []
  err : Bool := false
  registered : Bool := false
  exchanged : Bool := false
  arrived : List UInt8 := []
  deriving DecidableEq

structure Shared where
  seq : UInt32 := 0
  conns : List Conn := []
  conn : Option ℕ := none
  authPending : Bool := false
  writeMu : Bool := false
  sendCh : List (List UInt8) := []
  closed : Bool := false
  started : Bool := false
  receiving : Bool := false
  deriving DecidableEq

inductive Writer where
  | loop
  | exchange
  deriving DecidableEq

inductive Point where
  | run
  | dial
  | publish
  | register (k : ℕ)
  | registerHeader (k : ℕ) (h : Header)
  | registerToken (k : ℕ)
  | registerFailed (k : ℕ)
  | setPending (k : ℕ)
  | connected (k : ℕ)
  | stopped
  | writerLoop
  | drain (frame : List UInt8)
  | writeFrames (frames : List (List UInt8))
  | dropPending
  | lock (w : Writer) (k : ℕ) (frames : List (List UInt8))
  | setDeadline (w : Writer) (k : ℕ) (frames : List (List UInt8))
  | flush (w : Writer) (k : ℕ) (pieces : List (List UInt8))
  | unlock (w : Writer) (k : ℕ) (ok : Bool)
  | disconnect (w : Writer) (k : ℕ)
  | send (toID : UInt64) (cmd : UInt8) (data : List UInt8)
  | enqueue (toID : UInt64) (cmd : UInt8) (data : List UInt8)
  | receive
  | swap (k : ℕ)
  | exchange (k : ℕ)
  | answer (k : ℕ) (challenge : List UInt8)
  | writeFramesTo (k : ℕ) (frame : List UInt8)
  | readFrame (k : ℕ)
  | hangUp (k : ℕ)
  | ended
  | close
  | closeConn
  | closeDisconnect (k : ℕ)
  | done
  deriving DecidableEq

structure Choice where
  ok : Bool := true
  n : ℕ := 0
  bufLen : ℕ := 0
  room : Bool := true
  deriving Inhabited

namespace Shared

def modify (s : Shared) (k : ℕ) (f : Conn → Conn) : Shared :=
  { s with conns := s.conns.modify k f }

def disconnect (s : Shared) (k n : ℕ) : Shared :=
  if s.conn = some k then
    { s with conn := none }.modify k fun c =>
      { c with rx := { c.rx with input := c.rx.input.take n ++ [Arrival.broken] } }
  else s

def awaitChallenge (s : Shared) (k : ℕ) : Option Rx.Await :=
  s.conns[k]?.bind fun c => c.rx.awaitChallenge

def readFrame (s : Shared) (k : ℕ) (c : Choice) : Option Rx :=
  s.conns[k]?.bind fun conn => conn.rx.receive c.bufLen c.room

def writeErr (s : Shared) (k : ℕ) : Bool := s.conns[k]?.all Conn.err

end Shared

def Conn.write (c : Conn) (p : List UInt8) (n : ℕ) : Conn :=
  { c with written := c.written ++ p.take n }

def enabled (s : Shared) : Point → Prop
  | .connected k => s.conn ≠ some k ∨ s.closed = true
  | .writerLoop => s.sendCh ≠ [] ∨ s.closed = true
  | .lock _ _ _ => s.writeMu = false
  | .receive => s.conn ≠ none ∨ s.closed = true
  | .exchange k => (s.awaitChallenge k).isSome = true
  | .readFrame k => (s.readFrame k {}).isSome = true
  | .stopped | .ended | .done => False
  | _ => True

instance (s : Shared) (p : Point) : Decidable (enabled s p) := by
  cases p <;> dsimp only [enabled] <;> infer_instance

section

variable (cfg : Config) (c : Choice) (s : Shared)

def registerWrite (k : ℕ) (p : List UInt8) (last : Bool) : Shared :=
  match s.conn with
  | none => s
  | some j =>
    (s.modify j (·.write p c.n)).modify k fun conn =>
      { conn with registered := conn.registered || last && decide (p.length ≤ c.n) }

def registerWrites (p : List UInt8) : Bool := s.conn.isSome && decide (p.length ≤ c.n)

def flushPiece (k : ℕ) (piece : List UInt8) : Shared :=
  if s.writeErr k then s
  else s.modify k fun conn => { conn.write piece c.n with err := decide (c.n < piece.length) }

def effect : Point → Shared
  | .publish => { s with conns := s.conns ++ [{}], conn := some s.conns.length }
  | .register _ => { s with seq := (cfg.client s.seq).nextSeq.2.seq }
  | .registerHeader k h => registerWrite c s k h.marshal cfg.authToken.isEmpty
  | .registerToken k => registerWrite c s k cfg.authToken true
  | .registerFailed k => s.disconnect k c.n
  | .setPending _ => { s with authPending := true }
  | .writerLoop => if s.closed && !c.ok then s else { s with sendCh := s.sendCh.tail }
  | .drain _ => { s with sendCh := [] }
  | .dropPending => { s with sendCh := [] }
  | .lock _ _ _ => { s with writeMu := true }
  | .flush _ k (piece :: _) => flushPiece c s k piece
  | .unlock _ _ _ => { s with writeMu := false }
  | .disconnect _ k => s.disconnect k c.n
  | .enqueue toID cmd data =>
    let (frame, client) := (cfg.client s.seq).makeFrame toID cmd data
    { s with
      seq := client.seq
      sendCh := if s.sendCh.length < sendChanDepth then s.sendCh ++ [frame] else s.sendCh }
  | .swap k =>
    if s.authPending then
      { s with authPending := false }.modify k fun conn => { conn with exchanged := true }
    else s
  | .exchange k =>
    match s.awaitChallenge k with
    | some (.legacy rx) | some (.challenge _ rx) => s.modify k fun conn => { conn with rx := rx }
    | some .refused | none => s
  | .answer _ _ => { s with seq := (cfg.client s.seq).nextSeq.2.seq }
  | .readFrame k =>
    match s.readFrame k c with
    | some rx => s.modify k fun conn => { conn with rx := rx }
    | none => s
  | .hangUp k => s.disconnect k c.n
  | .close => { s with closed := true }
  | .closeDisconnect k => s.disconnect k c.n
  | _ => s

def flushed (w : Writer) (k : ℕ) : Point :=
  match w with
  | .loop => .writerLoop
  | .exchange => .readFrame k

def next : Point → Point
  | .run => if s.closed then .stopped else .dial
  | .dial => if c.ok then .publish else .run
  | .publish => .register s.conns.length
  | .register k => .registerHeader k (cfg.registerHeader (cfg.client s.seq).nextSeq.1)
  | .registerHeader k h =>
    if registerWrites c s h.marshal then
      if cfg.authToken.isEmpty then .setPending k else .registerToken k
    else .registerFailed k
  | .registerToken k =>
    if registerWrites c s cfg.authToken then .setPending k else .registerFailed k
  | .registerFailed _ => .run
  | .setPending k => .connected k
  | .connected k => if s.conn = some k then .stopped else .run
  | .writerLoop =>
    match s.sendCh with
    | [] => .done
    | frame :: _ => if s.closed && !c.ok then .done else .drain frame
  | .drain frame => .writeFrames (frame :: s.sendCh)
  | .writeFrames frames =>
    match s.conn with
    | none => .dropPending
    | some k => .lock .loop k frames
  | .dropPending => .writerLoop
  | .lock w k frames => .setDeadline w k frames
  | .setDeadline w k frames =>
    if c.ok then .flush w k (Bufio.pieces writerBufSize [] frames) else .unlock w k false
  | .flush w k [] => .unlock w k true
  | .flush w k (piece :: pieces) =>
    if s.writeErr k || decide (c.n < piece.length) then .unlock w k false else .flush w k pieces
  | .unlock w k ok => if ok then flushed w k else .disconnect w k
  | .disconnect w _ =>
    match w with
    | .loop => .dropPending
    | .exchange => .receive
  | .send toID cmd data => if s.conn.isSome then .enqueue toID cmd data else .done
  | .enqueue _ _ _ => .done
  | .receive =>
    if s.closed then .ended
    else
      match s.conn with
      | none => .receive
      | some k => .swap k
  | .swap k => if s.authPending then .exchange k else .readFrame k
  | .exchange k =>
    match s.awaitChallenge k with
    | some (.legacy _) => .readFrame k
    | some .refused => .hangUp k
    | some (.challenge challenge _) => .answer k challenge
    | none => .exchange k
  | .answer k challenge =>
    match answerChallenge cfg.x25519 challenge cfg.privateKey with
    | .error _ => .hangUp k
    | .ok resp => .writeFramesTo k (authResponse (cfg.client s.seq).nextSeq.1 resp)
  | .writeFramesTo k frame => if s.conn = some k then .lock .exchange k [frame] else .receive
  | .readFrame k =>
    match s.readFrame k c with
    | some rx => if rx.dropped then .hangUp k else .receive
    | none => .readFrame k
  | .hangUp _ => .receive
  | .close => .closeConn
  | .closeConn =>
    match s.conn with
    | none => .done
    | some k => .closeDisconnect k
  | .closeDisconnect _ => .done
  | p => p

end

inductive Event where
  | start
  | listen
  | send (toID : UInt64) (cmd : UInt8) (data : List UInt8)
  | close
  | arrive (k : ℕ) (a : Arrival UInt8)

def Conn.arrive (c : Conn) (a : Arrival UInt8) : Conn :=
  { c with
    rx := { c.rx with input := c.rx.input ++ [a] }
    arrived := c.arrived ++ Arrival.items [a] }

inductive Env (s : Shared) : Event → Shared → List Point → Prop
  | start (h : s.started = false) : Env s .start { s with started := true } [.run, .writerLoop]
  | listen (h : s.receiving = false) : Env s .listen { s with receiving := true } [.receive]
  | send (toID : UInt64) (cmd : UInt8) (data : List UInt8) :
    Env s (.send toID cmd data) s [.send toID cmd data]
  | close : Env s .close s [.close]
  | arrive {k : ℕ} {conn : Conn} (a : Arrival UInt8) (h : s.conns[k]? = some conn)
      (hopen : Arrival.broken ∉ conn.rx.input) : Env s (.arrive k a) (s.modify k (·.arrive a)) []

def program (cfg : Config) : Program Shared Point Choice Event where
  init s := s = {}
  enabled := enabled
  effect := effect cfg
  next := next cfg
  spawn _ _ _ := []
  env := Env

instance (cfg : Config) (s : Shared) (p : Point) : Decidable ((program cfg).enabled s p) :=
  inferInstanceAs (Decidable (enabled s p))

def turns (is : List ℕ) : List (ℕ × Choice) := is.map fun i => (i, { n := 100 })

def Point.supervises : Point → Bool
  | .run | .dial | .publish | .register _ | .registerHeader _ _ | .registerToken _
  | .registerFailed _ | .setPending _ | .connected _ | .stopped => true
  | _ => false

def Point.receives : Point → Bool
  | .lock w _ _ | .setDeadline w _ _ | .flush w _ _ | .unlock w _ _ | .disconnect w _ =>
    w = .exchange
  | .receive | .swap _ | .exchange _ | .answer _ _ | .writeFramesTo _ _ | .readFrame _ | .hangUp _
  | .ended => true
  | _ => false

def Point.holdsLock : Point → Bool
  | .setDeadline _ _ _ | .flush _ _ _ | .unlock _ _ _ => true
  | _ => false

def Point.atLock : Point → Bool
  | .lock _ _ _ | .unlock _ _ _ => true
  | _ => false

section

-- The equations of the program are derived here, before the proofs that split on its points.
attribute [local simp] enabled effect next

end

section

variable {cfg : Config} {c : Choice} {s : Shared} {p : Point}

theorem supervises_next : (next cfg c s p).supervises = p.supervises := by
  unfold next flushed
  (repeat' split) <;> rfl

theorem receives_next : (next cfg c s p).receives = p.receives := by
  unfold next flushed
  (repeat' split) <;> rfl

theorem flags_effect :
    (effect cfg c s p).started = s.started ∧ (effect cfg c s p).receiving = s.receiving := by
  unfold effect registerWrite flushPiece Shared.disconnect
  (repeat' split) <;> exact ⟨rfl, rfl⟩

theorem writeMu_effect (h : p.atLock = false) : (effect cfg c s p).writeMu = s.writeMu := by
  unfold effect registerWrite flushPiece Shared.disconnect
  (repeat' split) <;> first | rfl | cases h

theorem holdsLock_next (h : p.atLock = false) : (next cfg c s p).holdsLock = p.holdsLock := by
  unfold next
  (repeat' split) <;> first | rfl | cases h

end

section

variable {cfg : Config} {s : Pool Shared Point}

theorem supervisor_balance (h : (program cfg).system.Reachable s) :
    s.threads.countP Point.supervises = s.shared.started.toNat := by
  have hsum := (program cfg).balance Point.supervises (fun _ => 0)
    (fun s => s.started.toNat) ?_ ?_ ?_ h
  · rwa [Nat.zero_add] at hsum
  · rintro s rfl
    rfl
  · rintro s c p - - - -
    simp only [program, supervises_next, flags_effect.1, countP_nil, Nat.add_zero]
  intro s e t new henv
  cases henv with
  | start hstd => rw [hstd]; rfl
  | _ => simp [Shared.modify, Point.supervises]

theorem receiver_balance (h : (program cfg).system.Reachable s) :
    s.threads.countP Point.receives = s.shared.receiving.toNat := by
  have hsum := (program cfg).balance Point.receives (fun _ => 0)
    (fun s => s.receiving.toNat) ?_ ?_ ?_ h
  · rwa [Nat.zero_add] at hsum
  · rintro s rfl
    rfl
  · rintro s c p - - - -
    simp only [program, receives_next, flags_effect.2, countP_nil, Nat.add_zero]
  intro s e t new henv
  cases henv with
  | listen hrecv => rw [hrecv]; rfl
  | _ => simp [Shared.modify, Point.receives]

theorem lock_balance (h : (program cfg).system.Reachable s) :
    s.threads.countP Point.holdsLock = s.shared.writeMu.toNat := by
  have hsum := (program cfg).balance Point.holdsLock (fun _ => 0)
    (fun s => s.writeMu.toNat) ?_ ?_ ?_ h
  · rwa [Nat.zero_add] at hsum
  · rintro s rfl
    rfl
  · rintro s c p - hp hsum hen
    cases p with
    | lock w k frames =>
      have hfree : s.shared.writeMu = false := hen
      rw [hfree]
      rfl
    | unlock w k ok =>
      have hheld : s.shared.writeMu = true := by
        have hpos : 0 < s.threads.countP Point.holdsLock := countP_pos_iff.2 ⟨_, hp, rfl⟩
        cases hmu : s.shared.writeMu with
        | true => rfl
        | false => simp only [hmu, Bool.toNat_false] at hsum; omega
      rw [hheld]
      simp only [program, next, effect, flushed]
      cases ok <;> cases w <;> rfl
    | _ =>
      simp only [program]
      rw [writeMu_effect rfl, holdsLock_next rfl]
      rfl
  · intro s e t new henv
    cases henv <;> simp [Shared.modify, Point.holdsLock]

theorem eq_of_countP {i j : ℕ} {p q : Point} {f : Point → Bool} {b : Bool}
    (hcnt : s.threads.countP f = b.toNat) (hi : s.threads[i]? = some p)
    (hj : s.threads[j]? = some q) (hp : f p = true) (hq : f q = true) : j = i := by
  by_contra hne
  have htwo := Program.two_le_countP hi hj hne hp hq
  have hone := Bool.toNat_le b
  omega

end

def Point.conn : Point → Option ℕ
  | .register k | .registerHeader k _ | .registerToken k | .registerFailed k | .setPending k
  | .connected k | .lock _ k _ | .setDeadline _ k _ | .flush _ k _ | .unlock _ k _
  | .disconnect _ k | .swap k | .exchange k | .answer k _ | .writeFramesTo k _ | .readFrame k
  | .hangUp k | .closeDisconnect k => some k
  | _ => none

section

variable {cfg : Config} {c : Choice} {s : Shared} {p : Point} {k : ℕ}

theorem length_effect : s.conns.length ≤ (effect cfg c s p).conns.length := by
  unfold effect registerWrite flushPiece Shared.disconnect Shared.modify
  (repeat' split) <;> simp

theorem conn_effect (hp : p ≠ .publish) (h : (effect cfg c s p).conn = some k) :
    s.conn = some k := by
  unfold effect registerWrite flushPiece Shared.disconnect Shared.modify at h
  (repeat' split at h) <;> first | exact h | exact absurd rfl hp | cases h

theorem conn_next (hp : p ≠ .publish) (h : (next cfg c s p).conn = some k) :
    p.conn = some k ∨ s.conn = some k := by
  unfold next flushed at h
  (repeat' split at h) <;> first
    | exact .inl h
    | exact absurd rfl hp
    | (cases h; done)
    | (cases h; exact .inr (by assumption))

theorem Env.conns {e : Event} {t : Shared} {new : List Point} (h : Env s e t new) :
    t.conn = s.conn ∧ t.conns.length = s.conns.length := by
  cases h <;> simp [Shared.modify]

theorem Env.conn_new {e : Event} {t : Shared} {new : List Point} {q : Point} (h : Env s e t new)
    (hq : q ∈ new) : q.conn = none := by
  cases h <;> simp at hq <;> first | (subst hq; rfl) | (obtain rfl | rfl := hq <;> rfl)

end

section

variable {cfg : Config} {G : Pool Shared Point → Move Choice Event → Prop} {s : Pool Shared Point}

theorem conns_exist (h : ((program cfg).system.guard G).Reachable s) :
    Program.Holds (fun s => ∀ k, s.conn = some k → k < s.conns.length)
      (fun s p => ∀ k, p.conn = some k → k < s.conns.length) s := by
  refine (program cfg).holds ?_ ?_ ?_ ?_ h
  · rintro s rfl k hk
    cases hk
  · rintro s i c p ⟨hs, hthr⟩ hi - -
    have hpoi := hthr p (mem_of_getElem? hi)
    by_cases hp : p = .publish
    · subst hp
      refine ⟨fun k hk => ?_, fun k hk => ?_, nofun⟩ <;> cases hk <;> simp [program, effect]
    refine ⟨fun k hk => ?_, fun k hk => ?_, nofun⟩
    · exact Nat.lt_of_lt_of_le (hs k (conn_effect hp hk)) length_effect
    · refine Nat.lt_of_lt_of_le ?_ length_effect
      exact (conn_next hp hk).elim (hpoi k) (hs k)
  · rintro s i c p q j ⟨-, hthr⟩ - - - - hj k hk
    exact Nat.lt_of_lt_of_le (hthr q (mem_of_getElem? hj) k hk) length_effect
  rintro s e t new ⟨hs, hthr⟩ henv -
  obtain ⟨hconn, hlen⟩ := henv.conns
  refine ⟨fun k hk => ?_, fun q hq k hk => ?_, fun q hq k hk => ?_⟩
  · exact hlen ▸ hs k (hconn ▸ hk)
  · rw [henv.conn_new hq] at hk
    cases hk
  · exact hlen ▸ hthr q hq k hk

def Supervised (s : Shared) : Point → Prop
  | .run | .dial | .publish => s.conn = none
  | .register k | .registerHeader k _ | .registerToken k | .registerFailed k | .setPending k
  | .connected k => s.conn = some k ∨ s.conn = none
  | _ => True

theorem Supervised.mono {s t : Shared} {p : Point} (h : ∀ k, t.conn = some k → s.conn = some k)
    (hs : Supervised s p) : Supervised t p := by
  have hnone : s.conn = none → t.conn = none := fun hnone =>
    Option.eq_none_iff_forall_ne_some.2 fun k hk => absurd ((h k hk).symm.trans hnone) nofun
  have hsome : ∀ k, s.conn = some k ∨ s.conn = none → t.conn = some k ∨ t.conn = none := by
    rintro k (hk | hk)
    · cases ht : t.conn with
      | none => exact .inr rfl
      | some j => exact .inl ((h j ht).symm.trans hk)
    · exact .inr (hnone hk)
  unfold Supervised at hs ⊢
  split <;> first | exact hnone hs | exact hsome _ hs | trivial

theorem conn_disconnect {s : Shared} {k n : ℕ} (h : s.conn = some k ∨ s.conn = none) :
    (s.disconnect k n).conn = none := by
  unfold Shared.disconnect
  split
  · rfl
  · next hne => exact h.resolve_left hne

theorem supervised_next {s : Shared} {c : Choice} {p : Point} (h : Supervised s p) :
    Supervised (effect cfg c s p) (next cfg c s p) := by
  cases hp : p.supervises with
  | false =>
    have hnext : (next cfg c s p).supervises = false := supervises_next.trans hp
    cases hq : next cfg c s p <;> rw [hq] at hnext <;> trivial
  | true =>
    have hkeep : p ≠ .publish → ∀ k, (effect cfg c s p).conn = some k → s.conn = some k :=
      fun hne k => conn_effect hne
    cases p with
    | run | dial =>
      simp only [next]
      split <;> trivial
    | publish => exact .inl rfl
    | register k | setPending k => exact h
    | registerHeader k _ | registerToken k =>
      have haft := Supervised.mono (p := .registerFailed k) (hkeep nofun) h
      simp only [next]
      (repeat' split) <;> exact haft
    | registerFailed k => exact conn_disconnect h
    | connected k =>
      simp only [next]
      split
      · trivial
      · next hne => exact h.resolve_left hne
    | stopped => trivial
    | _ => cases hp

theorem supervised (h : ((program cfg).system.guard G).Reachable s) :
    Program.Holds (fun s => s.started = false → s.conn = none) Supervised s := by
  refine (program cfg).holds_reachable ?_ ?_ ?_ ?_ h
  · rintro s rfl -
    rfl
  · rintro s i c p hr ⟨hs, hthr⟩ hi - -
    refine ⟨fun hstd => ?_, supervised_next (hthr p (mem_of_getElem? hi)), nofun⟩
    have hstd' : s.shared.started = false := flags_effect.1.symm.trans hstd
    by_cases hp : p = .publish
    · subst hp
      have hcnt := supervisor_balance hr.of_guard
      rw [hstd'] at hcnt
      exact absurd (mem_of_getElem? hi) fun hmem =>
        absurd rfl (countP_eq_zero.1 hcnt _ hmem)
    · exact Option.eq_none_iff_forall_ne_some.2 fun k hk =>
        absurd ((conn_effect hp hk).symm.trans (hs hstd')) nofun
  · rintro s i c p q j hr ⟨-, hthr⟩ hi - - hji hj
    by_cases hp : p = .publish
    · subst hp
      cases hq : q.supervises with
      | true =>
        exact absurd (eq_of_countP (supervisor_balance hr.of_guard) hi hj rfl hq) hji
      | false => cases q <;> trivial
    · exact (hthr q (mem_of_getElem? hj)).mono fun k => conn_effect hp
  rintro s e t new ⟨hs, hthr⟩ henv -
  refine ⟨fun hstd => ?_, fun q hq => ?_, fun q hq => ?_⟩
  · rw [henv.conns.1]
    cases henv <;> first | exact hs hstd | cases hstd
  · cases henv with
    | start hstd =>
      obtain rfl | rfl : q = .run ∨ q = .writerLoop := by simpa using hq
      · exact hs hstd
      · trivial
    | _ => simp at hq <;> subst hq <;> trivial
  · exact (hthr q hq).mono fun k hk => henv.conns.1 ▸ hk

end

end LatticeMesh.Relay.TCPClient
