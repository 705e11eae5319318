import LatticeMesh.Relay.TCPClient

/-! # Is the Register frame the first one on a connection? -/

namespace LatticeMesh.Relay.TCPClient

open List Program

def IsFrame (b : List UInt8) : Prop :=
  ∃ (h : Header) (payload : List UInt8), b = h.marshal ++ payload ∧
    h.payloadLen = UInt32.ofNat payload.length

def Point.frames : Point → List (List UInt8)
  | .drain frame | .writeFramesTo _ frame => [frame]
  | .writeFrames frames | .lock _ _ frames | .setDeadline _ _ frames => frames
  | _ => []

section

variable {cfg : Config} {c : Choice} {s : Shared} {p : Point}

theorem isFrame_makeFrame (client : RelayClient) (toID : UInt64) (cmd : UInt8) (data : List UInt8) :
    IsFrame (client.makeFrame toID cmd data).1 := ⟨_, data, rfl, rfl⟩

theorem isFrame_authResponse (seq : UInt16) (resp : List UInt8) : IsFrame (authResponse seq resp) :=
  ⟨_, resp, rfl, rfl⟩

theorem mem_sendCh_effect {f : List UInt8} (h : f ∈ (effect cfg c s p).sendCh) :
    f ∈ s.sendCh ∨ IsFrame f := by
  cases p with
  | enqueue toID cmd data =>
    simp only [effect] at h
    split at h
    · obtain h | h := mem_append.1 h
      · exact .inl h
      · exact .inr (mem_singleton.1 h ▸ isFrame_makeFrame _ toID cmd data)
    · exact .inl h
  | writerLoop =>
    simp only [effect] at h
    split at h
    · exact .inl h
    · exact .inl (mem_of_mem_tail h)
  | drain | dropPending => cases h
  | flush w k pieces =>
    cases pieces with
    | nil => exact .inl h
    | cons =>
      simp only [effect, flushPiece] at h
      split at h <;> exact .inl h
  | registerHeader | registerToken =>
    simp only [effect, registerWrite] at h
    split at h <;> exact .inl h
  | registerFailed | disconnect | hangUp | closeDisconnect =>
    simp only [effect, Shared.disconnect] at h
    split at h <;> exact .inl h
  | swap | exchange | readFrame =>
    simp only [effect] at h
    split at h <;> exact .inl h
  | _ => exact .inl h

theorem mem_frames_next {f : List UInt8} (h : f ∈ (next cfg c s p).frames) :
    f ∈ p.frames ∨ f ∈ s.sendCh ∨ IsFrame f := by
  cases p with
  | writerLoop =>
    simp only [next] at h
    split at h
    · cases h
    next frame rest hque =>
    split at h
    · cases h
    · exact .inr (.inl (mem_singleton.1 h ▸ hque ▸ mem_cons_self))
  | drain frame =>
    obtain rfl | h := mem_cons.1 h
    · exact .inl mem_cons_self
    · exact .inr (.inl h)
  | writeFrames | writeFramesTo =>
    simp only [next] at h
    split at h <;> first | exact .inl h | cases h
  | lock => exact .inl h
  | answer k challenge =>
    simp only [next] at h
    split at h
    · cases h
    · exact .inr (.inr (mem_singleton.1 h ▸ isFrame_authResponse ..))
  | flush w k pieces =>
    cases pieces with
    | nil => cases h
    | cons =>
      simp only [next] at h
      split at h <;> cases h
  | registerHeader | unlock | disconnect | receive | exchange | readFrame =>
    simp only [next, flushed] at h
    (repeat' split at h) <;> cases h
  | run | dial | registerToken | connected | setDeadline | send | swap | closeConn =>
    simp only [next] at h
    split at h <;> cases h
  | _ => cases h

end

section

variable {cfg : Config} {G : Pool Shared Point → Move Choice Event → Prop} {s : Pool Shared Point}

theorem frames_whole (h : ((program cfg).system.guard G).Reachable s) :
    Program.Holds (fun s => ∀ f ∈ s.sendCh, IsFrame f)
      (fun _ p => ∀ f ∈ p.frames, IsFrame f) s := by
  refine (program cfg).holds ?_ ?_ ?_ ?_ h
  · rintro s rfl f hf
    cases hf
  · rintro s i c p ⟨hs, hthr⟩ hi - -
    refine ⟨fun f hf => ?_, fun f hf => ?_, nofun⟩
    · exact (mem_sendCh_effect hf).elim (hs f) id
    · exact (mem_frames_next hf).elim (hthr p (mem_of_getElem? hi) f)
        (Or.elim · (hs f) id)
  · rintro s i c p q j ⟨-, hthr⟩ - - - - hj
    exact hthr q (mem_of_getElem? hj)
  rintro s e t new ⟨hs, hthr⟩ henv -
  refine ⟨?_, fun q hq f hf => ?_, hthr⟩
  · cases henv <;> exact hs
  cases henv <;> simp at hq <;> first
    | (subst hq; cases hf)
    | (obtain rfl | rfl := hq <;> cases hf)

end

def Config.registerFrame (cfg : Config) (seq : UInt16) : List UInt8 :=
  (cfg.registerHeader seq).marshal ++ cfg.authToken

structure Flight (cfg : Config) (c : Conn) (rest : List (List UInt8)) : Prop where
  unregistered : c.registered = false → c.err = false ∧
    (∃ seq, c.written <+: cfg.registerFrame seq) ∧
    ∃ frames : List (List UInt8), (∀ f ∈ frames, IsFrame f) ∧ rest.flatten = frames.flatten
  registered : c.registered = true → ∃ (seq : UInt16) (frames : List (List UInt8)),
    (∀ f ∈ frames, IsFrame f) ∧ cfg.registerFrame seq <+: c.written ∧
    c.written <+: cfg.registerFrame seq ++ frames.flatten ∧
    (c.err = false → c.written ++ rest.flatten = cfg.registerFrame seq ++ frames.flatten)

namespace Flight

variable {cfg : Config} {c : Conn} {rest : List (List UInt8)}

theorem new : Flight cfg {} [] :=
  ⟨fun _ => ⟨rfl, ⟨0, nil_prefix⟩, [], nofun, rfl⟩, nofun⟩

theorem congr {c' : Conn} (h : Flight cfg c rest)
    (heq : c'.written = c.written ∧ c'.err = c.err ∧ c'.registered = c.registered) :
    Flight cfg c' rest := by
  obtain ⟨hwr, herr, hreg⟩ := heq
  refine ⟨fun hno => ?_, fun hyes => ?_⟩
  · rw [hwr, herr]
    exact h.unregistered (hreg ▸ hno)
  · rw [hwr, herr]
    exact h.registered (hreg ▸ hyes)

theorem load (h : Flight cfg c []) {frames : List (List UInt8)} (hfrs : ∀ f ∈ frames, IsFrame f)
    (hrest : rest.flatten = frames.flatten) : Flight cfg c rest := by
  refine ⟨fun hno => ?_, fun hyes => ?_⟩
  · obtain ⟨herr, hseq, -⟩ := h.unregistered hno
    exact ⟨herr, hseq, frames, hfrs, hrest⟩
  obtain ⟨seq, before, hbef, hst, hend, heq⟩ := h.registered hyes
  refine ⟨seq, before ++ frames, ?_, hst, ?_, fun herr => ?_⟩
  · intro f hf
    exact (mem_append.1 hf).elim (hbef f) (hfrs f)
  · rw [flatten_append, ← append_assoc]
    exact hend.trans (prefix_append _ _)
  have hwr := heq herr
  rw [flatten_nil, append_nil] at hwr
  rw [hrest, hwr, flatten_append, append_assoc]

theorem piece {piece : List UInt8} {n : ℕ} (h : Flight cfg c (piece :: rest))
    (hreg : c.registered = true) (herr : c.err = false) :
    Flight cfg { c.write piece n with err := decide (n < piece.length) }
      (if n < piece.length then [] else rest) := by
  obtain ⟨seq, frames, hfrs, hst, hend, heq⟩ := h.registered hreg
  have hall := heq herr
  rw [flatten_cons, ← append_assoc] at hall
  refine ⟨fun hno => absurd (hreg.symm.trans hno) nofun,
    fun _ => ⟨seq, frames, hfrs, ?_, ?_, ?_⟩⟩
  · exact hst.trans (prefix_append _ _)
  · rw [← hall]
    exact ((prefix_append_right_inj _).2 (List.take_prefix n piece)).trans
      (prefix_append _ _)
  intro hok
  have hle : ¬ n < piece.length := of_decide_eq_false hok
  rw [if_neg hle, ← hall]
  simp only [Conn.write]
  rw [take_of_length_le (Nat.le_of_not_lt hle)]

theorem stop (h : Flight cfg c rest) (herr : c.err = true) : Flight cfg c [] := by
  refine ⟨fun hno => absurd ((h.unregistered hno).1.symm.trans herr) nofun, fun hyes => ?_⟩
  obtain ⟨seq, frames, hfrs, hst, hend, -⟩ := h.registered hyes
  exact ⟨seq, frames, hfrs, hst, hend, fun hok => absurd (hok.symm.trans herr) nofun⟩

theorem register {new : List UInt8} {last : Bool} (seq : UInt16) (h : Flight cfg c rest)
    (hreg : c.registered = false) (hnew : c.written ++ new <+: cfg.registerFrame seq)
    (hlast : last = true → c.written ++ new = cfg.registerFrame seq) :
    Flight cfg { c with written := c.written ++ new, registered := c.registered || last } rest := by
  obtain ⟨herr, -, frames, hfrs, hrest⟩ := h.unregistered hreg
  refine ⟨fun _ => ⟨herr, ⟨seq, hnew⟩, frames, hfrs, hrest⟩, fun hyes => ?_⟩
  rw [hreg, Bool.false_or] at hyes
  have hwr := hlast hyes
  refine ⟨seq, frames, hfrs, ?_, ?_, fun _ => ?_⟩
  · exact hwr ▸ prefix_refl _
  · exact hwr ▸ prefix_append _ _
  · rw [← hwr, hrest]

end Flight

def Conn.out (c : Conn) : List UInt8 × Bool × Bool := (c.written, c.err, c.registered)

def Point.writes : Point → Bool
  | .publish | .registerHeader _ _ | .registerToken _ | .flush _ _ (_ :: _) => true
  | _ => false

theorem map_modify_eq {α β : Type} {g : α → β} {f : α → α} (h : ∀ a, g (f a) = g a) (l : List α)
    (k : ℕ) : (l.modify k f).map g = l.map g := by
  refine ext_getElem? fun j => ?_
  rw [getElem?_map, getElem?_map, getElem?_modify]
  split
  · cases l[j]? <;> simp [h]
  · simp

section

variable {cfg : Config} {c : Choice} {s t : Shared} {p : Point} {k : ℕ} {conn conn' : Conn}

theorem out_modify {f : Conn → Conn} (hf : ∀ conn, (f conn).out = conn.out) :
    (s.modify k f).conns.map Conn.out = s.conns.map Conn.out := map_modify_eq hf s.conns k

theorem out_effect (hp : p.writes = false) :
    (effect cfg c s p).conns.map Conn.out = s.conns.map Conn.out := by
  unfold effect Shared.disconnect
  (repeat' split) <;> first | rfl | exact out_modify fun _ => rfl | cases hp

theorem Env.out {e : Event} {new : List Point} (h : Env s e t new) :
    t.conns.map Conn.out = s.conns.map Conn.out := by
  cases h with
  | arrive => exact out_modify fun _ => rfl
  | _ => rfl

theorem getElem?_of_out (h : t.conns.map Conn.out = s.conns.map Conn.out)
    (hk : t.conns[k]? = some conn') : ∃ conn, s.conns[k]? = some conn ∧
      conn'.written = conn.written ∧ conn'.err = conn.err ∧
      conn'.registered = conn.registered := by
  have hmap := congrArg (·[k]?) h
  simp only [getElem?_map, hk, Option.map_some] at hmap
  obtain ⟨conn, hconn, hout⟩ := Option.map_eq_some_iff.1 hmap.symm
  obtain ⟨hwr, herr, hreg⟩ : _ ∧ _ ∧ _ := by simpa [Conn.out] using hout
  exact ⟨conn, hconn, hwr.symm, herr.symm, hreg.symm⟩

theorem getElem?_registerWrite {b : List UInt8} {last : Bool} (hconn : s.conn = some k)
    (hk : s.conns[k]? = some conn) : (registerWrite c s k b last).conns[k]? = some
      { conn with
        written := conn.written ++ b.take c.n
        registered := conn.registered || last && decide (b.length ≤ c.n) } := by
  simp [registerWrite, hconn, Shared.modify, hk, Conn.write]

theorem getElem?_registerWrite_ne {b : List UInt8} {last : Bool} {j : ℕ}
    (hconn : s.conn = some k ∨ s.conn = none) (hne : k ≠ j) :
    (registerWrite c s k b last).conns[j]? = s.conns[j]? := by
  obtain hconn | hconn := hconn <;> simp [registerWrite, hconn, Shared.modify, hne]

theorem getElem?_flushPiece {piece : List UInt8} (hk : s.conns[k]? = some conn)
    (herr : conn.err = false) : (flushPiece c s k piece).conns[k]? =
      some { conn.write piece c.n with err := decide (c.n < piece.length) } := by
  simp [flushPiece, Shared.writeErr, hk, herr, Shared.modify]

theorem getElem?_flushPiece_ne {piece : List UInt8} {j : ℕ} (hne : k ≠ j) :
    (flushPiece c s k piece).conns[j]? = s.conns[j]? := by
  unfold flushPiece
  split
  · rfl
  · simp [Shared.modify, hne]

end

def Registered (s : Pool Shared Point) : Point → Prop
  | .flush _ k (_ :: _) => s.shared.conns[k]?.any Conn.registered = true
  | _ => True

instance (s : Pool Shared Point) (p : Point) : Decidable (Registered s p) := by
  unfold Registered
  split <;> infer_instance

def Sent (s : Shared) (k : ℕ) (b : List UInt8) : Prop :=
  ∃ c, s.conns[k]? = some c ∧ c.registered = false ∧ c.written = b

def Registering (cfg : Config) (s : Shared) : Point → Prop
  | .register k => Sent s k []
  | .registerHeader k h => (∃ seq, h = cfg.registerHeader seq) ∧ Sent s k []
  | .registerToken k => ∃ seq, Sent s k (cfg.registerHeader seq).marshal
  | _ => True

theorem Registering.mono {cfg : Config} {s t : Shared} {p : Point}
    (h : ∀ k b, p.conn = some k → Sent s k b → Sent t k b) (hs : Registering cfg s p) :
    Registering cfg t p := by
  cases p with
  | register k => exact h k _ rfl hs
  | registerHeader k hdr => exact ⟨hs.1, h k _ rfl hs.2⟩
  | registerToken k =>
    obtain ⟨seq, hsent⟩ := hs
    exact ⟨seq, h k _ rfl hsent⟩
  | _ => trivial

variable {b : List UInt8}

theorem Sent.of_out {s t : Shared} {k : ℕ} (h : t.conns.map Conn.out = s.conns.map Conn.out)
    (hs : Sent s k b) : Sent t k b := by
  obtain ⟨c, hc, hreg, hwr⟩ := hs
  obtain ⟨c', hc', hwr', -, hreg'⟩ := getElem?_of_out h.symm hc
  exact ⟨c', hc', hreg' ▸ hreg, hwr' ▸ hwr⟩

theorem Sent.flush {cfg : Config} {c : Choice} {s : Pool Shared Point} {p : Point} {k : ℕ}
    (h : Sent s.shared k b) (hp : p.supervises = false) (hwri : p.writes = true)
    (hgd : Registered s p) : Sent (effect cfg c s.shared p) k b := by
  cases p with
  | flush w j pieces =>
    cases pieces with
    | nil => cases hwri
    | cons piece rest =>
      obtain ⟨conn, hconn, hreg, hwr⟩ := h
      have hne : j ≠ k := by
        rintro rfl
        have hyes : s.shared.conns[j]?.any Conn.registered = true := hgd
        rw [hconn] at hyes
        exact absurd (hreg.symm.trans hyes) nofun
      exact ⟨conn, (getElem?_flushPiece_ne hne).trans hconn, hreg, hwr⟩
  | _ => contradiction

section

variable {cfg : Config} {s : Pool Shared Point}

abbrev RegisteredRuns (cfg : Config) : Pool Shared Point → Prop :=
  ((program cfg).system.guard (Program.onlyIf Registered)).Reachable

theorem registering_next {c : Choice} {p : Point} (hsup : Supervised s.shared p)
    (h : Registering cfg s.shared p) :
    Registering cfg (effect cfg c s.shared p) (next cfg c s.shared p) := by
  cases p with
  | publish => exact ⟨{}, by simp [effect], rfl, rfl⟩
  | register k => exact ⟨⟨_, rfl⟩, h⟩
  | registerHeader k hdr =>
    obtain ⟨⟨seq, rfl⟩, conn, hconn, hreg, hwr⟩ := h
    simp only [next]
    split
    · next hok =>
      split
      · trivial
      next hemp =>
      obtain ⟨hsome, hlen⟩ : s.shared.conn.isSome = true ∧ _ := by
        simpa [registerWrites] using hok
      have hcur := hsup.resolve_right fun hnone => absurd hsome (by simp [hnone])
      refine ⟨seq, _, getElem?_registerWrite hcur hconn, ?_, ?_⟩
      · simp [hreg, hemp]
      · show conn.written ++ _ = _
        rw [hwr, take_of_length_le (by simpa using hlen), nil_append]
    · trivial
  | flush w k pieces =>
    cases pieces with
    | nil => trivial
    | cons =>
      simp only [next]
      split <;> trivial
  | _ =>
    simp only [next, flushed]
    (repeat' split) <;> trivial

theorem registering (h : RegisteredRuns cfg s) :
    Program.Holds (fun _ => True) (Registering cfg) s := by
  refine (program cfg).holds_reachable (fun _ _ => trivial) ?_ ?_ ?_ h
  · rintro s i c p hr ⟨-, hthr⟩ hi - -
    have hp := mem_of_getElem? hi
    exact ⟨trivial, registering_next ((supervised hr).2 p hp) (hthr p hp), nofun⟩
  · rintro s i c p q j hr ⟨-, hthr⟩ hi - hG hji hj
    cases hq : q.supervises with
    | false => cases q <;> trivial
    | true =>
      have hp : p.supervises = false := Bool.eq_false_iff.2 fun hp =>
        hji (eq_of_countP (supervisor_balance hr.of_guard) hi hj hp hq)
      refine (hthr q (mem_of_getElem? hj)).mono fun k b _ hsent => ?_
      cases hwri : p.writes with
      | false => exact hsent.of_out (out_effect hwri)
      | true => exact hsent.flush hp hwri (hG p hi)
  rintro s e t new ⟨-, hthr⟩ henv -
  refine ⟨trivial, fun q hq => ?_, fun q hq => ?_⟩
  · cases henv <;> simp at hq <;> first
      | (subst hq; trivial)
      | (obtain rfl | rfl := hq <;> trivial)
  · exact (hthr q hq).mono fun k b _ hsent => hsent.of_out henv.out

structure Ordered (cfg : Config) (s : Pool Shared Point) : Prop where
  flights : ∀ w k rest, .flush w k rest ∈ s.threads →
    ∃ conn, s.shared.conns[k]? = some conn ∧ Flight cfg conn rest
  idle : ∀ k conn, s.shared.conns[k]? = some conn → (∀ w rest, .flush w k rest ∉ s.threads) →
    Flight cfg conn []

variable {t : Pool Shared Point} {k : ℕ} {rest : List (List UInt8)} {w : Writer}

theorem Ordered.of_conns (hs : Ordered cfg s) (hlen : s.shared.conns.length ≤ t.shared.conns.length)
    (hcon : ∀ (k : ℕ) (conn' : Conn), t.shared.conns[k]? = some conn' → (∃ conn,
      s.shared.conns[k]? = some conn ∧ ∀ rest, Flight cfg conn rest → Flight cfg conn' rest) ∨
      s.shared.conns[k]? = none ∧ Flight cfg conn' [])
    (hflu : ∀ w k rest, .flush w k rest ∈ t.threads ↔ .flush w k rest ∈ s.threads) :
    Ordered cfg t := by
  refine ⟨fun w k rest hmem => ?_, fun k conn' hconn' hnone => ?_⟩
  · obtain ⟨conn, hconn, hfl⟩ := hs.flights w k rest ((hflu w k rest).1 hmem)
    obtain ⟨hlt, -⟩ := List.getElem?_eq_some_iff.1 hconn
    have hconn' := getElem?_eq_getElem (Nat.lt_of_lt_of_le hlt hlen)
    obtain ⟨old, hold, hkeep⟩ | ⟨hnew, -⟩ := hcon k _ hconn'
    · rw [hconn] at hold
      cases hold
      exact ⟨_, hconn', hkeep rest hfl⟩
    · exact absurd (hconn.symm.trans hnew) nofun
  obtain ⟨conn, hconn, hkeep⟩ | ⟨-, hfl⟩ := hcon k conn' hconn'
  · exact hkeep [] (hs.idle k conn hconn fun w rest hmem =>
      hnone w rest ((hflu w k rest).2 hmem))
  · exact hfl

theorem Ordered.of_out (hs : Ordered cfg s)
    (hout : t.shared.conns.map Conn.out = s.shared.conns.map Conn.out)
    (hflu : ∀ w k rest, .flush w k rest ∈ t.threads ↔ .flush w k rest ∈ s.threads) :
    Ordered cfg t := by
  refine hs.of_conns ?_ (fun k conn' hconn' => .inl ?_) hflu
  · rw [← length_map (f := Conn.out), ← hout, length_map]
  · obtain ⟨conn, hconn, hsame⟩ := getElem?_of_out hout hconn'
    exact ⟨conn, hconn, fun rest hfl => hfl.congr hsame⟩

theorem flush_of_next {c : Choice} {s : Shared} {p : Point} (h : next cfg c s p = .flush w k rest) :
    (∃ frames, p = .setDeadline w k frames ∧ rest = Bufio.pieces writerBufSize [] frames) ∨
      ∃ piece, p = .flush w k (piece :: rest) ∧ s.writeErr k = false ∧ ¬ c.n < piece.length := by
  cases p with
  | setDeadline w' k' frames =>
    simp only [next] at h
    split at h
    · cases h
      exact .inl ⟨frames, rfl, rfl⟩
    · cases h
  | flush w' k' pieces =>
    cases pieces with
    | nil => cases h
    | cons piece rest' =>
      simp only [next] at h
      split at h
      · cases h
      next hok =>
      cases h
      rw [Bool.or_eq_true, not_or, decide_eq_true_iff, Bool.not_eq_true] at hok
      exact .inr ⟨piece, rfl, hok⟩
  | _ =>
    simp only [next, flushed] at h
    (repeat' split at h) <;> cases h

variable {i : ℕ} {c : Choice} {p : Point}

theorem eq_of_holdsLock (hr : RegisteredRuns cfg s) (hi : s.threads[i]? = some p)
    (hp : p.holdsLock = true) {q : Point} (hq : q ∈ s.threads) (hlock : q.holdsLock = true) :
    q = p := by
  obtain ⟨j, hj⟩ := mem_iff_getElem?.1 hq
  cases eq_of_countP (lock_balance hr.of_guard) hi hj hp hlock
  exact Option.some.inj (hj.symm.trans hi)

theorem next_of_mem_after (hr : RegisteredRuns cfg s) (hi : s.threads[i]? = some p)
    (hp : p.holdsLock = true) (hmem : .flush w k rest ∈ ((program cfg).after s i c p).threads) :
    next cfg c s.shared p = .flush w k rest := by
  obtain h | h | ⟨j, hji, hj⟩ := mem_after hmem
  · exact h.symm
  · cases h
  · exact absurd (eq_of_countP (lock_balance hr.of_guard) hi hj hp rfl) hji

def Point.flushes : Point → Bool
  | .setDeadline _ _ _ | .flush _ _ _ => true
  | _ => false

theorem mem_flush_after (hi : s.threads[i]? = some p) (hp : p.flushes = false) (w : Writer)
    (k : ℕ) (rest : List (List UInt8)) :
    .flush w k rest ∈ ((program cfg).after s i c p).threads ↔ .flush w k rest ∈ s.threads := by
  constructor
  · intro hmem
    obtain h | h | ⟨j, -, hj⟩ := mem_after hmem
    · obtain ⟨frames, rfl, -⟩ | ⟨piece, rfl, -⟩ := flush_of_next h.symm <;> cases hp
    · cases h
    · exact mem_of_getElem? hj
  intro hmem
  refine mem_after_of_ne hi hmem ?_
  rintro rfl
  cases hp

theorem ordered_publish (hs : Ordered cfg s) (hi : s.threads[i]? = some .publish) :
    Ordered cfg ((program cfg).after s i c .publish) := by
  refine hs.of_conns length_effect (fun k conn' hconn' => ?_) (mem_flush_after hi rfl)
  have hconn : (s.shared.conns ++ [({} : Conn)])[k]? = some conn' := hconn'
  rw [getElem?_append] at hconn
  split at hconn
  · exact .inl ⟨conn', hconn, fun _ => id⟩
  next hge =>
  refine .inr ⟨getElem?_eq_none (Nat.le_of_not_lt hge), ?_⟩
  have hmem := mem_singleton.1 (mem_of_getElem? hconn)
  exact hmem ▸ Flight.new

theorem ordered_register {before : List UInt8} {last : Bool} (seq : UInt16) (hs : Ordered cfg s)
    (hi : s.threads[i]? = some p) (hp : p.flushes = false)
    (heff : effect cfg c s.shared p = registerWrite c s.shared k b last)
    (hconn : s.shared.conn = some k ∨ s.shared.conn = none) (hsent : Sent s.shared k before)
    (hpart : before ++ b <+: cfg.registerFrame seq)
    (hlast : last = true → before ++ b = cfg.registerFrame seq) :
    Ordered cfg ((program cfg).after s i c p) := by
  refine hs.of_conns length_effect (fun j conn' hconn' => .inl ?_) (mem_flush_after hi hp)
  have hj : (registerWrite c s.shared k b last).conns[j]? = some conn' := heff ▸ hconn'
  by_cases hne : k = j
  · subst hne
    obtain ⟨conn, hk, hreg, hwr⟩ := hsent
    obtain hcur | hcur := hconn
    · rw [getElem?_registerWrite hcur hk] at hj
      cases hj
      refine ⟨conn, hk, fun rest hfl => hfl.register seq hreg ?_ fun hend => ?_⟩
      · rw [hwr]
        exact ((prefix_append_right_inj _).2 (List.take_prefix _ _)).trans hpart
      obtain ⟨hend, hall⟩ := Bool.and_eq_true_iff.1 hend
      rw [hwr, take_of_length_le (of_decide_eq_true hall)]
      exact hlast hend
    · simp only [registerWrite, hcur] at hj
      exact ⟨conn', hj, fun _ => id⟩
  · rw [getElem?_registerWrite_ne hconn hne] at hj
    exact ⟨conn', hj, fun _ => id⟩

theorem ordered_setDeadline {frames : List (List UInt8)} (hs : Ordered cfg s)
    (hr : RegisteredRuns cfg s) (hi : s.threads[i]? = some (.setDeadline w k frames)) :
    Ordered cfg ((program cfg).after s i c (.setDeadline w k frames)) := by
  have hidle : ∀ j conn, s.shared.conns[j]? = some conn → Flight cfg conn [] :=
    fun j conn hconn => hs.idle j conn hconn fun w' rest hmem =>
      absurd (eq_of_holdsLock hr hi rfl hmem rfl) nofun
  refine ⟨fun w' j rest hmem => ?_, fun j conn hconn _ => hidle j conn hconn⟩
  obtain ⟨frames', heq, rfl⟩ | ⟨piece, heq, -⟩ := flush_of_next (next_of_mem_after hr hi rfl hmem)
  · cases heq
    have hlt := (conns_exist hr).2 _ (mem_of_getElem? hi) k rfl
    have hfrs := (frames_whole hr).2 _ (mem_of_getElem? hi)
    have hconn := getElem?_eq_getElem hlt
    exact ⟨_, hconn, (hidle k _ hconn).load hfrs (Bufio.flatten_pieces ..)⟩
  · cases heq

theorem ordered_flush_nil (hs : Ordered cfg s) (hr : RegisteredRuns cfg s)
    (hi : s.threads[i]? = some (.flush w k [])) :
    Ordered cfg ((program cfg).after s i c (.flush w k [])) := by
  refine ⟨fun w' j rest hmem => ?_, fun j conn hconn _ => ?_⟩
  · exact absurd (next_of_mem_after hr hi rfl hmem) nofun
  by_cases hjk : j = k
  · subst hjk
    obtain ⟨conn', hconn', hfl⟩ := hs.flights w j [] (mem_of_getElem? hi)
    have heq : conn' = conn := Option.some.inj (hconn'.symm.trans hconn)
    exact heq ▸ hfl
  refine hs.idle j conn hconn fun w' rest hmem => ?_
  cases eq_of_holdsLock hr hi rfl hmem rfl
  exact hjk rfl

theorem ordered_flush_cons {piece : List UInt8} (hs : Ordered cfg s) (hr : RegisteredRuns cfg s)
    (hi : s.threads[i]? = some (.flush w k (piece :: rest)))
    (hreg : s.shared.conns[k]?.any Conn.registered = true) :
    Ordered cfg ((program cfg).after s i c (.flush w k (piece :: rest))) := by
  obtain ⟨conn, hconn, hfl⟩ := hs.flights w k _ (mem_of_getElem? hi)
  rw [hconn] at hreg
  have herr : s.shared.writeErr k = conn.err := by simp [Shared.writeErr, hconn]
  refine ⟨fun w' j rest' hmem => ?_, fun j conn' hconn' hnone => ?_⟩
  · obtain ⟨frames, heq, -⟩ | ⟨piece', heq, hok, hall⟩ :=
      flush_of_next (next_of_mem_after hr hi rfl hmem)
    · cases heq
    cases heq
    have haft := hfl.piece (n := c.n) hreg (herr ▸ hok)
    rw [if_neg hall] at haft
    exact ⟨_, getElem?_flushPiece hconn (herr ▸ hok), haft⟩
  have hj : (flushPiece c s.shared k piece).conns[j]? = some conn' := hconn'
  by_cases hjk : k = j
  · subst hjk
    cases hok : conn.err with
    | true =>
      simp only [flushPiece, herr, hok, if_true] at hj
      cases hconn.symm.trans hj
      exact hfl.stop hok
    | false =>
      have hpart : c.n < piece.length := by
        by_contra hall
        refine hnone w rest ?_
        have hnext := next_mem_after (M := program cfg) (c := c) hi
        simp only [program, next, herr, hok, hall, decide_false, Bool.or_false,
          Bool.false_eq_true, if_false] at hnext
        exact hnext
      have haft := hfl.piece (n := c.n) hreg hok
      rw [if_pos hpart] at haft
      cases (getElem?_flushPiece hconn hok).symm.trans hj
      exact haft
  rw [getElem?_flushPiece_ne hjk] at hj
  refine hs.idle j conn' hj fun w' rest' hmem => ?_
  cases eq_of_holdsLock hr hi rfl hmem rfl
  exact hjk rfl

theorem ordered_step {e : Move Choice Event} (hr : RegisteredRuns cfg s) (hs : Ordered cfg s)
    (hgd : Program.onlyIf Registered s e) (hstep : (program cfg).Step s e t) :
    Ordered cfg t := by
  cases hstep with
  | @run i c p hi hen =>
    have hmem := mem_of_getElem? hi
    cases hp : p.writes with
    | false =>
      cases hflu : p.flushes with
      | false => exact hs.of_out (out_effect hp) (mem_flush_after hi hflu)
      | true =>
        cases p with
        | setDeadline w k frames => exact ordered_setDeadline hs hr hi
        | flush w k pieces =>
          cases pieces with
          | nil => exact ordered_flush_nil hs hr hi
          | cons => cases hp
        | _ => cases hflu
    | true =>
      have hconn := (supervised hr).2 p hmem
      have hsent := (registering hr).2 p hmem
      cases p with
      | publish => exact ordered_publish hs hi
      | registerHeader k h =>
        obtain ⟨⟨seq, rfl⟩, hsent⟩ := hsent
        refine ordered_register seq hs hi rfl rfl hconn hsent ?_ fun hemp => ?_
        · exact prefix_append _ _
        · simp [Config.registerFrame, List.isEmpty_iff.1 hemp]
      | registerToken k =>
        obtain ⟨seq, hsent⟩ := hsent
        exact ordered_register seq hs hi rfl rfl hconn hsent (prefix_refl _) fun _ => rfl
      | flush w k pieces =>
        cases pieces with
        | nil => cases hp
        | cons piece rest => exact ordered_flush_cons hs hr hi (hgd _ hi)
      | _ => cases hp
  | env henv =>
    refine hs.of_out henv.out fun w k rest => ⟨fun hmem => ?_, mem_append_left _⟩
    refine (mem_append.1 hmem).resolve_right fun hnew => ?_
    exact absurd (henv.conn_new hnew) nofun

theorem ordered (h : RegisteredRuns cfg s) : Ordered cfg s := by
  refine LTS.Reachable.invariant (I := Ordered cfg) ?_ ?_ h
  · rintro s ⟨hinit, hnone⟩
    have hsha : s.shared = {} := hinit
    refine ⟨fun w k rest hmem => ?_, fun k conn hconn _ => ?_⟩
    · rw [hnone] at hmem
      cases hmem
    · rw [hsha] at hconn
      cases hconn
  · rintro s e t hr hs ⟨hgd, hstep⟩
    exact ordered_step hr hs hgd hstep

/-- **Register first.** If nothing is written through the buffer of a connection before `register`
has returned, the bytes on each connection are the Register frame and whole frames after it, up to
some byte. -/
theorem register_first {k : ℕ} {conn : Conn} (hr : RegisteredRuns cfg s)
    (hconn : s.shared.conns[k]? = some conn) :
    ∃ (seq : UInt16) (frames : List (List UInt8)), (∀ f ∈ frames, IsFrame f) ∧
      conn.written <+: cfg.registerFrame seq ++ frames.flatten ∧
      (conn.registered = false → frames = []) ∧
      (conn.registered = true → cfg.registerFrame seq <+: conn.written) ∧
      (conn.registered = true → conn.err = false → (∀ w rest, .flush w k rest ∉ s.threads) →
        conn.written = cfg.registerFrame seq ++ frames.flatten) := by
  obtain ⟨rest, hfl, hrest⟩ : ∃ rest, Flight cfg conn rest ∧
      ((∀ w rest, .flush w k rest ∉ s.threads) → rest = []) := by
    by_cases hidle : ∀ w rest, .flush w k rest ∉ s.threads
    · exact ⟨[], (ordered hr).idle k conn hconn hidle, fun _ => rfl⟩
    simp only [not_forall, not_not] at hidle
    obtain ⟨w, rest, hmem⟩ := hidle
    obtain ⟨conn', hconn', hfl⟩ := (ordered hr).flights w k rest hmem
    cases hconn.symm.trans hconn'
    exact ⟨rest, hfl, fun hidle => absurd hmem (hidle w rest)⟩
  cases hreg : conn.registered with
  | false =>
    obtain ⟨-, ⟨seq, hseq⟩, -⟩ := hfl.unregistered hreg
    refine ⟨seq, [], nofun, ?_, fun _ => rfl, nofun, nofun⟩
    rw [flatten_nil, append_nil]
    exact hseq
  | true =>
    obtain ⟨seq, frames, hfrs, hst, hend, heq⟩ := hfl.registered hreg
    refine ⟨seq, frames, hfrs, hend, nofun, fun _ => hst, fun _ herr hidle => ?_⟩
    have hwr := heq herr
    rwa [hrest hidle, flatten_nil, append_nil] at hwr

def tokenClient : Config := ⟨7, [1, 2], [], fun _ _ => .error "unused"⟩

def keepAliveFrame (seq : UInt32) : List UInt8 :=
  ((tokenClient.client seq).makeFrame 0 Cmd.keepAlive []).1

theorem keepalive_after_register : ∃ s conn, RegisteredRuns tokenClient s ∧
    s.shared.conns[0]? = some conn ∧ conn.registered = true ∧
    conn.written = tokenClient.registerFrame 1 ++ keepAliveFrame 1 ∧
    ∃ (seq : UInt16) (frames : List (List UInt8)), (∀ f ∈ frames, IsFrame f) ∧
      conn.written = tokenClient.registerFrame seq ++ frames.flatten := by
  have hinit : RegisteredRuns tokenClient ⟨{}, []⟩ := .init ⟨rfl, rfl⟩
  have hstd := reachable_env (reachable_env hinit (.start rfl))
    (.send 0 Cmd.keepAlive [])
  obtain ⟨s, hr, hconn, hidle⟩ := exists_of_exec
    (Q := fun s => s.shared.conns[0]? = some
      { written := tokenClient.registerFrame 1 ++ keepAliveFrame 1, registered := true } ∧
      ∀ p ∈ s.threads, p.flushes = false) hstd
    (turns [0, 0, 0, 0, 0, 0, 0, 2, 2, 1, 1, 1, 1, 1, 1, 1, 1]) (by decide +kernel)
  obtain ⟨seq, frames, hfrs, -, -, -, hall⟩ := register_first hr hconn
  refine ⟨s, _, hr, hconn, rfl, rfl, seq, frames, hfrs, hall rfl rfl fun w rest hmem => ?_⟩
  exact absurd (hidle _ hmem) nofun

theorem not_registerFrame_first {h : Header} (hb : unmarshal b = .ok h)
    (hcmd : h.cmd ≠ Cmd.register) (seq : UInt16) : ¬ cfg.registerFrame seq <+: b := by
  rintro ⟨rest, rfl⟩
  rw [Config.registerFrame, append_assoc, unmarshal_marshal] at hb
  cases hb
  exact hcmd rfl

theorem keepalive_before_register :
    (∃ s conn, (program tokenClient).system.Reachable s ∧ s.shared.conns[0]? = some conn ∧
      conn.registered = true ∧ conn.err = false ∧
      conn.written = keepAliveFrame 1 ++ tokenClient.registerFrame 1 ∧
      ∀ seq, ¬ tokenClient.registerFrame seq <+: conn.written) ∧
    ∃ s conn, (program tokenClient).system.Reachable s ∧ s.shared.conns[0]? = some conn ∧
      conn.registered = true ∧ conn.err = false ∧
      conn.written = (tokenClient.registerHeader 1).marshal ++ keepAliveFrame 1 ++
        tokenClient.authToken := by
  have hinit : ((program tokenClient).system.guard
      (Program.onlyIf fun _ _ => True)).Reachable ⟨{}, []⟩ := .init ⟨rfl, rfl⟩
  have hstd := reachable_env (reachable_env hinit (.start rfl))
    (.send 0 Cmd.keepAlive [])
  obtain ⟨s, hr, hconn⟩ := exists_of_exec
    (Q := fun s => s.shared.conns[0]? = some
      { written := keepAliveFrame 1 ++ tokenClient.registerFrame 1, registered := true }) hstd
    (turns [0, 0, 0, 0, 2, 2, 1, 1, 1, 1, 1, 1, 0, 0]) (by decide +kernel)
  obtain ⟨t, ht, hconn'⟩ := exists_of_exec
    (Q := fun s => s.shared.conns[0]? = some
      { written := (tokenClient.registerHeader 1).marshal ++ keepAliveFrame 1 ++
          tokenClient.authToken
        registered := true }) hstd
    (turns [0, 0, 0, 0, 2, 2, 0, 1, 1, 1, 1, 1, 1, 0]) (by decide +kernel)
  refine ⟨⟨s, _, hr.of_guard, hconn, rfl, rfl, rfl, fun seq => ?_⟩,
    ⟨t, _, ht.of_guard, hconn', rfl, rfl, rfl⟩⟩
  exact not_registerFrame_first (h := ⟨2, 0, Cmd.keepAlive, 0, 0⟩) rfl (by decide) seq

end

end LatticeMesh.Relay.TCPClient
