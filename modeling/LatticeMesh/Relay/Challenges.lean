import LatticeMesh.Lib.Progress
import LatticeMesh.Relay.Connections

/-! # Is every challenge answered? -/

namespace LatticeMesh.Relay.TCPClient

open List Option Program

def Up (k : ℕ) (s : Shared) : Prop :=
  s.conn = some k ∧ s.closed = false ∧ ∀ conn ∈ s.conns[k]?, Arrival.broken ∉ conn.rx.input

instance (k : ℕ) (s : Shared) : Decidable (Up k s) :=
  inferInstanceAs (Decidable (_ ∧ _ ∧ ∀ conn ∈ s.conns[k]?, Arrival.broken ∉ conn.rx.input))

def Challenged (conn : Conn) (challenge : List UInt8) : Prop :=
  ∃ f : Frame, f.cmd = Cmd.authChallenge ∧ f.payload = challenge ∧ challenge.length = keySize ∧
    f.bytes <+: conn.arrived

def Owes (cfg : Config) (conn : Conn) (frame : List UInt8) : Prop :=
  ∃ challenge resp seq, Challenged conn challenge ∧ headerSize + keySize ≤ conn.rx.consumed ∧
    answerChallenge cfg.x25519 challenge cfg.privateKey = .ok resp ∧ frame = authResponse seq resp

def Answered (cfg : Config) (conn : Conn) : Prop :=
  ∃ frame, Owes cfg conn frame ∧ frame <:+: conn.written

def Conn.Fresh (conn : Conn) : Prop := conn.exchanged = false ∧ conn.rx.consumed = 0

def Stage (cfg : Config) (conn : Conn) : Point → Prop
  | .swap _ => conn.Fresh
  | .exchange _ => conn.rx.consumed = 0
  | .answer _ challenge => Challenged conn challenge ∧ headerSize + keySize ≤ conn.rx.consumed
  | .writeFramesTo _ frame => Owes cfg conn frame
  | .lock _ _ frames | .setDeadline _ _ frames | .flush _ _ frames =>
    ∃ frame, frames = [frame] ∧ Owes cfg conn frame
  | .unlock _ _ ok => ok = false
  | .disconnect _ _ | .hangUp _ => True
  | _ => False

def Due (cfg : Config) (k : ℕ) (conn : Conn) (p : Point) : Prop :=
  if p.conn = some k then Stage cfg conn p else conn.Fresh

section

variable {cfg : Config} {k : ℕ} {conn conn' : Conn} {p : Point}

structure Conn.Grows (conn conn' : Conn) : Prop where
  arrived : conn.arrived <+: conn'.arrived
  written : conn.written <+: conn'.written
  consumed : conn'.rx.consumed = conn.rx.consumed
  exchanged : conn'.exchanged = conn.exchanged

theorem Challenged.mono {challenge : List UInt8} (h : Challenged conn challenge)
    (harr : conn.arrived <+: conn'.arrived) : Challenged conn' challenge := by
  obtain ⟨f, hcmd, hpay, hlen, hbyt⟩ := h
  exact ⟨f, hcmd, hpay, hlen, hbyt.trans harr⟩

variable {frame : List UInt8}

theorem Owes.mono (h : Owes cfg conn frame) (harr : conn.arrived <+: conn'.arrived)
    (hcons : conn.rx.consumed ≤ conn'.rx.consumed) : Owes cfg conn' frame := by
  obtain ⟨challenge, resp, seq, hchal, hread, hans, hfra⟩ := h
  exact ⟨challenge, resp, seq, hchal.mono harr, hread.trans hcons, hans, hfra⟩

theorem Answered.mono (h : Answered cfg conn) (harr : conn.arrived <+: conn'.arrived)
    (hwr : conn.written <+: conn'.written)
    (hcons : conn.rx.consumed ≤ conn'.rx.consumed) : Answered cfg conn' := by
  obtain ⟨frame, howes, hfra⟩ := h
  exact ⟨frame, howes.mono harr hcons, hfra.trans hwr.isInfix⟩

namespace Conn.Grows

theorem answered (h : conn.Grows conn') (hans : Answered cfg conn) : Answered cfg conn' :=
  hans.mono h.arrived h.written h.consumed.ge

theorem owes (h : conn.Grows conn') (howes : Owes cfg conn frame) :
    Owes cfg conn' frame := howes.mono h.arrived h.consumed.ge

theorem fresh (h : conn.Grows conn') (hfr : conn.Fresh) : conn'.Fresh :=
  ⟨h.exchanged.trans hfr.1, h.consumed.trans hfr.2⟩

theorem stage (h : conn.Grows conn') (hsta : Stage cfg conn p) : Stage cfg conn' p := by
  cases p with
  | swap => exact h.fresh hsta
  | exchange => exact h.consumed.trans hsta
  | answer => exact ⟨hsta.1.mono h.arrived, hsta.2.trans h.consumed.ge⟩
  | writeFramesTo => exact h.owes hsta
  | lock | setDeadline | flush =>
    obtain ⟨frame, hfrs, howes⟩ := hsta
    exact ⟨frame, hfrs, h.owes howes⟩
  | unlock | disconnect | hangUp => exact hsta
  | _ => exact hsta.elim

theorem due (h : conn.Grows conn') (hdue : Due cfg k conn p) : Due cfg k conn' p := by
  unfold Due at hdue ⊢
  split at hdue
  · next hk =>
    rw [if_pos hk]
    exact h.stage hdue
  next hk =>
  rw [if_neg hk]
  exact h.fresh hdue

end Conn.Grows

variable {s : Shared}

theorem Change.grows (h : Change s p k conn conn') (hp : p.receives = true → p.conn ≠ some k)
    (hopen : Arrival.broken ∉ conn'.rx.input) :
    conn.Grows conn' := by
  cases h with
  | write hrx hexc harr hwr =>
    exact ⟨harr ▸ prefix_refl _, hwr, hrx ▸ rfl, hexc⟩
  | begins hswap => exact absurd (hswap ▸ rfl) (hp (hswap ▸ rfl))
  | read hrea =>
    obtain rfl | rfl := hrea <;> exact absurd rfl (hp rfl)
  | hangUp => exact absurd (mem_append_right _ mem_cons_self) hopen

theorem Change.answered (h : Change s p k conn conn') (hans : Answered cfg conn) :
    Answered cfg conn' := by
  cases h with
  | write hrx _ harr hwr =>
    exact hans.mono (harr ▸ prefix_refl _) hwr (hrx ▸ le_rfl)
  | begins | hangUp => exact hans.mono (prefix_refl _) (prefix_refl _) le_rfl
  | read _ hrea =>
    obtain ⟨new, -, hcons⟩ := hrea.taken
    exact hans.mono (prefix_refl _) (prefix_refl _) (hcons ▸ Nat.le_add_right _ _)

theorem closed_effect {c : Choice} (h : s.closed = true) :
    (effect cfg c s p).closed = true := by
  unfold effect registerWrite flushPiece Shared.disconnect
  (repeat' split) <;> first | exact h | rfl

theorem Up.of_effect {c : Choice} (h : Up k (effect cfg c s p)) (hk : s.conns[k]? = some conn) :
    Up k s := by
  obtain ⟨hcur, hcl, hopen⟩ := h
  obtain ⟨hlt, -⟩ := List.getElem?_eq_some_iff.1 hk
  refine ⟨?_, ?_, fun conn₀ hconn₀ hb => ?_⟩
  · refine conn_effect ?_ hcur
    rintro rfl
    cases hcur
    exact absurd hlt (lt_irrefl _)
  · exact Bool.eq_false_iff.2 fun hyes => absurd ((closed_effect hyes).symm.trans hcl) nofun
  have hlt' : k < (effect cfg c s p).conns.length := Nat.lt_of_lt_of_le hlt length_effect
  have haft := getElem?_eq_getElem hlt'
  obtain ⟨-, hnew, -⟩ | ⟨conn₁, hconn₁, hch⟩ := change_effect haft
  · omega
  · cases Option.some.inj (hconn₁.symm.trans hconn₀)
    exact hopen _ haft (hch.broken hb)

def Conn.inTime (conn : Conn) : Bool :=
  match conn.rx.consumed, Arrival.read headerSize conn.rx.input with
  | 0, .timeout _ _ => false
  | _, _ => true

def Prompt (k : ℕ) (s : Pool Shared Point) : Point → Prop
  | .swap j => j = k → s.shared.conn = some k →
    s.shared.authPending = true ∨ s.shared.conns[k]?.any Conn.exchanged = true
  | .exchange j => j = k → s.shared.conn = some k → s.shared.conns[k]?.all Conn.inTime = true
  | _ => True

instance (k : ℕ) (s : Pool Shared Point) : (p : Point) → Decidable (Prompt k s p)
  | .swap j => inferInstanceAs (Decidable (j = k → s.shared.conn = some k →
      s.shared.authPending = true ∨ s.shared.conns[k]?.any Conn.exchanged = true))
  | .exchange j => inferInstanceAs (Decidable (j = k → s.shared.conn = some k →
      s.shared.conns[k]?.all Conn.inTime = true))
  | .run | .dial | .publish | .register _ | .registerHeader _ _ | .registerToken _
  | .registerFailed _ | .setPending _ | .connected _ | .stopped | .writerLoop | .drain _
  | .writeFrames _ | .dropPending | .lock _ _ _ | .setDeadline _ _ _ | .flush _ _ _
  | .unlock _ _ _ | .disconnect _ _ | .send _ _ _ | .enqueue _ _ _ | .receive | .answer _ _
  | .writeFramesTo _ _ | .readFrame _ | .hangUp _ | .ended | .close | .closeConn
  | .closeDisconnect _ | .done => inferInstanceAs (Decidable True)

theorem length_authResponse {resp challenge : List UInt8} (seq : UInt16)
    (h : answerChallenge cfg.x25519 challenge cfg.privateKey = .ok resp) :
    (authResponse seq resp).length = headerSize + authResponsePayload := by
  unfold authResponse
  rw [length_append, length_marshal, length_answerChallenge h]

theorem Owes.pieces (h : Owes cfg conn frame) :
    Bufio.pieces writerBufSize [] [frame] = [frame] := by
  obtain ⟨challenge, resp, seq, -, -, hans, rfl⟩ := h
  have hlen := length_authResponse seq hans
  refine Bufio.pieces_singleton (fun hnil => ?_) (hlen ▸ by decide)
  rw [hnil] at hlen
  cases hlen

variable {c : Choice} {s : Pool Shared Point}

theorem stage_swap (hconn : s.shared.conns[k]? = some conn) (hup : Up k s.shared)
    (hpro : Prompt k s (.swap k)) (h : conn.Fresh)
    (hconn' : (effect cfg c s.shared (.swap k)).conns[k]? = some conn') :
    next cfg c s.shared (.swap k) = .exchange k ∧ conn'.rx.consumed = 0 := by
  have hflag : s.shared.authPending = true := by
    refine (hpro rfl hup.1).resolve_right fun hexc => ?_
    rw [hconn] at hexc
    exact absurd (h.1.symm.trans hexc) nofun
  simp only [effect, if_pos hflag] at hconn'
  obtain ⟨conn₀, hconn₀, ⟨-, rfl⟩ | ⟨hne, -⟩⟩ := exists_of_modify hconn'
  · cases hconn.symm.trans hconn₀
    exact ⟨if_pos hflag, h.2⟩
  · exact absurd rfl hne

theorem stage_exchange (hconn : s.shared.conns[k]? = some conn) (hint : conn.Intact)
    (hup : Up k s.shared) (hpro : Prompt k s (.exchange k)) (hzero : conn.rx.consumed = 0)
    (hconn' : (effect cfg c s.shared (.exchange k)).conns[k]? = some conn')
    (hopen : Arrival.broken ∉ conn'.rx.input) (hen : enabled s.shared (.exchange k)) :
    (∃ challenge, next cfg c s.shared (.exchange k) = .answer k challenge ∧
      Stage cfg conn' (.answer k challenge)) ∨
    next cfg c s.shared (.exchange k) = .hangUp k := by
  have hawa : s.shared.awaitChallenge k = conn.rx.awaitChallenge := by
    simp [Shared.awaitChallenge, hconn]
  simp only [effect, hawa] at hconn'
  simp only [next, hawa]
  cases hr : conn.rx.awaitChallenge with
  | none =>
    have hsome : (s.shared.awaitChallenge k).isSome = true := hen
    rw [hawa, hr] at hsome
    cases hsome
  | some await =>
    rw [hr] at hconn'
    cases await with
    | refused => exact .inr rfl
    | legacy rx =>
      exfalso
      obtain ⟨conn₀, hconn₀, ⟨-, rfl⟩ | ⟨hne, -⟩⟩ := exists_of_modify hconn'
      · obtain ⟨-, ⟨lost, rest, htim⟩ | hb⟩ := Rx.awaitChallenge_legacy hr
        · have hin := hpro rfl hup.1
          simp [hconn, Conn.inTime, hzero, htim] at hin
        · exact hopen hb
      · exact hne rfl
    | challenge challenge rx =>
      refine .inl ⟨challenge, rfl, ?_⟩
      obtain ⟨conn₀, hconn₀, ⟨-, rfl⟩ | ⟨hne, -⟩⟩ := exists_of_modify hconn'
      · cases hconn.symm.trans hconn₀
        obtain ⟨-, hcons, f, hcmd, hpay, hlen, hit⟩ := Rx.awaitChallenge_challenge hr
        obtain ⟨before, hbef, harr⟩ := hint (hup.2.2 conn hconn)
        rw [hzero, length_eq_zero_iff] at hbef
        subst hbef
        refine ⟨⟨f, hcmd, hpay, hlen, ?_⟩, hcons ▸ Nat.le_add_left _ _⟩
        show f.bytes <+: conn.arrived
        rw [harr, nil_append, hit]
        exact prefix_append _ _
      · exact absurd rfl hne

theorem stage_flush (hconn : s.shared.conns[k]? = some conn) (howes : Owes cfg conn frame)
    (hconn' : (effect cfg c s.shared (.flush .exchange k [frame])).conns[k]? = some conn') :
    Answered cfg conn' ∨
      next cfg c s.shared (.flush .exchange k [frame]) = .unlock .exchange k false := by
  simp only [effect, flushPiece] at hconn'
  simp only [next]
  by_cases herr : s.shared.writeErr k = true
  · exact .inr (if_pos (by rw [herr]; rfl))
  rw [if_neg herr] at hconn'
  by_cases hpart : c.n < frame.length
  · exact .inr (if_pos (by rw [decide_eq_true hpart, Bool.or_true]))
  refine .inl ?_
  obtain ⟨conn₀, hconn₀, ⟨-, rfl⟩ | ⟨hne, -⟩⟩ := exists_of_modify hconn'
  · cases hconn.symm.trans hconn₀
    refine ⟨frame, howes.mono (prefix_refl _) le_rfl, ?_⟩
    simp only [Conn.write]
    rw [take_of_length_le (Nat.le_of_not_lt hpart)]
    exact (suffix_append _ _).isInfix
  · exact absurd rfl hne

def Point.left (k : ℕ) : Point → ℕ
  | .hangUp j | .disconnect _ j => if j = k then 0 else 11
  | .unlock _ j _ => if j = k then 1 else 13
  | .flush _ j pieces => if j = k then 2 else 14 + pieces.length
  | .setDeadline _ j frames =>
    if j = k then 3 else 15 + (Bufio.pieces writerBufSize [] frames).length
  | .lock _ j frames => if j = k then 4 else 16 + (Bufio.pieces writerBufSize [] frames).length
  | .writeFramesTo j _ => if j = k then 5 else 11
  | .answer j _ => if j = k then 6 else 12
  | .exchange j => if j = k then 7 else 13
  | .swap j => if j = k then 8 else 14
  | .receive => 9
  | .readFrame _ => 12
  | _ => 0

section

-- the equations are derived once, before the proofs
attribute [local simp] Point.left Stage

end

theorem due_of_ne (hp : p.conn ≠ some k) (hfr : conn.Fresh) : Due cfg k conn p := by
  unfold Due
  rwa [if_neg hp]

theorem left_next_of_ne {j : ℕ} {old : Conn} (hup : Up k s.shared) (hp : p.receives = true)
    (hj : p.conn = some j) (hjk : j ≠ k) (hold : s.shared.conns[j]? = some old)
    (hb : Arrival.broken ∈ old.rx.input) :
    (next cfg c s.shared p).conn ≠ some k ∧ (next cfg c s.shared p).left k < p.left k := by
  have hjk' : some j ≠ some k := fun h => hjk (Option.some.inj h)
  cases p with
  | swap | answer =>
    cases hj
    simp only [next]
    split <;> simp [Point.conn, Point.left, hjk]
  | exchange =>
    cases hj
    simp only [next]
    split
    · simp [Point.conn, Point.left, hjk]
    · simp [Point.conn, Point.left, hjk]
    · simp [Point.conn, Point.left, hjk]
    next hnone =>
    simp only [Shared.awaitChallenge, hold, bind_some] at hnone
    exact absurd hb (Rx.awaitChallenge_none hnone).1
  | readFrame =>
    cases hj
    simp only [next]
    split
    · split <;> simp [Point.conn, Point.left, hjk]
    next hnone =>
    simp only [Shared.readFrame, hold, bind_some] at hnone
    exact absurd hb (Rx.not_broken_of_receive hnone)
  | writeFramesTo =>
    cases hj
    simp only [next, hup.1, if_neg hjk'.symm]
    simp [Point.conn, Point.left, hjk]
  | lock | hangUp =>
    cases hj
    simp [next, Point.conn, Point.left, hjk]
  | setDeadline =>
    cases hj
    simp only [next]
    split <;> simp [Point.conn, Point.left, hjk]
    omega
  | flush w j' pieces =>
    cases hj
    cases pieces with
    | nil => simp [next, Point.conn, Point.left, hjk]
    | cons =>
      simp only [next]
      split <;> simp [Point.conn, Point.left, hjk]
      omega
  | unlock w =>
    cases hj
    cases w <;> simp only [next, flushed] <;> split <;> simp [Point.conn, Point.left, hjk]
  | disconnect w =>
    cases hj
    cases w with
    | loop => cases hp
    | exchange => simp [next, Point.conn, Point.left, hjk]
  | _ => contradiction

theorem not_up_disconnect {n : ℕ} (hup : Up k s.shared) : ¬ Up k (s.shared.disconnect k n) := by
  intro h
  rw [Up, conn_disconnect (.inl hup.1)] at h
  exact absurd h.1 nofun

theorem due_next_self (hp : p.receives = true) (hk : p.conn = some k)
    (hconn : s.shared.conns[k]? = some conn) (hint : conn.Intact) (hup : Up k s.shared)
    (hup' : Up k (effect cfg c s.shared p)) (hpro : Prompt k s p)
    (hen : enabled s.shared p) (h : Stage cfg conn p)
    (hconn' : (effect cfg c s.shared p).conns[k]? = some conn') :
    Answered cfg conn' ∨
      Due cfg k conn' (next cfg c s.shared p) ∧ (next cfg c s.shared p).left k < p.left k := by
  have hopen := hup'.2.2 conn' hconn'
  cases p with
  | swap =>
    cases hk
    obtain ⟨hnext, hzero⟩ := stage_swap hconn hup hpro h hconn'
    rw [hnext]
    exact .inr ⟨(if_pos rfl).mpr hzero, by simp [Point.left]⟩
  | exchange =>
    cases hk
    obtain ⟨challenge, hnext, hsta⟩ | hnext :=
      stage_exchange hconn hint hup hpro h hconn' hopen hen
    · rw [hnext]
      exact .inr ⟨(if_pos rfl).mpr hsta, by simp [Point.left]⟩
    · rw [hnext]
      exact .inr ⟨(if_pos rfl).mpr trivial, by simp [Point.left]⟩
  | answer j challenge =>
    cases hk
    cases hconn.symm.trans hconn'
    simp only [next]
    split
    · exact .inr ⟨(if_pos rfl).mpr trivial, by simp [Point.left]⟩
    next resp hresp =>
    refine .inr ⟨(if_pos rfl).mpr ?_, by simp [Point.left]⟩
    exact ⟨challenge, resp, _, h.1, h.2, hresp, rfl⟩
  | writeFramesTo j frame =>
    cases hk
    cases hconn.symm.trans hconn'
    simp only [next, if_pos hup.1]
    exact .inr ⟨(if_pos rfl).mpr ⟨frame, rfl, h⟩, by simp [Point.left]⟩
  | lock =>
    cases hk
    cases hconn.symm.trans hconn'
    exact .inr ⟨(if_pos rfl).mpr h, by simp [next, Point.left]⟩
  | setDeadline =>
    cases hk
    cases hconn.symm.trans hconn'
    obtain ⟨frame, rfl, howes⟩ := h
    simp only [next, howes.pieces]
    split
    · exact .inr ⟨(if_pos rfl).mpr ⟨frame, rfl, howes⟩, by simp [Point.left]⟩
    · exact .inr ⟨(if_pos rfl).mpr rfl, by simp [Point.left]⟩
  | flush w =>
    cases hk
    obtain ⟨frame, rfl, howes⟩ := h
    cases w with
    | loop => cases hp
    | exchange =>
      refine (stage_flush hconn howes hconn').imp_right fun hnext => ?_
      rw [hnext]
      exact ⟨(if_pos rfl).mpr rfl, by simp [Point.left]⟩
  | unlock =>
    cases hk
    cases hconn.symm.trans hconn'
    cases h
    exact .inr ⟨(if_pos rfl).mpr trivial, by simp [next, Point.left]⟩
  | disconnect | hangUp =>
    cases hk
    exact absurd hup' (not_up_disconnect hup)
  | _ => exact h.elim

theorem due_next {G : Pool Shared Point → Move Choice Event → Prop}
    (hr : ((program cfg).system.guard G).Reachable s) (hmem : p ∈ s.threads)
    (hp : p.receives = true) (hconn : s.shared.conns[k]? = some conn) (hup : Up k s.shared)
    (hup' : Up k (effect cfg c s.shared p)) (hpro : Prompt k s p)
    (hen : enabled s.shared p) (h : Due cfg k conn p)
    (hconn' : (effect cfg c s.shared p).conns[k]? = some conn') :
    Answered cfg conn' ∨
      Due cfg k conn' (next cfg c s.shared p) ∧ (next cfg c s.shared p).left k < p.left k := by
  have hint := (conns_intact hr).1
  unfold Due at h
  split at h
  · next hk =>
    exact due_next_self hp hk hconn (hint k conn hconn).1 hup hup' hpro hen h hconn'
  next hk =>
  obtain ⟨rfl, -⟩ | ⟨conn₀, hconn₀, hch⟩ := change_effect hconn'
  · cases hp
  cases hconn.symm.trans hconn₀
  have hfr := (hch.grows (fun _ => hk) (hup'.2.2 conn' hconn')).fresh h
  cases hj : p.conn with
  | some j =>
    have hjk : j ≠ k := fun heq => hk (hj.trans (heq ▸ rfl))
    have hold := getElem?_eq_getElem ((conns_exist hr).2 p hmem j hj)
    have hb := (hint j _ hold).2.resolve_left fun hcur =>
      hjk (Option.some.inj (hcur.symm.trans hup.1))
    exact .inr ((left_next_of_ne hup hp hj hjk hold hb).imp_left fun hne =>
      due_of_ne hne hfr)
  | none =>
    cases p with
    | receive =>
      have hnext : next cfg c s.shared .receive = .swap k := by
        simp [next, hup.1, hup.2.1]
      rw [hnext]
      exact .inr ⟨(if_pos rfl).mpr hfr, by simp [Point.left]⟩
    | ended => cases hen
    | _ => contradiction

theorem Change.fresh {s : Shared} (h : Change s p k conn conn')
    (hp : p.receives = true → p.conn ≠ some k) (hfr : conn.Fresh) : conn'.Fresh := by
  cases h with
  | write hrx hexc => exact ⟨hexc.trans hfr.1, hrx ▸ hfr.2⟩
  | begins hswap => exact absurd (hswap ▸ rfl) (hp (hswap ▸ rfl))
  | read hrea =>
    obtain rfl | rfl := hrea <;> exact absurd rfl (hp rfl)
  | hangUp => exact hfr

theorem Env.change {s t : Shared} {e : Event} {new : List Point} (h : Env s e t new)
    (hconn' : t.conns[k]? = some conn') : ∃ conn, s.conns[k]? = some conn ∧ conn.Grows conn' ∧
      (Arrival.broken ∈ conn.rx.input → Arrival.broken ∈ conn'.rx.input) := by
  have hrefl : ∀ conn : Conn, conn.Grows conn :=
    fun conn => ⟨prefix_refl _, prefix_refl _, rfl, rfl⟩
  cases h with
  | arrive a hj hopen =>
    obtain ⟨conn, hconn, ⟨-, rfl⟩ | ⟨-, rfl⟩⟩ := exists_of_modify hconn'
    · exact ⟨conn, hconn, ⟨prefix_append _ _, prefix_refl _, rfl, rfl⟩,
        mem_append_left _⟩
    · exact ⟨_, hconn, hrefl _, id⟩
  | _ => exact ⟨conn', hconn', hrefl _, id⟩

theorem Up.of_env {s t : Shared} {e : Event} {new : List Point} (henv : Env s e t new)
    (h : Up k t) (hconn' : t.conns[k]? = some conn') : Up k s := by
  obtain ⟨hcur, hcl, hopen⟩ := h
  obtain ⟨conn, hconn, -, hbr⟩ := henv.change hconn'
  refine ⟨henv.conns.1 ▸ hcur, ?_, fun conn₀ hconn₀ hb => ?_⟩
  · cases henv <;> exact hcl
  · cases Option.some.inj (hconn.symm.trans hconn₀)
    exact hopen conn' hconn' (hbr hb)

end

section

variable {cfg : Config} {k : ℕ} {s : Pool Shared Point}

abbrev PromptRuns (cfg : Config) (k : ℕ) : Pool Shared Point → Prop :=
  ((program cfg).system.guard (Program.onlyIf (Prompt k))).Reachable

theorem attended (h : PromptRuns cfg k s) :
    Program.Holds (fun s => s.receiving = false → ∀ conn ∈ s.conns[k]?, conn.Fresh)
      (fun s p => p.receives = true → Up k s → ∀ conn, s.conns[k]? = some conn →
        Answered cfg conn ∨ Due cfg k conn p) s := by
  refine (program cfg).holds_reachable ?_ ?_ ?_ ?_ h
  · rintro s rfl - conn hconn
    cases hconn
  · rintro s i c p hr ⟨hs, hthr⟩ hi hen hG
    have hmem := mem_of_getElem? hi
    refine ⟨fun hrecv conn' hconn' => ?_, fun hp hup' conn' hconn' => ?_, nofun⟩
    · have hfal : s.shared.receiving = false := flags_effect.2.symm.trans hrecv
      have hcnt := receiver_balance hr.of_guard
      rw [hfal] at hcnt
      have hp : ¬ p.receives = true := countP_eq_zero.1 hcnt p hmem
      obtain ⟨-, -, rfl⟩ | ⟨conn, hconn, hch⟩ := change_effect hconn'
      · exact ⟨rfl, rfl⟩
      · exact hch.fresh (fun hyes => absurd hyes hp) (hs hfal conn hconn)
    have hp' : p.receives = true := receives_next.symm.trans hp
    obtain ⟨rfl, -⟩ | ⟨conn, hconn, hch⟩ := change_effect hconn'
    · cases hp'
    have hup := hup'.of_effect hconn
    obtain hans | hdue := hthr p hmem hp' hup conn hconn
    · exact .inl (hch.answered hans)
    · exact (due_next hr hmem hp' hconn hup hup' (hG p hi) hen hdue hconn').imp_right
        And.left
  · rintro s i c p q j hr ⟨-, hthr⟩ hi - - hji hj hq hup' conn' hconn'
    have hp : p.receives = false := Bool.eq_false_iff.2 fun hp =>
      hji (eq_of_countP (receiver_balance hr.of_guard) hi hj hp hq)
    have hmem := mem_of_getElem? hj
    obtain ⟨-, rfl, rfl⟩ | ⟨conn, hconn, hch⟩ := change_effect hconn'
    · refine .inr (due_of_ne (fun hk => ?_) ⟨rfl, rfl⟩)
      exact absurd ((conns_exist hr).2 q hmem _ hk) (lt_irrefl _)
    have hgr := hch.grows (fun hyes => absurd (hyes.symm.trans hp) nofun)
      (hup'.2.2 conn' hconn')
    exact (hthr q hmem hq (hup'.of_effect hconn) conn hconn).imp hgr.answered hgr.due
  rintro s e t new ⟨hs, hthr⟩ henv -
  refine ⟨fun hrecv conn' hconn' => ?_, fun q hq hrec hup conn' hconn' => ?_,
    fun q hq hrec hup conn' hconn' => ?_⟩
  · obtain ⟨conn, hconn, hgr, -⟩ := henv.change hconn'
    refine hgr.fresh (hs ?_ conn hconn)
    cases henv <;> first | exact hrecv | cases hrecv
  · cases henv with
    | listen hrecv =>
      cases mem_singleton.1 hq
      exact .inr (due_of_ne nofun (hs hrecv conn' hconn'))
    | start =>
      obtain rfl | rfl : q = .run ∨ q = .writerLoop := by simpa using hq
      all_goals cases hrec
    | send | close =>
      cases mem_singleton.1 hq
      cases hrec
    | arrive => cases hq
  obtain ⟨conn, hconn, hgr, -⟩ := henv.change hconn'
  exact (hthr q hq hrec (hup.of_env henv hconn') conn hconn).imp hgr.answered
    hgr.due

end

variable {challenge : List UInt8}

theorem Challenged.length {conn : Conn} (h : Challenged conn challenge) :
    headerSize + keySize ≤ conn.arrived.length := by
  obtain ⟨f, -, rfl, hlen, hbyt⟩ := h
  have hle := hbyt.length_le
  rwa [Frame.length_bytes, Frame.size, hlen] at hle

theorem Challenged.unique {conn : Conn} {challenge' : List UInt8} (h : Challenged conn challenge)
    (h' : Challenged conn challenge') : challenge = challenge' := by
  obtain ⟨f, -, rfl, hlen, hbyt⟩ := h
  obtain ⟨g, -, rfl, hlen', hbyt'⟩ := h'
  have hsize : f.bytes.length = g.bytes.length := by
    rw [Frame.length_bytes, Frame.length_bytes, Frame.size, Frame.size, hlen, hlen']
  have hpre := prefix_of_prefix_length_le hbyt hbyt' hsize.le
  rw [← f.drop_bytes, ← g.drop_bytes, hpre.eq_of_length hsize]

theorem Change.challenged {s : Shared} {p : Point} {k : ℕ} {conn conn' : Conn}
    (h : Change s p k conn conn') (hchal : Challenged conn challenge) :
    Challenged conn' challenge := by
  cases h with
  | write _ _ harr => exact hchal.mono (harr ▸ prefix_refl _)
  | _ => exact hchal.mono (prefix_refl _)

section

variable {cfg : Config} {k : ℕ} {s : Pool Shared Point}

theorem ended_of_next {c : Choice} {s : Shared} {p : Point} (h : next cfg c s p = .ended) :
    p = .ended ∨ p = .receive ∧ s.closed = true := by
  unfold next flushed at h
  (repeat' split at h) <;> first
    | (cases h; done)
    | exact .inl h
    | exact .inr ⟨rfl, by assumption⟩

theorem ended_closed {G : Pool Shared Point → Move Choice Event → Prop}
    (h : ((program cfg).system.guard G).Reachable s) :
    Program.Holds (fun _ => True) (fun s p => p = .ended → s.closed = true) s := by
  refine (program cfg).holds (fun _ _ => trivial) ?_ ?_ ?_ h
  · rintro s i c p ⟨-, hthr⟩ hi - -
    refine ⟨trivial, fun hend => closed_effect ?_, nofun⟩
    obtain hp | ⟨-, hcl⟩ := ended_of_next hend
    · exact hthr p (mem_of_getElem? hi) hp
    · exact hcl
  · rintro s i c p q j ⟨-, hthr⟩ - - - - hj hend
    exact closed_effect (hthr q (mem_of_getElem? hj) hend)
  rintro s e t new ⟨-, hthr⟩ henv -
  refine ⟨trivial, fun q hq hend => ?_, fun q hq hend => ?_⟩
  · subst hend
    cases henv <;> simp at hq
  · have hcl := hthr q hq hend
    cases henv <;> exact hcl

variable {challenge : List UInt8}

theorem enabled_of_due {conn : Conn} {p : Point} (hr : PromptRuns cfg k s) (hmem : p ∈ s.threads)
    (hp : p.receives = true) (hup : Up k s.shared) (hconn : s.shared.conns[k]? = some conn)
    (hchal : Challenged conn challenge) (h : Due cfg k conn p) :
    enabled s.shared p ∨ ∃ w j frames, p = .lock w j frames := by
  have hint := (conns_intact hr).1
  have hsta : ∀ j, p.conn = some j → j ≠ k → ∃ old, s.shared.conns[j]? = some old ∧
      Arrival.broken ∈ old.rx.input := by
    intro j hj hjk
    have hold := getElem?_eq_getElem ((conns_exist hr).2 p hmem j hj)
    exact ⟨_, hold, (hint j _ hold).2.resolve_left fun hcur =>
      hjk (Option.some.inj (hcur.symm.trans hup.1))⟩
  cases p with
  | receive => exact .inl (.inl (by simp [hup.1]))
  | exchange j =>
    refine .inl (isSome_iff_ne_none.2 fun hnone => ?_)
    by_cases hjk : j = k
    · subst hjk
      have hzero : conn.rx.consumed = 0 := (if_pos rfl).mp h
      simp only [Shared.awaitChallenge, hconn, bind_some] at hnone
      obtain ⟨hopen, hsho⟩ := Rx.awaitChallenge_none hnone
      obtain ⟨before, hbef, harr⟩ := (hint j conn hconn).1 hopen
      have hlen := hchal.length
      rw [harr, length_append, hbef, hzero] at hlen
      omega
    obtain ⟨old, hold, hb⟩ := hsta j rfl hjk
    simp only [Shared.awaitChallenge, hold, bind_some] at hnone
    exact (Rx.awaitChallenge_none hnone).1 hb
  | readFrame j =>
    refine .inl (isSome_iff_ne_none.2 fun hnone => ?_)
    by_cases hjk : j = k
    · subst hjk
      exact (if_pos rfl).mp h
    obtain ⟨old, hold, hb⟩ := hsta j rfl hjk
    simp only [Shared.readFrame, hold, bind_some] at hnone
    exact Rx.not_broken_of_receive hnone hb
  | ended =>
    have hcl := (ended_closed hr).2 _ hmem rfl
    cases hup.2.1.symm.trans hcl
  | lock => exact .inr ⟨_, _, _, rfl⟩
  | swap | answer | writeFramesTo | setDeadline | flush | unlock | disconnect | hangUp =>
    exact .inl trivial
  | _ => cases hp

variable {b : Behaviour (program cfg).system}

theorem exists_of_countP {f : Point → Bool} (h : s.threads.countP f = true.toNat) :
    ∃ (i : ℕ) (p : Point), s.threads[i]? = some p ∧ f p = true := by
  obtain ⟨p, hp, hf⟩ := countP_pos_iff.1 (h ▸ Nat.one_pos : 0 < s.threads.countP f)
  obtain ⟨i, hi⟩ := mem_iff_getElem?.1 hp
  exact ⟨i, p, hi, hf⟩

def Point.held : Point → ℕ
  | .setDeadline _ _ frames => (Bufio.pieces writerBufSize [] frames).length + 3
  | .flush _ _ pieces => pieces.length + 2
  | .unlock _ _ _ => 1
  | _ => 0

theorem held_next {c : Choice} {s : Shared} {p : Point} (hp : p.holdsLock = true) :
    (effect cfg c s p).writeMu = false ∨
      (next cfg c s p).holdsLock = true ∧ (next cfg c s p).held < p.held := by
  cases p with
  | setDeadline =>
    simp only [next]
    split <;> simp [Point.holdsLock, Point.held]
  | flush w k pieces =>
    cases pieces with
    | nil => simp [next, Point.holdsLock, Point.held]
    | cons =>
      simp only [next]
      split <;> simp [Point.holdsLock, Point.held]
  | unlock => exact .inl rfl
  | _ => cases hp

theorem lock_free (hfair : ∀ i, b.StronglyFair (Program.steps i)) (n : ℕ) :
    ∃ m, n ≤ m ∧ (b.state m).shared.writeMu = false := by
  cases hmu : (b.state n).shared.writeMu with
  | false => exact ⟨n, le_rfl, hmu⟩
  | true =>
    have hcnt := lock_balance (b.reachable n)
    rw [hmu] at hcnt
    obtain ⟨j, q, hj, hlock⟩ := exists_of_countP hcnt
    refine progress_of_rank (hfair j) Point.held (I := fun q => q.holdsLock = true)
      (fun m q _ _ hq => ⟨m, le_rfl, by cases q <;> trivial⟩)
      (fun m q c _ _ hq _ _ haft => ?_) hj hlock
    rw [haft]
    exact held_next hq

theorem exists_conn (hr : PromptRuns cfg k s) (hup : Up k s.shared) :
    ∃ conn, s.shared.conns[k]? = some conn :=
  ⟨_, getElem?_eq_getElem ((conns_exist hr).1 k hup.1)⟩

theorem challenged_later {n m : ℕ} {conn : Conn} (hnm : n ≤ m)
    (hconn : (b.state n).shared.conns[k]? = some conn) (h : Challenged conn challenge) :
    ∃ conn', (b.state m).shared.conns[k]? = some conn' ∧ Challenged conn' challenge := by
  induction m, hnm using Nat.le_induction with
  | base => exact ⟨conn, hconn, h⟩
  | succ m hnm ih =>
    obtain ⟨conn, hconn, h⟩ := ih
    obtain ⟨-, hsame⟩ | ⟨l, -, hstep⟩ := b.next_cases m
    · exact ⟨conn, hsame ▸ hconn, h⟩
    obtain ⟨hlt, -⟩ := List.getElem?_eq_some_iff.1 hconn
    generalize b.state (m + 1) = t at hstep
    cases hstep with
    | @run i c p hi hen =>
      have hlt' : k < (effect cfg c (b.state m).shared p).conns.length :=
        Nat.lt_of_lt_of_le hlt length_effect
      have hconn' := getElem?_eq_getElem hlt'
      obtain ⟨-, hnew, -⟩ | ⟨conn₀, hconn₀, hch⟩ := change_effect hconn'
      · omega
      · cases hconn.symm.trans hconn₀
        exact ⟨_, hconn', hch.challenged h⟩
    | @env e t new henv =>
      have hlt' : k < t.conns.length := henv.conns.2 ▸ hlt
      have hconn' := getElem?_eq_getElem hlt'
      obtain ⟨conn₀, hconn₀, hgr, -⟩ := henv.change hconn'
      cases hconn.symm.trans hconn₀
      exact ⟨_, hconn', h.mono hgr.arrived⟩

theorem answered_of_fair {n : ℕ} {conn : Conn} (hfair : ∀ i, b.StronglyFair (Program.steps i))
    (hpro : ∀ n l, b.label n = some l → Program.onlyIf (Prompt k) (b.state n) l)
    (hup : ∀ m, n ≤ m → Up k (b.state m).shared) (hrecv : (b.state n).shared.receiving = true)
    (hconn : (b.state n).shared.conns[k]? = some conn) (hchal : Challenged conn challenge) :
    ∃ m, n ≤ m ∧ ∃ conn', (b.state m).shared.conns[k]? = some conn' ∧ Answered cfg conn' := by
  have hruns := b.reachable_guard hpro
  by_contra hnev
  push Not at hnev
  have hdue : ∀ m p, n ≤ m → p ∈ (b.state m).threads → p.receives = true →
      ∃ conn, (b.state m).shared.conns[k]? = some conn ∧ Challenged conn challenge ∧
        Due cfg k conn p := by
    intro m p hnm hp hrec
    obtain ⟨conn, hconn, hchal⟩ := challenged_later hnm hconn hchal
    refine ⟨conn, hconn, hchal, ?_⟩
    exact ((attended (hruns m)).2 p hp hrec (hup m hnm) conn hconn).resolve_left
      (hnev m hnm conn hconn)
  have hcnt := receiver_balance (b.reachable n)
  rw [hrecv] at hcnt
  obtain ⟨i, p, hi, hp⟩ := exists_of_countP hcnt
  suffices h : ∃ m, n ≤ m ∧ False from h.elim fun _ hm => hm.2
  refine progress_of_rank (hfair i) (Point.left k) (I := fun p => p.receives = true)
    (fun m p hnm hi hp => ?_) (fun m p c hnm hi hp hen hl haft => .inr ?_) hi hp
  · have hmem := mem_of_getElem? hi
    obtain ⟨conn, hconn, hchal, hdue⟩ := hdue m p hnm hmem hp
    obtain hen | ⟨w, j, frames, rfl⟩ :=
      enabled_of_due (hruns m) hmem hp (hup m hnm) hconn hchal hdue
    · exact ⟨m, le_rfl, hen⟩
    · exact lock_free hfair m
  have hmem := mem_of_getElem? hi
  have hup' := hup (m + 1) (by omega)
  obtain ⟨conn, hconn, -, hdue⟩ := hdue m p hnm hmem hp
  obtain ⟨conn', hconn'⟩ := exists_conn (hruns (m + 1)) hup'
  have hans := hnev (m + 1) (by omega) conn' hconn'
  rw [haft] at hup' hconn'
  exact ⟨receives_next.trans hp, ((due_next (hruns m) hmem hp hconn (hup m hnm) hup'
    (hpro m _ hl p hi) hen hdue hconn').resolve_left hans).2⟩

/-- **Every challenge is answered.** If the rounds on a connection meet the condition, an ordinary
frame is read on it, while it is up, only after the challenge was answered; and where all goroutines
are scheduled fairly, a challenge that came first on a connection that stays up is answered. -/
theorem challenge_answered (cfg : Config) (k : ℕ) :
    (∀ s, PromptRuns cfg k s → Up k s.shared → .readFrame k ∈ s.threads →
      ∀ conn, s.shared.conns[k]? = some conn → Answered cfg conn) ∧
    ∀ b : Behaviour (program cfg).system, (∀ i, b.StronglyFair (Program.steps i)) →
      (∀ n l, b.label n = some l → Program.onlyIf (Prompt k) (b.state n) l) →
      ∀ n conn challenge, (∀ m, n ≤ m → Up k (b.state m).shared) →
      (b.state n).shared.receiving = true → (b.state n).shared.conns[k]? = some conn →
      Challenged conn challenge →
      ∃ m conn' seq resp, n ≤ m ∧ (b.state m).shared.conns[k]? = some conn' ∧
        answerChallenge cfg.x25519 challenge cfg.privateKey = .ok resp ∧
        authResponse seq resp <:+: conn'.written := by
  refine ⟨fun s hr hup hmem conn hconn => ?_, fun b hfair hpro n conn challenge hup hrecv
    hconn hchal => ?_⟩
  · refine ((attended hr).2 _ hmem rfl hup conn hconn).resolve_right fun hdue => ?_
    exact (if_pos rfl).mp hdue
  obtain ⟨m, hnm, conn', hconn', frame, howes, hfra⟩ :=
    answered_of_fair hfair hpro hup hrecv hconn hchal
  obtain ⟨challenge', resp, seq, hchal', -, hans, rfl⟩ := howes
  obtain ⟨conn₀, hconn₀, hlat⟩ := challenged_later hnm hconn hchal
  cases hconn₀.symm.trans hconn'
  exact ⟨m, conn', seq, resp, hnm, hconn', hlat.unique hchal' ▸ hans, hfra⟩

def keyClient : Config :=
  ⟨7, [], List.replicate keySize 3, fun scalar point => .ok (List.zipWith (· ^^^ ·) scalar point)⟩

def firstChallenge : Frame := ⟨0, Cmd.authChallenge, 0, 0, List.replicate keySize 5, by decide⟩

def registeredConn : Conn := { written := (keyClient.registerHeader 1).marshal, registered := true }

def registeredClient : Shared where
  seq := 1
  conns := [registeredConn]
  conn := some 0
  authPending := true
  started := true
  receiving := true

theorem challenged_first :
    Challenged (registeredConn.arrive (.chunk firstChallenge.bytes)) firstChallenge.payload :=
  ⟨firstChallenge, rfl, rfl, rfl, prefix_append _ []⟩

theorem first_challenge_answered :
    (∃ s conn, PromptRuns keyClient 0 s ∧ Up 0 s.shared ∧ .readFrame 0 ∈ s.threads ∧
      s.shared.conns[0]? = some conn ∧ Answered keyClient conn) ∧
    ∃ (b : Behaviour (program keyClient).system) (n m : ℕ) (conn conn' : Conn) (seq : UInt16)
      (resp : List UInt8), n ≤ m ∧ (b.state n).shared.conns[0]? = some conn ∧
      Challenged conn firstChallenge.payload ∧
      conn.written = (keyClient.registerHeader 1).marshal ∧
      (b.state m).shared.conns[0]? = some conn' ∧
      answerChallenge keyClient.x25519 firstChallenge.payload keyClient.privateKey = .ok resp ∧
      authResponse seq resp <:+: conn'.written := by
  have hinit : PromptRuns keyClient 0 ⟨{}, []⟩ := .init ⟨rfl, rfl⟩
  have hstd := reachable_env (reachable_env hinit (.start rfl)) (.listen rfl)
  obtain ⟨⟨shared, threads⟩, hr, rfl, rfl⟩ := exists_of_exec
    (Q := fun s => s.shared = registeredClient ∧
      s.threads = [.connected 0, .writerLoop, .receive]) hstd
    (turns [0, 0, 0, 0, 0, 0]) (by decide +kernel)
  have harr := reachable_env hr
    (.arrive (k := 0) (.chunk firstChallenge.bytes) rfl nofun)
  obtain ⟨b, n, N, hn, -, hfair, hpro, hup, -⟩ := exists_behaviour
    (I := fun s => Up 0 s.shared)
    (Q := fun s => Up 0 s.shared ∧ ∀ p ∈ s.threads, ¬ enabled s.shared p) harr
    (turns [2, 2, 2, 2, 2, 2, 2, 2, 2, 2]) (by decide +kernel) (fun _ => And.left)
    (fun _ => And.right)
  have hrecv : (b.state n).shared.receiving = true := by rw [hn]; rfl
  have hconn : (b.state n).shared.conns[0]? =
      some (registeredConn.arrive (.chunk firstChallenge.bytes)) := by rw [hn]; rfl
  obtain ⟨m, conn', seq, resp, hnm, hans⟩ := (challenge_answered keyClient 0).2 b hfair hpro
    n _ _ hup hrecv hconn challenged_first
  obtain ⟨s, hs, hups, hmem⟩ := exists_of_exec
    (Q := fun s => Up 0 s.shared ∧ .readFrame 0 ∈ s.threads) harr
    (turns [2, 2, 2, 2, 2, 2, 2, 2, 2, 2]) (by decide +kernel)
  obtain ⟨conns, hcon⟩ := exists_conn hs hups
  exact ⟨⟨s, conns, hs, hups, hmem, hcon,
      (challenge_answered keyClient 0).1 s hs hups hmem conns hcon⟩,
    b, n, m, _, conn', seq, resp, hnm, hconn, challenged_first, rfl, hans⟩

theorem challenge_skipped : ∃ (b : Behaviour (program keyClient).system) (n N : ℕ),
    (∀ i, b.StronglyFair (Program.steps i)) ∧ (∀ m, n ≤ m → Up 0 (b.state m).shared) ∧
    (b.state n).shared.receiving = true ∧
    (∃ conn, (b.state n).shared.conns[0]? = some conn ∧ conn.rx.consumed = 0 ∧
      Challenged conn firstChallenge.payload) ∧
    (∀ m, N ≤ m → ∃ conn, (b.state m).shared.conns[0]? = some conn ∧
      conn.rx.consumed = firstChallenge.size) ∧
    ∀ m conn seq resp, n ≤ m → (b.state m).shared.conns[0]? = some conn →
      answerChallenge keyClient.x25519 firstChallenge.payload keyClient.privateKey = .ok resp →
      ¬ authResponse seq resp <:+: conn.written := by
  have hinit : ((program keyClient).system.guard
      (Program.onlyIf fun _ _ => True)).Reachable ⟨{}, []⟩ := .init ⟨rfl, rfl⟩
  have hstd := reachable_env (reachable_env hinit (.start rfl)) (.listen rfl)
  obtain ⟨⟨shared, threads⟩, hr, rfl, rfl⟩ := exists_of_exec
    (Q := fun s => s.shared = registeredClient ∧
      s.threads = [.connected 0, .writerLoop, .readFrame 0]) hstd
    (turns [0, 0, 0, 2, 2, 0, 0, 0]) (by decide +kernel)
  have harr := reachable_env (reachable_env hr
    (.arrive (k := 0) (.chunk firstChallenge.bytes) rfl nofun))
    (.arrive (k := 0) .timeout rfl (by decide))
  obtain ⟨b, n, N, hn, -, hfair, -, hrun, hend⟩ := exists_behaviour
    (I := fun s => Up 0 s.shared ∧ ∀ conn ∈ s.shared.conns[0]?, conn.written.length = headerSize)
    (Q := fun s => (Up 0 s.shared ∧
        ∀ conn ∈ s.shared.conns[0]?, conn.written.length = headerSize) ∧
      (∀ p ∈ s.threads, ¬ enabled s.shared p) ∧
      ∃ conn ∈ s.shared.conns[0]?, conn.rx.consumed = firstChallenge.size) harr
    (turns [2, 2, 2, 2]) (by decide +kernel) (fun _ => And.left) (fun _ h => h.2.1)
  refine ⟨b, n, N, hfair, fun m hm => (hrun m hm).1, by rw [hn]; rfl,
    ⟨_, by rw [hn]; rfl, rfl, ?_⟩, fun m hm => (hend m hm).2.2,
    fun m conn seq resp hm hconn hans hwr => ?_⟩
  · exact challenged_first.mono (prefix_append _ _)
  have hle := hwr.length_le
  rw [length_authResponse seq hans, (hrun m hm).2 conn hconn] at hle
  exact absurd hle (by decide)

end

end LatticeMesh.Relay.TCPClient
