import LatticeMesh.Relay.TCPClient

/-! # The connections of the TCP client -/

namespace LatticeMesh.Relay

open List Option Arrival

namespace Rx

structure Reads (rx rx' : Rx) : Prop where
  taken : ∃ new, Arrival.items rx.input = new ++ Arrival.items rx'.input ∧
    rx'.consumed = rx.consumed + new.length
  broken : Arrival.broken ∈ rx.input → Arrival.broken ∈ rx'.input

variable {rx rx' : Rx} {n : ℕ} {l : List UInt8} {rest : List (Arrival UInt8)}

theorem Reads.of_eq (hinp : rx'.input = rx.input) (hcons : rx'.consumed = rx.consumed) :
    rx.Reads rx' :=
  ⟨⟨[], by rw [hinp]; rfl, hcons⟩, fun h => hinp ▸ h⟩

theorem Reads.trans {rx'' : Rx} (h : rx.Reads rx') (h' : rx'.Reads rx'') : rx.Reads rx'' := by
  obtain ⟨new, hit, hcons⟩ := h.taken
  obtain ⟨new', hit', hcons'⟩ := h'.taken
  refine ⟨⟨new ++ new', ?_, ?_⟩, h'.broken ∘ h.broken⟩
  · rw [hit, hit', append_assoc]
  · rw [hcons', hcons, length_append, Nat.add_assoc]

theorem broken_mem_of_read {r : ReadResult UInt8} (h : Arrival.read n rx.input = r)
    (hrest : r.rest? = some rest) (hb : Arrival.broken ∈ rx.input) : Arrival.broken ∈ rest := by
  obtain ⟨rest', hrest', hb'⟩ := broken_mem_rest [] n hb
  rw [← Arrival.read, h, hrest] at hrest'
  exact Option.some.inj hrest' ▸ hb'

theorem reads_complete (h : Arrival.read n rx.input = .complete l rest) :
    rx.Reads (rx.advance rest n) := by
  obtain ⟨hlen, hit⟩ := read_complete h
  exact ⟨⟨l, hit, hlen ▸ rfl⟩, broken_mem_of_read h rfl⟩

theorem reads_timeout (h : Arrival.read n rx.input = .timeout l rest) :
    rx.Reads (rx.advance rest l.length) :=
  ⟨⟨l, (read_timeout h).2, rfl⟩, broken_mem_of_read h rfl⟩

theorem reads_broken (h : Arrival.read n rx.input = .broken l rest) :
    rx.Reads (rx.advance rest l.length) :=
  ⟨⟨l, (read_broken h).2.1, rfl⟩, broken_mem_of_read h rfl⟩

theorem reads_payload {handle : List UInt8 → List Received} (h : rx.payload n handle = some rx') :
    rx.Reads rx' := by
  unfold payload at h
  split at h
  · cases h
  · next hread =>
    cases h
    exact (reads_complete hread).trans (.of_eq rfl rfl)
  all_goals
    cases h
    exact .of_eq rfl rfl

theorem reads_skip (h : rx.skip n = some rx') : rx.Reads rx' := by
  unfold skip at h
  split at h
  · cases h
  · next hread => exact Option.some.inj h ▸ reads_complete hread
  · next hread => exact Option.some.inj h ▸ reads_timeout hread
  · next hread => exact Option.some.inj h ▸ reads_broken hread

variable {bufLen : ℕ} {room : Bool}

theorem reads_dispatch {hdr : Header} (h : rx.dispatch bufLen room hdr = some rx') :
    rx.Reads rx' := by
  unfold dispatch at h
  dsimp only at h
  repeat' split at h
  all_goals first | exact reads_payload h | exact reads_skip h

theorem reads_receive (h : rx.receive bufLen room = some rx') :
    rx.Reads rx' := by
  unfold receive at h
  split at h
  · cases h
  · next hread => exact Option.some.inj h ▸ reads_timeout hread
  · exact Option.some.inj h ▸ .of_eq rfl rfl
  next hread =>
  split at h
  · exact Option.some.inj h ▸ reads_complete hread
  · exact (reads_complete hread).trans (reads_dispatch h)

theorem not_broken_of_blocked (h : Arrival.read n rx.input = .blocked) :
    Arrival.broken ∉ rx.input ∧ (Arrival.items rx.input).length < n := by
  have htook := took_readFrom [] n rx.input
  rw [← Arrival.read, h] at htook
  exact ⟨htook.2.2, htook.1⟩

theorem not_broken_of_payload {handle : List UInt8 → List Received}
    (h : rx.payload n handle = none) : Arrival.broken ∉ rx.input := by
  unfold payload at h
  split at h
  · next hread => exact (not_broken_of_blocked hread).1
  all_goals cases h

theorem not_broken_of_dispatch {hdr : Header} (h : rx.dispatch bufLen room hdr = none) :
    Arrival.broken ∉ rx.input := by
  unfold dispatch skip at h
  dsimp only at h
  repeat' split at h
  all_goals first
    | exact not_broken_of_payload h
    | exact (not_broken_of_blocked (by assumption)).1
    | cases h

theorem not_broken_of_receive (h : rx.receive bufLen room = none) :
    Arrival.broken ∉ rx.input := by
  unfold receive at h
  split at h
  · next hread => exact (not_broken_of_blocked hread).1
  · cases h
  · cases h
  next hread =>
  split at h
  · cases h
  · exact fun hb => not_broken_of_dispatch h ((reads_complete hread).broken hb)

theorem awaitChallenge_none (h : rx.awaitChallenge = none) :
    Arrival.broken ∉ rx.input ∧ (Arrival.items rx.input).length < headerSize + keySize := by
  unfold awaitChallenge at h
  split at h
  · next hread =>
    obtain ⟨hb, hlen⟩ := not_broken_of_blocked hread
    exact ⟨hb, by omega⟩
  · cases h
  · cases h
  next headB rest hread =>
  split at h
  · cases h
  split at h
  · cases h
  split at h
  · next hpay =>
    obtain ⟨hopen, hsho⟩ : Arrival.broken ∉ (rx.advance rest headerSize).input ∧
        (Arrival.items rest).length < keySize := not_broken_of_blocked hpay
    obtain ⟨hlen, hit⟩ := read_complete hread
    refine ⟨fun hb => hopen ((reads_complete hread).broken hb), ?_⟩
    rw [hit, length_append]
    omega
  all_goals cases h

theorem awaitChallenge_legacy (h : rx.awaitChallenge = some (.legacy rx')) : rx.Reads rx' ∧
    ((∃ lost rest, Arrival.read headerSize rx.input = .timeout lost rest) ∨
      Arrival.broken ∈ rx'.input) := by
  unfold awaitChallenge at h
  split at h
  · cases h
  · next hread =>
    cases h
    exact ⟨reads_timeout hread, .inl ⟨_, _, hread⟩⟩
  · next hread =>
    cases h
    exact ⟨reads_broken hread, .inr (mem_of_mem_head? (read_broken hread).2.2)⟩
  · repeat' split at h
    all_goals cases h

theorem awaitChallenge_challenge {challenge : List UInt8}
    (h : rx.awaitChallenge = some (.challenge challenge rx')) : rx.Reads rx' ∧
    rx'.consumed = rx.consumed + (headerSize + keySize) ∧
    ∃ f : Frame, f.cmd = Cmd.authChallenge ∧ f.payload = challenge ∧ challenge.length = keySize ∧
      Arrival.items rx.input = f.bytes ++ Arrival.items rx'.input := by
  unfold awaitChallenge at h
  split at h
  · cases h
  · cases h
  · cases h
  next headB rest hread =>
  split at h
  · cases h
  next hdr hhdr =>
  split at h
  · cases h
  next hok =>
  split at h
  · cases h
  · cases h
  · cases h
  next challenge rest' hpay =>
  cases h
  rw [not_or, not_not, not_not] at hok
  obtain ⟨hlen, hit⟩ := read_complete hread
  obtain ⟨hlen', hit'⟩ := read_complete hpay
  refine ⟨(reads_complete hread).trans (reads_complete hpay), Nat.add_assoc .., ?_⟩
  refine ⟨⟨hdr.seq, hdr.cmd, hdr.toID, hdr.reserved, challenge, by rw [hlen']; decide⟩,
    hok.1, rfl, hlen', ?_⟩
  have hhea : UInt32.ofNat challenge.length = hdr.payloadLen := by
    rw [hlen', ← hok.2]
    exact UInt32.ofNat_toNat
  simp only [Frame.bytes, Frame.header, hhea]
  rw [marshal_unmarshal hlen hhdr, hit, hit', append_assoc]
  rfl

end Rx

namespace TCPClient

section

variable {cfg : Config} {c : Choice} {s : Shared} {p : Point} {k : ℕ} {conn conn' : Conn}

inductive Change (s : Shared) (p : Point) (k : ℕ) (conn : Conn) : Conn → Prop
  | write {conn' : Conn} (hrx : conn'.rx = conn.rx) (hexchanged : conn'.exchanged = conn.exchanged)
    (harrived : conn'.arrived = conn.arrived) (hwritten : conn.written <+: conn'.written) :
    Change s p k conn conn'
  | begins (hp : p = .swap k) : Change s p k conn { conn with exchanged := true }
  | read {rx : Rx} (hp : p = .exchange k ∨ p = .readFrame k) (hreads : conn.rx.Reads rx) :
    Change s p k conn { conn with rx := rx }
  | hangUp (n : ℕ) (hcur : s.conn = some k) : Change s p k conn
    { conn with rx := { conn.rx with input := conn.rx.input.take n ++ [Arrival.broken] } }

theorem Change.refl : Change s p k conn conn := .write rfl rfl rfl (prefix_refl _)

variable {j : ℕ}

theorem exists_of_modify {f : Conn → Conn} (h : (s.modify j f).conns[k]? = some conn') :
    ∃ conn, s.conns[k]? = some conn ∧ (j = k ∧ conn' = f conn ∨ j ≠ k ∧ conn' = conn) := by
  simp only [Shared.modify, getElem?_modify] at h
  obtain ⟨conn, hconn, rfl⟩ := map_eq_some_iff.1 h
  refine ⟨conn, hconn, ?_⟩
  by_cases hjk : j = k
  · exact .inl ⟨hjk, by simp [hjk]⟩
  · exact .inr ⟨hjk, by simp [hjk]⟩

theorem change_modify {f : Conn → Conn} (h : (s.modify j f).conns[k]? = some conn')
    (hf : ∀ conn, j = k → Change s p k conn (f conn)) :
    ∃ conn, s.conns[k]? = some conn ∧ Change s p k conn conn' := by
  obtain ⟨conn, hconn, ⟨hjk, rfl⟩ | ⟨-, rfl⟩⟩ := exists_of_modify h
  · exact ⟨conn, hconn, hf conn hjk⟩
  · exact ⟨_, hconn, .refl⟩

theorem change_disconnect {n : ℕ} (h : (s.disconnect j n).conns[k]? = some conn') :
    ∃ conn, s.conns[k]? = some conn ∧ Change s p k conn conn' := by
  unfold Shared.disconnect at h
  split at h
  · next hcur => exact change_modify h fun conn hjk => .hangUp n (hjk ▸ hcur)
  · exact ⟨conn', h, .refl⟩

theorem change_registerWrite {b : List UInt8} {last : Bool}
    (h : (registerWrite c s j b last).conns[k]? = some conn') :
    ∃ conn, s.conns[k]? = some conn ∧ Change s p k conn conn' := by
  unfold registerWrite at h
  split at h
  · exact ⟨conn', h, .refl⟩
  obtain ⟨conn₁, h₁, hout⟩ := exists_of_modify h
  obtain ⟨conn, hconn, hinn⟩ := exists_of_modify h₁
  refine ⟨conn, hconn, ?_⟩
  obtain ⟨-, rfl⟩ | ⟨-, rfl⟩ := hout <;> obtain ⟨-, rfl⟩ | ⟨-, rfl⟩ := hinn
  · exact .write rfl rfl rfl (prefix_append _ _)
  · exact .write rfl rfl rfl (prefix_refl _)
  · exact .write rfl rfl rfl (prefix_append _ _)
  · exact .refl

theorem change_effect (h : (effect cfg c s p).conns[k]? = some conn') :
    p = .publish ∧ k = s.conns.length ∧ conn' = {} ∨
      ∃ conn, s.conns[k]? = some conn ∧ Change s p k conn conn' := by
  cases p with
  | publish =>
    have hk : (s.conns ++ [({} : Conn)])[k]? = some conn' := h
    rw [getElem?_append] at hk
    split at hk
    · exact .inr ⟨conn', hk, .refl⟩
    have hmem := mem_singleton.1 (mem_of_getElem? hk)
    obtain ⟨hlt, -⟩ := List.getElem?_eq_some_iff.1 hk
    rw [length_singleton] at hlt
    exact .inl ⟨rfl, by omega, hmem⟩
  | registerHeader | registerToken => exact .inr (change_registerWrite h)
  | registerFailed | disconnect | hangUp | closeDisconnect => exact .inr (change_disconnect h)
  | flush w j pieces =>
    cases pieces with
    | nil => exact .inr ⟨conn', h, .refl⟩
    | cons =>
      simp only [effect, flushPiece] at h
      split at h
      · exact .inr ⟨conn', h, .refl⟩
      · exact .inr (change_modify h fun _ _ => .write rfl rfl rfl (prefix_append _ _))
  | swap j =>
    simp only [effect] at h
    split at h
    · exact .inr (change_modify h fun _ hjk => .begins (hjk ▸ rfl))
    · exact .inr ⟨conn', h, .refl⟩
  | exchange j =>
    simp only [effect, Shared.awaitChallenge] at h
    split at h
    · next rx hrx =>
      obtain ⟨conn₀, hconn₀, hawa⟩ := bind_eq_some_iff.1 hrx
      obtain ⟨conn, hconn, ⟨rfl, rfl⟩ | ⟨-, rfl⟩⟩ := exists_of_modify h
      · cases hconn₀.symm.trans hconn
        exact .inr ⟨_, hconn, .read (.inl rfl) (Rx.awaitChallenge_legacy hawa).1⟩
      · exact .inr ⟨_, hconn, .refl⟩
    · next challenge rx hrx =>
      obtain ⟨conn₀, hconn₀, hawa⟩ := bind_eq_some_iff.1 hrx
      obtain ⟨conn, hconn, ⟨rfl, rfl⟩ | ⟨-, rfl⟩⟩ := exists_of_modify h
      · cases hconn₀.symm.trans hconn
        exact .inr ⟨_, hconn, .read (.inl rfl) (Rx.awaitChallenge_challenge hawa).1⟩
      · exact .inr ⟨_, hconn, .refl⟩
    all_goals exact .inr ⟨conn', h, .refl⟩
  | readFrame j =>
    simp only [effect, Shared.readFrame] at h
    split at h
    · next rx hrx =>
      obtain ⟨conn₀, hconn₀, hrec⟩ := bind_eq_some_iff.1 hrx
      obtain ⟨conn, hconn, ⟨rfl, rfl⟩ | ⟨-, rfl⟩⟩ := exists_of_modify h
      · cases hconn₀.symm.trans hconn
        exact .inr ⟨_, hconn, .read (.inr rfl) (Rx.reads_receive hrec)⟩
      · exact .inr ⟨_, hconn, .refl⟩
    · exact .inr ⟨conn', h, .refl⟩
  | writerLoop =>
    simp only [effect] at h
    split at h <;> exact .inr ⟨conn', h, .refl⟩
  | _ => exact .inr ⟨conn', h, .refl⟩

theorem Change.broken (h : Change s p k conn conn') (hb : Arrival.broken ∈ conn.rx.input) :
    Arrival.broken ∈ conn'.rx.input := by
  cases h with
  | write hrx => exact hrx ▸ hb
  | begins => exact hb
  | read _ hrea => exact hrea.broken hb
  | hangUp => exact mem_append_right _ mem_cons_self

def Conn.Intact (conn : Conn) : Prop :=
  Arrival.broken ∉ conn.rx.input → ∃ before, before.length = conn.rx.consumed ∧
    conn.arrived = before ++ Arrival.items conn.rx.input

theorem Conn.Intact.change (h : conn.Intact) (hch : Change s p k conn conn') :
    conn'.Intact := by
  cases hch with
  | write hrx _ harr =>
    unfold Conn.Intact
    rw [hrx, harr]
    exact h
  | begins => exact h
  | read _ hrea =>
    intro hopen
    obtain ⟨before, hlen, harr⟩ := h (mt hrea.broken hopen)
    obtain ⟨new, hit, hcons⟩ := hrea.taken
    refine ⟨before ++ new, ?_, ?_⟩
    · rw [length_append, hlen, hcons]
    · rw [append_assoc, ← hit]
      exact harr
  | hangUp => exact fun hopen => absurd (mem_append_right _ mem_cons_self) hopen

theorem Conn.Intact.arrive (h : conn.Intact) (hopen : Arrival.broken ∉ conn.rx.input)
    (a : Arrival UInt8) : (conn.arrive a).Intact := by
  intro _
  obtain ⟨before, hlen, harr⟩ := h hopen
  refine ⟨before, hlen, ?_⟩
  simp only [Conn.arrive]
  rw [items_append hopen, harr, append_assoc]

theorem disconnect_kept {n : ℕ} (hcur : s.conn = some k)
    (h : (s.disconnect j n).conns[k]? = some conn') :
    (s.disconnect j n).conn = some k ∨ Arrival.broken ∈ conn'.rx.input := by
  unfold Shared.disconnect at h ⊢
  split at h
  · next hj =>
    cases hcur.symm.trans hj
    obtain ⟨conn, -, ⟨-, rfl⟩ | ⟨hne, -⟩⟩ := exists_of_modify h
    · exact .inr (mem_append_right _ mem_cons_self)
    · exact absurd rfl hne
  next hj =>
  rw [if_neg hj]
  exact .inl hcur

theorem conn_kept (hp : p ≠ .publish) (hcur : s.conn = some k)
    (h : (effect cfg c s p).conns[k]? = some conn') :
    (effect cfg c s p).conn = some k ∨ Arrival.broken ∈ conn'.rx.input := by
  cases p with
  | publish => exact absurd rfl hp
  | registerFailed | disconnect | hangUp | closeDisconnect => exact disconnect_kept hcur h
  | flush w j pieces =>
    cases pieces <;> simp only [effect, flushPiece, Shared.modify]
    · exact .inl hcur
    · split <;> exact .inl hcur
  | registerHeader | registerToken | writerLoop | swap | exchange | readFrame =>
    simp only [effect, registerWrite, Shared.modify]
    split <;> exact .inl hcur
  | _ => exact .inl hcur

end

section

variable {cfg : Config} {G : Pool Shared Point → Move Choice Event → Prop} {s : Pool Shared Point}

theorem conns_intact (h : ((program cfg).system.guard G).Reachable s) :
    Program.Holds (fun s => ∀ (k : ℕ) (conn : Conn), s.conns[k]? = some conn →
      conn.Intact ∧ (s.conn = some k ∨ Arrival.broken ∈ conn.rx.input)) (fun _ _ => True) s := by
  refine (program cfg).holds_reachable ?_ ?_ (fun _ _ _ _ _ _ _ _ _ _ _ _ _ => trivial) ?_ h
  · rintro s rfl k conn hconn
    cases hconn
  · rintro s i c p hr ⟨hs, -⟩ hi - -
    refine ⟨fun k conn' hconn' => ?_, trivial, nofun⟩
    obtain ⟨rfl, rfl, rfl⟩ | ⟨conn, hconn, hch⟩ := change_effect hconn'
    · exact ⟨fun _ => ⟨[], rfl, rfl⟩, .inl rfl⟩
    obtain ⟨hint, hcur⟩ := hs k conn hconn
    refine ⟨hint.change hch, ?_⟩
    obtain hcur | hb := hcur
    · refine conn_kept ?_ hcur hconn'
      rintro rfl
      have hnone : s.shared.conn = none := (supervised hr).2 _ (mem_of_getElem? hi)
      exact absurd (hcur.symm.trans hnone) nofun
    · exact .inr (hch.broken hb)
  rintro s e t new ⟨hs, -⟩ henv -
  refine ⟨fun k conn' hconn' => ?_, fun _ _ => trivial, fun _ _ => trivial⟩
  cases henv with
  | @arrive j conn a hj hopen =>
    obtain ⟨conn, hconn, ⟨rfl, rfl⟩ | ⟨-, rfl⟩⟩ := exists_of_modify hconn'
    · obtain ⟨hint, hcur⟩ := hs j conn hconn
      cases hconn.symm.trans hj
      exact ⟨hint.arrive hopen a, hcur.imp_right (mem_append_left _)⟩
    · exact hs k _ hconn
  | _ => exact hs k conn' hconn'

end

end TCPClient

end LatticeMesh.Relay
