import LatticeMesh.Relay.System

/-! # Strict mode isolates unproved connections -/

namespace LatticeMesh.Relay

open Bytes Routing

variable {h' : Handler}

theorem serveCmd_again {h : Handler} {headB rest rest' : List UInt8} {hdr : Header}
    {ev : List Event} (hs : serveCmd h headB hdr rest = .again h' rest' ev) : h' = h := by
  unfold serveCmd at hs
  split at hs
  · cases hs
    rfl
  split at hs
  · unfold relayFrame at hs
    split at hs
    · cases hs
    · split at hs <;> cases hs <;> rfl
  · cases hs
    rfl

theorem iterate_again {cfg : ServerConfig} {h : Handler} {headB rest rest' : List UInt8}
    {hdr : Header} {ev : List Event} (hi : iterate cfg h headB hdr rest = .again h' rest' ev) :
    h'.fromId = h.fromId ∧
      (System.proofAccepted cfg h.fromId h.pending hdr rest = true ∨ h.pending = none ∨
        cfg.requirePeerAuth = false) := by
  unfold iterate at hi
  split at hi
  · next ch hpend =>
    split at hi
    · next hcmd =>
      unfold authResponse at hi
      split at hi
      · cases hi
      split at hi
      · cases hi
      next payload rest'' hread =>
      split at hi
      · cases hi
      next hver =>
      cases hi
      refine ⟨rfl, .inl ?_⟩
      simp [System.proofAccepted, hpend, hread, hcmd, hver]
    split at hi
    · cases hi
    next hlen =>
    rw [serveCmd_again hi]
    exact ⟨rfl, .inr (.inr (Bool.eq_false_iff.2 hlen))⟩
  next hpend =>
  rw [serveCmd_again hi]
  exact ⟨rfl, .inr (.inl hpend)⟩

namespace System

def SessionProved (st : System) (r : SessionRef) (id : UInt64) : Prop :=
  ∃ s, st.routing.mgr.heap[r]? = some s ∧ (s.stream.conn, id) ∈ st.proved

structure InFlightOk (st : System) (r : InFlight) : Prop where
  src : (r.src, r.fromId) ∈ st.proved
  qconn : ∀ conn, r.snap.qconn = some conn → (conn, r.toID) ∈ st.proved
  session : ∀ s, r.snap.session = some s → st.SessionProved s r.toID

structure TablesOk (st : System) : Prop where
  owner : ∀ id r, st.routing.mgr.owner id = some r → st.SessionProved r id
  qconn : ∀ id conn, st.routing.mgr.qconn id = some conn → (conn, id) ∈ st.proved
  datagrams : ∀ c id, st.datagrams c = some id → (c, id) ∈ st.proved
  inFlight : ∀ r ∈ st.inFlight, st.InFlightOk r
  delivered : ∀ d ∈ st.delivered, (d.src, d.fromId) ∈ st.proved ∧ (d.conn, d.toID) ∈ st.proved

theorem SessionProved.call {st : System} {r : SessionRef} {id : UInt64}
    (h : st.SessionProved r id) (c : Call) : (st.call c).SessionProved r id := by
  obtain ⟨s, hs, hmem⟩ := h
  obtain ⟨s', hs', hstr⟩ := stream_exec st.routing c hs
  exact ⟨s', hs', hstr ▸ hmem⟩

variable {st : System} {c : ConnRef} {fromId : UInt64}

theorem SessionProved.prove {r : SessionRef} {id : UInt64} (h : st.SessionProved r id) (c : ConnRef)
    (j : UInt64) : (st.prove c j).SessionProved r id := by
  obtain ⟨s, hs, hmem⟩ := h
  exact ⟨s, hs, .tail _ hmem⟩

theorem TablesOk.prove (h : st.TablesOk) (c : ConnRef) (id : UInt64) :
    (st.prove c id).TablesOk where
  owner j r hr := (h.owner j r hr).prove c id
  qconn j conn hc := .tail _ (h.qconn j conn hc)
  datagrams c' j hd := .tail _ (h.datagrams c' j hd)
  inFlight r hr :=
    have hok := h.inFlight r hr
    ⟨.tail _ hok.src, fun conn hc => .tail _ (hok.qconn conn hc),
      fun s hs => (hok.session s hs).prove c id⟩
  delivered d hd := ⟨.tail _ (h.delivered d hd).1, .tail _ (h.delivered d hd).2⟩

theorem TablesOk.proveIf (h : st.TablesOk) (c : ConnRef) (id : UInt64) (b : Bool) :
    (st.proveIf c id b).TablesOk := by
  unfold System.proveIf
  split
  · exact h.prove c id
  · exact h

theorem TablesOk.setPhase (h : st.TablesOk) (c : ConnRef) (p : Phase) :
    (st.setPhase c p).TablesOk :=
  ⟨h.owner, h.qconn, h.datagrams, fun r hr => ⟨(h.inFlight r hr).src, (h.inFlight r hr).qconn,
    (h.inFlight r hr).session⟩, h.delivered⟩

theorem TablesOk.call {st : System} (h : st.TablesOk) {c : Call}
    (hinst : ∀ id r, st.routing.Installs id r c → (st.call c).SessionProved r id)
    (hconn : ∀ id conn, Routing.InstallsConn id conn c → (conn, id) ∈ st.proved) :
    (st.call c).TablesOk where
  owner id r hr := by
    rcases owner_exec hr with hold | hnew
    · exact (h.owner id r hold).call c
    · exact hinst id r hnew
  qconn id conn hc := by
    rcases qconn_exec hc with hold | hnew
    · exact h.qconn id conn hold
    · exact hconn id conn hnew
  datagrams := h.datagrams
  inFlight r hr :=
    have hok := h.inFlight r hr
    ⟨hok.src, hok.qconn, fun s hs => (hok.session s hs).call c⟩
  delivered := h.delivered

theorem TablesOk.startRelay (h : st.TablesOk) (hsrc : (c, fromId) ∈ st.proved) (toID : UInt64)
    (frame : List UInt8) :
    (st.startRelay c fromId toID frame).TablesOk where
  owner := h.owner
  qconn := h.qconn
  datagrams := h.datagrams
  inFlight r hr := by
    rcases List.mem_cons.1 hr with rfl | hold
    · exact ⟨hsrc, h.qconn toID, h.owner toID⟩
    · exact ⟨(h.inFlight r hold).src, (h.inFlight r hold).qconn, (h.inFlight r hold).session⟩
  delivered := h.delivered

theorem reached_proved {r : InFlight} (h : st.InFlightOk r) {conn : ConnRef}
    (hr : st.reached (st.routing.mgr.handoff r.snap) = some conn) :
    (conn, r.toID) ∈ st.proved := by
  unfold SessionManager.handoff at hr
  split at hr
  · next k _ hq =>
    cases hr
    exact h.qconn _ hq
  · next s _ hs =>
    split at hr
    · obtain ⟨x, hx, hmem⟩ := h.session s hs
      simp only [reached, hx, Option.map_some, Option.some.injEq] at hr
      exact hr ▸ hmem
    · cases hr
  · cases hr

theorem TablesOk.deliver {st : System} (h : st.TablesOk) {r : InFlight} (hr : r ∈ st.inFlight) :
    (st.deliver r).TablesOk where
  owner := h.owner
  qconn := h.qconn
  datagrams := h.datagrams
  inFlight r' hr' :=
    have hok := h.inFlight r' (List.mem_of_mem_erase hr')
    ⟨hok.src, hok.qconn, hok.session⟩
  delivered d hd := by
    rcases List.mem_append.1 hd with hnew | hold
    · obtain ⟨conn, hconn, rfl⟩ := Option.map_eq_some_iff.1 (Option.mem_toList.1 hnew)
      exact ⟨(h.inFlight r hr).src, reached_proved (h.inFlight r hr) hconn⟩
    · exact h.delivered d hold

theorem TablesOk.perform {sess : Option SessionRef} (h : st.TablesOk)
    (hsrc : (c, fromId) ∈ st.proved) (e : Event) :
    (System.perform c fromId (st, sess) e).1.TablesOk := by
  cases e with
  | header pos => exact h
  | markVerified | unregister => exact h.call (fun _ _ => False.elim) fun _ _ => False.elim
  | relay toID frame => exact h.startRelay hsrc toID frame
  | register verified =>
    have hnew := h.call (c := .newTCPSession fromId (.readWriter c) verified)
      (fun _ _ => False.elim) fun _ _ => False.elim
    refine hnew.call ?_ fun _ _ => False.elim
    rintro id r ⟨rfl, hr⟩
    cases hr
    exact SessionProved.call ⟨_, heap_newTCPSession .., hsrc⟩ _

theorem perform_frame (c : ConnRef) (fromId : UInt64) (p : System × Option SessionRef)
    (e : Event) :
    (System.perform c fromId p e).1.proved = p.1.proved ∧
      (System.perform c fromId p e).1.phase = p.1.phase := by
  cases e <;> exact ⟨rfl, rfl⟩

theorem TablesOk.foldl_perform (ev : List Event) (p : System × Option SessionRef) (h : p.1.TablesOk)
    (hsrc : (c, fromId) ∈ p.1.proved) :
    (ev.foldl (System.perform c fromId) p).1.TablesOk ∧
      (ev.foldl (System.perform c fromId) p).1.proved = p.1.proved ∧
      (ev.foldl (System.perform c fromId) p).1.phase = p.1.phase := by
  induction ev generalizing p with
  | nil => exact ⟨h, rfl, rfl⟩
  | cons e ev ih =>
    obtain ⟨hpro, hph⟩ := perform_frame c fromId p e
    obtain ⟨hok, hpro', hph'⟩ := ih _ (h.perform hsrc e) (hpro ▸ hsrc)
    exact ⟨hok, hpro'.trans hpro, hph'.trans hph⟩

theorem TablesOk.setDatagrams (h : st.TablesOk) (c : ConnRef) {v : Option UInt64}
    (hv : ∀ id, v = some id → (c, id) ∈ st.proved) :
    { st with datagrams := Function.update st.datagrams c v }.TablesOk where
  owner := h.owner
  qconn := h.qconn
  datagrams c' id hd := by
    simp only [Function.update_apply] at hd
    split at hd
    · next hc => exact hc ▸ hv id hd
    · exact h.datagrams c' id hd
  inFlight r hr := ⟨(h.inFlight r hr).src, (h.inFlight r hr).qconn, (h.inFlight r hr).session⟩
  delivered := h.delivered

theorem TablesOk.registerQUICVerified (h : st.TablesOk) (hsrc : (c, fromId) ∈ st.proved) :
    (st.call (.registerQUICVerified fromId (.quicControl c) (some c))).TablesOk := by
  refine h.call ?_ ?_
  · rintro id r ⟨rfl, rfl⟩
    exact ⟨_, heap_registered .., hsrc⟩
  rintro id conn ⟨rfl, hk⟩
  cases hk
  exact hsrc

structure Isolated (st : System) : Prop extends st.TablesOk where
  tcp : ∀ c h sess, st.phase c = .tcp h sess → h.pending = none → (c, h.fromId) ∈ st.proved

theorem Isolated.setPhase (h : st.Isolated) {p : Phase}
    (hp : ∀ h' sess, p = .tcp h' sess → h'.pending = none → (c, h'.fromId) ∈ st.proved) :
    (st.setPhase c p).Isolated where
  toTablesOk := h.toTablesOk.setPhase c p
  tcp c' h' sess hc hpend := by
    simp only [System.setPhase, Function.update_apply] at hc
    split at hc
    · next heq => exact heq ▸ hp h' sess hc hpend
    · exact h.tcp c' h' sess hc hpend

theorem Isolated.proveIf (h : st.Isolated) (c : ConnRef) (id : UInt64) (b : Bool) :
    (st.proveIf c id b).Isolated where
  toTablesOk := h.toTablesOk.proveIf c id b
  tcp := by
    unfold System.proveIf
    split
    · exact fun c' h' sess hp hpend => .tail _ (h.tcp c' h' sess hp hpend)
    · exact h.tcp

theorem Isolated.tcpTurn (h : st.Isolated) (hsrc : (c, h'.fromId) ∈ st.proved)
    (sess : Option SessionRef) (ev : List Event) :
    (st.tcpTurn c h' sess ev).Isolated := by
  obtain ⟨hok, hpro, hph⟩ := h.toTablesOk.foldl_perform ev (st, sess) hsrc
  refine Isolated.setPhase ⟨hok, ?_⟩ fun h'' _ heq _ => ?_
  · rw [hpro, hph]
    exact h.tcp
  cases heq
  rw [hpro]
  exact hsrc

theorem Isolated.call {st : System} (h : st.Isolated) {c : Call}
    (hinst : ∀ id r, ¬ st.routing.Installs id r c)
    (hconn : ∀ id conn, ¬ Routing.InstallsConn id conn c) : (st.call c).Isolated where
  toTablesOk := h.toTablesOk.call (fun id r hi => absurd hi (hinst id r))
    fun id conn hi => absurd hi (hconn id conn)
  tcp := h.tcp

theorem isolated_start (cfg : ServerConfig) : (start cfg).Isolated where
  owner id r hr := by cases hr
  qconn id conn hc := by cases hc
  datagrams c id hd := by cases hd
  inFlight r hr := by cases hr
  delivered d hd := by cases hd
  tcp c h sess hp := by cases hp

theorem isolated_step {cfg : ServerConfig} (hstr : cfg.requirePeerAuth = true) {st' : System}
    (h : st.Isolated) (hs : Step cfg st st') : st'.Isolated := by
  cases hs with
  | reject hp | quicChallenge _ hp hr => exact h.setPhase (fun _ _ heq => by cases heq)
  | tcpClose hp | quicClose hp =>
    exact (h.call (fun _ _ => id) fun _ _ => id).setPhase (fun _ _ heq => by cases heq)
  | @tcpRegister c _ _ challenge fromId h' ev hp hr ha =>
    cases challenge with
    | none => simp [startSession, hstr] at ha
    | some ch =>
      simp only [startSession, hstr, Option.some.injEq, Prod.mk.injEq] at ha
      obtain ⟨rfl, rfl⟩ := ha
      exact h.setPhase (fun _ _ heq hpend => by cases heq; cases hpend)
  | @tcpFrame c h₀ h' sess headB rest _ hdr ev hp hu hi =>
    obtain ⟨hid, hcase⟩ := iterate_again hi
    refine (h.proveIf c h₀.fromId _).tcpTurn ?_ sess ev
    rw [hid]
    unfold proveIf
    rcases hcase with hpro | hpend | hlen
    · rw [if_pos hpro]
      exact .head _
    · split
      · exact .head _
      · exact h.tcp c h₀ sess hp hpend
    · rw [hstr] at hlen
      cases hlen
  | quicRegister hlen hp hr =>
    rw [hstr] at hlen
    cases hlen
  | @quicProof c _ _ ch fromId hp hr =>
    have hprov : (st.prove c fromId).Isolated := h.proveIf c fromId true
    have hreg := hprov.toTablesOk.registerQUICVerified (.head _)
    have hph := Isolated.setPhase ⟨hreg, hprov.tcp⟩ (c := c)
      (p := .quicControl fromId none (some st.routing.mgr.heap.length))
      (fun _ _ heq => by cases heq)
    exact ⟨hph.toTablesOk.setDatagrams c (fun _ hid => by cases hid; exact .head _),
      hph.tcp⟩
  | quicControl hp hc => exact h
  | @quicVerified c rest _ hdr fromId pending sess hp hc =>
    exact ((h.proveIf c fromId _).call (fun _ _ => id) fun _ _ => id).setPhase
      (fun _ _ heq => by cases heq)
  | @datagram c fromId toID data frame hd hr =>
    exact ⟨h.toTablesOk.startRelay (h.datagrams c fromId hd) toID frame, h.tcp⟩
  | @datagramEnd c fromId hd =>
    exact ⟨h.toTablesOk.setDatagrams c (fun _ hid => by cases hid), h.tcp⟩
  | deliver hr => exact ⟨h.toTablesOk.deliver hr, h.tcp⟩
  | resume i => exact h.call (fun _ _ => id) fun _ _ => id

/-- **Strict-mode isolation**, whatever the connections send. -/
theorem strict_isolation (cfg : ServerConfig) (hstrict : cfg.requirePeerAuth = true) {st : System}
    (h : (system cfg).Reachable st) :
    (∀ d ∈ st.delivered, (d.conn, d.toID) ∈ st.proved ∧ (d.src, d.fromId) ∈ st.proved) ∧
      ∀ r ∈ st.inFlight, (r.src, r.fromId) ∈ st.proved := by
  have hinv : st.Isolated := by
    refine h.invariant ?_ ?_
    · rintro st rfl
      exact isolated_start cfg
    · intro st _ st' _ ih hs
      exact isolated_step hstrict ih hs
  exact ⟨fun d hd => (hinv.delivered d hd).symm, fun r hr => (hinv.inFlight r hr).src⟩

def strictServer : ServerConfig := ⟨[], true, fun _ _ => .ok (List.replicate keySize 1)⟩

def registerBytes (id : UInt32) : List UInt8 := (⟨0, 0, Cmd.register, id, 0⟩ : Header).marshal

def responseHeader : Header := ⟨1, 64, Cmd.authResponse, 0, 0⟩

def responsePayload (id : UInt8) : List UInt8 :=
  [0, 0, 0, 0, 0, 0, 0, id] ++ List.replicate 24 0 ++ List.replicate keySize 1

def forwardHeader : Header := ⟨2, 1, Cmd.forward, 9, 0⟩

theorem strict_isolation_forward :
    ∃ st : System, strictServer.requirePeerAuth = true ∧ (system strictServer).Reachable st ∧
      st.delivered.map (fun d => (d.src, d.toID, d.conn)) = [(1, 9, 0)] ∧
      (∀ d ∈ st.delivered, (d.conn, d.toID) ∈ st.proved ∧ (d.src, d.fromId) ∈ st.proved) ∧
      ∀ r ∈ st.inFlight, (r.src, r.fromId) ∈ st.proved := by
  have hreg9 : readRegister strictServer (registerBytes 9) = some (9, []) := by decide +kernel
  have hreg5 : readRegister strictServer (registerBytes 5) = some (5, []) := by decide +kernel
  have haut : readAuthResponse strictServer 9 (some ⟨[]⟩)
      (responseHeader.marshal ++ responsePayload 9) = .ok [] := by decide +kernel
  have hadm : startSession strictServer 5 (some ⟨[]⟩) = some (⟨5, some ⟨[]⟩, false⟩, []) := rfl
  have hresp : unmarshal responseHeader.marshal = .ok responseHeader := by decide +kernel
  have hauth : iterate strictServer ⟨5, some ⟨[]⟩, false⟩ responseHeader.marshal responseHeader
      (responsePayload 5) = .again ⟨5, none, true⟩ [] [.register true] := by decide +kernel
  have hfwd : unmarshal forwardHeader.marshal = .ok forwardHeader := by decide +kernel
  have hsend : iterate strictServer ⟨5, none, true⟩ forwardHeader.marshal forwardHeader [0xAA] =
      .again ⟨5, none, true⟩ [] [.relay 9 [2, 0, 1, 0, 0, 0, 2, 5, 0, 0, 0, 0, 0xAA]] := by
    decide +kernel
  have h1 : (system strictServer).Reachable
      ((start strictServer).setPhase 0 (.quicAuth 9 ⟨[]⟩)) :=
    .step (l := ()) (.init rfl) (.quicChallenge rfl rfl hreg9)
  have h2 := h1.step (l := ()) (Step.quicProof (c := 0) rfl haut)
  have h3 := h2.step (l := ()) (Step.tcpRegister (c := 1) rfl hreg5 hadm)
  have h4 := h3.step (l := ()) (Step.tcpFrame (c := 1) rfl hresp hauth)
  have h5 := h4.step (l := ()) (Step.tcpFrame (c := 1) rfl hfwd hsend)
  have h6 := h5.step (l := ()) (Step.deliver (.head _))
  exact ⟨_, rfl, h6, by decide +kernel, strict_isolation strictServer rfl h6⟩

end System

end LatticeMesh.Relay
