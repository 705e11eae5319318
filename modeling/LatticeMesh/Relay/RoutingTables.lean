import LatticeMesh.Lib.LTS
import LatticeMesh.Relay.SessionManager

/-! # Do the two routing tables agree? -/

namespace LatticeMesh.Relay

open List SessionManager

inductive Micro where
  | shutdown (r : SessionRef)
  | markVerified (id : UInt64) (s : SessionRef)

def Micro.exec (m : SessionManager) : Micro → SessionManager
  | .shutdown r => m.shutdown r
  | .markVerified id s => m.markVerified id (some s)

inductive Call where
  | newTCPSession (id : UInt64) (stream : Stream) (verified : Bool)
  | register (id : UInt64) (s : Option SessionRef)
  | unregister (id : UInt64) (s : Option SessionRef)
  | registerQUIC (id : UInt64) (ctrl : Stream) (conn : Option ConnRef)
  | registerQUICVerified (id : UInt64) (ctrl : Stream) (conn : Option ConnRef)
  | markVerified (id : UInt64) (s : Option SessionRef)
  | resume (i : Nat)

structure Routing where
  mgr : SessionManager
  log : List (UInt64 × SessionRef × Option ConnRef)
  calls : List (List Micro)

namespace Routing

def start (requirePeerAuth : Bool) : Routing := ⟨.new requirePeerAuth, [], []⟩

def shutdownOld (old : Option SessionRef) : List Micro := old.toList.map .shutdown

def registered (st : Routing) (id : UInt64) (ctrl : Stream) (conn : Option ConnRef)
    (rest : SessionRef → List Micro) : Routing :=
  let (m, s, old) := st.mgr.registerQUIC id ctrl conn
  ⟨m, (id, s, conn) :: st.log, st.calls ++ [shutdownOld old ++ rest s]⟩

def exec (st : Routing) : Call → Routing
  | .newTCPSession id stream verified =>
    let (m, s) := st.mgr.newTCPSession id stream
    { st with mgr := if verified then m.modify s fun s => { s with verified := true } else m }
  | .register id s =>
    let (m, old) := st.mgr.register id s
    { st with mgr := m, calls := st.calls ++ [shutdownOld old] }
  | .unregister id s => { st with mgr := st.mgr.unregister id s }
  | .registerQUIC id ctrl conn => st.registered id ctrl conn fun _ => []
  | .registerQUICVerified id ctrl conn =>
    st.registered id ctrl conn fun s => [.markVerified id s]
  | .markVerified id s => { st with mgr := st.mgr.markVerified id s }
  | .resume i =>
    match st.calls[i]? with
    | some (a :: rest) => { st with mgr := a.exec st.mgr, calls := st.calls.set i rest }
    | _ => st

def Enabled (st : Routing) : Call → Prop
  | .register _ s | .unregister _ s | .markVerified _ s => ∀ r ∈ s, r < st.mgr.heap.length
  | _ => True

def system : LTS Routing Call where
  init st := ∃ requirePeerAuth, st = start requirePeerAuth
  step st c st' := st.Enabled c ∧ st' = st.exec c

def Agree (st : Routing) : Prop :=
  ∀ id conn, st.mgr.quicConns.get id = some conn ↔
    ∃ s, st.mgr.owner id = some s ∧ (id, s, conn) ∈ st.log

def HandsToOwner (st : Routing) (id : UInt64) : Prop :=
  match st.mgr.relay id with
  | .datagram conn => ∃ s, st.mgr.owner id = some s ∧ (id, s, some conn) ∈ st.log
  | .enqueue s => st.mgr.owner id = some s
  | .notFound =>
    ∀ s, st.mgr.owner id = some s → st.mgr.requirePeerAuth = true ∧ st.mgr.verified s = false

def Fits (st : Routing) : Call → Prop
  | .register id s =>
    match st.mgr.quicConns.get id with
    | none => ∀ r ∈ s, ∀ conn, (id, r, conn) ∉ st.log
    | some conn => ∃ r ∈ s, (id, r, conn) ∈ st.log
  | _ => True

structure LogOk (st : Routing) : Prop where
  allocated : ∀ e ∈ st.log, e.2.1 < st.mgr.heap.length
  unique : ∀ e ∈ st.log, ∀ e' ∈ st.log, e.2.1 = e'.2.1 → e = e'

theorem micro_exec_maps (m : SessionManager) (a : Micro) :
    (∀ id, (a.exec m).owner id = m.owner id) ∧ (a.exec m).quicConns = m.quicConns ∧
      (a.exec m).heap.length = m.heap.length := by
  cases a <;> simp [Micro.exec, SessionManager.shutdown]

variable {st : Routing}

theorem Agree.congr {st' : Routing} (h : st.Agree) (hown : ∀ id, st'.mgr.owner id = st.mgr.owner id)
    (hconn : st'.mgr.quicConns = st.mgr.quicConns) (hlog : st'.log = st.log) : st'.Agree := by
  intro id conn
  rw [hown, hconn, hlog]
  exact h id conn

theorem agree_register_iff (h : st.Agree) (hlog : st.LogOk) (id : UInt64) (s : Option SessionRef) :
    (st.exec (.register id s)).Agree ↔ st.Fits (.register id s) := by
  simp only [Agree, exec, Fits, owner_register, quicConns_register]
  constructor
  · intro h'
    have hid := h' id
    simp only [if_pos] at hid
    split
    · next hnone =>
      intro r hr conn hmem
      have hget := (hid conn).2 ⟨r, hr, hmem⟩
      rw [hnone] at hget
      cases hget
    · next conn hsome => exact (hid conn).1 hsome
  intro hfits j conn
  by_cases hj : j = id
  · subst hj
    simp only [if_pos]
    constructor
    · intro hget
      rw [hget] at hfits
      exact hfits
    rintro ⟨r, rfl, hmem⟩
    split at hfits
    · exact absurd hmem (hfits r rfl conn)
    next conn' hsome =>
    obtain ⟨r', hr', hmem'⟩ := hfits
    cases hr'
    have heq := hlog.unique _ hmem _ hmem' rfl
    simp only [Prod.mk.injEq, true_and] at heq
    rw [hsome, heq]
  · simp only [if_neg hj]
    exact h j conn

theorem agree_registered (h : st.Agree) (hlog : st.LogOk) (id : UInt64) (ctrl : Stream)
    (conn : Option ConnRef) (rest : SessionRef → List Micro) :
    (st.registered id ctrl conn rest).Agree := by
  intro j c
  simp only [registered, owner_registerQUIC, quicConns_registerQUIC,
    registerQUIC_ref, GoMap.get_set, mem_cons]
  by_cases hj : j = id
  · subst hj
    simp only [if_pos, Option.some.injEq]
    constructor
    · rintro rfl
      exact ⟨_, rfl, .inl rfl⟩
    rintro ⟨s, rfl, hmem | hmem⟩
    · simp only [Prod.mk.injEq, true_and] at hmem
      exact hmem.symm
    · exact absurd (hlog.allocated _ hmem) (Nat.lt_irrefl _)
  · simp only [Prod.mk.injEq, hj, if_false, false_and, false_or]
    exact h j c

theorem agree_unregister (h : st.Agree) (id : UInt64) (s : Option SessionRef) :
    (st.exec (.unregister id s)).Agree := by
  simp only [exec]
  rcases unregister_cases st.mgr id s with heq | ⟨r, -, -, heq⟩
  · rw [heq]
    exact h
  rw [heq]
  intro j conn
  simp only [SessionManager.shutdown, quicConns_modify, SessionManager.owner,
    sessions_modify, GoMap.get_delete]
  by_cases hj : j = id
  · simp [hj]
  · simp only [if_neg hj]
    exact h j conn

theorem logOk_registered (h : st.LogOk) (id : UInt64) (ctrl : Stream) (conn : Option ConnRef)
    (rest : SessionRef → List Micro) :
    (st.registered id ctrl conn rest).LogOk where
  allocated := by
    simp only [registered, heap_registerQUIC, registerQUIC_ref,
      forall_mem_cons, length_append, length_singleton]
    exact ⟨Nat.lt_succ_self _, fun e he => Nat.lt_succ_of_lt (h.allocated e he)⟩
  unique := by
    simp only [registered, registerQUIC_ref, forall_mem_cons]
    refine ⟨⟨fun _ => trivial, fun e he heq => ?_⟩, fun e he => ⟨fun heq => ?_, h.unique e he⟩⟩
    · exact absurd (h.allocated e he) (by simp [← heq])
    · exact absurd (h.allocated e he) (by simp [heq])

theorem LogOk.mono {st' : Routing} (h : st.LogOk) (hlog : st'.log = st.log)
    (hheap : st.mgr.heap.length ≤ st'.mgr.heap.length) : st'.LogOk where
  allocated e he := Nat.lt_of_lt_of_le (h.allocated e (hlog ▸ he)) hheap
  unique := hlog ▸ h.unique

theorem logOk_exec (h : st.LogOk) (c : Call) : (st.exec c).LogOk := by
  cases c with
  | newTCPSession id stream verified =>
    refine h.mono rfl ?_
    cases verified <;> simp [exec, SessionManager.newTCPSession, SessionManager.alloc]
  | register id s => exact h.mono rfl le_rfl
  | unregister id s =>
    refine h.mono rfl ?_
    simp only [exec]
    rcases unregister_cases st.mgr id s with heq | ⟨r, -, -, heq⟩
    · rw [heq]
    · rw [heq]
      simp [SessionManager.shutdown]
  | registerQUIC id ctrl conn => exact logOk_registered h id ctrl conn fun _ => []
  | registerQUICVerified id ctrl conn =>
    exact logOk_registered h id ctrl conn fun s => [.markVerified id s]
  | markVerified id s => exact h.mono rfl (by simp [exec])
  | resume i =>
    simp only [exec]
    split
    · next a rest _ => exact h.mono rfl (Nat.le_of_eq (micro_exec_maps st.mgr a).2.2.symm)
    · exact h

variable {c : Call}

theorem agree_exec (h : st.Agree) (hlog : st.LogOk) (hc : st.Fits c) :
    (st.exec c).Agree := by
  cases c with
  | newTCPSession id stream verified => cases verified <;> exact h
  | register id s => exact (agree_register_iff h hlog id s).2 hc
  | unregister id s => exact agree_unregister h id s
  | registerQUIC id ctrl conn | registerQUICVerified id ctrl conn =>
    exact agree_registered h hlog id ctrl conn _
  | markVerified id s => exact h.congr (by simp [exec]) (by simp [exec]) rfl
  | resume i =>
    simp only [exec]
    split
    · next a rest _ =>
      obtain ⟨hown, hconn, -⟩ := micro_exec_maps st.mgr a
      exact h.congr hown hconn rfl
    · exact h

def Installs (st : Routing) (id : UInt64) (r : SessionRef) : Call → Prop
  | .register j s => id = j ∧ s = some r
  | .registerQUIC j _ _ | .registerQUICVerified j _ _ => id = j ∧ r = st.mgr.heap.length
  | _ => False

def InstallsConn (id : UInt64) (conn : ConnRef) : Call → Prop
  | .registerQUIC j _ k | .registerQUICVerified j _ k => id = j ∧ k = some conn
  | _ => False

variable {id : UInt64} {r : SessionRef}

theorem owner_registered {j : UInt64} {ctrl : Stream} {conn : Option ConnRef}
    (rest : SessionRef → List Micro) (h : (st.registered id ctrl conn rest).mgr.owner j = some r) :
    st.mgr.owner j = some r ∨ j = id ∧ r = st.mgr.heap.length := by
  simp only [registered, owner_registerQUIC] at h
  split at h
  · next hj => exact .inr ⟨hj, (Option.some.inj h).symm⟩
  · exact .inl h

theorem owner_exec (h : (st.exec c).mgr.owner id = some r)
    :
    st.mgr.owner id = some r ∨ st.Installs id r c := by
  cases c with
  | newTCPSession j stream verified => cases verified <;> exact .inl h
  | register j s =>
    simp only [exec, owner_register] at h
    split at h
    · next hj => exact .inr ⟨hj, h⟩
    · exact .inl h
  | unregister j s =>
    simp only [exec] at h
    rcases unregister_cases st.mgr j s with heq | ⟨r', -, -, heq⟩
    · rw [heq] at h
      exact .inl h
    rw [heq] at h
    simp only [SessionManager.shutdown, SessionManager.owner, sessions_modify,
      GoMap.get_delete] at h
    split at h
    · cases h
    · exact .inl h
  | registerQUIC j ctrl conn => exact owner_registered (fun _ => []) h
  | registerQUICVerified j ctrl conn =>
    exact owner_registered (fun s => [.markVerified j s]) h
  | markVerified j s => exact .inl (by simpa [exec] using h)
  | resume i =>
    simp only [exec] at h
    split at h
    · next a rest _ => exact .inl (((micro_exec_maps st.mgr a).1 id).symm.trans h)
    · exact .inl h

theorem qconn_registered {j : UInt64} {ctrl : Stream} {k : Option ConnRef} {conn : ConnRef}
    (rest : SessionRef → List Micro) (h : (st.registered id ctrl k rest).mgr.qconn j = some conn) :
    st.mgr.qconn j = some conn ∨ j = id ∧ k = some conn := by
  simp only [registered, SessionManager.qconn, quicConns_registerQUIC,
    GoMap.get_set] at h
  split at h
  · next hj => exact .inr ⟨hj, h⟩
  · exact .inl h

theorem qconn_exec {conn : ConnRef} (h : (st.exec c).mgr.qconn id = some conn) :
    st.mgr.qconn id = some conn ∨ InstallsConn id conn c := by
  cases c with
  | newTCPSession j stream verified => cases verified <;> exact .inl h
  | register j s => exact .inl h
  | unregister j s =>
    simp only [exec] at h
    rcases unregister_cases st.mgr j s with heq | ⟨r', -, -, heq⟩
    · rw [heq] at h
      exact .inl h
    rw [heq] at h
    simp only [SessionManager.shutdown, SessionManager.qconn, quicConns_modify,
      GoMap.get_delete] at h
    split at h
    · cases h
    · exact .inl h
  | registerQUIC j ctrl k => exact qconn_registered (fun _ => []) h
  | registerQUICVerified j ctrl k =>
    exact qconn_registered (fun s => [.markVerified j s]) h
  | markVerified j s => exact .inl (by simpa [exec, SessionManager.qconn] using h)
  | resume i =>
    simp only [exec] at h
    split at h
    · next a rest _ =>
      rw [SessionManager.qconn, (micro_exec_maps st.mgr a).2.1] at h
      exact .inl h
    · exact .inl h

theorem stream_exec (st : Routing) (c : Call) {s : Session} (h : st.mgr.heap[r]? = some s) :
    ∃ s', (st.exec c).mgr.heap[r]? = some s' ∧ s'.stream = s.stream := by
  cases c with
  | newTCPSession j stream verified =>
    have ha := heap_alloc_of_some (x := ⟨j, stream, .tcp, false, false⟩) h
    cases verified with
    | false => exact ⟨s, ha, rfl⟩
    | true => exact stream_modify ha (fun _ => rfl)
  | register j s' => exact ⟨s, h, rfl⟩
  | unregister j s' =>
    simp only [exec]
    rcases unregister_cases st.mgr j s' with heq | ⟨r', -, -, heq⟩
    · rw [heq]
      exact ⟨s, h, rfl⟩
    · rw [heq]
      exact stream_modify h (fun _ => rfl)
  | registerQUIC j ctrl k | registerQUICVerified j ctrl k =>
    exact ⟨s, heap_alloc_of_some h, rfl⟩
  | markVerified j s' => exact stream_markVerified h j s'
  | resume i =>
    simp only [exec]
    split
    · next a rest _ =>
      cases a with
      | shutdown r' => exact stream_modify h (fun _ => rfl)
      | markVerified j s' => exact stream_markVerified h j (some s')
    · exact ⟨s, h, rfl⟩

theorem heap_newTCPSession (st : Routing) (id : UInt64) (stream : Stream) (verified : Bool) :
    (st.exec (.newTCPSession id stream verified)).mgr.heap[st.mgr.heap.length]? =
      some ⟨id, stream, .tcp, verified, false⟩ := by
  cases verified <;>
    simp [exec, SessionManager.newTCPSession, SessionManager.alloc, SessionManager.modify]

theorem heap_registered (st : Routing) (id : UInt64) (ctrl : Stream) (conn : Option ConnRef)
    (rest : SessionRef → List Micro) :
    (st.registered id ctrl conn rest).mgr.heap[st.mgr.heap.length]? =
      some ⟨id, ctrl, .quic, false, false⟩ := by
  simp [registered]

theorem logOk_of_reachable (h : system.Reachable st) : st.LogOk := by
  refine h.invariant ?_ ?_
  · rintro st ⟨b, rfl⟩
    exact ⟨by simp [start], by simp [start]⟩
  · rintro st c st' - ih ⟨-, rfl⟩
    exact logOk_exec ih c

theorem agree_of_reachable (h : (system.guard Fits).Reachable st) : st.Agree := by
  refine h.invariant ?_ ?_
  · rintro st ⟨b, rfl⟩
    simp [Agree, start]
  · rintro st c st' hr ih ⟨hfits, -, rfl⟩
    exact agree_exec ih (logOk_of_reachable hr.of_guard) hfits

theorem Agree.handsToOwner (h : st.Agree) (id : UInt64) : st.HandsToOwner id := by
  unfold HandsToOwner SessionManager.relay SessionManager.handoff SessionManager.snapshot
  cases hq : st.mgr.qconn id with
  | some conn => exact (h id (some conn)).1 (Option.join_eq_some_iff.1 hq)
  | none =>
    cases hs : st.mgr.owner id with
    | none => simp
    | some s =>
      cases hstr : st.mgr.requirePeerAuth <;> cases hver : st.mgr.verified s <;>
        simp [hver]

/-- **The tables agree in every run whose `Register` calls fit.** -/
theorem tables_agree_of_fits {st : Routing} (h : (system.guard Fits).Reachable st) :
    st.Agree ∧ ∀ id, st.HandsToOwner id :=
  ⟨agree_of_reachable h, fun id => (agree_of_reachable h).handsToOwner id⟩

theorem tables_agree_after_unregister :
    ∃ st : Routing, (system.guard Fits).Reachable st ∧ st.mgr.owner 42 = some 1 ∧
      st.mgr.quicConns.get 42 = none ∧ st.Agree ∧ ∀ id, st.HandsToOwner id := by
  have h1 : (system.guard Fits).Reachable
      ((start false).exec (.registerQUIC 42 (.quicControl 7) (some 7))) :=
    .step (l := Call.registerQUIC ..) (.init ⟨false, rfl⟩) ⟨trivial, trivial, rfl⟩
  have h2 := h1.step (l := Call.unregister 42 (some 0)) ⟨trivial, by rintro r ⟨⟩; decide, rfl⟩
  have h3 := h2.step (l := Call.newTCPSession 42 (.readWriter 8) false) ⟨trivial, trivial, rfl⟩
  have hnew : ∀ conn, ((42 : UInt64), 1, conn) ∉ [(42, 0, some 7)] := by simp
  have h4 := h3.step (l := Call.register 42 (some 1))
    ⟨by rintro r ⟨⟩; exact hnew, by rintro r ⟨⟩; decide, rfl⟩
  exact ⟨_, h4, rfl, rfl, tables_agree_of_fits h4⟩

theorem register_over_quic_diverges :
    ∃ st : Routing, system.Reachable st ∧ st.mgr.owner 42 = some 1 ∧
      st.mgr.heap[1]?.map Session.stream = some (.readWriter 8) ∧
      st.mgr.relay 42 = .datagram 7 ∧ ¬ st.Agree ∧ ¬ st.HandsToOwner 42 := by
  have h1 : system.Reachable
      ((start false).exec (.registerQUIC 42 (.quicControl 7) (some 7))) :=
    .step (l := Call.registerQUIC ..) (.init ⟨false, rfl⟩) ⟨trivial, rfl⟩
  have h2 := h1.step (l := Call.newTCPSession 42 (.readWriter 8) false) ⟨trivial, rfl⟩
  have h3 := h2.step (l := Call.register 42 (some 1)) ⟨by rintro r ⟨⟩; decide, rfl⟩
  have hlog : ∀ conn, ¬ ∃ s, some 1 = some s ∧ ((42 : UInt64), s, conn) ∈ [(42, 0, some 7)] := by
    rintro conn ⟨s, hs, hmem⟩
    cases hs
    simp at hmem
  refine ⟨_, h3, rfl, rfl, rfl, fun h => ?_, fun h => ?_⟩
  · exact hlog _ ((h 42 (some 7)).1 rfl)
  · exact hlog _ h

end Routing

end LatticeMesh.Relay
