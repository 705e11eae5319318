import LatticeMesh.Lib.GoMap

/-! # The session table of the relay -/

namespace LatticeMesh.Relay

abbrev ConnRef := Nat

abbrev SessionRef := Nat

inductive Stream where
  | readWriter (conn : ConnRef)
  | quicControl (conn : ConnRef)

inductive SessionType where
  | tcp
  | quic

structure Session where
  id : UInt64
  stream : Stream
  type : SessionType
  verified : Bool
  closed : Bool

structure SessionManager where
  sessions : GoMap UInt64 (Option SessionRef)
  quicConns : GoMap UInt64 (Option ConnRef)
  requirePeerAuth : Bool
  heap : List Session

namespace SessionManager

variable (m : SessionManager)

def new (requirePeerAuth : Bool) : SessionManager where
  sessions := .empty
  quicConns := .empty
  requirePeerAuth := requirePeerAuth
  heap := []

def owner (id : UInt64) : Option SessionRef := (m.sessions.get id).join

def qconn (id : UInt64) : Option ConnRef := (m.quicConns.get id).join

def alloc (s : Session) : SessionManager × SessionRef :=
  ({ m with heap := m.heap ++ [s] }, m.heap.length)

def newTCPSession (id : UInt64) (stream : Stream) : SessionManager × SessionRef :=
  m.alloc ⟨id, stream, .tcp, false, false⟩

def modify (r : SessionRef) (f : Session → Session) : SessionManager :=
  { m with heap := m.heap.modify r f }

def shutdown (r : SessionRef) : SessionManager := m.modify r fun s => { s with closed := true }

def replaced (id : UInt64) (s : Option SessionRef) : Option SessionRef :=
  if m.owner id ≠ none ∧ m.owner id ≠ s then m.owner id else none

def register (id : UInt64) (s : Option SessionRef) : SessionManager × Option SessionRef :=
  ({ m with sessions := m.sessions.set id s }, m.replaced id s)

def unregister (id : UInt64) (s : Option SessionRef) : SessionManager :=
  match s with
  | none => m
  | some r =>
    if m.owner id ≠ some r then m
    else
      { m with sessions := m.sessions.delete id, quicConns := m.quicConns.delete id }.shutdown r

def registerQUIC (id : UInt64) (ctrl : Stream) (conn : Option ConnRef) :
    SessionManager × SessionRef × Option SessionRef :=
  let (m', s) := m.alloc ⟨id, ctrl, .quic, false, false⟩
  ({ m' with sessions := m'.sessions.set id (some s), quicConns := m'.quicConns.set id conn }, s,
    m.replaced id (some s))

def markVerified (id : UInt64) (s : Option SessionRef) : SessionManager :=
  match s with
  | none => m
  | some r => if m.owner id = some r then m.modify r fun s => { s with verified := true } else m

structure Snapshot where
  qconn : Option ConnRef
  session : Option SessionRef
  strict : Bool
  deriving DecidableEq

def snapshot (toID : UInt64) : Snapshot := ⟨m.qconn toID, m.owner toID, m.requirePeerAuth⟩

inductive Handoff where
  | datagram (conn : ConnRef)
  | enqueue (s : SessionRef)
  | notFound

def verified (r : SessionRef) : Bool := (m.heap[r]?.map Session.verified).getD false

def handoff (snap : Snapshot) : Handoff :=
  match snap.qconn, snap.session with
  | some conn, _ => .datagram conn
  | none, some s => if !snap.strict || m.verified s then .enqueue s else .notFound
  | none, none => .notFound

def relay (toID : UInt64) : Handoff := m.handoff (m.snapshot toID)

end SessionManager

namespace SessionManager

variable {m : SessionManager}

@[simp] theorem quicConns_new (b : Bool) : (new b).quicConns = .empty := rfl

@[simp] theorem sessions_modify (r : SessionRef) (f : Session → Session) :
    (m.modify r f).sessions = m.sessions := rfl

@[simp] theorem quicConns_modify (r : SessionRef) (f : Session → Session) :
    (m.modify r f).quicConns = m.quicConns := rfl

@[simp] theorem owner_modify (r : SessionRef) (f : Session → Session) (id : UInt64) :
    (m.modify r f).owner id = m.owner id := rfl

@[simp] theorem length_heap_modify (r : SessionRef) (f : Session → Session) :
    (m.modify r f).heap.length = m.heap.length := by
  simp [modify]

theorem owner_register (id j : UInt64) (s : Option SessionRef) :
    (m.register id s).1.owner j = if j = id then s else m.owner j := by
  simp only [owner, register, GoMap.get_set]
  split <;> rfl

@[simp] theorem quicConns_register (id : UInt64) (s : Option SessionRef) :
    (m.register id s).1.quicConns = m.quicConns := rfl

theorem owner_registerQUIC (id j : UInt64) (ctrl : Stream) (conn : Option ConnRef) :
    (m.registerQUIC id ctrl conn).1.owner j = if j = id then some m.heap.length else m.owner j := by
  simp only [owner, registerQUIC, alloc, GoMap.get_set]
  split <;> rfl

@[simp] theorem quicConns_registerQUIC (id : UInt64) (ctrl : Stream) (conn : Option ConnRef) :
    (m.registerQUIC id ctrl conn).1.quicConns = m.quicConns.set id conn := rfl

@[simp] theorem heap_registerQUIC (id : UInt64) (ctrl : Stream) (conn : Option ConnRef) :
    (m.registerQUIC id ctrl conn).1.heap = m.heap ++ [⟨id, ctrl, .quic, false, false⟩] := rfl

@[simp] theorem registerQUIC_ref (id : UInt64) (ctrl : Stream) (conn : Option ConnRef) :
    (m.registerQUIC id ctrl conn).2.1 = m.heap.length := rfl

@[simp] theorem owner_markVerified (id j : UInt64) (s : Option SessionRef) :
    (m.markVerified id s).owner j = m.owner j := by
  unfold markVerified
  split
  · rfl
  · split <;> rfl

@[simp] theorem quicConns_markVerified (id : UInt64) (s : Option SessionRef) :
    (m.markVerified id s).quicConns = m.quicConns := by
  unfold markVerified
  split
  · rfl
  · split <;> rfl

@[simp] theorem length_heap_markVerified (id : UInt64) (s : Option SessionRef) :
    (m.markVerified id s).heap.length = m.heap.length := by
  unfold markVerified
  split
  · rfl
  split
  · exact length_heap_modify _ _
  · rfl

theorem unregister_cases (m : SessionManager) (id : UInt64) (s : Option SessionRef) :
    m.unregister id s = m ∨
      ∃ r, s = some r ∧ m.owner id = some r ∧
        m.unregister id s =
          { m with sessions := m.sessions.delete id,
                   quicConns := m.quicConns.delete id }.shutdown r := by
  unfold unregister
  split
  · exact .inl rfl
  next r =>
  split
  · exact .inl rfl
  · next h => exact .inr ⟨r, rfl, not_not.1 h, rfl⟩

variable {r : SessionRef} {s : Session}

theorem heap_alloc_of_some {x : Session} (h : m.heap[r]? = some s) :
    (m.alloc x).1.heap[r]? = some s := by
  have hr : r < m.heap.length := (List.getElem?_eq_some_iff.1 h).1
  rw [← h]
  exact List.getElem?_append_left hr

theorem stream_modify {r' : SessionRef} {f : Session → Session} (h : m.heap[r]? = some s)
    (hf : ∀ x, (f x).stream = x.stream) :
    ∃ s', (m.modify r' f).heap[r]? = some s' ∧ s'.stream = s.stream := by
  simp only [modify, List.getElem?_modify, h]
  split
  · exact ⟨f s, rfl, hf s⟩
  · exact ⟨s, rfl, rfl⟩

theorem stream_markVerified (h : m.heap[r]? = some s) (id : UInt64) (r' : Option SessionRef) :
    ∃ s', (m.markVerified id r').heap[r]? = some s' ∧ s'.stream = s.stream := by
  unfold markVerified
  split
  · exact ⟨s, h, rfl⟩
  split
  · exact stream_modify h (fun _ => rfl)
  · exact ⟨s, h, rfl⟩

end SessionManager

end LatticeMesh.Relay
