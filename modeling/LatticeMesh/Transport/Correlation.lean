import LatticeMesh.Lib.LTS
import LatticeMesh.Transport.Signaling

/-! # Upgrade attempts and their packets -/

namespace LatticeMesh.Transport.Correlation

open Agent Signaling List Option

structure Received (α : Type) where
  value : α
  attempt : String
  deriving DecidableEq

structure IceAgent where
  ufrag : String
  pwd : String
  remote : List (Received String) := []
  dialed : Option (Received (String × String)) := none
  deriving DecidableEq

inductive SynCtx where
  | unset
  | live
  | cancelled
  deriving DecidableEq

structure Session where
  attemptID : String
  initiator : Bool
  agent : Option IceAgent := none
  credentials : Option (Received (String × String)) := none
  pendingCandidates : List (Received String) := []
  gatheredCandidates : List String := []
  gathered : Bool := false
  offerReady : Bool := false
  synCtx : SynCtx := .unset
  looping : Bool := false
  greeted : Bool := false
  closed : Bool := false
  reported : Bool := false
  deriving DecidableEq

def attempt (p : Packet) : String := (p.handshake.map (·.attemptID)).getD ""

namespace Session

variable (w : Wire) (localId : PeerIdentity) (env : Env)

def handshake (s : Session) (type : PacketType) : Packet where
  type := type
  dialer := .ice
  senderID := localId.id
  handshake := some ⟨⟨[], true⟩, env.now / second, s.attemptID⟩

def offers (s : Session) (c : String) : List Packet :=
  match s.agent with
  | none => []
  | some a =>
    if env.credentials then
      [⟨.offer, .ice, localId.id, none,
        some ⟨⟨[], s.attemptID⟩, a.ufrag, a.pwd, 0, c, "", w.keyText localId.publicKey⟩, none, none⟩]
    else []

def resendCandidates (s : Session) : List Packet :=
  s.gatheredCandidates.flatMap (s.offers w localId env)

def initAgent (s : Session) : Option Session :=
  match env.agent, s.agent with
  | none, _ => none
  | some _, some _ => some s
  | some (ufrag, pwd), none =>
    some { s with
      agent := some ⟨ufrag, pwd, if env.addsRemote then s.pendingCandidates else [], none⟩
      pendingCandidates := []
      offerReady := s.offerReady || !s.pendingCandidates.isEmpty }

def gather (s : Session) : Session × Bool :=
  if s.gathered then (s, true) else ({ s with gathered := true }, s.agent.isSome && env.gathers)

def addRemoteCandidate (s : Session) (offer : Signaling.Offer) : Session :=
  match w.unmarshalCandidate offer.candidate with
  | none => s
  | some c =>
    let s := if offer.ufrag ≠ "" ∧ s.credentials = none then
      { s with credentials := some ⟨(offer.ufrag, offer.pwd), offer.attemptID⟩ } else s
    match s.agent with
    | none => { s with pendingCandidates := s.pendingCandidates ++ [⟨c, offer.attemptID⟩] }
    | some a =>
      if env.addsRemote then
        { s with
          agent := some { a with remote := a.remote ++ [⟨c, offer.attemptID⟩] }
          offerReady := true }
      else s

def cancelSyn (s : Session) : Session :=
  if s.synCtx = .live then { s with synCtx := .cancelled } else s

def answer (s : Session) : Session × List Packet :=
  let s' := (s.gather env).1
  (s', s.handshake localId env .handshakeAck :: s'.resendCandidates w localId env)

def handle (s : Session) (p : Packet) : Session × List Packet :=
  if s.closed then (s, [])
  else
    match p.type with
    | .handshakeSyn =>
      match s.agent with
      | some _ => s.answer w localId env
      | none =>
        match s.initAgent env with
        | none => (s, [])
        | some s' => s'.answer w localId env
    | .handshakeAck =>
      match s.cancelSyn.gather env with
      | (s', false) => (s', [])
      | (s', true) => (s', s'.resendCandidates w localId env)
    | .offer =>
      match p.offer with
      | none => (s, [])
      | some offer =>
        if offer.attemptID ≠ s.attemptID then (s, []) else (s.addRemoteCandidate w env offer, [])
    | _ => (s, [])

def launch (s : Session) : Option Session :=
  if s.initiator then
    match s.initAgent env with
    | none => none
    | some s' =>
      match s'.gather env with
      | (_, false) => none
      | (s'', true) => some { s'' with looping := true }
  else some s

def tick (s : Session) : Option (Session × List Packet) :=
  if s.looping ∧ (s.greeted = false ∨ (s.synCtx = .live ∧ s.closed = false)) then
    some ({ s with greeted := true }, [s.handshake localId env .handshakeSyn])
  else none

def dial (s : Session) : Session :=
  match s.offerReady, s.agent with
  | true, some a => { s with agent := some { a with dialed := s.credentials } }
  | _, _ => s

def close (s : Session) : Session := { s.cancelSyn with closed := true }

end Session

inductive Job where
  | adopt (id : String) (p : Option Packet)
  | start (i : Nat) (p : Option Packet)
  | launch (i : Nat) (p : Option Packet)
  | handle (i : Nat) (p : Packet)
  deriving DecidableEq

structure Party where
  localId : PeerIdentity
  remoteId : PeerIdentity
  sessions : List Session := []
  shadow : Option Nat := none
  newShadow : Bool := true
  relayReady : Bool := false
  jobs : List Job := []

namespace Party

variable (w : Wire)

def isInitiator (q : Party) : Bool := q.remoteId.id < q.localId.id

def receive (q : Party) (p : Packet) : Party :=
  if p.type = .handshakeSyn ∧ q.newShadow ∧ q.relayReady then
    if attempt p = "" then q
    else
      match q.shadow with
      | some i => { q with jobs := q.jobs ++ [.handle i p] }
      | none => { q with jobs := q.jobs ++ [.adopt (attempt p) (some p)] }
  else
    match q.shadow with
    | some i => { q with jobs := q.jobs ++ [.handle i p] }
    | none => q

def report (q : Party) (i : Nat) (s : Session) : Party :=
  if s.reported then q
  else { q with sessions := q.sessions.set i { s with reported := true }, shadow := none }

def closeSession (q : Party) (i : Nat) (s : Session) : Party :=
  { q with sessions := q.sessions.set i s.close }.report i s.close

def adopt (q : Party) (id : String) (p : Option Packet) : Party :=
  let s : Session := { attemptID := id, initiator := q.isInitiator }
  match q.shadow with
  | none =>
    { q with
      sessions := q.sessions ++ [s]
      shadow := some q.sessions.length
      jobs := q.jobs ++ [.start q.sessions.length p] }
  | some _ => { q with sessions := q.sessions ++ [s] }.closeSession q.sessions.length s

def next (i : Nat) : Option Packet → List Job
  | none => []
  | some p => [.handle i p]

def runJob (q : Party) (env : Env) : Job → Option (Party × List Packet)
  | .adopt id p => some (q.adopt id p, [])
  | .start i p =>
    (q.sessions[i]?).map fun s =>
      ({ q with
          sessions := q.sessions.set i { s with synCtx := .live }
          jobs := q.jobs ++ [.launch i p] }, [])
  | .launch i p =>
    (q.sessions[i]?).map fun s =>
      match s.launch env with
      | none => ({ q.closeSession i s with jobs := q.jobs ++ next i p }, [])
      | some s' => ({ q with sessions := q.sessions.set i s', jobs := q.jobs ++ next i p }, [])
  | .handle i p =>
    (q.sessions[i]?).map fun s =>
      let out := s.handle w q.localId env p
      ({ q with sessions := q.sessions.set i out.1 }, out.2)

end Party

inductive Move where
  | relayReady (b : Bool)
  | noShadows
  | beginAttempt (id : String)
  | run (j : Nat) (env : Env)
  | tick (i : Nat) (env : Env)
  | candidate (i : Nat) (c : String) (env : Env)
  | dial (i : Nat)
  | succeed (i : Nat)
  | close (i : Nat)
  | cancelShadow
  | receive (p : Packet)

namespace Party

variable (w : Wire)

def move (q : Party) : Move → Option (Party × List Packet)
  | .relayReady b => some ({ q with relayReady := b }, [])
  | .noShadows => some ({ q with newShadow := false }, [])
  | .beginAttempt id =>
    if q.newShadow && q.isInitiator then
      some ({ q with jobs := q.jobs ++ [.adopt id none] }, [])
    else none
  | .run j env =>
    (q.jobs[j]?).bind fun job => { q with jobs := q.jobs.eraseIdx j }.runJob w env job
  | .tick i env =>
    (q.sessions[i]?).bind fun s =>
      (s.tick q.localId env).map fun out =>
        ({ q with sessions := q.sessions.set i out.1 }, out.2)
  | .candidate i c env =>
    (q.sessions[i]?).bind fun s =>
      if s.gathered ∧ s.agent ≠ none then
        let s := { s with gatheredCandidates := s.gatheredCandidates ++ [c] }
        some ({ q with sessions := q.sessions.set i s }, s.offers w q.localId env c)
      else none
  | .dial i => (q.sessions[i]?).map fun s => ({ q with sessions := q.sessions.set i s.dial }, [])
  | .succeed i => (q.sessions[i]?).map fun s => (q.report i s, [])
  | .close i => (q.sessions[i]?).map fun s => (q.closeSession i s, [])
  | .cancelShadow =>
    q.shadow.bind fun i =>
      (q.sessions[i]?).map fun s => ({ q with shadow := none }.closeSession i s, [])
  | .receive p => some (q.receive p, [])

end Party

structure World where
  party : Bool → Party
  inbox : Bool → List Packet

namespace World

variable (w : Wire)

def new (a b : PeerIdentity) : World where
  party
    | false => { localId := a, remoteId := b }
    | true => { localId := b, remoteId := a }
  inbox _ := []

def sent (x : World) (side : Bool) : Move → Bool
  | .receive p => p ∈ x.inbox side
  | _ => true

def exec (x : World) (side : Bool) (m : Move) : Option World :=
  if x.sent side m then
    ((x.party side).move w m).map fun out =>
      { party := Function.update x.party side out.1
        inbox := Function.update x.inbox (!side) (x.inbox (!side) ++ out.2) }
  else none

def execs (x : World) : List (Bool × Move) → Option World
  | [] => some x
  | (side, m) :: rest => (x.exec w side m).bind fun y => execs y rest

end World

def system (w : Wire) : LTS World (Bool × Move) where
  init x := ∃ a b, x = .new a b
  step x m y := x.exec w m.1 m.2 = some y

variable {x : World}

theorem reachable_execs {w : Wire} {y : World} (h : (system w).Reachable x)
    {moves : List (Bool × Move)} (hy : x.execs w moves = some y) : (system w).Reachable y := by
  induction moves generalizing x with
  | nil => exact Option.some.inj hy ▸ h
  | cons m rest ih =>
    obtain ⟨z, hz, hrest⟩ := bind_eq_some_iff.1 hy
    exact ih (h.step (l := m) hz) hrest

theorem reachable_any {w : Wire} (h : (system w).Reachable x) (moves : List (Bool × Move))
    {P : World → Prop} [DecidablePred P] (hP : (x.execs w moves).any (fun y => decide (P y)) = true) :
    ∃ y, (system w).Reachable y ∧ P y := by
  obtain ⟨hsome, hget⟩ := (any_eq_true_iff_get _ _).1 hP
  exact ⟨_, reachable_execs h (some_get hsome).symm, of_decide_eq_true hget⟩

structure Session.Own (s : Session) : Prop where
  pending : ∀ r ∈ s.pendingCandidates, r.attempt = s.attemptID
  credentials : ∀ r ∈ s.credentials, r.attempt = s.attemptID
  remote : ∀ a ∈ s.agent, ∀ r ∈ a.remote, r.attempt = s.attemptID
  dialed : ∀ a ∈ s.agent, ∀ r ∈ a.dialed, r.attempt = s.attemptID

namespace Session

variable {w : Wire} {localId : PeerIdentity} {env : Env} {s s' : Session}

theorem Own.new (id : String) (initiator : Bool) : Own { attemptID := id, initiator } :=
  ⟨by simp, by simp, by simp, by simp⟩

theorem Own.congr (h : s.Own) (hid : s'.attemptID = s.attemptID) (hage : s'.agent = s.agent)
    (hcred : s'.credentials = s.credentials)
    (hpend : s'.pendingCandidates = s.pendingCandidates) : s'.Own where
  pending := by rw [hpend, hid]; exact h.pending
  credentials := by rw [hcred, hid]; exact h.credentials
  remote := by rw [hage, hid]; exact h.remote
  dialed := by rw [hage, hid]; exact h.dialed

theorem initAgent_cases (h : s.initAgent env = some s') : s' = s ∨
    ∃ ufrag pwd, s.agent = none ∧ s' = { s with
      agent := some ⟨ufrag, pwd, if env.addsRemote then s.pendingCandidates else [], none⟩
      pendingCandidates := []
      offerReady := s.offerReady || !s.pendingCandidates.isEmpty } := by
  unfold initAgent at h
  split at h
  · cases h
  · exact .inl (Option.some.inj h).symm
  · next ufrag pwd _ hnone => exact .inr ⟨ufrag, pwd, hnone, (Option.some.inj h).symm⟩

theorem Own.initAgent (h : s.Own) (hs : s.initAgent env = some s') : s'.Own := by
  obtain rfl | ⟨ufrag, pwd, -, rfl⟩ := initAgent_cases hs
  · exact h
  refine ⟨by simp, h.credentials, ?_, ?_⟩
  · intro a ha r hr
    cases ha
    dsimp only at hr
    split at hr
    · exact h.pending r hr
    · cases hr
  intro a ha r hr
  cases ha
  cases hr

theorem Own.gather (h : s.Own) : (s.gather env).1.Own := by
  unfold Session.gather
  split
  · exact h
  · exact h.congr rfl rfl rfl rfl

theorem Own.cancelSyn (h : s.Own) : s.cancelSyn.Own := by
  unfold Session.cancelSyn
  split
  · exact h.congr rfl rfl rfl rfl
  · exact h

theorem Own.addRemoteCandidate (h : s.Own) {offer : Signaling.Offer}
    (hoff : offer.attemptID = s.attemptID) : (s.addRemoteCandidate w env offer).Own := by
  unfold Session.addRemoteCandidate
  split
  · exact h
  next c _ =>
  have hcred : ∀ t : Session, t = (if offer.ufrag ≠ "" ∧ s.credentials = none then
      { s with credentials := some ⟨(offer.ufrag, offer.pwd), offer.attemptID⟩ } else s) →
      t.Own ∧ t.attemptID = s.attemptID := by
    rintro t rfl
    split
    · refine ⟨⟨h.pending, ?_, h.remote, h.dialed⟩, rfl⟩
      intro r hr
      cases hr
      exact hoff
    · exact ⟨h, rfl⟩
  generalize hgen : (if offer.ufrag ≠ "" ∧ s.credentials = none then
      { s with credentials := some ⟨(offer.ufrag, offer.pwd), offer.attemptID⟩ } else s) = t
  obtain ⟨ht, hid⟩ := hcred t hgen.symm
  have hnew : ∀ {rs : List (Received String)}, (∀ r ∈ rs, r.attempt = t.attemptID) →
      ∀ r ∈ rs ++ [(⟨c, offer.attemptID⟩ : Received String)], r.attempt = t.attemptID := by
    intro rs hrs r hr
    obtain hr | hr := mem_append.1 hr
    · exact hrs r hr
    · rw [mem_singleton.1 hr, hid]
      exact hoff
  dsimp only
  split
  · exact ⟨hnew ht.pending, ht.credentials, ht.remote, ht.dialed⟩
  next a ha =>
  split
  · refine ⟨ht.pending, ht.credentials, ?_, ?_⟩
    · intro b hb
      cases hb
      exact hnew (ht.remote a ha)
    intro b hb
    cases hb
    exact ht.dialed a ha
  · exact ht

theorem Own.handle (h : s.Own) (p : Packet) : (s.handle w localId env p).1.Own := by
  unfold Session.handle
  split
  · exact h
  split
  · split
    · exact h.gather
    split
    · exact h
    · next hs' => exact (h.initAgent hs').gather
  · have hg : (s.cancelSyn.gather env).1.Own := h.cancelSyn.gather
    split
    · next hs' => rw [hs'] at hg; exact hg
    · next hs' => rw [hs'] at hg; exact hg
  · split
    · exact h
    split
    · exact h
    · next hoff => exact h.addRemoteCandidate (not_not.1 hoff)
  · exact h

theorem Own.launch (h : s.Own) (hs : s.launch env = some s') : s'.Own := by
  unfold Session.launch at hs
  split at hs
  · split at hs
    · cases hs
    next t ht =>
    have hg : (t.gather env).1.Own := (h.initAgent ht).gather
    split at hs
    · cases hs
    next u hu =>
    rw [hu] at hg
    exact Option.some.inj hs ▸ hg.congr rfl rfl rfl rfl
  · exact Option.some.inj hs ▸ h

theorem Own.dial (h : s.Own) : s.dial.Own := by
  unfold Session.dial
  split
  · next a _ ha =>
    refine ⟨h.pending, h.credentials, ?_, ?_⟩
    · intro b hb
      cases hb
      exact h.remote a ha
    intro b hb
    cases hb
    exact h.credentials
  · exact h

theorem Own.close (h : s.Own) : s.close.Own := h.cancelSyn.congr rfl rfl rfl rfl

theorem Own.tick (h : s.Own) {out : Session × List Packet}
    (hout : s.tick localId env = some out) : out.1.Own := by
  unfold Session.tick at hout
  split at hout
  · exact Option.some.inj hout ▸ h.congr rfl rfl rfl rfl
  · cases hout

end Session

def Party.Own (q : Party) : Prop := ∀ s ∈ q.sessions, s.Own

namespace Party

variable {w : Wire} {q q' : Party} {env : Env}

theorem own_set (h : q.Own) {s : Session} (hs : s.Own) (i : ℕ) :
    ∀ t ∈ q.sessions.set i s, t.Own := by
  intro t ht
  obtain ht | rfl := mem_or_eq_of_mem_set ht
  · exact h t ht
  · exact hs

theorem own_get (h : q.Own) {i : ℕ} {s : Session} (hs : q.sessions[i]? = some s) : s.Own :=
  h s (mem_of_getElem? hs)

theorem Own.report (h : q.Own) {s : Session} (hs : s.Own) (i : ℕ) : (q.report i s).Own := by
  unfold Party.report
  split
  · exact h
  · exact own_set h (s := { s with reported := true }) (hs.congr rfl rfl rfl rfl) i

theorem Own.closeSession (h : q.Own) {s : Session} (hs : s.Own) (i : ℕ) :
    (q.closeSession i s).Own :=
  Own.report (q := { q with sessions := q.sessions.set i s.close }) (own_set h hs.close i) hs.close i

theorem Own.adopt (h : q.Own) (id : String) (p : Option Packet) : (q.adopt id p).Own := by
  have hnew : ∀ s ∈ q.sessions ++ [{ attemptID := id, initiator := q.isInitiator }], s.Own := by
    intro s hs
    obtain hs | hs := mem_append.1 hs
    · exact h s hs
    · exact mem_singleton.1 hs ▸ .new id _
  unfold Party.adopt
  dsimp only
  split
  · exact hnew
  · exact Own.closeSession (q := { q with sessions := _ }) hnew (.new id _) _

theorem Own.runJob (h : q.Own) {job : Job} {out : Party × List Packet}
    (hout : q.runJob w env job = some out) : out.1.Own := by
  cases job with
  | adopt id p => exact Option.some.inj hout ▸ h.adopt id p
  | start i p =>
    obtain ⟨s, hs, rfl⟩ := map_eq_some_iff.1 hout
    have hlive : Session.Own { s with synCtx := .live } := (own_get h hs).congr rfl rfl rfl rfl
    exact own_set h hlive i
  | launch i p =>
    obtain ⟨s, hs, rfl⟩ := map_eq_some_iff.1 hout
    dsimp only
    split
    · exact h.closeSession (own_get h hs) i
    · next hs' => exact own_set h ((own_get h hs).launch hs') i
  | handle i p =>
    obtain ⟨s, hs, rfl⟩ := map_eq_some_iff.1 hout
    exact own_set h ((own_get h hs).handle p) i

theorem Own.receive (h : q.Own) (p : Packet) : (q.receive p).Own := by
  unfold Party.receive
  (repeat' split) <;> exact h

theorem Own.move (h : q.Own) {m : Move} {out : Party × List Packet}
    (hout : q.move w m = some out) : out.1.Own := by
  cases m with
  | relayReady b | noShadows => exact Option.some.inj hout ▸ h
  | beginAttempt id =>
    simp only [Party.move] at hout
    split at hout
    · exact Option.some.inj hout ▸ h
    · cases hout
  | run j env =>
    obtain ⟨job, -, hjob⟩ := bind_eq_some_iff.1 hout
    exact Own.runJob (q := { q with jobs := q.jobs.eraseIdx j }) h hjob
  | tick i env =>
    obtain ⟨s, hs, htick⟩ := bind_eq_some_iff.1 hout
    obtain ⟨o, ho, rfl⟩ := map_eq_some_iff.1 htick
    exact own_set h ((own_get h hs).tick ho) i
  | candidate i c env =>
    obtain ⟨s, hs, hcand⟩ := bind_eq_some_iff.1 hout
    have hmore : Session.Own { s with gatheredCandidates := s.gatheredCandidates ++ [c] } :=
      (own_get h hs).congr rfl rfl rfl rfl
    split at hcand
    · exact Option.some.inj hcand ▸ own_set h hmore i
    · cases hcand
  | dial i =>
    obtain ⟨s, hs, rfl⟩ := map_eq_some_iff.1 hout
    exact own_set h (own_get h hs).dial i
  | succeed i =>
    obtain ⟨s, hs, rfl⟩ := map_eq_some_iff.1 hout
    exact h.report (own_get h hs) i
  | close i =>
    obtain ⟨s, hs, rfl⟩ := map_eq_some_iff.1 hout
    exact h.closeSession (own_get h hs) i
  | cancelShadow =>
    obtain ⟨i, -, hclo⟩ := bind_eq_some_iff.1 hout
    obtain ⟨s, hs, rfl⟩ := map_eq_some_iff.1 hclo
    exact Own.closeSession (q := { q with shadow := none }) h (own_get h hs) i
  | receive p => exact Option.some.inj hout ▸ h.receive p

end Party

theorem own_reachable {w : Wire} (h : (system w).Reachable x) (side : Bool) :
    (x.party side).Own := by
  refine h.invariant (I := fun x => ∀ side, (x.party side).Own) ?_ ?_ side
  · rintro x ⟨a, b, rfl⟩ (_ | _) s hs <;> cases hs
  intro x m y _ hx hstep side
  have hexec : x.exec w m.1 m.2 = some y := hstep
  unfold World.exec at hexec
  split at hexec
  · obtain ⟨out, hout, rfl⟩ := map_eq_some_iff.1 hexec
    dsimp only
    by_cases hside : side = m.1
    · subst hside
      rw [Function.update_self]
      exact (hx _).move hout
    · rw [Function.update_of_ne hside]
      exact hx side
  · cases hexec

def Correlated (s : Session) (p : Packet) (out : Session × List Packet) : Prop :=
  (s.initiator = true → s.synCtx = .live → out.1.synCtx ≠ .live →
      p.type = .handshakeAck ∧ attempt p = s.attemptID) ∧
    ∀ q ∈ out.2, q.type = .handshakeAck → p.type = .handshakeSyn ∧ attempt q = attempt p

def InStep (s : Session) (p : Packet) : Prop :=
  s.closed = true ∨
    match p.type with
    | .handshakeSyn => attempt p = s.attemptID
    | .handshakeAck => s.initiator = true ∧ s.synCtx = .live → attempt p = s.attemptID
    | _ => True

namespace Session

variable {w : Wire} {localId : PeerIdentity} {env : Env} {s s' : Session}

theorem gather_fst : (s.gather env).1.synCtx = s.synCtx := by
  unfold gather
  split <;> rfl

theorem type_of_mem_resend {q : Packet} (h : q ∈ s.resendCandidates w localId env) :
    q.type = .offer := by
  obtain ⟨c, -, hq⟩ := mem_flatMap.1 h
  unfold offers at hq
  split at hq
  · cases hq
  split at hq
  · exact mem_singleton.1 hq ▸ rfl
  · cases hq

variable {p : Packet}

theorem answer_correlated (hs : s'.synCtx = s.synCtx) (hid : s'.attemptID = s.attemptID)
    (htype : p.type = .handshakeSyn) :
    Correlated s p (s'.answer w localId env) ↔ attempt p = s.attemptID := by
  constructor
  · intro h
    have hack := (h.2 (s'.handshake localId env .handshakeAck) mem_cons_self rfl).2
    rw [← hack, ← hid]
    rfl
  intro hp
  refine ⟨fun _ hlive hstop => ?_, ?_⟩
  · exact absurd (gather_fst.trans (hs.trans hlive)) hstop
  intro q hq hack
  obtain rfl | hq := mem_cons.1 hq
  · exact ⟨htype, hid.trans hp.symm⟩
  · cases (type_of_mem_resend hq).symm.trans hack

theorem initAgent_same (h : s.initAgent env = some s') :
    s'.synCtx = s.synCtx ∧ s'.attemptID = s.attemptID := by
  obtain rfl | ⟨ufrag, pwd, -, rfl⟩ := initAgent_cases h <;> exact ⟨rfl, rfl⟩

theorem correlated_silent (hs : s'.synCtx = s.synCtx) : Correlated s p (s', []) :=
  ⟨fun _ hlive hstop => absurd (hs.trans hlive) hstop, fun _ hq => nomatch hq⟩

theorem addRemoteCandidate_synCtx (offer : Signaling.Offer) :
    (s.addRemoteCandidate w env offer).synCtx = s.synCtx := by
  unfold addRemoteCandidate
  dsimp only
  (repeat' split) <;> rfl

theorem syn_correlated_iff (hopen : s.closed = false) (htype : p.type = .handshakeSyn) :
    (∀ env, Correlated s p (s.handle w localId env p)) ↔ attempt p = s.attemptID := by
  constructor
  · intro h
    have hgood := h goodEnv
    unfold handle at hgood
    simp only [hopen, htype, Bool.false_eq_true, if_false] at hgood
    split at hgood
    · exact (answer_correlated rfl rfl htype).1 hgood
    next hnone =>
    obtain ⟨s', hinit⟩ : ∃ s', s.initAgent goodEnv = some s' := by
      unfold initAgent
      rw [hnone]
      exact ⟨_, rfl⟩
    obtain ⟨hsyn, hid⟩ := initAgent_same hinit
    rw [hinit] at hgood
    exact (answer_correlated hsyn hid htype).1 hgood
  intro hp env
  unfold handle
  simp only [hopen, htype, Bool.false_eq_true, if_false]
  split
  · exact (answer_correlated rfl rfl htype).2 hp
  split
  · exact correlated_silent rfl
  next hinit =>
  obtain ⟨hsyn, hid⟩ := initAgent_same hinit
  exact (answer_correlated hsyn hid htype).2 hp

theorem ack_correlated_iff (hopen : s.closed = false) (htype : p.type = .handshakeAck) :
    (∀ env, Correlated s p (s.handle w localId env p)) ↔
      (s.initiator = true ∧ s.synCtx = .live → attempt p = s.attemptID) := by
  have hout : ∀ env, (s.handle w localId env p).1.synCtx = s.cancelSyn.synCtx ∧
      ∀ q ∈ (s.handle w localId env p).2, q.type = .offer := by
    intro env
    have hsyn : (s.cancelSyn.gather env).1.synCtx = s.cancelSyn.synCtx := gather_fst
    unfold handle
    simp only [hopen, htype, Bool.false_eq_true, if_false]
    split
    · next hg => exact ⟨by rw [← hsyn, hg], fun q hq => nomatch hq⟩
    · next hg => exact ⟨by rw [← hsyn, hg], fun q hq => type_of_mem_resend hq⟩
  constructor
  · rintro h ⟨hinit, hlive⟩
    refine ((h goodEnv).1 hinit hlive ?_).2
    rw [(hout goodEnv).1]
    unfold cancelSyn
    rw [if_pos hlive]
    exact nofun
  intro hp env
  refine ⟨fun hinit hlive _ => ⟨htype, hp ⟨hinit, hlive⟩⟩, ?_⟩
  intro q hq hack
  cases ((hout env).2 q hq).symm.trans hack

theorem handle_correlated_iff (p : Packet) :
    (∀ env, Correlated s p (s.handle w localId env p)) ↔ InStep s p := by
  unfold InStep
  cases hopen : s.closed with
  | true =>
    have hsil : ∀ env, Correlated s p (s.handle w localId env p) := by
      intro env
      unfold handle
      rw [if_pos hopen]
      exact correlated_silent rfl
    exact ⟨fun _ => .inl rfl, fun _ => hsil⟩
  | false =>
    simp only [Bool.false_eq_true, false_or]
    cases htype : p.type with
    | handshakeSyn => exact syn_correlated_iff hopen htype
    | handshakeAck => exact ack_correlated_iff hopen htype
    | offer =>
      refine iff_of_true (fun env => ?_) trivial
      unfold handle
      simp only [hopen, htype, Bool.false_eq_true, if_false]
      split
      · exact correlated_silent rfl
      split
      · exact correlated_silent rfl
      · exact correlated_silent (addRemoteCandidate_synCtx _)
    | unknown | answer | message | restartNotify | other =>
      refine iff_of_true (fun env => ?_) trivial
      unfold handle
      simp only [hopen, htype, Bool.false_eq_true, if_false]
      exact correlated_silent rfl

end Session

/-- **Correlation of attempts.** What a session gives to its ICE agent is of its own attempt; and
handling a packet keeps to the attempt exactly if the packet is in step. -/
theorem attempts_correlated_iff {w : Wire} {x : World} (h : (system w).Reachable x) :
    (∀ side, ∀ s ∈ (x.party side).sessions, s.Own) ∧
      ∀ side i p s, Job.handle i p ∈ (x.party side).jobs → (x.party side).sessions[i]? = some s →
        ((∀ env, Correlated s p (s.handle w (x.party side).localId env p)) ↔ InStep s p) :=
  ⟨own_reachable h, fun _ _ p _ _ _ => Session.handle_correlated_iff p⟩

def synOf (id : String) : Packet :=
  Session.handshake ⟨"a", [2]⟩ goodEnv { attemptID := id, initiator := true } .handshakeSyn

def ackOf (id : String) : Packet :=
  Session.handshake ⟨"b", [1]⟩ goodEnv { attemptID := id, initiator := false } .handshakeAck

def attemptMoves (id : String) (i : ℕ) : List (Bool × Move) :=
  [(false, .beginAttempt id), (false, .run 0 goodEnv), (false, .run 0 goodEnv),
    (false, .run 0 goodEnv), (false, .tick i goodEnv)]

def firstSyn : List (Bool × Move) :=
  (false, .relayReady true) :: (true, .relayReady true) :: attemptMoves "a1" 0 ++
    [(true, .receive (synOf "a1")), (true, .run 0 goodEnv), (true, .run 0 goodEnv),
      (true, .run 0 goodEnv)]

def pair : World := .new ⟨"a", [2]⟩ ⟨"b", [1]⟩

theorem pair_reachable : (system plainWire).Reachable pair := .init ⟨_, _, rfl⟩

theorem first_syn_in_step : ∃ x s, (system plainWire).Reachable x ∧
    Job.handle 0 (synOf "a1") ∈ (x.party true).jobs ∧ (x.party true).sessions[0]? = some s ∧
    Correlated s (synOf "a1") (s.handle plainWire (x.party true).localId goodEnv (synOf "a1")) := by
  obtain ⟨x, hrea, hx⟩ := reachable_any (w := plainWire) pair_reachable firstSyn
    (P := fun x => Job.handle 0 (synOf "a1") ∈ (x.party true).jobs ∧
      (x.party true).sessions[0]? =
        some { attemptID := "a1", initiator := false, synCtx := .live }) (by decide)
  obtain ⟨hjob, hs⟩ := hx
  exact ⟨x, _, hrea, hjob, hs,
    ((attempts_correlated_iff hrea).2 true 0 _ _ hjob hs).2 (.inr rfl) goodEnv⟩

def lateAck : List (Bool × Move) :=
  firstSyn ++ [(true, .run 0 goodEnv), (false, .close 0)] ++ attemptMoves "a2" 1 ++
    [(true, .receive (synOf "a2")), (false, .receive (ackOf "a1"))]

def answering : Session :=
  { attemptID := "a1", initiator := false, agent := some ⟨"u", "p", [], none⟩, gathered := true,
    synCtx := .live }

def calling : Session :=
  { attemptID := "a2", initiator := true, agent := some ⟨"u", "p", [], none⟩, gathered := true,
    synCtx := .live, looping := true, greeted := true }

theorem attempts_mixed : ∃ x, (system plainWire).Reachable x ∧
    (Job.handle 0 (synOf "a2") ∈ (x.party true).jobs ∧
      (x.party true).sessions[0]? = some answering ∧
      ackOf "a1" ∈ (answering.handle plainWire (x.party true).localId goodEnv (synOf "a2")).2) ∧
    Job.handle 1 (ackOf "a1") ∈ (x.party false).jobs ∧
      (x.party false).sessions[1]? = some calling ∧
      (calling.handle plainWire (x.party false).localId goodEnv (ackOf "a1")).1.synCtx =
        .cancelled :=
  reachable_any pair_reachable lateAck (by decide)

end LatticeMesh.Transport.Correlation
