import LatticeMesh.Agent.Node
import LatticeMesh.Relay.Client

/-! # Who can install a netmap -/

namespace LatticeMesh.Agent

open Text List

inductive Origin where
  | peer
  | management
  deriving DecidableEq

inductive Input where
  | relay (frame : Relay.Received)
  | signal (origin : Origin) (data : List UInt8)
  | fetched (msg : Message)

def Input.fromPeer : Input → Option (List UInt8)
  | .relay (.probe _ data) => some data
  | .signal .peer data => some data
  | _ => none

structure Host where
  node : Node
  applied : List (Origin × Message)

namespace Host

section

variable (c : Codec) (o : Overlay6)

def deliver (host : Host) (origin : Origin) (data : List UInt8) : Host :=
  match c.packet data with
  | none => host
  | some packet =>
    let (node, handed) := host.node.handle c o packet
    ⟨node, handed.toList.map (Prod.mk origin) ++ host.applied⟩

def receive (host : Host) : Input → Host
  | .relay (.probe _ data) => host.deliver c o .peer data
  | .relay _ => host
  | .signal origin data => host.deliver c o origin data
  | .fetched msg => ⟨host.node.applyFullConfig c msg, (.management, msg) :: host.applied⟩

def step (host : Host) (input : Input) : Host :=
  if host.node.factory.crashed then host else host.receive c o input

def run (host : Host) (inputs : List Input) : Host := inputs.foldl (step c o) host

end

def Pushed (c : Codec) (n : Node) (input : Input) : Prop :=
  n.factory.crashed = false ∧ n.messageHandler = true ∧
    ∃ data packet content msg, input.fromPeer = some data ∧ c.packet data = some packet ∧
      packet.type = .message ∧ packet.message = some content ∧ c.message content = some msg

def Managed (host : Host) : Prop := ∀ e ∈ host.applied, e.1 = .management

variable {c : Codec} {o : Overlay6} {host : Host}

theorem handle_handed {n : Node} {packet : SignalPacket} {msg : Message} :
    (n.handle c o packet).2 = some msg ↔ packet.type = .message ∧ n.messageHandler = true ∧
      ∃ content, packet.message = some content ∧ c.message content = some msg := by
  unfold Node.handle
  by_cases htype : packet.type = .message
  · cases hset : n.messageHandler with
    | false => simp [htype]
    | true =>
      cases packet.message with
      | none => simp [htype]
      | some content => cases h : c.message content <;> simp [htype, h]
  · simp [htype]

theorem deliver_applied (origin : Origin) (data : List UInt8) :
    (host.deliver c o origin data).applied =
      (((c.packet data).bind fun packet => (host.node.handle c o packet).2).toList.map
        (Prod.mk origin)) ++ host.applied := by
  unfold deliver
  cases c.packet data <;> rfl

theorem managed_deliver_management (h : host.Managed) (data : List UInt8) :
    (host.deliver c o .management data).Managed := by
  unfold Managed
  rw [deliver_applied]
  intro e he
  rcases mem_append.1 he with hnew | hold
  · obtain ⟨msg, _, rfl⟩ := List.mem_map.1 hnew
    rfl
  · exact h e hold

theorem managed_deliver_peer (h : host.Managed) (data : List UInt8) :
    (host.deliver c o .peer data).Managed ↔
      ∀ packet msg, c.packet data = some packet → (host.node.handle c o packet).2 ≠ some msg := by
  unfold Managed
  rw [deliver_applied]
  constructor
  · intro hm packet msg hp hmsg
    have hnew := hm (.peer, msg) (mem_append_left _ (by simp [hp, hmsg]))
    cases hnew
  intro hno e he
  rcases mem_append.1 he with hnew | hold
  · obtain ⟨msg, hmsg, rfl⟩ := List.mem_map.1 hnew
    obtain ⟨packet, hp, hhand⟩ := Option.bind_eq_some_iff.1 (Option.mem_toList.1 hmsg)
    exact absurd hhand (hno packet msg hp)
  · exact h e hold

theorem managed_deliver_iff (h : host.Managed) (hup : host.node.factory.crashed = false)
    {input : Input} {data : List UInt8} (hin : input.fromPeer = some data) :
    (host.deliver c o .peer data).Managed ↔ ¬ Pushed c host.node input := by
  rw [managed_deliver_peer h]
  constructor
  · intro hno hpush
    obtain ⟨_, hset, data', packet, content, msg, hdata, hp, htype, hcon, hmsg⟩ := hpush
    rw [hin, Option.some.injEq] at hdata
    subst hdata
    exact hno packet msg hp (handle_handed.2 ⟨htype, hset, content, hcon, hmsg⟩)
  intro hno packet msg hp hhand
  obtain ⟨htype, hset, content, hcon, hmsg⟩ := handle_handed.1 hhand
  exact hno ⟨hup, hset, data, packet, content, msg, hin, hp, htype, hcon, hmsg⟩

theorem not_pushed {n : Node} {input : Input} (h : input.fromPeer = none) : ¬ Pushed c n input := by
  intro hpush
  obtain ⟨_, _, data, packet, content, msg, hdata, _⟩ := hpush
  rw [h] at hdata
  cases hdata

theorem managed_step_iff (h : host.Managed) (input : Input) :
    (host.step c o input).Managed ↔ ¬ Pushed c host.node input := by
  unfold step
  cases hup : host.node.factory.crashed with
  | true =>
    have hno : ¬ Pushed c host.node input := by
      intro hpush
      exact absurd (hup.symm.trans hpush.1) (by decide)
    simp [hno, h]
  | false =>
    simp only [Bool.false_eq_true, if_false]
    cases input with
    | relay frame =>
      cases frame with
      | probe id data => exact managed_deliver_iff h hup rfl
      | packet | discarded | disconnected => exact iff_of_true h (not_pushed rfl)
    | signal origin data =>
      cases origin with
      | peer => exact managed_deliver_iff h hup rfl
      | management => exact iff_of_true (managed_deliver_management h data) (not_pushed rfl)
    | fetched msg =>
      refine iff_of_true ?_ (not_pushed rfl)
      intro e he
      rcases mem_cons.1 he with rfl | hold
      · rfl
      · exact h e hold

theorem step_applied (input : Input) : host.applied <:+ (host.step c o input).applied := by
  have hdel : ∀ origin data, host.applied <:+ (host.deliver c o origin data).applied := by
    intro origin data
    rw [deliver_applied]
    exact suffix_append ..
  unfold step
  split
  · exact suffix_rfl
  cases input with
  | relay frame =>
    cases frame with
    | probe id data => exact hdel ..
    | packet | discarded | disconnected => exact suffix_rfl
  | signal origin data => exact hdel ..
  | fetched msg => exact suffix_cons ..

theorem run_applied (inputs : List Input) : host.applied <:+ (host.run c o inputs).applied := by
  induction inputs generalizing host with
  | nil => exact suffix_rfl
  | cons input rest ih => exact (step_applied input).trans ih

def Unpushed (c : Codec) (o : Overlay6) : Host → List Input → Prop
  | _, [] => True
  | host, input :: rest => ¬ Pushed c host.node input ∧ Unpushed c o (host.step c o input) rest

/-- **Netmaps come from the management server exactly while no peer pushes one.** -/
theorem netmaps_managed_iff (h : host.Managed) (inputs : List Input) :
    (host.run c o inputs).Managed ↔ Unpushed c o host inputs := by
  induction inputs generalizing host with
  | nil => exact iff_of_true h trivial
  | cons input rest ih =>
    by_cases hpush : Pushed c host.node input
    · refine iff_of_false ?_ (fun hun => hun.1 hpush)
      intro hm
      have hstep : (host.step c o input).Managed := by
        intro e he
        exact hm e ((run_applied rest).subset he)
      exact (managed_step_iff h input).1 hstep hpush
    · have hstep := (managed_step_iff (c := c) (o := o) h input).2 hpush
      exact (ih hstep).trans (by simp [Unpushed, hpush])

end Host

namespace Host

def pushContent : List UInt8 :=
  ascii "\x7b\"peer\":\x7b\"appId\":\"me\",\"address\":\"10.0.0.9\"\x7d\x7d"

def pushPacket : List UInt8 := ascii <|
  "\x7b\"type\":5,\"message\":\x7b\"content\":" ++
  "\"eyJwZWVyIjp7ImFwcElkIjoibWUiLCJhZGRyZXNzIjoiMTAuMC4wLjkifX0=\"\x7d\x7d"

def pushMessage : Message := ⟨some ⟨"me", some "10.0.0.9", "", "", "", "", ""⟩, none, []⟩

def pushCodec : Codec where
  packet data := if data = pushPacket then
      some ⟨.message, .ice, 0, none, none, some pushContent⟩ else none
  peer _ := none
  message data := if data = pushContent then some pushMessage else none
  parseKey _ := none
  peer_nil := rfl
  parseKey_empty := rfl

def ready : Host := ⟨fresh, []⟩

theorem relayed_push_applied :
    ready.Managed ∧ ¬ (ready.run pushCodec overlayB [.relay (.probe 7 pushPacket)]).Managed := by
  refine ⟨by simp [Managed, ready], ?_⟩
  intro hm
  have hlog : (ready.run pushCodec overlayB [.relay (.probe 7 pushPacket)]).applied =
      [(.peer, pushMessage)] := by decide +kernel
  have hpeer := hm (.peer, pushMessage) (by rw [hlog]; exact mem_cons_self)
  cases hpeer

theorem managed_push_managed :
    ready.Managed ∧ (ready.run pushCodec overlayB [.signal .management pushPacket]).Managed := by
  have hrdy : ready.Managed := by simp [Managed, ready]
  exact ⟨hrdy, (netmaps_managed_iff hrdy _).2 ⟨not_pushed rfl, trivial⟩⟩

end Host

end LatticeMesh.Agent
