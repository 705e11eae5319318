import LatticeMesh.Relay.Alignment
import LatticeMesh.Relay.Client
import LatticeMesh.Relay.QuicServer

/-! # A Forward frame from sender to receiver -/

namespace LatticeMesh.Relay

open Bytes List

inductive Ingress where
  | tcp (cfg : ServerConfig) (h : Handler) (rest : List UInt8)
  | quic (fromId : UInt64)

def Ingress.relay (frame : List UInt8) : Ingress → Option (UInt64 × List UInt8)
  | .tcp cfg h rest =>
    match readFull headerSize (frame ++ rest) with
    | none => none
    | some (headBuf, rest') =>
      match unmarshal headBuf with
      | .error _ => none
      | .ok hdr =>
        match iterate cfg h headBuf hdr rest' with
        | .again _ _ [.relay toID out] => some (toID, out)
        | _ => none
  | .quic fromId => relayDatagram fromId frame

def Ingress.Serves (fromId : UInt64) : Ingress → Prop
  | .tcp cfg h _ => h.fromId = fromId ∧ (h.pending = none ∨ cfg.requirePeerAuth = false)
  | .quic id => id = fromId

inductive Egress where
  | tcp (rest : List UInt8)
  | quic

def Egress.receive (bufLen : Nat) (frame : List UInt8) : Egress → Received
  | .tcp rest => (receiveTCP bufLen (frame ++ rest)).1
  | .quic => receiveQUIC bufLen frame

def RelayClient.frame (c : RelayClient) (toID : UInt64) (cmd : UInt8) (data : List UInt8)
    (h : data.length < 2 ^ 32) : Frame :=
  ⟨c.nextSeq.1, cmd, toID.toUInt32, 0, data, h⟩

theorem makeFrame_eq (c : RelayClient) (toID : UInt64) (cmd : UInt8) (data : List UInt8)
    (h : data.length < 2 ^ 32) : (c.makeFrame toID cmd data).1 = (c.frame toID cmd data h).bytes :=
  rfl

theorem readRegister_register {cfg : ServerConfig} {a : RelayClient} {stream rest : List UInt8}
    {fromId : UInt64} (h : readRegister cfg (a.register.1 ++ stream) = some (fromId, rest)) :
    fromId = a.localId.toUInt32.toUInt64 := by
  obtain ⟨hdr, hid, hreg⟩ : ∃ hdr : Header, hdr.toID = a.localId.toUInt32 ∧
      a.register.1 ++ stream = hdr.marshal ++ (a.authToken ++ stream) :=
    ⟨_, rfl, append_assoc ..⟩
  have hread := readFull_append hdr.marshal (a.authToken ++ stream)
  have hun := unmarshal_marshal hdr []
  rw [length_marshal] at hread
  rw [append_nil] at hun
  rw [hreg] at h
  unfold readRegister at h
  simp only [hread, hun] at h
  split at h
  · cases h
  split at h
  · cases h
  split at h
  · cases h
  split at h
  · cases h
    rw [hid]
  · cases h

theorem verdict_forward {cfg : ServerConfig} {h : Handler}
    (hrdy : h.pending = none ∨ cfg.requirePeerAuth = false) {f : Frame}
    (hcmd : f.cmd = Cmd.forward) :
    verdict cfg h f = plainVerdict { h with pending := none } f := by
  have hauth : f.cmd ≠ Cmd.authResponse := by
    rw [hcmd]
    decide
  obtain ⟨fromId, pending, registered⟩ := h
  unfold verdict
  rcases hrdy with hp | hlenient
  · cases hp
    rfl
  cases pending with
  | none => rfl
  | some ch => simp [hauth, hlenient]

theorem plainVerdict_forward {h : Handler} {f : Frame} (hcmd : f.cmd = Cmd.forward)
    (hlen : f.payload.length ≤ maxForwardPayload) :
    plainVerdict h f =
      .use h [.relay f.toID.toUInt64 (f.stamped h.fromId).bytes] := by
  simp [plainVerdict, Frame.relayed, hcmd, Nat.not_lt.2 hlen]

theorem relay_forward {i : Ingress} {fromId : UInt64} (hi : i.Serves fromId) (f : Frame)
    (hcmd : f.cmd = Cmd.forward) (hlen : f.payload.length ≤ maxForwardPayload) :
    i.relay f.bytes = some (f.toID.toUInt64, (f.stamped fromId).bytes) := by
  cases i with
  | tcp cfg h rest =>
    obtain ⟨rfl, hrdy⟩ := hi
    simp only [Ingress.relay, Frame.bytes, append_assoc, readFull_header, unmarshal_header,
      iterate_frame, verdict_forward hrdy hcmd, plainVerdict_forward hcmd hlen, Verdict.next]
  | quic id =>
    cases hi
    have hcmd' : f.header.cmd = Cmd.forward := hcmd
    simp only [Ingress.relay, relayDatagram, if_neg f.headerSize_le, f.take_bytes,
      unmarshal_header, hcmd']
    rw [if_neg (by decide), if_pos trivial, f.bytes_stamped]
    rfl

theorem receive_forward (e : Egress) (f : Frame) (hcmd : f.cmd = Cmd.forward) {bufLen : Nat}
    (hbuf : f.payload.length ≤ bufLen) :
    e.receive bufLen f.bytes = .packet f.payload f.toID.toUInt64 := by
  have hcmd' : f.header.cmd = Cmd.forward := hcmd
  have hne : Cmd.forward ≠ Cmd.probe := by decide
  cases e with
  | tcp rest =>
    have hfit : ¬ f.header.payloadLen.toNat > bufLen := by
      rw [f.header_payloadLen]
      omega
    simp only [Egress.receive, receiveTCP, Frame.bytes, append_assoc, readFull_header,
      unmarshal_header, hcmd', if_neg hne, if_pos, if_neg hfit, readFull_payload]
    rfl
  | quic =>
    simp only [Egress.receive, receiveQUIC, if_neg f.headerSize_le, f.take_bytes, f.drop_bytes,
      unmarshal_header, hcmd', if_pos, if_neg (Nat.not_lt.2 hbuf)]
    rfl

/-- **Sender stamping end to end.** Whichever front end serves the sender `a` and whichever client
receives the frame, it gets the payload and the id `a` registered with; the frame is the one `a`
built but for the id field. -/
theorem forward_end_to_end (cfg : ServerConfig) (a a' : RelayClient) {stream rest : List UInt8}
    {fromId : UInt64}
    (hreg : readRegister cfg (a.register.1 ++ stream) = some (fromId, rest))
    {i : Ingress} (hi : i.Serves fromId) (e : Egress) (toID : UInt64) {payload : List UInt8}
    (hlen : payload.length ≤ maxForwardPayload) {bufLen : Nat} (hbuf : payload.length ≤ bufLen) :
    ∃ frame, i.relay (a'.makeFrame toID Cmd.forward payload).1 =
        some (toID.toUInt32.toUInt64, frame) ∧
      e.receive bufLen frame = .packet payload a.localId.toUInt32.toUInt64 ∧
      frame.length = (a'.makeFrame toID Cmd.forward payload).1.length ∧
      ∀ j, j < 7 ∨ 11 ≤ j → frame[j]? = (a'.makeFrame toID Cmd.forward payload).1[j]? := by
  have hsma : payload.length < 2 ^ 32 := by
    unfold maxForwardPayload at hlen
    omega
  rw [makeFrame_eq a' toID Cmd.forward payload hsma]
  obtain rfl := readRegister_register hreg
  let f := a'.frame toID Cmd.forward payload hsma
  have hrec := receive_forward e (f.stamped a.localId.toUInt32.toUInt64) rfl hbuf
  have hid : (f.stamped a.localId.toUInt32.toUInt64).toID = a.localId.toUInt32 :=
    UInt32.toUInt32_toUInt64 _
  rw [hid] at hrec
  refine ⟨_, relay_forward hi f rfl hlen, hrec, ?_, ?_⟩
  · rw [f.bytes_stamped]
    exact length_stampSender (Nat.le_of_not_lt f.headerSize_le) _
  intro j hj
  rw [f.bytes_stamped]
  exact getElem?_stampSender (Nat.le_of_not_lt f.headerSize_le) _ hj

theorem forward_end_to_end_five_nine :
    ∃ frame, (Ingress.tcp openServer ⟨5, none, true⟩ []).relay
        ((⟨5, [], 1⟩ : RelayClient).makeFrame 9 Cmd.forward [0xAA]).1 = some (9, frame) ∧
      Egress.quic.receive 1500 frame = .packet [0xAA] 5 ∧
      frame.length = ((⟨5, [], 1⟩ : RelayClient).makeFrame 9 Cmd.forward [0xAA]).1.length ∧
      ∀ j, j < 7 ∨ 11 ≤ j →
        frame[j]? = ((⟨5, [], 1⟩ : RelayClient).makeFrame 9 Cmd.forward [0xAA]).1[j]? := by
  have hreg : readRegister openServer ((⟨5, [], 0⟩ : RelayClient).register.1 ++ []) =
      some (5, []) := by decide +kernel
  have hser : (Ingress.tcp openServer ⟨5, none, true⟩ []).Serves 5 := ⟨rfl, .inl rfl⟩
  exact forward_end_to_end openServer ⟨5, [], 0⟩ ⟨5, [], 1⟩ hreg hser .quic 9
    (by decide) (by decide)

end LatticeMesh.Relay
