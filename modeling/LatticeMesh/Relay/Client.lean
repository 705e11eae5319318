import LatticeMesh.Relay.Protocol

/-! # The relay clients -/

namespace LatticeMesh.Relay

open Bytes

def maxProbePayload : Nat := 2048

structure RelayClient where
  localId : UInt64
  authToken : List UInt8
  seq : UInt32

namespace RelayClient

def nextSeq (c : RelayClient) : UInt16 × RelayClient :=
  ((c.seq + 1).toUInt16, { c with seq := c.seq + 1 })

def register (c : RelayClient) : List UInt8 × RelayClient :=
  let (seq, c') := c.nextSeq
  let h : Header := ⟨seq, UInt32.ofNat c.authToken.length, Cmd.register, c.localId.toUInt32, 0⟩
  (h.marshal ++ c.authToken, c')

def makeFrame (c : RelayClient) (toID : UInt64) (cmd : UInt8) (data : List UInt8) :
    List UInt8 × RelayClient :=
  let (seq, c') := c.nextSeq
  let h : Header := ⟨seq, UInt32.ofNat data.length, cmd, toID.toUInt32, 0⟩
  (h.marshal ++ data, c')

end RelayClient

inductive Received where
  | packet (payload : List UInt8) (remoteId : UInt64)
  | probe (sessionID : UInt64) (data : List UInt8)
  | discarded
  | disconnected
  deriving DecidableEq

def discard (n : Nat) (rest : List UInt8) : Received × List UInt8 :=
  match readFull n rest with
  | none => (.disconnected, [])
  | some (_, rest') => (.discarded, rest')

def receiveTCP (bufLen : Nat) (input : List UInt8) : Received × List UInt8 :=
  match readFull headerSize input with
  | none => (.disconnected, [])
  | some (headBuf, rest) =>
    match unmarshal headBuf with
    | .error _ => (.discarded, rest)
    | .ok hdr =>
      if hdr.cmd = Cmd.probe then
        if hdr.payloadLen.toNat > maxProbePayload then discard hdr.payloadLen.toNat rest
        else
          match readFull hdr.payloadLen.toNat rest with
          | none => (.disconnected, [])
          | some (buf, rest') => (.probe hdr.toID.toUInt64 buf, rest')
      else if hdr.cmd = Cmd.forward then
        if hdr.payloadLen.toNat > bufLen then discard hdr.payloadLen.toNat rest
        else
          match readFull hdr.payloadLen.toNat rest with
          | none => (.disconnected, [])
          | some (payload, rest') => (.packet payload hdr.toID.toUInt64, rest')
      else
        (.discarded, rest.drop hdr.payloadLen.toNat)

def receiveQUIC (bufLen : Nat) (data : List UInt8) : Received :=
  if data.length < headerSize then .discarded
  else
    match unmarshal (data.take headerSize) with
    | .error _ => .discarded
    | .ok hdr =>
      let payload := data.drop headerSize
      if hdr.cmd = Cmd.forward then
        if payload.length > bufLen then .discarded else .packet payload hdr.toID.toUInt64
      else if hdr.cmd = Cmd.probe then .probe hdr.toID.toUInt64 payload
      else .discarded

end LatticeMesh.Relay
