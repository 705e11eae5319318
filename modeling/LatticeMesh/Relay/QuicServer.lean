import LatticeMesh.Relay.Server

/-! # The QUIC front end -/

namespace LatticeMesh.Relay

open Bytes

def readError (input : List UInt8) : String := if input = [] then "EOF" else "unexpected EOF"

def readAuthPayload (cfg : ServerConfig) (fromId : UInt64) (ch : Challenge) (hdr : Header)
    (rest : List UInt8) : Except String (List UInt8) :=
  match readFull hdr.payloadLen.toNat rest with
  | none => .error (readError rest)
  | some (payload, rest') =>
    match ch.verifyResponse cfg.x25519 fromId.toUInt32 payload with
    | .error err => .error err
    | .ok () => .ok rest'

def readAuthResponse (cfg : ServerConfig) (fromId : UInt64) (pending : Option Challenge)
    (input : List UInt8) : Except String (List UInt8) :=
  match pending with
  | none => .error "no challenge in flight"
  | some ch =>
    match readFull headerSize input with
    | none => .error (readError input)
    | some (headBuf, rest) =>
      match unmarshal headBuf with
      | .error err => .error err
      | .ok hdr =>
        if hdr.cmd ≠ Cmd.authResponse ∨ hdr.payloadLen.toNat > authResponsePayload then
          .error ("expected auth response, got cmd=" ++ toString hdr.cmd.toNat ++ " len=" ++
            toString hdr.payloadLen.toNat)
        else readAuthPayload cfg fromId ch hdr rest

inductive ControlNext where
  | again (rest : List UInt8)
  | verified (rest : List UInt8)
  | stop

def controlFrame (cfg : ServerConfig) (fromId : UInt64) (pending : Option Challenge)
    (hdr : Header) (rest : List UInt8) : ControlNext :=
  match pending, hdr.cmd == Cmd.authResponse with
  | some ch, true =>
    if hdr.payloadLen.toNat > authResponsePayload then .stop
    else
      match readAuthPayload cfg fromId ch hdr rest with
      | .error _ => .stop
      | .ok rest' => .verified rest'
  | _, _ =>
    if hdr.cmd = Cmd.keepAlive then
      if hdr.payloadLen.toNat > maxForwardPayload then .stop
      else
        match readFull hdr.payloadLen.toNat rest with
        | none => .stop
        | some (_, rest') => .again rest'
    else .again rest

def relayDatagram (fromId : UInt64) (data : List UInt8) : Option (UInt64 × List UInt8) :=
  if data.length < headerSize then none
  else
    match unmarshal (data.take headerSize) with
    | .error _ => none
    | .ok hdr =>
      if hdr.cmd ≠ Cmd.forward ∧ hdr.cmd ≠ Cmd.probe then none
      else
        let data := if hdr.cmd = Cmd.forward then stampSender data fromId else data
        some (hdr.toID.toUInt64, data)

end LatticeMesh.Relay
