import LatticeMesh.Relay.Auth

/-! # The TCP front end -/

namespace LatticeMesh.Relay

open Bytes

structure ServerConfig where
  authToken : List UInt8
  requirePeerAuth : Bool
  x25519 : X25519

def ServerConfig.checkRegisterToken (cfg : ServerConfig) (payload : List UInt8) : Bool :=
  if cfg.authToken = [] then true else payload = cfg.authToken

structure Handler where
  fromId : UInt64
  pending : Option Challenge
  registered : Bool
  deriving DecidableEq

inductive Event where
  | header (pos : Nat)
  | register (verified : Bool)
  | markVerified
  | relay (toID : UInt64) (frame : List UInt8)
  | unregister
  deriving DecidableEq

inductive Next where
  | again (h : Handler) (rest : List UInt8) (ev : List Event)
  | stop
  deriving DecidableEq

def relayFrame (h : Handler) (headBuf : List UInt8) (hdr : Header) (rest : List UInt8) : Next :=
  if hdr.payloadLen.toNat > maxForwardPayload then .stop
  else
    match readFull hdr.payloadLen.toNat rest with
    | none => .again h [] []
    | some (payload, rest') =>
      let frame := headBuf ++ payload
      let frame := if hdr.cmd = Cmd.forward then stampSender frame h.fromId else frame
      .again h rest' [.relay hdr.toID.toUInt64 frame]

def serveCmd (h : Handler) (headBuf : List UInt8) (hdr : Header) (rest : List UInt8) : Next :=
  if hdr.cmd = Cmd.keepAlive then .again h rest []
  else if hdr.cmd = Cmd.forward ∨ hdr.cmd = Cmd.probe then relayFrame h headBuf hdr rest
  else .again h rest []

def authResponse (cfg : ServerConfig) (h : Handler) (ch : Challenge) (hdr : Header)
    (rest : List UInt8) : Next :=
  if hdr.payloadLen.toNat > authResponsePayload then .stop
  else
    match readFull hdr.payloadLen.toNat rest with
    | none => .stop
    | some (payload, rest') =>
      match ch.verifyResponse cfg.x25519 h.fromId.toUInt32 payload with
      | .error _ => .stop
      | .ok () =>
        .again { h with pending := none, registered := true } rest'
          [if h.registered then .markVerified else .register true]

def iterate (cfg : ServerConfig) (h : Handler) (headBuf : List UInt8) (hdr : Header)
    (rest : List UInt8) : Next :=
  match h.pending with
  | some ch =>
    if hdr.cmd = Cmd.authResponse then authResponse cfg h ch hdr rest
    else if cfg.requirePeerAuth then .stop
    else serveCmd { h with pending := none } headBuf hdr rest
  | none => serveCmd h headBuf hdr rest

def Handler.close (h : Handler) : List Event := if h.registered then [.unregister] else []

def serve (cfg : ServerConfig) : Nat → Handler → Nat → List UInt8 → Option (List Event)
  | 0, _, _, _ => none
  | fuel + 1, h, pos, input =>
    match readFull headerSize input with
    | none => some h.close
    | some (headBuf, rest) =>
      match unmarshal headBuf with
      | .error _ => some h.close
      | .ok hdr =>
        match iterate cfg h headBuf hdr rest with
        | .stop => some (.header pos :: h.close)
        | .again h' rest' ev =>
          (serve cfg fuel h' (pos + (input.length - rest'.length)) rest').map
            fun tr => .header pos :: (ev ++ tr)

def startSession (cfg : ServerConfig) (fromId : UInt64) (challenge : Option Challenge) :
    Option (Handler × List Event) :=
  match cfg.requirePeerAuth, challenge with
  | true, none => none
  | true, some ch => some (⟨fromId, some ch, false⟩, [])
  | false, pending => some (⟨fromId, pending, true⟩, [.register false])

def readRegister (cfg : ServerConfig) (input : List UInt8) : Option (UInt64 × List UInt8) :=
  match readFull headerSize input with
  | none => none
  | some (headBuf, rest) =>
    match unmarshal headBuf with
    | .error _ => none
    | .ok hdr =>
      if hdr.cmd ≠ Cmd.register then none
      else if hdr.payloadLen.toNat > maxRegisterPayload then none
      else
        match readFull hdr.payloadLen.toNat rest with
        | none => none
        | some (regPayload, rest') =>
          if cfg.checkRegisterToken regPayload then some (hdr.toID.toUInt64, rest') else none

def handleBoltSession (cfg : ServerConfig) (challenge : Option Challenge) (input : List UInt8) :
    Option (List Event) :=
  let first := if input.length < headerSize then [] else [.header 0]
  match readRegister cfg input with
  | none => some first
  | some (fromId, rest) =>
    match startSession cfg fromId challenge with
    | none => some first
    | some (h, ev) =>
      (serve cfg (rest.length + 1) h (input.length - rest.length) rest).map
        fun tr => first ++ ev ++ tr

end LatticeMesh.Relay
