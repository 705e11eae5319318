import LatticeMesh.Relay.Protocol

/-! # Proving a peer id to the relay -/

namespace LatticeMesh.Relay

open Bytes List

abbrev X25519 := List UInt8 → List UInt8 → Except String (List UInt8)

structure Challenge where
  ephemeralSecret : List UInt8
  deriving DecidableEq

def errAuthBadResponse : String := "relay: peer-auth response invalid"

def peerIDFromPublicKey (pub : List UInt8) : UInt32 := UInt32.ofNat (beNat (slice pub 4 8))

def Challenge.verifyResponse (x25519 : X25519) (ch : Challenge) (claimedID : UInt32)
    (payload : List UInt8) : Except String Unit :=
  if payload.length ≠ authResponsePayload then
    .error (errAuthBadResponse ++ ": payload " ++ toString payload.length ++ " bytes, want " ++
      toString authResponsePayload)
  else
    let clientPub := payload.take keySize
    let clientDH := payload.drop keySize
    if peerIDFromPublicKey clientPub ≠ claimedID then
      .error (errAuthBadResponse ++ ": public key does not match claimed peer id")
    else
      match x25519 ch.ephemeralSecret clientPub with
      | .error err => .error (errAuthBadResponse ++ ": ecdh failed: " ++ err)
      | .ok shared =>
        if shared = List.replicate keySize 0 then
          .error (errAuthBadResponse ++ ": low-order point")
        else if shared ≠ clientDH then
          .error (errAuthBadResponse ++ ": dh mismatch")
        else .ok ()

def basepoint : List UInt8 := 9 :: List.replicate 31 0

def keyArray (l : List UInt8) : List UInt8 := (l ++ List.replicate keySize 0).take keySize

def answerChallenge (x25519 : X25519) (relayChallengePub clientPrivate : List UInt8) :
    Except String (List UInt8) :=
  match x25519 clientPrivate basepoint with
  | .error err => .error ("relay: derive public key: " ++ err)
  | .ok clientPub =>
    match x25519 clientPrivate relayChallengePub with
    | .error err => .error ("relay: ecdh failed: " ++ err)
    | .ok shared => .ok (keyArray clientPub ++ keyArray shared)

theorem length_keyArray (l : List UInt8) : (keyArray l).length = keySize := by
  unfold keyArray
  rw [length_take, length_append, length_replicate]
  omega

theorem length_answerChallenge {x25519 : X25519} {pub priv resp : List UInt8}
    (h : answerChallenge x25519 pub priv = .ok resp) : resp.length = authResponsePayload := by
  unfold answerChallenge at h
  split at h
  · cases h
  split at h
  · cases h
  cases h
  rw [length_append, length_keyArray, length_keyArray]
  rfl

end LatticeMesh.Relay
