import LatticeMesh.Agent.PeerManager

/-! # Signaling packets and netmap messages -/

namespace LatticeMesh.Agent

inductive PacketType where
  | unknown
  | handshakeSyn
  | handshakeAck
  | offer
  | answer
  | message
  | restartNotify
  | other (n : Int)
  deriving DecidableEq

inductive DialerType where
  | ice
  | relay
  | other (n : Int)
  deriving DecidableEq

structure Handshake where
  peerInfo : List UInt8
  isUpgradeProbe : Bool
  deriving DecidableEq

structure Offer where
  current : List UInt8
  attemptID : String
  deriving DecidableEq

structure SignalPacket where
  type : PacketType
  dialer : DialerType
  senderID : UInt64
  handshake : Option Handshake
  offer : Option Offer
  message : Option (List UInt8)

structure Changes where
  addressChanged : Bool
  networkLeft : List String
  peersAdded : List Peer
  peersRemoved : List Peer
  totalChanges : Int
  deriving DecidableEq

structure Message where
  current : Option Peer
  changes : Option Changes
  computedPeers : List Peer
  deriving DecidableEq

structure Codec where
  packet : List UInt8 → Option SignalPacket
  peer : List UInt8 → Option Peer
  message : List UInt8 → Option Message
  parseKey : String → Option Key
  peer_nil : peer [] = none
  parseKey_empty : parseKey "" = none

theorem Codec.keyID_eq (c : Codec) (publicKey : String) :
    PeerManager.keyID c.parseKey publicKey = (c.parseKey publicKey).map fromKey := by
  unfold PeerManager.keyID
  split
  · next h => rw [h, c.parseKey_empty, Option.map_none]
  · rfl

def SignalPacket.description (p : SignalPacket) : Option (List UInt8) :=
  match p.type with
  | .handshakeSyn | .handshakeAck => p.handshake.map Handshake.peerInfo
  | .offer | .answer => p.offer.map Offer.current
  | _ => none

def SignalPacket.isUpgradeSignal (p : SignalPacket) : Bool :=
  (p.handshake.any fun hs => hs.isUpgradeProbe) || p.offer.any fun of => of.attemptID ≠ ""

end LatticeMesh.Agent
