import LatticeMesh.Lib.Bytes

/-! # The Ferry frame format -/

namespace LatticeMesh.Relay

open Bytes

def headerSize : Nat := 12

def maxRegisterPayload : Nat := 512

def maxForwardPayload : Nat := 64 <<< 10

def keySize : Nat := 32

def authResponsePayload : Nat := 2 * keySize

namespace Cmd

def register : UInt8 := 0x01
def forward : UInt8 := 0x02
def keepAlive : UInt8 := 0x03
def probe : UInt8 := 0x04
def authChallenge : UInt8 := 0x05
def authResponse : UInt8 := 0x06

end Cmd

structure Header where
  seq : UInt16
  payloadLen : UInt32
  cmd : UInt8
  toID : UInt32
  reserved : UInt8
  deriving DecidableEq

def Header.marshal (h : Header) : List UInt8 :=
  let buf := List.replicate headerSize 0
  let buf := putAt buf 0 (leBytes 2 h.seq.toNat)
  let buf := putAt buf 2 (leBytes 4 h.payloadLen.toNat)
  let buf := putAt buf 6 [h.cmd]
  let buf := putAt buf 7 (leBytes 4 h.toID.toNat)
  putAt buf 11 [h.reserved]

def unmarshal (data : List UInt8) : Except String Header :=
  if h : data.length < headerSize then
    .error "relay: header too short"
  else
    have hlen : 12 ≤ data.length := Nat.le_of_not_lt h
    .ok {
      seq := UInt16.ofNat (leNat (slice data 0 2))
      payloadLen := UInt32.ofNat (leNat (slice data 2 6))
      cmd := data[6]
      toID := UInt32.ofNat (leNat (slice data 7 11))
      reserved := data[11] }

def stampSender (frame : List UInt8) (fromID : UInt64) : List UInt8 :=
  putAt frame 7 (leBytes 4 fromID.toUInt32.toNat)

theorem unmarshal_of_length {data : List UInt8} (hlen : data.length = headerSize) :
    ∃ h, unmarshal data = .ok h := by
  unfold unmarshal
  rw [dif_neg (by omega)]
  exact ⟨_, rfl⟩

theorem marshal_eq (h : Header) :
    h.marshal = leBytes 2 h.seq.toNat ++ leBytes 4 h.payloadLen.toNat ++ [h.cmd] ++
      leBytes 4 h.toID.toNat ++ [h.reserved] := by
  simp [Header.marshal, putAt, leBytes, headerSize, List.replicate]

@[simp] theorem length_marshal (h : Header) : h.marshal.length = headerSize := by
  simp [marshal_eq, headerSize]

theorem unmarshal_marshal (h : Header) (rest : List UInt8) :
    unmarshal (h.marshal ++ rest) = .ok h := by
  have hlen : ¬ (h.marshal ++ rest).length < headerSize := by simp
  have hbou : 12 ≤ (h.marshal ++ rest).length := Nat.le_of_not_lt hlen
  unfold unmarshal
  rw [dif_neg hlen]
  have hseq : slice (h.marshal ++ rest) 0 2 = leBytes 2 h.seq.toNat := by rw [marshal_eq]; rfl
  have hpl : slice (h.marshal ++ rest) 2 6 = leBytes 4 h.payloadLen.toNat := by
    rw [marshal_eq]; rfl
  have hto : slice (h.marshal ++ rest) 7 11 = leBytes 4 h.toID.toNat := by rw [marshal_eq]; rfl
  have hcmd : (h.marshal ++ rest)[6] = h.cmd := by simp [marshal_eq, leBytes]
  have hres : (h.marshal ++ rest)[11] = h.reserved := by simp [marshal_eq, leBytes]
  simp only [hseq, hpl, hto, hcmd, hres]
  rw [leNat_leBytes_of_lt h.seq.toNat_lt, leNat_leBytes_of_lt h.payloadLen.toNat_lt,
    leNat_leBytes_of_lt h.toID.toNat_lt]
  simp

theorem marshal_unmarshal {data : List UInt8} {h : Header} (hlen : data.length = headerSize)
    (hd : unmarshal data = .ok h) : h.marshal = data := by
  match data, hlen with
  | [b0, b1, b2, b3, b4, b5, b6, b7, b8, b9, b10, b11], _ =>
    have hh : h = ⟨UInt16.ofNat (leNat [b0, b1]), UInt32.ofNat (leNat [b2, b3, b4, b5]), b6,
        UInt32.ofNat (leNat [b7, b8, b9, b10]), b11⟩ := (Except.ok.inj hd).symm
    have hseq : leNat [b0, b1] < 2 ^ 16 := (leNat_lt _).trans_eq (by norm_num)
    have hpl : leNat [b2, b3, b4, b5] < 2 ^ 32 := (leNat_lt _).trans_eq (by norm_num)
    have hto : leNat [b7, b8, b9, b10] < 2 ^ 32 := (leNat_lt _).trans_eq (by norm_num)
    have e1 : leBytes 2 (leNat [b0, b1]) = [b0, b1] := leBytes_leNat [b0, b1]
    have e2 : leBytes 4 (leNat [b2, b3, b4, b5]) = [b2, b3, b4, b5] :=
      leBytes_leNat [b2, b3, b4, b5]
    have e3 : leBytes 4 (leNat [b7, b8, b9, b10]) = [b7, b8, b9, b10] :=
      leBytes_leNat [b7, b8, b9, b10]
    rw [hh, marshal_eq]
    simp only [UInt16.toNat_ofNat_of_lt' hseq, UInt32.toNat_ofNat_of_lt' hpl,
      UInt32.toNat_ofNat_of_lt' hto, e1, e2, e3]
    rfl

theorem stampSender_marshal (h : Header) (payload : List UInt8) (fromID : UInt64) :
    stampSender (h.marshal ++ payload) fromID =
      { h with toID := fromID.toUInt32 }.marshal ++ payload := by
  unfold stampSender
  rw [putAt_append (by simp [headerSize]), marshal_eq, marshal_eq]
  simp [putAt, leBytes]

theorem getElem?_stampSender {frame : List UInt8} (hlen : headerSize ≤ frame.length)
    (fromID : UInt64) {j : Nat} (hj : j < 7 ∨ 11 ≤ j) :
    (stampSender frame fromID)[j]? = frame[j]? := by
  have h12 : 12 ≤ frame.length := hlen
  apply getElem?_putAt
  · simp only [length_leBytes]; omega
  · simp only [length_leBytes]; omega

theorem length_stampSender {frame : List UInt8} (hlen : headerSize ≤ frame.length)
    (fromID : UInt64) : (stampSender frame fromID).length = frame.length := by
  have h12 : 12 ≤ frame.length := hlen
  apply length_putAt
  simp only [length_leBytes]; omega

structure Frame where
  seq : UInt16
  cmd : UInt8
  toID : UInt32
  reserved : UInt8
  payload : List UInt8
  payload_lt : payload.length < 2 ^ 32

namespace Frame

def header (f : Frame) : Header where
  seq := f.seq
  payloadLen := UInt32.ofNat f.payload.length
  cmd := f.cmd
  toID := f.toID
  reserved := f.reserved

def bytes (f : Frame) : List UInt8 := f.header.marshal ++ f.payload

def size (f : Frame) : Nat := headerSize + f.payload.length

def stamped (f : Frame) (fromID : UInt64) : Frame := { f with toID := fromID.toUInt32 }

@[simp] theorem length_bytes (f : Frame) : f.bytes.length = f.size := by
  simp [bytes, size]

@[simp] theorem header_payloadLen (f : Frame) : f.header.payloadLen.toNat = f.payload.length :=
  UInt32.toNat_ofNat_of_lt' f.payload_lt

theorem bytes_stamped (f : Frame) (fromID : UInt64) :
    (f.stamped fromID).bytes = stampSender f.bytes fromID :=
  (stampSender_marshal f.header f.payload fromID).symm

end Frame

def encode (fs : List Frame) : List UInt8 := fs.flatMap Frame.bytes

@[simp] theorem encode_nil : encode [] = [] := rfl

theorem encode_cons (f : Frame) (fs : List Frame) :
    encode (f :: fs) = f.header.marshal ++ (f.payload ++ encode fs) := by
  simp [encode, Frame.bytes]

theorem readFull_header (f : Frame) (rest : List UInt8) :
    readFull headerSize (f.header.marshal ++ rest) = some (f.header.marshal, rest) := by
  have h := readFull_append f.header.marshal rest
  rwa [length_marshal] at h

theorem readFull_payload (f : Frame) (rest : List UInt8) :
    readFull f.header.payloadLen.toNat (f.payload ++ rest) = some (f.payload, rest) := by
  rw [f.header_payloadLen]
  exact readFull_append f.payload rest

theorem unmarshal_header (f : Frame) : unmarshal f.header.marshal = .ok f.header := by
  have h := unmarshal_marshal f.header []
  rwa [List.append_nil] at h

theorem Frame.take_bytes (f : Frame) : f.bytes.take headerSize = f.header.marshal :=
  List.take_left' (length_marshal f.header)

theorem Frame.drop_bytes (f : Frame) : f.bytes.drop headerSize = f.payload :=
  List.drop_left' (length_marshal f.header)

theorem Frame.headerSize_le (f : Frame) : ¬ f.bytes.length < headerSize := by
  simp [Frame.size]

end LatticeMesh.Relay
