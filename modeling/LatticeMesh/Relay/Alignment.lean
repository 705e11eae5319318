import LatticeMesh.Relay.Server

/-!
# Does the TCP server stay on frame boundaries?

`session` says what a stream of frames calls for, frame by frame.
-/

namespace LatticeMesh.Relay

open Bytes List

inductive Verdict where
  | close
  | use (h : Handler) (ev : List Event)
  | ignore (h : Handler)

def Frame.relayed (f : Frame) (fromId : UInt64) : List UInt8 :=
  if f.cmd = Cmd.forward then (f.stamped fromId).bytes else f.bytes

def plainVerdict (h : Handler) (f : Frame) : Verdict :=
  if f.cmd = Cmd.forward ∨ f.cmd = Cmd.probe then
    if f.payload.length > maxForwardPayload then .close
    else .use h [.relay f.toID.toUInt64 (f.relayed h.fromId)]
  else .ignore h

def verdict (cfg : ServerConfig) (h : Handler) (f : Frame) : Verdict :=
  match h.pending with
  | some ch =>
    if f.cmd = Cmd.authResponse then
      if f.payload.length > authResponsePayload then .close
      else
        match ch.verifyResponse cfg.x25519 h.fromId.toUInt32 f.payload with
        | .error _ => .close
        | .ok () =>
          .use { h with pending := none, registered := true }
            [if h.registered then .markVerified else .register true]
    else if cfg.requirePeerAuth then .close
    else plainVerdict { h with pending := none } f
  | none => plainVerdict h f

def session (cfg : ServerConfig) : Handler → Nat → List Frame → List Event
  | h, _, [] => h.close
  | h, pos, f :: fs =>
    .header pos ::
      match verdict cfg h f with
      | .close => h.close
      | .use h' ev => ev ++ session cfg h' (pos + f.size) fs
      | .ignore h' => session cfg h' (pos + f.size) fs

def Drained (cfg : ServerConfig) : Handler → List Frame → Prop
  | _, [] => True
  | h, f :: fs =>
    match verdict cfg h f with
    | .close => True
    | .use h' _ => Drained cfg h' fs
    | .ignore h' => f.payload = [] ∧ Drained cfg h' fs ∨ fs = [] ∧ f.payload.length < headerSize

def accept (cfg : ServerConfig) (challenge : Option Challenge) (reg : Frame) :
    Option (Handler × List Event) :=
  if reg.payload.length ≤ maxRegisterPayload ∧ cfg.checkRegisterToken reg.payload = true then
    startSession cfg reg.toID.toUInt64 challenge
  else none

def boltSession (cfg : ServerConfig) (challenge : Option Challenge) (reg : Frame)
    (fs : List Frame) : List Event :=
  .header 0 ::
    match accept cfg challenge reg with
    | none => []
    | some (h, ev) => ev ++ session cfg h reg.size fs

def BoltDrained (cfg : ServerConfig) (challenge : Option Challenge) (reg : Frame)
    (fs : List Frame) : Prop :=
  ∀ h ev, accept cfg challenge reg = some (h, ev) → Drained cfg h fs

def Verdict.next (f : Frame) (rest : List UInt8) : Verdict → Next
  | .close => .stop
  | .use h ev => .again h rest ev
  | .ignore h => .again h (f.payload ++ rest) []

theorem relayFrame_frame (h : Handler) (f : Frame) (rest : List UInt8) :
    relayFrame h f.header.marshal f.header (f.payload ++ rest) =
      if f.payload.length > maxForwardPayload then .stop
      else .again h rest [.relay f.toID.toUInt64 (f.relayed h.fromId)] := by
  unfold relayFrame
  rw [readFull_payload, f.header_payloadLen]
  simp only [Frame.relayed, Frame.bytes_stamped]
  rfl

theorem serveCmd_frame (h : Handler) (f : Frame) (rest : List UInt8) :
    serveCmd h f.header.marshal f.header (f.payload ++ rest) =
      (plainVerdict h f).next f rest := by
  unfold serveCmd plainVerdict
  rw [relayFrame_frame]
  have hcmd : f.header.cmd = f.cmd := rfl
  rw [hcmd]
  split
  · next hka =>
    rw [hka, if_neg (by decide)]
    rfl
  split
  · split <;> rfl
  · rfl

theorem iterate_frame (cfg : ServerConfig) (h : Handler) (f : Frame) (rest : List UInt8) :
    iterate cfg h f.header.marshal f.header (f.payload ++ rest) =
      (verdict cfg h f).next f rest := by
  unfold iterate verdict
  cases h.pending with
  | none => exact serveCmd_frame h f rest
  | some ch =>
    have hcmd : f.header.cmd = f.cmd := rfl
    simp only [hcmd]
    split
    · unfold authResponse
      rw [readFull_payload, f.header_payloadLen]
      split
      · rfl
      · dsimp only
        cases ch.verifyResponse cfg.x25519 h.fromId.toUInt32 f.payload <;> rfl
    split
    · rfl
    · exact serveCmd_frame _ f rest

variable {cfg : ServerConfig} {h : Handler}

theorem serve_head {fuel : Nat} {pos : Nat} {input : List UInt8} {tr : List Event}
    (hlen : headerSize ≤ input.length) (hs : serve cfg fuel h pos input = some tr) :
    ∃ tr', tr = .header pos :: tr' := by
  cases fuel with
  | zero => cases hs
  | succ fuel =>
    unfold serve at hs
    rw [readFull, if_pos hlen] at hs
    have hok : ∃ hdr, unmarshal (input.take headerSize) = .ok hdr :=
      unmarshal_of_length (by simp [hlen])
    obtain ⟨hdr, hhdr⟩ := hok
    simp only [hhdr] at hs
    split at hs
    · exact ⟨_, (Option.some.inj hs).symm⟩
    · obtain ⟨tr', -, rfl⟩ := Option.map_eq_some_iff.1 hs
      exact ⟨_, rfl⟩

theorem serve_short (cfg : ServerConfig) (fuel : Nat) (h : Handler) (pos : Nat)
    {input : List UInt8} (hlen : input.length < headerSize) :
    serve cfg (fuel + 1) h pos input = some h.close := by
  unfold serve
  rw [readFull_of_lt hlen]

theorem session_head {pos p : Nat} {fs : List Frame} {tr : List Event}
    (hs : session cfg h pos fs = .header p :: tr) : p = pos ∧ fs ≠ [] := by
  cases fs with
  | nil =>
    unfold session Handler.close at hs
    split at hs <;> cases hs
  | cons f fs =>
    unfold session at hs
    cases hs
    exact ⟨rfl, cons_ne_nil _ _⟩

theorem serve_frame (cfg : ServerConfig) (fuel : Nat) (h : Handler) (pos : Nat) (f : Frame)
    (rest : List UInt8) :
    serve cfg (fuel + 1) h pos (f.header.marshal ++ (f.payload ++ rest)) =
      match verdict cfg h f with
      | .close => some (.header pos :: h.close)
      | .use h' ev =>
        (serve cfg fuel h' (pos + f.size) rest).map fun tr => .header pos :: (ev ++ tr)
      | .ignore h' =>
        (serve cfg fuel h' (pos + headerSize) (f.payload ++ rest)).map
          fun tr => .header pos :: tr := by
  rw [serve, readFull_header]
  simp only [unmarshal_header, iterate_frame]
  cases verdict cfg h f with
  | close => rfl
  | use h' ev =>
    have hsize : (f.header.marshal ++ (f.payload ++ rest)).length - rest.length = f.size := by
      simp [Frame.size]
      omega
    simp only [Verdict.next, hsize]
  | ignore h' =>
    have hsize : (f.header.marshal ++ (f.payload ++ rest)).length - (f.payload ++ rest).length =
        headerSize := by simp
    simp only [Verdict.next, hsize, nil_append]

theorem serve_ignored_iff (pos : Nat) {fuel : Nat} {f : Frame} {fs : List Frame}
    (hfuel : (f.payload ++ encode fs).length < fuel)
    (ih : serve cfg fuel h (pos + f.size) (encode fs) = some (session cfg h (pos + f.size) fs) ↔
      Drained cfg h fs) :
    serve cfg fuel h (pos + headerSize) (f.payload ++ encode fs) =
        some (session cfg h (pos + f.size) fs) ↔
      f.payload = [] ∧ Drained cfg h fs ∨ fs = [] ∧ f.payload.length < headerSize := by
  by_cases hp : f.payload = []
  · have hsize : f.size = headerSize := by simp [Frame.size, hp]
    rw [hsize] at ih ⊢
    rw [hp, nil_append, ih]
    constructor
    · exact fun hd => .inl ⟨rfl, hd⟩
    rintro (⟨-, hd⟩ | ⟨rfl, -⟩)
    · exact hd
    · trivial
  have hne : f.size ≠ headerSize := by
    have := length_pos_iff.2 hp
    unfold Frame.size
    omega
  simp only [hp, false_and, false_or]
  constructor
  · intro hs
    by_cases hlen : headerSize ≤ (f.payload ++ encode fs).length
    · -- the next header is decoded inside the payload
      obtain ⟨tr', htr⟩ := serve_head hlen hs
      obtain ⟨hpos, -⟩ := session_head htr
      omega
    cases fs with
    | nil => exact ⟨rfl, by simpa using hlen⟩
    | cons g gs =>
      rw [encode_cons] at hlen
      simp at hlen
      omega
  rintro ⟨rfl, hlen⟩
  obtain ⟨k, rfl⟩ := Nat.exists_eq_succ_of_ne_zero (Nat.ne_zero_of_lt hfuel)
  exact serve_short cfg k h _ (by simpa using hlen)

theorem serve_encode_iff (cfg : ServerConfig) (fs : List Frame) (h : Handler) (pos fuel : Nat)
    (hfuel : (encode fs).length < fuel) :
    serve cfg fuel h pos (encode fs) = some (session cfg h pos fs) ↔ Drained cfg h fs := by
  induction fs generalizing h pos fuel with
  | nil =>
    obtain ⟨k, rfl⟩ := Nat.exists_eq_succ_of_ne_zero (Nat.ne_zero_of_lt hfuel)
    simp [serve_short cfg k h pos (by decide : ([] : List UInt8).length < headerSize), session,
      Drained]
  | cons f fs ih =>
    obtain ⟨k, rfl⟩ := Nat.exists_eq_succ_of_ne_zero (Nat.ne_zero_of_lt hfuel)
    have hk : (f.payload ++ encode fs).length < k := by
      rw [encode_cons, length_append, length_marshal] at hfuel
      unfold headerSize at hfuel
      omega
    have hk' : (encode fs).length < k := by
      rw [length_append] at hk
      omega
    rw [encode_cons, serve_frame]
    unfold session Drained
    cases verdict cfg h f with
    | close => simp
    | use h' ev => simp [ih h' (pos + f.size) k hk']
    | ignore h' => simp [← serve_ignored_iff pos hk (ih h' (pos + f.size) k hk')]

theorem readRegister_encode (cfg : ServerConfig) {reg : Frame} (hreg : reg.cmd = Cmd.register)
    (fs : List Frame) :
    readRegister cfg (encode (reg :: fs)) =
      if reg.payload.length ≤ maxRegisterPayload ∧ cfg.checkRegisterToken reg.payload = true then
        some (reg.toID.toUInt64, encode fs)
      else none := by
  have hcmd : reg.header.cmd = Cmd.register := hreg
  unfold readRegister
  rw [encode_cons, readFull_header]
  simp only [unmarshal_header, hcmd]
  rw [readFull_payload, reg.header_payloadLen]
  by_cases hlen : reg.payload.length ≤ maxRegisterPayload
  · simp [hlen, Nat.not_lt.2 hlen, Frame.header]
  · simp [hlen, Nat.lt_of_not_le hlen]

/-- **When the server stays on frame boundaries.** -/
theorem handleBoltSession_eq_iff (cfg : ServerConfig) (challenge : Option Challenge) (reg : Frame)
    (hreg : reg.cmd = Cmd.register) (fs : List Frame) :
    handleBoltSession cfg challenge (encode (reg :: fs)) =
        some (boltSession cfg challenge reg fs) ↔
      BoltDrained cfg challenge reg fs := by
  have hfst : ¬ (encode (reg :: fs)).length < headerSize := by
    rw [encode_cons]
    simp
  have hpos : (encode (reg :: fs)).length - (encode fs).length = reg.size := by
    rw [encode_cons]
    simp [Frame.size]
    omega
  unfold handleBoltSession boltSession BoltDrained accept
  rw [if_neg hfst, readRegister_encode cfg hreg]
  by_cases hacc : reg.payload.length ≤ maxRegisterPayload ∧
      cfg.checkRegisterToken reg.payload = true
  · simp only [if_pos hacc]
    cases startSession cfg reg.toID.toUInt64 challenge with
    | none => simp
    | some a =>
      obtain ⟨h, ev⟩ := a
      have hloop := serve_encode_iff cfg fs h reg.size ((encode fs).length + 1) (Nat.lt_succ_self _)
      simp only [hpos]
      simp [← hloop]
  · simp [if_neg hacc]

def openServer : ServerConfig := ⟨[], false, fun _ _ => .error "unused"⟩

def registerFrame : Frame := ⟨0, Cmd.register, 5, 0, [], by decide⟩

def forwardFrame : Frame := ⟨1, Cmd.forward, 9, 0, [0xAA], by decide⟩

def keepAliveFrame : Frame :=
  ⟨1, Cmd.keepAlive, 0, 0, [0, 0, 0, 0, 0, 0, 2, 9, 0, 0, 0, 0], by decide⟩

theorem handleBoltSession_eq_keepAlive :
    registerFrame.cmd = Cmd.register ∧
      handleBoltSession openServer none (encode [registerFrame, forwardFrame,
          { keepAliveFrame with payload := [], payload_lt := by decide }, forwardFrame]) =
        some (boltSession openServer none registerFrame [forwardFrame,
          { keepAliveFrame with payload := [], payload_lt := by decide }, forwardFrame]) := by
  refine ⟨rfl, (handleBoltSession_eq_iff _ _ _ rfl _).2 ?_⟩
  rintro h ev hacc
  cases hacc
  exact .inl ⟨rfl, trivial⟩

theorem keepAlive_payload_relayed :
    handleBoltSession openServer none (encode [registerFrame, keepAliveFrame]) =
        some [.header 0, .register false, .header 12, .header 24,
          .relay 9 [0, 0, 0, 0, 0, 0, 2, 5, 0, 0, 0, 0], .unregister] ∧
      boltSession openServer none registerFrame [keepAliveFrame] =
        [.header 0, .register false, .header 12, .unregister] := by
  decide +kernel

end LatticeMesh.Relay
