import LatticeMesh.Lib.Arrivals
import LatticeMesh.Lib.LTS
import LatticeMesh.Relay.Client

/-! # Does the TCP client stay on frame boundaries? -/

namespace LatticeMesh.Relay

open Bytes List Arrival

structure Rx where
  input : List (Arrival UInt8)
  consumed : ℕ := 0
  out : List Received := []
  dropped : Bool := false
  deriving DecidableEq

namespace Rx

def advance (rx : Rx) (rest : List (Arrival UInt8)) (n : ℕ) : Rx :=
  { rx with input := rest, consumed := rx.consumed + n }

def drop (rx : Rx) : Rx := { rx with dropped := true }

def payload (rx : Rx) (n : ℕ) (handle : List UInt8 → List Received) : Option Rx :=
  match Arrival.read n rx.input with
  | .blocked => none
  | .complete buf rest => some { rx.advance rest n with out := rx.out ++ handle buf }
  | .timeout _ _ | .broken _ _ => some rx.drop

def skip (rx : Rx) (n : ℕ) : Option Rx :=
  match Arrival.read n rx.input with
  | .blocked => none
  | .complete _ rest => some (rx.advance rest n)
  | .timeout lost rest | .broken lost rest => some (rx.advance rest lost.length)

def dispatch (rx : Rx) (bufLen : ℕ) (room : Bool) (hdr : Header) : Option Rx :=
  let n := hdr.payloadLen.toNat
  if hdr.cmd = Cmd.probe then
    if n > maxProbePayload then rx.payload n fun _ => []
    else rx.payload n fun buf => if room then [.probe hdr.toID.toUInt64 buf] else []
  else if hdr.cmd = Cmd.forward then
    if n > bufLen then rx.payload n fun _ => []
    else rx.payload n fun buf => [.packet buf hdr.toID.toUInt64]
  else rx.skip n

def receive (rx : Rx) (bufLen : ℕ) (room : Bool) : Option Rx :=
  match Arrival.read headerSize rx.input with
  | .blocked => none
  | .timeout lost rest => some (rx.advance rest lost.length)
  | .broken _ _ => some rx.drop
  | .complete headBuf rest =>
    match unmarshal headBuf with
    | .error _ => some (rx.advance rest headerSize)
    | .ok hdr => (rx.advance rest headerSize).dispatch bufLen room hdr

inductive Await where
  | legacy (rx : Rx)
  | refused
  | challenge (challenge : List UInt8) (rx : Rx)

def awaitChallenge (rx : Rx) : Option Await :=
  match Arrival.read headerSize rx.input with
  | .blocked => none
  | .timeout lost rest | .broken lost rest => some (.legacy (rx.advance rest lost.length))
  | .complete headBuf rest =>
    match unmarshal headBuf with
    | .error _ => some .refused
    | .ok hdr =>
      if hdr.cmd ≠ Cmd.authChallenge ∨ hdr.payloadLen.toNat ≠ keySize then some .refused
      else
        match Arrival.read keySize rest with
        | .blocked => none
        | .timeout _ _ | .broken _ _ => some .refused
        | .complete challenge rest' =>
          some (.challenge challenge ((rx.advance rest headerSize).advance rest' keySize))

def exchange (rx : Rx) (answered : Bool) : Option Rx :=
  rx.awaitChallenge.map fun
    | .legacy rx' => rx'
    | .refused => rx.drop
    | .challenge _ rx' => if answered then rx' else rx'.drop

inductive Call where
  | exchange (answered : Bool)
  | receive (bufLen : ℕ) (room : Bool)

def step (rx : Rx) : Call → Option Rx
  | .exchange answered => if rx.dropped then none else rx.exchange answered
  | .receive bufLen room => if rx.dropped then none else rx.receive bufLen room

def system (input : List (Arrival UInt8)) : LTS Rx Call where
  init rx := rx = { input := input }
  step rx call rx' := rx.step call = some rx'

end Rx

def Frame.received (f : Frame) : List Received :=
  if f.cmd = Cmd.probe then [.probe f.toID.toUInt64 f.payload]
  else if f.cmd = Cmd.forward then [.packet f.payload f.toID.toUInt64]
  else []

def received (fs : List Frame) : List Received := fs.flatMap Frame.received

namespace Rx

def broken (rx : Rx) : Prop := rx.input.head? = some .broken

def Aligned (fs : List Frame) (rx : Rx) : Prop :=
  ∃ before, before <+: fs ∧ rx.out = received before ∧
    (rx.dropped = true ∨ rx.broken ∨ rx.consumed = (encode before).length)

def Whole (rx : Rx) : Call → Prop
  | .exchange _ =>
    match Arrival.read headerSize rx.input with
    | .timeout lost _ => lost = []
    | _ => True
  | .receive bufLen room =>
    match Arrival.read headerSize rx.input with
    | .timeout lost _ => lost = []
    | .complete headBuf rest =>
      match unmarshal headBuf with
      | .error _ => True
      | .ok hdr =>
        if hdr.cmd = Cmd.probe then hdr.payloadLen.toNat ≤ maxProbePayload ∧ room = true
        else if hdr.cmd = Cmd.forward then hdr.payloadLen.toNat ≤ bufLen
        else
          match Arrival.read hdr.payloadLen.toNat rest with
          | .timeout _ _ => False
          | _ => True
    | _ => True

end Rx

theorem encode_append (fs gs : List Frame) : encode (fs ++ gs) = encode fs ++ encode gs :=
  flatMap_append

theorem length_encode_cons (f : Frame) (fs : List Frame) :
    (encode (f :: fs)).length = f.size + (encode fs).length := by
  rw [encode, flatMap_cons, length_append, Frame.length_bytes, encode]

theorem Frame.size_pos (f : Frame) : 0 < f.size := by
  unfold Frame.size headerSize
  omega

theorem received_concat (fs : List Frame) (f : Frame) :
    received (fs ++ [f]) = received fs ++ f.received := by
  simp [received]

theorem eq_of_length_encode {fs gs : List Frame} (h : fs <+: gs)
    (hlen : (encode fs).length = (encode gs).length) : fs = gs := by
  obtain ⟨rest, rfl⟩ := h
  cases rest with
  | nil => simp
  | cons f rest =>
    have hpos := f.size_pos
    rw [encode_append, length_append, length_encode_cons] at hlen
    omega

theorem not_boundary {before rem gs : List Frame} {f : Frame} {j : ℕ}
    (hgs : gs <+: before ++ f :: rem) (hpos : 0 < j) (hlt : j < f.size) :
    (encode gs).length ≠ (encode before).length + j := by
  intro hlen
  obtain hle | hle := prefix_or_prefix_of_prefix hgs (prefix_append before (f :: rem))
  · obtain ⟨t, rfl⟩ := hle
    rw [encode_append, length_append] at hlen
    omega
  obtain ⟨t, rfl⟩ := hle
  rw [encode_append, length_append] at hlen
  cases t with
  | nil =>
    rw [encode_nil, length_nil] at hlen
    omega
  | cons g t =>
    obtain ⟨rfl, -⟩ := cons_prefix_cons.1 ((prefix_append_right_inj before).1 hgs)
    rw [length_encode_cons] at hlen
    omega

theorem prefix_append_cancel {α : Type} {a b c d : List α} (hlen : a.length = c.length)
    (h : a ++ b <+: c ++ d) : a = c ∧ b <+: d := by
  obtain ⟨t, ht⟩ := h
  rw [append_assoc] at ht
  obtain ⟨hac, hbd⟩ := append_inj ht hlen
  exact ⟨hac, t, hbd⟩

theorem read_header {fs : List Frame} {input rest : List (Arrival UInt8)} {headB : List UInt8}
    (hfits : Arrival.items input <+: encode fs)
    (h : Arrival.read headerSize input = .complete headB rest) :
    ∃ f fs', fs = f :: fs' ∧ headB = f.header.marshal ∧
      Arrival.items rest <+: f.payload ++ encode fs' := by
  obtain ⟨hlen, hit⟩ := read_complete h
  rw [hit] at hfits
  cases fs with
  | nil =>
    have hnil := append_eq_nil_iff.1 (prefix_nil.1 hfits)
    rw [hnil.1] at hlen
    cases hlen
  | cons f fs' =>
    rw [encode_cons] at hfits
    obtain ⟨hhead, hrest⟩ := prefix_append_cancel (by rw [hlen, length_marshal]) hfits
    exact ⟨f, fs', rfl, hhead, hrest⟩

def Frame.handed (f : Frame) (bufLen : ℕ) (room : Bool) : List Received :=
  if f.cmd = Cmd.probe then
    if f.payload.length ≤ maxProbePayload ∧ room = true then f.received else []
  else if f.cmd = Cmd.forward then if f.payload.length ≤ bufLen then f.received else []
  else []

theorem forward_ne_probe : Cmd.forward ≠ Cmd.probe := by decide

theorem Frame.handed_probe (f : Frame) (h : f.cmd = Cmd.probe) {bufLen : ℕ} {room : Bool} :
    f.handed bufLen room = f.received ↔ f.payload.length ≤ maxProbePayload ∧ room = true := by
  rw [handed, if_pos h]
  split
  · next hfits => exact iff_of_true rfl hfits
  · next hlost => exact iff_of_false (by simp [received, h]) hlost

theorem Frame.handed_forward (f : Frame) (h : f.cmd = Cmd.forward) {bufLen : ℕ} {room : Bool} :
    f.handed bufLen room = f.received ↔ f.payload.length ≤ bufLen := by
  rw [handed, if_neg (h ▸ forward_ne_probe), if_pos h]
  split
  · next hfits => exact iff_of_true rfl hfits
  · next hlost => exact iff_of_false (by simp [received, h, forward_ne_probe]) hlost

namespace Rx

variable {rx rx' : Rx} {fs : List Frame} {bufLen : ℕ} {room : Bool}

theorem advance_advance (rest rest' : List (Arrival UInt8)) (n m : ℕ) :
    (rx.advance rest n).advance rest' m = rx.advance rest' (n + m) := by
  unfold advance
  rw [Nat.add_assoc]

inductive Round (rx : Rx) (fs : List Frame) (call : Call) (handed : Frame → List Received)
    (rx' : Rx) : Prop
  | dropped (hdropped : rx'.dropped = true) (hout : rx'.out = rx.out)
  | broken (hbroken : rx'.broken) (hout : rx'.out = rx.out)
  | timeout {lost : List UInt8} {rest : List (Arrival UInt8)}
      (hread : Arrival.read headerSize rx.input = .timeout lost rest)
      (hrx' : rx' = rx.advance rest lost.length)
  | frame {f : Frame} {fs' : List Frame} {rest : List (Arrival UInt8)} (hfs : fs = f :: fs')
      (hwhole : rx.Whole call ↔ handed f = f.received) (hfits : Arrival.items rest <+: encode fs')
      (hrx' : rx' = { rx.advance rest f.size with out := rx.out ++ handed f })
  | cut {f : Frame} {fs' : List Frame} {rest : List (Arrival UInt8)} {n : ℕ} (hfs : fs = f :: fs')
      (hpos : 0 < n) (hlt : n < f.size) (hwhole : ¬ rx.Whole call) (hrx' : rx' = rx.advance rest n)

abbrev ReceiveRound (rx : Rx) (fs : List Frame) (bufLen : ℕ) (room : Bool) : Rx → Prop :=
  rx.Round fs (.receive bufLen room) fun f => f.handed bufLen room

theorem payload_round {f : Frame} {fs' : List Frame} {handle : List UInt8 → List Received}
    (hfits : Arrival.items rx.input <+: f.payload ++ encode fs')
    (h : rx.payload f.payload.length handle = some rx') :
    rx'.dropped = true ∧ rx'.out = rx.out ∨ ∃ rest, Arrival.items rest <+: encode fs' ∧
      rx' = { rx.advance rest f.payload.length with out := rx.out ++ handle f.payload } := by
  unfold payload at h
  split at h
  · cases h
  · next buf rest hread =>
    obtain ⟨hlen, hit⟩ := read_complete hread
    obtain ⟨rfl, hrest⟩ := prefix_append_cancel hlen (hit ▸ hfits)
    exact .inr ⟨rest, hrest, (Option.some.inj h).symm⟩
  · exact .inl (Option.some.inj h ▸ ⟨rfl, rfl⟩)
  · exact .inl (Option.some.inj h ▸ ⟨rfl, rfl⟩)

section

variable {f : Frame} {fs' : List Frame} {rest : List (Arrival UInt8)}

theorem whole_iff (bufLen : ℕ) (room : Bool)
    (hread : Arrival.read headerSize rx.input = .complete f.header.marshal rest) :
    rx.Whole (.receive bufLen room) ↔
      if f.cmd = Cmd.probe then f.payload.length ≤ maxProbePayload ∧ room = true
      else if f.cmd = Cmd.forward then f.payload.length ≤ bufLen
      else
        match Arrival.read f.payload.length rest with
        | .timeout _ _ => False
        | _ => True := by
  simp only [Whole, hread, unmarshal_header, Frame.header_payloadLen]
  rfl

theorem whole_timeout {lost : List UInt8} {call : Call}
    (hread : Arrival.read headerSize rx.input = .timeout lost rest) :
    rx.Whole call ↔ lost = [] := by
  cases call <;> simp [Whole, hread]

theorem payload_frame (hfits : Arrival.items rest <+: f.payload ++ encode fs')
    {handle : List UInt8 → List Received} (hhan : handle f.payload = f.handed bufLen room)
    (hwh : rx.Whole (.receive bufLen room) ↔ f.handed bufLen room = f.received)
    (h : (rx.advance rest headerSize).payload f.payload.length handle = some rx') :
    rx.ReceiveRound (f :: fs') bufLen room rx' := by
  obtain ⟨hdrop, hout⟩ | ⟨rest', hrest', hrx'⟩ := payload_round hfits h
  · exact .dropped hdrop hout
  refine .frame rfl hwh hrest' (hrx'.trans ?_)
  rw [hhan]
  simp only [advance, Frame.size, Nat.add_assoc]

theorem skip_frame (hread : Arrival.read headerSize rx.input = .complete f.header.marshal rest)
    (hfits : Arrival.items rest <+: f.payload ++ encode fs') (hpro : f.cmd ≠ Cmd.probe)
    (hfor : f.cmd ≠ Cmd.forward)
    (h : (rx.advance rest headerSize).skip f.payload.length = some rx') :
    rx.ReceiveRound (f :: fs') bufLen room rx' := by
  have hwh := whole_iff bufLen room hread
  rw [if_neg hpro, if_neg hfor] at hwh
  unfold skip at h
  split at h
  · cases h
  · next buf rest' hrest =>
    obtain ⟨hlen, hit⟩ := read_complete hrest
    obtain ⟨rfl, hfits'⟩ := prefix_append_cancel hlen (hit ▸ hfits)
    have hnone : f.handed bufLen room = [] := by simp [Frame.handed, hpro, hfor]
    have hnone' : f.received = [] := by simp [Frame.received, hpro, hfor]
    refine .frame rfl ?_ hfits' ((Option.some.inj h).symm.trans ?_)
    · rw [hwh, hnone, hnone', show Arrival.read f.payload.length rest = _ from hrest]
      simp
    · rw [hnone, append_nil, advance_advance]
      rfl
  · next lost rest' hrest =>
    obtain ⟨hlen, -⟩ := read_timeout hrest
    have hrx' := (Option.some.inj h).symm.trans (advance_advance ..)
    refine .cut rfl ?_ ?_ ?_ hrx'
    · unfold headerSize; omega
    · unfold Frame.size; omega
    · rw [hwh, show Arrival.read f.payload.length rest = _ from hrest]
      exact id
  next lost rest' hrest =>
  obtain ⟨-, -, hbr⟩ := read_broken hrest
  exact .broken (Option.some.inj h ▸ hbr) (Option.some.inj h ▸ rfl)

theorem dispatch_round (hread : Arrival.read headerSize rx.input = .complete f.header.marshal rest)
    (hfits : Arrival.items rest <+: f.payload ++ encode fs')
    (h : (rx.advance rest headerSize).dispatch bufLen room f.header = some rx') :
    rx.ReceiveRound (f :: fs') bufLen room rx' := by
  have hwh := whole_iff bufLen room hread
  simp only [dispatch, Frame.header_payloadLen] at h
  have hcmd : f.header.cmd = f.cmd := rfl
  rw [hcmd] at h
  by_cases hpro : f.cmd = Cmd.probe
  · rw [if_pos hpro] at h hwh
    rw [← f.handed_probe hpro] at hwh
    split at h
    · next hlar =>
      refine payload_frame hfits ?_ hwh h
      simp [Frame.handed, hpro, Nat.not_le.2 hlar]
    next hsma =>
    refine payload_frame hfits ?_ hwh h
    simp [Frame.handed, Frame.received, hpro, Nat.not_lt.1 hsma, Frame.header]
  rw [if_neg hpro] at h hwh
  by_cases hfor : f.cmd = Cmd.forward
  · rw [if_pos hfor] at h hwh
    rw [← f.handed_forward hfor] at hwh
    split at h
    · next hlar =>
      refine payload_frame hfits ?_ hwh h
      simp [Frame.handed, forward_ne_probe, hfor, Nat.not_le.2 hlar]
    next hsma =>
    refine payload_frame hfits ?_ hwh h
    simp [Frame.handed, Frame.received, forward_ne_probe, hfor, Nat.not_lt.1 hsma,
      Frame.header]
  · rw [if_neg hfor] at h
    exact skip_frame hread hfits hpro hfor h

end

theorem receive_round (hfits : Arrival.items rx.input <+: encode fs)
    (h : rx.receive bufLen room = some rx') : rx.ReceiveRound fs bufLen room rx' := by
  unfold receive at h
  split at h
  · cases h
  · next lost rest hread => exact .timeout hread (Option.some.inj h).symm
  · exact .dropped (Option.some.inj h ▸ rfl) (Option.some.inj h ▸ rfl)
  next headB rest hread =>
  obtain ⟨f, fs', rfl, rfl, hrest⟩ := read_header hfits hread
  rw [unmarshal_header] at h
  exact dispatch_round hread hrest h

theorem exchange_round {answered : Bool} (hfits : Arrival.items rx.input <+: encode fs)
    (h : rx.exchange answered = some rx') :
    rx.Round fs (.exchange answered) (fun _ => []) rx' := by
  obtain ⟨a, ha, rfl⟩ := Option.map_eq_some_iff.1 h
  unfold awaitChallenge at ha
  split at ha
  · cases ha
  · next lost rest hread =>
    cases ha
    exact .timeout hread rfl
  · next lost rest hread =>
    cases ha
    exact .broken (read_broken hread).2.2 rfl
  next headB rest hread =>
  obtain ⟨f, fs', rfl, rfl, hrest⟩ := read_header hfits hread
  rw [unmarshal_header] at ha
  simp only at ha
  split at ha
  · cases ha
    exact .dropped rfl rfl
  next hcha =>
  rw [Frame.header_payloadLen, not_or, not_not, not_not] at hcha
  obtain ⟨hcmd, hlen⟩ : f.cmd = Cmd.authChallenge ∧ f.payload.length = keySize := hcha
  split at ha
  · cases ha
  · cases ha
    exact .dropped rfl rfl
  · cases ha
    exact .dropped rfl rfl
  next challenge rest' hread' =>
  cases ha
  obtain ⟨hlen', hit⟩ := read_complete hread'
  obtain ⟨-, hfits'⟩ := prefix_append_cancel (hlen'.trans hlen.symm) (hit ▸ hrest)
  cases answered with
  | false => exact .dropped rfl rfl
  | true =>
    refine .frame rfl ?_ hfits' ?_
    · have hnone : f.received = [] := by
        rw [Frame.received, if_neg (hcmd ▸ by decide), if_neg (hcmd ▸ by decide)]
      simp [Whole, hread, hnone]
    show (rx.advance rest headerSize).advance rest' keySize = _
    rw [advance_advance, append_nil, ← hlen]
    rfl

def Inv (fs : List Frame) (rx : Rx) : Prop :=
  ∃ before rem, fs = before ++ rem ∧ rx.out = received before ∧
    (rx.dropped = true ∨ rx.broken ∨
      rx.consumed = (encode before).length ∧ Arrival.items rx.input <+: encode rem)

theorem Inv.aligned (h : Inv fs rx) : rx.Aligned fs := by
  obtain ⟨before, rem, rfl, hout, hrx⟩ := h
  exact ⟨before, prefix_append before rem, hout, hrx.imp id (.imp id And.left)⟩

variable {call : Call} {handed : Frame → List Received} {before rem : List Frame}

theorem Round.inv (hout : rx.out = received before)
    (hcons : rx.consumed = (encode before).length)
    (hfits : Arrival.items rx.input <+: encode rem) (h : rx.Round rem call handed rx')
    (hwh : rx.Whole call) : Inv (before ++ rem) rx' := by
  cases h with
  | dropped hdrop hout' => exact ⟨before, rem, rfl, hout'.trans hout, .inl hdrop⟩
  | broken hbr hout' => exact ⟨before, rem, rfl, hout'.trans hout, .inr (.inl hbr)⟩
  | timeout hread hrx' =>
    rw [whole_timeout hread] at hwh
    subst hwh hrx'
    refine ⟨before, rem, rfl, hout, .inr (.inr ⟨hcons, ?_⟩)⟩
    rw [(read_timeout hread).2] at hfits
    exact hfits
  | @frame f fs' rest hfs hhan hfits' hrx' =>
    subst hfs hrx'
    refine ⟨before ++ [f], fs', by simp, ?_, .inr (.inr ⟨?_, hfits'⟩)⟩
    · rw [received_concat, ← hout, ← hhan.1 hwh]
    · rw [encode_append, length_append, length_encode_cons, encode_nil, ← hcons]
      rfl
  | cut hfs hpos hlt hcut hrx' => exact absurd hwh hcut

theorem Round.whole (hout : rx.out = received before)
    (hcons : rx.consumed = (encode before).length)
    (hfits : Arrival.items rx.input <+: encode rem) (h : rx.Round rem call handed rx')
    (hali : rx'.Aligned (before ++ rem)) (hdrop : rx'.dropped = false)
    (hbr : ¬ rx'.broken) : rx.Whole call := by
  obtain ⟨before', hbef', hout', hrx'⟩ := hali
  have hcons' : rx'.consumed = (encode before').length :=
    (hrx'.resolve_left (by simp [hdrop])).resolve_left hbr
  cases h with
  | dropped h _ => exact absurd (h.symm.trans hdrop) nofun
  | broken h _ => exact absurd h hbr
  | @timeout lost rest hread hrx' =>
    obtain ⟨hlt, hit⟩ := read_timeout hread
    rw [whole_timeout hread]
    by_contra hne
    have hpos := length_pos_iff.2 hne
    rw [hit] at hfits
    cases rem with
    | nil => exact hne (append_eq_nil_iff.1 (prefix_nil.1 hfits)).1
    | cons f rem =>
      have hsize : lost.length < f.size := Nat.lt_of_lt_of_le hlt (Nat.le_add_right ..)
      rw [hrx'] at hcons'
      exact not_boundary hbef' hpos hsize (hcons' ▸ hcons ▸ rfl)
  | @frame f fs' rest hfs hhan hfits' hrx' =>
    subst hfs hrx'
    have hlen : (encode before').length = (encode (before ++ [f])).length := by
      rw [← hcons', encode_append, length_append, length_encode_cons, encode_nil,
        ← hcons]
      rfl
    have hnext : before ++ [f] <+: before ++ f :: fs' := by simp
    have heq : before' = before ++ [f] := by
      obtain hle | hle := prefix_or_prefix_of_prefix hbef' hnext
      · exact eq_of_length_encode hle hlen
      · exact (eq_of_length_encode hle hlen.symm).symm
    rw [heq, received_concat, ← hout] at hout'
    exact hhan.2 (append_cancel_left hout')
  | @cut f fs' rest n hfs hpos hlt hcut hrx' =>
    subst hfs
    rw [hrx'] at hcons'
    exact absurd (hcons' ▸ hcons ▸ rfl) (not_boundary hbef' hpos hlt)

theorem step_of_broken (hbr : rx.broken) (h : rx.step call = some rx') :
    rx'.out = rx.out ∧ (rx'.dropped = true ∨ rx'.broken) := by
  have hread := read_of_broken (n := headerSize) (by decide) hbr
  cases call with
  | exchange answered =>
    simp only [step, exchange, awaitChallenge, hread] at h
    split at h
    · cases h
    · cases h
      exact ⟨rfl, .inr hbr⟩
  | receive bufLen room =>
    simp only [step, receive, hread] at h
    split at h
    · cases h
    · cases h
      exact ⟨rfl, .inl rfl⟩

theorem step_round (hfits : Arrival.items rx.input <+: encode fs) (h : rx.step call = some rx') :
    ∃ handed, rx.Round fs call handed rx' := by
  cases call with
  | exchange answered =>
    simp only [step] at h
    split at h
    · cases h
    · exact ⟨_, exchange_round hfits h⟩
  | receive bufLen room =>
    simp only [step] at h
    split at h
    · cases h
    · exact ⟨_, receive_round hfits h⟩

theorem step_of_dropped (h : rx.dropped = true) : rx.step call = none := by
  cases call <;> exact if_pos h

theorem Inv.step (hinv : Inv fs rx) (h : rx.step call = some rx') :
    (rx.Whole call → Inv fs rx') ∧
      (rx'.dropped = false → ¬ rx'.broken → rx'.Aligned fs → rx.Whole call) := by
  obtain ⟨before, rem, rfl, hout, hdrop | hbr | ⟨hcons, hfits⟩⟩ := hinv
  · rw [step_of_dropped hdrop] at h
    cases h
  · obtain ⟨hout', hend⟩ := step_of_broken hbr h
    refine ⟨fun _ => ⟨before, rem, rfl, hout'.trans hout, hend.imp id .inl⟩, ?_⟩
    intro hdrop' hbr'
    exact absurd hend (by simp [hdrop', hbr'])
  obtain ⟨handed, hrou⟩ := step_round hfits h
  exact ⟨hrou.inv hout hcons hfits, fun hdrop' hbr' hali =>
    hrou.whole hout hcons hfits hali hdrop' hbr'⟩

theorem Inv.reachable {input : List (Arrival UInt8)} (hfits : Arrival.items input <+: encode fs)
    (h : ((system input).guard Whole).Reachable rx) : Inv fs rx := by
  refine h.invariant ?_ ?_
  · rintro rx rfl
    exact ⟨[], fs, rfl, rfl, .inr (.inr ⟨rfl, hfits⟩)⟩
  · rintro rx call rx' - hinv ⟨hwh, hstep⟩
    exact (hinv.step hstep).1 hwh

/-- **Alignment of the client.** While every step meets the condition, the frames are handed on once
each and in order and each step starts at a boundary, until the connection is dropped. -/
theorem client_aligned_iff {input : List (Arrival UInt8)}
    (hfits : Arrival.items input <+: encode fs) (h : ((system input).guard Whole).Reachable rx) :
    rx.Aligned fs ∧ ∀ call rx', rx.step call = some rx' → rx'.dropped = false → ¬ rx'.broken →
      (rx'.Aligned fs ↔ rx.Whole call) := by
  have hinv := Inv.reachable hfits h
  refine ⟨hinv.aligned, fun call rx' hstep hdrop hbr => ?_⟩
  obtain ⟨hkeep, hwh⟩ := hinv.step hstep
  exact ⟨hwh hdrop hbr, fun h => (hkeep h).aligned⟩

def inner : Frame := ⟨0, Cmd.forward, 9, 0, [7], by decide⟩

def outer : Frame := ⟨0, Cmd.forward, 0, 0, List.replicate 5 0 ++ inner.bytes, by decide⟩

def inPieces : List (Arrival UInt8) :=
  [.chunk (outer.bytes.take 20), .chunk (outer.bytes.drop 20), .timeout]

theorem pieces_aligned : ∃ rx, ((system inPieces).guard Whole).Reachable rx ∧
    rx.out = [.packet outer.payload 0] ∧ rx.Aligned [outer] := by
  let rx1 : Rx := ⟨[.chunk [], .timeout], 30, [.packet outer.payload 0], false⟩
  let rx2 : Rx := { rx1 with input := [] }
  have hr1 : ((system inPieces).guard Whole).Reachable rx1 :=
    .step (l := .receive 1500 true) (.init rfl)
      ⟨show outer.header.payloadLen.toNat ≤ 1500 by decide,
        show Rx.step { input := inPieces } (.receive 1500 true) = some rx1 by decide⟩
  have hr2 : ((system inPieces).guard Whole).Reachable rx2 :=
    hr1.step (l := .receive 1500 true) ⟨show [] = [] from rfl, rfl⟩
  exact ⟨rx2, hr2, rfl, (client_aligned_iff (by decide) hr2).1⟩

def lateHeader : List (Arrival UInt8) :=
  [.chunk (outer.bytes.take 5), .timeout, .chunk (outer.bytes.drop 5)]

theorem payload_taken_for_frame : ∃ rx, (system lateHeader).Reachable rx ∧
    Arrival.items lateHeader = encode [outer] ∧ rx.dropped = false ∧
    rx.out = [.packet [7] 9] ∧ received [outer] = [.packet outer.payload 0] := by
  let rx1 : Rx := ⟨[.chunk (outer.bytes.drop 5)], 5, [], false⟩
  let rx2 : Rx := ⟨[.chunk inner.bytes], 17, [], false⟩
  let rx3 : Rx := ⟨[.chunk []], 30, [.packet [7] 9], false⟩
  have hr1 : (system lateHeader).Reachable rx1 :=
    .step (l := .receive 1500 true) (.init rfl)
      (show Rx.step { input := lateHeader } (.receive 1500 true) = some rx1 by decide)
  have hr2 : (system lateHeader).Reachable rx2 :=
    hr1.step (l := .receive 1500 true) (show rx1.step (.receive 1500 true) = some rx2 by decide)
  have hr3 : (system lateHeader).Reachable rx3 :=
    hr2.step (l := .receive 1500 true) (show rx2.step (.receive 1500 true) = some rx3 by decide)
  exact ⟨rx3, hr3, by decide, rfl, rfl, by decide⟩

end Rx

end LatticeMesh.Relay
