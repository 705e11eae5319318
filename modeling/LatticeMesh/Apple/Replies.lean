import LatticeMesh.Lib.Checksum
import LatticeMesh.Lib.Text

/-! # UDP packets that the packet path answers itself -/

namespace LatticeMesh.Apple

open Bytes List Option

def slice? (b : List UInt8) (i j : ℕ) : Option (List UInt8) :=
  if i ≤ j ∧ j ≤ b.length then some (slice b i j) else none

def put? (b : List UInt8) (w : ℕ × List UInt8) : Option (List UInt8) :=
  if w.1 + w.2.length ≤ b.length then some (putAt b w.1 w.2) else none

structure Query where
  ihl : ℕ
  srcIP : List UInt8
  dstIP : List UInt8
  srcPort : List UInt8
  dstPort : List UInt8
  udp : List UInt8

def headerLen (packet : List UInt8) : ℕ := (packet.headD 0 &&& 0x0f).toNat * 4

def parseUDP (least : ℕ) (packet : List UInt8) : Option (Option Query) :=
  if packet.length < 20 ∨ packet.headD 0 >>> 4 ≠ 4 then some none
  else if packet.length < headerLen packet + 8 then some none
  else do
    if (← packet[9]?) ≠ 17 then return none
    let srcIP ← slice? packet 12 16
    let dstIP ← slice? packet 16 20
    let udp ← slice? packet (headerLen packet) packet.length
    if udp.length < least then return none
    return some ⟨headerLen packet, srcIP, dstIP, ← slice? udp 0 2, ← slice? udp 2 4, udp⟩

def replyWrites (q : Query) (total len : ℕ) (ident : List UInt8) : List (ℕ × List UInt8) :=
  [(0, [0x45]), (2, be16 total), (4, ident), (6, [0x40, 0x00]), (8, [64]), (9, [17]),
    (12, q.dstIP), (16, q.srcIP), (q.ihl, q.dstPort), (q.ihl + 2, q.srcPort),
    (q.ihl + 4, be16 len)]

def swapUDPReply (packet : List UInt8) (q : Query) (payload : List UInt8) :
    Option (List UInt8) := do
  let total := q.ihl + 8 + payload.length
  let resp ← (replyWrites q total (8 + payload.length) (← slice? packet 4 6)).foldlM put?
    (List.replicate total 0)
  let resp ← put? resp (q.ihl + 8, payload)
  let sum := wordSum q.dstIP + wordSum q.srcIP + 17 + (8 + payload.length) +
    wordSum (resp.drop q.ihl)
  let resp ← put? resp (q.ihl + 6, be16 (65535 - fold (sum % 2 ^ 32)))
  put? resp (10, be16 (65535 - fold (wordSum (← slice? resp 0 20) % 2 ^ 32)))

inductive Answer where
  | pass
  | consumed
  | payload (p : List UInt8)

inductive Verdict where
  | outOfRange
  | pass
  | consumed
  | reply (payload resp : List UInt8)
  deriving DecidableEq

def intercept (least : ℕ) (port : List UInt8) (answer : Query → Answer) (packet : List UInt8) :
    Verdict :=
  match parseUDP least packet with
  | none => .outOfRange
  | some none => .pass
  | some (some q) =>
    if q.dstPort ≠ port then .pass
    else
      match answer q with
      | .pass => .pass
      | .consumed => .consumed
      | .payload p => (swapUDPReply packet q p).elim .outOfRange (.reply p)

def castCommandPort : List UInt8 := be16 47822

def interceptCast (ack : List UInt8 → Option (List UInt8)) : List UInt8 → Verdict :=
  intercept 8 castCommandPort fun q => (ack (q.udp.drop 8)).elim .consumed .payload

structure Dns where
  Msg : Type
  unpack : List UInt8 → Option Msg
  question : Msg → Option (String × Bool)
  lower : String → String
  normalizeAppID : String → String
  equalFold : String → String → Bool
  emptyReply : Msg → Option (List UInt8)
  reply : Msg → Option String → Option (List UInt8)
  upstream : Msg → Option (Option (List UInt8))

def dnsPort : List UInt8 := be16 53

def tunnelDNSIP : List UInt8 := [10, 96, 0, 1]

def dropSuffix (suffix name : List Char) : List Char :=
  if suffix <:+ name then name.take (name.length - suffix.length) else name

def Dns.answer (dns : Dns) (peers : List (String × Option String)) (q : Query) : Answer :=
  if q.dstIP ≠ tunnelDNSIP then .pass
  else
    match dns.unpack (q.udp.drop 8) with
    | none => .pass
    | some query =>
      match dns.question query with
      | none => .pass
      | some (name, aaaa) =>
        let raw := (dns.lower (String.ofList (dropSuffix ['.'] (dns.lower name).toList))).toList
        if ¬ ".lattice".toList <:+ raw then
          if aaaa then (dns.emptyReply query).elim .pass .payload
          else (dns.upstream query).elim .pass fun p => p.elim .consumed .payload
        else
          let name := dns.normalizeAppID (String.ofList (dropSuffix ".lattice".toList raw))
          let found := (peers.filter fun p => p.2.getD "" ≠ "").find? fun p =>
            dns.equalFold (dns.normalizeAppID p.1) name
          (dns.reply query (found.bind Prod.snd)).elim .pass .payload

def interceptDNS (dns : Dns) (peers : List (String × Option String)) : List UInt8 → Verdict :=
  intercept 12 dnsPort (dns.answer peers)

structure WellFormed (packet payload resp : List UInt8) : Prop where
  version : resp.headD 0 >>> 4 = 4
  least : 20 ≤ headerLen resp
  length : resp.length = headerLen resp + 8 + payload.length
  total : beNat (slice resp 2 4) = resp.length
  protocol : resp[9]? = some 17
  checksum : fold (wordSum (resp.take (headerLen resp))) = 0xffff
  source : slice resp 12 16 = slice packet 16 20
  destination : slice resp 16 20 = slice packet 12 16
  sourcePort : slice (resp.drop (headerLen resp)) 0 2 = slice (packet.drop (headerLen packet)) 2 4
  destinationPort :
    slice (resp.drop (headerLen resp)) 2 4 = slice (packet.drop (headerLen packet)) 0 2
  udpLength : beNat (slice (resp.drop (headerLen resp)) 4 6) = 8 + payload.length
  udpChecksum : fold (wordSum (slice resp 12 20) + 17 + (8 + payload.length) +
    wordSum (resp.drop (headerLen resp))) = 0xffff
  payload : resp.drop (headerLen resp + 8) = payload

def Sound (packet : List UInt8) (v : Verdict) : Prop :=
  v ≠ .outOfRange ∧ ∀ payload resp, v = .reply payload resp → WellFormed packet payload resp

def Fits (least : ℕ) (port : List UInt8) (answer : Query → Answer) (packet : List UInt8) : Prop :=
  ∀ q payload, parseUDP least packet = some (some q) → q.dstPort = port →
    answer q = .payload payload → headerLen packet = 20 ∧ 28 + payload.length ≤ 65535

variable {least : ℕ} {packet payload : List UInt8} {q : Query}

variable {b : List UInt8}

theorem slice?_eq {i j : ℕ} (hij : i ≤ j) (hj : j ≤ b.length) :
    slice? b i j = some (slice b i j) := if_pos ⟨hij, hj⟩

theorem parseUDP_spec (hlea : 8 ≤ least) (packet : List UInt8) :
    parseUDP least packet = some none ∨
      20 ≤ packet.length ∧ headerLen packet + 8 ≤ packet.length ∧
      parseUDP least packet = some (some ⟨headerLen packet, slice packet 12 16, slice packet 16 20,
        slice (packet.drop (headerLen packet)) 0 2, slice (packet.drop (headerLen packet)) 2 4,
        packet.drop (headerLen packet)⟩) := by
  unfold parseUDP
  split
  · exact .inl rfl
  next hlen =>
  split
  · exact .inl rfl
  next hudp =>
  rw [not_or, not_lt, ne_eq, not_not] at hlen
  rw [not_lt] at hudp
  obtain ⟨proto, hpro⟩ : ∃ proto, packet[9]? = some proto :=
    ⟨_, getElem?_eq_getElem (by omega)⟩
  have hrest : slice packet (headerLen packet) packet.length = packet.drop (headerLen packet) := by
    unfold slice
    rw [take_length]
  simp only [hpro, slice?_eq (show 12 ≤ 16 by omega) (show 16 ≤ packet.length by omega),
    slice?_eq (show 16 ≤ 20 by omega) hlen.1, hrest,
    slice?_eq (show headerLen packet ≤ packet.length by omega) le_rfl,
    bind_eq_bind, bind_some, Option.pure_def]
  split
  · exact .inl rfl
  split
  · exact .inl rfl
  next hlea' =>
  have hlong : 4 ≤ (packet.drop (headerLen packet)).length := by omega
  rw [slice?_eq (by omega) (by omega), slice?_eq (by omega) hlong]
  exact .inr ⟨hlen.1, hudp, rfl⟩

variable {b' : List UInt8}

theorem put?_spec {w : ℕ × List UInt8} (h : put? b w = some b') :
    b'.length = b.length ∧ (0 < w.1 → b'.headD 0 = b.headD 0) := by
  unfold put? at h
  split at h
  · next hle =>
    cases h
    refine ⟨length_putAt hle, fun hpos => ?_⟩
    rw [headD_eq_head?_getD, headD_eq_head?_getD, head?_eq_getElem?,
      head?_eq_getElem?, getElem?_putAt hle (.inl hpos)]
  · cases h

variable {ws : List (ℕ × List UInt8)}

theorem foldlM_put?_spec (h : ws.foldlM put? b = some b') :
    b'.length = b.length ∧ ((∀ w ∈ ws, 0 < w.1) → b'.headD 0 = b.headD 0) := by
  induction ws generalizing b with
  | nil =>
    cases h
    exact ⟨rfl, fun _ => rfl⟩
  | cons w ws ih =>
    obtain ⟨c, hc, h⟩ := bind_eq_some_iff.1 (foldlM_cons.symm.trans h)
    obtain ⟨hlen, hhead⟩ := put?_spec hc
    obtain ⟨hlen', hhead'⟩ := ih h
    exact ⟨hlen'.trans hlen, fun hpos => (hhead' fun w hw => hpos w (.tail _ hw)).trans
      (hhead (hpos w (.head _)))⟩

variable {w : List UInt8} {x : UInt8}

theorem head_of_foldlM {l : List (ℕ × List UInt8)}
    (h : (l ++ (0, x :: w) :: ws).foldlM put? b = some b') (hpos : ∀ w ∈ ws, 0 < w.1) :
    b'.headD 0 = x := by
  obtain ⟨c, -, h⟩ := bind_eq_some_iff.1 (foldlM_append.symm.trans h)
  obtain ⟨d, hd, h⟩ := bind_eq_some_iff.1 (foldlM_cons.symm.trans h)
  rw [(foldlM_put?_spec h).2 hpos]
  unfold put? at hd
  split at hd <;> cases hd
  rfl

theorem put?_append (c : List UInt8) {w : ℕ × List UInt8} (h : put? b w = some b') :
    put? (b ++ c) w = some (b' ++ c) := by
  unfold put? at h ⊢
  split at h <;> cases h
  next hle => rw [if_pos (by rw [length_append]; omega), putAt_append hle]

theorem foldlM_put?_append (c : List UInt8) (h : ws.foldlM put? b = some b') :
    ws.foldlM put? (b ++ c) = some (b' ++ c) := by
  induction ws generalizing b with
  | nil =>
    cases h
    rfl
  | cons w ws ih =>
    obtain ⟨d, hd, h⟩ := bind_eq_some_iff.1 (foldlM_cons.symm.trans h)
    rw [foldlM_cons, put?_append c hd]
    exact ih h

theorem put?_mid {a c v : List UInt8} (h : v.length = w.length) {i : ℕ} (hi : a.length = i) :
    put? (a ++ v ++ c) (i, w) = some (a ++ w ++ c) := by
  unfold put? putAt
  rw [if_pos (by simp only [length_append]; omega), ← hi, append_assoc a v c,
    take_left, ← append_assoc a v c,
    drop_left' (show (a ++ v).length = a.length + w.length by simp [h])]

structure Query.Whole (q : Query) : Prop where
  ihl : q.ihl = 20
  srcIP : q.srcIP.length = 4
  dstIP : q.dstIP.length = 4
  srcPort : q.srcPort.length = 2
  dstPort : q.dstPort.length = 2

def ipFront (total : ℕ) (ident : List UInt8) : List UInt8 :=
  [0x45, 0] ++ be16 total ++ ident ++ [0x40, 0x00, 64, 17]

def udpFront (q : Query) (len : ℕ) : List UInt8 := q.dstPort ++ q.srcPort ++ be16 len

theorem foldlM_replyWrites (hq : q.Whole) (total len : ℕ) {ident : List UInt8}
    (hide : ident.length = 2) :
    (replyWrites q total len ident).foldlM put? (List.replicate 28 0) =
      some (ipFront total ident ++ [0, 0] ++ (q.dstIP ++ q.srcIP ++ (udpFront q len ++ [0, 0]))) := by
  obtain ⟨ihl, src, dst, sp, dp, udp⟩ := q
  obtain ⟨rfl, hsrc, hdst, hsp, hdp⟩ := hq
  match ident, hide, src, hsrc, dst, hdst, sp, hsp, dp, hdp with
  | [_, _], _, [_, _, _, _], _, [_, _, _, _], _, [_, _], _, [_, _], _ =>
    simp [replyWrites, ipFront, udpFront, be16, put?, putAt, List.replicate]

def udpSum (q : Query) (payload : List UInt8) : ℕ :=
  wordSum q.dstIP + wordSum q.srcIP + 17 + (8 + payload.length) +
    wordSum (udpFront q (8 + payload.length) ++ [0, 0] ++ payload)

def ipSum (q : Query) (total : ℕ) (ident : List UInt8) : ℕ :=
  wordSum (ipFront total ident ++ [0, 0] ++ (q.dstIP ++ q.srcIP))

theorem swapUDPReply_eq (hq : q.Whole) (hlen : 20 ≤ packet.length)
    (hfits : 28 + payload.length ≤ 65535) :
    swapUDPReply packet q payload = some (ipFront (28 + payload.length) (slice packet 4 6) ++
      be16 (65535 - fold (ipSum q (28 + payload.length) (slice packet 4 6))) ++
      (q.dstIP ++ q.srcIP ++ (udpFront q (8 + payload.length) ++
        be16 (65535 - fold (udpSum q payload)) ++ payload))) := by
  have hide : (slice packet 4 6).length = 2 := by
    simp only [slice, length_drop, length_take]
    omega
  unfold swapUDPReply
  rw [slice?_eq (by omega) (by omega), hq.ihl]
  unfold ipSum udpSum
  generalize slice packet 4 6 = ident at hide
  generalize hA : ipFront (28 + payload.length) ident = A
  generalize hU : udpFront q (8 + payload.length) = U
  have hA' : A.length = 10 := by simp [← hA, ipFront, be16, hide]
  have hU' : U.length = 6 := by simp [← hU, udpFront, be16, hq.srcPort, hq.dstPort]
  have hM := hq.dstIP
  have hM' := hq.srcIP
  have hwri : (replyWrites q (20 + 8 + payload.length) (8 + payload.length) ident).foldlM put?
      (List.replicate (20 + 8 + payload.length) 0) = some (A ++ [0, 0] ++ (q.dstIP ++ q.srcIP ++
        (U ++ [0, 0])) ++ List.replicate payload.length 0) := by
    rw [replicate_add (20 + 8), ← hA, ← hU]
    exact foldlM_put?_append _ (foldlM_replyWrites hq _ _ hide)
  have hpay := put?_mid (a := A ++ [0, 0] ++ (q.dstIP ++ q.srcIP ++ (U ++ [0, 0])))
    (c := []) (v := List.replicate payload.length 0) (w := payload) length_replicate
    (i := 20 + 8) (by simp [*])
  have hudp := fun w (hw : w.length = 2) => put?_mid (v := [0, 0]) (w := w)
    (a := A ++ [0, 0] ++ (q.dstIP ++ q.srcIP ++ U)) (c := payload) hw.symm (i := 20 + 6)
    (by simp [*])
  have hip := fun v w (hw : w.length = 2) => put?_mid (v := [0, 0]) (w := w)
    (a := A) (c := q.dstIP ++ q.srcIP ++ (U ++ v ++ payload)) hw.symm hA'
  have hdrop : ∀ c, (A ++ [0, 0] ++ (q.dstIP ++ q.srcIP ++ c)).drop 20 = c := fun c => by
    rw [← append_assoc, drop_left' (by simp [*])]
  have hsli : ∀ c, slice? (A ++ [0, 0] ++ (q.dstIP ++ q.srcIP ++ c)) 0 20 =
      some (A ++ [0, 0] ++ (q.dstIP ++ q.srcIP)) := fun c => by
    rw [slice?_eq (by omega) (by simp [*]; omega), slice, ← append_assoc,
      take_left' (by simp [*]), drop_zero]
  have hbou := wordSum_le (U ++ [0, 0] ++ payload)
  have hdst := wordSum_le q.dstIP
  have hsrc := wordSum_le q.srcIP
  have hhead := wordSum_le (A ++ [0, 0] ++ (q.dstIP ++ q.srcIP))
  simp only [length_append, length_cons, length_nil, hA', hU', hM,
    hM'] at hbou hdst hsrc hhead
  simp only [append_assoc, append_nil] at *
  simp only [bind_eq_bind, bind_some, hwri, hpay, hdrop]
  rw [hudp _ rfl, bind_some, hsli, bind_some, hip _ _ rfl,
    Nat.mod_eq_of_lt (by omega), Nat.mod_eq_of_lt (by omega)]

theorem wordSum_mid {a c : List UInt8} (ha : Even a.length) (hw : w.length = 2) :
    wordSum (a ++ w ++ c) = wordSum (a ++ [0, 0] ++ c) + wordSum w := by
  rw [append_assoc, append_assoc, wordSum_append _ ha, wordSum_append _ ha,
    wordSum_append c (hw ▸ even_two), wordSum_append c (by decide : Even [(0 : UInt8), 0].length)]
  simp only [wordSum, UInt8.toNat_zero]
  omega

theorem exists_of_length_four {l : List UInt8} (h : l.length = 4) :
    ∃ a b c d, l = [a, b, c, d] := by
  obtain ⟨a, l, rfl⟩ := exists_cons_of_length_eq_add_one h
  obtain ⟨b, c, d, rfl⟩ := length_eq_three.1 (Nat.succ.inj h)
  exact ⟨a, b, c, d, rfl⟩

theorem wellFormed_reply (hq : q.Whole) (hlen : 20 ≤ packet.length)
    (hfits : 28 + payload.length ≤ 65535) (hdst : q.dstIP = slice packet 16 20)
    (hsrc : q.srcIP = slice packet 12 16)
    (hdp : q.dstPort = slice (packet.drop (headerLen packet)) 2 4)
    (hsp : q.srcPort = slice (packet.drop (headerLen packet)) 0 2) :
    ∃ resp, swapUDPReply packet q payload = some resp ∧ WellFormed packet payload resp := by
  refine ⟨_, swapUDPReply_eq hq hlen hfits, ?_⟩
  have hide : (slice packet 4 6).length = 2 := by
    simp only [slice, length_drop, length_take]
    omega
  generalize slice packet 4 6 = ident at hide
  have hche : ∀ sum, 0 < sum → fold (sum + wordSum (be16 (65535 - fold sum))) = 65535 := by
    intro sum hpos
    rw [wordSum_be16 (by omega), fold_add_complement hpos]
  have hip := hche (ipSum q (28 + payload.length) ident) (by simp [ipSum, ipFront, wordSum])
  have hudp := hche (udpSum q payload) (by unfold udpSum; omega)
  have htot := beNat_be16 (28 + payload.length)
  have hudpL := beNat_be16 (8 + payload.length)
  rw [Nat.mod_eq_of_lt (by omega)] at htot hudpL
  generalize hc : be16 (65535 - fold (ipSum q (28 + payload.length) ident)) = c at hip ⊢
  generalize hd : be16 (65535 - fold (udpSum q payload)) = d at hudp ⊢
  have hc' : c.length = 2 := hc ▸ rfl
  have hd' : d.length = 2 := hd ▸ rfl
  rw [ipSum, ← wordSum_mid (by simp [ipFront, be16, hide, Nat.even_iff]) hc'] at hip
  rw [udpSum, Nat.add_assoc, ← wordSum_mid (by simp [udpFront, be16, hq.srcPort, hq.dstPort,
    Nat.even_iff]) hd', ← wordSum_append _ (by rw [hq.dstIP]; decide)] at hudp
  obtain ⟨ihl, src, dst, sp, dp, udp⟩ := q
  obtain ⟨rfl, hsrc', hdst', hsp', hdp'⟩ := hq
  obtain ⟨_, _, rfl⟩ := length_eq_two.1 hide
  obtain ⟨_, _, rfl⟩ := length_eq_two.1 hc'
  obtain ⟨_, _, rfl⟩ := length_eq_two.1 hd'
  obtain ⟨_, _, _, _, rfl⟩ := exists_of_length_four hsrc'
  obtain ⟨_, _, _, _, rfl⟩ := exists_of_length_four hdst'
  obtain ⟨_, _, rfl⟩ := length_eq_two.1 hsp'
  obtain ⟨_, _, rfl⟩ := length_eq_two.1 hdp'
  generalize hresp : ipFront (28 + payload.length) _ ++ _ ++ _ = resp
  have h20 : headerLen resp = 20 := by
    rw [← hresp]
    show ((0x45 : UInt8) &&& 0x0f).toNat * 4 = 20
    decide
  constructor
  all_goals try rw [h20]
  all_goals subst hresp
  · show (0x45 : UInt8) >>> 4 = 4
    decide
  · simp [ipFront, udpFront, be16]
    omega
  · refine htot.trans ?_
    simp [ipFront, udpFront, be16]
    omega
  · rfl
  · exact hip
  · exact hdst
  · exact hsrc
  · exact hdp
  · exact hsp
  · exact hudpL
  · exact hudp
  · rfl

theorem swapUDPReply_spec {resp : List UInt8} {y : UInt8} (hport : q.dstPort = [x, y])
    (h : swapUDPReply packet q payload = some resp) :
    resp.length = q.ihl + 8 + payload.length ∧ resp.headD 0 = if q.ihl = 0 then x else 0x45 := by
  simp only [swapUDPReply, bind_eq_bind, bind_eq_some_iff] at h
  obtain ⟨ident, -, b, hb, c, hc, d, hd, header, -, hresp⟩ := h
  obtain ⟨hlenb, -⟩ := foldlM_put?_spec hb
  obtain ⟨hlenc, hhea⟩ := put?_spec hc
  obtain ⟨hlend, hheadd⟩ := put?_spec hd
  obtain ⟨hlen, hhead⟩ := put?_spec hresp
  rw [length_replicate] at hlenb
  refine ⟨by omega, ?_⟩
  rw [hhead (Nat.succ_pos 9), hheadd (Nat.succ_pos _), hhea (Nat.succ_pos _)]
  unfold replyWrites at hb
  split
  · next hzero =>
    rw [hport, hzero] at hb
    refine head_of_foldlM (l := [(0, [0x45]), (2, be16 _), (4, ident), (6, [0x40, 0x00]),
      (8, [64]), (9, [17]), (12, q.dstIP), (16, q.srcIP)]) hb ?_
    simp
  next hpos =>
  refine head_of_foldlM (l := []) hb ?_
  simp [Nat.pos_of_ne_zero hpos]

theorem WellFormed.total_le {resp : List UInt8} (h : WellFormed packet payload resp) :
    resp.length ≤ 65535 := by
  have hlt := leNat_lt (slice resp 2 4).reverse
  have hle : (slice resp 2 4).reverse.length ≤ 2 := by simp [slice]
  have hpow : 256 ^ (slice resp 2 4).reverse.length ≤ 256 ^ 2 := Nat.pow_le_pow_right (by decide) hle
  have htot := h.total
  unfold beNat at htot
  omega

theorem sound_intercept_iff (hlea : 8 ≤ least) {y : UInt8} (hx : x >>> 4 ≠ 4)
    (answer : Query → Answer) (packet : List UInt8) :
    Sound packet (intercept least [x, y] answer packet) ↔ Fits least [x, y] answer packet := by
  unfold intercept
  obtain hpar | ⟨hlen, hudp, hpar⟩ := parseUDP_spec hlea packet
  · rw [hpar]
    exact ⟨fun _ q payload hq => (by rw [hpar] at hq; cases hq), fun _ => ⟨nofun, nofun⟩⟩
  have hque : ∀ {q}, parseUDP least packet = some (some q) → q = _ := fun h =>
    (Option.some.inj (Option.some.inj (hpar.symm.trans h))).symm
  generalize hq : Query.mk _ _ _ _ _ _ = q at hpar hque
  rw [hpar]
  dsimp only
  split
  · next hoth =>
    exact ⟨fun _ q' payload hq' hport => absurd (hque hq' ▸ hport) hoth,
      fun _ => ⟨nofun, nofun⟩⟩
  next hport =>
  rw [ne_eq, not_not] at hport
  cases hans : answer q with
  | pass | consumed =>
    refine ⟨fun _ q' payload hq' _ hans' => ?_, fun _ => ⟨nofun, nofun⟩⟩
    rw [hque hq', hans] at hans'
    cases hans'
  | payload p =>
    dsimp only
    constructor
    · rintro ⟨hran, hfor⟩ q' p' hq' - hans'
      rw [hque hq', hans] at hans'
      cases hans'
      cases hswap : swapUDPReply packet q p with
      | none => exact absurd (by rw [hswap]; rfl) hran
      | some resp =>
        have hwf := hfor p resp (by rw [hswap]; rfl)
        obtain ⟨hlen', hhead⟩ := swapUDPReply_spec hport hswap
        have hsame : headerLen resp = q.ihl := by
          have := hwf.length
          omega
        have hihl : q.ihl = headerLen packet := by rw [← hq]
        have htot := hwf.total_le
        split at hhead
        · exact absurd (hhead ▸ hwf.version) hx
        have h20 : headerLen resp = 20 := by
          unfold headerLen
          rw [hhead]
          decide
        omega
    intro hfits
    obtain ⟨h20, hle⟩ := hfits q p hpar hport hans
    have hwh : q.Whole := by
      rw [← hq]
      constructor <;> simp [slice, h20] <;> omega
    obtain ⟨resp, hswap, hwf⟩ := wellFormed_reply hwh hlen hle (by rw [← hq]) (by rw [← hq])
      (by rw [← hq]) (by rw [← hq])
    rw [hswap]
    refine ⟨nofun, ?_⟩
    rintro _ _ ⟨⟩
    exact hwf

end LatticeMesh.Apple
