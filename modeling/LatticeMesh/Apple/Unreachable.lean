import LatticeMesh.Apple.Replies

/-! # ICMPv6 errors of the packet path -/

namespace LatticeMesh.Apple

open Bytes List Option

def gateway6 : List UInt8 := [0xfd, 0x6c, 0x72, 0x70, 0x6c, 0x74, 0, 0, 0, 0, 0, 0, 0, 0, 0, 1]

def pseudoTail (len : ℕ) : List UInt8 := be16 (len / 65536) ++ be16 len ++ [0, 0, 0, 58]

def pseudoSum (src dst msg : List UInt8) : ℕ :=
  wordSum src + wordSum dst + wordSum (pseudoTail msg.length) + wordSum msg

def icmp6Checksum (src dst msg : List UInt8) : ℕ := 65535 - fold (pseudoSum src dst msg % 2 ^ 32)

def unreachableWrites (gw dst : List UInt8) (msgLen : ℕ) : List (ℕ × List UInt8) :=
  [(0, [0x60]), (4, be16 msgLen), (6, [58]), (7, [64]), (8, gw), (24, dst), (40, [1]), (41, [0])]

def quoted (invoking : List UInt8) : Option (List UInt8) :=
  if 1280 - 40 - 8 < invoking.length then slice? invoking 0 (1280 - 40 - 8) else some invoking

def buildICMPv6Unreachable (gw dst invoking : List UInt8) : Option (List UInt8) := do
  let quote ← quoted invoking
  let msgLen := 8 + quote.length
  let out ← (unreachableWrites gw dst msgLen).foldlM put? (List.replicate (40 + msgLen) 0)
  let out ← put? out (48, quote)
  put? out (42, be16 (icmp6Checksum gw dst (← slice? out 40 out.length)))

def isICMPv6Error (packet : List UInt8) : Option Bool := do
  let proto : UInt8 ← packet[6]?
  if proto ≠ 58 ∨ packet.length ≤ 40 then return false
  let type : UInt8 ← packet[40]?
  return type < 128

def icmp6ReplyFor (isGlobalUnicast : List UInt8 → Bool) (packet : List UInt8) :
    Option (Option (List UInt8)) :=
  if packet.length < 40 then some none
  else do
    let first : UInt8 ← packet[0]?
    if first >>> 4 ≠ 6 then return none
    let src ← slice? packet 8 24
    let dst ← slice? packet 24 40
    if !isGlobalUnicast dst || !isGlobalUnicast src then return none
    if ← isICMPv6Error packet then return none
    (buildICMPv6Unreachable gateway6 src packet).map some

structure Unreachable (packet out : List UInt8) : Prop where
  length : 48 ≤ out.length ∧ out.length ≤ 1280
  version : out.headD 0 >>> 4 = 6
  payloadLength : beNat (slice out 4 6) = out.length - 40
  nextHeader : out[6]? = some 58
  source : slice out 8 24 = gateway6
  destination : slice out 24 40 = slice packet 8 24
  error : ∃ type : UInt8, type < 128 ∧ out[40]? = some type
  checksum : fold (pseudoSum (slice out 8 24) (slice out 24 40) (out.drop 40)) = 0xffff
  body : out.drop 48 <+: packet

variable {packet dst : List UInt8}

theorem exists_of_length_sixteen {l : List UInt8} (h : l.length = 16) :
    ∃ a b c d e f g i j k m n o p q r, l = [a, b, c, d, e, f, g, i, j, k, m, n, o, p, q, r] := by
  obtain ⟨a, b, c, d, h₁⟩ := exists_of_length_four (l := l.take 4) (by simp [h])
  obtain ⟨e, f, g, i, h₂⟩ := exists_of_length_four (l := (l.drop 4).take 4) (by simp [h])
  obtain ⟨j, k, m, n, h₃⟩ := exists_of_length_four (l := (l.drop 8).take 4) (by simp [h])
  obtain ⟨o, p, q, r, h₄⟩ := exists_of_length_four (l := l.drop 12) (by simp [h])
  have hl : l = l.take 4 ++ ((l.drop 4).take 4 ++ ((l.drop 8).take 4 ++ l.drop 12)) := by
    rw [← drop_drop (i := 4) (j := 8), take_append_drop, ← drop_drop (i := 4) (j := 4),
      take_append_drop, take_append_drop]
  rw [h₁, h₂, h₃, h₄] at hl
  exact ⟨a, b, c, d, e, f, g, i, j, k, m, n, o, p, q, r, hl⟩

theorem buildICMPv6Unreachable_eq (hdst : dst.length = 16) (invoking : List UInt8) :
    ∃ quote, quote <+: invoking ∧ quote.length ≤ 1232 ∧
      buildICMPv6Unreachable gateway6 dst invoking = some ([0x60, 0, 0, 0] ++
        be16 (8 + quote.length) ++ [58, 64] ++ gateway6 ++ dst ++ [1, 0] ++
        be16 (icmp6Checksum gateway6 dst ([1, 0] ++ [0, 0] ++ ([0, 0, 0, 0] ++ quote))) ++
        ([0, 0, 0, 0] ++ quote)) := by
  obtain ⟨quote, hquote, hpre, hlen⟩ : ∃ quote, quoted invoking = some quote ∧
      quote <+: invoking ∧ quote.length ≤ 1232 := by
    unfold quoted
    split
    · next h =>
      refine ⟨_, slice?_eq (by omega) h.le, ?_, ?_⟩
      · simp [slice, take_prefix]
      · simp [slice]
    · next h => exact ⟨invoking, rfl, prefix_rfl, Nat.le_of_not_lt h⟩
  refine ⟨quote, hpre, hlen, ?_⟩
  have hwrites : (unreachableWrites gateway6 dst (8 + quote.length)).foldlM put?
      (List.replicate 48 0) = some ([0x60, 0, 0, 0] ++ be16 (8 + quote.length) ++ [58, 64] ++
        gateway6 ++ dst ++ [1, 0] ++ [0, 0] ++ [0, 0, 0, 0]) := by
    obtain ⟨_, _, _, _, _, _, _, _, _, _, _, _, _, _, _, _, rfl⟩ := exists_of_length_sixteen hdst
    simp [unreachableWrites, put?, putAt, be16, gateway6, List.replicate]
  unfold buildICMPv6Unreachable
  rw [hquote]
  generalize hA : [0x60, 0, 0, 0] ++ be16 (8 + quote.length) ++ [58, 64] ++ gateway6 ++ dst = A
    at hwrites ⊢
  have hA' : A.length = 40 := by simp [← hA, be16, gateway6, hdst]
  have hbody := put?_mid (a := A ++ [1, 0] ++ [0, 0] ++ [0, 0, 0, 0]) (c := [])
    (v := List.replicate quote.length 0) (w := quote) length_replicate (i := 48) (by simp [hA'])
  have hsum := fun w (hw : w.length = 2) => put?_mid (a := A ++ [1, 0]) (v := [0, 0]) (w := w)
    (c := [0, 0, 0, 0] ++ quote) hw.symm (i := 42) (by simp [hA'])
  have hmsg : slice? (A ++ [1, 0] ++ [0, 0] ++ [0, 0, 0, 0] ++ quote) 40
      (A ++ [1, 0] ++ [0, 0] ++ [0, 0, 0, 0] ++ quote).length =
        some ([1, 0] ++ [0, 0] ++ ([0, 0, 0, 0] ++ quote)) := by
    rw [slice?_eq (by simp [hA']) le_rfl, slice, take_length]
    simp [hA']
  have hrep : List.replicate (40 + (8 + quote.length)) (0 : UInt8) =
      List.replicate 48 0 ++ List.replicate quote.length 0 := by
    rw [← replicate_add]
    congr 1
    omega
  rw [append_nil, append_nil] at hbody
  simp only [bind_eq_bind, bind_some, hrep, foldlM_put?_append _ hwrites, hbody, hmsg]
  rw [← hsum _ rfl]
  simp only [append_assoc]

theorem pseudoSum_lt (hdst : dst.length = 16) {msg : List UInt8} (hmsg : msg.length ≤ 1240) :
    pseudoSum gateway6 dst msg < 2 ^ 32 := by
  have hg := wordSum_le gateway6
  have hd := wordSum_le dst
  have ht := wordSum_le (pseudoTail msg.length)
  have hm := wordSum_le msg
  have htl : (pseudoTail msg.length).length = 8 := rfl
  have hgl : gateway6.length = 16 := rfl
  unfold pseudoSum
  omega

theorem checksum_verifies (hdst : dst.length = 16) {quote : List UInt8}
    (hquote : quote.length ≤ 1232) :
    fold (pseudoSum gateway6 dst ([1, 0] ++ be16 (icmp6Checksum gateway6 dst
      ([1, 0] ++ [0, 0] ++ ([0, 0, 0, 0] ++ quote))) ++ ([0, 0, 0, 0] ++ quote))) = 0xffff := by
  have hlt : pseudoSum gateway6 dst ([1, 0] ++ [0, 0] ++ ([0, 0, 0, 0] ++ quote)) < 2 ^ 32 :=
    pseudoSum_lt hdst (by simp; omega)
  have hpos : 0 < pseudoSum gateway6 dst ([1, 0] ++ [0, 0] ++ ([0, 0, 0, 0] ++ quote)) := by
    simp [pseudoSum, gateway6, wordSum]
  have hck := wordSum_be16 (x := 65535 - fold (pseudoSum gateway6 dst
    ([1, 0] ++ [0, 0] ++ ([0, 0, 0, 0] ++ quote)))) (by omega)
  have hsum (x : ℕ) : pseudoSum gateway6 dst ([1, 0] ++ be16 x ++ ([0, 0, 0, 0] ++ quote)) =
      pseudoSum gateway6 dst ([1, 0] ++ [0, 0] ++ ([0, 0, 0, 0] ++ quote)) + wordSum (be16 x) := by
    rw [pseudoSum, wordSum_mid (by decide) rfl, ← Nat.add_assoc]
    rfl
  rw [icmp6Checksum, Nat.mod_eq_of_lt hlt, hsum, hck]
  exact fold_add_complement hpos

theorem unreachable_of_parts {c quote : List UInt8} (hdst : dst.length = 16)
    (heq : dst = slice packet 8 24) (hc : c.length = 2) (hpre : quote <+: packet)
    (hquote : quote.length ≤ 1232) (hsum : fold (pseudoSum gateway6 dst
      ([1, 0] ++ c ++ ([0, 0, 0, 0] ++ quote))) = 0xffff) :
    Unreachable packet ([0x60, 0, 0, 0] ++ be16 (8 + quote.length) ++ [58, 64] ++ gateway6 ++ dst ++
      [1, 0] ++ c ++ ([0, 0, 0, 0] ++ quote)) := by
  have htotal := beNat_be16 (8 + quote.length)
  rw [Nat.mod_eq_of_lt (by omega)] at htotal
  obtain ⟨_, _, _, _, _, _, _, _, _, _, _, _, _, _, _, _, rfl⟩ := exists_of_length_sixteen hdst
  obtain ⟨_, _, rfl⟩ := length_eq_two.1 hc
  constructor
  · simp [be16, gateway6]
    omega
  · show (0x60 : UInt8) >>> 4 = 6
    decide
  · simp only [be16, cons_append, nil_append, slice, take_succ_cons, take_zero, drop_succ_cons,
      drop_zero] at htotal ⊢
    rw [htotal]
    simp [gateway6]
    omega
  · rfl
  · rfl
  · exact heq
  · exact ⟨1, by decide, rfl⟩
  · exact hsum
  · exact hpre

theorem unreachable_of_build (hlen : 40 ≤ packet.length) : ∃ out,
    buildICMPv6Unreachable gateway6 (slice packet 8 24) packet = some out ∧
      Unreachable packet out := by
  have hdst : (slice packet 8 24).length = 16 := by
    simp only [slice, length_drop, length_take]
    omega
  obtain ⟨quote, hpre, hquote, heq⟩ := buildICMPv6Unreachable_eq hdst packet
  exact ⟨_, heq, unreachable_of_parts hdst rfl rfl hpre hquote (checksum_verifies hdst hquote)⟩

theorem icmp6ReplyFor_eq (isGlobalUnicast : List UInt8 → Bool) (hlen : 40 ≤ packet.length) :
    ∃ error, isICMPv6Error packet = some error ∧
      (icmp6ReplyFor isGlobalUnicast packet = some none ∨ error = false ∧
        icmp6ReplyFor isGlobalUnicast packet =
          (buildICMPv6Unreachable gateway6 (slice packet 8 24) packet).map some) := by
  obtain ⟨error, herror⟩ : ∃ error, isICMPv6Error packet = some error := by
    obtain ⟨proto, hproto⟩ : ∃ proto, packet[6]? = some proto :=
      ⟨_, getElem?_eq_getElem (by omega)⟩
    unfold isICMPv6Error
    simp only [hproto, bind_eq_bind, bind_some]
    split
    · exact ⟨_, rfl⟩
    · next h => exact ⟨_, by rw [getElem?_eq_getElem (by omega)]; rfl⟩
  obtain ⟨first, hfirst⟩ : ∃ first, packet[0]? = some first :=
    ⟨_, getElem?_eq_getElem (by omega)⟩
  refine ⟨error, herror, ?_⟩
  unfold icmp6ReplyFor
  simp only [hfirst, herror, slice?_eq (show 8 ≤ 24 by omega) (by omega : 24 ≤ packet.length),
    slice?_eq (show 24 ≤ 40 by omega) hlen, bind_eq_bind, bind_some, Option.pure_def,
    if_neg (Nat.not_lt.2 hlen)]
  split
  · exact .inl rfl
  split
  · exact .inl rfl
  cases error
  · exact .inr ⟨rfl, rfl⟩
  · exact .inl rfl

theorem Unreachable.isICMPv6Error {out : List UInt8} (h : Unreachable packet out) :
    isICMPv6Error out = some true := by
  obtain ⟨type, hlt, htype⟩ := h.error
  have hlen : ¬out.length ≤ 40 := by have := h.length; omega
  simp [Apple.isICMPv6Error, h.nextHeader, htype, hlt, hlen]

/-- **ICMPv6 errors.** For every byte string the builder stays in range. -/
theorem icmp6_replies (isGlobalUnicast : List UInt8 → Bool) (packet : List UInt8) :
    ∃ reply, icmp6ReplyFor isGlobalUnicast packet = some reply ∧
      ∀ out, reply = some out →
        Unreachable packet out ∧ icmp6ReplyFor isGlobalUnicast out = some none := by
  by_cases hlen : packet.length < 40
  · exact ⟨none, by rw [icmp6ReplyFor, if_pos hlen], fun _ h => by cases h⟩
  rw [not_lt] at hlen
  obtain ⟨-, -, hnil | ⟨-, hbuild⟩⟩ := icmp6ReplyFor_eq isGlobalUnicast hlen
  · exact ⟨none, hnil, fun _ h => by cases h⟩
  obtain ⟨out, hout, hwell⟩ := unreachable_of_build hlen
  refine ⟨some out, by rw [hbuild, hout]; rfl, ?_⟩
  rintro _ ⟨⟩
  refine ⟨hwell, ?_⟩
  obtain ⟨error, herror, hnil | ⟨rfl, -⟩⟩ :=
    icmp6ReplyFor_eq isGlobalUnicast (le_trans (by omega) hwell.length.1)
  · exact hnil
  · cases herror.symm.trans hwell.isICMPv6Error

end LatticeMesh.Apple
