import Mathlib.Data.List.Basic
import Mathlib.Data.List.Infix

/-! # Reading media over HTTP -/

namespace LatticeMesh.Media

open List

inductive ReadError where
  | eof
  | unexpectedEOF
  | other
  deriving DecidableEq

structure Body where
  arriving : List UInt8
  lost : Option ReadError

def Body.cut (bytes : List UInt8) (count : Nat) (err : ReadError) : Body :=
  if bytes.length ≤ count then ⟨bytes, none⟩ else ⟨bytes.take count, some err⟩

def Body.ending (b : Body) : ReadError :=
  match b.lost with
  | none | some .eof => if b.arriving = [] then .eof else .unexpectedEOF
  | some err => err

structure Read where
  data : List UInt8
  err : Option ReadError
  rest : Body

def readFull (b : Body) (n : Nat) : Read :=
  if n ≤ b.arriving.length then
    ⟨b.arriving.take n, none, { b with arriving := b.arriving.drop n }⟩
  else ⟨b.arriving, some b.ending, { b with arriving := [] }⟩

structure Handle where
  body : Option Body := none
  pos : Int := 0
  closing : Bool := false
  closed : Bool := false

inductive Response where
  | failed (message : String)
  | answered (status count : Nat) (err : ReadError)

def adopt (content : List UInt8) (offset : Int) : Response → Except String Body
  | .failed message => .error message
  | .answered status count err =>
    if status ≠ 206 ∧ status ≠ 200 then .error ("range get: status " ++ toString status)
    else if status = 200 ∧ 0 < offset then
      .error ("range get: server ignored Range at offset " ++ toString offset ++ " (status 200)")
    else if status = 206 then .ok (.cut (content.drop offset.toNat) count err)
    else .ok (.cut content count err)

def Handle.discardBody (h : Handle) : Handle := { h with body := none }

def Handle.openAt (h : Handle) (content : List UInt8) (offset : Int) (response : Response) :
    Handle × Option String :=
  if h.closing then (h.discardBody, some "handle is closing")
  else
    match adopt content offset response with
    | .error err => (h.discardBody, some err)
    | .ok body => ({ h with body := some body, pos := offset }, none)

structure Call where
  offset : Int
  n : Nat
  response : Response

abbrev Opens (h : Handle) (c : Call) : Prop := h.body = none ∨ h.pos ≠ c.offset

structure Result where
  n : Int
  data : List UInt8
  deriving DecidableEq

def failure : Result := ⟨-1, []⟩

def Handle.readBody (h : Handle) (b : Body) (n : Nat) : Handle × Result :=
  let read := readFull b n
  let h := { h with body := some read.rest, pos := h.pos + read.data.length }
  if read.err = some .other then (h.discardBody, failure)
  else (h, ⟨read.data.length, read.data⟩)

def Handle.readAt (h : Handle) (content : List UInt8) (c : Call) : Handle × Result :=
  if h.closed then (h, failure)
  else
    match if Opens h c then h.openAt content c.offset c.response
      else (h, none) with
    | (h, some _) => (h, failure)
    | (h, none) =>
      match h.body with
      | none => (h, failure)
      | some b => h.readBody b c.n

def after (content : List UInt8) (calls : List Call) : Handle :=
  calls.foldl (fun h c => (h.readAt content c).1) {}

def source (content : List UInt8) (h : Handle) (c : Call) : Option Body :=
  if Opens h c then (adopt content c.offset c.response).toOption else h.body

def Lost (content : List UInt8) (h : Handle) (c : Call) : Prop :=
  (Opens h c ∧ ∃ message, c.response = .failed message) ∨
    ∃ b, source content h c = some b ∧ b.arriving.length < c.n ∧ b.lost.isSome

def Refused (content : List UInt8) (h : Handle) (c : Call) : Prop :=
  Opens h c ∧ (∀ message, c.response ≠ .failed message) ∧
    (adopt content c.offset c.response).toOption = none

structure Correct (content : List UInt8) (h : Handle) (c : Call) (r : Result) : Prop where
  bytes : 0 < r.n → 0 ≤ c.offset ∧ r.n = r.data.length ∧
    r.data = (content.drop c.offset.toNat).take c.n
  zero : r.n = 0 → content.length ≤ c.offset
  lost : Lost content h c → r.n = -1
  failed : r.n = -1 → Lost content h c ∨ Refused content h c
  range : -1 ≤ r.n

def Call.Regular (content : List UInt8) (c : Call) : Prop :=
  c.offset < 0 → (adopt content c.offset c.response).toOption = none

structure Body.At (content : List UInt8) (offset : Int) (b : Body) : Prop where
  nonneg : 0 ≤ offset
  arriving : b.arriving <+: content.drop offset.toNat
  complete : b.lost = none → b.arriving = content.drop offset.toNat

structure Tracks (content : List UInt8) (h : Handle) : Prop where
  body : ∀ b, h.body = some b → b.At content h.pos
  isOpen : h.closing = false ∧ h.closed = false

variable {offset : Int}

theorem at_cut {content : List UInt8} (h : 0 ≤ offset) (count : Nat) (err : ReadError) :
    (Body.cut (content.drop offset.toNat) count err).At content offset := by
  unfold Body.cut
  split
  · exact ⟨h, prefix_refl _, fun _ => rfl⟩
  · exact ⟨h, take_prefix .., fun hlost => by cases hlost⟩

variable {b : Body}

theorem at_adopt {content : List UInt8} {c : Call} (hreg : c.Regular content)
    (h : (adopt content c.offset c.response).toOption = some b) : b.At content c.offset := by
  have hnon : 0 ≤ c.offset := by
    by_contra hneg
    rw [hreg (by omega)] at h
    cases h
  unfold adopt at h
  split at h
  · cases h
  split at h
  · cases h
  split at h
  · cases h
  next hok =>
  split at h
  · cases h
    exact at_cut hnon ..
  cases h
  have hzero : c.offset = 0 := by omega
  rw [hzero]
  exact at_cut (Int.le_refl 0) ..

theorem Body.At.readFull {content : List UInt8} (h : b.At content offset) (n : Nat) :
    (readFull b n).rest.At content (offset + (readFull b n).data.length) := by
  have hnon := h.nonneg
  obtain ⟨rest, hrest⟩ := h.arriving
  unfold Media.readFull
  split
  · next hle =>
    have hlen : (offset + ((b.arriving.take n).length : Int)).toNat = offset.toNat + n := by
      rw [length_take, Nat.min_eq_left hle]
      omega
    have hdrop : b.arriving.drop n ++ rest = content.drop (offset.toNat + n) := by
      rw [← drop_drop, ← hrest, drop_append_of_le_length hle]
    refine ⟨by omega, ⟨rest, by rw [hlen, hdrop]⟩, fun hlost => ?_⟩
    rw [hlen, ← drop_drop, ← h.complete hlost]
  have hlen : (offset + (b.arriving.length : Int)).toNat = offset.toNat + b.arriving.length := by
    omega
  refine ⟨by simp only; omega, nil_prefix, fun hlost => ?_⟩
  rw [hlen, ← drop_drop, ← h.complete hlost, drop_length]

section

variable {content : List UInt8} {h : Handle} {c : Call}

theorem readAt_cases (content : List UInt8) (c : Call)
    (hopen : h.closing = false ∧ h.closed = false) :
    (source content h c = none ∧ h.readAt content c = (h.discardBody, failure)) ∨
    ∃ b, source content h c = some b ∧
      h.readAt content c = ({ h with body := some b, pos := c.offset }.readBody b c.n) := by
  obtain ⟨body, pos, closing, closed⟩ := h
  obtain ⟨rfl, rfl⟩ := hopen
  unfold Handle.readAt source Handle.openAt
  by_cases hop : Opens ⟨body, pos, false, false⟩ c
  · simp only [if_pos hop]
    cases hado : adopt content c.offset c.response with
    | error err => exact .inl ⟨rfl, rfl⟩
    | ok b => exact .inr ⟨b, rfl, rfl⟩
  simp only [if_neg hop]
  rw [not_or, not_not] at hop
  obtain ⟨hbody, rfl⟩ := hop
  obtain ⟨b, rfl⟩ := Option.ne_none_iff_exists'.1 hbody
  exact .inr ⟨b, rfl, rfl⟩

theorem at_source (htra : Tracks content h) (hreg : c.Regular content)
    (hb : source content h c = some b) : b.At content c.offset := by
  unfold source at hb
  split at hb
  · exact at_adopt hreg hb
  next hop =>
  have hpos : h.pos = c.offset := by
    by_contra hne
    exact hop (.inr hne)
  exact hpos ▸ htra.body b hb

theorem tracks_discardBody (htra : Tracks content h) : Tracks content h.discardBody := by
  refine ⟨fun b hb => ?_, htra.isOpen⟩
  cases hb

theorem Tracks.readAt (htra : Tracks content h) (hreg : c.Regular content) :
    Tracks content (h.readAt content c).1 := by
  obtain ⟨-, heq⟩ | ⟨b, hb, heq⟩ := readAt_cases content c htra.isOpen
  · rw [heq]
    exact tracks_discardBody htra
  have hat := (at_source htra hreg hb).readFull c.n
  rw [heq]
  have hread : Tracks content { h with
      body := some (readFull b c.n).rest
      pos := c.offset + (readFull b c.n).data.length } :=
    ⟨fun b' hb' => Option.some.inj hb' ▸ hat, htra.isOpen⟩
  unfold Handle.readBody
  simp only
  split
  · exact tracks_discardBody hread
  · exact hread

theorem tracks_after {calls : List Call} (hreg : ∀ c ∈ calls, c.Regular content) :
    Tracks content (after content calls) := by
  have hnew : Tracks content {} := by
    refine ⟨fun b hb => ?_, rfl, rfl⟩
    cases hb
  unfold after
  generalize ({} : Handle) = h at hnew
  induction calls generalizing h with
  | nil => exact hnew
  | cons c calls ih =>
    have hc := hreg c mem_cons_self
    exact ih (fun c' hc' => hreg c' (mem_cons_of_mem c hc')) _ (hnew.readAt hc)

theorem readFull_other_iff {n : Nat} :
    (readFull b n).err = some .other ↔ b.arriving.length < n ∧ b.lost = some .other := by
  unfold readFull
  by_cases hle : n ≤ b.arriving.length
  · simp [if_pos hle, Nat.not_lt.2 hle]
  rw [if_neg hle]
  simp only [Option.some.injEq, Nat.not_le.1 hle, true_and]
  unfold Body.ending
  split
  · next h => rw [h]; split <;> simp
  · next h => rw [h]; split <;> simp
  · next h => rw [h, Option.some.injEq]

theorem data_readFull (hat : b.At content offset) {n : Nat}
    (h : b.arriving.length < n → b.lost = none) :
    (readFull b n).data = (content.drop offset.toNat).take n := by
  unfold readFull
  split
  · next hle =>
    obtain ⟨rest, hrest⟩ := hat.arriving
    rw [← hrest, take_append_of_le_length hle]
  next hlt =>
  have hlt := Nat.not_le.1 hlt
  rw [← hat.complete (h hlt), take_of_length_le (Nat.le_of_lt hlt)]

theorem result_readBody {n : Nat} :
    (h.readBody b n).2 =
      if b.arriving.length < n ∧ b.lost = some .other then failure
      else ⟨(readFull b n).data.length, (readFull b n).data⟩ := by
  unfold Handle.readBody
  simp only [readFull_other_iff]
  split <;> rfl

theorem correct_of_source_none (hnone : source content h c = none) :
    Correct content h c failure := by
  have hado : Opens h c ∧ (adopt content c.offset c.response).toOption = none := by
    unfold source at hnone
    by_cases hop : Opens h c
    · rw [if_pos hop] at hnone
      exact ⟨hop, hnone⟩
    · rw [if_neg hop] at hnone
      exact absurd (.inl hnone) hop
  refine ⟨fun hpos => absurd hpos (by decide), fun hzero => absurd hzero (by decide),
    fun _ => rfl, fun _ => ?_, Int.le_refl _⟩
  cases hres : c.response with
  | failed message => exact .inl (.inl ⟨hado.1, message, hres⟩)
  | answered status count err =>
    refine .inr ⟨hado.1, fun message hm => ?_, hado.2⟩
    rw [hres] at hm
    cases hm

theorem lost_iff (hb : source content h c = some b) :
    Lost content h c ↔ b.arriving.length < c.n ∧ b.lost.isSome := by
  constructor
  · rintro (⟨hop, message, hfai⟩ | ⟨b', hb', hlost⟩)
    · rw [source, if_pos hop, hfai] at hb
      cases hb
    · cases hb.symm.trans hb'
      exact hlost
  · exact fun hlost => .inr ⟨b, hb, hlost⟩

theorem correct_of_read (hb : source content h c = some b) (hat : b.At content c.offset)
    (hcom : b.arriving.length < c.n → b.lost = none)
    (hroom : c.n = 0 → content.length ≤ c.offset) :
    Correct content h c ⟨(readFull b c.n).data.length, (readFull b c.n).data⟩ := by
  have hdata := data_readFull hat hcom
  refine ⟨fun _ => ⟨hat.nonneg, rfl, hdata⟩, fun hzero => ?_, fun hlost => ?_, fun hneg => ?_, ?_⟩
  · have hnil : (content.drop c.offset.toNat).take c.n = [] :=
      hdata ▸ eq_nil_of_length_eq_zero (Int.ofNat.inj hzero)
    obtain hn | hend := take_eq_nil_iff.1 hnil
    · exact hroom hn
    have hle := drop_eq_nil_iff.1 hend
    have hnon := hat.nonneg
    omega
  · obtain ⟨hlt, hsome⟩ := (lost_iff hb).1 hlost
    rw [hcom hlt] at hsome
    cases hsome
  · simp only at hneg
    omega
  · simp only
    omega

end

/-- After any calls, a call of `readAt` is correct exactly if it does not take a lost connection for
the end of the body it reads, and has room for a byte unless there is none. -/
theorem readAt_correct_iff (content : List UInt8) (calls : List Call) (c : Call)
    (hcalls : ∀ c' ∈ calls, c'.Regular content) (hreg : c.Regular content) :
    let h := after content calls
    Correct content h c (h.readAt content c).2 ↔
      ∀ b, source content h c = some b →
        (b.arriving.length < c.n → b.lost = none ∨ b.lost = some .other) ∧
        (c.n = 0 → content.length ≤ c.offset) := by
  intro h
  have htra : Tracks content h := tracks_after hcalls
  obtain ⟨hnone, heq⟩ | ⟨b, hb, heq⟩ := readAt_cases content c htra.isOpen
  · rw [heq]
    refine iff_of_true (correct_of_source_none hnone) fun b hb => ?_
    cases hnone.symm.trans hb
  have hat : b.At content c.offset := at_source htra hreg hb
  rw [heq, result_readBody]
  by_cases hoth : b.arriving.length < c.n ∧ b.lost = some .other
  · -- the loss is reported as such, and there was room
    rw [if_pos hoth]
    have hlost : Lost content h c := (lost_iff hb).2 ⟨hoth.1, by rw [hoth.2]; rfl⟩
    refine iff_of_true ⟨fun hpos => absurd hpos (by decide), fun hzero => absurd hzero (by decide),
      fun _ => rfl, fun _ => .inl hlost, Int.le_refl _⟩ fun b' hb' => ?_
    cases hb.symm.trans hb'
    exact ⟨fun _ => .inr hoth.2, fun hn => by omega⟩
  rw [if_neg hoth]
  constructor
  · intro hcor b' hb'
    cases hb.symm.trans hb'
    refine ⟨fun hlt => ?_, fun hn => hcor.zero ?_⟩
    · cases hlost : b.lost with
      | none => exact .inl rfl
      | some err =>
        have hneg := hcor.lost ((lost_iff hb).2 ⟨hlt, by rw [hlost]; rfl⟩)
        simp only at hneg
        omega
    · simp [hn, readFull]
  intro hcond
  obtain ⟨hend, hroom⟩ := hcond b hb
  refine correct_of_read hb hat (fun hlt => ?_) hroom
  exact (hend hlt).resolve_right fun h => hoth ⟨hlt, h⟩

def cutRead (err : ReadError) : Call := ⟨0, 4, .answered 206 2 err⟩

theorem cutRead_regular (content : List UInt8) (err : ReadError) :
    (cutRead err).Regular content := by
  intro hneg
  exact absurd hneg (Int.lt_irrefl 0)

theorem reset_reported :
    Correct [1, 2, 3, 4, 5, 6] {} (cutRead .other)
      (({} : Handle).readAt [1, 2, 3, 4, 5, 6] (cutRead .other)).2 := by
  refine (readAt_correct_iff [1, 2, 3, 4, 5, 6] [] (cutRead .other) (fun c h => ?_)
    (cutRead_regular _ _)).2 fun b hb => ?_
  · cases h
  · cases hb
    exact ⟨fun _ => .inr rfl, fun hn => absurd hn (by decide)⟩

theorem lost_taken_for_end :
    (({} : Handle).readAt [1, 2, 3, 4, 5, 6] (cutRead .unexpectedEOF)).2 = ⟨2, [1, 2]⟩ ∧
    ((after [1, 2, 3, 4, 5, 6] [cutRead .unexpectedEOF]).readAt [1, 2, 3, 4, 5, 6]
      ⟨2, 4, .answered 206 6 .eof⟩).2 = ⟨0, []⟩ ∧
    ¬ Correct [1, 2, 3, 4, 5, 6] (after [1, 2, 3, 4, 5, 6] [cutRead .unexpectedEOF])
      ⟨2, 4, .answered 206 6 .eof⟩ ⟨0, []⟩ := by
  refine ⟨by decide, by decide, fun h => ?_⟩
  exact absurd (h.zero rfl) (by decide)

end LatticeMesh.Media
