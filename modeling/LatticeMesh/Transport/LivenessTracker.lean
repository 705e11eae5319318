import Mathlib

/-! # The liveness tracker -/

namespace LatticeMesh.Transport.LivenessTracker

open List

def second : ℤ := 10 ^ 9

structure Sample where
  now : ℤ
  lastHandshake : ℤ
  rxBytes : ℕ

inductive Verdict where
  | alive
  | handshakeStale
  | rxStalled
  deriving DecidableEq

def livenessThreshold : ℤ := 180 * second

def rxStallThreshold : ℤ := 120 * second

def rxCadenceMax : ℤ := 40 * second

def rxArmAfter : ℕ := 3

structure Tracker where
  seen : Bool := false
  lastRx : ℕ := 0
  lastRxChange : ℤ
  lastGrowth : ℤ := 0
  streak : ℕ := 0

def Sample.fresh (s : Sample) : Bool :=
  s.lastHandshake ≠ 0 ∧ s.now - s.lastHandshake ≤ livenessThreshold

def Tracker.note (t : Tracker) (s : Sample) : Tracker :=
  if !t.seen then { t with seen := true, lastRx := s.rxBytes }
  else if s.rxBytes < t.lastRx then
    { t with lastRx := s.rxBytes, lastRxChange := s.now, streak := 0 }
  else if t.lastRx < s.rxBytes then
    { t with
      streak := if t.lastGrowth ≠ 0 ∧ s.now - t.lastGrowth ≤ rxCadenceMax then t.streak + 1 else 1
      lastRx := s.rxBytes
      lastRxChange := s.now
      lastGrowth := s.now }
  else t

def Tracker.observe (t : Tracker) (s : Sample) : Verdict × Tracker :=
  if !s.fresh then (.handshakeStale, t)
  else
    let t := t.note s
    if rxArmAfter ≤ t.streak ∧ rxStallThreshold < s.now - t.lastRxChange then (.rxStalled, t)
    else (.alive, t)

def tracked (created : ℤ) : List Sample → Tracker
  | [] => { lastRxChange := created }
  | s :: h => ((tracked created h).observe s).2

def growths : List Sample → List ℤ
  | s :: p :: h =>
    if s.rxBytes < p.rxBytes then []
    else if p.rxBytes < s.rxBytes then s.now :: growths (p :: h)
    else growths (p :: h)
  | _ => []

def lastChange : List Sample → Option ℤ
  | s :: p :: h => if s.rxBytes = p.rxBytes then lastChange (p :: h) else some s.now
  | _ => none

def runLength : List ℤ → ℕ
  | g :: g' :: gs => if g - g' ≤ rxCadenceMax then runLength (g' :: gs) + 1 else 1
  | gs => gs.length

theorem arm_le_runLength_iff (gs : List ℤ) : rxArmAfter ≤ runLength gs ↔
    ∃ g₁ g₂ g₃ older, gs = g₃ :: g₂ :: g₁ :: older ∧ g₃ - g₂ ≤ rxCadenceMax ∧
      g₂ - g₁ ≤ rxCadenceMax := by
  unfold rxArmAfter
  match gs with
  | [] | [_] => simp [runLength]
  | [g, g'] =>
    simp only [runLength]
    split <;> simp
  | g₃ :: g₂ :: g₁ :: gs =>
    have hpos : 1 ≤ runLength (g₁ :: gs) := by
      cases gs <;> simp only [runLength] <;> try split
      all_goals simp
    by_cases h₃ : g₃ - g₂ ≤ rxCadenceMax <;> by_cases h₂ : g₂ - g₁ ≤ rxCadenceMax <;>
      simp [runLength, h₃, h₂] <;> omega

structure Tracks (t : Tracker) (f : List Sample) : Prop where
  seen : t.seen = f.head?.isSome
  lastRx : ∀ p ∈ f.head?, t.lastRx = p.rxBytes
  streak : t.streak = runLength (growths f)
  lastGrowth : ∀ g ∈ (growths f).head?, t.lastGrowth = g ∧ g ≠ 0 ∧
    lastChange f = some t.lastRxChange

theorem Tracks.note {t : Tracker} {f : List Sample} {s : Sample} (h : Tracks t f)
    (hnow : s.now ≠ 0) : Tracks (t.note s) (s :: f) := by
  obtain ⟨hseen, hrx, hstreak, hgrowth⟩ := h
  cases f with
  | nil =>
    have hstreak : t.streak = 0 := hstreak
    have hseen : t.seen = false := hseen
    constructor <;> simp [Tracker.note, hseen, hstreak, growths, runLength]
  | cons p f =>
    have hrx := hrx p rfl
    have hseen : t.seen = true := hseen
    obtain hlt | heq | hgt := lt_trichotomy s.rxBytes p.rxBytes
    · constructor <;> simp [Tracker.note, hseen, hrx, hlt, growths, runLength]
    · have hg : growths (s :: p :: f) = growths (p :: f) := by simp [growths, heq]
      have hc : lastChange (s :: p :: f) = lastChange (p :: f) := by simp [lastChange, heq]
      have ht : t.note s = t := by simp [Tracker.note, hseen, hrx, heq]
      rw [ht]
      exact ⟨hseen, by simp [hrx, heq], hg ▸ hstreak, hg ▸ hc ▸ hgrowth⟩
    have hg : growths (s :: p :: f) = s.now :: growths (p :: f) := by
      simp [growths, hgt, hgt.le]
    have hc : lastChange (s :: p :: f) = some s.now := by simp [lastChange, hgt.ne']
    refine ⟨?_, ?_, ?_, ?_⟩ <;>
      simp only [Tracker.note, hseen, hrx, hg, hc, hgt, not_lt_of_gt hgt, Bool.not_true,
        Bool.false_eq_true, if_true, if_false]
    · rfl
    · simp
    · -- after a reset there is no growth, and whichever branch is taken the streak is one
      cases hgs : growths (p :: f) with
      | nil => simp [hstreak, hgs, runLength]
      | cons g gs =>
        obtain ⟨hlast, hne, -⟩ := hgrowth g (by simp [hgs])
        simp [hstreak, hgs, runLength, hlast, hne]
    · simp [hnow]

theorem tracks (created : ℤ) (h : List Sample) (hnow : ∀ s ∈ h, s.now ≠ 0) :
    Tracks (tracked created h) (h.filter Sample.fresh) := by
  induction h with
  | nil => constructor <;> simp [tracked, growths, runLength]
  | cons s h ih =>
    obtain ⟨hs, hh⟩ := forall_mem_cons.1 hnow
    unfold tracked Tracker.observe
    cases hf : s.fresh
    · simpa [hf] using ih hh
    have hstep := (ih hh).note hs
    simp only [hf, Bool.not_true, Bool.false_eq_true, if_false, filter_cons_of_pos]
    split <;> exact hstep

/-- **What is reported as stalled.** After any samples `h`, none of them at the zero time, the sample
`s` is reported as stalled exactly if its handshake is fresh, and over the fresh samples the latest
growth ended a run of three growths in the rhythm of keepalives since the last reset, and the last
change of the counter is longer ago than the threshold. -/
theorem rxStalled_iff (created : ℤ) (s : Sample) (h : List Sample)
    (hnow : ∀ x ∈ s :: h, x.now ≠ 0) :
    ((tracked created h).observe s).1 = .rxStalled ↔ s.fresh ∧
      (∃ g₁ g₂ g₃ older, growths ((s :: h).filter Sample.fresh) = g₃ :: g₂ :: g₁ :: older ∧
        g₃ - g₂ ≤ rxCadenceMax ∧ g₂ - g₁ ≤ rxCadenceMax) ∧
      ∃ c, lastChange ((s :: h).filter Sample.fresh) = some c ∧ rxStallThreshold < s.now - c := by
  rw [← arm_le_runLength_iff]
  obtain ⟨hs, hh⟩ := forall_mem_cons.1 hnow
  unfold Tracker.observe
  cases hf : s.fresh
  · simp
  obtain ⟨-, -, hstreak, hgrowth⟩ := (tracks created h hh).note hs
  simp only [hf, Bool.not_true, Bool.false_eq_true, if_false, filter_cons_of_pos, true_and,
    ← hstreak]
  have hchange (harm : rxArmAfter ≤ ((tracked created h).note s).streak) :
      lastChange (s :: h.filter Sample.fresh) =
        some ((tracked created h).note s).lastRxChange := by
    rw [hstreak, arm_le_runLength_iff] at harm
    obtain ⟨_, _, g₃, _, heq, -⟩ := harm
    exact (hgrowth g₃ (by simp [heq])).2.2
  split
  · next hst => exact iff_of_true rfl ⟨hst.1, _, hchange hst.1, hst.2⟩
  next hst =>
  refine iff_of_false nofun ?_
  rintro ⟨harm, c, hc, hlate⟩
  rw [hchange harm, Option.some.injEq] at hc
  exact hst ⟨harm, hc ▸ hlate⟩

def seenAt (now : ℤ) (rxBytes : ℕ) : Sample := ⟨now * second, (now - 1) * second, rxBytes⟩

def rhythm (start : ℤ) : List Sample :=
  [seenAt (start + 20) 3, seenAt (start + 10) 2, seenAt start 1, seenAt (start - 5) 0]

theorem silent_after_rhythm :
    ((tracked 0 (rhythm 10)).observe (seenAt 160 3)).1 = .rxStalled :=
  (rxStalled_iff 0 (seenAt 160 3) (rhythm 10) (by decide)).2
    ⟨by decide, ⟨10 * second, 20 * second, 30 * second, [], by decide⟩, 30 * second, by decide⟩

theorem growth_at_zero_forgotten :
    ((seenAt 150 3 :: rhythm 0).reverse.Pairwise fun a b => a.now ≤ b.now) ∧
    ((tracked 0 (rhythm 0)).observe (seenAt 150 3)).1 = .alive ∧ (seenAt 150 3).fresh ∧
    growths ((seenAt 150 3 :: rhythm 0).filter Sample.fresh) = [20 * second, 10 * second, 0] ∧
    lastChange ((seenAt 150 3 :: rhythm 0).filter Sample.fresh) = some (20 * second) ∧
    rxStallThreshold < 150 * second - 20 * second := by
  decide

end LatticeMesh.Transport.LivenessTracker
