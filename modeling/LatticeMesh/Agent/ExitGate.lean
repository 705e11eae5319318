import Mathlib.Data.List.Chain

/-! # The exit gate -/

namespace LatticeMesh.Agent

open List

structure PeerStat where
  state : String
  rxBytes : UInt64
  txBytes : UInt64
  handshakeAgo : Int
  deriving DecidableEq

def PeerStat.ready (st : PeerStat) : Bool := st.state = "ice-ready" || st.state = "relay-ready"

def PeerStat.down (st : PeerStat) : Bool := st.state = "failed" || st.state = "closed"

def failOpenPathStall : Int := 60 * 1000000000

structure ExitPathGate where
  everReady : Bool := false
  lastProgress : Int := 0
  lastRx : UInt64 := 0
  lastTx : UInt64 := 0
  lastHandshakeAgo : Int := 0
  seenHandshake : Bool := false

namespace ExitPathGate

def progress (g : ExitPathGate) (st : PeerStat) : Bool :=
  g.lastRx < st.rxBytes || g.lastTx < st.txBytes ||
    (0 ≤ st.handshakeAgo && (!g.seenHandshake || st.handshakeAgo < g.lastHandshakeAgo))

def feed (g : ExitPathGate) (st : PeerStat) (now : Int) : ExitPathGate where
  everReady := g.everReady || st.ready
  lastProgress := if g.progress st || (st.ready && !g.everReady) then now else g.lastProgress
  lastRx := st.rxBytes
  lastTx := st.txBytes
  lastHandshakeAgo := st.handshakeAgo
  seenHandshake := true

def dead (g : ExitPathGate) (st : PeerStat) (now : Int) : Bool :=
  g.everReady && (st.down || failOpenPathStall < now - g.lastProgress)

def evaluate (g : ExitPathGate) (st : PeerStat) (now : Int) : ExitPathGate × Bool :=
  (g.feed st now, (g.feed st now).dead st now)

end ExitPathGate

structure Sample where
  stat : PeerStat
  now : Int
  deriving DecidableEq

namespace ExitPathGate

def feedAll (g : ExitPathGate) (samples : List Sample) : ExitPathGate :=
  samples.foldl (fun g s => g.feed s.stat s.now) g

def verdict (samples : List Sample) : Bool :=
  match samples.getLast? with
  | none => false
  | some s => (feedAll {} samples).dead s.stat s.now

variable {g : ExitPathGate} {samples : List Sample}

theorem feedAll_append (l l' : List Sample) : g.feedAll (l ++ l') = (g.feedAll l).feedAll l' :=
  foldl_append

theorem verdict_concat (samples : List Sample) (s : Sample) :
    verdict (samples ++ [s]) = ((feedAll {} samples).evaluate s.stat s.now).2 := by
  unfold verdict
  rw [getLast?_concat, feedAll_append]
  rfl

theorem everReady_feedAll :
    (g.feedAll samples).everReady = (g.everReady || samples.any fun s => s.stat.ready) := by
  induction samples generalizing g with
  | nil => exact (Bool.or_false _).symm
  | cons s samples ih =>
    show ((g.feed s.stat s.now).feedAll samples).everReady = _
    rw [ih, any_cons, ← Bool.or_assoc]
    rfl

theorem ready_of_verdict (h : verdict samples = true) : ∃ r ∈ samples, r.stat.ready = true := by
  unfold verdict at h
  split at h
  · cases h
  have hrdy : (feedAll {} samples).everReady = true := (Bool.and_eq_true_iff.1 h).1
  rw [everReady_feedAll] at hrdy
  exact List.any_eq_true.1 hrdy

def Stalled (x y : Sample) : Prop :=
  ¬ x.stat.rxBytes < y.stat.rxBytes ∧
    ¬ (0 ≤ y.stat.handshakeAgo ∧
      (x.stat.handshakeAgo < 0 ∨ y.stat.handshakeAgo < x.stat.handshakeAgo))

instance (x y : Sample) : Decidable (Stalled x y) := inferInstanceAs (Decidable (_ ∧ _))

def QuietBefore (now : Int) (x y : Sample) : Prop :=
  x.stat.txBytes < y.stat.txBytes → failOpenPathStall < now - y.now

instance (now : Int) (x y : Sample) : Decidable (QuietBefore now x y) :=
  inferInstanceAs (Decidable (_ → _))

structure Remembers (g : ExitPathGate) (x : Sample) : Prop where
  everReady : g.everReady = true
  rx : g.lastRx = x.stat.rxBytes
  tx : g.lastTx = x.stat.txBytes
  handshake : g.lastHandshakeAgo = x.stat.handshakeAgo
  seen : g.seenHandshake = true

theorem Remembers.feed (h : g.everReady = true) (y : Sample) :
    Remembers (g.feed y.stat y.now) y :=
  ⟨by simp [ExitPathGate.feed, h], rfl, rfl, rfl, rfl⟩

theorem Remembers.progress {x y : Sample} (h : Remembers g x) (hsta : Stalled x y) :
    g.progress y.stat = true ↔ x.stat.txBytes < y.stat.txBytes := by
  obtain ⟨hrx, hsha⟩ := hsta
  unfold ExitPathGate.progress
  rw [h.rx, h.tx, h.handshake, h.seen]
  have hno : ¬ (0 ≤ y.stat.handshakeAgo ∧ y.stat.handshakeAgo < x.stat.handshakeAgo) :=
    fun hc => hsha ⟨hc.1, .inr hc.2⟩
  simp [hrx, hno]

theorem le_lastProgress_feedAll {t : Int} (hg : t ≤ g.lastProgress)
    (hs : ∀ s ∈ samples, t ≤ s.now) : t ≤ (g.feedAll samples).lastProgress := by
  induction samples generalizing g with
  | nil => exact hg
  | cons s samples ih =>
    refine ih (g := g.feed s.stat s.now) ?_ fun r hr => hs r (mem_cons_of_mem _ hr)
    unfold ExitPathGate.feed
    dsimp only
    split
    · exact hs s mem_cons_self
    · exact hg

theorem Remembers.stalled_iff {x : Sample} (h : Remembers g x)
    (hsta : (x :: samples).IsChain Stalled)
    (htim : samples.Pairwise fun a b => a.now ≤ b.now) {now : Int}
    (hlong : failOpenPathStall < now - g.lastProgress) :
    failOpenPathStall < now - (g.feedAll samples).lastProgress ↔
      (x :: samples).IsChain (QuietBefore now) := by
  induction samples generalizing g x with
  | nil => exact iff_of_true hlong (isChain_singleton x)
  | cons y samples ih =>
    obtain ⟨hxy, hsta⟩ := isChain_cons_cons.1 hsta
    obtain ⟨hlat, htim⟩ := pairwise_cons.1 htim
    have hpro := h.progress hxy
    have hfeed : (g.feed y.stat y.now).lastProgress =
        if x.stat.txBytes < y.stat.txBytes then y.now else g.lastProgress := by
      unfold ExitPathGate.feed
      simp [h.everReady, hpro]
    have hy := Remembers.feed h.everReady y
    show _ < now - ((g.feed y.stat y.now).feedAll samples).lastProgress ↔ _
    rw [isChain_cons_cons]
    by_cases hsent : x.stat.txBytes < y.stat.txBytes
    · rw [if_pos hsent] at hfeed
      by_cases hqt : failOpenPathStall < now - y.now
      · rw [ih hy hsta htim (by rw [hfeed]; exact hqt)]
        exact ⟨fun hrest => ⟨fun _ => hqt, hrest⟩, fun hall => hall.2⟩
      have hle : y.now ≤ ((g.feed y.stat y.now).feedAll samples).lastProgress :=
        le_lastProgress_feedAll (Int.le_of_eq hfeed.symm) hlat
      refine iff_of_false (fun hlt => hqt ?_) fun hall => hqt (hall.1 hsent)
      omega
    rw [if_neg hsent] at hfeed
    rw [ih hy hsta htim (by rw [hfeed]; exact hlong)]
    exact ⟨fun hrest => ⟨fun hc => absurd hc hsent, hrest⟩, fun hall => hall.2⟩

theorem lastProgress_feedAll_le {t : Int} (hg : g.everReady = false ∨ g.lastProgress ≤ t)
    (hrdy : (g.feedAll samples).everReady = true) (hs : ∀ s ∈ samples, s.now ≤ t) :
    (g.feedAll samples).lastProgress ≤ t := by
  induction samples generalizing g with
  | nil => exact hg.resolve_left fun hnev => nomatch hnev.symm.trans hrdy
  | cons s samples ih =>
    refine ih (g := g.feed s.stat s.now) ?_ hrdy fun r hr => hs r (mem_cons_of_mem _ hr)
    have hnow := hs s mem_cons_self
    unfold ExitPathGate.feed
    dsimp only
    cases hever : g.everReady with
    | true =>
      refine .inr ?_
      split
      · exact hnow
      · exact hg.resolve_left (by simp [hever])
    | false =>
      cases s.stat.ready with
      | true => exact .inr (by simpa using hnow)
      | false => exact .inl rfl

/-- **The verdicts of the exit gate.** No path is reported dead that has not been ready; and on a
path that has stalled for more than 60 s the verdict depends on what this node has sent. -/
theorem exit_gate_verdicts (samples old new : List Sample) (k s : Sample) :
    (verdict samples = true → ∃ r ∈ samples, r.stat.ready = true) ∧
      ((old ++ k :: new ++ [s]).Pairwise (fun a b => a.now ≤ b.now) →
        (∃ r ∈ old ++ [k], r.stat.ready = true) →
        (k :: new ++ [s]).IsChain Stalled → failOpenPathStall < s.now - k.now →
        (verdict (old ++ k :: new ++ [s]) = true ↔
          s.stat.down = true ∨ (k :: new ++ [s]).IsChain (QuietBefore s.now))) := by
  refine ⟨ready_of_verdict, ?_⟩
  intro htim hrdy hsta hlong
  have hlist : old ++ k :: new ++ [s] = (old ++ [k]) ++ (new ++ [s]) := by simp
  rw [hlist] at htim ⊢
  obtain ⟨hold, hnew, hcro⟩ := pairwise_append.1 htim
  have hever : (feedAll {} (old ++ [k])).everReady = true := by
    rw [everReady_feedAll]
    exact List.any_eq_true.2 hrdy
  have hrem : Remembers (feedAll {} (old ++ [k])) k := by
    rw [feedAll_append] at hever ⊢
    exact ⟨hever, rfl, rfl, rfl, rfl⟩
  have hbef : (feedAll {} (old ++ [k])).lastProgress ≤ k.now := by
    refine lastProgress_feedAll_le (.inl rfl) hever fun r hr => ?_
    obtain hr | hr := mem_append.1 hr
    · exact (pairwise_append.1 hold).2.2 r hr k mem_cons_self
    · exact Int.le_of_eq (congrArg Sample.now (mem_singleton.1 hr))
  have hstal : failOpenPathStall <
        s.now - ((feedAll {} (old ++ [k])).feedAll (new ++ [s])).lastProgress ↔
      (k :: (new ++ [s])).IsChain (QuietBefore s.now) :=
    hrem.stalled_iff hsta hnew (by omega)
  have hever' : (feedAll {} ((old ++ [k]) ++ (new ++ [s]))).everReady = true := by
    rw [feedAll_append, everReady_feedAll, hever]
    rfl
  have hlast : ((old ++ [k]) ++ (new ++ [s])).getLast? = some s := by
    rw [← append_assoc, getLast?_concat]
  unfold verdict dead
  rw [hlast]
  simp only [hever', Bool.true_and, Bool.or_eq_true, decide_eq_true_eq]
  rw [feedAll_append, hstal]
  rfl

def sampleAt (second : Int) (rx tx : UInt64) : Sample :=
  ⟨⟨"relay-ready", rx, tx, second⟩, second * 1000000000⟩

theorem silent_path_dead :
    verdict [sampleAt 0 1000 1000, sampleAt 25 1000 1000, sampleAt 61 1000 1000] = true :=
  ((exit_gate_verdicts [] [] [sampleAt 25 1000 1000] (sampleAt 0 1000 1000)
    (sampleAt 61 1000 1000)).2 (by decide) (by decide) (by decide) (by decide)).2 (.inr (by decide))

def keepalives : List Sample :=
  (List.range 25).map fun i : ℕ => sampleAt (5 * i : ℕ) 1000 (UInt64.ofNat (1000 + 32 * (i / 5)))

theorem sending_path_alive :
    keepalives.Pairwise (fun a b => a.now ≤ b.now) ∧ keepalives.IsChain Stalled ∧
      keepalives.head? = some (sampleAt 0 1000 1000) ∧
      keepalives.getLast? = some (sampleAt 120 1000 1128) ∧
      failOpenPathStall < (sampleAt 120 1000 1128).now - (sampleAt 0 1000 1000).now ∧
      verdict keepalives = false := by
  decide

end ExitPathGate

end LatticeMesh.Agent
