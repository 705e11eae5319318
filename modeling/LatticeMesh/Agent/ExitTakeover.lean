import LatticeMesh.Lib.LTS
import LatticeMesh.Agent.ExitGate
import LatticeMesh.Transport.AllowedIPs

/-! # The exit takeover -/

namespace LatticeMesh.Agent

open Transport Text ExitPathGate List

def isExitAllowedIPs (allowedIPs : String) : Bool :=
  (split ',' allowedIPs).any fun cidr => trimSpace cidr = "0.0.0.0/0"

def exitProvider (peers : List Peer) : Option String :=
  (peers.find? fun peer => isExitAllowedIPs peer.allowedIPs).map Peer.appID

abbrev Fed := List (String × Sample)

namespace Fed

def samples (fed : Fed) : List Sample := fed.map Prod.snd

def samplesOf (p : String) (fed : Fed) : List Sample := samples (fed.filter fun e => e.1 = p)

def last (fed : Fed) : Option String := fed.getLast?.map Prod.fst

variable {fed : Fed} {p : String} {s : Sample}

theorem samples_concat : samples (fed ++ [(p, s)]) = fed.samples ++ [s] := map_append

theorem last_concat : last (fed ++ [(p, s)]) = some p := by
  unfold last
  rw [getLast?_concat]
  rfl

theorem samplesOf_concat : samplesOf p (fed ++ [(p, s)]) = fed.samplesOf p ++ [s] := by
  unfold samplesOf
  rw [filter_append, filter_singleton]
  simp [samples]

theorem getLast?_samplesOf (h : fed.last = some p) :
    (fed.samplesOf p).getLast? = fed.samples.getLast? := by
  obtain ⟨e, he, rfl⟩ := Option.map_eq_some_iff.1 h
  obtain ⟨front, rfl⟩ := getLast?_eq_some_iff.1 he
  obtain ⟨p, s⟩ := e
  rw [samplesOf_concat, samples_concat, getLast?_concat, getLast?_concat]

end Fed

namespace ExitPathGate

theorem evaluate_unready {g g' : ExitPathGate} (hg : g.everReady = false)
    (hg' : g'.everReady = false) (st : PeerStat) (now : Int) :
    (g.evaluate st now).2 = (g'.evaluate st now).2 := by
  unfold evaluate dead ExitPathGate.feed
  cases hrdy : st.ready <;> simp [hg, hg']

theorem feed_ready {g g' : ExitPathGate} (hg : g.everReady = false) (hg' : g'.everReady = false)
    {st : PeerStat} (hrdy : st.ready = true) (now : Int) : g.feed st now = g'.feed st now := by
  unfold ExitPathGate.feed
  simp [hg, hg', hrdy]

theorem verdict_unready {samples : List Sample} (h : (feedAll {} samples).everReady = false) :
    verdict samples = false := by
  unfold verdict dead
  split
  · rfl
  · rw [h]
    rfl

end ExitPathGate

structure Fed.Single (g : ExitPathGate) (fed : Fed) : Prop where
  gate : g = feedAll {} fed.samples
  own : g.everReady = true → ∃ q, fed.last = some q ∧ g = feedAll {} (fed.samplesOf q)

def Fed.Usable (g : ExitPathGate) (fed : Fed) (p : String) : Prop :=
  g.everReady = false ∨ fed.last = some p

namespace Fed.Single

variable {g : ExitPathGate} {fed : Fed} {p : String}

theorem new : Single {} [] := ⟨rfl, nofun⟩

theorem unready_samplesOf (h : fed.Single g) (hg : g.everReady = false) (p : String) :
    (feedAll {} (fed.samplesOf p)).everReady = false := by
  rw [h.gate, everReady_feedAll] at hg
  rw [everReady_feedAll, Bool.false_or, List.any_eq_false] at *
  intro s hs
  obtain ⟨e, he, rfl⟩ := List.mem_map.1 hs
  exact hg _ (List.mem_map_of_mem (mem_of_mem_filter he))

theorem cases (h : fed.Single g) (hp : fed.Usable g p) :
    (g.everReady = false ∧ (feedAll {} (fed.samplesOf p)).everReady = false) ∨
      (fed.last = some p ∧ g = feedAll {} (fed.samplesOf p)) := by
  cases hg : g.everReady with
  | false => exact .inl ⟨rfl, h.unready_samplesOf hg p⟩
  | true =>
    obtain ⟨q, hq, heq⟩ := h.own hg
    have hlast := hp.resolve_left (by simp [hg])
    cases hq.symm.trans hlast
    exact .inr ⟨hlast, heq⟩

theorem feed (h : fed.Single g) (hp : fed.Usable g p) (s : Sample) :
    Single (g.feed s.stat s.now) (fed ++ [(p, s)]) where
  gate := by
    rw [samples_concat, feedAll_append, ← h.gate]
    rfl
  own hrdy := by
    refine ⟨p, last_concat, ?_⟩
    rw [samplesOf_concat, feedAll_append]
    show _ = (feedAll {} (fed.samplesOf p)).feed s.stat s.now
    obtain ⟨hg, hown⟩ | ⟨-, heq⟩ := h.cases hp
    · have hnow : s.stat.ready = true := by simpa [ExitPathGate.feed, hg] using hrdy
      exact feed_ready hg hown hnow s.now
    · rw [← heq]

theorem verdict_samplesOf (h : fed.Single g) (hp : fed.Usable g p) :
    verdict (fed.samplesOf p) = verdict fed.samples := by
  obtain ⟨hg, hown⟩ | ⟨hlast, heq⟩ := h.cases hp
  · rw [verdict_unready hown, verdict_unready (h.gate ▸ hg)]
  · unfold verdict
    rw [getLast?_samplesOf hlast, ← heq, ← h.gate]

theorem verdict_feed (h : fed.Single g) (s : Sample) :
    verdict (samples (fed ++ [(p, s)])) = (g.evaluate s.stat s.now).2 := by
  rw [samples_concat, verdict_concat, ← h.gate]

theorem evaluate (h : fed.Single g) (hp : fed.Usable g p) (s : Sample) :
    (g.evaluate s.stat s.now).2 = verdict (fed.samplesOf p ++ [s]) := by
  rw [verdict_concat]
  obtain ⟨hg, hown⟩ | ⟨-, heq⟩ := h.cases hp
  · exact evaluate_unready hg hown s.stat s.now
  · rw [← heq]

end Fed.Single

structure ExitHandler where
  exitSelected : Bool := false
  exitPeerAppID : String := ""
  exitTakeoverActive : Bool := false
  exitGateDead : Bool := false
  exitGate : ExitPathGate := {}
  watching : Bool := false
  fed : Fed := []

inductive ExitEvent where
  | apply (peers : List Peer) (ok : Bool)
  | tick (stats : String → PeerStat) (now : Int) (ok : Bool)

def ExitEvent.ok : ExitEvent → Bool
  | .apply _ ok | .tick _ _ ok => ok

namespace ExitHandler

def switchTakeover (h : ExitHandler) (selected ok : Bool) : ExitHandler :=
  if selected && !h.exitTakeoverActive && !h.exitGateDead then
    if ok then { h with exitTakeoverActive := true } else h
  else if !selected && h.exitTakeoverActive then
    if ok then { h with exitTakeoverActive := false, exitGateDead := false } else h
  else h

def apply (h : ExitHandler) (peers : List Peer) (ok : Bool) : ExitHandler :=
  match exitProvider peers with
  | some appID =>
    { h.switchTakeover true ok with
      exitSelected := true
      exitPeerAppID := appID
      watching := true }
  | none => { h.switchTakeover false ok with exitSelected := false }

def followVerdict (h : ExitHandler) (dead ok : Bool) : ExitHandler :=
  if dead && h.exitTakeoverActive then
    if ok then { h with exitTakeoverActive := false, exitGateDead := true } else h
  else if !dead && h.exitGateDead then
    if ok then { h with exitTakeoverActive := true, exitGateDead := false } else h
  else h

def reconcileExitGate (h : ExitHandler) (stats : String → PeerStat) (now : Int) (ok : Bool) :
    ExitHandler :=
  if h.exitSelected = false ∨ h.exitPeerAppID = "" then h
  else
    let st := stats h.exitPeerAppID
    let (gate, dead) := h.exitGate.evaluate st now
    followVerdict { h with exitGate := gate, fed := h.fed ++ [(h.exitPeerAppID, ⟨st, now⟩)] } dead
      ok

def step (h : ExitHandler) : ExitEvent → Option ExitHandler
  | .apply peers ok => some (h.apply peers ok)
  | .tick stats now ok => if h.watching then some (h.reconcileExitGate stats now ok) else none

def system : LTS ExitHandler ExitEvent := ⟨fun h => h = {}, fun h e h' => h.step e = some h'⟩

theorem step_tick {h : ExitHandler} {stats : String → PeerStat} {now : Int} {ok : Bool}
    (hw : h.watching = true) :
    system.step h (.tick stats now ok) (h.reconcileExitGate stats now ok) := if_pos hw

def Undisturbed (h : ExitHandler) : ExitEvent → Prop
  | .apply peers _ => ∀ appID ∈ exitProvider peers, h.fed.Usable h.exitGate appID
  | .tick _ _ _ => True

structure Sound (h : ExitHandler) : Prop where
  single : h.fed.Single h.exitGate
  dead : h.exitGateDead = verdict h.fed.samples
  active : h.exitTakeoverActive = (h.exitSelected && !verdict h.fed.samples)
  usable : h.exitSelected = true → h.fed.Usable h.exitGate h.exitPeerAppID

variable {h : ExitHandler}

theorem Sound.new : Sound {} := ⟨.new, rfl, rfl, nofun⟩

theorem Sound.apply (hs : h.Sound) {peers : List Peer}
    (hp : ∀ appID ∈ exitProvider peers, h.fed.Usable h.exitGate appID) :
    (h.apply peers true).Sound := by
  obtain ⟨hsin, hdead, hacti, -⟩ := hs
  unfold ExitHandler.apply switchTakeover
  split
  · next appID hsome =>
    have hus := hp appID hsome
    cases hact : h.exitTakeoverActive with
    | true =>
      have hver : verdict h.fed.samples = false := by
        rw [hact] at hacti
        simpa using (Bool.and_eq_true_iff.1 hacti.symm).2
      exact ⟨hsin, hdead, by simp [hact, hver], fun _ => hus⟩
    | false =>
      cases hflag : h.exitGateDead with
      | true => exact ⟨hsin, hdead, by simp [hact, ← hdead, hflag], fun _ => hus⟩
      | false =>
        have hver : verdict h.fed.samples = false := hdead.symm.trans hflag
        exact ⟨hsin, hver.symm, by simp [hver], fun _ => hus⟩
  cases hact : h.exitTakeoverActive with
  | true =>
    have hver : verdict h.fed.samples = false := by
      rw [hact] at hacti
      simpa using (Bool.and_eq_true_iff.1 hacti.symm).2
    exact ⟨hsin, hver.symm, rfl, nofun⟩
  | false => exact ⟨hsin, hdead, hact, nofun⟩

theorem followVerdict_eq (hagr : h.exitTakeoverActive = !h.exitGateDead) (dead : Bool) :
    h.followVerdict dead true = { h with exitTakeoverActive := !dead, exitGateDead := dead } := by
  obtain ⟨selected, appID, active, flag, gate, watching, fed⟩ := h
  obtain rfl : active = !flag := hagr
  unfold followVerdict
  cases dead <;> cases flag <;> rfl

theorem Sound.reconcileExitGate (hs : h.Sound) (stats : String → PeerStat) (now : Int) :
    (h.reconcileExitGate stats now true).Sound := by
  unfold ExitHandler.reconcileExitGate
  split
  · exact hs
  next hsel =>
  obtain ⟨hsin, hdead, hact, hus⟩ := hs
  have hsele : h.exitSelected = true := by
    cases hsel' : h.exitSelected with
    | false => exact absurd (.inl hsel') hsel
    | true => rfl
  have hagr : h.exitTakeoverActive = !h.exitGateDead := by
    rw [hact, hsele, hdead, Bool.true_and]
  let s : Sample := ⟨stats h.exitPeerAppID, now⟩
  have hver : verdict (Fed.samples (h.fed ++ [(h.exitPeerAppID, s)])) =
      (h.exitGate.evaluate s.stat s.now).2 := hsin.verdict_feed s
  dsimp only
  rw [followVerdict_eq]
  · refine ⟨hsin.feed (hus hsele) s, hver.symm, ?_, fun _ => .inr Fed.last_concat⟩
    show (!_) = (h.exitSelected && !verdict (Fed.samples (h.fed ++ [(h.exitPeerAppID, s)])))
    rw [hver, hsele, Bool.true_and]
  · exact hagr

theorem Sound.reachable
    (hr : (system.guard fun h e => e.ok = true ∧ Undisturbed h e).Reachable h) : h.Sound := by
  refine hr.invariant (fun h h0 => h0 ▸ .new) ?_
  rintro h e h' - hs ⟨⟨hok, hund⟩, hstep⟩
  cases e with
  | apply peers ok =>
    cases (hok : ok = true)
    exact Option.some.inj hstep ▸ hs.apply hund
  | tick stats now ok =>
    cases (hok : ok = true)
    simp only [system, step] at hstep
    split at hstep
    · exact Option.some.inj hstep ▸ hs.reconcileExitGate stats now
    · cases hstep

end ExitHandler

structure ExitEngine where
  exitPeerAppID : String := ""
  exitGateClosed : Bool := false
  exitGate : ExitPathGate := {}
  exitRoute : Bool := false
  fed : Fed := []

inductive EngineEvent where
  | emit (peers : List Peer)
  | poll (merged : String → PeerStat) (now : Int)

namespace ExitEngine

def currentRoutes (e : ExitEngine) (peers : List Peer) : ExitEngine :=
  { e with
    exitPeerAppID := (exitProvider peers).getD ""
    exitRoute := (exitProvider peers).isSome && !e.exitGateClosed }

def reconcileExitGate (e : ExitEngine) (merged : String → PeerStat) (now : Int) : ExitEngine :=
  if e.exitPeerAppID = "" then e
  else
    let st := merged e.exitPeerAppID
    let (gate, dead) := e.exitGate.evaluate st now
    { e with
      exitGate := gate
      exitGateClosed := dead
      fed := e.fed ++ [(e.exitPeerAppID, ⟨st, now⟩)] }

def step (e : ExitEngine) : EngineEvent → ExitEngine
  | .emit peers => e.currentRoutes peers
  | .poll merged now => e.reconcileExitGate merged now

def system : LTS ExitEngine EngineEvent := ⟨fun e => e = {}, fun e ev e' => e.step ev = e'⟩

def Undisturbed (e : ExitEngine) : EngineEvent → Prop
  | .emit peers => ∀ appID ∈ exitProvider peers, e.fed.Usable e.exitGate appID
  | .poll _ _ => True

structure Sound (e : ExitEngine) : Prop where
  single : e.fed.Single e.exitGate
  closed : e.exitGateClosed = verdict e.fed.samples
  usable : e.exitPeerAppID ≠ "" → e.fed.Usable e.exitGate e.exitPeerAppID

variable {e : ExitEngine}

theorem Sound.new : Sound {} := ⟨.new, rfl, fun h => absurd rfl h⟩

theorem Sound.currentRoutes (hs : e.Sound) {peers : List Peer}
    (hp : ∀ appID ∈ exitProvider peers, e.fed.Usable e.exitGate appID) :
    (e.currentRoutes peers).Sound := by
  refine ⟨hs.single, hs.closed, fun hne => ?_⟩
  cases hexit : exitProvider peers with
  | none => exact absurd (congrArg (Option.getD · "") hexit) hne
  | some appID =>
    show e.fed.Usable e.exitGate ((exitProvider peers).getD "")
    rw [hexit]
    exact hp appID hexit

theorem Sound.reconcileExitGate (hs : e.Sound) (merged : String → PeerStat) (now : Int) :
    (e.reconcileExitGate merged now).Sound := by
  unfold ExitEngine.reconcileExitGate
  split
  · exact hs
  next hpeer =>
  exact ⟨hs.single.feed (hs.usable hpeer) ⟨merged e.exitPeerAppID, now⟩,
    (hs.single.verdict_feed ⟨merged e.exitPeerAppID, now⟩).symm, fun _ => .inr Fed.last_concat⟩

theorem Sound.reachable (hr : (system.guard Undisturbed).Reachable e) : e.Sound := by
  refine hr.invariant (fun e h0 => h0 ▸ .new) ?_
  rintro e ev e' - hs ⟨hund, hstep⟩
  cases (hstep : e.step ev = e')
  cases ev with
  | emit peers => exact hs.currentRoutes hund
  | poll merged now => exact hs.reconcileExitGate merged now

theorem Sound.exitRoute (hs : e.Sound) {peers : List Peer}
    (hp : ∀ appID ∈ exitProvider peers, e.fed.Usable e.exitGate appID) :
    (e.currentRoutes peers).exitRoute = true ↔
      ∃ appID ∈ exitProvider peers, verdict (e.fed.samplesOf appID) = false := by
  unfold ExitEngine.currentRoutes
  cases hexit : exitProvider peers with
  | none => simp
  | some appID => simp [hs.closed, hs.single.verdict_samplesOf (hp appID hexit)]

end ExitEngine

/-- **The takeover and the gate**, in every run in which all route commands succeed and a provider
is only selected if the gate can be used for it. -/
theorem takeover_follows_gate (h : ExitHandler) (e : ExitEngine) :
    ((ExitHandler.system.guard fun h e => e.ok = true ∧ h.Undisturbed e).Reachable h →
      (h.exitTakeoverActive = true ↔
        h.exitSelected = true ∧ verdict (h.fed.samplesOf h.exitPeerAppID) = false) ∧
      (h.exitSelected = true → ∀ s : Sample, (h.exitGate.evaluate s.stat s.now).2 =
        verdict (h.fed.samplesOf h.exitPeerAppID ++ [s]))) ∧
    ((ExitEngine.system.guard ExitEngine.Undisturbed).Reachable e →
      (∀ peers, e.Undisturbed (.emit peers) → ((e.currentRoutes peers).exitRoute = true ↔
        ∃ appID ∈ exitProvider peers, verdict (e.fed.samplesOf appID) = false)) ∧
      (e.exitPeerAppID ≠ "" → ∀ s : Sample, (e.exitGate.evaluate s.stat s.now).2 =
        verdict (e.fed.samplesOf e.exitPeerAppID ++ [s]))) := by
  constructor
  · intro hr
    have hs := ExitHandler.Sound.reachable hr
    refine ⟨?_, fun hsel s => hs.single.evaluate (hs.usable hsel) s⟩
    rw [hs.active, Bool.and_eq_true, Bool.not_eq_true']
    refine and_congr_right fun hsel => ?_
    rw [hs.single.verdict_samplesOf (hs.usable hsel)]
  intro hr
  have hs := ExitEngine.Sound.reachable hr
  exact ⟨fun peers hp => hs.exitRoute hp,
    fun hpeer s => hs.single.evaluate (hs.usable hpeer) s⟩

def exitPeer (appID : String) : Peer := ⟨appID, none, "", "", "", "", "0.0.0.0/0"⟩

def idleAt (second : Int) : String → PeerStat := fun _ => (sampleAt second 1000 1000).stat

theorem ready_provider_takes_over :
    ∃ (h : ExitHandler) (e : ExitEngine), h.exitPeerAppID = "a" ∧ h.exitTakeoverActive = true ∧
      verdict (h.fed.samplesOf h.exitPeerAppID) = false ∧
      (e.currentRoutes [exitPeer "a"]).exitRoute = true ∧ e.fed.samplesOf "a" ≠ [] := by
  let h1 := ExitHandler.apply {} [exitPeer "a"] true
  have hr1 : (ExitHandler.system.guard fun h e => e.ok = true ∧ h.Undisturbed e).Reachable h1 :=
    .step (l := .apply [exitPeer "a"] true) (.init rfl) ⟨⟨rfl, fun _ _ => .inl rfl⟩, rfl⟩
  let h2 := h1.reconcileExitGate (idleAt 0) 0 true
  have hr2 : (ExitHandler.system.guard fun h e => e.ok = true ∧ h.Undisturbed e).Reachable h2 :=
    hr1.step (l := .tick (idleAt 0) 0 true) ⟨⟨rfl, trivial⟩, ExitHandler.step_tick (by decide)⟩
  let e1 := ExitEngine.currentRoutes {} [exitPeer "a"]
  let e2 := e1.reconcileExitGate (idleAt 0) 0
  have he1 : (ExitEngine.system.guard ExitEngine.Undisturbed).Reachable e1 :=
    .step (l := .emit [exitPeer "a"]) (.init rfl) ⟨fun _ _ => .inl rfl, rfl⟩
  have he2 : (ExitEngine.system.guard ExitEngine.Undisturbed).Reachable e2 :=
    he1.step (l := .poll (idleAt 0) 0) ⟨trivial, rfl⟩
  obtain ⟨hhan, heng⟩ := takeover_follows_gate h2 e2
  have hact : h2.exitTakeoverActive = true := by decide
  refine ⟨h2, e2, by decide, hact, ((hhan hr2).1.1 hact).2,
    ((heng he2).1 [exitPeer "a"] ?_).2 ⟨"a", by decide, by decide⟩, by decide⟩
  intro appID hmem
  exact .inr (hmem ▸ by decide)

theorem switched_provider_blocked :
    ∃ h, (ExitHandler.system.guard fun _ e => e.ok = true).Reachable h ∧ h.exitSelected = true ∧
      h.exitPeerAppID = "b" ∧ h.fed.samplesOf "b" = [] ∧ verdict [] = false ∧
      h.exitTakeoverActive = false := by
  let h1 := ExitHandler.apply {} [exitPeer "a"] true
  let h2 := h1.reconcileExitGate (idleAt 0) 0 true
  let h3 := h2.reconcileExitGate (idleAt 61) (61 * 1000000000) true
  let h4 := h3.apply [exitPeer "b"] true
  let M := ExitHandler.system.guard fun _ e => e.ok = true
  have hr1 : M.Reachable h1 := .step (l := .apply [exitPeer "a"] true) (.init rfl) ⟨rfl, rfl⟩
  have hr2 : M.Reachable h2 :=
    hr1.step (l := .tick (idleAt 0) 0 true) ⟨rfl, ExitHandler.step_tick (by decide)⟩
  have hr3 : M.Reachable h3 :=
    hr2.step (l := .tick (idleAt 61) (61 * 1000000000) true)
      ⟨rfl, ExitHandler.step_tick (by decide)⟩
  have hr4 : M.Reachable h4 := hr3.step (l := .apply [exitPeer "b"] true) ⟨rfl, rfl⟩
  exact ⟨h4, hr4, by decide⟩

end LatticeMesh.Agent
