import LatticeMesh.Lib.LTS

/-! # Netmap convergence -/

namespace LatticeMesh.Agent

open Option

variable {μ ν : Type}

inductive Device (μ : Type) where
  | unset
  | holds (m : μ)
  | mixed

inductive ApplyPath where
  | start
  | refresh
  | reconnect
  | push
  deriving DecidableEq

inductive ApplyPhase (μ : Type) where
  | fetched (m : μ)
  | ready (m : μ)
  | applying (m : μ)
  | applied (m : μ)

def ApplyPhase.isApplying : ApplyPhase μ → Bool
  | .applying _ => true
  | _ => false

def ApplyPath.first (m : μ) : ApplyPath → ApplyPhase μ
  | .refresh => .fetched m
  | _ => .ready m

structure SyncState (μ ν : Type) where
  server : μ
  device : Device μ
  appliedVersion : Option ν
  lastVersion : Option ν
  poll : Option (ApplyPhase μ)
  others : List (ApplyPath × ApplyPhase μ)
  applyMu : Bool
  overlapped : Bool
  polled : Option μ
  later : Option (Device μ)

namespace SyncState

def busy (s : SyncState μ ν) : Bool :=
  s.poll.any ApplyPhase.isApplying || s.others.any fun t => t.2.isApplying

def beginApply (s : SyncState μ ν) : SyncState μ ν :=
  { s with overlapped := s.overlapped || s.busy }

def endApply (s t : SyncState μ ν) (device : Device μ) : SyncState μ ν :=
  { t with device := device, overlapped := s.overlapped && t.busy }

def result (s : SyncState μ ν) (m : μ) : Device μ := if s.overlapped then .mixed else .holds m

def Quiescent (s : SyncState μ ν) : Prop := s.poll = none ∧ s.others = []

end SyncState

inductive SyncEvent where
  | fetch
  | skip
  | ready
  | begin
  | finish
  | fail
  | record

inductive SyncLabel where
  | change
  | poll (e : SyncEvent)
  | other (e : SyncEvent)

section

variable (version : μ → Option ν)

def Skips (m : μ) (last : Option ν) : Prop := version m ≠ none ∧ version m = last

inductive SyncStep (s : SyncState μ ν) : SyncLabel → SyncState μ ν → Prop
  | change (m : μ) : SyncStep s .change { s with server := m }
  | pollFetch (h : s.poll = none) :
      SyncStep s (.poll .fetch) { s with poll := some (.fetched s.server) }
  | pollSkip {m : μ} (h : s.poll = some (.fetched m)) (hv : Skips version m s.lastVersion) :
      SyncStep s (.poll .skip) { s with poll := none }
  | pollReady {m : μ} (h : s.poll = some (.fetched m)) (hv : ¬ Skips version m s.lastVersion) :
      SyncStep s (.poll .ready) { s with poll := some (.ready m) }
  | pollBegin {m : μ} (h : s.poll = some (.ready m)) (hmu : s.applyMu = false) :
      SyncStep s (.poll .begin)
        { s.beginApply with poll := some (.applying m), applyMu := true }
  | pollFinish {m : μ} (h : s.poll = some (.applying m)) :
      SyncStep s (.poll .finish) (s.endApply
        { s with
          poll := some (.applied m), applyMu := false, polled := some m,
          later := if s.overlapped then some .mixed else none } (s.result m))
  | pollFail {m : μ} (h : s.poll = some (.applying m)) {device : Device μ}
      (hd : device = s.device ∨ device = .mixed) :
      SyncStep s (.poll .fail) (s.endApply
        { s with poll := none, applyMu := false, later := some device } device)
  | pollRecord {m : μ} (h : s.poll = some (.applied m)) :
      SyncStep s (.poll .record)
        { s with poll := none, lastVersion := version m, appliedVersion := version m }
  | fetch (path : ApplyPath) :
      SyncStep s (.other .fetch) { s with others := (path, path.first s.server) :: s.others }
  | skip {l r : List (ApplyPath × ApplyPhase μ)} {m : μ}
      (h : s.others = l ++ (.refresh, .fetched m) :: r) (hv : Skips version m s.appliedVersion) :
      SyncStep s (.other .skip) { s with others := l ++ r }
  | ready {l r : List (ApplyPath × ApplyPhase μ)} {m : μ}
      (h : s.others = l ++ (.refresh, .fetched m) :: r) (hv : ¬ Skips version m s.appliedVersion) :
      SyncStep s (.other .ready) { s with others := l ++ (.refresh, .ready m) :: r }
  | begin {l r : List (ApplyPath × ApplyPhase μ)} {path : ApplyPath} {m : μ}
      (h : s.others = l ++ (path, .ready m) :: r) (hmu : path ≠ .push → s.applyMu = false) :
      SyncStep s (.other .begin)
        { s.beginApply with
          others := l ++ (path, .applying m) :: r, applyMu := s.applyMu || path ≠ .push }
  | finish {l r : List (ApplyPath × ApplyPhase μ)} {path : ApplyPath} {m : μ}
      (h : s.others = l ++ (path, .applying m) :: r) :
      SyncStep s (.other .finish) (s.endApply
        { s with
          others := l ++ (path, .applied m) :: r, applyMu := s.applyMu && path = .push,
          later := some (s.result m) } (s.result m))
  | fail {l r : List (ApplyPath × ApplyPhase μ)} {path : ApplyPath} {m : μ}
      (h : s.others = l ++ (path, .applying m) :: r) {device : Device μ}
      (hd : device = s.device ∨ device = .mixed) :
      SyncStep s (.other .fail) (s.endApply
        { s with
          others := l ++ r, applyMu := s.applyMu && path = .push, later := some device } device)
  | record {l r : List (ApplyPath × ApplyPhase μ)} {path : ApplyPath} {m : μ}
      (h : s.others = l ++ (path, .applied m) :: r) :
      SyncStep s (.other .record)
        { s with
          others := l ++ r,
          appliedVersion := if path = .push then s.appliedVersion else version m }

def SyncState.new (server : μ) : SyncState μ ν where
  server := server
  device := .unset
  appliedVersion := none
  lastVersion := none
  poll := none
  others := []
  applyMu := false
  overlapped := false
  polled := none
  later := none

def sync : LTS (SyncState μ ν) SyncLabel where
  init s := ∃ server, s = .new server
  step := SyncStep version

inductive SuccessfulPoll (s : SyncState μ ν) : SyncState μ ν → Prop
  | skipped {s₁ s₂ : SyncState μ ν} (h₁ : SyncStep version s (.poll .fetch) s₁)
      (h₂ : SyncStep version s₁ (.poll .skip) s₂) : SuccessfulPoll s s₂
  | applied {s₁ s₂ s₃ s₄ s₅ : SyncState μ ν} (h₁ : SyncStep version s (.poll .fetch) s₁)
      (h₂ : SyncStep version s₁ (.poll .ready) s₂) (h₃ : SyncStep version s₂ (.poll .begin) s₃)
      (h₄ : SyncStep version s₃ (.poll .finish) s₄) (h₅ : SyncStep version s₄ (.poll .record) s₅) :
      SuccessfulPoll s s₅

structure SyncInv (s : SyncState μ ν) : Prop where
  recorded : (∀ m, s.poll ≠ some (.applied m)) → s.lastVersion = s.polled.bind version
  applied : ∀ m, s.poll = some (.applied m) → s.polled = some m
  device : ∀ m, s.polled = some m → s.device = s.later.getD (.holds m)
  alone : s.busy = false → s.overlapped = false

end

variable {version : μ → Option ν} {s s' : SyncState μ ν}

theorem result_eq (s : SyncState μ ν) (m : μ) :
    s.result m = (if s.overlapped then some Device.mixed else none).getD (.holds m) := by
  unfold SyncState.result
  split <;> rfl

theorem alone_endApply {t : SyncState μ ν} {device : Device μ} :
    (s.endApply t device).busy = false → (s.endApply t device).overlapped = false := by
  intro h
  change t.busy = false at h
  change (s.overlapped && t.busy) = false
  rw [h, Bool.and_false]

theorem SyncInv.new (server : μ) : SyncInv version (SyncState.new server) :=
  ⟨fun _ => rfl, nofun, nofun, fun _ => rfl⟩

theorem SyncInv.others (h : SyncInv version s) (hpoll : s'.poll = s.poll)
    (hlast : s'.lastVersion = s.lastVersion) (hpol : s'.polled = s.polled)
    (hdev : s'.device = s.device ∧ s'.later = s.later ∨ s'.later = some s'.device)
    (halo : s'.busy = false → s'.overlapped = false) : SyncInv version s' where
  recorded hne := by
    rw [hlast, hpol]
    exact h.recorded fun m hm => hne m (hpoll.trans hm)
  applied m hm := hpol.trans (h.applied m (hpoll.symm.trans hm))
  device m hm := by
    rcases hdev with ⟨hd, hl⟩ | hl
    · rw [hd, hl]
      exact h.device m (hpol.symm.trans hm)
    · rw [hl, getD_some]
  alone := halo

theorem SyncInv.step {l : SyncLabel} (h : SyncInv version s) (hs : SyncStep version s l s') :
    SyncInv version s' := by
  cases hs with
  | change m => exact ⟨h.recorded, h.applied, h.device, h.alone⟩
  | pollFetch hp | pollSkip hp _ | pollReady hp _ =>
    refine ⟨fun _ => h.recorded fun m hm => ?_, nofun, h.device, fun hb => h.alone ?_⟩
    · rw [hp] at hm
      cases hm
    · simpa [SyncState.busy, ApplyPhase.isApplying, hp] using hb
  | pollBegin hp _ =>
    refine ⟨fun _ => h.recorded fun m hm => ?_, nofun, h.device, fun hb => ?_⟩
    · rw [hp] at hm
      cases hm
    · simp [SyncState.busy, ApplyPhase.isApplying] at hb
  | @pollFinish m hp =>
    refine ⟨fun hne => absurd rfl (hne m), ?_, ?_, alone_endApply⟩
    · intro m' hm'
      cases hm'
      rfl
    intro m' hm'
    cases hm'
    exact result_eq s m
  | pollFail hp hd =>
    refine ⟨fun _ => h.recorded fun m hm => ?_, nofun, fun _ _ => rfl, alone_endApply⟩
    rw [hp] at hm
    cases hm
  | pollRecord hp =>
    refine ⟨fun _ => ?_, nofun, h.device, fun hb => h.alone ?_⟩
    · rw [h.applied _ hp]
      rfl
    · simpa [SyncState.busy, ApplyPhase.isApplying, hp] using hb
  | fetch path =>
    refine h.others rfl rfl rfl (.inl ⟨rfl, rfl⟩) fun hb => h.alone ?_
    cases path <;> simpa [SyncState.busy, ApplyPath.first, ApplyPhase.isApplying] using hb
  | skip ht _ | ready ht _ | record ht =>
    refine h.others rfl rfl rfl (.inl ⟨rfl, rfl⟩) fun hb => h.alone ?_
    simpa [SyncState.busy, ApplyPhase.isApplying, ht] using hb
  | begin ht _ =>
    refine h.others rfl rfl rfl (.inl ⟨rfl, rfl⟩) fun hb => ?_
    simp [SyncState.busy, ApplyPhase.isApplying] at hb
  | finish ht | fail ht _ => exact h.others rfl rfl rfl (.inr rfl) alone_endApply

theorem SyncInv.reachable (h : (sync version).Reachable s) : SyncInv version s := by
  refine LTS.Reachable.invariant ?_ ?_ h
  · rintro s ⟨server, rfl⟩
    exact SyncInv.new server
  · intro s l t _ hs hst
    exact hs.step hst

theorem SuccessfulPoll.cases (hinv : SyncInv version s) (hq : s.Quiescent)
    (h : SuccessfulPoll version s s') :
    s'.server = s.server ∧
      (Skips version s.server s.lastVersion ∧ s'.device = s.device ∨
        ¬ Skips version s.server s.lastVersion ∧ s'.device = .holds s.server) := by
  have halo : s.overlapped = false := hinv.alone (by simp [SyncState.busy, hq.1, hq.2])
  cases h with
  | skipped h₁ h₂ =>
    cases h₁
    obtain - | - | ⟨hm, hv⟩ := h₂
    cases hm
    exact ⟨rfl, .inl ⟨hv, rfl⟩⟩
  | applied h₁ h₂ h₃ h₄ h₅ =>
    cases h₁
    obtain - | - | - | ⟨hm, hv⟩ := h₂
    cases hm
    obtain - | - | - | - | ⟨hm, -⟩ := h₃
    cases hm
    obtain - | - | - | - | - | hm := h₄
    cases hm
    cases h₅
    refine ⟨rfl, .inr ⟨hv, ?_⟩⟩
    simp [SyncState.endApply, SyncState.result, SyncState.beginApply, SyncState.busy,
      ApplyPhase.isApplying, halo, hq.2]

section

def SyncState.settled (server : μ) (device : Device μ) (appliedVersion lastVersion : Option ν)
    (polled : Option μ) (later : Option (Device μ)) : SyncState μ ν :=
  ⟨server, device, appliedVersion, lastVersion, none, [], false, false, polled, later⟩

variable {server : μ} {device : Device μ} {a l : Option ν} {p : Option μ}
  {later : Option (Device μ)}

theorem poll_settled (hv : ¬ Skips version server l) :
    SuccessfulPoll version (SyncState.settled server device a l p later)
      (.settled server (.holds server) (version server) (version server) (some server) none) :=
  .applied (.pollFetch rfl) (.pollReady rfl hv) (.pollBegin rfl rfl) (.pollFinish rfl)
    (.pollRecord rfl)

theorem SuccessfulPoll.reachable (h : (sync version).Reachable s)
    (hpoll : SuccessfulPoll version s s') : (sync version).Reachable s' := by
  cases hpoll with
  | skipped h₁ h₂ => exact (h.step h₁).step h₂
  | applied h₁ h₂ h₃ h₄ h₅ => exact ((((h.step h₁).step h₂).step h₃).step h₄).step h₅

theorem refresh_settled (hv : ¬ Skips version server a)
    (h : (sync version).Reachable (.settled server device a l p later)) :
    (sync version).Reachable
      (.settled server (.holds server) (version server) l p (some (.holds server))) := by
  have h₁ := h.step (.fetch .refresh)
  have h₂ := h₁.step (.ready (l := []) (r := []) rfl hv)
  have h₃ := h₂.step (.begin (l := []) (r := []) rfl fun _ => rfl)
  have h₄ := h₃.step (.finish (l := []) (r := []) rfl)
  have h₅ := h₄.step (.record (l := []) (r := []) rfl)
  exact h₅

end

theorem reachable_selected : (sync (some : Bool → Option Bool)).Reachable
    (.settled true (.holds true) (some true) (some false) (some false) (some (.holds true))) := by
  have h₀ : (sync (some : Bool → Option Bool)).Reachable (.new false) := .init ⟨false, rfl⟩
  have h₁ := SuccessfulPoll.reachable h₀ (poll_settled fun h => nomatch h.2)
  have h₂ : (sync (some : Bool → Option Bool)).Reachable (.settled true (.holds false)
      (some false) (some false) (some false) none) := h₁.step (.change true)
  refine refresh_settled ?_ h₂
  rintro ⟨-, hlast⟩
  cases hlast

end LatticeMesh.Agent
