import LatticeMesh.Lib.LTS
import Mathlib.Logic.Function.Basic
import Mathlib.Data.List.Count
import Mathlib.Data.Fintype.Basic

/-! # Discovery: the race of two dialers -/

namespace LatticeMesh.Transport

open List

inductive TransportType where
  | ice
  | relay
  deriving DecidableEq

instance : Fintype TransportType := ⟨{.ice, .relay}, fun k => by cases k <;> decide⟩

inductive Failure where
  | dialerClosed
  | other
  deriving DecidableEq

inductive Outcome where
  | transport (k : TransportType)
  | error (f : Failure)
  deriving DecidableEq

namespace Race

inductive Racer where
  | off
  | dialing
  | reporting (f : Failure)
  | failed
  | delivering
  | delivered
  | upgrading
  | done
  deriving DecidableEq

def Racer.Ended (r : Racer) : Prop := r = .off ∨ r = .failed ∨ r = .done

instance (r : Racer) : Decidable r.Ended := inferInstanceAs (Decidable (_ ∨ _ ∨ _))

def Racer.Dialed (r : Racer) : Prop :=
  r = .delivering ∨ r = .delivered ∨ r = .upgrading ∨ r = .done

instance (r : Racer) : Decidable r.Dialed := inferInstanceAs (Decidable (_ ∨ _ ∨ _ ∨ _))

inductive Main where
  | selecting (failed : ℕ)
  | grace
  | returned (o : Outcome)
  deriving DecidableEq

end Race

open Race

structure Race where
  enableRelay : Bool
  racer : TransportType → Racer
  result : List TransportType
  errs : List Failure
  relayWon : Bool
  upgradeTarget : Option TransportType
  main : Main
  cancelled : Bool
  drained : Bool
  closed : List TransportType
  adopted : List TransportType

namespace Race

def dialerCount (r : Race) : ℕ := if r.enableRelay then 2 else 1

def started (enableRelay : Bool) : TransportType → Racer
  | .ice => .dialing
  | .relay => if enableRelay then .dialing else .off

def start (enableRelay cancelled : Bool) : Race where
  enableRelay := enableRelay
  racer := started enableRelay
  result := []
  errs := []
  relayWon := false
  upgradeTarget := none
  main := .selecting 0
  cancelled := cancelled
  drained := false
  closed := []
  adopted := []

def setRacer (r : Race) (k : TransportType) (x : Racer) : Race :=
  { r with racer := Function.update r.racer k x }

def afterDelivery : TransportType → Racer
  | .ice => .delivered
  | .relay => .done

def received (enableRelay : Bool) (k : TransportType) : Main :=
  if k = .relay ∧ enableRelay then .grace else .returned (.transport k)

inductive Act where
  | dial (k : TransportType)
  | fail (k : TransportType) (f : Failure)
  | report (k : TransportType)
  | deliver (k : TransportType)
  | settle
  | claim
  | upgraded
  | receive
  | receiveLate
  | graceOver
  | countError
  | cancel
  | giveUp
  | drain
  | drained
  deriving DecidableEq

inductive Step : Race → Act → Race → Prop
  | dial {r : Race} {k : TransportType} (h : r.racer k = .dialing) :
      Step r (.dial k) (r.setRacer k .delivering)
  | fail {r : Race} {k : TransportType} {f : Failure} (h : r.racer k = .dialing) :
      Step r (.fail k f) (r.setRacer k (.reporting f))
  | report {r : Race} {k : TransportType} {f : Failure} (h : r.racer k = .reporting f) :
      Step r (.report k) { r.setRacer k .failed with errs := r.errs ++ [f] }
  | deliver {r : Race} {k : TransportType} (h : r.racer k = .delivering) :
      Step r (.deliver k) { r.setRacer k (afterDelivery k) with result := r.result ++ [k] }
  | settle {r : Race} (h : r.racer .ice = .delivered) (hwon : r.relayWon = false) :
      Step r .settle (r.setRacer .ice .done)
  | claim {r : Race} (h : r.racer .ice = .delivered) (hwon : r.relayWon = true) :
      Step r .claim { r.setRacer .ice .upgrading with upgradeTarget := some .ice }
  | upgraded {r : Race} (h : r.racer .ice = .upgrading) :
      Step r .upgraded { r.setRacer .ice .done with adopted := .ice :: r.adopted }
  | receive {r : Race} {n : ℕ} {k : TransportType} {rest : List TransportType}
      (hmain : r.main = .selecting n) (hresult : r.result = k :: rest) :
      Step r .receive { r with result := rest, main := received r.enableRelay k }
  | receiveLate {r : Race} {k : TransportType} {rest : List TransportType}
      (hmain : r.main = .grace) (hresult : r.result = k :: rest) :
      Step r .receiveLate { r with
        result := rest, closed := .relay :: r.closed, main := .returned (.transport k) }
  | graceOver {r : Race} (hmain : r.main = .grace) :
      Step r .graceOver { r with relayWon := true, main := .returned (.transport .relay) }
  | countError {r : Race} {n : ℕ} {f : Failure} {rest : List Failure}
      (hmain : r.main = .selecting n) (herrs : r.errs = f :: rest) :
      Step r .countError { r with
        errs := rest
        main := if n + 1 = r.dialerCount then .returned (.error f) else .selecting (n + 1) }
  | cancel {r : Race} (h : r.cancelled = false) : Step r .cancel { r with cancelled := true }
  | giveUp {r : Race} {n : ℕ} (hmain : r.main = .selecting n) (h : r.cancelled = true) :
      Step r .giveUp { r with main := .returned (.error .other) }
  | drain {r : Race} {o : Outcome} {k : TransportType} {rest : List TransportType}
      (hmain : r.main = .returned o) (hended : ∀ j, (r.racer j).Ended) (hd : r.drained = false)
      (hresult : r.result = k :: rest) :
      Step r .drain { r with
        result := rest, closed := if r.upgradeTarget = some k then r.closed else k :: r.closed }
  | drained {r : Race} {o : Outcome} (hmain : r.main = .returned o)
      (hended : ∀ j, (r.racer j).Ended) (hd : r.drained = false) (hresult : r.result = []) :
      Step r .drained { r with drained := true }

def discovery : LTS Race Act where
  init r := ∃ enableRelay cancelled, r = start enableRelay cancelled
  step := Step

def ends (r : Race) (k : TransportType) : ℕ :=
  (if r.main = .returned (.transport k) then 1 else 0) + r.adopted.count k + r.closed.count k

def Racer.sent : Racer → ℕ
  | .delivered | .upgrading | .done => 1
  | _ => 0

def placed (r : Race) (k : TransportType) : ℕ :=
  r.result.count k + (if r.main = .grace ∧ k = .relay then 1 else 0) + r.ends k

structure Accounted (r : Race) : Prop where
  relay : r.placed .relay = (r.racer .relay).sent ∧ r.adopted.count .relay = 0 ∧
    r.racer .relay ≠ .delivered ∧ r.racer .relay ≠ .upgrading
  ice : r.upgradeTarget = none → r.placed .ice = (r.racer .ice).sent ∧ r.adopted.count .ice = 0 ∧
    r.racer .ice ≠ .upgrading
  target : r.upgradeTarget ≠ none → r.upgradeTarget = some .ice ∧ r.relayWon = true ∧
    r.closed.count .ice = 0 ∧ (r.racer .ice = .upgrading ∧ r.adopted.count .ice = 0 ∨
      r.racer .ice = .done ∧ r.adopted.count .ice = 1)
  won : r.relayWon = true → r.main = .returned (.transport .relay)
  unclosed : (∀ o, r.main ≠ .returned o) → r.closed = []
  ended : r.closed.count .ice ≠ 0 → (r.racer .ice).Ended

theorem Accounted.start (enableRelay cancelled : Bool) :
    (start enableRelay cancelled).Accounted := by
  cases enableRelay <;> constructor <;> simp +decide [Race.start, started, placed, ends]

variable {r r' : Race} {k : TransportType}

theorem Accounted.target_eq_none (h : r.Accounted)
    (hice : r.racer .ice ≠ .upgrading ∧ r.racer .ice ≠ .done) : r.upgradeTarget = none := by
  by_contra hne
  obtain ⟨-, -, -, hr | hr⟩ := h.target hne
  · exact hice.1 hr.1
  · exact hice.2 hr.1

variable {x : Racer}

theorem Accounted.moved (h : r.Accounted) (hsent : (r.racer k).sent = 0)
    (hend : ¬ (r.racer k).Ended) (hx : x.sent = 0) :
    (r.setRacer k x).Accounted := by
  have hne : ∀ y : Racer, y.sent = 0 → y ≠ .delivered ∧ y ≠ .upgrading ∧ y ≠ .done := by
    intro y hy
    cases y <;> simp_all [Racer.sent]
  cases k with
  | ice =>
    have htgt := h.target_eq_none (hne _ hsent).2
    obtain ⟨hpl, had, -⟩ := h.ice htgt
    exact ⟨h.relay, fun _ => ⟨hpl.trans (hsent.trans hx.symm), had, (hne x hx).2.1⟩,
      fun hsome => absurd htgt hsome, h.won, h.unclosed, fun hc => absurd (h.ended hc) hend⟩
  | relay =>
    obtain ⟨hpl, had, -⟩ := h.relay
    exact ⟨⟨hpl.trans (hsent.trans hx.symm), had, (hne x hx).1, (hne x hx).2.1⟩, h.ice,
      h.target, h.won, h.unclosed, h.ended⟩

theorem placed_append (r : Race) (k j : TransportType) :
    placed { r with result := r.result ++ [k] } j = r.placed j + if k = j then 1 else 0 := by
  cases k <;> cases j <;> simp [placed, ends] <;> omega

theorem Accounted.deliver {r : Race} {k : TransportType} (h : r.Accounted)
    (hk : r.racer k = .delivering) :
    Accounted { r.setRacer k (afterDelivery k) with result := r.result ++ [k] } := by
  cases k with
  | ice =>
    have htgt := h.target_eq_none (by simp [hk])
    obtain ⟨hpl, had, -⟩ := h.ice htgt
    rw [hk] at hpl
    have hend : ¬ (r.racer .ice).Ended := by
      rw [hk]
      decide
    refine ⟨⟨(placed_append r .ice .relay).trans h.relay.1, h.relay.2⟩, fun _ => ⟨?_, had, ?_⟩,
      fun hsome => absurd htgt hsome, h.won, h.unclosed, fun hc => absurd (h.ended hc) hend⟩
    · exact (placed_append r .ice .ice).trans (by rw [hpl]; rfl)
    · exact Racer.noConfusion
  | relay =>
    obtain ⟨hpl, had, -⟩ := h.relay
    rw [hk] at hpl
    refine ⟨⟨(placed_append r .relay .relay).trans (by rw [hpl]; rfl), had, ?_, ?_⟩,
      fun htgt => ⟨(placed_append r .relay .ice).trans (h.ice htgt).1, (h.ice htgt).2⟩,
      h.target, h.won, h.unclosed, h.ended⟩
    · exact Racer.noConfusion
    · exact Racer.noConfusion

theorem Accounted.kept (h : r.Accounted) (hrac : r'.racer = r.racer)
    (htgt : r'.upgradeTarget = r.upgradeTarget) (had : r'.adopted = r.adopted)
    (hpl : ∀ k, r.upgradeTarget ≠ some k → r'.placed k = r.placed k)
    (hcl : r.upgradeTarget = some .ice → r'.closed.count .ice = r.closed.count .ice)
    (hmono : r.relayWon = true → r'.relayWon = true)
    (hwon : r'.relayWon = true → r'.main = .returned (.transport .relay))
    (hunc : (∀ o, r'.main ≠ .returned o) → r'.closed = [])
    (hend : r'.closed.count .ice ≠ 0 → (r.racer .ice).Ended) : r'.Accounted := by
  have hrel : r.upgradeTarget ≠ some .relay := by
    intro hr
    have := (h.target (by simp [hr])).1
    rw [hr] at this
    cases this
  refine ⟨?_, fun hnone => ?_, fun hsome => ?_, hwon, hunc, hrac ▸ hend⟩
  · rw [hrac, had, hpl _ hrel]
    exact h.relay
  · rw [htgt] at hnone
    rw [hrac, had, hpl _ (by simp [hnone])]
    exact h.ice hnone
  rw [htgt] at hsome ⊢
  obtain ⟨hice, hrela, hcnt, hcas⟩ := h.target hsome
  rw [hrac, had, hcl hice]
  exact ⟨hice, hmono hrela, hcnt, hcas⟩

theorem Accounted.claim {r : Race} (h : r.Accounted) (hk : r.racer .ice = .delivered)
    (hwon : r.relayWon = true) :
    Accounted { r.setRacer .ice .upgrading with upgradeTarget := some .ice } := by
  have htgt := h.target_eq_none (by simp [hk])
  have hcl : r.closed.count .ice = 0 := by
    by_contra hc
    have hend := h.ended hc
    rw [hk] at hend
    exact absurd hend (by decide)
  exact ⟨h.relay, fun hnone => (Option.some_ne_none _ hnone).elim,
    fun _ => ⟨rfl, hwon, hcl, .inl ⟨rfl, (h.ice htgt).2.1⟩⟩, h.won, h.unclosed,
    fun hc => absurd hcl hc⟩

theorem Accounted.upgraded (h : r.Accounted) (hk : r.racer .ice = .upgrading) :
    Accounted { r.setRacer .ice .done with adopted := .ice :: r.adopted } := by
  have hsome : r.upgradeTarget ≠ none := fun hnone => (h.ice hnone).2.2 hk
  obtain ⟨htgt, hwon, hcl, hcas⟩ := h.target hsome
  obtain ⟨-, had⟩ : r.racer .ice = .upgrading ∧ r.adopted.count .ice = 0 :=
    hcas.resolve_right fun hdone => by simp [hk] at hdone
  refine ⟨⟨?_, ?_, h.relay.2.2⟩, fun hnone => absurd hnone hsome,
    fun _ => ⟨htgt, hwon, hcl, .inr ⟨rfl, ?_⟩⟩, h.won, h.unclosed,
    fun hc => absurd hcl hc⟩
  · have hsame : placed { r with adopted := .ice :: r.adopted } .relay = r.placed .relay := by
      simp [placed, ends]
    exact hsame.trans h.relay.1
  · simpa using h.relay.2.1
  · simpa using had

theorem Accounted.settle (h : r.Accounted) (hk : r.racer .ice = .delivered) :
    (r.setRacer .ice .done).Accounted := by
  have htgt := h.target_eq_none (by simp [hk])
  obtain ⟨hpl, had, -⟩ := h.ice htgt
  rw [hk] at hpl
  exact ⟨h.relay, fun _ => ⟨hpl, had, Racer.noConfusion⟩,
    fun hsome => absurd htgt hsome, h.won, h.unclosed, fun _ => .inr (.inr rfl)⟩

variable {a : Act}

theorem Accounted.step {r r' : Race} (h : r.Accounted) (hs : Step r a r') :
    r'.Accounted := by
  have hunw : (∀ o, r.main ≠ .returned o) → r.relayWon = false ∧ r.closed.count .ice = 0 :=
    fun hmain => ⟨by_contra fun hwon => hmain _ (h.won (by simpa using hwon)),
      by rw [h.unclosed hmain]; rfl⟩
  cases hs with
  | dial hk | fail hk => exact h.moved (by rw [hk]; rfl) (by rw [hk]; decide) rfl
  | @report _ f hk =>
    have h' : (r.setRacer _ .failed).Accounted :=
      h.moved (by rw [hk]; rfl) (by rw [hk]; simp [Racer.Ended]) rfl
    exact ⟨h'.relay, h'.ice, h'.target, h'.won, h'.unclosed, h'.ended⟩
  | deliver hk => exact h.deliver hk
  | settle hk _ => exact h.settle hk
  | claim hk hwon => exact h.claim hk hwon
  | upgraded hk => exact h.upgraded hk
  | @receive n k rest hmain hres =>
    obtain ⟨hwon, hcl⟩ := hunw (by simp [hmain])
    refine h.kept rfl rfl rfl (fun j _ => ?_) (fun _ => rfl) id (fun hw => ?_) (fun _ => ?_)
      fun hc => absurd hcl hc
    · cases k <;> cases j <;> cases r.enableRelay <;>
        simp [placed, ends, received, hmain, hres] <;> omega
    · rw [hwon] at hw
      cases hw
    · exact h.unclosed (by simp [hmain])
  | @receiveLate k rest hmain hres =>
    obtain ⟨hwon, hcl⟩ := hunw (by simp [hmain])
    have hcl' : (TransportType.relay :: r.closed).count .ice = 0 := by simpa using hcl
    refine h.kept rfl rfl rfl (fun j _ => ?_) (fun _ => hcl'.trans hcl.symm) id
      (fun hw => ?_) (fun hmain' => absurd rfl (hmain' _)) fun hc => absurd hcl' hc
    · cases k <;> cases j <;> simp [placed, ends, hmain, hres] <;> omega
    · rw [hwon] at hw
      cases hw
  | graceOver hmain =>
    obtain ⟨-, hcl⟩ := hunw (by simp [hmain])
    refine h.kept rfl rfl rfl (fun j _ => ?_) (fun _ => rfl) (fun _ => rfl) (fun _ => rfl)
      (fun hmain' => absurd rfl (hmain' _)) fun hc => absurd hcl hc
    cases j
    · simp [placed, ends, hmain]
    · simp [placed, ends, hmain]
      omega
  | @countError n f rest hmain herrs =>
    obtain ⟨hwon, hcl⟩ := hunw (by simp [hmain])
    refine h.kept rfl rfl rfl (fun j _ => ?_) (fun _ => rfl) id (fun hw => ?_)
      (fun _ => h.unclosed (by simp [hmain])) fun hc => absurd hcl hc
    · simp only [placed, ends, hmain]
      split <;> simp
    · rw [hwon] at hw
      cases hw
  | cancel _ | drained hmain _ _ _ =>
    exact h.kept rfl rfl rfl (fun _ _ => rfl) (fun _ => rfl) id h.won h.unclosed h.ended
  | giveUp hmain _ =>
    obtain ⟨hwon, hcl⟩ := hunw (by simp [hmain])
    refine h.kept rfl rfl rfl (fun j _ => ?_) (fun _ => rfl) id (fun hw => ?_)
      (fun hmain' => absurd rfl (hmain' _)) fun hc => absurd hcl hc
    · simp [placed, ends, hmain]
    · rw [hwon] at hw
      cases hw
  | @drain o k rest hmain hend _ hres =>
    refine h.kept rfl rfl rfl (fun j hj => ?_) (fun htgt => ?_) id h.won
      (fun hmain' => absurd hmain (hmain' o)) fun _ => hend .ice
    · by_cases hk : r.upgradeTarget = some k
      · have hkj : k ≠ j := fun heq => hj (heq ▸ hk)
        simp [placed, ends, hres, hk, count_cons_of_ne hkj]
      · simp only [placed, ends, hres, if_neg hk, count_cons]
        omega
    · cases k <;> simp [htgt]

def failures (r : Race) : ℕ :=
  (if r.racer .ice = .failed then 1 else 0) + if r.racer .relay = .failed then 1 else 0

def AllFailed (r : Race) : Prop := ∀ k, r.racer k = .failed ∨ r.racer k = .off

structure Counted (r : Race) : Prop where
  off : ∀ k, r.racer k = .off ↔ k = .relay ∧ r.enableRelay = false
  selecting : ∀ n, r.main = .selecting n → n + r.errs.length = r.failures ∧ n < r.dialerCount
  error : ∀ f, r.main = .returned (.error f) → r.AllFailed ∨ r.cancelled = true
  drained : r.drained = true →
    (∃ o, r.main = .returned o) ∧ (∀ k, (r.racer k).Ended) ∧ r.result = []

theorem Counted.start (enableRelay cancelled : Bool) : (start enableRelay cancelled).Counted := by
  refine ⟨fun k => ?_, fun n hn => ?_, fun f hf => ?_, fun hd => ?_⟩
  · cases enableRelay <;> cases k <;> simp [Race.start, started]
  · cases hn
    cases enableRelay <;> simp [Race.start, started, failures, dialerCount]
  · cases hf
  · cases hd

theorem Counted.moved (h : r.Counted) (hk : ¬ (r.racer k).Ended) (hx : x ≠ .off ∧ x ≠ .failed)
    (hrac : r'.racer = Function.update r.racer k x) (hrel : r'.enableRelay = r.enableRelay)
    (herrs : r'.errs = r.errs) (hmain : r'.main = r.main) (hcan : r'.cancelled = r.cancelled)
    (hdr : r'.drained = r.drained) : r'.Counted := by
  have hne : r.racer k ≠ .off ∧ r.racer k ≠ .failed :=
    ⟨fun h => hk (.inl h), fun h => hk (.inr (.inl h))⟩
  have hfai : r'.failures = r.failures := by
    unfold failures
    rw [hrac]
    cases k <;> simp [hx, hne]
  refine ⟨fun j => ?_, fun n hn => ?_, fun f hf => ?_, fun hd => ?_⟩
  · rw [hrac, hrel, ← h.off]
    by_cases hj : j = k
    · subst hj
      simp [hx, hne]
    · rw [Function.update_of_ne hj]
  · rw [herrs, hfai]
    unfold dialerCount
    rw [hrel]
    exact h.selecting n (hmain ▸ hn)
  · rw [hcan]
    refine .inr ((h.error f (hmain ▸ hf)).resolve_left fun hall => ?_)
    exact (hall k).elim hne.2 hne.1
  · exact absurd ((h.drained (hdr ▸ hd)).2.1 k) hk

theorem Counted.report {r : Race} {k : TransportType} {f : Failure} (h : r.Counted)
    (hk : r.racer k = .reporting f) :
    Counted { r.setRacer k .failed with errs := r.errs ++ [f] } := by
  have hend : ¬ (r.racer k).Ended := by simp [hk, Racer.Ended]
  have hfai : (r.setRacer k .failed).failures = r.failures + 1 := by
    unfold failures setRacer
    cases k
    · simp [hk]
      omega
    · simp [hk]
  refine ⟨fun j => ?_, fun n hn => ?_, fun e he => ?_, fun hd => ?_⟩
  · refine Iff.trans ?_ (h.off j)
    by_cases hj : j = k
    · subst hj
      simp [setRacer, hk]
    · simp [setRacer, Function.update_of_ne hj]
  · obtain ⟨hcnt, hlt⟩ := h.selecting n hn
    refine ⟨Eq.trans ?_ hfai.symm, hlt⟩
    rw [length_append, length_singleton]
    omega
  · refine .inr ((h.error e he).resolve_left fun hall => ?_)
    have := hall k
    simp [hk] at this
  · exact absurd ((h.drained hd).2.1 k) hend

theorem Counted.allFailed (h : r.Counted) (hcnt : r.dialerCount ≤ r.failures) :
    r.AllFailed := by
  unfold dialerCount failures at hcnt
  cases hrel : r.enableRelay with
  | true =>
    rw [if_pos hrel] at hcnt
    have hboth : r.racer .ice = .failed ∧ r.racer .relay = .failed := by
      split at hcnt <;> split at hcnt <;> simp_all
    intro k
    cases k
    · exact .inl hboth.1
    · exact .inl hboth.2
  | false =>
    have hoff : r.racer .relay = .off := (h.off .relay).2 ⟨rfl, hrel⟩
    intro k
    cases k with
    | ice =>
      refine .inl (by_contra fun hice => ?_)
      simp [hrel, hice, hoff] at hcnt
    | relay => exact .inr hoff

theorem Counted.failures_eq (h : r.Counted) (hall : r.AllFailed) :
    r.failures = r.dialerCount := by
  have hice : r.racer .ice = .failed := by
    refine (hall .ice).resolve_right fun hoff => ?_
    exact absurd ((h.off .ice).1 hoff).1 (by decide)
  unfold failures dialerCount
  rw [if_pos hice]
  cases hrel : r.enableRelay with
  | true =>
    have hon : r.racer .relay ≠ .off := fun hoff => by simpa [hrel] using (h.off .relay).1 hoff
    simp [(hall .relay).resolve_right hon]
  | false => simp [(h.off .relay).2 ⟨rfl, hrel⟩]

theorem Counted.left (h : r.Counted) (hrac : r'.racer = r.racer)
    (hrel : r'.enableRelay = r.enableRelay) (hdr : r'.drained = r.drained)
    (hmain : ∀ o, r.main ≠ .returned o)
    (hmain' : r'.main = .grace ∨ ∃ k, r'.main = .returned (.transport k)) : r'.Counted := by
  refine ⟨fun k => by rw [hrac, hrel]; exact h.off k, fun n hn => ?_, fun f hf => ?_,
    fun hd => ?_⟩
  · obtain hr | ⟨k, hr⟩ := hmain' <;> rw [hn] at hr <;> cases hr
  · obtain hr | ⟨k, hr⟩ := hmain' <;> rw [hf] at hr <;> cases hr
  · obtain ⟨⟨o, ho⟩, -⟩ := h.drained (hdr ▸ hd)
    exact absurd ho (hmain o)

theorem Counted.step {r r' : Race} (h : r.Counted) (hs : Step r a r') : r'.Counted := by
  have hund : (∀ o, r.main ≠ .returned o) → r.drained ≠ true := fun hmain hd =>
    (h.drained hd).1.elim hmain
  cases hs with
  | dial hk | settle hk _ | claim hk _ | upgraded hk =>
    exact h.moved (by rw [hk]; decide) (by decide) rfl rfl rfl rfl rfl rfl
  | fail hk => exact h.moved (by rw [hk]; decide) (by simp) rfl rfl rfl rfl rfl rfl
  | report hk => exact h.report hk
  | @deliver k hk =>
    exact h.moved (by rw [hk]; decide) (by cases k <;> decide) rfl rfl rfl rfl rfl rfl
  | @receive n k rest hmain hres =>
    refine h.left rfl rfl rfl (by simp [hmain]) ?_
    dsimp only [received]
    split
    · exact .inl rfl
    · exact .inr ⟨k, rfl⟩
  | @receiveLate k rest hmain hres =>
    exact h.left rfl rfl rfl (by simp [hmain]) (.inr ⟨k, rfl⟩)
  | graceOver hmain => exact h.left rfl rfl rfl (by simp [hmain]) (.inr ⟨.relay, rfl⟩)
  | @countError n f rest hmain herrs =>
    obtain ⟨hcnt, hlt⟩ := h.selecting n hmain
    rw [herrs, length_cons] at hcnt
    refine ⟨h.off, fun m hm => ?_, fun e he => ?_,
      fun hd => absurd hd (hund (by simp [hmain]))⟩
    · dsimp only at hm
      split at hm
      · cases hm
      next hn =>
      cases hm
      exact ⟨show n + 1 + rest.length = r.failures by omega,
        show n + 1 < r.dialerCount by omega⟩
    dsimp only at he
    split at he
    · exact .inl (h.allFailed (by omega))
    · cases he
  | cancel _ => exact ⟨h.off, h.selecting, fun _ _ => .inr rfl, h.drained⟩
  | giveUp hmain hcan =>
    exact ⟨h.off, fun m hm => (Main.noConfusion hm), fun _ _ => .inr hcan,
      fun hd => absurd hd (hund (by simp [hmain]))⟩
  | drain hmain _ hd _ =>
    exact ⟨h.off, h.selecting, h.error, fun hd' => by simp [hd] at hd'⟩
  | @drained o hmain hend _ hres =>
    exact ⟨h.off, h.selecting, h.error, fun _ => ⟨⟨o, hmain⟩, hend, hres⟩⟩

theorem drained_of_stuck (hc : r.Counted) (ha : r.Accounted) (h : discovery.Stuck r) :
    r.drained = true := by
  have hend : ∀ k, (r.racer k).Ended := by
    intro k
    cases hk : r.racer k with
    | off => exact .inl rfl
    | failed => exact .inr (.inl rfl)
    | done => exact .inr (.inr rfl)
    | dialing => exact absurd (Step.dial hk) (h _ _)
    | reporting f => exact absurd (Step.report hk) (h _ _)
    | delivering => exact absurd (Step.deliver hk) (h _ _)
    | delivered =>
      cases k with
      | relay => exact absurd hk ha.relay.2.2.1
      | ice =>
        cases hwon : r.relayWon with
        | true => exact absurd (Step.claim hk hwon) (h _ _)
        | false => exact absurd (Step.settle hk hwon) (h _ _)
    | upgrading =>
      cases k with
      | relay => exact absurd hk ha.relay.2.2.2
      | ice => exact absurd (Step.upgraded hk) (h _ _)
  cases hmain : r.main with
  | grace => exact absurd (Step.graceOver hmain) (h _ _)
  | returned o =>
    by_contra hd
    rw [Bool.not_eq_true] at hd
    cases hres : r.result with
    | nil => exact absurd (Step.drained hmain hend hd hres) (h _ _)
    | cons k rest => exact absurd (Step.drain hmain hend hd hres) (h _ _)
  | selecting n =>
    have hres : r.result = [] := by
      cases hres : r.result with
      | nil => rfl
      | cons k rest => exact absurd (Step.receive hmain hres) (h _ _)
    have herrs : r.errs = [] := by
      cases herrs : r.errs with
      | nil => rfl
      | cons f rest => exact absurd (Step.countError hmain herrs) (h _ _)
    have hcl : r.closed = [] := ha.unclosed (by simp [hmain])
    have htgt : r.upgradeTarget = none := by
      by_contra hsome
      have hret := ha.won (ha.target hsome).2.1
      rw [hmain] at hret
      cases hret
    have hpl : ∀ k, r.adopted.count k = 0 → r.placed k = 0 := by
      intro k hk
      simp [placed, ends, hres, hcl, hmain, hk]
    have hsent : ∀ k, (r.racer k).sent = 0 := by
      intro k
      cases k with
      | ice => exact (ha.ice htgt).1.symm.trans (hpl _ (ha.ice htgt).2.1)
      | relay => exact ha.relay.1.symm.trans (hpl _ ha.relay.2.1)
    have hall : r.AllFailed := by
      intro k
      obtain hk | hk | hk := hend k
      · exact .inr hk
      · exact .inl hk
      have := hsent k
      rw [hk] at this
      cases this
    obtain ⟨hcnt, hlt⟩ := hc.selecting n hmain
    rw [herrs, hc.failures_eq hall, length_nil] at hcnt
    omega

theorem stuck_of_drained (hc : r.Counted) (hd : r.drained = true) (hcan : r.cancelled = true)
    : discovery.Stuck r := by
  obtain ⟨⟨o, hmain⟩, hend, -⟩ := hc.drained hd
  intro a r' hs
  have hrac : ∀ {k x}, r.racer k = x → x.Ended := fun hk => hk ▸ hend _
  cases hs with
  | dial hk | fail hk | deliver hk | settle hk _ | claim hk _ | upgraded hk =>
    exact absurd (hrac hk) (by decide)
  | report hk => simpa [Racer.Ended] using hrac hk
  | receive h _ | receiveLate h _ | graceOver h | countError h _ | giveUp h _ =>
    rw [hmain] at h
    cases h
  | cancel h =>
    rw [hcan] at h
    cases h
  | drain _ _ h _ | drained _ _ h _ =>
    rw [hd] at h
    cases h

def Racer.rest : Racer → ℕ
  | .dialing => 5
  | .delivering | .reporting _ => 4
  | .delivered => 2
  | .upgrading => 1
  | .off | .failed | .done => 0

def Main.rest : Main → ℕ
  | .selecting _ => 2
  | .grace => 1
  | .returned _ => 0

def racing (racer : TransportType → Racer) : ℕ := (racer .ice).rest + (racer .relay).rest

def rest (r : Race) : ℕ :=
  racing r.racer + r.result.length + r.errs.length + r.main.rest + (!r.cancelled).toNat +
    (!r.drained).toNat

theorem racing_update {racer : TransportType → Racer} {y : Racer} (h : racer k = y) :
    racing (Function.update racer k x) + y.rest = racing racer + x.rest := by
  subst h
  unfold racing
  cases k
  · simp
    omega
  · simp
    omega

theorem rest_lt (hs : Step r a r') : r'.rest < r.rest := by
  cases hs with
  | dial hk =>
    have hrac := racing_update (x := .delivering) hk
    simp only [rest, setRacer, Racer.rest] at hrac ⊢
    omega
  | @fail k f hk =>
    have hrac := racing_update (x := .reporting f) hk
    simp only [rest, setRacer, Racer.rest] at hrac ⊢
    omega
  | report hk =>
    have hrac := racing_update (x := .failed) hk
    simp only [rest, setRacer, Racer.rest, length_append, length_singleton] at hrac ⊢
    omega
  | @deliver k hk =>
    have hrac := racing_update (x := afterDelivery k) hk
    have haft : (afterDelivery k).rest ≤ 2 := by cases k <;> decide
    have hbef : Racer.delivering.rest = 4 := rfl
    simp only [rest, setRacer, length_append, length_singleton]
    omega
  | settle hk _ | upgraded hk =>
    have hrac := racing_update (x := .done) hk
    simp only [rest, setRacer, Racer.rest] at hrac ⊢
    omega
  | claim hk _ =>
    have hrac := racing_update (x := .upgrading) hk
    simp only [rest, setRacer, Racer.rest] at hrac ⊢
    omega
  | @receive n k rest' hmain hres =>
    have hbef : r.main.rest = 2 := by rw [hmain]; rfl
    have haft : (received r.enableRelay k).rest ≤ 1 := by
      unfold received
      split
      · exact Nat.le_refl 1
      · exact Nat.zero_le 1
    simp only [rest, hres, length_cons]
    omega
  | receiveLate hmain hres =>
    simp only [rest, hmain, hres, length_cons, Main.rest]
    omega
  | graceOver hmain | giveUp hmain _ =>
    simp only [rest, hmain, Main.rest]
    omega
  | @countError n f rest' hmain herrs =>
    have hbef : r.main.rest = 2 := by rw [hmain]; rfl
    have haft : (if n + 1 = r.dialerCount then .returned (.error f) else .selecting (n + 1) :
        Main).rest ≤ 2 := by
      split
      · exact Nat.zero_le 2
      · exact Nat.le_refl 2
    simp only [rest, herrs, length_cons]
    omega
  | cancel h =>
    simp only [rest, h]
    simp
  | drain _ _ _ hres =>
    simp only [rest, hres, length_cons]
    omega
  | drained _ _ hd _ =>
    simp only [rest, hd]
    simp

theorem reachable_invariant (h : discovery.Reachable r) : r.Accounted ∧ r.Counted := by
  refine LTS.Reachable.invariant (I := fun r => r.Accounted ∧ r.Counted) ?_ ?_ h
  · rintro s ⟨enableRelay, cancelled, rfl⟩
    exact ⟨.start enableRelay cancelled, .start enableRelay cancelled⟩
  · rintro s a t - ⟨ha, hc⟩ hs
    exact ⟨ha.step hs, hc.step hs⟩

theorem Accounted.ends_le (h : r.Accounted) (k : TransportType) :
    r.ends k ≤ 1 ∧ (r.ends k = 1 → (r.racer k).Dialed) := by
  have hpla : r.placed k = (r.racer k).sent →
      r.ends k ≤ 1 ∧ (r.ends k = 1 → (r.racer k).Dialed) := by
    intro hpl
    have hle : r.ends k ≤ (r.racer k).sent := by
      rw [← hpl]
      exact Nat.le_add_left _ _
    cases hk : r.racer k <;> simp [hk, Racer.sent, Racer.Dialed] at hle ⊢ <;> omega
  cases k with
  | relay => exact hpla h.relay.1
  | ice =>
    by_cases htgt : r.upgradeTarget = none
    · exact hpla (h.ice htgt).1
    obtain ⟨-, hwon, hcl, hcas⟩ := h.target htgt
    have hends : r.ends .ice = r.adopted.count .ice := by
      simp [ends, h.won hwon, hcl]
    rw [hends]
    obtain ⟨hk, had⟩ | ⟨hk, had⟩ := hcas
    · simp [had]
    · simp [hk, had, Racer.Dialed]

theorem Accounted.ends_eq (h : r.Accounted) (hc : r.Counted) (hd : r.drained = true)
    (hk : (r.racer k).Dialed) : r.ends k = 1 := by
  obtain ⟨⟨o, hmain⟩, hend, hres⟩ := hc.drained hd
  have hdone : r.racer k = .done := by
    have := hend k
    cases hr : r.racer k <;> simp_all [Racer.Ended, Racer.Dialed]
  have hpla : r.placed k = (r.racer k).sent → r.ends k = 1 := by
    intro hpl
    simpa [placed, hres, hmain, hdone, Racer.sent] using hpl
  cases k with
  | relay => exact hpla h.relay.1
  | ice =>
    by_cases htgt : r.upgradeTarget = none
    · exact hpla (h.ice htgt).1
    obtain ⟨-, hwon, hcl, hcas⟩ := h.target htgt
    obtain ⟨-, had⟩ : r.racer .ice = .done ∧ r.adopted.count .ice = 1 :=
      hcas.resolve_left fun hup => by simp [hdone] at hup
    simp [ends, h.won hwon, hcl, had]

/-- **Every transport is accounted for**: it is returned, adopted or closed exactly once. -/
theorem transports_accounted {r : Race} (h : discovery.Reachable r) :
    (∀ f, r.main = .returned (.error f) → r.AllFailed ∨ r.cancelled = true) ∧
      (∀ k, r.ends k ≤ 1 ∧ (r.ends k = 1 → (r.racer k).Dialed)) ∧
      (discovery.Stuck r → ∀ k, (r.racer k).Dialed → r.ends k = 1) ∧ discovery.Terminates := by
  obtain ⟨ha, hc⟩ := reachable_invariant h
  refine ⟨hc.error, ha.ends_le, fun hstu k hk => ?_, ?_⟩
  · exact ha.ends_eq hc (drained_of_stuck hc ha hstu) hk
  · exact LTS.terminates_of_measure rest fun _ _ _ => rest_lt

theorem late_ice_adopted : ∃ r, discovery.Reachable r ∧ discovery.Stuck r ∧
    r.main = .returned (.transport .relay) ∧ r.adopted = [.ice] ∧ r.closed = [] ∧
    r.ends .ice = 1 ∧ r.ends .relay = 1 := by
  have hrel : discovery.Reachable _ := .step (.step (.step (.step (.init ⟨true, true, rfl⟩)
    (Step.dial (k := .relay) rfl)) (Step.deliver (k := .relay) rfl))
    (@Step.receive _ 0 .relay [] rfl rfl)) (Step.graceOver rfl)
  have hice : discovery.Reachable _ := .step (.step (.step (.step hrel
    (Step.dial (k := .ice) rfl)) (Step.deliver (k := .ice) rfl)) (Step.claim rfl rfl))
    (Step.upgraded rfl)
  have hdr : discovery.Reachable _ := .step (.step hice
    (@Step.drain _ (.transport .relay) .ice [] rfl (fun j => by cases j <;> decide) rfl rfl))
    (@Step.drained _ (.transport .relay) rfl (fun j => by cases j <;> decide) rfl rfl)
  obtain ⟨-, -, hends, -⟩ := transports_accounted hdr
  have hstu := stuck_of_drained (reachable_invariant hdr).2 rfl rfl
  exact ⟨_, hdr, hstu, rfl, rfl, rfl, hends hstu .ice (by decide),
    hends hstu .relay (by decide)⟩

def Main.isReturned : Main → Bool
  | .returned _ => true
  | _ => false

def Racer.undecided : Racer → Bool
  | .dialing | .delivering | .delivered => true
  | _ => false

def claimable (r : Race) : Bool :=
  r.enableRelay && (r.racer .ice).undecided && (r.relayWon || !r.main.isReturned)

def Relayed (r : Race) : Prop := r.main = .grace ∨ r.relayWon = true → r.enableRelay = true

theorem Relayed.start (enableRelay cancelled : Bool) : (start enableRelay cancelled).Relayed := by
  simp [Relayed, Race.start]

theorem Relayed.step {r r' : Race} (h : r.Relayed) (hs : Step r a r') : r'.Relayed := by
  cases hs with
  | @receive n k rest hmain hres =>
    rintro (hgra | hwon)
    · dsimp only [received] at hgra
      split at hgra
      · next hk => exact hk.2
      · cases hgra
    · exact h (.inr hwon)
  | receiveLate hmain hres | graceOver hmain => exact fun _ => h (.inl hmain)
  | @countError n f rest hmain herrs =>
    rintro (hgra | hwon)
    · dsimp only at hgra
      split at hgra <;> cases hgra
    · exact h (.inr hwon)
  | giveUp hmain =>
    rintro (hgra | hwon)
    · cases hgra
    · exact h (.inr hwon)
  | _ => exact h

theorem claimable_of_claim (h : r.Relayed) (hs : Step r .claim r') :
    r.claimable = true := by
  cases hs with
  | claim hk hwon => simp [claimable, hk, hwon, h (.inr hwon), Racer.undecided]

theorem claimable_of_step (hs : Step r a r') (h : r'.claimable = true) :
    r.claimable = true := by
  simp only [claimable, Bool.and_eq_true, Bool.or_eq_true, Bool.not_eq_true'] at h ⊢
  obtain ⟨⟨hrel, hrac⟩, hopen⟩ := h
  cases hs with
  | @dial k hk | @fail k f hk | @report k f hk | @deliver k hk =>
    cases k <;> simp_all [setRacer, Racer.undecided]
  | settle hk => cases hrac
  | claim hk => cases hrac
  | upgraded hk => cases hrac
  | receive hmain | receiveLate hmain | graceOver hmain | countError hmain | giveUp hmain =>
    exact ⟨⟨hrel, hrac⟩, .inr (by rw [hmain]; rfl)⟩
  | _ => exact ⟨⟨hrel, hrac⟩, hopen⟩

end Race

end LatticeMesh.Transport
