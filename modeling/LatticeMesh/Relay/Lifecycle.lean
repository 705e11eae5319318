import Mathlib
import LatticeMesh.Lib.Threads

/-! # The fields of a connection -/

namespace LatticeMesh.Relay.Lifecycle

open List

inductive Point where
  | run
  | dial
  | publish
  | register (k : ℕ)
  | failed
  | backoff
  | connectedCh
  | wait (ch : Option ℕ)
  | stopped
  | receive
  | read (conn reader : ℕ)
  | writeFramesTo (conn : ℕ)
  | writeFrames
  | flush (conn writer : ℕ)
  | close
  | currentConn
  | done
  | disconnect (sup : Bool) (seen stale : ℕ)
  | closeCh (sup : Bool) (ch : Option ℕ) (stale : ℕ)
  | closeConn (sup : Bool) (stale : ℕ)
  deriving DecidableEq

structure Shared where
  conn : Option ℕ := none
  reader : Option ℕ := none
  writer : Option ℕ := none
  connected : Option ℕ := none
  closed : Bool := false
  dials : ℕ := 0
  supervisor : Point := .run
  taken : List ℕ := []
  drops : List (ℕ × ℕ) := []
  closes : List ℕ := []
  shut : List ℕ := []

inductive Choice where
  | ok | err | answer
  deriving DecidableEq

def enabled (s : Shared) : Point → Prop
  | .wait (some ch) => ch ∈ s.closes ∨ s.closed = true
  | .stopped | .done => False
  | _ => True

def effect (s : Shared) : Point → Shared
  | .publish =>
    { s with
      conn := some s.dials, reader := some s.dials, writer := some s.dials
      connected := some s.dials, dials := s.dials + 1 }
  | .disconnect _ seen stale =>
    if s.conn = some stale then
      { s with
        conn := none, reader := none, writer := none, connected := none
        taken := s.taken ++ s.connected.toList, drops := s.drops ++ [(seen, stale)] }
    else s
  | .closeCh _ ch _ => { s with closes := s.closes ++ ch.toList }
  | .closeConn _ stale => { s with shut := s.shut ++ [stale] }
  | .close => { s with closed := true }
  | _ => s

def returned (sup : Bool) : Point := if sup then .failed else .done

def next (c : Choice) (s : Shared) : Point → Point
  | .run => if s.closed then .stopped else .dial
  | .dial => if c = .ok then .publish else .failed
  | .publish => .register s.dials
  | .register k => if c = .ok then .connectedCh else .disconnect true (s.conn.getD k) k
  | .failed => if s.closed then .stopped else .backoff
  | .backoff => if s.closed = true ∧ c ≠ .ok then .stopped else .run
  | .connectedCh => .wait s.connected
  | .wait none => .run
  | .wait (some ch) =>
    if ch ∈ s.closes ∧ (c = .ok ∨ s.closed = false) then .run else .stopped
  | .receive =>
    match s.closed, s.conn, s.reader with
    | false, some conn, some reader => .read conn reader
    | _, _, _ => .done
  | .read conn reader =>
    match c with
    | .ok => .done
    | .err => .disconnect false reader conn
    | .answer => .writeFramesTo conn
  | .writeFramesTo conn =>
    match s.conn, s.writer with
    | some cur, some w => if cur = conn then .flush conn w else .done
    | _, _ => .done
  | .writeFrames =>
    match s.conn, s.writer with
    | some conn, some w => .flush conn w
    | _, _ => .done
  | .flush conn w => if c = .ok then .done else .disconnect false w conn
  | .close => .currentConn
  | .currentConn => s.conn.elim .done fun k => .disconnect false k k
  | .disconnect sup _ stale =>
    if s.conn = some stale then .closeCh sup s.connected stale else returned sup
  | .closeCh sup _ stale => .closeConn sup stale
  | .closeConn sup _ => returned sup
  | .stopped => .stopped
  | .done => .done

section

-- the equations are derived once, before the proofs
attribute [local simp] next effect

end

inductive Env (s : Shared) : Option Choice → Shared → List Point → Prop
  | supervise (c : Choice) (h : enabled s s.supervisor) : Env s (some c)
      { effect s s.supervisor with supervisor := next c s s.supervisor } []
  | call {p : Point} (hp : p = .receive ∨ p = .writeFrames ∨ p = .close) : Env s none s [p]

def program : Program Shared Point Choice (Option Choice) where
  init s := s = {}
  enabled := enabled
  effect _ := effect
  next := next
  spawn _ _ _ := []
  env := Env

def Knows (s : Shared) : Point → Prop
  | .read conn seen | .flush conn seen | .disconnect _ seen conn => seen = conn
  | .closeCh _ ch stale => ch = some stale ∧ stale ∈ s.taken
  | .closeConn _ stale => stale ∈ s.taken
  | _ => True

def Point.supervises : Point → Bool
  | .run | .dial | .publish | .register _ | .failed | .backoff | .connectedCh | .wait _
  | .stopped => true
  | .disconnect sup _ _ | .closeCh sup _ _ | .closeConn sup _ => sup
  | _ => false

def Expects (k : ℕ) : Point → Prop
  | .register conn | .disconnect _ _ conn => k = conn
  | .wait ch => ch = some k
  | .connectedCh | .stopped => True
  | _ => False

structure Together (s : Shared) : Prop where
  reader : s.reader = s.conn
  writer : s.writer = s.conn
  connected : s.connected = s.conn
  fresh : ∀ k ∈ s.conn, k < s.dials ∧ k ∉ s.taken
  old : ∀ k ∈ s.taken, k < s.dials
  nodup : s.taken.Nodup
  drops : s.drops = s.taken.map fun k => (k, k)
  closes : ∀ k ∈ s.closes, k ∈ s.taken
  shut : ∀ k ∈ s.shut, k ∈ s.taken

variable {s : Shared} {c : Choice} {p : Point}

theorem taken_subset : s.taken ⊆ (effect s p).taken := by
  cases p with
  | disconnect =>
    dsimp only [effect]
    split
    · exact subset_append_left _ _
    · exact List.Subset.refl _
  | _ => exact List.Subset.refl _

theorem supervisor_effect : (effect s p).supervisor = s.supervisor := by
  cases p with
  | disconnect =>
    dsimp only [effect]
    split <;> rfl
  | _ => rfl

theorem Knows.mono {t : Shared} (h : Knows s p) (ht : s.taken ⊆ t.taken) : Knows t p := by
  cases p with
  | closeCh => exact ⟨h.1, ht h.2⟩
  | closeConn => exact ht h
  | _ => exact h

theorem conn_effect (hp : p ≠ .publish) {k : ℕ} (h : (effect s p).conn = some k) :
    s.conn = some k ∧ ∀ sup seen, p ≠ .disconnect sup seen k := by
  cases p with
  | publish => exact absurd rfl hp
  | disconnect sup seen stale =>
    dsimp only [effect] at h
    split at h
    · cases h
    next hne =>
    refine ⟨h, ?_⟩
    rintro _ _ ⟨⟩
    exact hne h
  | _ => exact ⟨h, nofun⟩

theorem Together.after (hs : Together s) (hk : Knows s p) (hp : p = .publish → s.conn = none) :
    Together (effect s p) := by
  cases p with
  | publish =>
    have hlt : ∀ k ∈ s.taken, k < s.dials + 1 := fun k hk => Nat.lt_succ_of_lt (hs.old k hk)
    refine ⟨rfl, rfl, rfl, ?_, hlt, hs.nodup, hs.drops, hs.closes, hs.shut⟩
    rintro _ ⟨⟩
    exact ⟨Nat.lt_succ_self _, fun hmem => Nat.lt_irrefl _ (hs.old _ hmem)⟩
  | disconnect sup seen stale =>
    cases (hk : seen = stale)
    dsimp only [effect]
    split
    · next hcur =>
      obtain ⟨hlt, hnew⟩ := hs.fresh _ hcur
      have htak : s.taken ++ s.connected.toList = s.taken ++ [seen] := by
        rw [hs.connected, hcur]
        rfl
      refine ⟨rfl, rfl, rfl, nofun, ?_, ?_, ?_, ?_, ?_⟩ <;> dsimp only <;> rw [htak]
      · simpa [or_imp, forall_and] using ⟨hs.old, hlt⟩
      · exact nodup_append.2 ⟨hs.nodup, nodup_singleton _, by
          rintro a ha b hb rfl
          exact hnew (mem_singleton.1 hb ▸ ha)⟩
      · rw [hs.drops, map_append]
        rfl
      · exact fun k hk => mem_append_left _ (hs.closes k hk)
      · exact fun k hk => mem_append_left _ (hs.shut k hk)
    · exact hs
  | closeCh sup ch stale =>
    obtain ⟨rfl, hsta⟩ := hk
    refine { hs with closes := ?_ }
    simpa [effect, or_imp, forall_and] using ⟨hs.closes, hsta⟩
  | closeConn sup stale =>
    refine { hs with shut := ?_ }
    simpa [effect, or_imp, forall_and] using ⟨hs.shut, (hk : stale ∈ s.taken)⟩
  | close => exact { hs with }
  | _ => exact hs

theorem Together.knows_next (hs : Together s) (hk : Knows s p)
    (hp : ∀ k conn, p = .register k → s.conn = some conn → conn = k) :
    Knows (effect s p) (next c s p) := by
  cases p with
  | register k =>
    dsimp only [next]
    split
    · trivial
    cases hconn : s.conn with
    | none => rfl
    | some conn => exact hp k conn rfl hconn
  | receive =>
    dsimp only [next]
    split
    · next hconn hrea => exact Option.some.inj ((hrea.symm.trans hs.reader).trans hconn)
    · trivial
  | read conn seen => cases c <;> trivial
  | writeFramesTo conn =>
    dsimp only [next]
    split
    · next cur w hcur hw =>
      split
      · next heq => exact heq ▸ Option.some.inj ((hw.symm.trans hs.writer).trans hcur)
      · trivial
    · trivial
  | writeFrames =>
    dsimp only [next]
    split
    · next conn w hconn hw => exact Option.some.inj ((hw.symm.trans hs.writer).trans hconn)
    · trivial
  | flush conn seen =>
    dsimp only [next]
    split
    · trivial
    · exact hk
  | currentConn =>
    dsimp only [next]
    cases s.conn <;> trivial
  | disconnect sup seen stale =>
    dsimp only [next, effect]
    split
    · next hcur =>
      rw [hs.connected, hcur]
      exact ⟨rfl, mem_append_right _ (mem_singleton_self _)⟩
    · cases sup <;> trivial
  | closeCh sup ch stale => exact hk.2
  | closeConn sup stale => cases sup <;> trivial
  | _ =>
    dsimp only [next]
    (repeat' split) <;> trivial

theorem expects_next {k : ℕ} (hs : Together s)
    (hsup : ∀ k, s.conn = some k → Expects k s.supervisor)
    (hk : (effect s s.supervisor).conn = some k) :
    Expects k (next c s s.supervisor) := by
  by_cases hpub : s.supervisor = .publish
  · rw [hpub] at hk ⊢
    exact (Option.some.inj hk).symm
  obtain ⟨hconn, hnot⟩ := conn_effect hpub hk
  have hexp := hsup k hconn
  cases hp : s.supervisor with
  | register conn =>
    rw [hp] at hexp
    dsimp only [next]
    split
    · trivial
    · exact hexp
  | connectedCh => exact hs.connected.trans hconn
  | wait ch =>
    rw [hp] at hexp
    obtain rfl : ch = some k := hexp
    have hopen : k ∉ s.closes := fun h => (hs.fresh k hconn).2 (hs.closes k h)
    dsimp only [next]
    rw [if_neg fun h => hopen h.1]
    trivial
  | disconnect sup seen conn =>
    rw [hp] at hexp hnot
    exact absurd rfl ((hexp : k = conn) ▸ hnot sup seen)
  | stopped => trivial
  | _ =>
    rw [hp] at hexp
    exact hexp.elim

theorem supervises_next : (next c s p).supervises = p.supervises := by
  cases p <;> unfold next <;> (try dsimp only [returned]) <;> (repeat' split) <;>
    first | rfl | (cases s.conn <;> rfl) | simp_all [Point.supervises]

theorem together_reachable {s : Pool Shared Point} (h : program.system.Reachable s) :
    (Together s.shared ∧ Knows s.shared s.shared.supervisor ∧
      s.shared.supervisor.supervises = true ∧
      ∀ k, s.shared.conn = some k → Expects k s.shared.supervisor) ∧
    ∀ p ∈ s.threads, p.supervises = false ∧ Knows s.shared p := by
  have hpub : ∀ {p : Point}, p.supervises = false → p ≠ .publish := by
    rintro p hp rfl
    cases hp
  refine Program.holds (G := fun _ _ => True)
    (I := fun s => Together s ∧ Knows s s.supervisor ∧ s.supervisor.supervises = true ∧
      ∀ k, s.conn = some k → Expects k s.supervisor)
    (P := fun s p => p.supervises = false ∧ Knows s p) ?_ ?_ ?_ ?_ (h.guarded fun _ _ => trivial)
  · rintro s rfl
    exact ⟨⟨rfl, rfl, rfl, nofun, nofun, .nil, rfl, nofun, nofun⟩, trivial, rfl, nofun⟩
  · intro s i c p hs hi _ _
    obtain ⟨⟨htog, hkno, hone, hsup⟩, hthr⟩ := hs
    obtain ⟨huser, hk⟩ := hthr p (mem_of_getElem? hi)
    refine ⟨⟨htog.after hk fun h => absurd h (hpub huser), ?_, ?_, ?_⟩, ⟨?_, ?_⟩, nofun⟩
    · exact supervisor_effect.symm ▸ hkno.mono taken_subset
    · exact supervisor_effect.symm ▸ hone
    · intro k hconn
      exact supervisor_effect.symm ▸ hsup k (conn_effect (hpub huser) hconn).1
    · exact supervises_next.trans huser
    refine htog.knows_next hk ?_
    rintro k conn rfl
    cases huser
  · intro s i c p q j hs hi _ _ _ hj
    obtain ⟨huser, hk⟩ := hs.2 q (mem_of_getElem? hj)
    exact ⟨huser, hk.mono taken_subset⟩
  rintro s e t new ⟨⟨htog, hkno, hone, hsup⟩, hthr⟩ henv -
  cases henv with
  | supervise c _ =>
    have hemp : s.shared.supervisor = .publish → s.shared.conn = none := by
      intro hp
      cases hconn : s.shared.conn with
      | none => rfl
      | some k =>
        have hexp := hsup k hconn
        rw [hp] at hexp
        exact hexp.elim
    refine ⟨⟨{ htog.after hkno hemp with }, ?_, supervises_next.trans hone, ?_⟩, nofun,
      fun q hq => ⟨(hthr q hq).1, ?_⟩⟩
    · refine (htog.knows_next (c := c) hkno ?_).mono fun _ h => h
      intro k conn hp hconn
      have hexp := hsup conn hconn
      rw [hp] at hexp
      exact hexp
    · exact fun k hconn => expects_next htog hsup hconn
    · exact (hthr q hq).2.mono (taken_subset (p := s.shared.supervisor))
  | call hp =>
    refine ⟨⟨htog, hkno, hone, hsup⟩, ?_, hthr⟩
    intro q hq
    obtain rfl := mem_singleton.1 hq
    obtain rfl | rfl | rfl := hp <;> exact ⟨rfl, trivial⟩

def Point.closesCh (k : ℕ) : Point → Bool
  | .closeCh _ ch _ => ch = some k
  | _ => false

theorem count_toList (k : ℕ) (ch : Option ℕ) :
    ch.toList.count k = (decide (ch = some k)).toNat := by
  cases ch with
  | none => rfl
  | some j => by_cases h : j = k <;> simp [h]

theorem count_step (k : ℕ) :
    (effect s p).closes.count k + ((next c s p).closesCh k).toNat + s.taken.count k =
      s.closes.count k + (p.closesCh k).toNat + (effect s p).taken.count k := by
  cases p with
  | disconnect sup seen stale =>
    dsimp only [effect, next]
    split
    · simp only [count_append, count_toList, Point.closesCh, Bool.toNat_false]
      omega
    · cases sup <;> simp [returned, Point.closesCh]
  | closeCh sup ch stale =>
    simp only [effect, next, count_append, count_toList, Point.closesCh, Bool.toNat_false]
    omega
  | closeConn sup stale => cases sup <;> simp [effect, next, returned, Point.closesCh]
  | currentConn => cases h : s.conn <;> simp [effect, next, h, Point.closesCh]
  | wait ch =>
    cases ch with
    | none => rfl
    | some ch =>
      dsimp only [effect, next]
      split <;> rfl
  | _ => dsimp only [effect, next] <;> (repeat' split) <;> rfl

theorem closes_balance {s : Pool Shared Point} (h : program.system.Reachable s) (k : ℕ) :
    s.shared.closes.count k + (s.shared.supervisor.closesCh k).toNat +
      s.threads.countP (Point.closesCh k) = s.shared.taken.count k := by
  refine Program.balance (M := program) (Point.closesCh k)
    (fun s => s.closes.count k + (s.supervisor.closesCh k).toNat) (fun s => s.taken.count k)
    ?_ ?_ ?_ h
  · rintro s rfl
    rfl
  · intro s c p _ _ _ _
    have hstep := count_step (s := s.shared) (c := c) (p := p) k
    simp only [program, supervisor_effect, countP_nil]
    omega
  intro s e t new henv
  cases henv with
  | supervise c _ =>
    have hstep := count_step (s := s) (c := c) (p := s.supervisor) k
    dsimp only
    rw [countP_nil]
    omega
  | call hp => obtain rfl | rfl | rfl := hp <;> simp [Point.closesCh]

/-- **The lifecycle of a connection.** The four fields are all empty or all of one dial; a channel
has been closed, or is about to be, exactly as often as its connection was dropped, which is at most
once; and a connection is dropped, and its socket closed, only for an error seen on itself. -/
theorem connection_lifecycle {s : Pool Shared Point} (h : program.system.Reachable s) :
    ((s.shared.conn = none ∧ s.shared.reader = none ∧ s.shared.writer = none ∧
        s.shared.connected = none) ∨
      ∃ dial, s.shared.conn = some dial ∧ s.shared.reader = some dial ∧
        s.shared.writer = some dial ∧ s.shared.connected = some dial) ∧
    (∀ dial, s.shared.closes.count dial + (s.shared.supervisor.closesCh dial).toNat +
        s.threads.countP (Point.closesCh dial) = (s.shared.drops.map Prod.snd).count dial ∧
      (s.shared.drops.map Prod.snd).count dial ≤ 1) ∧
    (∀ drop ∈ s.shared.drops, drop.1 = drop.2) ∧
    ∀ dial ∈ s.shared.shut, dial ∈ s.shared.drops.map Prod.snd := by
  obtain ⟨⟨htog, -⟩, -⟩ := together_reachable h
  have hdro : s.shared.drops.map Prod.snd = s.shared.taken := by
    rw [htog.drops, List.map_map]
    exact List.map_id _
  refine ⟨?_, fun dial => ?_, ?_, fun dial hd => hdro.symm ▸ htog.shut dial hd⟩
  · rw [htog.reader, htog.writer, htog.connected]
    cases s.shared.conn with
    | none => exact .inl ⟨rfl, rfl, rfl, rfl⟩
    | some dial => exact .inr ⟨dial, rfl, rfl, rfl, rfl⟩
  · rw [hdro]
    exact ⟨closes_balance h dial, nodup_iff_count_le_one.1 htog.nodup dial⟩
  · rw [htog.drops]
    simp

theorem first_connection_together : ∃ s : Pool Shared Point, program.system.Reachable s ∧
    s.shared.conn = some 0 ∧ s.shared.writer = some 0 ∧
    ∀ drop ∈ s.shared.drops, drop.1 = drop.2 := by
  have hrun : program.system.Reachable ⟨{}, []⟩ := .init ⟨rfl, rfl⟩
  have hdial := hrun.step (.env (.supervise .ok trivial))
  have hpub := hdial.step (.env (.supervise .ok trivial))
  have hreg := hpub.step (.env (.supervise .ok trivial))
  exact ⟨_, hreg, rfl, rfl, (connection_lifecycle hreg).2.2.1⟩

end LatticeMesh.Relay.Lifecycle
