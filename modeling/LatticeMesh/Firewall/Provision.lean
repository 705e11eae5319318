import LatticeMesh.Firewall.Iptables

/-! # Provisioning, command by command -/

namespace LatticeMesh.Firewall

open List Function

structure Tables where
  chain : Direction → Option (List Entry)
  jump : Direction → Bool

def Tables.contents (t : Tables) (d : Direction) : List Entry := (t.chain d).getD []

inductive Command where
  | flush (d : Direction)
  | append (d : Direction) (e : Entry)

def Command.dir : Command → Direction
  | .flush d | .append d _ => d

def Command.edit : Command → List Entry → List Entry
  | .flush _, _ => []
  | .append _ e, l => l ++ [e]

def Command.exec (c : Command) (t : Tables) : Option Tables :=
  (t.chain c.dir).map fun l => { t with chain := Function.update t.chain c.dir (some (c.edit l)) }

structure Faults where
  newChain : Direction → Bool
  check : Direction → Bool
  insert : Direction → Bool
  main : ℕ → Command → Bool

def attach (f : Faults) (d : Direction) (t : Tables) : Tables :=
  if t.jump d && !f.check d then t
  else if f.insert d then t
  else { t with jump := Function.update t.jump d true }

def initChain (f : Faults) (d : Direction) (t : Tables) : Tables :=
  if f.newChain d then t
  else
    match t.chain d with
    | some _ => attach f d t
    | none => attach f d { t with chain := Function.update t.chain d (some []) }

def ruleAppends (d : Direction) (rules : List ChainRule) : List Command :=
  rules.map fun r => .append d (.rule r)

def both (e : Entry) : List Command := [.append .ingress e, .append .egress e]

def appends (case : Casing) (fw : FirewallRule) : List Command :=
  both .established ++ (ruleAppends .ingress (chainRules case fw.ingress) ++
    (ruleAppends .egress (chainRules case fw.egress) ++ both .drop))

def commands (case : Casing) (fw : FirewallRule) : List Command :=
  .flush .ingress :: .flush .egress :: appends case fw

def runFrom (fails : ℕ → Command → Bool) (t : Tables) (i : ℕ) : List Command → Tables × Bool
  | [] => (t, true)
  | c :: cs =>
    if fails i c then (t, false)
    else
      match c.exec t with
      | none => (t, false)
      | some t' => runFrom fails t' (i + 1) cs

def initChains (f : Faults) (t : Tables) : Tables :=
  initChain f .egress (initChain f .ingress t)

def provisionFrom (case : Casing) (f : Faults) (fw : FirewallRule) (t : Tables) : Tables × Bool :=
  runFrom f.main (initChains f t) 0 (commands case fw)

def executedFrom (fails : ℕ → Command → Bool) (t : Tables) (i : ℕ) : List Command → List Command
  | [] => []
  | c :: cs =>
    if fails i c then []
    else
      match c.exec t with
      | none => []
      | some t' => c :: executedFrom fails t' (i + 1) cs

def executed (case : Casing) (f : Faults) (fw : FirewallRule) (t : Tables) : List Command :=
  executedFrom f.main (initChains f t) 0 (commands case fw)

def edits (d : Direction) (cs : List Command) (l : List Entry) : List Entry :=
  cs.foldl (fun l c => if c.dir = d then c.edit l else l) l

def appended (d : Direction) (cs : List Command) : List Entry :=
  cs.filterMap fun
    | .append d' e => if d' = d then some e else none
    | .flush _ => none

variable {t : Tables}

theorem contents_exec {c : Command} {t' : Tables} (h : c.exec t = some t') (d : Direction) :
    t'.contents d = if c.dir = d then c.edit (t.contents d) else t.contents d := by
  obtain ⟨l, hl, rfl⟩ := Option.map_eq_some_iff.1 h
  unfold Tables.contents
  dsimp only
  split
  · next hd =>
    subst hd
    rw [update_self, hl]
    rfl
  · next hd => rw [update_of_ne (Ne.symm hd)]

theorem contents_runFrom (fails : ℕ → Command → Bool) (t : Tables) (i : ℕ) (cs : List Command)
    (d : Direction) :
    (runFrom fails t i cs).1.contents d = edits d (executedFrom fails t i cs) (t.contents d) := by
  induction cs generalizing t i with
  | nil => rfl
  | cons c cs ih =>
    unfold runFrom executedFrom
    split
    · rfl
    cases hexec : c.exec t with
    | none => rfl
    | some t' =>
      dsimp only
      rw [ih, contents_exec hexec]
      rfl

theorem executedFrom_isPrefix (fails : ℕ → Command → Bool) (t : Tables) (i : ℕ)
    (cs : List Command) :
    executedFrom fails t i cs <+: cs := by
  induction cs generalizing t i with
  | nil => exact prefix_refl _
  | cons c cs ih =>
    unfold executedFrom
    split
    · exact nil_prefix
    split
    · exact nil_prefix
    · exact prefix_cons_inj c |>.2 (ih _ _)

theorem contents_initChain (f : Faults) (d d' : Direction) (t : Tables) :
    (initChain f d t).contents d' = t.contents d' := by
  have hatt : ∀ t : Tables, (attach f d t).contents d' = t.contents d' := by
    intro t
    unfold attach
    (repeat' split) <;> rfl
  unfold initChain
  split
  · rfl
  split
  · exact hatt t
  next hnone =>
  rw [hatt]
  unfold Tables.contents
  dsimp only
  by_cases hd : d' = d
  · subst hd
    rw [update_self, hnone]
    rfl
  · rw [update_of_ne hd]

theorem contents_provisionFrom (case : Casing) (f : Faults) (fw : FirewallRule) (t : Tables)
    (d : Direction) : (provisionFrom case f fw t).1.contents d =
      edits d (executed case f fw t) (t.contents d) := by
  unfold provisionFrom executed
  rw [contents_runFrom]
  unfold initChains
  rw [contents_initChain, contents_initChain]

variable {cs : List Command}

theorem edits_append {d : Direction} (h : ∀ c ∈ cs, ∀ d', c ≠ .flush d') (l : List Entry) :
    edits d cs l = l ++ appended d cs := by
  induction cs generalizing l with
  | nil => exact (append_nil l).symm
  | cons c cs ih =>
    have hcs := ih fun c hc => h c (mem_cons_of_mem _ hc)
    cases c with
    | flush d' => exact absurd rfl (h _ mem_cons_self d')
    | append d' e =>
      show edits d cs _ = _
      rw [hcs]
      unfold appended
      by_cases hd : d' = d
      · simp [Command.dir, Command.edit, hd]
      · simp [Command.dir, hd]

theorem appends_ne_flush (case : Casing) (fw : FirewallRule) :
    ∀ c ∈ appends case fw, ∀ d, c ≠ .flush d := by
  intro c hc d hflu
  subst hflu
  simp [appends, both, ruleAppends] at hc

theorem edits_flushed (h : ∀ c ∈ cs, ∀ d, c ≠ .flush d) (d : Direction) (l : List Entry) :
    edits d (.flush .ingress :: .flush .egress :: cs) l = appended d cs := by
  cases d <;> exact (edits_append h []).trans (nil_append _)

variable {α π : Type} (nf : Netfilter α π)

def EndsInDrop (chain : List Entry) : Prop :=
  ∃ e, chain.getLast? = some e ∧ e.target = "DROP" ∧ ∀ pkt, e.matches nf pkt = true

def FailsClosed (before after : Tables) : Prop :=
  ∀ d, after.contents d = before.contents d ∨ EndsInDrop nf (after.contents d)

def Recovers (before : Tables) : List Command → Prop
  | [] => True
  | [_] => before.contents .ingress = []
  | _ :: _ :: cs => ∀ d, appended d cs = before.contents d ∨ EndsInDrop nf (appended d cs)

theorem executed_cases (case : Casing) (f : Faults) (fw : FirewallRule) (t : Tables) :
    executed case f fw t = [] ∨ executed case f fw t = [.flush .ingress] ∨
      ∃ cs, executed case f fw t = .flush .ingress :: .flush .egress :: cs ∧
        ∀ c ∈ cs, ∀ d, c ≠ .flush d := by
  have hpre : executed case f fw t <+: commands case fw := executedFrom_isPrefix _ _ _ _
  unfold commands at hpre
  match hex : executed case f fw t, hpre with
  | [], _ => exact .inl rfl
  | [c], hpre =>
    rw [(cons_prefix_cons.1 hpre).1]
    exact .inr (.inl rfl)
  | c :: c' :: rest, hpre =>
    obtain ⟨hc, htail⟩ := cons_prefix_cons.1 hpre
    obtain ⟨hc', hrest⟩ := cons_prefix_cons.1 htail
    rw [hc, hc']
    exact .inr (.inr ⟨rest, rfl, fun c hc => appends_ne_flush case fw c (hrest.subset hc)⟩)

theorem not_endsInDrop_nil : ¬ EndsInDrop nf [] := by
  rintro ⟨e, he, -⟩
  cases he

def textual : Netfilter String String := ⟨(· == ·), (· == ·), fun _ _ => true⟩

def asWritten : Casing := ⟨id, id, (· == ·), fun _ => beq_iff_eq⟩

def denying : Tables := ⟨fun _ => some [.established, .drop], fun _ => true⟩

def oneHost : FirewallRule := ⟨"linux", [⟨"LATTICE-INGRESS", ["10.0.0.2"], "", 0, "ACCEPT"⟩], []⟩

def ruleFails : Faults := ⟨fun _ => false, fun _ => false, fun _ => false, fun i _ => i == 4⟩

end LatticeMesh.Firewall
