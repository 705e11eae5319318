import Mathlib
import LatticeMesh.Lib.GoMap
import LatticeMesh.Lib.Text

/-! # Statistics of a WireGuard device -/

namespace LatticeMesh.Agent.IpcStats

open Text

structure Go (τ ρ : Type) where
  parseKey : String → Option (Vector UInt8 32)
  parseInt : String → ℤ
  parseUint : String → Option UInt64
  parseAddrPort : String → Option ρ
  unix : ℤ → ℤ → τ

def encodeToString (key : Vector UInt8 32) : String :=
  String.ofList (key.toList.flatMap fun b =>
    [Nat.digitChar (b.toNat / 16), Nat.digitChar (b.toNat % 16)])

def cut (sep : Char) (line : String) : Option (String × String) :=
  if sep ∈ line.toList then
    some (String.ofList (line.toList.takeWhile (· ≠ sep)),
      String.ofList ((line.toList.dropWhile (· ≠ sep)).drop 1))
  else none

def entries (ipc : String) : List (String × String) := (split '\n' ipc).filterMap (cut '=')

def keys (l : List (String × String)) : List String :=
  (l.filter (·.1 = "public_key")).map (·.2)

structure Counters where
  sec : ℤ := 0
  nsec : ℤ := 0
  rxBytes : UInt64 := 0

variable {τ ρ : Type}

def Counters.note (g : Go τ ρ) (k v : String) (c : Counters) : Counters :=
  if k = "last_handshake_time_sec" then { c with sec := g.parseInt v }
  else if k = "last_handshake_time_nsec" then { c with nsec := g.parseInt v }
  else if k = "rx_bytes" then { c with rxBytes := (g.parseUint v).getD c.rxBytes }
  else c

def Counters.lastHandshake (g : Go τ ρ) (c : Counters) : Option τ :=
  if c.sec ≠ 0 ∨ c.nsec ≠ 0 then some (g.unix c.sec c.nsec) else none

structure Scan (ρ : Type) where
  inPeer : Bool := false
  found : Bool := false
  counters : Counters := {}
  endpoint : Option ρ := none

def Scan.note (g : Go τ ρ) (k v : String) (s : Scan ρ) : Scan ρ :=
  if k = "endpoint" then { s with endpoint := (g.parseAddrPort v).or s.endpoint }
  else { s with counters := s.counters.note g k v }

def scan (g : Go τ ρ) (want : String) (s : Scan ρ) : List (String × String) → Scan ρ
  | [] => s
  | (k, v) :: l =>
    if k = "public_key" then
      if s.found then s else scan g want { s with inPeer := v = want, found := v = want } l
    else scan g want (if s.inPeer then s.note g k v else s) l

inductive Error where
  | publicKey
  | notConfigured

def peerStatsFromIpc (g : Go τ ρ) (ipc publicKeyBase64 : String) :
    Except Error (Option τ × UInt64 × Option ρ) :=
  match g.parseKey publicKeyBase64 with
  | none => .error .publicKey
  | some key =>
    let s := scan g (encodeToString key) {} (entries ipc)
    if s.found then .ok (s.counters.lastHandshake g, s.counters.rxBytes, s.endpoint)
    else .error .notConfigured

structure IpcPeerStats (τ : Type) where
  lastHandshake : Option τ
  rxBytes : UInt64
  txBytes : UInt64

structure All (τ : Type) where
  out : GoMap String (IpcPeerStats τ) := .empty
  curKey : String := ""
  counters : Counters := {}
  txBytes : UInt64 := 0

def All.commit (g : Go τ ρ) (a : All τ) : All τ :=
  if a.curKey = "" then a
  else { out := a.out.set a.curKey
          ⟨a.counters.lastHandshake g, a.counters.rxBytes, a.txBytes⟩ }

def All.line (g : Go τ ρ) (a : All τ) (e : String × String) : All τ :=
  if e.1 = "public_key" then { a.commit g with curKey := e.2 }
  else if a.curKey = "" then a
  else if e.1 = "tx_bytes" then { a with txBytes := (g.parseUint e.2).getD a.txBytes }
  else { a with counters := a.counters.note g e.1 e.2 }

def peerStatsAllFromIpc (g : Go τ ρ) (ipc : String) : GoMap String (IpcPeerStats τ) :=
  (((entries ipc).foldl (All.line g) {}).commit g).out

section

variable {g : Go τ ρ} {want : String} {l : List (String × String)} {s : Scan ρ} {a : All τ}

theorem Scan.note_spec (k v : String) : (s.note g k v).counters = s.counters.note g k v ∧
    (s.note g k v).found = s.found ∧ (s.note g k v).inPeer = s.inPeer := by
  unfold Scan.note
  split
  · next h =>
    subst h
    exact ⟨rfl, rfl, rfl⟩
  · exact ⟨rfl, rfl, rfl⟩

theorem All.line_spec {k : String} (hk : k ≠ "public_key") (v : String) :
    (a.line g (k, v)).out = a.out ∧ (a.line g (k, v)).curKey = a.curKey ∧
      (a.line g (k, v)).counters = if a.curKey = "" then a.counters else a.counters.note g k v := by
  unfold All.line
  rw [if_neg hk]
  split
  · simp
  split
  · next h =>
    subst h
    exact ⟨rfl, rfl, rfl⟩
  · exact ⟨rfl, rfl, rfl⟩

theorem keys_cons (k v : String) :
    keys ((k, v) :: l) = if k = "public_key" then v :: keys l else keys l := by
  unfold keys
  rw [List.filter_cons]
  split <;> simp_all

theorem get_commit (hcur : a.curKey ≠ want) : (a.commit g).out.get want = a.out.get want := by
  unfold All.commit
  split
  · rfl
  · simp [GoMap.get_set, hcur.symm]

theorem counters_commit (h : a.curKey = "" → a.counters = {}) : (a.commit g).counters = {} := by
  unfold All.commit
  split
  · next hcur => exact h hcur
  · rfl

theorem get_rest (hwant : want ∉ keys l) (hcur : a.curKey ≠ want) :
    ((l.foldl (All.line g) a).commit g).out.get want = a.out.get want := by
  induction l generalizing a with
  | nil => exact get_commit hcur
  | cons e l ih =>
    obtain ⟨k, v⟩ := e
    rw [keys_cons] at hwant
    rw [List.foldl_cons]
    split at hwant
    · next hk =>
      subst hk
      obtain ⟨hv, hl⟩ := not_or.1 (List.mem_cons.not.1 hwant)
      exact (ih hl (Ne.symm hv)).trans (get_commit hcur)
    next hk =>
    obtain ⟨hout, hkey, -⟩ := All.line_spec (g := g) (a := a) hk v
    rw [ih hwant (hkey ▸ hcur), hout]

def Agree (g : Go τ ρ) (want : String) (out : GoMap String (IpcPeerStats τ)) (s : Scan ρ) : Prop :=
  s.found = true ∧ ∃ tx, out.get want = some ⟨s.counters.lastHandshake g, s.counters.rxBytes, tx⟩

theorem agree_commit (hne : want ≠ "") (hcur : a.curKey = want) (hc : a.counters = s.counters)
    (hs : s.found = true) : Agree g want (a.commit g).out s := by
  subst hcur
  refine ⟨hs, a.txBytes, ?_⟩
  rw [All.commit, if_neg hne, GoMap.get_set, if_pos rfl, hc]

theorem agree_section (hne : want ≠ "") (hwant : want ∉ keys l) (hcur : a.curKey = want)
    (hc : a.counters = s.counters) (hs : s.found = true) (hin : s.inPeer = true) :
    Agree g want ((l.foldl (All.line g) a).commit g).out (scan g want s l) := by
  induction l generalizing a s with
  | nil => exact agree_commit hne hcur hc hs
  | cons e l ih =>
    obtain ⟨k, v⟩ := e
    rw [keys_cons] at hwant
    rw [List.foldl_cons, scan]
    split at hwant
    · next hk =>
      subst hk
      obtain ⟨hv, hl⟩ := not_or.1 (List.mem_cons.not.1 hwant)
      obtain ⟨-, tx, htx⟩ := agree_commit (g := g) hne hcur hc hs
      rw [if_pos rfl, if_pos hs]
      exact ⟨hs, tx, (get_rest hl (Ne.symm hv)).trans htx⟩
    next hk =>
    obtain ⟨-, hkey, hcount⟩ := All.line_spec (g := g) (a := a) hk v
    obtain ⟨hnote, hfound, hpeer⟩ := Scan.note_spec (g := g) (s := s) k v
    rw [if_neg (hcur ▸ hne), hc, ← hnote] at hcount
    rw [if_neg hk, if_pos hin]
    exact ih hwant (hkey.trans hcur) hcount (hfound.trans hs) (hpeer.trans hin)

theorem agree_scan (hne : want ≠ "") (hwant : want ∈ keys l) (hnodup : (keys l).Nodup)
    (hcur : a.curKey ≠ want) (hempty : a.curKey = "" → a.counters = {}) :
    Agree g want ((l.foldl (All.line g) a).commit g).out (scan g want {} l) := by
  induction l generalizing a with
  | nil => simp [keys] at hwant
  | cons e l ih =>
    obtain ⟨k, v⟩ := e
    rw [keys_cons] at hwant hnodup
    rw [List.foldl_cons, scan]
    split at hwant
    · next hk =>
      subst hk
      rw [if_pos rfl] at hnodup
      obtain ⟨hv, hl⟩ := List.nodup_cons.1 hnodup
      by_cases heq : v = want
      · subst heq
        exact agree_section hne hv rfl (counters_commit hempty) (decide_eq_true rfl)
          (decide_eq_true rfl)
      have hmem := (List.mem_cons.1 hwant).resolve_left (Ne.symm heq)
      rw [if_pos rfl, decide_eq_false heq]
      exact ih (a := { a.commit g with curKey := v }) hmem hl heq fun _ => counters_commit hempty
    next hk =>
    obtain ⟨-, hkey, hcount⟩ := All.line_spec (g := g) (a := a) hk v
    rw [if_neg hk] at hnodup
    rw [if_neg hk]
    refine ih hwant hnodup (hkey ▸ hcur) fun h => ?_
    rw [hkey] at h
    rw [hcount, if_pos h, hempty h]

theorem encodeToString_ne (key : Vector UInt8 32) : encodeToString key ≠ "" := by
  intro h
  have hlen := congrArg (fun s => s.toList.length) h
  simp [encodeToString] at hlen

end

/-- **The parsers agree.** If each public key occurs once in the text, `PeerStatsFromIpc` succeeds for
every key in it, and returns the handshake and the received bytes of its entry among all. -/
theorem ipc_parsers_agree (g : Go τ ρ) (ipc publicKeyBase64 : String) (key : Vector UInt8 32)
    (hnodup : (keys (entries ipc)).Nodup) (hparse : g.parseKey publicKeyBase64 = some key)
    (hkey : encodeToString key ∈ keys (entries ipc)) :
    ∃ lastHandshake rxBytes txBytes endpoint,
      peerStatsFromIpc g ipc publicKeyBase64 = .ok (lastHandshake, rxBytes, endpoint) ∧
      (peerStatsAllFromIpc g ipc).get (encodeToString key) =
        some ⟨lastHandshake, rxBytes, txBytes⟩ := by
  have hne := encodeToString_ne key
  obtain ⟨hfound, tx, htx⟩ :=
    agree_scan (g := g) (a := {}) hne hkey hnodup (Ne.symm hne) fun _ => rfl
  refine ⟨_, _, tx, (scan g (encodeToString key) {} (entries ipc)).endpoint, ?_, htx⟩
  simp only [peerStatsFromIpc, hparse, hfound, if_true]

def zeroKey : Vector UInt8 32 := Vector.replicate 32 0

def plain : Go (ℤ × ℤ) Unit where
  parseKey _ := some zeroKey
  parseInt v := v.length
  parseUint v := some (UInt64.ofNat v.length)
  parseAddrPort _ := none
  unix sec nsec := (sec, nsec)

def dump : String := "public_key=" ++ encodeToString zeroKey ++ "\nrx_bytes=1\npublic_key=ff"

theorem dump_agrees : ∃ lastHandshake rxBytes txBytes endpoint,
    peerStatsFromIpc plain dump "" = .ok (lastHandshake, rxBytes, endpoint) ∧
    (peerStatsAllFromIpc plain dump).get (encodeToString zeroKey) =
      some ⟨lastHandshake, rxBytes, txBytes⟩ :=
  ipc_parsers_agree plain dump "" zeroKey (by decide +kernel) rfl (by decide +kernel)

end LatticeMesh.Agent.IpcStats
