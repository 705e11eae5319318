import Mathlib

/-! # Pages of peers -/

namespace LatticeMesh.Server.PeerPages

open List Option

structure PeerItem (κ : Type) where
  name : String
  displayName : String
  appId : String
  address : Option String
  copied : κ

structure PeerVo (κ : Type) where
  peer : PeerItem κ
  workspaceDisplayName : String
  status : String := ""
  lastSeen : Option String := none

structure PageRequest where
  page : Int64
  pageSize : Int64
  keyword : String

structure PageResult (κ : Type) where
  page : Int64
  pageSize : Int64
  total : ℕ
  list : List (PeerVo κ)

structure Service where
  workspace : String
  presence : Option (String → String × Option String)

def contains (s kw : String) : Bool := kw.toList <:+: s.toList

variable {κ : Type}

def PeerItem.matches (kw : String) (n : PeerItem κ) : Bool :=
  kw = "" || contains n.name kw || contains n.displayName kw || n.address.any (contains · kw)

def PageRequest.start (req : PageRequest) : Int64 :=
  ((if req.page < 1 then 1 else req.page) - 1) * req.pageSize

def PageRequest.stop (req : PageRequest) : Int64 := req.start + req.pageSize

def slice {α : Type} (l : List α) (low high : ℤ) : Option (List α) :=
  if 0 ≤ low ∧ low ≤ high ∧ high ≤ l.length then
    some ((l.drop low.toNat).take (high - low).toNat)
  else none

def Service.peerVo (s : Service) (n : PeerItem κ) : PeerVo κ :=
  match s.presence with
  | none => { peer := n, workspaceDisplayName := s.workspace }
  | some getStatus =>
    { peer := n
      workspaceDisplayName := s.workspace
      status := (getStatus n.appId).1
      lastSeen := (getStatus n.appId).2 }

def Service.renderPeerPage (s : Service) (allPeers : List (PeerItem κ)) (req : PageRequest) :
    Option (PageResult κ) :=
  let filteredPeers := allPeers.filter (PeerItem.matches req.keyword)
  let total := filteredPeers.length
  (slice filteredPeers (min req.start.toInt total) (min req.stop.toInt total)).map fun l =>
    { page := req.page, pageSize := req.pageSize, total := allPeers.length, list := l.map s.peerVo }

def Service.pages (s : Service) (allPeers : List (PeerItem κ)) (req : PageRequest) :
    ℕ → Option (List (PeerVo κ))
  | 0 => some []
  | n + 1 =>
    (s.pages allPeers req n).bind fun l =>
      (s.renderPeerPage allPeers { req with page := Int64.ofNat (n + 1) }).map fun r => l ++ r.list

def PageRequest.InRange (req : PageRequest) (total : ℕ) : Prop :=
  0 ≤ req.start.toInt ∧ min req.start.toInt total ≤ req.stop.toInt

theorem slice_isSome_iff {α : Type} (l : List α) (req : PageRequest) :
    (slice l (min req.start.toInt l.length) (min req.stop.toInt l.length)).isSome ↔
      req.InRange l.length := by
  unfold slice PageRequest.InRange
  split <;> simp <;> omega

theorem slice_min {α : Type} (l : List α) (a k : ℕ) :
    slice l (min (a : ℤ) l.length) (min ((a + k : ℕ) : ℤ) l.length) =
      some ((l.drop a).take k) := by
  unfold slice
  rw [if_pos (by omega), Option.some.injEq]
  have hlow : (min (a : ℤ) l.length).toNat = min a l.length := by omega
  have hlen : (min ((a + k : ℕ) : ℤ) l.length - min (a : ℤ) l.length).toNat =
      min (a + k) l.length - min a l.length := by omega
  rw [hlow, hlen]
  obtain hle | hlt := le_or_gt a l.length
  · rw [min_eq_left hle, take_eq_take_iff, length_drop]
    omega
  · rw [min_eq_right hlt.le, drop_length, drop_of_length_le hlt.le, take_nil,
      take_nil]

section

variable {req : PageRequest} {n size : ℕ}

def PageRequest.at (req : PageRequest) (n : ℕ) : PageRequest :=
  { req with page := Int64.ofNat (n + 1) }

theorem toInt_start (hsize : req.pageSize.toInt = size) (hn : n + 1 < 2 ^ 63)
    (hle : n * size < 2 ^ 63) : (req.at n).start.toInt = (n * size : ℕ) := by
  have hpage : (Int64.ofNat (n + 1)).toInt = n + 1 := Int64.toInt_ofNat_of_lt hn
  have hge : ¬Int64.ofNat (n + 1) < 1 := by
    rw [Int64.lt_iff_toInt_lt, hpage]
    simp
  have hsub : (Int64.ofNat (n + 1) - 1).toInt = n := by
    rw [Int64.toInt_sub, hpage, Int64.toInt_one, Int.bmod_eq_of_le (by omega) (by omega)]
    omega
  have hnat : (n : ℤ) * size = (n * size : ℕ) := (Nat.cast_mul n size).symm
  simp only [PageRequest.start, PageRequest.at, hge, if_false]
  rw [Int64.toInt_mul, hsub, hsize, hnat, Int.bmod_eq_of_le (by omega) (by omega)]

theorem toInt_stop (hsize : req.pageSize.toInt = size) (hn : n + 1 < 2 ^ 63)
    (hle : n * size < 2 ^ 63) :
    (req.at n).stop.toInt = (n * size + size : ℤ).bmod (2 ^ 64) := by
  rw [PageRequest.stop, Int64.toInt_add, toInt_start hsize hn hle]
  simp [PageRequest.at, hsize]

variable (s : Service) (allPeers : List (PeerItem κ))

theorem renderPeerPage_at (hsize : req.pageSize.toInt = size) (hn : n + 1 < 2 ^ 63)
    (hle : (n + 1) * size < 2 ^ 63) :
    (s.renderPeerPage allPeers (req.at n)).map PageResult.list =
      some ((((allPeers.filter (PeerItem.matches req.keyword)).drop (n * size)).take size).map
        s.peerVo) := by
  have hsucc : (n + 1) * size = n * size + size := Nat.succ_mul n size
  have hstop : (req.at n).stop.toInt = (n * size + size : ℕ) := by
    rw [toInt_stop hsize hn (by omega), ← Nat.cast_mul, ← Nat.cast_add,
      Int.bmod_eq_of_le (by omega) (by omega)]
  simp only [Service.renderPeerPage, toInt_start hsize hn (by omega : n * size < 2 ^ 63), hstop,
    slice_min, map_some]
  rfl

theorem renderPeerPage_panics (hsize : req.pageSize.toInt = size) (hn : n + 1 < 2 ^ 63)
    (hle : n * size < 2 ^ 63) (hlast : 2 ^ 63 ≤ (n + 1) * size) :
    s.renderPeerPage allPeers (req.at n) = none := by
  have hsucc : (n + 1) * size = n * size + size := Nat.succ_mul n size
  have hlt : (size : ℤ) < 2 ^ 63 := hsize ▸ Int64.toInt_lt req.pageSize
  have hneg : (req.at n).stop.toInt < 0 := by
    rw [toInt_stop hsize hn hle, ← Nat.cast_mul, Int.bmod_def]
    omega
  unfold Service.renderPeerPage slice
  dsimp only
  rw [if_neg (by omega), map_none]

theorem pages_eq (hsize : req.pageSize.toInt = size) (hn : n < 2 ^ 63) :
    s.pages allPeers req n = if n * size < 2 ^ 63 then
      some (((allPeers.filter (PeerItem.matches req.keyword)).take (n * size)).map s.peerVo)
    else none := by
  induction n with
  | zero => simp [Service.pages]
  | succ n ih =>
    have hsucc : (n + 1) * size = n * size + size := Nat.succ_mul n size
    rw [Service.pages, ih (by omega)]
    by_cases hle : n * size < 2 ^ 63
    · rw [if_pos hle, bind_some]
      by_cases hnext : (n + 1) * size < 2 ^ 63
      · obtain ⟨r, hr, hlist⟩ := map_eq_some_iff.1 (renderPeerPage_at s allPeers hsize hn hnext)
        rw [if_pos hnext, hsucc, take_add, map_append, ← hlist]
        exact congrArg (Option.map _) hr
      rw [if_neg hnext]
      exact congrArg (Option.map _)
        (renderPeerPage_panics s allPeers hsize hn hle (Nat.le_of_not_lt hnext))
    · rw [if_neg hle, if_neg (by omega), bind_none]

end

/-- **Paging.** A page is rendered with the number of matching peers as its total exactly if its
bounds are in range and every peer matches. -/
theorem peer_paging_iff (s : Service) (allPeers : List (PeerItem κ)) (req : PageRequest) :
    ((∃ r, s.renderPeerPage allPeers req = some r ∧
        r.total = (allPeers.filter (PeerItem.matches req.keyword)).length) ↔
      req.InRange (allPeers.filter (PeerItem.matches req.keyword)).length ∧
        ∀ n ∈ allPeers, n.matches req.keyword) ∧
    ∀ size n : ℕ, req.pageSize.toInt = size → n < 2 ^ 63 →
      (s.pages allPeers req n = some
          (((allPeers.filter (PeerItem.matches req.keyword)).take (n * size)).map s.peerVo) ↔
        n * size < 2 ^ 63) := by
  refine ⟨?_, fun size n hsize hn => ?_⟩
  · rw [← slice_isSome_iff, ← length_filter_eq_length_iff, eq_comm (b := allPeers.length),
      isSome_iff_exists]
    simp only [Service.renderPeerPage, map_eq_some_iff]
    constructor
    · rintro ⟨r, ⟨l, hl, rfl⟩, htotal⟩
      exact ⟨⟨l, hl⟩, htotal⟩
    · rintro ⟨⟨l, hl⟩, htotal⟩
      exact ⟨_, ⟨l, hl, rfl⟩, htotal⟩
  · rw [pages_eq s allPeers hsize hn]
    split <;> simp_all

def nodes : List (PeerItem Unit) := [⟨"a", "", "", none, ()⟩, ⟨"b", "", "", none, ()⟩]

theorem negative_page_size_panics :
    (Service.renderPeerPage ⟨"", none⟩ nodes ⟨1, -1, ""⟩).isNone ∧
    (Service.renderPeerPage ⟨"", none⟩ nodes ⟨1, 10, "a"⟩).any (fun r => r.total = 2) ∧
    (nodes.filter (PeerItem.matches "a")).length = 1 := by
  decide +kernel

end LatticeMesh.Server.PeerPages
