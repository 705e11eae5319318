import Mathlib.Data.List.Basic

/-! # A buffered writer -/

namespace LatticeMesh.Bufio

open List

universe u

variable {α : Type u}

def write (size : ℕ) (buf p : List α) : List (List α) × List α :=
  let free := size - buf.length
  if p.length ≤ free then ([], buf ++ p)
  else if buf.isEmpty then ([p], [])
  else if (p.drop free).length ≤ size then ([buf ++ p.take free], p.drop free)
  else ([buf ++ p.take free, p.drop free], [])

def flush (buf : List α) : List (List α) := if buf.isEmpty then [] else [buf]

def pieces (size : ℕ) (buf : List α) : List (List α) → List (List α)
  | [] => flush buf
  | p :: ps => (write size buf p).1 ++ pieces size (write size buf p).2 ps

theorem flatten_flush (buf : List α) : (flush buf).flatten = buf := by
  cases buf <;> simp [flush]

theorem flatten_write (size : ℕ) (buf p : List α) :
    (write size buf p).1.flatten ++ (write size buf p).2 = buf ++ p := by
  unfold write
  dsimp only
  split
  · rfl
  split
  · next hemp => simp [List.isEmpty_iff.1 hemp]
  · split <;> simp

theorem flatten_pieces (size : ℕ) (buf : List α) (ps : List (List α)) :
    (pieces size buf ps).flatten = buf ++ ps.flatten := by
  induction ps generalizing buf with
  | nil => simp [pieces, flatten_flush]
  | cons p ps ih =>
    rw [pieces, flatten_append, ih, ← append_assoc, flatten_write, append_assoc,
      flatten_cons]

theorem pieces_singleton {size : ℕ} {p : List α} (hne : p ≠ []) (hp : p.length ≤ size) :
    pieces size [] [p] = [p] := by
  simp [pieces, write, flush, hp, hne]

end LatticeMesh.Bufio
