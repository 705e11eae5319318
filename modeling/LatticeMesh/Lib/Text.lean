import Mathlib.Data.List.DropRight

/-! # Lists of names in a string -/

namespace LatticeMesh

open List

namespace Text

def isSpace (c : Char) : Bool :=
  let n := c.toNat
  (9 ≤ n && n ≤ 13) || n == 32 || n == 0x85 || n == 0xA0 || n == 0x1680 ||
    (0x2000 ≤ n && n ≤ 0x200A) || n == 0x2028 || n == 0x2029 || n == 0x202F || n == 0x205F ||
    n == 0x3000

def trim (l : List Char) : List Char := (l.dropWhile isSpace).rdropWhile isSpace

def fields (sep : Char) (l : List Char) : List (List Char) :=
  ((l.splitOn sep).map trim).filter (· ≠ [])

def trimSpace (s : String) : String := String.ofList (trim s.toList)

def split (sep : Char) (s : String) : List String := (s.toList.splitOn sep).map String.ofList

def join (sep : Char) (l : List String) : String :=
  String.ofList ([sep].intercalate (l.map String.toList))

def ascii (s : String) : List UInt8 := s.toList.map fun ch => UInt8.ofNat ch.toNat

variable {c : Char}

theorem trim_cons (hc : isSpace c = true) (l : List Char) : trim (c :: l) = trim l := by
  unfold trim
  rw [dropWhile_cons_of_pos hc]

theorem trim_concat (hc : isSpace c = true) (l : List Char) :
    trim (l ++ [c]) = trim l := by
  induction l with
  | nil => simp [trim, hc]
  | cons x l ih =>
    by_cases hx : isSpace x = true
    · rw [cons_append, trim_cons hx, trim_cons hx, ih]
    unfold trim
    rw [cons_append, dropWhile_cons_of_neg hx, dropWhile_cons_of_neg hx,
      ← cons_append, rdropWhile_concat_pos _ _ _ hc]

theorem trim_trim (l : List Char) : trim (trim l) = trim l := by
  have hdrop : (trim l).dropWhile isSpace = trim l := by
    unfold trim
    cases hm : l.dropWhile isSpace with
    | nil => rfl
    | cons x xs =>
      have hx : ¬ isSpace x = true := by
        have h := head_dropWhile_not isSpace (l := l) (by simp [hm])
        simpa [hm] using h
      obtain ⟨ys, hys⟩ := rdropWhile_prefix isSpace (x :: xs)
      cases hr : (x :: xs).rdropWhile isSpace with
      | nil => exact absurd (rdropWhile_eq_nil_iff.1 hr x (mem_cons_self ..)) hx
      | cons y zs =>
        rw [hr, cons_append, List.cons.injEq] at hys
        rw [hys.1, dropWhile_cons_of_neg hx]
  have hidem : (trim l).rdropWhile isSpace = trim l := rdropWhile_idempotent _ _
  calc trim (trim l) = ((trim l).dropWhile isSpace).rdropWhile isSpace := rfl
    _ = trim l := by rw [hdrop, hidem]

variable {l : List Char}

theorem trim_eq_self (h : ∀ c ∈ l, isSpace c = false) : trim l = l := by
  have hdrop : l.dropWhile isSpace = l := by
    cases l with
    | nil => rfl
    | cons c l => exact dropWhile_cons_of_neg (by simp [h c mem_cons_self])
  unfold trim
  rw [hdrop, rdropWhile_eq_self_iff]
  intro hne
  simp [h _ (getLast_mem hne)]

theorem join_cons_append (sep : Char) (a : String) (l m : List String) :
    join sep (join sep (a :: l) :: m) = join sep (a :: l ++ m) := by
  unfold join
  simp only [map_cons, map_append, cons_append, String.toList_ofList]
  congr 1
  generalize a.toList = x, l.map String.toList = xs, m.map String.toList = ys
  induction xs generalizing x with
  | nil => simp
  | cons y xs ih =>
    rw [intercalate_cons_cons, cons_append, intercalate_cons_cons, ← ih y]
    cases ys <;> simp [intercalate_cons_cons]

theorem split_join {sep : Char} {l : List String} (hl : ∀ s ∈ l, sep ∉ s.toList) (hne : l ≠ []) :
    split sep (join sep l) = l := by
  unfold split join
  rw [String.toList_ofList, splitOn_intercalate sep (by simpa using hl) (by simpa using hne),
    List.map_map, String.ofList_comp_toList, List.map_id]

theorem append_sep_inj {sep : Char} {x x' y y' : List Char} (hx : sep ∉ x) (hx' : sep ∉ x')
    (h : x ++ sep :: y = x' ++ sep :: y') : x = x' ∧ y = y' := by
  induction x generalizing x' with
  | nil =>
    cases x' with
    | nil => exact ⟨rfl, (List.cons.inj h).2⟩
    | cons c x' => exact absurd ((List.cons.inj h).1 ▸ mem_cons_self) hx'
  | cons c x ih =>
    cases x' with
    | nil => exact absurd ((List.cons.inj h).1 ▸ mem_cons_self) hx
    | cons c' x' =>
      obtain ⟨hhead, htail⟩ := List.cons.inj h
      have hrest := ih (fun hc => hx (mem_cons_of_mem _ hc))
        (fun hc => hx' (mem_cons_of_mem _ hc)) htail
      exact ⟨by rw [hhead, hrest.1], hrest.2⟩

theorem join_cons_cons_inj {sep : Char} {a b a' b' : String} {l l' : List String}
    (ha : sep ∉ a.toList) (ha' : sep ∉ a'.toList)
    (h : join sep (a :: b :: l) = join sep (a' :: b' :: l')) :
    a = a' ∧ join sep (b :: l) = join sep (b' :: l') := by
  unfold join at h ⊢
  rw [String.ofList_inj, map_cons, map_cons, map_cons, map_cons,
    intercalate_cons_cons, intercalate_cons_cons, append_assoc, append_assoc,
    singleton_append, singleton_append] at h
  obtain ⟨hfst, hrest⟩ := append_sep_inj ha ha' h
  exact ⟨String.toList_inj.1 hfst, congrArg String.ofList hrest⟩

theorem join_pair_inj {sep : Char} {a b a' b' : String} (hb : sep ∉ b.toList)
    (hb' : sep ∉ b'.toList) (h : join sep [a, b] = join sep [a', b']) : a = a' ∧ b = b' := by
  unfold join at h
  rw [String.ofList_inj] at h
  have hrev := congrArg List.reverse h
  simp only [map_cons, map_nil, intercalate_cons_cons, intercalate_singleton,
    singleton_append, reverse_append, reverse_cons, append_assoc] at hrev
  obtain ⟨hsec, hfst⟩ := append_sep_inj (by simpa using hb) (by simpa using hb') hrev
  exact ⟨String.toList_inj.1 (reverse_inj.1 hfst),
    String.toList_inj.1 (reverse_inj.1 hsec)⟩

variable {sep : Char}

theorem fields_cons (hsep : isSpace sep = false) (hc : isSpace c = true) (l : List Char) :
    fields sep (c :: l) = fields sep l := by
  have hne : (c == sep) = false := by
    rw [beq_eq_false_iff_ne]
    rintro rfl
    rw [hc] at hsep
    cases hsep
  unfold fields
  rw [splitOn_cons_eq_if_modifyHead, hne]
  cases hs : l.splitOn sep with
  | nil => rfl
  | cons h t => simp [List.modifyHead, trim_cons hc]

theorem splitOn_concat (hc : c ≠ sep) (l : List Char) :
    ∃ init last, l.splitOn sep = init ++ [last] ∧
      (l ++ [c]).splitOn sep = init ++ [last ++ [c]] := by
  induction l with
  | nil => exact ⟨[], [], rfl, by simp [splitOn_cons_eq_if_modifyHead, hc]⟩
  | cons x l ih =>
    obtain ⟨init, last, hl, hlc⟩ := ih
    rw [cons_append, splitOn_cons_eq_if_modifyHead, splitOn_cons_eq_if_modifyHead,
      hl, hlc]
    split
    · exact ⟨[] :: init, last, rfl, rfl⟩
    cases init with
    | nil => exact ⟨[], x :: last, rfl, rfl⟩
    | cons h t => exact ⟨(x :: h) :: t, last, rfl, rfl⟩

theorem fields_concat (hsep : isSpace sep = false) (hc : isSpace c = true) (l : List Char) :
    fields sep (l ++ [c]) = fields sep l := by
  have hne : c ≠ sep := by
    rintro rfl
    rw [hc] at hsep
    cases hsep
  obtain ⟨init, last, hl, hlc⟩ := splitOn_concat hne l
  unfold fields
  rw [hl, hlc]
  simp [trim_concat hc]

theorem fields_trim (hsep : isSpace sep = false) (l : List Char) :
    fields sep (trim l) = fields sep l := by
  have hleft : fields sep (l.dropWhile isSpace) = fields sep l := by
    induction l with
    | nil => rfl
    | cons c l ih =>
      by_cases hc : isSpace c = true
      · rw [dropWhile_cons_of_pos hc, ih, fields_cons hsep hc]
      · rw [dropWhile_cons_of_neg hc]
  unfold trim
  rw [← hleft]
  generalize l.dropWhile isSpace = m
  induction m using List.reverseRecOn with
  | nil => rfl
  | append_singleton m c ih =>
    by_cases hc : isSpace c = true
    · rw [rdropWhile_concat_pos _ _ _ hc, ih, fields_concat hsep hc]
    · rw [rdropWhile_concat_neg _ _ _ hc]

theorem fields_append (a b : List Char) :
    fields sep (a ++ sep :: b) = fields sep a ++ fields sep b := by
  unfold fields
  rw [splitOn_append_cons_self, map_append, filter_append]

theorem not_mem_of_mem_splitOn {p : List Char} (hp : p ∈ l.splitOn sep) : sep ∉ p := by
  induction l generalizing p with
  | nil =>
    rw [splitOn_nil, mem_singleton] at hp
    simp [hp]
  | cons x l ih =>
    rw [splitOn_cons_eq_if_modifyHead] at hp
    split at hp
    · rcases mem_cons.1 hp with rfl | hp
      · simp
      · exact ih hp
    next hx =>
    cases hs : l.splitOn sep with
    | nil => simp [hs] at hp
    | cons h t =>
      rw [hs] at ih hp
      rcases mem_cons.1 hp with rfl | hp
      · have hh := ih (mem_cons_self ..)
        simp only [mem_cons, not_or]
        exact ⟨fun heq => hx (by simp [heq]), hh⟩
      · exact ih (mem_cons_of_mem _ hp)

theorem mem_of_mem_trim (h : c ∈ trim l) : c ∈ l :=
  (dropWhile_sublist _).subset ((List.rdropWhile_prefix _ _).subset h)

theorem of_mem_fields {f : List Char} (hf : f ∈ fields sep l) :
    trim f = f ∧ sep ∉ f ∧ f ≠ [] := by
  unfold fields at hf
  rw [mem_filter, List.mem_map] at hf
  obtain ⟨⟨p, hp, rfl⟩, hne⟩ := hf
  refine ⟨trim_trim p, fun hmem => ?_, by simpa using hne⟩
  exact not_mem_of_mem_splitOn hp (mem_of_mem_trim hmem)

theorem fields_intercalate {fs : List (List Char)}
    (h : ∀ f ∈ fs, trim f = f ∧ sep ∉ f ∧ f ≠ []) : fields sep ([sep].intercalate fs) = fs := by
  by_cases hnil : fs = []
  · subst hnil
    simp [fields, trim]
  unfold fields
  rw [splitOn_intercalate sep (fun f hf => (h f hf).2.1) hnil]
  have hmap : fs.map trim = fs := by
    conv_rhs => rw [← List.map_id fs]
    exact map_congr_left fun f hf => (h f hf).1
  rw [hmap, filter_eq_self]
  intro f hf
  simpa using (h f hf).2.2

end Text

end LatticeMesh
