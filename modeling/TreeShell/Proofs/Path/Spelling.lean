import Mathlib.Data.List.Infix
import TreeShell.Disk.Copy
import TreeShell.Path.Absolute
import TreeShell.Proofs.Path.Ancestors

/-!
# Paths that spell an address

`p.Spells a` says that the path names the address `a` directly: it starts at
the root, its pieces are the names of `a` with at most empty pieces between
them, and no slash stands at its end. For a path without `.` and `..` this is
no restriction. The path above spells the address above (`Spells.parent`),
and putting the relative path of an address after a path puts the addresses
together (`Spells.join`).
-/

namespace TreeShell

namespace Path

/-- The pieces, less the empty ones, are the names of the address. -/
def Names (ps : List Piece) (a : Address) : Prop :=
  (ps.filter fun s => s.text ≠ "") = a.reverse.map FileName.piece

instance (ps : List Piece) (a : Address) : Decidable (Names ps a) :=
  inferInstanceAs (Decidable (_ = _))

/-- The path leads to the address by its names alone. -/
structure Spells (p : Path) (a : Address) : Prop where
  absolute : p.isAbsolute = true
  names : Names p.pieces a
  slash : p.endsInSlash = true → a = []

theorem text_piece_ne (n : FileName) : n.piece.text ≠ "" :=
  n.valid.1

theorem isIdle_piece (n : FileName) : n.piece.isIdle = false := by
  have hdot : n.piece.text ≠ "." := n.valid.2.1
  simp [Piece.isIdle, text_piece_ne n, hdot]

theorem names_nil_iff {ps : List Piece} : Names ps [] ↔ ∀ s ∈ ps, s.text = "" := by
  rw [Names, List.reverse_nil, List.map_nil, List.filter_eq_nil_iff]
  simp

theorem names_append {ps qs : List Piece} {a rel : Address} (hp : Names ps a)
    (hq : Names qs rel) : Names (ps ++ qs) (rel ++ a) := by
  rw [Names] at hp hq ⊢
  rw [List.filter_append, hp, hq, List.reverse_append, List.map_append]

theorem names_cons_empty {s : Piece} {ps : List Piece} {a : Address} (hs : s.text = "") :
    Names (s :: ps) a ↔ Names ps a := by
  rw [Names, Names, List.filter_cons_of_neg (by simpa using hs)]

theorem names_map_piece (a : Address) : Names (a.reverse.map FileName.piece) a := by
  rw [Names, List.filter_eq_self]
  intro s hs
  obtain ⟨n, -, rfl⟩ := List.mem_map.1 hs
  simpa using text_piece_ne n

/-- What stands before the last name spells the address above. -/
theorem names_dropLast {ps : List Piece} {n : FileName} {a : Address}
    (h : Names (ps ++ [n.piece]) (n :: a)) : Names ps a := by
  rw [Names, List.filter_append, List.filter_cons_of_pos (by simpa using text_piece_ne n),
    List.reverse_cons, List.map_append] at h
  exact (List.append_inj' h rfl).1

theorem eq_append_of_names {ps : List Piece} {n : FileName} {a : Address}
    (h : Names ps (n :: a)) (hlast : ∀ s, ps.getLast? = some s → s.text ≠ "") :
    ∃ before, ps = before ++ [n.piece] := by
  rcases List.eq_nil_or_concat' ps with rfl | ⟨before, s, rfl⟩
  · rw [Names, List.reverse_cons, List.map_append] at h
    exact absurd h.symm (by simp)
  · have hs : s.text ≠ "" := hlast s (by simp)
    rw [Names, List.filter_append, List.filter_cons_of_pos (by simpa using hs), List.reverse_cons,
      List.map_append] at h
    have hpiece := (List.append_inj' h rfl).2
    rw [List.filter_nil, List.map_cons, List.map_nil, List.cons.injEq] at hpiece
    exact ⟨before, by rw [hpiece.1]⟩

theorem text_ne_of_getLast? {p : Path} (h : p.endsInSlash = false) {s : Piece}
    (hs : p.pieces.getLast? = some s) : s.text ≠ "" := by
  rw [List.getLast?_eq_some_getLast p.ne_nil] at hs
  intro htext
  have hempty : s = Piece.empty := by
    obtain ⟨text, hslash⟩ := s
    cases htext
    rfl
  rw [endsInSlash, Option.some.inj hs, hempty] at h
  simp at h

variable {p : Path} {a : Address} {n : FileName}

/-- The pieces of a path to a name end in that name. -/
theorem Spells.exists_pieces_eq (h : p.Spells (n :: a)) :
    ∃ before, p.pieces = before ++ [n.piece] ∧ Names before a := by
  have hslash : p.endsInSlash = false := by
    cases hs : p.endsInSlash with
    | false => rfl
    | true => exact absurd (h.slash hs) (List.cons_ne_nil n a)
  obtain ⟨before, hp⟩ := eq_append_of_names h.names fun s => text_ne_of_getLast? hslash
  refine ⟨before, hp, ?_⟩
  have hnames := h.names
  rw [hp] at hnames
  exact names_dropLast hnames

/-- A piece of a path with an address is a slash or a name. -/
theorem empty_or_piece_of_names {ps : List Piece} (h : Names ps a) {s : Piece} (hs : s ∈ ps) :
    s.text = "" ∨ ∃ n : FileName, s = n.piece := by
  by_cases htext : s.text = ""
  · exact Or.inl htext
  · have hmem : s ∈ ps.filter fun s => s.text ≠ "" := List.mem_filter.2 ⟨hs, by simpa using htext⟩
    rw [h] at hmem
    obtain ⟨n, -, rfl⟩ := List.mem_map.1 hmem
    exact Or.inr ⟨n, rfl⟩

theorem eq_of_names {ps : List Piece} (h : Names ps a) {s : Piece} (hs : s ∈ ps)
    (hidle : s.isIdle = true) : s.text = "" := by
  rcases empty_or_piece_of_names h hs with hempty | ⟨n, rfl⟩
  · exact hempty
  · rw [isIdle_piece] at hidle
    cases hidle

/-- Idle pieces at the end do not count. -/
theorem names_dropWhile {rev : List Piece} (h : Names rev.reverse a) :
    Names (rev.dropWhile Piece.isIdle).reverse a := by
  induction rev with
  | nil => exact h
  | cons s rev ih =>
    rw [List.dropWhile_cons]
    split
    · next hidle =>
      apply ih
      have hs : s.text = "" := eq_of_names h (by simp) hidle
      rw [Names, List.reverse_cons, List.filter_append, List.filter_cons_of_neg (by simpa using hs),
        List.filter_nil, List.append_nil] at h
      exact h
    · exact h

theorem endsInSlash_build_root {s : Piece} {rev : List Piece} (hs : s.isIdle = false) :
    (build .root (s :: rev).reverse).endsInSlash = false := by
  have hne : s ≠ Piece.empty := by
    rintro rfl
    cases hs
  have hlast : (build .root (s :: rev).reverse).pieces.getLast? = some s := by
    rw [pieces_build_root, if_neg (by simp), List.reverse_cons, ← List.cons_append,
      List.getLast?_append]
    rfl
  rw [List.getLast?_eq_some_getLast (ne_nil _)] at hlast
  rw [endsInSlash, Option.some.inj hlast]
  simpa using hne

/-- The path above spells the address above. -/
theorem Spells.exists_parent? (h : p.Spells (n :: a)) : ∃ q, p.parent? = some q ∧ q.Spells a := by
  obtain ⟨before, hp, hnames⟩ := h.exists_pieces_eq
  have hbody := pieces_of_isAbsolute h.absolute
  rw [hp] at hbody
  cases before with
  | nil =>
    have hempty := (List.cons.inj hbody).1
    exact absurd (congrArg Piece.text hempty) (text_piece_ne n)
  | cons first before =>
    rw [List.cons_append, List.cons.injEq] at hbody
    obtain ⟨rfl, hbody⟩ := hbody
    rw [names_cons_empty rfl] at hnames
    have hkept : Names (before.reverse.dropWhile Piece.isIdle).reverse a :=
      names_dropWhile (by rwa [List.reverse_reverse])
    refine ⟨build .root (before.reverse.dropWhile Piece.isIdle).reverse, ?_, ?_⟩
    · rw [parent?, above, start_of_isAbsolute h.absolute, ← hbody, List.reverse_append,
        List.reverse_singleton, List.singleton_append, aboveOf, if_neg (by simp [isIdle_piece])]
      rfl
    · refine ⟨isAbsolute_build_root _, ?_, ?_⟩
      · rw [pieces_build_root, names_cons_empty rfl]
        split
        · next hnil =>
          rw [hnil] at hkept
          rwa [names_cons_empty rfl]
        · exact hkept
      · cases hdrop : before.reverse.dropWhile Piece.isIdle with
        | nil =>
          intro _
          rw [hdrop] at hkept
          simpa [Names] using hkept
        | cons s rev =>
          have hs : s.isIdle = false := by
            have := List.dropWhile_get_zero_not Piece.isIdle before.reverse
            simp_all
          intro hslash
          rw [endsInSlash_build_root hs] at hslash
          cases hslash

theorem names_stem (h : Names p.pieces a) : Names p.stem a := by
  unfold stem
  split
  · next hlast =>
    have hp := List.dropLast_append_getLast p.ne_nil
    rw [← hp, hlast, Names, List.filter_append, List.filter_cons_of_neg (by simp [Piece.empty]),
      List.filter_nil, List.append_nil] at h
    exact h
  · exact h

/-- A slash at the end leads to the same place. -/
theorem names_join_empty (h : Names p.pieces a) : Names (p.join empty).pieces a := by
  rw [pieces_join _ (by decide)]
  have hempty : Names empty.pieces [] := names_nil_iff.2 (by decide)
  exact names_append (names_stem h) hempty

theorem Spells.names_join_empty (h : p.Spells a) : Names (p.join empty).pieces a :=
  Path.names_join_empty h.names

theorem pieces_relative (n : FileName) (rel : Address) :
    (Address.relative (n :: rel)).pieces = (n :: rel).reverse.map FileName.piece :=
  rfl

theorem isAbsolute_relative (rel : Address) : (Address.relative rel).isAbsolute = false := by
  cases rel with
  | nil => decide
  | cons n rel =>
    cases habs : (Address.relative (n :: rel)).isAbsolute with
    | false => rfl
    | true =>
      obtain ⟨s, rest, hp⟩ := (isAbsolute_iff _).1 habs
      have hmem : Piece.empty ∈ (n :: rel).reverse.map FileName.piece := by
        rw [← pieces_relative, hp]
        exact List.mem_cons_self
      obtain ⟨m, -, hm⟩ := List.mem_map.1 hmem
      exact absurd (congrArg Piece.text hm) (text_piece_ne m)

/-- The relative path of an address, put after a path, goes on from there. A slash
at the end of the path is no matter. -/
theorem spells_join (habs : p.isAbsolute = true) (h : Names p.pieces a) {rel : Address}
    (hrel : rel ≠ []) : (p.join rel.relative).Spells (rel ++ a) := by
  obtain ⟨n, rel, rfl⟩ := List.exists_cons_of_ne_nil hrel
  have hpieces := pieces_join p (isAbsolute_relative (n :: rel))
  refine ⟨isAbsolute_join habs _, ?_, ?_⟩
  · rw [hpieces, pieces_relative]
    exact names_append (names_stem h) (names_map_piece _)
  · intro hslash
    have hlast : (p.join (Address.relative (n :: rel))).pieces.getLast? = some n.piece := by
      rw [hpieces, pieces_relative, List.reverse_cons, List.map_append, ← List.append_assoc,
        List.getLast?_append]
      rfl
    rw [List.getLast?_eq_some_getLast (ne_nil _)] at hlast
    rw [endsInSlash, Option.some.inj hlast] at hslash
    exact absurd (congrArg Piece.text (of_decide_eq_true hslash)) (text_piece_ne n)

theorem Spells.join (h : p.Spells a) {rel : Address} (hrel : rel ≠ []) :
    (p.join rel.relative).Spells (rel ++ a) :=
  spells_join h.absolute h.names hrel

end Path

end TreeShell
