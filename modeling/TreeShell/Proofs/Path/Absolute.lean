import TreeShell.Proofs.Path.Spelling

/-!
# What making a path absolute leaves of it

A path that is made absolute from a directory has the names of the directory and then its
own steps, or only its steps if it was absolute before (`stepsFrom`). Its text has no other
pieces than these, but for the slashes in front and the one at the end (`pieces_absolute`):
every other idle piece is gone, and every `..` is still there. There is one slash in front,
and a second one only for a path that had exactly two (`front`).
-/

namespace TreeShell.Path

variable {base p : Path} {s : Piece} {ps : List Piece}

/-- The steps of the path from the root, for a path that is taken from the directory at
`here`. -/
def stepsFrom (here : Address) (p : Path) : List Piece :=
  (if p.isAbsolute then [] else here.reverse.map FileName.piece) ++ p.steps

theorem components_snd (p : Path) : p.components.2 = p.steps := by
  rw [components, steps, pieces_eq_lead_append, List.filter_append,
    filter_idle fun _ => isIdle_of_mem_lead, List.nil_append]

theorem isIdle_of_mem_steps (h : s ∈ p.steps) : s.isIdle = false := by
  simpa using (List.mem_filter.1 h).2

theorem stem_concat (hs : s.isIdle = false) (h : p.pieces = ps ++ [s]) : p.stem = ps ++ [s] := by
  have hlast : p.pieces.getLast p.ne_nil = s := by simp [h]
  have hne : s ≠ Piece.empty := by
    rintro rfl
    cases hs
  rw [stem, hlast, if_neg hne, h]

theorem pieces_join_ofPiece (base : Path) (s : Piece) :
    (base.join (ofPiece s)).pieces = base.stem ++ [s] :=
  pieces_join base rfl

/-- Joining steps one by one puts them after the base. -/
theorem stem_foldl_join (base : Path) (h : ∀ s ∈ ps, s.isIdle = false) :
    (ps.foldl (fun q s => q.join (ofPiece s)) base).stem = base.stem ++ ps := by
  induction ps generalizing base with
  | nil => exact (List.append_nil _).symm
  | cons s ps ih =>
    obtain ⟨hs, hps⟩ := List.forall_mem_cons.1 h
    rw [List.foldl_cons, ih _ hps, stem_concat hs (pieces_join_ofPiece base s), List.append_assoc,
      List.singleton_append]

theorem pieces_foldl_join (base : Path) (h : ∀ s ∈ ps, s.isIdle = false) (hps : ps ≠ []) :
    (ps.foldl (fun q s => q.join (ofPiece s)) base).pieces = base.stem ++ ps := by
  obtain ⟨before, last, rfl⟩ := (List.eq_nil_or_concat' ps).resolve_left hps
  rw [List.foldl_append, List.foldl_cons, List.foldl_nil, pieces_join_ofPiece,
    stem_foldl_join base fun s hs => h s (List.mem_append_left _ hs), List.append_assoc]

theorem stem_path (a : Address) : a.path.stem = Piece.empty :: a.reverse.map FileName.piece := by
  cases a with
  | nil => rfl
  | cons n a =>
    have hpieces : (Address.path (n :: a)).pieces =
        (Piece.empty :: a.reverse.map FileName.piece) ++ [n.piece] := by
      simp [Address.path]
    rw [stem_concat (isIdle_piece n) hpieces]
    simp

theorem pieces_path (a : Address) : a.path.pieces =
    Piece.empty :: (a.reverse.map FileName.piece ++ if a = [] then [Piece.empty] else []) := by
  cases a with
  | nil => rfl
  | cons n a => simp [Address.path]

/-- The pieces before the first step of the path when it is made absolute. -/
def front (p : Path) : List Piece :=
  if p.hasTwoSlashes then [Piece.empty, Piece.empty] else [Piece.empty]

theorem isIdle_of_mem_front (h : s ∈ p.front) : s.isIdle = true := by
  rw [front] at h
  split at h
  · obtain rfl : s = Piece.empty := by simpa using h
    exact Piece.isIdle_empty
  · obtain rfl := List.mem_singleton.1 h
    exact Piece.isIdle_empty

theorem isAbsolute_of_hasTwoSlashes (h : p.hasTwoSlashes = true) : p.isAbsolute = true := by
  rw [hasTwoSlashes] at h
  split at h
  · next first second third rest hp =>
    rw [isAbsolute, hp]
    exact decide_eq_true (of_decide_eq_true h).1
  · cases h

/-- What the steps of a path are put after: the names of the directory that the path is
taken from, unless it starts at the root. -/
theorem exists_base (here : Address) (p : Path) : ∃ base : Path, ∃ names : List Piece,
    (if p.hasTwoSlashes then twoSlashes else if p.isAbsolute then root else here.path) = base ∧
      stepsFrom here p = names ++ p.steps ∧ base.stem = p.front ++ names ∧
      base.pieces = p.front ++ (names ++ if names = [] then [Piece.empty] else []) := by
  by_cases htwo : p.hasTwoSlashes = true
  · refine ⟨twoSlashes, [], by rw [if_pos htwo], ?_, ?_, ?_⟩
    · rw [stepsFrom, if_pos (isAbsolute_of_hasTwoSlashes htwo)]
    · rw [front, if_pos htwo]
      rfl
    · rw [front, if_pos htwo]
      rfl
  · have hfront : p.front = [Piece.empty] := if_neg htwo
    by_cases habs : p.isAbsolute = true
    · refine ⟨root, [], by rw [if_neg htwo, if_pos habs], ?_, ?_, ?_⟩
      · rw [stepsFrom, if_pos habs]
      · rw [hfront]
        rfl
      · rw [hfront]
        rfl
    · refine ⟨here.path, here.reverse.map FileName.piece, by rw [if_neg htwo, if_neg habs], ?_,
        ?_, ?_⟩
      · rw [stepsFrom, if_neg habs]
      · rw [hfront, stem_path]
        rfl
      · rw [hfront, pieces_path]
        simp

/-- The pieces of a path that was made absolute. -/
theorem pieces_absolute (here : Address) (p : Path) : (here.path.absolute p).pieces =
    p.front ++ (stepsFrom here p ++
      if stepsFrom here p = [] ∨ p.endsInSlash = true then [Piece.empty] else []) := by
  obtain ⟨base, names, hbase, hsteps, hstem, hpieces⟩ := exists_base here p
  have hall := stem_foldl_join base fun s (hs : s ∈ p.steps) => isIdle_of_mem_steps hs
  rw [absolute, hbase, components_snd, hsteps]
  by_cases hslash : p.endsInSlash = true
  · rw [if_pos hslash, if_pos (Or.inr hslash), pieces_join _ rfl, hall, hstem]
    simp [empty]
  · rw [if_neg hslash]
    by_cases hnone : p.steps = []
    · rw [hnone, List.foldl_nil, hpieces]
      simp [hslash]
    · rw [pieces_foldl_join base (fun s hs => isIdle_of_mem_steps hs) hnone, hstem, if_neg]
      · simp
      · simp [hslash, hnone]

theorem isAbsolute_absolute (here : Address) (p : Path) :
    (here.path.absolute p).isAbsolute = true := by
  rw [isAbsolute_iff, pieces_absolute, front]
  split
  · exact ⟨Piece.empty, _, rfl⟩
  · cases hsteps : stepsFrom here p with
    | nil => exact ⟨Piece.empty, [], by simp⟩
    | cons s ps => exact ⟨s, _, rfl⟩

/-- No name is idle. -/
theorem filter_names (a : Address) : ((a.reverse.map FileName.piece).filter fun s => !s.isIdle) =
    a.reverse.map FileName.piece := by
  rw [List.filter_eq_self]
  intro s hs
  obtain ⟨n, -, rfl⟩ := List.mem_map.1 hs
  rw [isIdle_piece, Bool.not_false]

theorem filter_stepsFrom (here : Address) (p : Path) :
    ((stepsFrom here p).filter fun s => !s.isIdle) = stepsFrom here p := by
  rw [stepsFrom, List.filter_append, steps, List.filter_filter]
  simp only [Bool.and_self]
  split
  · rfl
  · rw [filter_names]

theorem steps_absolute (here : Address) (p : Path) :
    (here.path.absolute p).steps = stepsFrom here p := by
  rw [steps, pieces_absolute, List.filter_append, filter_idle fun _ => isIdle_of_mem_front,
    List.nil_append, List.filter_append, filter_stepsFrom, filter_idle, List.append_nil]
  intro s hs
  split at hs
  · rw [List.mem_singleton.1 hs]
    exact Piece.isIdle_empty
  · cases hs

/-- A null character stands in a step. -/
theorem nul_not_mem_iff (p : Path) : (∀ s ∈ p.pieces, '\x00' ∉ s.text.toList) ↔
    ∀ s ∈ p.steps, '\x00' ∉ s.text.toList := by
  constructor
  · exact fun h s hs => h s (List.mem_of_mem_filter hs)
  · intro h s hs
    by_cases hidle : s.isIdle = true
    · exact nul_not_mem_of_isIdle hidle
    · exact h s (List.mem_filter.2 ⟨hs, by simpa using hidle⟩)

/-- A path that is not empty is taken when it was made absolute exactly if it was taken
before, as far as the lengths go. -/
theorem refusal?_absolute {here : Address} (hne : p ≠ empty)
    (hsize : p.text.utf8ByteSize ≤ maxBytes)
    (hsize' : (here.path.absolute p).text.utf8ByteSize ≤ maxBytes) :
    (here.path.absolute p).refusal? = none ↔ p.refusal? = none := by
  have hne' := ne_empty_of_isAbsolute (isAbsolute_absolute here p)
  simp only [refusal?_eq_none_iff, nul_not_mem_iff, steps_absolute, hsize, hsize', hne, hne',
    ne_eq, not_false_eq_true, and_true]
  rw [stepsFrom, List.forall_mem_append, and_iff_right_iff_imp]
  intro _ s hs
  split at hs
  · cases hs
  · obtain ⟨n, -, rfl⟩ := List.mem_map.1 hs
    exact n.valid.2.2.2.2.1

/-- A dot alone stands for the directory itself. -/
theorem absolute_dot (here : Address) : here.path.absolute (ofText ".") = here.path :=
  rfl

end TreeShell.Path
