import TreeShell.Proofs.Path.Ancestors

/-!
# The chain of parents

The paths above any path, absolute or not, are its parent, the parent of that, and so on
(`above_eq_cons`): the path with its last component cut off `n` times is the `n`-th of them
(`getElem?_ancestors`). Each cut takes one component (`depth_of_parent?`), whatever dots and
slashes go with it, so the chain has an end, and no path on it is the same place in every
tree as one before it.
-/

namespace TreeShell.Path

variable {p q : Path} {n : Nat}

theorem aboveOf_append_of_idle {s : Start} {idles rev : List Piece}
    (h : ∀ piece ∈ idles, piece.isIdle = true) : aboveOf s (idles ++ rev) = aboveOf s rev := by
  rw [← aboveOf_dropWhile, List.dropWhile_append_of_pos h, aboveOf_dropWhile]

/-- What is above the path built from some first pieces is what is above these. -/
theorem above_build {pieces more : List Piece} (hbody : p.body = pieces ++ more) :
    (build p.start pieces).above = aboveOf p.start pieces.reverse := by
  rw [above, start_build hbody]
  rcases body_build hbody with hsame | ⟨rfl, hidle⟩
  · rw [hsame]
  · rw [hidle]
    rfl

/-- The paths above the nearest one are the others. -/
theorem above_eq_cons (h : p.parent? = some q) : p.above = q :: q.above := by
  rcases body_cases_of_parent? h with
    ⟨hhere, rfl, hidle⟩ | ⟨pieces, idles, piece, rest, hbody, rfl, hpiece, hidles, hrest⟩
  · have hrev : p.above = aboveOf .here ([] : List Piece) := by
      rw [above, hhere, ← List.append_nil p.body.reverse]
      exact aboveOf_append_of_idle (by simpa using hidle)
    rw [hrev, above_empty]
    rfl
  · have hrev : p.above =
        aboveOf p.start (rest.reverse ++ piece :: (idles.reverse ++ pieces.reverse)) := by
      rw [above, hbody]
      simp
    rw [aboveOf_append_of_idle (by simpa using hrest), aboveOf, if_neg (by simp [hpiece]),
      aboveOf_append_of_idle (by simpa using hidles), ← above_build hbody] at hrev
    rw [parent?, hrev, List.head?_cons, Option.some.injEq] at h
    rw [hrev, h]

theorem above_eq_nil (h : p.parent? = none) : p.above = [] :=
  List.head?_eq_none_iff.1 h

/-- The parent has one component less. -/
theorem depth_of_parent? (h : p.parent? = some q) : p.depth = q.depth + 1 := by
  rcases body_cases_of_parent? h with
    ⟨hhere, rfl, hidle⟩ | ⟨pieces, idles, piece, rest, hbody, rfl, hpiece, hidles, hrest⟩
  · rw [depth, components, filter_idle hidle, hhere]
    rfl
  · rw [depth, depth, components_build hbody, start_build hbody, components, hbody,
      List.filter_append, List.filter_append, List.filter_cons, filter_idle hidles,
      filter_idle hrest]
    simp only [hpiece, Bool.not_false, if_true, List.nil_append, List.length_append,
      List.length_singleton]
    omega

/-- The path with its last component cut off `n` times. -/
def nthParent? : Nat → Path → Option Path
  | 0, p => some p
  | n + 1, p => p.parent?.bind (nthParent? n)

@[simp] theorem nthParent?_zero (p : Path) : nthParent? 0 p = some p := rfl

theorem nthParent?_succ (n : Nat) (p : Path) :
    nthParent? (n + 1) p = p.parent?.bind (nthParent? n) := rfl

/-- The path and those above it are its chain of parents. -/
theorem getElem?_ancestors (p : Path) (n : Nat) : p.ancestors[n]? = nthParent? n p := by
  induction n generalizing p with
  | zero => rfl
  | succ n ih =>
    rw [ancestors, List.getElem?_cons_succ, nthParent?_succ]
    cases h : p.parent? with
    | none => rw [above_eq_nil h, List.getElem?_nil, Option.bind_none]
    | some q => rw [above_eq_cons h, Option.bind_some, ← ih q, ancestors]

/-- Each step along the chain takes one component. -/
theorem depth_of_nthParent? (h : nthParent? n p = some q) : p.depth = q.depth + n := by
  induction n generalizing p with
  | zero =>
    cases h
    rfl
  | succ n ih =>
    rw [nthParent?_succ] at h
    obtain ⟨r, hr, hq⟩ := Option.bind_eq_some_iff.1 h
    rw [depth_of_parent? hr, ih hq]
    omega

/-- The chain ends after as many steps as the path has components. -/
theorem nthParent?_of_depth_lt (h : p.depth < n) : nthParent? n p = none := by
  cases hn : nthParent? n p with
  | none => rfl
  | some q =>
    have hdepth := depth_of_nthParent? hn
    omega

theorem exists_nthParent?_of_mem_above (h : q ∈ p.above) : ∃ n, nthParent? (n + 1) p = some q := by
  obtain ⟨n, hn⟩ := List.mem_iff_getElem?.1 h
  refine ⟨n, ?_⟩
  rw [← getElem?_ancestors, ancestors, List.getElem?_cons_succ, hn]

/-- No path above has the same components. -/
theorem components_ne_of_mem_above (h : q ∈ p.above) : q.components ≠ p.components := by
  obtain ⟨n, hn⟩ := exists_nthParent?_of_mem_above h
  have hdepth := depth_of_nthParent? hn
  intro hsame
  have hstart : q.start = p.start := congrArg Prod.fst hsame
  rw [depth, depth, hsame, hstart] at hdepth
  omega

end TreeShell.Path
