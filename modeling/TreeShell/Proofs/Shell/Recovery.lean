import TreeShell.Proofs.Command.Steps
import TreeShell.Proofs.Path.Parents
import TreeShell.Proofs.Tree.Passages
import TreeShell.Tree.Listing

/-!
# Recovering the current directory

When the current directory is gone, the session goes up along the chain of its parents to
the first one that is a directory. The chain ends, since each parent has one component
less, and what is found by going up never has the components of the path it started from,
so the session moves whenever it has to (`recoverCwd_of_isNearestDir`).

From the root every chain ends in the root, which is always there. Only a path that names
nothing at all has no other spelling of the root above it, and one that is too long for
the system then leads nowhere (`exists_nearestDir?_iff`).
-/

namespace TreeShell

/-- Idle pieces alone lead to the root, as far as the system takes the path. -/
theorem Tree.isDir_iff_of_idle {t : Tree} {p : Path} (hne : p ≠ Path.empty)
    (hidle : ∀ piece ∈ p.pieces, piece.isIdle = true) :
    t.isDir p = true ↔ p.text.utf8ByteSize ≤ Path.maxBytes := by
  have htaken : p.refusal? = none ↔ p.text.utf8ByteSize ≤ Path.maxBytes := by
    rw [Path.refusal?_eq_none_iff]
    constructor
    · rintro ⟨-, hsize, -⟩
      exact hsize
    · intro hsize
      exact ⟨fun piece hpiece => Path.nul_not_mem_of_isIdle (hidle piece hpiece), hsize, hne⟩
  rw [← htaken, isDir_iff_find]
  constructor
  · rintro ⟨a, hfind⟩
    exact refusal?_of_find hfind
  · intro hr
    exact ⟨[], find_of_trail hr ((trail_idle hidle).2 ⟨t.hasDir_nil, rfl⟩)⟩

/-- The path `dir`, the parent of `p` after `n` steps, is the first directory along the chain. -/
structure Tree.IsNearestDir (t : Tree) (p : Path) (n : Nat) (dir : Path) : Prop where
  nth : p.nthParent? n = some dir
  isDir : t.isDir dir = true
  first : ∀ m < n, ∀ q, p.nthParent? m = some q → t.isDir q = false

namespace Shell

variable {t : Tree} {p dir : Path} {s : Shell} {n : Nat}

/-- The search looks at a path and goes on with its parent. -/
theorem nearestDir?_eq (t : Tree) (p : Path) :
    nearestDir? t p = if t.isDir p = true then some p else p.parent?.bind (nearestDir? t) := by
  rw [nearestDir?, Path.ancestors, List.find?_cons]
  cases hdir : t.isDir p with
  | true => rfl
  | false =>
    cases hparent : p.parent? with
    | none =>
      rw [Path.above_eq_nil hparent]
      rfl
    | some q =>
      rw [Path.above_eq_cons hparent]
      rfl

/-- The nearest directory is the first one along the chain of parents. -/
theorem nearestDir?_eq_some_iff :
    nearestDir? t p = some dir ↔ ∃ n, t.IsNearestDir p n dir := by
  rw [nearestDir?, List.find?_eq_some_iff_getElem]
  constructor
  · rintro ⟨hdir, n, hn, rfl, hfirst⟩
    refine ⟨n, ?_, hdir, ?_⟩
    · rw [← Path.getElem?_ancestors, List.getElem?_eq_getElem hn]
    · intro m hm q hq
      rw [← Path.getElem?_ancestors] at hq
      obtain ⟨hlen, rfl⟩ := List.getElem?_eq_some_iff.1 hq
      simpa using hfirst m hm
  · rintro ⟨n, hnth, hdir, hfirst⟩
    rw [← Path.getElem?_ancestors] at hnth
    obtain ⟨hn, hnth⟩ := List.getElem?_eq_some_iff.1 hnth
    refine ⟨hdir, n, hn, hnth, fun m hm => ?_⟩
    have hm' := hfirst m hm p.ancestors[m] (by
      rw [← Path.getElem?_ancestors, List.getElem?_eq_getElem])
    simp [hm']

theorem nearestDir?_eq_none_iff :
    nearestDir? t p = none ↔ ∀ n q, p.nthParent? n = some q → t.isDir q = false := by
  rw [nearestDir?, List.find?_eq_none]
  constructor
  · intro h n q hq
    rw [← Path.getElem?_ancestors] at hq
    simpa using h q (List.mem_of_getElem? hq)
  · intro h q hq
    obtain ⟨n, hn⟩ := List.mem_iff_getElem?.1 hq
    rw [Path.getElem?_ancestors] at hn
    simp [h n q hn]

/-- Among a path from the root and the paths above it there is a directory, unless the path
names nothing and is too long. -/
theorem exists_nearestDir?_iff (hp : p.isAbsolute = true) :
    (∃ dir, nearestDir? t p = some dir) ↔
      (∃ piece ∈ p.pieces, piece.isIdle = false) ∨ p.text.utf8ByteSize ≤ Path.maxBytes := by
  have hne := Path.ne_empty_of_isAbsolute hp
  rw [← Option.isSome_iff_exists, nearestDir?, List.find?_isSome]
  by_cases hidle : ∀ piece ∈ p.pieces, piece.isIdle = true
  · have habove : p.above = [] := Path.above_eq_nil ((Path.parent?_eq_none_iff hne).2 ⟨hp, hidle⟩)
    have hall : ¬ ∃ piece ∈ p.pieces, piece.isIdle = false := by
      rintro ⟨piece, hmem, hpiece⟩
      rw [hidle piece hmem] at hpiece
      cases hpiece
    rw [Path.ancestors, habove, or_iff_right hall, ← Tree.isDir_iff_of_idle (t := t) hne hidle]
    simp
  · have hname : ∃ piece ∈ p.pieces, piece.isIdle = false := by
      simpa using hidle
    have hbody : ∃ piece ∈ p.body, piece.isIdle = false := by
      rw [Path.pieces_of_isAbsolute hp] at hname
      simpa using hname
    exact iff_of_true
      ⟨Path.root, List.mem_cons_of_mem _ (Path.root_mem_above hp hbody), t.isDir_root⟩
      (Or.inl hname)

theorem exists_nearestDir? (hp : p.isAbsolute = true) (hr : p.refusal? = none) :
    ∃ dir, nearestDir? t p = some dir :=
  (exists_nearestDir?_iff hp).2 (Or.inr ((Path.refusal?_eq_none_iff p).1 hr).2.1)

theorem recoverCwd_eq {dir : Path} (h : nearestDir? s.host.tree s.session.cwd = some dir) :
    recoverCwd s =
      if dir.components = s.session.cwd.components then .ok () s else setCwd dir s := by
  rw [recoverCwd, get_bind]
  rw [h]
  simp only
  split <;> rfl

theorem recoverCwd_of_none (h : nearestDir? s.host.tree s.session.cwd = none) :
    recoverCwd s = .ok () s := by
  rw [recoverCwd, get_bind, h]
  rfl

/-- Recovery never fails, and neither prints nor touches the tree. -/
theorem exists_recoverCwd_eq (s : Shell) :
    ∃ s', recoverCwd s = .ok () s' ∧ s'.host.tree = s.host.tree ∧ s'.out = s.out := by
  cases hdir : nearestDir? s.host.tree s.session.cwd with
  | none => exact ⟨s, recoverCwd_of_none hdir, rfl, rfl⟩
  | some dir =>
    rw [recoverCwd_eq hdir]
    split
    · exact ⟨s, rfl, rfl, rfl⟩
    · exact ⟨_, rfl, rfl, rfl⟩

/-- Recovery goes to the first directory along the chain, and moves if that is not the
path of the session itself. -/
theorem recoverCwd_of_isNearestDir (h : s.host.tree.IsNearestDir s.session.cwd n dir) :
    recoverCwd s = .ok () (if n = 0 then s else s.moved dir) := by
  rw [recoverCwd_eq (nearestDir?_eq_some_iff.2 ⟨n, h⟩)]
  have hn := h.nth
  cases n with
  | zero =>
    cases hn
    rw [if_pos rfl, if_pos rfl]
  | succ n =>
    rw [← Path.getElem?_ancestors, Path.ancestors, List.getElem?_cons_succ] at hn
    rw [if_neg (Path.components_ne_of_mem_above (List.mem_of_getElem? hn)),
      if_neg (Nat.succ_ne_zero n)]
    exact setCwd_eq dir s

/-- Recovery goes up from the current directory, one parent at a time, along a chain that
ends. It goes to the first directory of the chain, and leaves the session as it is if that
is the current one or if there is none. From a path that starts at the root there is one,
and the session is in a directory afterwards, unless the path names nothing and is too long
for the system. -/
theorem recovers_nearest_dir (s : Shell) :
    (∀ p, nearestDir? s.host.tree p =
      if s.host.tree.isDir p = true then some p else p.parent?.bind (nearestDir? s.host.tree)) ∧
    (∀ n, s.session.cwd.depth < n → s.session.cwd.nthParent? n = none) ∧
    (∀ n dir, s.host.tree.IsNearestDir s.session.cwd n dir →
      recoverCwd s = .ok () (if n = 0 then s else s.moved dir)) ∧
    ((∀ n q, s.session.cwd.nthParent? n = some q → s.host.tree.isDir q = false) →
      recoverCwd s = .ok () s) ∧
    (s.session.cwd.isAbsolute = true →
      (∃ piece ∈ s.session.cwd.pieces, piece.isIdle = false) ∨
        s.session.cwd.text.utf8ByteSize ≤ Path.maxBytes →
      (∃ n dir, s.host.tree.IsNearestDir s.session.cwd n dir) ∧
        ∃ s', recoverCwd s = .ok () s' ∧ s'.host.tree.isDir s'.session.cwd = true) := by
  refine ⟨nearestDir?_eq _, fun n => Path.nthParent?_of_depth_lt,
    fun n dir => recoverCwd_of_isNearestDir,
    fun hnone => recoverCwd_of_none (nearestDir?_eq_none_iff.2 hnone), fun habs htaken => ?_⟩
  obtain ⟨dir, hdir⟩ := (exists_nearestDir?_iff habs).2 htaken
  obtain ⟨n, hnearest⟩ := nearestDir?_eq_some_iff.1 hdir
  refine ⟨⟨n, dir, hnearest⟩, _, recoverCwd_of_isNearestDir hnearest, ?_⟩
  split
  · next hn =>
    subst hn
    cases hnearest.nth
    exact hnearest.isDir
  · exact hnearest.isDir

/-- A session on a tree that has only the directory `/w`. -/
def strayed (cwd : Path) : Shell where
  host := { tree := Tree.empty.plant (Path.ofText "/w") .dir }
  session := { cwd := cwd }

theorem isNearestDir_strayed :
    (strayed (Path.ofText "/w/./gone/../x//")).host.tree.IsNearestDir
      (Path.ofText "/w/./gone/../x//") 3 (Path.ofText "/w") where
  nth := by decide
  isDir := by decide
  first := by
    have hchain : (Path.ofText "/w/./gone/../x//").ancestors.take 3 =
        [Path.ofText "/w/./gone/../x//", Path.ofText "/w/./gone/..", Path.ofText "/w/./gone"] := by
      decide
    have hgone : ∀ q ∈ [Path.ofText "/w/./gone/../x//", Path.ofText "/w/./gone/..",
        Path.ofText "/w/./gone"], (strayed q).host.tree.isDir q = false := by
      decide
    intro m hm q hq
    rw [← Path.getElem?_ancestors, ← List.getElem?_take_of_lt hm, hchain] at hq
    exact hgone q (List.mem_of_getElem? hq)

theorem recovers_nearest_dir_strayed :
    let astray := strayed (Path.ofText "/w/./gone/../x//")
    let relative := strayed (Path.ofText "gone/x")
    astray.host.tree.IsNearestDir astray.session.cwd 3 (Path.ofText "/w") ∧
      recoverCwd astray = .ok () (astray.moved (Path.ofText "/w")) ∧
      (∃ s', recoverCwd astray = .ok () s' ∧ s'.host.tree.isDir s'.session.cwd = true) ∧
      relative.session.cwd.nthParent? 3 = none ∧ recoverCwd relative = .ok () relative := by
  intro astray relative
  have hsize : astray.session.cwd.text.utf8ByteSize ≤ Path.maxBytes := by decide
  obtain ⟨-, -, hmoves, -, hrecovers⟩ := recovers_nearest_dir astray
  obtain ⟨-, hends, -, hstays, -⟩ := recovers_nearest_dir relative
  have hchain : relative.session.cwd.ancestors =
      [Path.ofText "gone/x", Path.ofText "gone", Path.empty] := by
    decide
  have hgone : ∀ q ∈ [Path.ofText "gone/x", Path.ofText "gone", Path.empty],
      relative.host.tree.isDir q = false := by
    decide
  have hnone : ∀ n q, relative.session.cwd.nthParent? n = some q →
      relative.host.tree.isDir q = false := by
    intro n q hq
    rw [← Path.getElem?_ancestors, hchain] at hq
    exact hgone q (List.mem_of_getElem? hq)
  exact ⟨isNearestDir_strayed, hmoves 3 _ isNearestDir_strayed,
    (hrecovers (by decide) (Or.inr hsize)).2, hends 3 (by decide), hstays hnone⟩

section Unread

/-- The root, spelled with so many dots that the system does not take it, is not found, and
nothing is above it. -/
theorem not_recovered_dotted :
    (strayed (Path.dotted 2150)).session.cwd.isAbsolute = true ∧
      (∀ n dir, ¬ (strayed (Path.dotted 2150)).host.tree.IsNearestDir (Path.dotted 2150) n dir) ∧
      ∃ s', recoverCwd (strayed (Path.dotted 2150)) = .ok () s' ∧
        s'.host.tree.isDir s'.session.cwd = false := by
  let s := strayed (Path.dotted 2150)
  have habs : (Path.dotted 2150).isAbsolute = true := rfl
  have hidle := Path.isIdle_dotted 2150
  have hlong : ¬ (Path.dotted 2150).text.utf8ByteSize ≤ Path.maxBytes := by
    have hsize := Path.utf8ByteSize_text (Path.dotted 2150)
    rw [Path.slashedSize_dotted] at hsize
    rw [Path.maxBytes]
    omega
  have hnone : ¬ ∃ dir, nearestDir? s.host.tree (Path.dotted 2150) = some dir := by
    rw [exists_nearestDir?_iff habs, not_or]
    refine ⟨?_, hlong⟩
    rintro ⟨piece, hmem, hpiece⟩
    rw [hidle piece hmem] at hpiece
    cases hpiece
  have hdir : s.host.tree.isDir (Path.dotted 2150) = false := by
    rw [← Bool.not_eq_true, Tree.isDir_iff_of_idle (Path.ne_empty_of_isAbsolute habs) hidle]
    exact hlong
  refine ⟨habs, fun n dir hnearest => hnone ⟨dir, nearestDir?_eq_some_iff.2 ⟨n, hnearest⟩⟩, s,
    recoverCwd_of_none ?_, hdir⟩
  by_contra hsome
  exact hnone (Option.ne_none_iff_exists'.1 hsome)

end Unread

end Shell

end TreeShell
