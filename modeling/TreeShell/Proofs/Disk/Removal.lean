import TreeShell.Disk.Directories
import TreeShell.Proofs.Disk.Calls
import TreeShell.Proofs.Tree.Changes
import TreeShell.Proofs.Tree.Trails

/-!
# Removing directories

Equations for the two removals, each of which either changes the tree by its
calls or leaves it. A tree is removed in two steps, all below it first, so a
failure of the second step leaves a tree that was emptied. That failure is
reported only if the path still leads to the directory: when emptying took away
a name on the path itself, the call cannot find it, and this is no failure
(`isDir_of_rmdir_clear`).
-/

namespace TreeShell

namespace Tree

variable {t : Tree} {p : Path}

/-- A path whose last name is gone, or one before it, cannot be removed for
that reason and for no other. -/
theorem rmdir_of_break {u : Tree} {before after : List Piece} {q : Piece} {n : FileName}
    {c : Address} (hr : p.refusal? = none) (hp : p.trimmed = before ++ q :: after)
    (hq : Step.ofPiece q = .enter n) (htrail : u.Trail [] before c)
    (hgone : u.entry? (n :: c) = none) : u.rmdir p = .error .notFound := by
  obtain ⟨jump, hj⟩ := u.exists_locate_eq_walk .name hr
  have hlocate : u.locate .name p = u.walk .name jump c (q :: after) := by
    rw [hj, if_pos rfl, hp]
    exact walk_append_of_trail (Ending.suits_of_not_refusesSlash rfl _) htrail
  have hwalk : u.walk .name jump c (q :: after) =
      if after = [] then .ok (n :: c) else .error .notFound :=
    walk_cons_of_none (Ending.suits_of_not_refusesSlash rfl _) htrail.hasDir_end hq hgone
  rw [hwalk] at hlocate
  by_cases hafter : after = []
  · have hlast : rmdirRefusal? p = none := by
      have hdot : q.text ≠ "." := by
        intro h
        simp [Step.ofPiece, Piece.isIdle, h] at hq
      have hdots : q.text ≠ ".." := by
        intro h
        simp [Step.ofPiece, Piece.isIdle, h] at hq
      simp [rmdirRefusal?, hp, hafter, hdot, hdots]
    rw [if_pos hafter] at hlocate
    simp only [rmdir, hlocate, bind, Except.bind, hlast, hgone]
  · rw [if_neg hafter] at hlocate
    rw [rmdir, hlocate]
    rfl

/-- When the call fails on the emptied directory, and not because the path
leads nowhere, the path still leads to the directory. -/
theorem isDir_of_rmdir_clear {a : Address} {e : IoError} (hl : t.Linkless)
    (hfind : t.find p = .ok (a, .dir)) (h : (t.clear a).rmdir p = .error e)
    (he : e.kind ≠ .notFound) : (t.clear a).isDir p = true := by
  obtain ⟨hr, htrail⟩ := (find_eq_dir_iff hl).1 hfind
  rcases (trail_trimmed.2 htrail).lasts_or_breaks (t.entry?_clear_eq_none_or a)
    (hasDir_nil _) with hlasts | ⟨before, q, after, n, c, hp, hq, hbefore, hgone⟩
  · exact isDir_iff_find.2 ⟨a, find_of_trail hr (trail_trimmed.1 hlasts)⟩
  · -- a name on the path itself went with the rest, so the call does not find it
    rw [rmdir_of_break hr hp hq hbefore hgone] at h
    cases h
    exact absurd rfl he

/-- Without links the address of a directory does not depend on the ending. -/
theorem locate_of_find_dir {a : Address} (ending : Ending) (hl : t.Linkless)
    (hfind : t.find p = .ok (a, .dir)) (hs : ending.refusesSlash = false) :
    t.locate ending p = .ok a := by
  obtain ⟨hr, htrail⟩ := (find_eq_dir_iff hl).1 hfind
  exact locate_of_trail ending hr htrail hs

end Tree

namespace Disk

variable {h : Host} {path : Path} {a : Address}

/-- A directory is removed by one call, or nothing changes. -/
theorem removeEmptyDir_cases (path : Path) (h : Host) :
    (∃ a u, h.tree.find path = .ok (a, .dir) ∧ h.tree.rmdir path = .ok u ∧
        removeEmptyDir path h = .ok () { h with tree := u }) ∨
      ∃ e, removeEmptyDir path h = .error e h := by
  rw [removeEmptyDir]
  rcases requireDir_cases path h with ⟨a, hfind, hdir⟩ | ⟨e, hdir⟩
  · rw [bind_of_ok hdir, tree_bind]
    split
    · cases hc : h.tree.rmdir path with
      | ok u => exact Or.inl ⟨a, u, hfind, rfl, commit_of_ok hc⟩
      | error e => exact Or.inr ⟨_, commit_of_error hc⟩
    · exact Or.inr ⟨_, rfl⟩
  · exact Or.inr ⟨e, bind_of_error hdir⟩

/-- What is removed after the directory was emptied. -/
theorem emptyAndRemove_eq (path : Path) (a : Address) (h : Host) :
    emptyAndRemove path a h = match (h.tree.clear a).rmdir path with
      | .ok u => .ok () { h with tree := u }
      | .error e => if e.kind = .notFound then .ok () { h with tree := h.tree.clear a }
        else .error (.ofIo path e) { h with tree := h.tree.clear a } := by
  change (match (h.tree.clear a).rmdir path with
    | .ok t => modify fun h => { h with tree := t }
    | .error e => if e.kind = .notFound then pure () else throw (.ofIo path e) : Disk Unit)
      { h with tree := h.tree.clear a } = _
  cases (h.tree.clear a).rmdir path with
  | ok u => rfl
  | error e =>
    simp only
    split <;> rfl

/-- What remains to do once the path was found to lead to the directory. -/
theorem removeTree_of_locate {b : Address} (hfind : h.tree.find path = .ok (a, .dir))
    (hlocate : h.tree.locate .entry path = .ok b) :
    removeTree path h = (match h.tree.entry? b with
      | some (.link _) => commit path fun t => t.unlink path
      | _ => emptyAndRemove path a) h := by
  rewrite [removeTree, bind_of_ok (requireDir_of_find hfind), tree_bind,
    bind_of_ok (liftCall_of_ok hlocate)]
  rfl

theorem removeTree_of_linkless (hl : h.tree.Linkless) (hfind : h.tree.find path = .ok (a, .dir)) :
    removeTree path h = emptyAndRemove path a h := by
  have hlocate := Tree.locate_of_find_dir .entry hl hfind rfl
  rw [removeTree_of_locate hfind hlocate, (Tree.locate_of_find hfind).2]

/-- Of a link to a directory the link is removed. -/
theorem removeTree_of_link {b : Address} {target : Path} (hfind : h.tree.find path = .ok (a, .dir))
    (hlocate : h.tree.locate .entry path = .ok b) (hlink : h.tree.entry? b = some (.link target)) :
    removeTree path h = .ok () { h with tree := h.tree.erase b } := by
  have hunlink : h.tree.unlink path = .ok (h.tree.erase b) := by
    simp only [Tree.unlink, hlocate, bind, Except.bind, hlink]
  rw [removeTree_of_locate hfind hlocate, hlink]
  exact commit_of_ok hunlink

/-- Where the path leads to the root, everything below the root is removed, or
the link in the last place of the path. -/
theorem tree_removeTree_root (hfind : h.tree.find path = .ok ([], .dir)) :
    (∀ a, a ≠ [] → Tree.entry? (outcomeState (removeTree path h)).tree a = none) ∨
      ∃ b target, h.tree.locate .entry path = .ok b ∧ h.tree.entry? b = some (.link target) ∧
        (outcomeState (removeTree path h)).tree = h.tree.erase b := by
  rcases Tree.locate_entry_of_find hfind with hb | ⟨b, target, hb, hlink⟩
  · left
    intro a ha
    have hclear : Tree.entry? (h.tree.clear []) a = none := by
      rw [Tree.entry?_clear, if_pos ⟨List.nil_suffix, Ne.symm ha⟩]
    rw [removeTree_of_locate hfind hb, Tree.entry?_nil]
    simp only [emptyAndRemove_eq]
    cases hrm : (h.tree.clear []).rmdir path with
    | ok u =>
      obtain ⟨b, -, -, -, rfl⟩ := Tree.rmdir_eq_ok hrm
      rcases Tree.entry?_erase_eq_none_or (h.tree.clear []) b a with hgone | hsame
      · exact hgone
      · exact hsame.trans hclear
    | error e =>
      simp only
      split
      · exact hclear
      · exact hclear
  · right
    exact ⟨b, target, hb, hlink, by rw [removeTree_of_link hfind hb hlink]; rfl⟩

end Disk

end TreeShell
