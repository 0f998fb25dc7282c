import TreeShell.Proofs.Disk.Removal
import TreeShell.Proofs.Shell.Recovery

/-!
# The current directory exists

The text of the current directory is never normalised, so that it leads to a
directory depends on every directory it goes through. A session is settled when
it does (`Settled`). `cd` goes to such a path again. Every command but `rmdir`
spares all directories, and so all trails along them. `rmdir` can leave the
session astray, that is with a path that leads nowhere any more; from there
`recoverCwd` finds a directory above, the root at the latest
(`settled_recoverCwd`).
-/

namespace TreeShell

namespace Tree

/-- The directories of `t` are there in `u`, and `u` has no links but those
of `t`. -/
structure Spares (t u : Tree) : Prop where
  dirs : t.KeepsDirs u
  links : t.NoNewLinks u

instance : IsPreorder Tree Spares where
  refl t := ⟨KeepsDirs.refl t, NoNewLinks.refl t⟩
  trans _ _ _ h h' := ⟨h.dirs.trans h'.dirs, h.links.trans h'.links⟩

theorem Extends.spares {t u : Tree} (h : t.Extends u) : t.Spares u :=
  ⟨h.kinds.keepsDirs, h.links⟩

theorem Spares.isDir {t u : Tree} {p : Path} (h : t.Spares u) (hl : t.Linkless)
    (hp : t.isDir p = true) : u.isDir p = true := by
  rw [isDir_iff hl] at hp
  rw [isDir_iff (h.links.linkless hl)]
  obtain ⟨hr, a, htrail⟩ := hp
  exact ⟨hr, a, htrail.mono h.dirs⟩

end Tree

namespace Shell

/-- The current directory may be gone, but it is a path from the root that the
system takes. -/
structure Astray (s : Shell) : Prop where
  linkless : s.host.tree.Linkless
  unlimited : s.out.room? = none
  absolute : s.session.cwd.isAbsolute = true
  taken : s.session.cwd.refusal? = none

/-- The current directory is a path from the root to an existing directory. -/
structure Settled (s : Shell) : Prop where
  linkless : s.host.tree.Linkless
  unlimited : s.out.room? = none
  absolute : s.session.cwd.isAbsolute = true
  isDir : s.host.tree.isDir s.session.cwd = true

/-- Whether a computation keeps the session settled, as a relation of the
shells before and after it. -/
def StaysSettled (s s' : Shell) : Prop :=
  s.Settled → s'.Settled

instance : IsPreorder Shell StaysSettled where
  refl _ := id
  trans _ _ _ h h' := h' ∘ h

variable {s s' : Shell}

theorem Settled.astray (h : s.Settled) : s.Astray where
  linkless := h.linkless
  unlimited := h.unlimited
  absolute := h.absolute
  taken := ((Tree.isDir_iff h.linkless).1 h.isDir).1

theorem Settled.within (h : s.Settled) (hw : Within Tree.Spares s s') : s'.Settled where
  linkless := hw.host.tree.links.linkless h.linkless
  unlimited := hw.unlimited h.unlimited
  absolute := by
    rw [hw.session]
    exact h.absolute
  isDir := by
    rw [hw.session]
    exact hw.host.tree.isDir h.linkless h.isDir

theorem Astray.within_eq (h : s.Astray) (hw : Within Eq s s') : s'.Astray where
  linkless := hw.host.tree ▸ h.linkless
  unlimited := hw.unlimited h.unlimited
  absolute := by
    rw [hw.session]
    exact h.absolute
  taken := by
    rw [hw.session]
    exact h.taken

theorem staysSettled_of_within_eq (hw : Within Eq s s') : StaysSettled s s' := by
  intro h
  apply h.within
  refine ⟨⟨?_, hw.host.home⟩, hw.session, hw.unlimited⟩
  rw [← hw.host.tree]
  exact refl_of Tree.Spares _

theorem settled_setCwd {dir : Path} (hl : s.host.tree.Linkless) (hu : s.out.room? = none)
    (habs : dir.isAbsolute = true) (hdir : s.host.tree.isDir dir = true) :
    (outcomeState (setCwd dir s)).Settled :=
  ⟨hl, hu, habs, hdir⟩

/-- Recovery always finds a directory. It stays where the session is only if
that is the directory found. -/
theorem settled_recoverCwd (h : s.Astray) : (outcomeState (recoverCwd s)).Settled := by
  obtain ⟨dir, hdir⟩ := exists_nearestDir? (t := s.host.tree) h.absolute h.taken
  have hisDir : s.host.tree.isDir dir = true := List.find?_some hdir
  rw [recoverCwd_eq hdir]
  rcases List.mem_cons.1 (List.mem_of_find?_eq_some hdir) with rfl | habove
  · rw [if_pos rfl]
    exact ⟨h.linkless, h.unlimited, h.absolute, hisDir⟩
  · rw [if_neg (Path.components_ne_of_mem_above habove)]
    exact settled_setCwd h.linkless h.unlimited (Path.isAbsolute_of_mem_above h.absolute habove)
      hisDir

end Shell

namespace Command

open Shell

variable {s : Shell}

section Removal

theorem settled_reportRemoval (h : s.Astray) (dir : Path) :
    (outcomeState (reportRemoval dir s)).Settled := by
  rw [reportRemoval, bind_of_ok (printLine_of_unlimited h.unlimited _)]
  exact settled_recoverCwd (h.within_eq (within_wrote s _))

/-- Removing everything at the current directory goes up to what is left. When
it fails on the way, the current directory is empty but still there. -/
theorem settled_removeDir_currentTree (h : s.Settled) :
    (outcomeState (removeDir .currentTree s)).Settled := by
  obtain ⟨a, hfind⟩ := Tree.isDir_iff_find.1 h.isDir
  have hastray {t : Tree} (hlinks : s.host.tree.NoNewLinks t) :
      Astray { s with host := { s.host with tree := t } } :=
    ⟨hlinks.linkless h.linkless, h.unlimited, h.absolute, h.astray.taken⟩
  have hclear : s.host.tree.NoNewLinks (s.host.tree.clear a) :=
    Tree.noNewLinks_of_removed (s.host.tree.entry?_clear_eq_none_or a)
  have hremove : Disk.removeTree s.session.cwd s.host = _ :=
    (Disk.removeTree_of_linkless h.linkless hfind).trans (Disk.emptyAndRemove_eq _ a s.host)
  cases hparent : s.session.cwd.parent? with
  | none =>
    rw [removeDir_of_parent?_eq_none hparent]
    exact h
  | some dir =>
    cases hrm : (s.host.tree.clear a).rmdir s.session.cwd with
    | ok u =>
      rw [hrm] at hremove
      rw [removeDir_of_parent? hparent, bind_of_ok (doing_of_ok hremove)]
      exact settled_reportRemoval (hastray (hclear.trans (Tree.noNewLinks_rmdir hrm))) _
    | error e =>
      simp only [hrm] at hremove
      by_cases he : e.kind = .notFound
      · rw [if_pos he] at hremove
        rw [removeDir_of_parent? hparent, bind_of_ok (doing_of_ok hremove)]
        exact settled_reportRemoval (hastray hclear) _
      · -- the failure is reported and nothing is recovered, so the directory has to be there
        rw [if_neg he] at hremove
        rw [removeDir_of_parent?_of_error hparent hremove]
        have hdir := Tree.isDir_of_rmdir_clear h.linkless hfind hrm he
        exact ⟨hclear.linkless h.linkless, h.unlimited, h.absolute, hdir⟩

/-- Removing an empty directory may take the current one away, or one that its
path goes through. -/
theorem settled_removeDir_emptyDir (h : s.Settled) (arg : String) :
    (outcomeState (removeDir (.emptyDir arg) s)).Settled := by
  rcases Disk.removeEmptyDir_cases (s.session.resolve arg) s.host with
    ⟨-, u, -, hu, hok⟩ | ⟨e, herror⟩
  · rw [removeDir_emptyDir_of_ok hok]
    apply settled_reportRemoval
    exact ⟨(Tree.noNewLinks_rmdir hu).linkless h.linkless, h.unlimited, h.absolute, h.astray.taken⟩
  · rw [removeDir_emptyDir_of_error herror]
    exact staysSettled_of_within_eq (moves_answerRemoval _ e s) h

end Removal

theorem settled_changeDir {destination : Destination} (h : s.Settled)
    (hhome : destination = .home → ∀ dir, s.host.home = some dir →
      dir.isAbsolute = true ∧ s.host.tree.isDir dir = true) :
    (outcomeState (changeDir destination s)).Settled := by
  cases destination with
  | parent =>
    cases hparent : s.session.cwd.parent? with
    | none =>
      rw [changeDir_parent_of_none hparent]
      exact h
    | some dir =>
      have habove : dir ∈ s.session.cwd.above := List.mem_of_mem_head? hparent
      rw [changeDir_parent_of_some hparent]
      exact settled_setCwd h.linkless h.unlimited (Path.isAbsolute_of_mem_above h.absolute habove)
        (Tree.isDir_of_mem_above h.absolute h.isDir habove)
  | home =>
    cases hdir : s.host.home with
    | none =>
      rw [changeDir_home_of_none hdir]
      exact h
    | some dir =>
      obtain ⟨habs, hisDir⟩ := hhome rfl dir hdir
      rw [changeDir_home_of_some hdir]
      exact settled_setCwd h.linkless h.unlimited habs hisDir
  | dir arg =>
    by_cases hisDir : s.host.tree.isDir (s.session.resolve arg) = true
    · rw [changeDir_dir_of_isDir hisDir]
      exact settled_setCwd h.linkless h.unlimited (Path.isAbsolute_join h.absolute _) hisDir
    · rw [changeDir_dir_of_not_isDir hisDir]
      exact staysSettled_of_within_eq (moves_printLine _ s) h

end Command

end TreeShell
