import TreeShell.Proofs.Disk.MakeDirs
import TreeShell.Proofs.Disk.SingleEntry

/-!
# Taking back what was made

A file or a directory that was made along a path is removed along the same path, and then
the tree is the one from before, entry for entry (`unlink_of_createNew`, `rmdir_of_mkdir`).
This holds whatever links there are: what the path has passed is still there when the tree
has grown, and at its end there is what was made, which is no link.

`createDirs` would make directories above the one that it is asked for, too. Below one that
is there it comes down to a single call (`mkdir_of_createDirs`).
-/

namespace TreeShell

namespace Tree

variable {t u : Tree} {a : Address} {n : FileName} {e : Entry} {p : Path}

/-- Without what was put into a directory the tree is the one from before. -/
theorem erase_insert (ha : t.HasDir a) (hn : t.entry? (n :: a) = none) (e : Entry) :
    (t.insert n a e).erase (n :: a) = t := by
  have hentries : (t.insert n a e).entries = t.entries ++ [(n :: a, e)] := by
    simp [insert, ha, hn]
  apply eq_of_entries_eq
  change (t.insert n a e).entries.filter _ = t.entries
  rw [hentries, List.filter_append, List.filter_cons_of_neg (by simp [isAtOrBelow]),
    List.filter_nil, List.append_nil, List.filter_eq_self]
  rintro ⟨b, f⟩ hmem
  by_contra hbelow
  have hsuffix : n :: a <:+ b := isAtOrBelow_iff.1 (by simpa using hbelow)
  cases b with
  | nil => exact absurd (List.eq_nil_of_suffix_nil hsuffix) (List.cons_ne_nil n a)
  | cons m b =>
    have hf := t.entry?_cons_eq_some_iff.2 hmem
    rw [entry?_eq_none_of_suffix hn hsuffix] at hf
    cases hf

theorem unlink_of_locate (hl : t.locate .entry p = .ok a) (ha : t.entry? a = some e)
    (he : e.kind ≠ .dir) : t.unlink p = .ok (t.erase a) := by
  simp only [unlink, hl, bind, Except.bind, ha]
  cases e with
  | dir => exact absurd rfl he
  | file bytes => rfl
  | link target => rfl

theorem find_of_createNew (h : t.createNew p = .ok u) : ∃ a, u.find p = .ok (a, .file []) := by
  obtain ⟨a, hfresh, hnone, hwritten⟩ := exists_written_of_createNew h
  have hlocate := locate_of_extends hwritten.extends (locate_target_of_fresh hfresh hnone)
  exact ⟨a, find_of_locate hlocate hwritten.self⟩

/-- A file that was made along a path is deleted along it. -/
theorem unlink_of_createNew (h : t.createNew p = .ok u) : u.unlink p = .ok t := by
  have hgrown := extends_createNew h
  obtain ⟨n, b, hfresh, hnone, rfl⟩ := createNew_eq_ok h
  have hb := hasDir_of_locate hfresh
  have hself : entry? (t.insert n b (.file [])) (n :: b) = some (.file []) := by
    rw [t.entry?_insert hb hnone, if_pos rfl]
  have hentry := locate_of_extends hgrown (locate_entry_of_fresh hfresh)
  rw [unlink_of_locate hentry hself (by simp [Entry.kind]), erase_insert hb hnone]

/-- A directory that was made along a path is found along it, empty, and is removed along
it. -/
theorem rmdir_of_mkdir (h : t.mkdir p = .ok u) :
    (∃ a, u.find p = .ok (a, .dir) ∧ u.IsEmptyDir a) ∧ u.rmdir p = .ok t := by
  have hgrown := extends_mkdir h
  obtain ⟨n, b, hname, hnone, rfl⟩ := mkdir_eq_ok h
  have hb := hasDir_of_locate hname
  have hself : (t.insert n b .dir).HasDir (n :: b) := by
    rw [HasDir, t.entry?_insert hb hnone, if_pos rfl]
  have hempty : (t.insert n b .dir).IsEmptyDir (n :: b) := by
    refine isEmptyDir_iff.2 fun m => ?_
    rw [t.entry?_insert hb hnone, if_neg (by simp)]
    exact entry?_eq_none_of_suffix hnone (List.suffix_cons m _)
  -- nothing was there, so the path does not end in dots
  have hrefusal := rmdirRefusal?_of_locate_name hname fun hdir => hdir.ne_none hnone
  have hname' := locate_of_extends hgrown hname
  refine ⟨⟨n :: b, find_of_locate_name hname' hself, hempty⟩, ?_⟩
  rw [rmdir_of_locate hname' hrefusal hself hempty, erase_insert hb hnone]

end Tree

namespace Disk

open TreeShell.Tree

variable {t : Tree} {h h' : Host} {p q : Path}

/-- Below a directory that is there it is one call that makes a new one. -/
theorem mkdir_of_createDirs (hparent : p.parent? = some q) (hq : h.tree.isDir q = true)
    (hnew : h.tree.isDir p = false) (hok : createDirs p h = .ok () h') :
    ∃ u, h.tree.mkdir p = .ok u ∧ h' = { h with tree := u } := by
  have hne : p ≠ Path.empty := by
    rintro rfl
    cases hparent
  have hrefused (e : IoError) : settle p p e h = .error (.ofIo p e) h :=
    settle_of_not_isDir (by simp [hnew]) e
  obtain ⟨above, habove⟩ : ∃ above, p.above = q :: above := List.head?_eq_some_iff.1 hparent
  rw [createDirs_eq] at hok
  split at hok
  · cases hok
  · rw [Path.ancestors, habove] at hok
    cases hm : h.tree.mkdir p with
    | ok u =>
      rw [climb_of_ok hne hm] at hok
      cases hok
      exact ⟨u, rfl, rfl⟩
    | error e =>
      -- nothing is made above, so a second call is refused like the first one
      rw [climb, if_neg (by simpa [Path.isEmpty] using hne), tree_bind, hm] at hok
      simp only at hok
      split at hok
      · rw [bind_of_ok (climb_of_isDir hq), tree_bind, hm] at hok
        simp only [hrefused] at hok
        cases hok
      · rw [hrefused] at hok
        cases hok

/-- A file that was made is deleted. -/
theorem deleteFile_of_createNew (hmade : t.createNew p = .ok h.tree) :
    deleteFile p h = .ok () { h with tree := t } := by
  obtain ⟨a, hfind⟩ := find_of_createNew hmade
  rw [deleteFile, bind_of_ok (requireFile_of_find hfind)]
  exact commit_of_ok (unlink_of_createNew hmade)

/-- A directory that was made is removed. -/
theorem removeEmptyDir_of_mkdir (hmade : t.mkdir p = .ok h.tree) :
    removeEmptyDir p h = .ok () { h with tree := t } := by
  obtain ⟨⟨a, hfind, hempty⟩, hrmdir⟩ := rmdir_of_mkdir hmade
  rw [removeEmptyDir, bind_of_ok (requireDir_of_find hfind), tree_bind, if_pos hempty]
  exact commit_of_ok hrmdir

end Disk

end TreeShell
