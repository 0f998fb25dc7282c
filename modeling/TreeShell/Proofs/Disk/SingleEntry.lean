import TreeShell.Disk.Files
import TreeShell.Proofs.Disk.TreeRemoval
import TreeShell.Proofs.Tree.Endings
import TreeShell.Proofs.Tree.Writing

/-!
# Operations on one entry

Making a file, writing one, deleting one and removing an empty directory are one
call each, with a look at what the path leads to before the two removals. The look
follows links and the removing calls do not, so the entry that was looked at and the
entry that goes need not be the same: of a link to a file the link is deleted, and a
link to a directory is refused, since what has the name is no directory.

Whatever links there are, each of the four either fails and leaves the host as it
is, or changes the one entry it is for and no other (`allOrNothing_operations`).
-/

namespace TreeShell

namespace Tree

/-- The tree `u` has `e?` at the address, and everything else is as in `t`. -/
def Edited (t : Tree) (a : Address) (e? : Option Entry) (u : Tree) : Prop :=
  ∀ c, u.entry? c = if c = a then e? else t.entry? c

/-- An empty file was made where the path, a link at its end not followed, led to
nothing. -/
def FileMade (t : Tree) (p : Path) (u : Tree) : Prop :=
  ∃ a, t.locate .entry p = .ok a ∧ t.entry? a = none ∧ t.Edited a (some (.file [])) u ∧
    u.find p = .ok (a, .file [])

/-- The directory that the path leads to was removed, and it had no entries. -/
def DirRemoved (t : Tree) (p : Path) (u : Tree) : Prop :=
  ∃ a, t.find p = .ok (a, .dir) ∧ t.IsEmptyDir a ∧ t.Edited a none u

/-- The entry that the path names was removed: the regular file that the path leads
to, or a link by which it leads there. -/
def FileDeleted (t : Tree) (p : Path) (u : Tree) : Prop :=
  ∃ a b bytes, t.find p = .ok (b, .file bytes) ∧ t.locate .entry p = .ok a ∧
    (a = b ∨ ∃ target, t.entry? a = some (.link target)) ∧ t.Edited a none u

/-- The regular file that the path leads to has the bytes that `f` makes of those it
had. If it was missing, it was made. -/
def FileWritten (t : Tree) (p : Path) (f : List UInt8 → List UInt8) (u : Tree) : Prop :=
  ∃ a, t.locate .target p = .ok a ∧ t.Free a ∧ t.Edited a (some (.file (f (t.bytesAt a)))) u ∧
    u.find p = .ok (a, .file (f (t.bytesAt a)))

variable {t u : Tree} {a b : Address} {p : Path} {e : Entry}

/-- With an entry that is no directory nothing else goes. -/
theorem edited_erase_of_ne_dir (ha : t.entry? a = some e) (he : e.kind ≠ .dir) :
    t.Edited a none (t.erase a) := by
  intro c
  split
  · next hc =>
    have hnil : a ≠ [] := by
      rintro rfl
      cases ha
      exact he rfl
    rw [hc, t.entry?_erase a hnil, if_pos List.suffix_rfl]
  · next hc => exact entry?_erase_of_ne_dir ha he (Ne.symm hc)

/-- With an empty directory nothing else goes. -/
theorem edited_erase_of_isEmptyDir (hroot : a ≠ []) (hempty : t.IsEmptyDir a) :
    t.Edited a none (t.erase a) := by
  intro c
  split
  · next hc => rw [hc, t.entry?_erase a hroot, if_pos List.suffix_rfl]
  · next hc =>
    by_cases hnil : c = []
    · rw [hnil]
      rfl
    · rw [t.entry?_erase a hnil]
      split
      · next hac => exact (hempty.entry?_eq_none hac (Ne.symm hc)).symm
      · rfl

end Tree

namespace Disk

variable {h h' : Host} {p : Path}

/-- The operation fails and leaves the host as it is, or it succeeds and nothing but
the tree is changed, in the given way. -/
def AllOrNothing (op : Disk Unit) (h : Host) (change : Tree → Prop) : Prop :=
  (∃ e, op h = .error e h) ∨ ∃ u, op h = .ok () { h with tree := u } ∧ change u

theorem AllOrNothing.mono {op : Disk Unit} {change change' : Tree → Prop}
    (hop : AllOrNothing op h change) (hchange : ∀ u, change u → change' u) :
    AllOrNothing op h change' :=
  hop.imp_right fun ⟨u, hu, hc⟩ => ⟨u, hu, hchange u hc⟩

/-- A call is refused or leaves what it leaves. -/
theorem allOrNothing_commit (path : Path) (call : Tree → Except IoError Tree) (h : Host) :
    AllOrNothing (commit path call) h fun u => call h.tree = .ok u := by
  cases hc : call h.tree with
  | error e => exact Or.inl ⟨_, commit_of_error hc⟩
  | ok u => exact Or.inr ⟨u, commit_of_ok hc, rfl⟩

theorem allOrNothing_createFile (p : Path) (h : Host) :
    AllOrNothing (createFile p) h (h.tree.FileMade p) := by
  refine (allOrNothing_commit p (fun t => t.createNew p) h).mono fun u hu => ?_
  obtain ⟨a, hfresh, hnone, hwritten⟩ := Tree.exists_written_of_createNew hu
  have htarget := Tree.locate_target_of_fresh hfresh hnone
  exact ⟨a, Tree.locate_entry_of_fresh hfresh, hnone, hwritten.entry,
    Tree.find_of_locate (Tree.locate_of_extends hwritten.extends htarget) hwritten.self⟩

theorem allOrNothing_removeEmptyDir (p : Path) (h : Host) :
    AllOrNothing (removeEmptyDir p) h (h.tree.DirRemoved p) := by
  rcases removeEmptyDir_cases p h with ⟨a, u, hfind, hu, hok⟩ | herror
  · refine Or.inr ⟨u, hok, a, hfind, ?_⟩
    have hrefusal := Tree.rmdirRefusal?_of_rmdir hu
    obtain ⟨b, hname, hb, hempty, rfl⟩ := Tree.rmdir_eq_ok hu
    have hroot := Tree.ne_nil_of_locate_name hrefusal hname
    have hab : b = a := by
      -- what was removed has the name, so it is no link to the directory
      rcases Tree.locate_name_of_find hfind with ha | ⟨c, target, hc, hlink⟩
      · rw [hname] at ha
        cases ha
        rfl
      · rw [hname] at hc
        cases hc
        cases hb.eq_dir hlink
    subst hab
    exact ⟨hempty, Tree.edited_erase_of_isEmptyDir hroot hempty⟩
  · exact Or.inl herror

theorem allOrNothing_deleteFile (p : Path) (h : Host) :
    AllOrNothing (deleteFile p) h (h.tree.FileDeleted p) := by
  rcases requireFile_cases p h with ⟨b, bytes, hfind, hfile⟩ | ⟨e, herror⟩
  · rw [AllOrNothing, deleteFile, bind_of_ok hfile]
    refine (allOrNothing_commit p _ h).mono fun u hu => ?_
    obtain ⟨a, e, hentry, he, hkind, rfl⟩ := Tree.unlink_eq_ok hu
    refine ⟨a, b, bytes, hfind, hentry, ?_, Tree.edited_erase_of_ne_dir he hkind⟩
    rcases Tree.locate_entry_of_find hfind with hb | ⟨c, target, hc, hlink⟩
    · rw [hentry] at hb
      cases hb
      exact Or.inl rfl
    · rw [hentry] at hc
      cases hc
      exact Or.inr ⟨target, hlink⟩
  · exact Or.inl ⟨e, bind_of_error herror⟩

theorem allOrNothing_writeLines (p : Path) (lines : List String) (mode : WriteMode) (h : Host) :
    AllOrNothing (writeLines p lines mode) h
      (h.tree.FileWritten p (mode.apply (linesBytes lines))) := by
  refine (allOrNothing_commit p _ h).mono fun u hu => ?_
  obtain ⟨a, houtput, hwritten⟩ := Tree.exists_written_of_modifyFile hu
  exact ⟨a, Tree.locate_target_of_output houtput, hwritten.free, hwritten.entry,
    hwritten.find_of_locate_output houtput⟩

/-- Whatever the path and whatever links there are, each of the four operations fails
and leaves everything as it is, or does just the one thing that it is for. -/
theorem allOrNothing_operations (p : Path) (lines : List String) (mode : WriteMode) (h : Host) :
    AllOrNothing (createFile p) h (h.tree.FileMade p) ∧
      AllOrNothing (removeEmptyDir p) h (h.tree.DirRemoved p) ∧
      AllOrNothing (deleteFile p) h (h.tree.FileDeleted p) ∧
      AllOrNothing (writeLines p lines mode) h
        (h.tree.FileWritten p (mode.apply (linesBytes lines))) :=
  ⟨allOrNothing_createFile p h, allOrNothing_removeEmptyDir p h, allOrNothing_deleteFile p h,
    allOrNothing_writeLines p lines mode h⟩

end Disk

end TreeShell
