import TreeShell.Proofs.Interpreter.RootGuard
import TreeShell.Proofs.Interpreter.Truncation
import TreeShell.Proofs.Tree.Passages

/-!
# After a failed removal

`rmdir` leaves the current directory for one that exists, but not if it ends in an
error: then the session stays where it is. Its path still leads to a directory
exactly if what was removed before the error is nothing that the path passes
(`failed_removal_usable_iff`).
-/

namespace TreeShell

namespace Tree

/-- The second tree is the first one without some of its entries. -/
def OnlyRemoves (t u : Tree) : Prop :=
  ∀ a, u.entry? a = none ∨ u.entry? a = t.entry? a

instance : IsPreorder Tree OnlyRemoves where
  refl _ _ := Or.inr rfl
  trans t u v h h' a := by
    rcases h' a with hgone | hsame
    · exact Or.inl hgone
    · rw [hsame]
      exact h a

theorem onlyRemoves_rmdir {t u : Tree} {p : Path} (h : t.rmdir p = .ok u) : t.OnlyRemoves u := by
  obtain ⟨a, -, -, -, rfl⟩ := rmdir_eq_ok h
  exact t.entry?_erase_eq_none_or a

theorem onlyRemoves_unlink {t u : Tree} {p : Path} (h : t.unlink p = .ok u) : t.OnlyRemoves u := by
  obtain ⟨a, e, -, -, -, rfl⟩ := unlink_eq_ok h
  exact t.entry?_erase_eq_none_or a

end Tree

namespace Shell

/-- The tree of the second shell is that of the first one without some entries. -/
def OnlyRemoves (s s' : Shell) : Prop :=
  s.host.tree.OnlyRemoves s'.host.tree

instance : IsPreorder Shell OnlyRemoves where
  refl s := refl_of Tree.OnlyRemoves s.host.tree
  trans _ _ _ := trans_of Tree.OnlyRemoves

/-- The current directory, the history and the wish to exit are the same. -/
def KeepsSession (s s' : Shell) : Prop :=
  s'.session = s.session

end Shell

namespace Removal

/-- What is removed. -/
def path (removal : Removal) (session : Session) : Path :=
  match removal with
  | .currentTree => session.cwd
  | .emptyDir arg => session.resolve arg

/-- The file operation that removes it. -/
def operation : Removal → Path → Disk Unit
  | .currentTree => Disk.removeTree
  | .emptyDir _ => Disk.removeEmptyDir

/-- The removal ends in an error: it would remove the root, its file operation fails,
or the output does not take the line that reports it. -/
def Fails (removal : Removal) (s : Shell) : Prop :=
  removal = .currentTree ∧ s.session.cwd.parent? = none ∨
    (fault? (removal.operation (removal.path s.session) s.host)).isSome = true ∨
    ¬ s.out.Fits (Text.encode ("Directory removed: " ++ (removal.path s.session).text ++ "\n"))

variable {s : Shell} {removal : Removal} {host : Host}

/-- If the file operation has done its part, it is the output that is to blame. -/
theorem Fails.not_fits (h : removal.Fails s)
    (hparent : removal = .currentTree → s.session.cwd.parent? ≠ none)
    (hok : removal.operation (removal.path s.session) s.host = .ok () host) :
    ¬ s.out.Fits
      (Text.encode ("Directory removed: " ++ (removal.path s.session).text ++ "\n")) := by
  rcases h with ⟨hcurrent, hroot⟩ | hfault | hfits
  · exact absurd hroot (hparent hcurrent)
  · rw [hok] at hfault
    cases hfault
  · exact hfits

end Removal

namespace Command

open Shell

variable {s : Shell} {removal : Removal}

theorem onlyRemoves_removeDir (removal : Removal) (name : String) (s : Shell) :
    s.OnlyRemoves (outcomeState (guarded name (removeDir removal) s)) := by
  have hwithin (s s' : Shell) (h : Within Tree.OnlyRemoves s s') : s.OnlyRemoves s' :=
    h.host.tree
  have hbody : Moves OnlyRemoves (removeDir removal) :=
    moves_removeDir hwithin (fun _ s => refl_of OnlyRemoves s)
      (fun _ _ _ => Tree.onlyRemoves_rmdir) (fun _ _ _ => Tree.onlyRemoves_unlink)
      (fun a t => t.entry?_clear_eq_none_or a) removal
  refine related_guarded (fun s s' h => ?_) name (hbody s)
  rw [OnlyRemoves, ← h.host.tree]
  exact refl_of Tree.OnlyRemoves _

/-- A removal whose report is not taken does not leave the directory. -/
theorem keepsSession_reportRemoval {dir : Path}
    (h : ¬ s.out.Fits (Text.encode ("Directory removed: " ++ dir.text ++ "\n"))) :
    s.KeepsSession (outcomeState (reportRemoval dir s)) := by
  have hprint : printLine ("Directory removed: " ++ dir.text) s = _ := print_eq _ s
  rw [if_neg h] at hprint
  rw [reportRemoval, bind_of_error hprint]
  rfl

theorem keepsSession_removeDir (h : removal.Fails s) :
    s.KeepsSession (outcomeState (removeDir removal s)) := by
  cases removal with
  | currentTree =>
    cases hparent : s.session.cwd.parent? with
    | none =>
      rw [removeDir_of_parent?_eq_none hparent]
      rfl
    | some p =>
      cases hrm : Disk.removeTree s.session.cwd s.host with
      | error e host =>
        rw [removeDir_of_parent?_of_error hparent hrm]
        rfl
      | ok _ host =>
        rw [removeDir_of_parent? hparent, bind_of_ok (doing_of_ok hrm)]
        exact keepsSession_reportRemoval (h.not_fits (by simp [hparent]) hrm)
  | emptyDir arg =>
    cases hrm : Disk.removeEmptyDir (s.session.resolve arg) s.host with
    | ok _ host =>
      rw [removeDir_emptyDir_of_ok hrm]
      exact keepsSession_reportRemoval (h.not_fits (by simp) hrm)
    | error e host =>
      rw [removeDir_emptyDir_of_error hrm]
      exact (moves_answerRemoval _ e { s with host := host }).session

end Command

namespace Console

open Command

variable {c : Console} {line arg : String}

/-- After a removal that ends in an error the history ends with the line, and the
current directory is still one exactly if no entry was removed that its path
passes. -/
theorem failed_removal_usable_iff (hwords : Text.words line = ["rmdir", arg])
    (hcwd : c.shell.host.tree.isDir c.shell.session.cwd = true)
    (hfails : (Removal.ofArg arg).Fails (c.started line "rmdir" [arg]).shell) :
    ((outcomeState (runLine .builtins line c)).shell.session.history.getLast? = some line ∧
      (outcomeState (runLine .builtins line c)).shell.host.tree.isDir
        (outcomeState (runLine .builtins line c)).shell.session.cwd = true) ↔
    ∀ a ∈ c.shell.host.tree.passed c.shell.session.cwd,
      (outcomeState (runLine .builtins line c)).shell.host.tree.entry? a =
        c.shell.host.tree.entry? a := by
  have hremoves := onlyRemoves_removeDir (Removal.ofArg arg) Builtin.rmdir.name
    (c.started line "rmdir" [arg]).shell
  have hsession : Shell.KeepsSession _ _ := related_guarded (fun s s' h => h.session)
    Builtin.rmdir.name (keepsSession_removeDir hfails)
  rw [← shell_runLine_rmdir hwords] at hremoves hsession
  have hstays : (outcomeState (runLine .builtins line c)).shell.session =
    c.shell.session.record line := hsession
  rw [hstays, Session.history_record, Session.cwd_record, List.getLast?_concat]
  simp only [true_and]
  exact Tree.isDir_iff_kept hremoves hcwd

theorem failed_removal_usable_dot :
    (outcomeState (runLine .builtins "rmdir *"
        (onTree [("/w/f", .file [])] "/w/."))).shell.session.history.getLast? = some "rmdir *" ∧
      (outcomeState (runLine .builtins "rmdir *"
        (onTree [("/w/f", .file [])] "/w/."))).shell.host.tree.isDir
          (outcomeState (runLine .builtins "rmdir *"
            (onTree [("/w/f", .file [])] "/w/."))).shell.session.cwd = true := by
  have hfails : (Removal.ofArg "*").Fails
      ((onTree [("/w/f", .file [])] "/w/.").started "rmdir *" "rmdir" ["*"]).shell :=
    Or.inr (Or.inl (by decide +kernel))
  exact (failed_removal_usable_iff (by decide +kernel) (by decide +kernel) hfails).2
    (by decide +kernel)

/-- The removal of the current directory ends in an error, and then the current directory
is none. -/
def Strands (c : Console) : Prop :=
  c.shell.host.tree.isDir c.shell.session.cwd = true ∧
    Removal.currentTree.Fails (c.started "rmdir *" "rmdir" ["*"]).shell ∧
    (outcomeState (runLine .builtins "rmdir *" c)).shell.host.tree.isDir
      (outcomeState (runLine .builtins "rmdir *" c)).shell.session.cwd = false

/-- So it is when the output does not take the report, and when the current directory is
reached through a link and, beyond that, through a directory in itself. -/
theorem strands_unreported_and_linked :
    Strands ((onTree [("/w/d", .dir)] "/w/d").withLimit (some 0)) ∧
      Strands (onTree [("/w/d/e", .dir), ("/w/l", .link (Path.ofText "d/e/.."))] "/w/l/") :=
  ⟨⟨by decide +kernel, Or.inr (Or.inr (by decide +kernel)), by decide +kernel⟩,
    ⟨by decide +kernel, Or.inr (Or.inl (by decide +kernel)), by decide +kernel⟩⟩

end Console

end TreeShell
