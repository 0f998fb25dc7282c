import TreeShell.Proofs.Disk.Undoing
import TreeShell.Proofs.Interpreter.MissingFiles
import TreeShell.Proofs.Interpreter.PrintingFiles

/-!
# What was created is removed again

`rm` takes back what `touch` has created, and `rmdir` what `mkdir` has: the tree is the one
from before, and the current directory is the same (`removing_undoes_creating`). Whether
something was created is seen on the output, where the report of a failure begins with
another letter (`not_reports_of_failed`).

`mkdir` also reports a directory that was there already, and it may create more than one.
So for `mkdir` the directory above has to be there, and the one that is to be made has not.
After the removal there is nothing for the session to recover from, since the tree in which
the current directory was one is back.
-/

namespace TreeShell

/-- What an output has taken more than before begins as what was written to it. -/
theorem Sink.head?_of_written_write {k : Sink} {bytes more : List UInt8} (hmore : more ≠ [])
    (h : (k.write bytes).written = k.written ++ more) : bytes.head? = more.head? := by
  rw [Sink.write] at h
  split at h
  · rw [List.append_cancel_left h]
  · next room _ =>
    have htake : bytes.take room = more := List.append_cancel_left h
    cases room with
    | zero => exact absurd htake.symm hmore
    | succ room => rw [← htake, List.head?_take, if_neg (Nat.succ_ne_zero room)]

theorem exists_eq_ok_of_isOk {ε α : Type} {answer : Except ε α} (h : answer.isOk = true) :
    ∃ a, answer = .ok a := by
  cases answer with
  | ok a => exact ⟨a, rfl⟩
  | error e => cases h

namespace Command

open Shell

variable {s s' : Shell} {arg : String}

theorem makeDirs_singleton {outcome : Except FsError Unit}
    (h : attempt (Disk.createDirs (s.session.resolve arg)) s = .ok outcome s') :
    makeDirs [arg] s = printLine (madeLine (s.session.resolve arg) outcome) s' := by
  rw [makeDirs_cons h]
  exact congrFun bind_pure_unit s'

/-- From a directory that is there no removal leads away. -/
theorem reportRemoval_of_isDir (hcwd : s.host.tree.isDir s.session.cwd = true) (dir : Path) :
    reportRemoval dir s = printLine ("Directory removed: " ++ dir.text) s := by
  have hstays (text : String) : recoverCwd (s.wrote text) = .ok () (s.wrote text) := by
    have hnearest : nearestDir? s.host.tree s.session.cwd = some s.session.cwd := by
      rw [nearestDir?, Path.ancestors, List.find?_cons_of_pos hcwd]
    exact (recoverCwd_eq (s := s.wrote text) hnearest).trans (if_pos rfl)
  have hprint := print_eq ("Directory removed: " ++ dir.text ++ "\n") s
  rw [reportRemoval, printLine]
  split at hprint
  · rw [bind_of_ok hprint, hstays, hprint]
  · rw [bind_of_error hprint, hprint]

end Command

namespace Console

open Command Shell

/-- The console with another tree. -/
def withTree (c : Console) (t : Tree) : Console :=
  c.withShell { c.shell with host := { c.shell.host with tree := t } }

/-- The line has the report printed, and nothing else. -/
def Reports (c : Console) (line report : String) : Prop :=
  (outcomeState (runLine .builtins line c)).shell.out.written =
    c.shell.out.written ++ Text.encode (report ++ "\n")

/-- A line that is entered after others takes them back: it prints the report and does nothing
else but to bring back the tree from before all of them, and the current directory is the one
from before them. -/
structure TakesBack (c : Console) (before : List String) (line report : String) : Prop where
  answers : OnlyAnswers line report ((runLines .builtins c before).withTree c.shell.host.tree)
    (runLine .builtins line (runLines .builtins c before))
  cwd : (runLines .builtins c (before ++ [line])).shell.session.cwd = c.shell.session.cwd

variable {c c' : Console} {line answer report arg : String} {t u : Tree} {path above : Path}

/-- A command that does its part and then prints a line only answers, as seen from where its
part is done. -/
theorem onlyAnswers_of_run_eq {b : Builtin} {args : List String} {s s' : Shell}
    (command : Command) (hwords : Text.words line = b.name :: args)
    (hread : b.read? args = some command)
    (hredirect : ∀ mode file, command ≠ .redirect mode file)
    (hrun : command.run (c.started line b.name args).shell = printLine answer s')
    (hs : Within Eq (s.recorded line) s') (hout : s'.out = s.out) :
    OnlyAnswers line answer (c.withShell s) (runLine .builtins line c) := by
  have hguarded : guarded command.builtin.name command.run (c.started line b.name args).shell =
      guarded command.builtin.name (printLine answer) s' := by
    rw [guarded, guarded, hrun]
  have hline : runLine .builtins line c = onShell
      (guarded command.builtin.name (printLine answer)) ((c.withShell s).withShell s') := by
    rw [runLine_of_read? hwords hread, run_action_of_ne_redirect hredirect]
    simp only [onShell, hguarded]
    rfl
  rw [hline]
  exact onlyAnswers_guarded _ hs hout (Or.inl rfl)

theorem onlyAnswers_withTree {b : Builtin} {args : List String} (command : Command)
    (hwords : Text.words line = b.name :: args) (hread : b.read? args = some command)
    (hredirect : ∀ mode file, command ≠ .redirect mode file)
    (hrun : command.run (c.started line b.name args).shell =
      printLine answer ((c.withTree u).started line b.name args).shell) :
    OnlyAnswers line answer (c.withTree u) (runLine .builtins line c) :=
  onlyAnswers_of_run_eq command hwords hread hredirect hrun (within_noted _ _ _) rfl

theorem OnlyAnswers.cwd_eq {result : EStateM.Result Fault Console Unit}
    (h : OnlyAnswers line answer c result) :
    (outcomeState result).shell.session.cwd = c.shell.session.cwd := by
  rw [h.session]
  rfl

/-- What is answered is reported. -/
theorem OnlyAnswers.reports (h : OnlyAnswers line report c' (runLine .builtins line c))
    (hout : c'.shell.out = c.shell.out) (hfits : c.shell.out.Fits (Text.encode (report ++ "\n"))) :
    c.Reports line report := by
  rw [Reports, h.out, hout, Sink.written_write_of_fits hfits]

/-- The report of a failure is no other report. -/
theorem not_reports_of_failed {task : Task} {reason : Reason} {b : UInt8}
    (hfailed : OnlyAnswers line (Fault.failed task reason).text c' (runLine .builtins line c))
    (hout : c'.shell.out = c.shell.out) (hhead : (Text.encode report).head? = some b)
    (hb : b ≠ 69) : ¬ c.Reports line report := by
  intro hreport
  rw [Reports, hfailed.out, hout] at hreport
  have hreported := Text.head?_encode_append hhead "\n"
  have hsame := Sink.head?_of_written_write
    (List.ne_nil_of_mem (List.mem_of_mem_head? hreported)) hreport
  rw [hreported, Text.head?_encode_append (head?_encode_failed task reason) "\n"] at hsame
  exact hb (Option.some.inj hsame).symm

section File

theorem onlyAnswers_touch_of_createNew (hwords : Text.words line = ["touch", arg])
    (hcall : c.shell.host.tree.createNew (c.shell.session.resolve arg) = .ok u) :
    OnlyAnswers line ("File created: " ++ (c.shell.session.resolve arg).text) (c.withTree u)
      (runLine .builtins line c) := by
  have hwords : Text.words line = Builtin.touch.name :: [arg] := hwords
  have hok : Disk.createFile (c.shell.session.resolve arg)
      (c.started line Builtin.touch.name [arg]).shell.host = .ok () _ :=
    Disk.commit_of_ok hcall
  exact onlyAnswers_withTree (.touch arg) hwords rfl (by simp) (touchFile_of_ok hok)

/-- A `touch` that reports a file has made it. -/
theorem exists_createNew_of_reports (hwords : Text.words line = ["touch", arg])
    (hreport : c.Reports line ("File created: " ++ (c.shell.session.resolve arg).text)) :
    ∃ u, c.shell.host.tree.createNew (c.shell.session.resolve arg) = .ok u := by
  have hwords : Text.words line = Builtin.touch.name :: [arg] := hwords
  cases hcall : c.shell.host.tree.createNew (c.shell.session.resolve arg) with
  | error e =>
    have herror : Disk.createFile (c.shell.session.resolve arg)
        (c.started line Builtin.touch.name [arg]).shell.host = .error _ _ :=
      Disk.commit_of_error hcall
    have hfailed := onlyAnswers_of_run (.touch arg) hwords rfl (by simp)
      (Or.inr ⟨_, touchFile_of_error herror, rfl⟩)
    have hhead := Text.head?_encode_append (b := 70) (s := "File created: ") (by decide)
      (c.shell.session.resolve arg).text
    exact absurd hreport (not_reports_of_failed hfailed rfl hhead (by decide))
  | ok u => exact ⟨u, rfl⟩

/-- There is nothing to print of a file that was made. -/
theorem onlyPrints_cat_of_createNew (hwords : Text.words line = ["cat", arg])
    (hmade : t.createNew (c.shell.session.resolve arg) = .ok c.shell.host.tree) :
    OnlyPrints line "" c (runLine .builtins line c) := by
  obtain ⟨a, hfind⟩ := Tree.find_of_createNew hmade
  have htext : c.shell.textOf? arg = some "" := Shell.textOf?_of_find hfind
  have hshown := @FilesShown.files c.shell [arg] [""] (by simp [htext])
  exact onlyPrints_cat hwords (Or.inl rfl) hshown

/-- `rm` removes a file that was made. -/
theorem onlyAnswers_rm_of_createNew (hwords : Text.words line = ["rm", arg])
    (hmade : t.createNew (c.shell.session.resolve arg) = .ok c.shell.host.tree) :
    OnlyAnswers line ("File removed: " ++ (c.shell.session.resolve arg).text) (c.withTree t)
      (runLine .builtins line c) := by
  have hwords : Text.words line = Builtin.rm.name :: [arg] := hwords
  have hok : Disk.deleteFile (c.shell.session.resolve arg)
      (c.started line Builtin.rm.name [arg]).shell.host = .ok () _ :=
    Disk.deleteFile_of_createNew hmade
  exact onlyAnswers_withTree (.rm arg) hwords rfl (by simp) (removeFile_of_ok hok)

end File

section Directory

theorem onlyAnswers_mkdir_of_mkdir (hwords : Text.words line = ["mkdir", arg])
    (hcall : c.shell.host.tree.mkdir (c.shell.session.resolve arg) = .ok u) :
    OnlyAnswers line ("Directory created: " ++ (c.shell.session.resolve arg).text)
      (c.withTree u) (runLine .builtins line c) := by
  have hwords : Text.words line = Builtin.mkdir.name :: [arg] := hwords
  let s := (c.started line Builtin.mkdir.name [arg]).shell
  have hok : Disk.createDirs (c.shell.session.resolve arg) s.host = .ok () _ :=
    Disk.createDirs_of_mkdir hcall
  have hrun := makeDirs_singleton (s := s) (attempt_of_ok hok)
  exact onlyAnswers_withTree (.mkdir [arg]) hwords rfl (by simp) hrun

/-- A `mkdir` that reports a directory has made it with one call, if that directory was not
there and the one above it was. -/
theorem exists_mkdir_of_reports (hwords : Text.words line = ["mkdir", arg])
    (hparent : (c.shell.session.resolve arg).parent? = some above)
    (habove : c.shell.host.tree.isDir above = true)
    (hnew : c.shell.host.tree.isDir (c.shell.session.resolve arg) = false)
    (hreport : c.Reports line ("Directory created: " ++ (c.shell.session.resolve arg).text)) :
    ∃ u, c.shell.host.tree.mkdir (c.shell.session.resolve arg) = .ok u := by
  have hwords : Text.words line = Builtin.mkdir.name :: [arg] := hwords
  let s := (c.started line Builtin.mkdir.name [arg]).shell
  cases hcall : Disk.createDirs (c.shell.session.resolve arg) s.host with
  | error e host =>
    have hrun := makeDirs_singleton (s := s) (attempt_of_error hcall)
    have hfailed := onlyAnswers_of_run_eq (s := { c.shell with host := host }) (.mkdir [arg])
      hwords rfl (by simp) hrun (refl_of (Within Eq) _) rfl
    have hhead := Text.head?_encode_append (b := 68) (s := "Directory created: ") (by decide)
      (c.shell.session.resolve arg).text
    exact absurd hreport (not_reports_of_failed hfailed rfl hhead (by decide))
  | ok _ host =>
    obtain ⟨u, hu, -⟩ := Disk.mkdir_of_createDirs (h := s.host) hparent habove hnew hcall
    exact ⟨u, hu⟩

/-- `rmdir` removes a directory that was made. -/
theorem onlyAnswers_rmdir_of_mkdir (hwords : Text.words line = ["rmdir", arg])
    (hstar : arg ≠ "*") (hcwd : t.isDir c.shell.session.cwd = true)
    (hmade : t.mkdir (c.shell.session.resolve arg) = .ok c.shell.host.tree) :
    OnlyAnswers line ("Directory removed: " ++ (c.shell.session.resolve arg).text) (c.withTree t)
      (runLine .builtins line c) := by
  have hwords : Text.words line = Builtin.rmdir.name :: [arg] := hwords
  have hread : Builtin.rmdir.read? [arg] = some (.rmdir (.emptyDir arg)) := by
    change some (Command.rmdir (Removal.ofArg arg)) = _
    rw [Removal.ofArg, if_neg hstar]
  have hok : Disk.removeEmptyDir (c.shell.session.resolve arg)
      (c.started line Builtin.rmdir.name [arg]).shell.host = .ok () _ :=
    Disk.removeEmptyDir_of_mkdir hmade
  have hrun := removeDir_emptyDir_of_ok (s := (c.started line Builtin.rmdir.name [arg]).shell) hok
  refine onlyAnswers_withTree _ hwords hread (by simp) (hrun.trans ?_)
  exact reportRemoval_of_isDir hcwd _

end Directory

section TakingBack

variable {before : List String} {touch cat rm mkdir rmdir : String}

theorem takesBack_of_onlyAnswers
    (hcwd : (runLines .builtins c before).shell.session.cwd = c.shell.session.cwd)
    (h : OnlyAnswers line report ((runLines .builtins c before).withTree c.shell.host.tree)
      (runLine .builtins line (runLines .builtins c before))) :
    c.TakesBack before line report := by
  refine ⟨h, ?_⟩
  rw [runLines_concat, h.cwd_eq]
  exact hcwd

/-- `rm` does so whenever the tree is the one that `touch` has left, and the current directory
is the same. -/
theorem takesBack_rm (hrm : Text.words rm = ["rm", arg])
    (hcwd : (runLines .builtins c before).shell.session.cwd = c.shell.session.cwd)
    (hmade : c.shell.host.tree.createNew (c.shell.session.resolve arg) =
      .ok (runLines .builtins c before).shell.host.tree) :
    c.TakesBack before rm ("File removed: " ++ (c.shell.session.resolve arg).text) := by
  rw [← Session.resolve_of_cwd hcwd] at hmade ⊢
  exact takesBack_of_onlyAnswers hcwd (onlyAnswers_rm_of_createNew hrm hmade)

/-- `rmdir` does so if the current directory was there before. -/
theorem takesBack_rmdir (hrmdir : Text.words rmdir = ["rmdir", arg]) (hstar : arg ≠ "*")
    (hdir : c.shell.host.tree.isDir c.shell.session.cwd = true)
    (hcwd : (runLines .builtins c before).shell.session.cwd = c.shell.session.cwd)
    (hmade : c.shell.host.tree.mkdir (c.shell.session.resolve arg) =
      .ok (runLines .builtins c before).shell.host.tree) :
    c.TakesBack before rmdir ("Directory removed: " ++ (c.shell.session.resolve arg).text) := by
  rw [← Session.resolve_of_cwd hcwd] at hmade ⊢
  rw [← hcwd] at hdir
  exact takesBack_of_onlyAnswers hcwd (onlyAnswers_rmdir_of_mkdir hrmdir hstar hdir hmade)

theorem takesBack_touch (hpath : c.shell.session.resolve arg = path)
    (htouch : Text.words touch = ["touch", arg]) (hcat : Text.words cat = ["cat", arg])
    (hrm : Text.words rm = ["rm", arg])
    (hreport : c.Reports touch ("File created: " ++ path.text)) :
    OnlyPrints cat "" (runLines .builtins c [touch])
        (runLine .builtins cat (runLines .builtins c [touch])) ∧
      c.TakesBack [touch] rm ("File removed: " ++ path.text) ∧
      c.TakesBack [touch, cat] rm ("File removed: " ++ path.text) := by
  subst hpath
  obtain ⟨u, hu⟩ := exists_createNew_of_reports htouch hreport
  have htouched := onlyAnswers_touch_of_createNew htouch hu
  obtain rfl : (runLines .builtins c [touch]).shell.host.tree = u := htouched.tree
  have hcwd : (runLines .builtins c [touch]).shell.session.cwd = c.shell.session.cwd :=
    htouched.cwd_eq
  have hprints : OnlyPrints cat "" (runLines .builtins c [touch]) _ :=
    onlyPrints_cat_of_createNew hcat (by rw [Session.resolve_of_cwd hcwd, hu])
  -- `cat` has changed neither the tree nor the current directory
  have hcwd' : (runLines .builtins c ([touch] ++ [cat])).shell.session.cwd =
      c.shell.session.cwd := by
    rw [runLines_concat, hprints.session]
    exact hcwd
  have hu' : c.shell.host.tree.createNew (c.shell.session.resolve arg) =
      .ok (runLines .builtins c ([touch] ++ [cat])).shell.host.tree := by
    rw [runLines_concat, hprints.tree]
    exact hu
  exact ⟨hprints, takesBack_rm hrm hcwd hu, takesBack_rm hrm hcwd' hu'⟩

theorem takesBack_mkdir (hdir : c.shell.host.tree.isDir c.shell.session.cwd = true)
    (hstar : arg ≠ "*") (hpath : c.shell.session.resolve arg = path)
    (hparent : path.parent? = some above) (habove : c.shell.host.tree.isDir above = true)
    (hnew : c.shell.host.tree.isDir path = false) (hmkdir : Text.words mkdir = ["mkdir", arg])
    (hrmdir : Text.words rmdir = ["rmdir", arg])
    (hreport : c.Reports mkdir ("Directory created: " ++ path.text)) :
    c.TakesBack [mkdir] rmdir ("Directory removed: " ++ path.text) := by
  subst hpath
  obtain ⟨u, hu⟩ := exists_mkdir_of_reports hmkdir hparent habove hnew hreport
  have hmade := onlyAnswers_mkdir_of_mkdir hmkdir hu
  obtain rfl : (runLines .builtins c [mkdir]).shell.host.tree = u := hmade.tree
  have hcwd : (runLines .builtins c [mkdir]).shell.session.cwd = c.shell.session.cwd :=
    hmade.cwd_eq
  exact takesBack_rmdir hrmdir hstar hdir hcwd hu

/-- If `touch` reports a file, `cat` prints no line for it, and `rm` takes it back, whether
`cat` has been entered in between or not. If `mkdir` reports a directory, `rmdir` takes it
back, where the current directory is one, the directory above is there, and the argument,
which is no star, does not lead to a directory yet. -/
theorem removing_undoes_creating
    (hcwd : c.shell.host.tree.isDir c.shell.session.cwd = true) (hstar : arg ≠ "*")
    (hpath : c.shell.session.resolve arg = path) (hparent : path.parent? = some above)
    (habove : c.shell.host.tree.isDir above = true) (hnew : c.shell.host.tree.isDir path = false)
    (htouch : Text.words touch = ["touch", arg]) (hcat : Text.words cat = ["cat", arg])
    (hrm : Text.words rm = ["rm", arg]) (hmkdir : Text.words mkdir = ["mkdir", arg])
    (hrmdir : Text.words rmdir = ["rmdir", arg]) :
    (c.Reports touch ("File created: " ++ path.text) →
      OnlyPrints cat "" (runLines .builtins c [touch])
          (runLine .builtins cat (runLines .builtins c [touch])) ∧
        c.TakesBack [touch] rm ("File removed: " ++ path.text) ∧
        c.TakesBack [touch, cat] rm ("File removed: " ++ path.text)) ∧
    (c.Reports mkdir ("Directory created: " ++ path.text) →
      c.TakesBack [mkdir] rmdir ("Directory removed: " ++ path.text)) :=
  ⟨takesBack_touch hpath htouch hcat hrm,
    takesBack_mkdir hcwd hstar hpath hparent habove hnew hmkdir hrmdir⟩

end TakingBack

/-- A session in `/l`, which is a link to the root. -/
def behindLink : Console :=
  onTree [("/l", .link Path.root)] "/l"

theorem removing_undoes_creating_behindLink :
    behindLink.TakesBack ["touch x", "cat x"] "rm x" "File removed: /l/x" ∧
      behindLink.TakesBack ["mkdir x"] "rmdir x" "Directory removed: /l/x" := by
  have hfits (bytes : List UInt8) : behindLink.shell.out.Fits bytes :=
    fits_of_unlimited rfl bytes
  have htouch : Text.words "touch x" = ["touch", "x"] := by decide
  have hcat : Text.words "cat x" = ["cat", "x"] := by decide
  have hrm : Text.words "rm x" = ["rm", "x"] := by decide
  have hmkdir : Text.words "mkdir x" = ["mkdir", "x"] := by decide
  have hrmdir : Text.words "rmdir x" = ["rmdir", "x"] := by decide
  have hpath : behindLink.shell.session.resolve "x" = Path.ofText "/l/x" := by decide
  have hparent : (Path.ofText "/l/x").parent? = some (Path.ofText "/l") := by decide
  obtain ⟨u, hfile⟩ : ∃ u, behindLink.shell.host.tree.createNew (Path.ofText "/l/x") = .ok u :=
    exists_eq_ok_of_isOk (by decide)
  obtain ⟨v, hdir⟩ : ∃ v, behindLink.shell.host.tree.mkdir (Path.ofText "/l/x") = .ok v :=
    exists_eq_ok_of_isOk (by decide)
  have htouched : behindLink.Reports "touch x" _ :=
    (onlyAnswers_touch_of_createNew htouch hfile).reports rfl (hfits _)
  have hmade : behindLink.Reports "mkdir x" _ :=
    (onlyAnswers_mkdir_of_mkdir hmkdir hdir).reports rfl (hfits _)
  obtain ⟨hfiles, hdirs⟩ := removing_undoes_creating (by decide) (by decide) hpath hparent
    (by decide) (by decide) htouch hcat hrm hmkdir hrmdir
  exact ⟨(hfiles htouched).2.2, hdirs hmade⟩

end Console

end TreeShell
