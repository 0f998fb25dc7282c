import TreeShell.Proofs.Disk.ReadBack
import TreeShell.Proofs.Shell.Frame

/-!
# Commands case by case

What a command comes to when it is known what the session, the host or a file
operation answers it. A failed operation ends most commands with a fault; a few
print a line of their own for some failures.
-/

namespace TreeShell

@[simp] theorem Removal.ofArg_star : Removal.ofArg "*" = .currentTree := rfl

namespace Shell

/-- The shell after going to a directory. -/
def moved (s : Shell) (dir : Path) : Shell :=
  let noted := s.noted .info ("current directory: " ++ s.session.cwd.text ++ " -> " ++ dir.text)
  { noted with session := { s.session with cwd := dir } }

theorem setCwd_eq (dir : Path) (s : Shell) : setCwd dir s = .ok () (s.moved dir) :=
  rfl

end Shell

namespace Command

open Shell

variable {s : Shell} {dir : Path} {name arg : String} {e : FsError} {h : Host}

theorem guarded_of_ok {body : ShellM Unit} {s' : Shell} (name : String)
    (h : body s = .ok () s') : guarded name body s = .ok () s' := by
  rw [guarded, h]

theorem guarded_of_error {body : ShellM Unit} {e : Fault} {s' : Shell} (name : String)
    (h : body s = .error e s') : guarded name body s =
      printLine e.text (s'.noted .debug (name ++ " failed: " ++ e.text)) := by
  rw [guarded, h]
  rfl

theorem outcomeState_guarded_of_ok {body : ShellM Unit} {s' : Shell} (h : body s = .ok () s') :
    outcomeState (guarded name body s) = s' := by
  rw [guarded, h]
  rfl

theorem outcomeState_guarded_of_error {name : String} {body : ShellM Unit} {e : Fault} {s' : Shell}
    (h : body s = .error e s') : outcomeState (guarded name body s) =
      (s'.noted .debug (name ++ " failed: " ++ e.text)).wrote (e.text ++ "\n") := by
  rw [guarded_of_error name h]
  exact outcomeState_printLine e.text _

section ChangeDir

theorem changeDir_parent_of_some (h : s.session.cwd.parent? = some dir) :
    changeDir .parent s = .ok () (s.moved dir) := by
  rw [changeDir, bind_of_ok (cwd_eq s), h]
  exact setCwd_eq dir s

theorem changeDir_parent_of_none (h : s.session.cwd.parent? = none) :
    changeDir .parent s =
      .error (.failed .changingDirectory (.file (.noParent s.session.cwd))) s := by
  rw [changeDir, bind_of_ok (cwd_eq s), h]
  rfl

theorem changeDir_home_of_some (h : s.host.home = some dir) :
    changeDir .home s = .ok () (s.moved dir) := by
  rw [changeDir, get_bind, h]
  exact setCwd_eq dir s

theorem changeDir_home_of_none (h : s.host.home = none) :
    changeDir .home s = .error (.failed .changingDirectory .homeUnknown) s := by
  rw [changeDir, get_bind, h]
  rfl

theorem changeDir_dir_of_isDir {arg : String}
    (h : s.host.tree.isDir (s.session.resolve arg) = true) :
    changeDir (.dir arg) s = .ok () (s.moved (s.session.resolve arg)) := by
  rw [changeDir, bind_of_ok (resolve_eq arg s), get_bind, if_pos h]
  exact setCwd_eq _ s

theorem changeDir_dir_of_not_isDir {arg : String}
    (h : s.host.tree.isDir (s.session.resolve arg) ≠ true) :
    changeDir (.dir arg) s = printLine "Directory does not exist" s := by
  rw [changeDir, bind_of_ok (resolve_eq arg s), get_bind, if_neg h]

end ChangeDir

section RemoveDir

theorem removeDir_of_parent?_eq_none (h : s.session.cwd.parent? = none) :
    removeDir .currentTree s = .error (.failed .removingDirectory .rootRefused) s := by
  rw [removeDir, bind_of_ok (cwd_eq s), h]
  rfl

theorem removeDir_of_parent? {p : Path} (h : s.session.cwd.parent? = some p) :
    removeDir .currentTree s = (do
      doing .removingDirectory (Disk.removeTree s.session.cwd)
      reportRemoval s.session.cwd : ShellM Unit) s := by
  rw [removeDir, bind_of_ok (cwd_eq s), h]
  rfl

theorem removeDir_of_parent?_of_error (hparent : s.session.cwd.parent? = some dir)
    (herror : Disk.removeTree s.session.cwd s.host = .error e h) :
    removeDir .currentTree s =
      .error (.failed .removingDirectory (.file e)) { s with host := h } := by
  rw [removeDir_of_parent? hparent, bind_of_error (doing_of_error herror)]

/-- What becomes of a failure to remove an empty directory. -/
def answerRemoval (path : Path) : FsError → ShellM Unit
  | .notEmpty _ => printLine ("Directory is not empty: " ++ path.text)
  | .notFound _ | .notADirectory _ => printLine ("Directory not found: " ++ path.text)
  | e => throw (.failed .removingDirectory (.file e))

/-- Whatever it is, it changes the log and the output at most. -/
theorem moves_answerRemoval (path : Path) (e : FsError) :
    Moves (Within Eq) (answerRemoval path e) := by
  cases e with
  | notEmpty _ => exact moves_printLine _
  | notFound _ => exact moves_printLine _
  | notADirectory _ => exact moves_printLine _
  | _ => exact moves_throw _

theorem removeDir_emptyDir_of_error
    (herror : Disk.removeEmptyDir (s.session.resolve arg) s.host = .error e h) :
    removeDir (.emptyDir arg) s =
      answerRemoval (s.session.resolve arg) e { s with host := h } := by
  rw [removeDir, bind_of_ok (resolve_eq arg s), bind_of_ok (attempt_of_error herror)]
  cases e <;> rfl

theorem removeDir_emptyDir_of_ok
    (hok : Disk.removeEmptyDir (s.session.resolve arg) s.host = .ok () h) :
    removeDir (.emptyDir arg) s =
      reportRemoval (s.session.resolve arg) { s with host := h } := by
  rw [removeDir, bind_of_ok (resolve_eq arg s), bind_of_ok (attempt_of_ok hok)]

end RemoveDir

theorem list_of_error {reverse : Bool} (herror : Disk.listDir s.session.cwd s.host = .error e h) :
    list reverse s = .error (.failed .listing (.file e)) { s with host := h } := by
  rw [list, bind_of_ok (cwd_eq s)]
  exact bind_of_error (doing_of_error herror)

theorem touchFile_of_ok (hok : Disk.createFile (s.session.resolve arg) s.host = .ok () h) :
    touchFile arg s =
      printLine ("File created: " ++ (s.session.resolve arg).text) { s with host := h } := by
  rw [touchFile, bind_of_ok (resolve_eq arg s), bind_of_ok (doing_of_ok hok)]

theorem touchFile_of_error
    (herror : Disk.createFile (s.session.resolve arg) s.host = .error e h) :
    touchFile arg s = .error (.failed .creatingFile (.file e)) { s with host := h } := by
  rw [touchFile, bind_of_ok (resolve_eq arg s)]
  exact bind_of_error (doing_of_error herror)

theorem copy_of_error {source target : String}
    (herror : Disk.copy (s.session.resolve source) (s.session.resolve target) s.host =
      .error e h) :
    copy source target s = .error (.failed .copying (.file e)) { s with host := h } := by
  rw [copy, bind_of_ok (resolve_eq source s), bind_of_ok (resolve_eq target s)]
  exact bind_of_error (doing_of_error herror)

/-- What becomes of a failure to delete or to read a file. -/
def answerFile (task : Task) (arg : String) : FsError → ShellM Unit
  | .notFound _ | .notAFile _ => printLine (notFoundText arg)
  | e => throw (.failed task (.file e))

theorem removeFile_of_ok (hok : Disk.deleteFile (s.session.resolve arg) s.host = .ok () h) :
    removeFile arg s =
      printLine ("File removed: " ++ (s.session.resolve arg).text) { s with host := h } := by
  rw [removeFile, bind_of_ok (resolve_eq arg s), bind_of_ok (attempt_of_ok hok)]

theorem removeFile_of_error
    (herror : Disk.deleteFile (s.session.resolve arg) s.host = .error e h) :
    removeFile arg s = answerFile .removingFile arg e { s with host := h } := by
  rw [removeFile, bind_of_ok (resolve_eq arg s), bind_of_ok (attempt_of_error herror)]
  cases e <;> rfl

theorem countFile_of_error
    (herror : Disk.readLines (s.session.resolve arg) s.host = .error e h) :
    countFile arg s = answerFile .readingFile arg e { s with host := h } := by
  rw [countFile, bind_of_ok (resolve_eq arg s), bind_of_ok (attempt_of_error herror)]
  cases e <;> rfl

theorem firstMissing?_eq_none {args : List String}
    (h : ∀ file ∈ args, s.host.tree.isFile (s.session.resolve file) = true) :
    firstMissing? s args = none := by
  rw [firstMissing?, List.find?_eq_none]
  intro file hfile
  simp [h file hfile]

theorem printFiles_of_some {args : List String} (h : firstMissing? s args = some arg) :
    printFiles args s = printLine (notFoundText arg) s := by
  rw [printFiles, get_bind, h]

theorem printFiles_of_none {args : List String} (h : firstMissing? s args = none) :
    printFiles args s = (readAll args >>= printLines) s := by
  rw [printFiles, get_bind, h]

theorem printFiles_of_readLines {lines : List String}
    (hread : Disk.readLines (s.session.resolve arg) s.host = .ok lines h) :
    printFiles [arg] s = printLines lines s := by
  obtain ⟨a, bytes, -, hfind, -, -, rfl⟩ := Disk.readLines_eq_ok hread
  have hfile : s.host.tree.isFile (s.session.resolve arg) = true :=
    Tree.isFile_iff_find.2 ⟨a, bytes, hfind⟩
  have hall : readAll [arg] s = .ok lines s := by
    rw [readAll, bind_of_ok (resolve_eq arg s), bind_of_ok (doing_of_ok hread)]
    simp only [readAll, pure_bind, List.append_nil]
    rfl
  rw [printFiles_of_none (firstMissing?_eq_none (by simpa using hfile)), bind_of_ok hall]

/-- The first file that cannot be read ends the reading. -/
theorem readAll_of_error {before after : List String}
    (hbefore : ∀ file ∈ before, ∃ lines,
      Disk.readLines (s.session.resolve file) s.host = .ok lines s.host)
    (herror : Disk.readLines (s.session.resolve arg) s.host = .error e h) :
    readAll (before ++ arg :: after) s =
      .error (.failed .readingFile (.file e)) { s with host := h } := by
  induction before with
  | nil =>
    rw [List.nil_append, readAll, bind_of_ok (resolve_eq arg s)]
    exact bind_of_error (doing_of_error herror)
  | cons first before ih =>
    obtain ⟨⟨lines, hlines⟩, hrest⟩ := List.forall_mem_cons.1 hbefore
    rw [List.cons_append, readAll, bind_of_ok (resolve_eq first s), bind_of_ok (doing_of_ok hlines)]
    exact bind_of_error (ih hrest)

end Command

end TreeShell
