import TreeShell.Proofs.Command.Steps
import TreeShell.Proofs.Command.Truncation

/-!
# Failures and their reports

`Command.Fails` lists what can go wrong with a command, apart from its streams, and
the text that tells so. On an output that takes everything each of these texts is
printed as a line (`says_of_fails`), most of them as all that is printed; `mkdir` goes
on after a failure.
-/

namespace TreeShell

/-- Between the first shell and the second one the text was printed as a line. -/
def Shell.Says (text : String) (s s' : Shell) : Prop :=
  ∃ before after, s'.out.written =
    s.out.written ++ before ++ Text.encode (text ++ "\n") ++ after

namespace Shell

variable {text : String} {s s' t : Shell}

theorem says_of_written (h : s'.out.written = s.out.written ++ Text.encode (text ++ "\n")) :
    Says text s s' :=
  ⟨[], [], by rw [h, List.append_nil, List.append_nil]⟩

theorem Says.of_prefix (h : Says text s s') (ht : s'.out.written <+: t.out.written) :
    Says text s t := by
  obtain ⟨before, after, hs'⟩ := h
  obtain ⟨more, hmore⟩ := ht
  exact ⟨before, after ++ more, by rw [← hmore, hs', List.append_assoc _ after more]⟩

theorem Says.after_prefix (h : Says text s' t) (hs : s.out.written <+: s'.out.written) :
    Says text s t := by
  obtain ⟨before, after, ht⟩ := h
  obtain ⟨more, hmore⟩ := hs
  exact ⟨more ++ before, after, by rw [ht, ← hmore, List.append_assoc _ more before]⟩

end Shell

namespace Command

open Shell

/-- The report of a directory that could not be removed. -/
def removalText (path : Path) : FsError → String
  | .notEmpty _ => "Directory is not empty: " ++ path.text
  | .notFound _ | .notADirectory _ => "Directory not found: " ++ path.text
  | e => (Fault.failed .removingDirectory (.file e)).text

/-- The report of a file that a task could not be done on. -/
def fileText (task : Task) (arg : String) : FsError → String
  | .notFound _ | .notAFile _ => notFoundText arg
  | e => (Fault.failed task (.file e)).text

/-- The host after directories were made one after the other, as far as they could be. -/
def hostAfter (session : Session) (h : Host) (dirs : List String) : Host :=
  dirs.foldl (fun h arg => outcomeState (Disk.createDirs (session.resolve arg) h)) h

/-- The command cannot do what it is to do, and the text says so. -/
inductive Fails (h : Host) (session : Session) : Command → String → Prop
  | noParent (hparent : session.cwd.parent? = none) :
    Fails h session (.cd .parent)
      (Fault.failed .changingDirectory (.file (.noParent session.cwd))).text
  | noHome (hhome : h.home = none) :
    Fails h session (.cd .home) (Fault.failed .changingDirectory .homeUnknown).text
  | noDirectory {arg : String} (hdir : h.tree.isDir (session.resolve arg) ≠ true) :
    Fails h session (.cd (.dir arg)) "Directory does not exist"
  | list {reverse : Bool} {e : FsError} {h' : Host}
    (herror : Disk.listDir session.cwd h = .error e h') :
    Fails h session (.ls reverse) (Fault.failed .listing (.file e)).text
  | make {before after : List String} {arg : String} {e : FsError} {h' : Host}
    (herror : Disk.createDirs (session.resolve arg) (hostAfter session h before) = .error e h') :
    Fails h session (.mkdir (before ++ arg :: after))
      (Fault.failed .creatingDirectory (.file e)).text
  | rootRefused (hparent : session.cwd.parent? = none) :
    Fails h session (.rmdir .currentTree) (Fault.failed .removingDirectory .rootRefused).text
  | removeTree {e : FsError} {h' : Host} (hparent : session.cwd.parent? ≠ none)
    (herror : Disk.removeTree session.cwd h = .error e h') :
    Fails h session (.rmdir .currentTree) (Fault.failed .removingDirectory (.file e)).text
  | removeEmptyDir {arg : String} {e : FsError} {h' : Host}
    (herror : Disk.removeEmptyDir (session.resolve arg) h = .error e h') :
    Fails h session (.rmdir (.emptyDir arg)) (removalText (session.resolve arg) e)
  | create {file : String} {e : FsError} {h' : Host}
    (herror : Disk.createFile (session.resolve file) h = .error e h') :
    Fails h session (.touch file) (Fault.failed .creatingFile (.file e)).text
  | copy {source target : String} {e : FsError} {h' : Host}
    (herror : Disk.copy (session.resolve source) (session.resolve target) h = .error e h') :
    Fails h session (.cp source target) (Fault.failed .copying (.file e)).text
  | delete {file : String} {e : FsError} {h' : Host}
    (herror : Disk.deleteFile (session.resolve file) h = .error e h') :
    Fails h session (.rm file) (fileText .removingFile file e)
  | missing {files : List String} {file : String}
    (hfile : files.find? (fun arg => !h.tree.isFile (session.resolve arg)) = some file) :
    Fails h session (.cat files) (notFoundText file)
  | read {before after : List String} {file : String} {e : FsError} {h' : Host}
    (hfiles : ∀ arg ∈ before ++ file :: after, h.tree.isFile (session.resolve arg) = true)
    (hbefore : ∀ arg ∈ before, ∃ lines, Disk.readLines (session.resolve arg) h = .ok lines h)
    (herror : Disk.readLines (session.resolve file) h = .error e h') :
    Fails h session (.cat (before ++ file :: after)) (Fault.failed .readingFile (.file e)).text
  | count {file : String} {e : FsError} {h' : Host}
    (herror : Disk.readLines (session.resolve file) h = .error e h') :
    Fails h session (.wc file) (fileText .readingFile file e)

theorem Fails.ne_redirect {h : Host} {session : Session} {command : Command} {text : String}
    (hfails : command.Fails h session text) (mode : WriteMode) (file : String) :
    command ≠ .redirect mode file := by
  rintro rfl
  cases hfails

section Says

variable {s s' : Shell} {body : ShellM Unit} {text name : String}

/-- A fault is printed. -/
theorem says_of_error {e : Fault} (h : body s = .error e s') (hout : s'.out.room? = none)
    (hwritten : s.out.written <+: s'.out.written) :
    Says e.text s (outcomeState (guarded name body s)) := by
  have hreport : report name e s' = .ok () _ :=
    printLine_of_unlimited (s := s'.noted .debug (name ++ " failed: " ++ e.text)) hout e.text
  rw [guarded_eq_handle, handle_of_error h, hreport]
  exact Says.after_prefix (says_of_written (Sink.written_write_of_unlimited _ hout)) hwritten

/-- So is what the body prints itself in the end. -/
theorem says_of_printLine (h : body s = printLine text s') (hout : s'.out.room? = none)
    (hwritten : s.out.written <+: s'.out.written) :
    Says text s (outcomeState (guarded name body s)) := by
  have hprint : body s = .ok () _ := h.trans (printLine_of_unlimited hout text)
  rw [guarded_eq_handle, handle_of_ok hprint]
  exact Says.after_prefix (says_of_written (Sink.written_write_of_unlimited _ hout)) hwritten

theorem Says.guarded (h : Says text s (outcomeState (body s))) :
    Says text s (outcomeState (guarded name body s)) := by
  apply Says.of_prefix h
  rw [guarded_eq_handle]
  cases hbody : body s with
  | ok _ t =>
    rw [handle_of_ok hbody]
    exact List.prefix_rfl
  | error e t =>
    have hreport : Truncates (comparison 0 false) (report name e) := truncates_report name e
    rw [handle_of_error hbody]
    exact (hreport.grows t).written

/-- Each directory has its line, and after it come the others. -/
theorem exists_makeDirs_cons_eq (arg : String) (rest : List String) (hout : s.out.room? = none) :
    ∃ t, makeDirs (arg :: rest) s = makeDirs rest t ∧ t.session = s.session ∧
      t.host = outcomeState (Disk.createDirs (s.session.resolve arg) s.host) ∧
      t.out.room? = none ∧ s.out.written <+: t.out.written ∧
      ∀ e h', Disk.createDirs (s.session.resolve arg) s.host = .error e h' →
        Says (Fault.failed .creatingDirectory (.file e)).text s t := by
  have hline (host : Host) (line : String) :=
    printLine_of_unlimited (s := { s with host := host }) hout line
  have hwritten (host : Host) (line : String) :
      (wrote { s with host := host } (line ++ "\n")).out.written =
        s.out.written ++ Text.encode (line ++ "\n") :=
    Sink.written_write_of_unlimited _ hout
  have hroom (host : Host) (line : String) :
      (wrote { s with host := host } (line ++ "\n")).out.room? = none :=
    unlimited_write hout _
  rw [makeDirs, bind_of_ok (resolve_eq arg s)]
  cases hmake : Disk.createDirs (s.session.resolve arg) s.host with
  | ok _ host =>
    rw [bind_of_ok (attempt_of_ok hmake)]
    refine ⟨_, bind_of_ok (hline host ("Directory created: " ++ (s.session.resolve arg).text)),
      rfl, rfl, hroom .., ⟨_, (hwritten ..).symm⟩, fun e h' h => by cases h⟩
  | error e host =>
    rw [bind_of_ok (attempt_of_error hmake)]
    refine ⟨_, bind_of_ok (hline host (Fault.failed .creatingDirectory (.file e)).text),
      rfl, rfl, hroom .., ⟨_, (hwritten ..).symm⟩, fun e' h' h => ?_⟩
    cases h
    exact says_of_written (hwritten ..)

theorem says_makeDirs {before after : List String} {arg : String} {e : FsError} {h' : Host}
    (hout : s.out.room? = none)
    (herror : Disk.createDirs (s.session.resolve arg) (hostAfter s.session s.host before) =
      .error e h') :
    Says (Fault.failed .creatingDirectory (.file e)).text s
      (outcomeState (makeDirs (before ++ arg :: after) s)) := by
  induction before generalizing s with
  | nil =>
    obtain ⟨t, heq, -, -, -, -, htext⟩ := exists_makeDirs_cons_eq arg after hout
    have hrest : Truncates (comparison 0 false) (makeDirs after) := truncates_makeDirs after
    rw [List.nil_append, heq]
    exact Says.of_prefix (htext e h' herror) (hrest.grows t).written
  | cons first before ih =>
    obtain ⟨t, heq, hsession, hhost, hroom, hwritten, -⟩ :=
      exists_makeDirs_cons_eq first (before ++ arg :: after) hout
    rw [hostAfter, List.foldl_cons, ← hhost, ← hsession] at herror
    rw [List.cons_append, heq]
    exact Says.after_prefix (ih hroom herror) hwritten

theorem says_answerRemoval {path : Path} {e : FsError} (h : body s = answerRemoval path e s')
    (hout : s'.out.room? = none) (hwritten : s.out.written <+: s'.out.written) :
    Says (removalText path e) s (outcomeState (guarded name body s)) := by
  cases e with
  | notEmpty p => exact says_of_printLine h hout hwritten
  | notFound p => exact says_of_printLine h hout hwritten
  | notADirectory p => exact says_of_printLine h hout hwritten
  | _ => exact says_of_error h hout hwritten

theorem says_answerFile {task : Task} {arg : String} {e : FsError}
    (h : body s = answerFile task arg e s') (hout : s'.out.room? = none)
    (hwritten : s.out.written <+: s'.out.written) :
    Says (fileText task arg e) s (outcomeState (guarded name body s)) := by
  cases e with
  | notFound p => exact says_of_printLine h hout hwritten
  | notAFile p => exact says_of_printLine h hout hwritten
  | _ => exact says_of_error h hout hwritten

/-- Whatever goes wrong with a command is printed. -/
theorem says_of_fails {command : Command} (h : command.Fails s.host s.session text)
    (hout : s.out.room? = none) (name : String) :
    Says text s (outcomeState (guarded name command.run s)) := by
  cases h with
  | noParent hparent => exact says_of_error (changeDir_parent_of_none hparent) hout List.prefix_rfl
  | noHome hhome => exact says_of_error (changeDir_home_of_none hhome) hout List.prefix_rfl
  | noDirectory hdir =>
    exact says_of_printLine (changeDir_dir_of_not_isDir hdir) hout List.prefix_rfl
  | list herror => exact says_of_error (list_of_error herror) hout List.prefix_rfl
  | make herror => exact Says.guarded (says_makeDirs hout herror)
  | rootRefused hparent =>
    exact says_of_error (removeDir_of_parent?_eq_none hparent) hout List.prefix_rfl
  | removeTree hparent herror =>
    obtain ⟨dir, hdir⟩ := Option.ne_none_iff_exists'.1 hparent
    exact says_of_error (removeDir_of_parent?_of_error hdir herror) hout List.prefix_rfl
  | removeEmptyDir herror =>
    exact says_answerRemoval (removeDir_emptyDir_of_error herror) hout List.prefix_rfl
  | create herror => exact says_of_error (touchFile_of_error herror) hout List.prefix_rfl
  | copy herror => exact says_of_error (copy_of_error herror) hout List.prefix_rfl
  | delete herror => exact says_answerFile (removeFile_of_error herror) hout List.prefix_rfl
  | missing hfile => exact says_of_printLine (printFiles_of_some hfile) hout List.prefix_rfl
  | read hfiles hbefore herror =>
    have hbody := printFiles_of_none (firstMissing?_eq_none hfiles)
    rw [bind_of_error (readAll_of_error hbefore herror)] at hbody
    exact says_of_error hbody hout List.prefix_rfl
  | count herror => exact says_answerFile (countFile_of_error herror) hout List.prefix_rfl

end Says

end Command

end TreeShell
