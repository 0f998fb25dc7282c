import TreeShell.Proofs.Command.Steps
import TreeShell.Proofs.Interpreter.RootGuard
import TreeShell.Proofs.Shell.Upshot

/-!
# Commands for one file, and what is no file

`rm`, `cat` and `wc` each take a regular file, and each finds out in its own way that
an argument does not name one. `cat` asks whether there is a regular file and says
`File not found` if not. The other two try, and say so only if the failure is that
nothing was found or that what was found is no file. So they differ from `cat` exactly
where the path leads nowhere for any other reason (`missing_file_answer_iff`): it goes
through a file, its links go round in a circle, a name is too long, or it has a null
character.
-/

namespace TreeShell

namespace Disk

variable {h : Host} {path : Path} {e : FsError}

/-- There are two ways not to be a regular file: not to be found at all, and to be
something else. -/
theorem requireFile_of_not_isFile (hfile : h.tree.isFile path = false) :
    (∃ io, h.tree.find path = .error io ∧ requireFile path h = .error (.ofIo path io) h) ∨
      (∃ x, h.tree.find path = .ok x) ∧ requireFile path h = .error (.notAFile path) h := by
  cases hfind : h.tree.find path with
  | error io => exact Or.inl ⟨io, rfl, requireFile_of_error hfind⟩
  | ok x =>
    obtain ⟨a, x⟩ := x
    refine Or.inr ⟨⟨_, rfl⟩, ?_⟩
    rw [requireFile, tree_bind, bind_of_ok (liftCall_of_ok hfind)]
    cases x with
    | dir => rfl
    | link target => rfl
    | file bytes =>
      rw [Tree.isFile, hfind] at hfile
      cases hfile

theorem deleteFile_of_requireFile (hrequire : requireFile path h = .error e h) :
    deleteFile path h = .error e h :=
  bind_of_error hrequire

theorem readLines_of_requireFile (hrequire : requireFile path h = .error e h) :
    readLines path h = .error e h :=
  bind_of_error hrequire

end Disk

namespace Command

open Shell

variable {s : Shell} {arg : String} {path : Path} {task : Task} {io : IoError}

theorem answerFile_of_notFound (hkind : io.kind = .notFound) :
    answerFile task arg (.ofIo path io) = printLine (notFoundText arg) := by
  rw [FsError.ofIo, hkind]
  rfl

theorem answerFile_of_ne_notFound (hkind : io.kind ≠ .notFound) :
    answerFile task arg (.ofIo path io) = throw (.failed task (.file (.ofIo path io))) := by
  rw [FsError.ofIo]
  cases hk : io.kind with
  | notFound => exact absurd hk hkind
  | alreadyExists => rfl
  | directoryNotEmpty => rfl
  | notADirectory => rfl
  | unclassified => rfl

/-- Every report of a failed task begins with the same letter. -/
theorem head?_encode_failed (task : Task) (reason : Reason) :
    (Text.encode (Fault.failed task reason).text).head? = some 69 := by
  rw [Fault.text, String.append_assoc]
  apply Text.head?_encode_append
  cases task <;> decide

/-- No report of a failed task reads like the answer for a missing file. -/
theorem report_ne_notFoundText (task : Task) (reason : Reason) (arg : String) :
    (Fault.failed task reason).text ≠ notFoundText arg := by
  intro heq
  have hreport := head?_encode_failed task reason
  have hanswer : (Text.encode (notFoundText arg)).head? = some 70 :=
    Text.head?_encode_append (by decide) arg
  rw [heq, hanswer] at hreport
  cases hreport

end Command

namespace Console

open Command Shell

variable {c : Console} {line arg answer : String} {s : Shell} {body : ShellM Unit}

/-- A command that prints one line, or ends in a fault before it does anything, only
answers. An output that refuses the line refuses the report of this, too. -/
theorem onlyAnswers_guarded (name : String) (hs : Within Eq (c.shell.recorded line) s)
    (hout : s.out = c.shell.out)
    (hbody : body s = printLine answer s ∨ ∃ e, body s = .error e s ∧ e.text = answer) :
    OnlyAnswers line answer c (onShell (guarded name body) (c.withShell s)) := by
  rcases hbody with hbody | ⟨e, hbody, rfl⟩
  · have hwrote := trans_of (Within Eq) hs (within_wrote s (answer ++ "\n"))
    have hprint : printLine answer s = _ := print_eq (answer ++ "\n") s
    rw [hprint] at hbody
    by_cases hfits : s.out.Fits (Text.encode (answer ++ "\n"))
    · rw [if_pos hfits] at hbody
      refine onlyAnswers_onShell (s.wrote (answer ++ "\n")) ?_ hwrote ?_
      · rw [guarded_of_ok name hbody, ← hout, if_pos hfits]
      · rw [← hout]
        rfl
    · rw [if_neg hfits] at hbody
      let ended := (s.wrote (answer ++ "\n")).noted .debug
        (name ++ " failed: " ++ Fault.outputClosed.text)
      have hended : Within Eq (c.shell.recorded line) ended :=
        trans_of (Within Eq) hwrote (within_noted _ _ _)
      have hnot : ¬ ended.out.Fits (Text.encode (Fault.outputClosed.text ++ "\n")) :=
        Sink.not_fits_write hfits (by decide)
      refine onlyAnswers_onShell (ended.wrote (Fault.outputClosed.text ++ "\n")) ?_ ?_ ?_
      · rw [guarded_of_error name hbody, ← hout, if_neg hfits]
        exact (print_eq _ ended).trans (if_neg hnot)
      · exact trans_of (Within Eq) hended (within_wrote ended _)
      · rw [← hout]
        exact Sink.write_write_of_not_fits hfits _
  · let noted := s.noted .debug (name ++ " failed: " ++ e.text)
    have hnoted : Within Eq (c.shell.recorded line) noted :=
      trans_of (Within Eq) hs (within_noted s _ _)
    have hguarded : guarded name body s = printLine e.text noted := guarded_of_error name hbody
    refine onlyAnswers_onShell (noted.wrote (e.text ++ "\n")) ?_ ?_ ?_
    · rw [hguarded, ← hout]
      exact print_eq (e.text ++ "\n") noted
    · exact trans_of (Within Eq) hnoted (within_wrote noted _)
    · rw [← hout]
      rfl

/-- So it is with the command of a line, if that is no redirection. -/
theorem onlyAnswers_of_run {b : Builtin} {args : List String} (command : Command)
    (hwords : Text.words line = b.name :: args) (hread : b.read? args = some command)
    (hredirect : ∀ mode file, command ≠ .redirect mode file)
    (hrun : command.run (c.started line b.name args).shell =
        printLine answer (c.started line b.name args).shell ∨
      ∃ e, command.run (c.started line b.name args).shell =
        .error e (c.started line b.name args).shell ∧ e.text = answer) :
    OnlyAnswers line answer c (runLine .builtins line c) := by
  rw [runLine_of_read? hwords hread, run_action_of_ne_redirect hredirect]
  exact onlyAnswers_guarded _ (within_noted (c.shell.recorded line) _ _) rfl hrun

section Trying

variable {b : Builtin} {task : Task} (command : Command)
  (hwords : Text.words line = [b.name, arg]) (hread : b.read? [arg] = some command)
  (hredirect : ∀ mode file, command ≠ .redirect mode file)
  (hrun : ∀ (s : Shell) (e : FsError),
    Disk.requireFile (s.session.resolve arg) s.host = .error e s.host →
      command.run s = answerFile task arg e s)
include hwords hread hredirect hrun

/-- A command that tries to get at the file reports most failures as they are. -/
theorem onlyAnswers_report {io : IoError}
    (hfind : c.shell.host.tree.find (c.shell.session.resolve arg) = .error io)
    (hkind : io.kind ≠ .notFound) :
    OnlyAnswers line (Fault.failed task (.file (.ofIo (c.shell.session.resolve arg) io))).text c
      (runLine .builtins line c) := by
  refine onlyAnswers_of_run command hwords hread hredirect (Or.inr ⟨_, ?_, rfl⟩)
  have hbody := hrun (c.started line b.name [arg]).shell _ (Disk.requireFile_of_error hfind)
  rw [answerFile_of_ne_notFound hkind] at hbody
  exact hbody

/-- It says that the file is not found for the others. -/
theorem answer_of_trying
    (hfile : c.shell.host.tree.isFile (c.shell.session.resolve arg) = false) :
    ∃ answer, OnlyAnswers line answer c (runLine .builtins line c) ∧
      (answer = notFoundText arg ↔
        ∀ io, c.shell.host.tree.find (c.shell.session.resolve arg) = .error io →
          io.kind = .notFound) := by
  have hbody := hrun (c.started line b.name [arg]).shell
  rcases Disk.requireFile_of_not_isFile (h := (c.started line b.name [arg]).shell.host) hfile with
    ⟨io, hfind, hrequire⟩ | ⟨⟨x, hfind⟩, hrequire⟩
  · have hfind : c.shell.host.tree.find (c.shell.session.resolve arg) = .error io := hfind
    by_cases hkind : io.kind = .notFound
    · have hbody := hbody _ hrequire
      rw [answerFile_of_notFound hkind] at hbody
      refine ⟨_, onlyAnswers_of_run command hwords hread hredirect (Or.inl hbody),
        iff_of_true rfl fun io' hio' => ?_⟩
      rw [hfind] at hio'
      cases hio'
      exact hkind
    · exact ⟨_, onlyAnswers_report command hwords hread hredirect hrun hfind hkind,
        iff_of_false (report_ne_notFoundText _ _ arg) fun h => hkind (h io hfind)⟩
  · have hfind : c.shell.host.tree.find (c.shell.session.resolve arg) = .ok x := hfind
    refine ⟨_, onlyAnswers_of_run command hwords hread hredirect (Or.inl (hbody _ hrequire)),
      iff_of_true rfl fun io hio => ?_⟩
    rw [hfind] at hio
    cases hio

end Trying

/-- For an argument that leads to no regular file, each of the three commands prints
one line, and nothing else happens. The line is `File not found` with the argument
exactly if the command is `cat`, or the path leads to something else, or it leads
nowhere because something on it is missing. -/
theorem missing_file_answer_iff {b : Builtin} (hb : b = .rm ∨ b = .cat ∨ b = .wc)
    (hwords : Text.words line = [b.name, arg])
    (hfile : c.shell.host.tree.isFile (c.shell.session.resolve arg) = false) :
    ∃ answer, OnlyAnswers line answer c (runLine .builtins line c) ∧
      (answer = "File not found: " ++ arg ↔ b = .cat ∨
        ∀ io, c.shell.host.tree.find (c.shell.session.resolve arg) = .error io →
          io.kind = .notFound) := by
  rcases hb with rfl | rfl | rfl
  · obtain ⟨answer, honly, hiff⟩ := answer_of_trying (.rm arg) hwords rfl (by simp)
      (fun s e he => removeFile_of_error (Disk.deleteFile_of_requireFile he)) hfile
    exact ⟨answer, honly, hiff.trans (by simp)⟩
  · refine ⟨notFoundText arg, onlyAnswers_of_run (.cat [arg]) hwords rfl (by simp) ?_,
      iff_of_true rfl (Or.inl rfl)⟩
    have hmissing : firstMissing? (c.started line Builtin.cat.name [arg]).shell [arg] =
        some arg := by
      have hfile' : (c.started line Builtin.cat.name [arg]).shell.host.tree.isFile
          ((c.started line Builtin.cat.name [arg]).shell.session.resolve arg) = false := hfile
      simp [firstMissing?, hfile']
    exact Or.inl (printFiles_of_some hmissing)
  · obtain ⟨answer, honly, hiff⟩ := answer_of_trying (.wc arg) hwords rfl (by simp)
      (fun s e he => countFile_of_error (Disk.readLines_of_requireFile he)) hfile
    exact ⟨answer, honly, hiff.trans (by simp)⟩

/-- A session in `/w` with the file `/w/f`. -/
def besideFile : Console :=
  onTree [("/w/f", .file [120])] "/w"

theorem missing_file_answer_below_file :
    ∃ answer, OnlyAnswers "rm f/x" answer besideFile (runLine .builtins "rm f/x" besideFile) ∧
      (answer = "File not found: " ++ "f/x" ↔ Builtin.rm = .cat ∨
        ∀ io, besideFile.shell.host.tree.find (besideFile.shell.session.resolve "f/x") =
          .error io → io.kind = .notFound) :=
  missing_file_answer_iff (Or.inl rfl) (by decide) (by decide)

/-- Nothing can be in a file, and `rm` does not say that it is not found. -/
theorem reported_below_file :
    besideFile.shell.host.tree.isFile (besideFile.shell.session.resolve "f/x") = false ∧
      (outcomeState (runLine .builtins "rm f/x" besideFile)).shell.out.written =
        Text.encode "Error removing file: Not a directory: /w/f/x\n" := by
  have hfind : besideFile.shell.host.tree.find (besideFile.shell.session.resolve "f/x") =
      .error .notADirectory := by
    decide
  have hwords : Text.words "rm f/x" = [Builtin.rm.name, "f/x"] := by decide
  have honly := onlyAnswers_report (.rm "f/x") hwords rfl (by simp)
    (fun s e he => removeFile_of_error (Disk.deleteFile_of_requireFile he)) hfind (by decide)
  refine ⟨by decide, ?_⟩
  rw [honly.out]
  decide

end Console

end TreeShell
