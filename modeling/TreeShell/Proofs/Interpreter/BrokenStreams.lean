import TreeShell.Proofs.Command.Failures
import TreeShell.Proofs.Interpreter.Turns

/-!
# Broken streams

A line ends with an error exactly if the output refuses a write on the way
(`isFatal_iff_refuses`), which is found out by running it on an output that takes
everything, too. There no line ends with an error, and whatever goes wrong is printed
(`says_of_mishap`). This includes a failure to read the content of a redirection: its
report is printed, and the line ends well (`says_of_misread`). So only the output can
break the session from inside a line (`fatalExactly_iff`).
-/

namespace TreeShell

namespace Console

open Command

variable {c d : Console} {line text : String}

/-- The line ends with an error. -/
def IsFatal (line : String) (c : Console) : Prop :=
  (fault? (runLine .builtins line c)).isSome = true

/-- The console with an output that has not refused a write yet. -/
def unrefused (c : Console) : Console :=
  c.withShell { c.shell with out := { c.shell.out with refused := false } }

/-- During the line a write to the output is refused. -/
def Refuses (line : String) (c : Console) : Prop :=
  (outcomeState (runLine .builtins line c.unrefused)).shell.out.refused = true

/-- The line asks for a line of content, and that ends with an error. -/
def Misreads (line : String) (c : Console) : Prop :=
  AsksContent line ∧ (fault? (readLine contentPrompt c)).isSome = true

/-- Something is wrong with the line, or goes wrong with what it asks for, and the
text says so. -/
inductive Mishap (line : String) (c : Console) : String → Prop
  | empty (hwords : Text.words line = []) : Mishap line c "Invalid command. Please try again."
  | unknown {name : String} {args : List String} (hwords : Text.words line = name :: args)
    (hname : ∀ b : Builtin, b.name ≠ name) : Mishap line c ("Unknown command: " ++ name)
  | shape {b : Builtin} {args : List String} (hwords : Text.words line = b.name :: args)
    (hargs : ¬ b.Accepts args) : Mishap line c b.usage
  | command {b : Builtin} {args : List String} {command : Command} {text : String}
    (hwords : Text.words line = b.name :: args) (hread : b.read? args = some command)
    (hfails : command.Fails (c.started line b.name args).shell.host
      (c.started line b.name args).shell.session text) : Mishap line c text
  | noContent {mode : WriteMode} {file : String} (hline : IsCommand line (.redirect mode file))
    (hreply : c.source.next.1 = .done) :
    Mishap line c ("No content read, " ++ file ++ " left unchanged")
  | write {mode : WriteMode} {file content : String} {e : IoError}
    (hline : IsCommand line (.redirect mode file))
    (hreply : c.source.next.1.line? = some content)
    (herror : c.shell.host.tree.modifyFile (c.shell.session.resolve file)
      (mode.apply (linesBytes [content])) = .error e) :
    Mishap line c
      (Fault.failed .writingFile (.file (.ofIo (c.shell.session.resolve file) e))).text

section Unlimited

/-- The console with an output that takes everything. -/
def unlimited (c : Console) : Console :=
  c.withShell { c.shell with out := { c.shell.out with room? := none, refused := false } }

theorem Mishap.unlimited (h : Mishap line c text) : Mishap line c.unlimited text := by
  cases h with
  | empty hwords => exact .empty hwords
  | unknown hwords hname => exact .unknown hwords hname
  | shape hwords hargs => exact .shape hwords hargs
  | command hwords hread hfails => exact .command hwords hread hfails
  | noContent hline hreply => exact .noContent hline hreply
  | write hline hreply herror => exact .write (c := c.unlimited) hline hreply herror

/-- A redirection goes on with the reply. -/
theorem exists_run_redirect (mode : WriteMode) (file : String) (hout : c.shell.out.room? = none) :
    ∃ d, (Command.redirect mode file).action.run c =
        onShell (guarded (Command.redirect mode file).builtin.name
          (finishRedirect mode file c.source.next.1.answer)) d ∧
      Shell.Within Eq c.shell d.shell ∧ c.shell.out.written <+: d.shell.out.written := by
  obtain ⟨d, hrun, -, hwithin, hshown⟩ :=
    exists_run_ask_of_fits (c := c) (Shell.fits_of_unlimited hout _)
  refine ⟨d, hrun _, hwithin, ?_⟩
  rw [hshown, Sink.written_write_of_unlimited _ hout]
  exact List.prefix_append _ _

/-- On an output that takes everything a line never ends with an error. -/
theorem exists_runLine_of_unlimited (line : String) (hout : c.shell.out.room? = none) :
    ∃ d, runLine .builtins line c = .ok () d := by
  rcases isCommand_or_onlyAnswers line c with ⟨command, name, args, hline, hrun⟩ | ⟨-, _, h⟩
  · rw [hrun]
    by_cases hredirect : ∃ mode file, command = .redirect mode file
    · obtain ⟨mode, file, rfl⟩ := hredirect
      obtain ⟨d, hd, hwithin, -⟩ :=
        exists_run_redirect (c := c.started line name args) mode file hout
      have htruncates (answer : Except Fault (Option String)) :
          Truncates (Shell.comparison 0 false) (finishRedirect mode file answer) :=
        truncates_finishRedirect mode file answer
      obtain ⟨s', hok, -⟩ := exists_onShell_guarded_eq_ok (htruncates _)
        (Command.redirect mode file).builtin.name (hwithin.unlimited hout)
      rw [hd]
      exact ⟨_, hok⟩
    · have htruncates : Truncates (Shell.comparison 0 false) command.run := command.truncates_run
      obtain ⟨s', hok, -⟩ := exists_onShell_guarded_eq_ok (c := c.started line name args)
        htruncates command.builtin.name hout
      rw [run_action_of_ne_redirect fun mode file h => hredirect ⟨mode, file, h⟩]
      exact ⟨_, hok⟩
  · have hok := h.outcome
    rw [if_pos (Shell.fits_of_unlimited hout _)] at hok
    exact ⟨_, hok⟩

theorem OnlyAnswers.says_answer {answer : String} {result : EStateM.Result Fault Console Unit}
    (h : OnlyAnswers line answer c result) (hout : c.shell.out.room? = none) :
    Shell.Says answer c.shell (outcomeState result).shell := by
  apply Shell.says_of_written
  rw [h.out]
  exact Sink.written_write_of_unlimited _ hout

section Redirect

variable {mode : WriteMode} {file : String}

/-- What is said when the redirection is finished was said by the line. -/
theorem says_of_finishRedirect (hline : IsCommand line (.redirect mode file))
    (hout : c.shell.out.room? = none)
    (htext : ∀ s, Shell.Within Eq (c.shell.recorded line) s →
      Shell.Says text s (outcomeState (guarded (Command.redirect mode file).builtin.name
        (finishRedirect mode file c.source.next.1.answer) s))) :
    Shell.Says text c.shell (outcomeState (runLine .builtins line c)).shell := by
  obtain ⟨b, args, hwords, hread⟩ := hline
  obtain ⟨d, hd, hwithin, hwritten⟩ :=
    exists_run_redirect (c := c.started line b.name args) mode file hout
  have hstarted : Shell.Within Eq (c.shell.recorded line) (c.started line b.name args).shell :=
    Shell.within_noted _ _ _
  rw [runLine_of_read? hwords hread, hd, shell_onShell]
  have hrecorded : Shell.Within Eq (c.shell.recorded line) d.shell :=
    trans_of (Shell.Within Eq) hstarted hwithin
  exact Shell.Says.after_prefix (htext d.shell hrecorded) hwritten

theorem says_of_noContent (hline : IsCommand line (.redirect mode file))
    (hreply : c.source.next.1 = .done) (hout : c.shell.out.room? = none) :
    Shell.Says ("No content read, " ++ file ++ " left unchanged") c.shell
      (outcomeState (runLine .builtins line c)).shell := by
  apply says_of_finishRedirect hline hout
  intro s hs
  rw [hreply]
  have hempty := Shell.printLine_of_unlimited (hs.unlimited hout) ""
  have hbody : finishRedirect mode file (.ok none) s =
      Shell.printLine ("No content read, " ++ file ++ " left unchanged")
        (s.wrote ("" ++ "\n")) := by
    rw [finishRedirect, bind_of_ok hempty]
  exact says_of_printLine hbody (Shell.unlimited_write (hs.unlimited hout) _)
    (Shell.grows_wrote s _).written

theorem says_of_write {content : String} {e : IoError}
    (hline : IsCommand line (.redirect mode file))
    (hreply : c.source.next.1.line? = some content)
    (herror : c.shell.host.tree.modifyFile (c.shell.session.resolve file)
      (mode.apply (linesBytes [content])) = .error e) (hout : c.shell.out.room? = none) :
    Shell.Says (Fault.failed .writingFile (.file (.ofIo (c.shell.session.resolve file) e))).text
      c.shell (outcomeState (runLine .builtins line c)).shell := by
  apply says_of_finishRedirect hline hout
  intro s hs
  have hanswer : c.source.next.1.answer = .ok (some content) := by
    rw [← hreply]
    cases hnext : c.source.next.1 with
    | failure text =>
      rw [hnext] at hreply
      cases hreply
    | _ => rfl
  rw [hanswer]
  have hpath : s.session.resolve file = c.shell.session.resolve file := by
    rw [hs.session]
    rfl
  have htree : s.host.tree = c.shell.host.tree := hs.host.tree.symm
  rw [← hpath, ← htree] at herror
  have hbody : finishRedirect mode file (.ok (some content)) s =
      .error (.failed .writingFile (.file (.ofIo (s.session.resolve file) e))) s := by
    rw [finishRedirect, bind_of_ok (Shell.resolve_eq file s)]
    exact bind_of_error (Shell.doing_of_error (Disk.commit_of_error herror))
  rw [← hpath]
  exact says_of_error hbody (hs.unlimited hout) List.prefix_rfl

/-- A failure to read the content is printed like any other. -/
theorem says_of_misread (hline : IsCommand line (.redirect mode file))
    (hreply : c.source.next.1 = .failure text) (hout : c.shell.out.room? = none) :
    Shell.Says text c.shell (outcomeState (runLine .builtins line c)).shell := by
  apply says_of_finishRedirect hline hout
  intro s hs
  rw [hreply]
  exact says_of_error (e := .inputFailed text) rfl (hs.unlimited hout) List.prefix_rfl

end Redirect

/-- On an output that takes everything, whatever goes wrong is printed. -/
theorem says_of_mishap (h : Mishap line c text) (hout : c.shell.out.room? = none) :
    Shell.Says text c.shell (outcomeState (runLine .builtins line c)).shell := by
  cases h with
  | empty hwords => exact (onlyAnswers_of_words_eq_nil .builtins hwords c).says_answer hout
  | unknown hwords hname =>
    have hfind := Registry.find?_builtins_eq_none fun b => (hname b).symm
    exact (onlyAnswers_of_find?_eq_none hwords hfind c).says_answer hout
  | @shape b args hwords hargs =>
    have hread : b.read? args = none := by
      rw [← Builtin.isSome_read?_iff] at hargs
      simpa using hargs
    exact (onlyAnswers_of_read?_eq_none hwords hread c).says_answer hout
  | command hwords hread hfails =>
    rw [shell_runLine hwords hread hfails.ne_redirect]
    exact says_of_fails hfails hout _
  | noContent hline hreply => exact says_of_noContent hline hreply hout
  | write hline hreply herror => exact says_of_write hline hreply herror hout

end Unlimited

section Room

variable {room : Nat}

theorem inStep_unlimited (h : c.shell.out.room? = some room) :
    InStep (c.shell.out.written.length + room) c.shell.out.refused c c.unlimited := by
  refine ⟨⟨rfl, rfl, rfl, rfl, Nat.le_add_right _ _, ?_, rfl⟩, rfl⟩
  rw [h]
  exact congrArg some (Nat.add_sub_cancel_left ..).symm

/-- On an output with a limit a line does as without one, if what it writes then fits.
Otherwise a write is refused, and the line ends with an error. -/
theorem runLine_of_room (h : c.shell.out.room? = some room) (line : String) :
    if (outcomeState (runLine .builtins line c.unlimited)).shell.out.written.length ≤
        c.shell.out.written.length + room then
      fault? (runLine .builtins line c) = none ∧
        (outcomeState (runLine .builtins line c)).shell.out.refused = c.shell.out.refused ∧
        (outcomeState (runLine .builtins line c)).shell.out.written =
          (outcomeState (runLine .builtins line c.unlimited)).shell.out.written
    else
      fault? (runLine .builtins line c) = some .outputClosed ∧
        (outcomeState (runLine .builtins line c)).shell.out.refused = true := by
  have hresults := (truncates_runLine line).results _ _ (inStep_unlimited h)
  obtain ⟨d, hd⟩ := exists_runLine_of_unlimited (c := c.unlimited) line rfl
  rw [hd] at hresults ⊢
  have hstate : outcomeState (.ok () d : EStateM.Result Fault Console Unit) = d := rfl
  generalize runLine .builtins line c = r at hresults ⊢
  cases hresults with
  | ok hstep =>
    rw [hstate, if_pos hstep.shell.fits]
    exact ⟨rfl, hstep.shell.refused, hstep.shell.written⟩
  | cut hcut =>
    rw [if_neg (Nat.not_le.2 hcut.exceeds)]
    exact ⟨rfl, hcut.refused⟩

end Room

/-- A line ends with an error if the output refuses a write on the way, and in no other
case. -/
theorem isFatal_iff_refuses (line : String) (c : Console) : IsFatal line c ↔ Refuses line c := by
  cases hroom : c.shell.out.room? with
  | none =>
    obtain ⟨d, hd⟩ := exists_runLine_of_unlimited line hroom
    have htruncates : Truncates (comparison 0 false) (runLine .builtins line) :=
      truncates_runLine line
    have hrefused := (htruncates.grows c.unrefused).refused hroom
    refine iff_of_false ?_ ?_
    · rw [IsFatal, hd]
      exact Bool.false_ne_true
    · rw [Refuses, hrefused]
      exact Bool.false_ne_true
  | some room =>
    have hline := runLine_of_room hroom line
    have hunrefused := runLine_of_room (c := c.unrefused) hroom line
    change if (outcomeState (runLine .builtins line c.unlimited)).shell.out.written.length ≤
      c.shell.out.written.length + room then _ else _ at hunrefused
    split at hline
    · next hfits =>
      rw [if_pos hfits] at hunrefused
      refine iff_of_false ?_ ?_
      · rw [IsFatal, hline.1]
        exact Bool.false_ne_true
      · rw [Refuses, hunrefused.2.1]
        exact Bool.false_ne_true
    · next hexceeds =>
      rw [if_neg hexceeds] at hunrefused
      refine iff_of_true ?_ hunrefused.2
      rw [IsFatal, hline.1]
      rfl

/-- A line that is not refused anything says what went wrong. -/
theorem says_of_not_refuses (h : Mishap line c text) (hrefuses : ¬ Refuses line c) :
    Shell.Says text c.shell (outcomeState (runLine .builtins line c)).shell := by
  cases hroom : c.shell.out.room? with
  | none => exact says_of_mishap h hroom
  | some room =>
    have hline := runLine_of_room hroom line
    rw [← isFatal_iff_refuses, IsFatal] at hrefuses
    split at hline
    · obtain ⟨before, after, htext⟩ := says_of_mishap h.unlimited rfl
      exact ⟨before, after, hline.2.2.trans htext⟩
    · rw [hline.1] at hrefuses
      exact absurd rfl hrefuses

/-- The line ends with an error exactly on a broken stream, that is if a write to the
output or the reading of the content fails. Whatever else goes wrong is printed. -/
def FatalExactly (line : String) (c : Console) : Prop :=
  (IsFatal line c ↔ Refuses line c ∨ Misreads line c) ∧
    ∀ text, Mishap line c text → ¬ Refuses line c → ¬ Misreads line c →
      ¬ IsFatal line c ∧ Shell.Says text c.shell (outcomeState (runLine .builtins line c)).shell

/-- So it is unless reading the content fails while the output takes everything, the
report of that included. -/
theorem fatalExactly_iff (line : String) (c : Console) :
    FatalExactly line c ↔ (Misreads line c → Refuses line c) := by
  have hfatal := isFatal_iff_refuses line c
  constructor
  · rintro ⟨hexactly, -⟩ hmisreads
    exact hfatal.1 (hexactly.2 (Or.inr hmisreads))
  · intro h
    refine ⟨hfatal.trans (or_iff_left_of_imp h).symm, ?_⟩
    intro text hmishap hrefuses _
    exact ⟨fun hf => hrefuses (hfatal.1 hf), says_of_not_refuses hmishap hrefuses⟩

/-- The content of a redirection cannot be read, and the line ends well. -/
theorem not_fatalExactly_failing_source :
    ¬ FatalExactly "> f"
      { onTree [("/w", .dir)] "/w" with source := { replies := [.failure "boom"] } } := by
  intro h
  have hasks : AsksContent "> f" := ⟨"f", Or.inl (by decide)⟩
  have hfatal := h.1.2 (Or.inr ⟨hasks, by decide⟩)
  obtain ⟨d, hd⟩ := exists_runLine_of_unlimited (c := { onTree [("/w", .dir)] "/w" with
    source := { replies := [.failure "boom"] } }) "> f" rfl
  rw [IsFatal, hd] at hfatal
  cases hfatal

end Console

end TreeShell
