import TreeShell.Proofs.Interpreter.Lines

/-!
# What lines leave alone

A preorder of shells that holds of every change of the log and the output, and of
the command that a line spells, holds of the line (`related_runLine`). If it holds of
every command it holds of any lines one after the other (`related_runLines`). A case
of it: no line makes a link, so a tree without links stays one (`linkless_runLines`).
-/

namespace TreeShell

namespace Console

open Shell

variable {c : Console} {line : String}

/-- Asking for a line changes the source, the log and the output only. -/
theorem within_readLine (prompt : String) (c : Console) :
    Shell.Within Eq c.shell (outcomeState (readLine prompt c)).shell := by
  have hshow (c : Console) :
      Shell.Within Eq c.shell (outcomeState (showPrompt prompt c)).shell := by
    unfold showPrompt
    split
    · rw [shell_onShell]
      exact Shell.moves_print prompt c.shell
    · exact refl_of (Shell.Within Eq) _
  have htake (c : Console) : Shell.Within Eq c.shell (outcomeState (takeReply c)).shell := by
    unfold takeReply
    split
    · exact refl_of (Shell.Within Eq) _
    · rw [shell_onShell]
      exact moves_bind (Shell.moves_note _ _) (fun _ => moves_pure _) c.shell
    · exact refl_of (Shell.Within Eq) _
    · exact refl_of (Shell.Within Eq) _
  have hfirst := hshow { c with source := c.source.ask prompt }
  unfold readLine
  split
  · next d hd =>
    rw [hd] at hfirst
    exact trans_of (Shell.Within Eq) hfirst (htake d)
  · next e d hd =>
    rw [hd] at hfirst
    exact hfirst

theorem run_ask_of_ok {prompt : String} {next : Except Fault (Option String) → Action}
    {answer : Option String} {d : Console} (h : readLine prompt c = .ok answer d) :
    (Action.ask prompt next).run c = (next (.ok answer)).run d := by
  simp only [Action.run, h]

theorem run_ask_of_error {prompt : String} {next : Except Fault (Option String) → Action}
    {e : Fault} {d : Console} (h : readLine prompt c = .error e d) :
    (Action.ask prompt next).run c = (next (.error e)).run d := by
  simp only [Action.run, h]

/-- An action that asks goes on with some answer. -/
theorem exists_run_ask (prompt : String) (c : Console) :
    ∃ answer d, (∀ next, (Action.ask prompt next).run c = (next answer).run d) ∧
      Shell.Within Eq c.shell d.shell := by
  have hwithin := within_readLine prompt c
  cases hread : readLine prompt c with
  | ok answer d =>
    rw [hread] at hwithin
    exact ⟨.ok answer, d, fun next => run_ask_of_ok hread, hwithin⟩
  | error e d =>
    rw [hread] at hwithin
    exact ⟨.error e, d, fun next => run_ask_of_error hread, hwithin⟩

/-- The console after the lines were run one after the other, whatever each of
them ended with. -/
def runLines (r : Registry) (c : Console) : List String → Console
  | [] => c
  | line :: rest => runLines r (outcomeState (runLine r line c)) rest

theorem runLines_concat (r : Registry) (c : Console) (lines : List String) (line : String) :
    runLines r c (lines ++ [line]) = outcomeState (runLine r line (runLines r c lines)) := by
  induction lines generalizing c with
  | nil => rfl
  | cons first rest ih => exact ih _

section Related

variable {T : Shell → Shell → Prop} [IsPreorder Shell T]
  (hT : ∀ s s', Within Eq s s' → T s s')
  (hfinish : ∀ (mode : WriteMode) (file : String) (answer : Except Fault (Option String)),
    Moves T (Command.finishRedirect mode file answer))

include hT hfinish

theorem related_action {command : Command}
    (hrun : T c.shell (outcomeState (command.run c.shell))) :
    T c.shell (outcomeState (command.action.run c)).shell := by
  by_cases hredirect : ∃ mode file, command = .redirect mode file
  · obtain ⟨mode, file, rfl⟩ := hredirect
    obtain ⟨answer, d, hask, hwithin⟩ := exists_run_ask Command.contentPrompt c
    rw [Command.action, hask, Action.run, shell_onShell]
    exact trans_of T (hT _ _ hwithin)
      (Command.related_guarded hT _ (hfinish mode file answer d.shell))
  · rw [run_action_of_ne_redirect fun mode file h => hredirect ⟨mode, file, h⟩, shell_onShell]
    exact Command.related_guarded hT _ hrun

/-- A line is answered, or it runs the command that it spells. -/
theorem related_runLine (hrecord : T c.shell (c.shell.recorded line))
    (hrun : ∀ command name args, IsCommand line command →
      T (c.started line name args).shell
        (outcomeState (command.run (c.started line name args).shell))) :
    T c.shell (outcomeState (runLine .builtins line c)).shell := by
  rcases isCommand_or_onlyAnswers line c with ⟨command, name, args, hline, heq⟩ | ⟨-, answer, h⟩
  · have hstarted : T c.shell (c.started line name args).shell :=
      trans_of T hrecord (hT _ _ (within_noted _ _ _))
    rw [heq]
    exact trans_of T hstarted (related_action hT hfinish (hrun command name args hline))
  · exact trans_of T hrecord (hT _ _ h.within)

theorem related_runLines (hrecord : ∀ (s : Shell) (line : String), T s (s.recorded line))
    (hrun : ∀ command : Command, Moves T command.run) (lines : List String) :
    T c.shell (runLines .builtins c lines).shell := by
  induction lines generalizing c with
  | nil => exact refl_of T c.shell
  | cons line rest ih =>
    have hline : T c.shell (outcomeState (runLine .builtins line c)).shell :=
      related_runLine hT hfinish (hrecord c.shell line) fun command _ _ _ => hrun command _
    exact trans_of T hline ih

end Related

/-- The tree of the second shell has no links but those of the first one's. -/
def MakesNoLinks (s s' : Shell) : Prop :=
  s.host.tree.NoNewLinks s'.host.tree

instance : IsPreorder Shell MakesNoLinks where
  refl s := Tree.NoNewLinks.refl s.host.tree
  trans _ _ _ := Tree.NoNewLinks.trans

instance : IsPreorder Tree Tree.NoNewLinks where
  refl := Tree.NoNewLinks.refl
  trans _ _ _ := Tree.NoNewLinks.trans

theorem holdsOfCalls_noNewLinks : Tree.HoldsOfCalls Tree.NoNewLinks where
  mkdir _ _ _ h := (Tree.extends_mkdir h).links
  createNew _ _ _ h := (Tree.extends_createNew h).links
  modifyFile _ _ _ _ h := (Tree.extends_modifyFile h).links
  unlink _ _ _ := Tree.noNewLinks_unlink
  rmdir _ _ _ := Tree.noNewLinks_rmdir
  clear a t := Tree.noNewLinks_of_removed (t.entry?_clear_eq_none_or a)

theorem makesNoLinks_of_within {s s' : Shell} (h : Within Tree.NoNewLinks s s') :
    MakesNoLinks s s' :=
  h.host.tree

/-- Nothing that is entered makes a link. -/
theorem makesNoLinks_runLines (lines : List String) (c : Console) :
    MakesNoLinks c.shell (runLines .builtins c lines).shell := by
  apply related_runLines
  · intro s s' h
    rw [MakesNoLinks, ← h.host.tree]
    exact Tree.NoNewLinks.refl _
  · intro mode file answer
    exact (Command.moves_finishRedirect
      (fun p content => holdsOfCalls_noNewLinks.modifyFile p (mode.apply content)) file
      answer).mono fun _ _ => makesNoLinks_of_within
  · intro s line
    exact Tree.NoNewLinks.refl s.host.tree
  · intro command
    exact Command.moves_run (fun _ _ => makesNoLinks_of_within)
      (fun _ s => Tree.NoNewLinks.refl s.host.tree) holdsOfCalls_noNewLinks
      fun _ s => Tree.NoNewLinks.refl s.host.tree

theorem linkless_runLines {c : Console} (h : c.shell.host.tree.Linkless) (lines : List String) :
    (runLines .builtins c lines).shell.host.tree.Linkless :=
  (makesNoLinks_runLines lines c).linkless h

end Console

end TreeShell
