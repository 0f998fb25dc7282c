import Mathlib.Data.List.Nodup
import TreeShell.Interpreter.Builtins
import TreeShell.Interpreter.Loop
import TreeShell.Proofs.Command.Shapes
import TreeShell.Proofs.Shell.Frame

/-!
# What a line leads to

With the built-in commands a line leads to one of two things. Without words,
with an unknown first word, or with arguments of a shape that its command does
not take, it is only answered: one text is printed, the line is recorded, and
nothing else happens (`OnlyAnswers`). Any other line runs the command it
spells, and that alone (`runLine_of_read?`).
-/

namespace TreeShell

namespace Registry

theorem find?_cons (f : Factory) (r : Registry) (name : String) :
    find? (f :: r) name = if f.name = name then some f else find? r name := by
  unfold find?
  rw [List.find?_cons]
  by_cases hf : f.name = name
  · simp [hf]
  · simp [hf]

/-- Replacing what is under a name changes the answer for that name only. -/
theorem find?_map_replace (r : Registry) (f : Factory) (name : String) :
    find? (r.map fun g => if g.name = f.name then f else g) name =
      if f.name = name then (find? r name).map fun _ => f else find? r name := by
  induction r with
  | nil => simp
  | cons g r ih =>
    rw [List.map_cons, find?_cons, find?_cons, ih]
    by_cases hg : g.name = f.name
    · by_cases hf : f.name = name
      · simp [hg, hf]
      · simp [hg, hf]
    · by_cases hf : f.name = name
      · have hgn : g.name ≠ name := fun h => hg (h.trans hf.symm)
        simp [hf, hgn]
      · simp [hg, hf]

theorem find?_insert (r : Registry) (f : Factory) (name : String) :
    find? (r.insert f).2 name = if f.name = name then some f else find? r name := by
  unfold insert
  cases hold : find? r f.name with
  | some old =>
    rw [find?_map_replace]
    by_cases hf : f.name = name
    · rw [if_pos hf, if_pos hf, ← hf, hold]
      rfl
    · rw [if_neg hf, if_neg hf]
  | none =>
    unfold find? at hold ⊢
    rw [List.find?_append]
    by_cases hf : f.name = name
    · rw [← hf, hold]
      simp
    · simp [hf]

/-- Of the factories that are registered under a name the last one counts. -/
theorem find?_ofList (factories : List Factory) (name : String) :
    find? (ofList factories) name = factories.reverse.find? fun f => f.name = name := by
  induction factories using List.reverseRecOn with
  | nil => rfl
  | append_singleton rest f ih =>
    rw [ofList_concat, find?_insert, List.reverse_append, List.reverse_singleton,
      List.singleton_append, List.find?_cons, ih]
    by_cases hf : f.name = name
    · simp [hf]
    · simp [hf]

theorem find?_builtins_name (b : Builtin) : find? builtins b.name = some b.factory := by
  rw [builtins, find?_ofList, ← List.map_reverse, List.find?_map]
  cases b <;> rfl

theorem find?_builtins_eq_none {name : String} (h : ∀ b : Builtin, name ≠ b.name) :
    find? builtins name = none := by
  rw [builtins, find?_ofList, List.find?_eq_none]
  intro f hf hname
  rw [← List.map_reverse, List.mem_map] at hf
  obtain ⟨b, -, rfl⟩ := hf
  exact h b (of_decide_eq_true hname).symm

end Registry

section Commands

variable {line : String} {command : Command}

/-- The line names a built-in command and has arguments that make it this one. -/
def IsCommand (line : String) (command : Command) : Prop :=
  ∃ b args, Text.words line = Builtin.name b :: args ∧ b.read? args = some command

theorem Builtin.name_injective : Function.Injective Builtin.name := by
  have hnodup : (Builtin.all.map Builtin.name).Nodup := by decide
  exact fun a b h => List.inj_on_of_nodup_map hnodup (Builtin.mem_all a) (Builtin.mem_all b) h

theorem IsCommand.eq {other : Command} (h : IsCommand line command) (h' : IsCommand line other) :
    command = other := by
  obtain ⟨b, args, hwords, hread⟩ := h
  obtain ⟨b', args', hwords', hread'⟩ := h'
  rw [hwords] at hwords'
  obtain ⟨hname, rfl⟩ := List.cons.inj hwords'
  obtain rfl := Builtin.name_injective hname
  exact Option.some.inj (hread.symm.trans hread')

end Commands

namespace Console

/-- The console after its shell changed. -/
def withShell (c : Console) (shell : Shell) : Console :=
  { c with shell := shell }

/-- Nothing but an answer: the text and a line feed are printed, the line is
recorded, and everything else is as it was, the requests to the source
included. It fails only when the output does not take the answer. -/
structure OnlyAnswers (line answer : String) (c : Console)
    (result : EStateM.Result Fault Console Unit) : Prop where
  out : (outcomeState result).shell.out = c.shell.out.write (Text.encode (answer ++ "\n"))
  session : (outcomeState result).shell.session = c.shell.session.record line
  tree : (outcomeState result).shell.host.tree = c.shell.host.tree
  home : (outcomeState result).shell.host.home = c.shell.host.home
  source : (outcomeState result).source = c.source
  outcome : result = if c.shell.out.Fits (Text.encode (answer ++ "\n"))
    then .ok () (outcomeState result) else .error .outputClosed (outcomeState result)

variable {r : Registry} {line : String} {c : Console}

theorem OnlyAnswers.within {answer : String} {result : EStateM.Result Fault Console Unit}
    (h : OnlyAnswers line answer c result) :
    Shell.Within Eq (c.shell.recorded line) (outcomeState result).shell :=
  ⟨⟨h.tree.symm, h.home⟩, h.session, fun hout => h.out ▸ Shell.unlimited_write hout _⟩

theorem onShell_of_ok {α : Type} {body : ShellM α} {s s' : Shell} {a : α}
    (h : body s = .ok a s') : onShell body (c.withShell s) = .ok a (c.withShell s') := by
  simp only [onShell, withShell, h]

theorem onShell_of_error {α : Type} {body : ShellM α} {s s' : Shell} {e : Fault}
    (h : body s = .error e s') : onShell body (c.withShell s) = .error e (c.withShell s') := by
  simp only [onShell, withShell, h]

theorem shell_onShell {α : Type} (body : ShellM α) (c : Console) :
    (outcomeState (onShell body c)).shell = outcomeState (body c.shell) := by
  unfold onShell
  cases body c.shell <;> rfl

theorem runLine_eq (r : Registry) (line : String) (c : Console) :
    runLine r line c =
      (match CommandLine.parse line with
        | .ok commandLine => dispatch r commandLine
        | .error e => onShell (Shell.printLine e.message)) (c.withShell (c.shell.recorded line)) :=
  rfl

/-- An action on the shell only answers if it prints the answer and does not do anything
else but log. -/
theorem onlyAnswers_onShell {answer : String} {body : ShellM Unit} {s : Shell} (s' : Shell)
    (hrun : body s = if c.shell.out.Fits (Text.encode (answer ++ "\n")) then .ok () s'
      else .error .outputClosed s')
    (hs' : Shell.Within Eq (c.shell.recorded line) s')
    (hout : s'.out = c.shell.out.write (Text.encode (answer ++ "\n"))) :
    OnlyAnswers line answer c (onShell body (c.withShell s)) := by
  have hshell : onShell body (c.withShell s) =
      if c.shell.out.Fits (Text.encode (answer ++ "\n")) then .ok () (c.withShell s')
      else .error .outputClosed (c.withShell s') := by
    split at hrun
    · next hfits =>
      rw [if_pos hfits]
      exact onShell_of_ok hrun
    · next hfits =>
      rw [if_neg hfits]
      exact onShell_of_error hrun
  have hstate : outcomeState (onShell body (c.withShell s)) = c.withShell s' := by
    rw [hshell]
    split <;> rfl
  constructor
  · rw [hstate]
    exact hout
  · rw [hstate]
    exact hs'.session
  · rw [hstate]
    exact hs'.host.tree.symm
  · rw [hstate]
    exact hs'.host.home
  · rw [hstate]
    rfl
  · rw [hstate]
    exact hshell

/-- What is answered on a shell that has recorded the line, and may have logged
something, is all that happens. -/
theorem onlyAnswers_printLine {s : Shell} (answer : String)
    (hs : Shell.Within Eq (c.shell.recorded line) s) (hout : s.out = c.shell.out) :
    OnlyAnswers line answer c (onShell (Shell.printLine answer) (c.withShell s)) := by
  refine onlyAnswers_onShell (s.wrote (answer ++ "\n")) ?_ ?_ ?_
  · rw [← hout]
    exact Shell.print_eq (answer ++ "\n") s
  · exact trans_of (Shell.Within Eq) hs (Shell.within_wrote s _)
  · rw [← hout]
    rfl

theorem onlyAnswers_of_words_eq_nil (r : Registry) (h : Text.words line = []) (c : Console) :
    OnlyAnswers line "Invalid command. Please try again." c (runLine r line c) := by
  rw [runLine_eq, CommandLine.parse, h]
  exact onlyAnswers_printLine _ (refl_of (Shell.Within Eq) _) rfl

theorem onlyAnswers_of_find?_eq_none {name : String} {args : List String}
    (h : Text.words line = name :: args) (hf : r.find? name = none) (c : Console) :
    OnlyAnswers line ("Unknown command: " ++ name) c (runLine r line c) := by
  have hdispatch : dispatch r ⟨name, args⟩ = onShell (do
      Shell.note .debug ("unknown command " ++ Text.quoted name)
      Shell.printLine ("Unknown command: " ++ name)) := by
    rw [dispatch, hf]
  rw [runLine_eq, CommandLine.parse, h, CommandLine.ofWords_cons]
  simp only [hdispatch]
  exact onlyAnswers_printLine _ (Shell.within_noted _ _ _) rfl

/-- The message that is logged before a command runs. -/
def dispatched (name : String) (args : List String) : String :=
  "dispatch " ++ name ++ " with " ++ toString args.length ++ " argument(s)"

theorem runLine_of_find? {name : String} {args : List String} {f : Factory}
    (h : Text.words line = name :: args) (hf : r.find? name = some f) (c : Console) :
    runLine r line c = (f.create args).run
      (c.withShell ((c.shell.recorded line).noted .debug (dispatched name args))) := by
  have hdispatch : dispatch r ⟨name, args⟩ = (do
      onShell (Shell.note .debug (dispatched name args))
      (f.create args).run) := by
    rw [dispatch, hf]
    rfl
  rw [runLine_eq, CommandLine.parse, h, CommandLine.ofWords_cons]
  simp only [hdispatch]
  rfl

/-- The console in which the command of a line starts. -/
def started (c : Console) (line name : String) (args : List String) : Console :=
  c.withShell ((c.shell.recorded line).noted .debug (dispatched name args))

theorem onlyAnswers_of_read?_eq_none {b : Builtin} {args : List String}
    (h : Text.words line = b.name :: args) (hread : b.read? args = none) (c : Console) :
    OnlyAnswers line b.usage c (runLine .builtins line c) := by
  have haction : b.factory.create args = .act (b.reject args.length) := by
    change b.action args = _
    rw [Builtin.action, hread]
  rw [runLine_of_find? h (Registry.find?_builtins_name b), haction]
  refine onlyAnswers_printLine (s := Shell.noted _ .debug _) _ ?_ rfl
  exact trans_of (Shell.Within Eq) (Shell.within_noted _ _ _) (Shell.within_noted _ _ _)

theorem runLine_of_read? {b : Builtin} {args : List String} {command : Command}
    (h : Text.words line = b.name :: args) (hread : b.read? args = some command) (c : Console) :
    runLine .builtins line c = command.action.run (c.started line b.name args) := by
  have haction : b.factory.create args = command.action := by
    change b.action args = _
    rw [Builtin.action, hread]
  rw [runLine_of_find? h (Registry.find?_builtins_name b), haction, started]

/-- A command other than a redirection acts at once. -/
theorem run_action_of_ne_redirect {command : Command}
    (h : ∀ mode file, command ≠ .redirect mode file) :
    command.action.run = onShell (Command.guarded command.builtin.name command.run) := by
  cases command with
  | redirect mode file => exact absurd rfl (h mode file)
  | _ => rfl

theorem shell_runLine {b : Builtin} {args : List String} {command : Command}
    (hwords : Text.words line = b.name :: args) (hread : b.read? args = some command)
    (h : ∀ mode file, command ≠ .redirect mode file) (c : Console) :
    (outcomeState (runLine .builtins line c)).shell = outcomeState
      (Command.guarded b.name command.run (c.started line b.name args).shell) := by
  rw [runLine_of_read? hwords hread, run_action_of_ne_redirect h, shell_onShell,
    Builtin.builtin_of_read? hread]

/-- A line is a command, which is then run, or it is only answered. -/
theorem isCommand_or_onlyAnswers (line : String) (c : Console) :
    (∃ command name args, IsCommand line command ∧
      runLine .builtins line c = command.action.run (c.started line name args)) ∨
    (∀ command, ¬ IsCommand line command) ∧
      ∃ answer, OnlyAnswers line answer c (runLine .builtins line c) := by
  cases hwords : Text.words line with
  | nil =>
    refine Or.inr ⟨?_, _, onlyAnswers_of_words_eq_nil .builtins hwords c⟩
    rintro command ⟨b, args, hline, -⟩
    rw [hwords] at hline
    cases hline
  | cons name args =>
    by_cases hname : ∀ b : Builtin, name ≠ b.name
    · have hfind := Registry.find?_builtins_eq_none hname
      refine Or.inr ⟨?_, _, onlyAnswers_of_find?_eq_none hwords hfind c⟩
      rintro command ⟨b, args', hline, -⟩
      rw [hwords] at hline
      exact hname b (List.cons.inj hline).1
    · obtain ⟨b, rfl⟩ : ∃ b : Builtin, name = b.name := by simpa using hname
      cases hread : b.read? args with
      | some command =>
        exact Or.inl ⟨command, _, _, ⟨b, args, hwords, hread⟩, runLine_of_read? hwords hread c⟩
      | none =>
        refine Or.inr ⟨?_, _, onlyAnswers_of_read?_eq_none hwords hread c⟩
        rintro command ⟨b', args', hline, hread'⟩
        rw [hwords] at hline
        obtain ⟨hname', rfl⟩ := List.cons.inj hline
        obtain rfl := Builtin.name_injective hname'
        rw [hread] at hread'
        cases hread'

/-- A line is checked in full before anything is done: it is only answered,
unless it names a built-in command and has arguments that the command takes.
Then it is that command that runs. -/
theorem onlyAnswers_or_runs (line : String) (c : Console) :
    (Text.words line = [] →
      OnlyAnswers line "Invalid command. Please try again." c (runLine .builtins line c)) ∧
    ∀ name args, Text.words line = name :: args →
      ((∀ b : Builtin, b.name ≠ name) →
        OnlyAnswers line ("Unknown command: " ++ name) c (runLine .builtins line c)) ∧
      ∀ b : Builtin, b.name = name →
        (¬ b.Accepts args → OnlyAnswers line b.usage c (runLine .builtins line c)) ∧
        (b.Accepts args → ∃ command : Command, command.builtin = b ∧ b.read? args = some command ∧
          runLine .builtins line c = command.action.run (c.started line name args)) := by
  refine ⟨fun h => onlyAnswers_of_words_eq_nil .builtins h c, ?_⟩
  intro name args h
  refine ⟨fun hname => onlyAnswers_of_find?_eq_none h
    (Registry.find?_builtins_eq_none fun b => (hname b).symm) c, ?_⟩
  rintro b rfl
  constructor
  · intro hargs
    apply onlyAnswers_of_read?_eq_none h _ c
    rw [← Builtin.isSome_read?_iff] at hargs
    simpa using hargs
  · intro hargs
    obtain ⟨command, hread⟩ := Option.isSome_iff_exists.1 ((b.isSome_read?_iff args).2 hargs)
    exact ⟨command, Builtin.builtin_of_read? hread, hread, runLine_of_read? h hread c⟩

end Console

end TreeShell
