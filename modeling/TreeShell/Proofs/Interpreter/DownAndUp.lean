import TreeShell.Proofs.Interpreter.MissingFiles
import TreeShell.Proofs.Interpreter.ChangeDirectory

/-!
# Going down and up again

`cd` puts the steps of its argument after those of the current directory, and `cd ..`
takes the last step off, whatever the texts look like and whatever is in the tree. So as
many `cd ..` as a `cd` has gone steps lead back to where it started
(`down_and_up_returns`): to a path with the same components, though not always with the
same text. An argument of which nothing is left without its quotes goes home instead, and
its steps do not count for that (`home_and_not_back`).
-/

namespace TreeShell

namespace Console

open Command Shell

/-- The line is done, prints nothing, and leaves the tree and the exit flag as they are. -/
structure Quietly (line : String) (c d : Console) : Prop where
  run : runLine .builtins line c = .ok () d
  out : d.shell.out = c.shell.out
  tree : d.shell.host.tree = c.shell.host.tree
  exiting : d.shell.session.exiting = c.shell.session.exiting

/-- The lines are done one after the other, each of them quietly. -/
inductive AllQuietly : List String → Console → Console → Prop
  | nil (c : Console) : AllQuietly [] c c
  | cons {line : String} {lines : List String} {c d e : Console} (first : Quietly line c d)
    (rest : AllQuietly lines d e) : AllQuietly (line :: lines) c e

variable {c c' : Console} {line arg answer : String} {args lines : List String}
  {before names : List Piece}

/-- What is answered is seen. -/
theorem OnlyAnswers.out_ne {result : EStateM.Result Fault Console Unit}
    (h : OnlyAnswers line answer c result) (hok : result = .ok () c') :
    c'.shell.out ≠ c.shell.out := by
  have houtcome := h.outcome
  have hout := h.out
  by_cases hfits : c.shell.out.Fits (Text.encode (answer ++ "\n"))
  · rw [hok] at hout
    intro hsame
    have hwritten := congrArg Sink.written (hout.symm.trans hsame)
    rw [Sink.written_write_of_fits hfits, List.append_right_eq_self, Text.encode_append] at hwritten
    exact absurd (List.append_eq_nil_iff.1 hwritten).2 (by decide)
  · rw [if_neg hfits, hok] at houtcome
    cases houtcome

/-- A `cd` that goes somewhere does so quietly. -/
theorem exists_quietly_of_moved {destination : Destination} {dir : Path}
    (hwords : Text.words line = Builtin.cd.name :: args)
    (hread : Builtin.cd.read? args = some (.cd destination))
    (hmoved : changeDir destination (c.started line Builtin.cd.name args).shell =
      .ok () ((c.started line Builtin.cd.name args).shell.moved dir)) :
    ∃ d, Quietly line c d ∧ d.shell.session.cwd = dir := by
  refine ⟨c.withShell ((c.started line Builtin.cd.name args).shell.moved dir),
    ⟨?_, rfl, rfl, rfl⟩, rfl⟩
  rw [runLine_of_read? hwords hread, run_action_of_ne_redirect (by simp)]
  exact onShell_of_ok (guarded_of_ok _ hmoved)

/-- From an absolute directory `cd ..` takes the last step off. -/
theorem exists_quietly_up (hwords : Text.words line = ["cd", ".."])
    (habs : c.shell.session.cwd.isAbsolute = true) {last : Piece}
    (hsteps : c.shell.session.cwd.steps = before ++ [last]) :
    ∃ d, Quietly line c d ∧ d.shell.session.cwd.isAbsolute = true ∧
      d.shell.session.cwd.steps = before := by
  obtain ⟨dir, hparent, hdir, hbefore⟩ := Path.exists_parent?_of_steps habs hsteps
  have hmoved := changeDir_parent_of_some (s := (c.started line "cd" [".."]).shell) hparent
  obtain ⟨d, hquiet, rfl⟩ := exists_quietly_of_moved hwords rfl hmoved
  exact ⟨d, hquiet, hdir, hbefore⟩

/-- So each `cd ..` takes one step off. -/
theorem exists_allQuietly_up (hups : ∀ line ∈ lines, Text.words line = ["cd", ".."])
    (habs : c.shell.session.cwd.isAbsolute = true)
    (hsteps : c.shell.session.cwd.steps = before ++ names) (hlength : lines.length = names.length) :
    ∃ d, AllQuietly lines c d ∧ d.shell.session.cwd.isAbsolute = true ∧
      d.shell.session.cwd.steps = before := by
  induction lines generalizing c names with
  | nil =>
    obtain rfl : names = [] := List.length_eq_zero_iff.1 hlength.symm
    exact ⟨c, .nil c, habs, by rw [hsteps, List.append_nil]⟩
  | cons line lines ih =>
    obtain ⟨hup, hrest⟩ := List.forall_mem_cons.1 hups
    rcases List.eq_nil_or_concat' names with rfl | ⟨others, last, rfl⟩
    · cases hlength
    · rw [← List.append_assoc] at hsteps
      obtain ⟨d, hquiet, hd, hothers⟩ := exists_quietly_up hup habs hsteps
      rw [List.length_cons, List.length_append, List.length_singleton, Nat.add_right_cancel_iff]
        at hlength
      obtain ⟨e, hall, he⟩ := ih hrest hd hothers hlength
      exact ⟨e, .cons hquiet hall, he⟩

/-- A `cd` that succeeds and says nothing has gone where its argument leads. -/
theorem quietly_down (hwords : Text.words line = ["cd", arg]) (hdots : arg ≠ "..")
    (hempty : Text.withoutQuotes arg ≠ "") (hrun : runLine .builtins line c = .ok () c')
    (hout : c'.shell.out = c.shell.out) :
    Quietly line c c' ∧
      c'.shell.session.cwd = c.shell.session.resolve (Text.withoutQuotes arg) := by
  have hread : Builtin.cd.read? [arg] = some (.cd (.dir (Text.withoutQuotes arg))) := by
    change some (Command.cd (Destination.ofArg arg)) = _
    rw [Destination.ofArg, if_neg hdots, if_neg hempty]
  let s := (c.started line Builtin.cd.name [arg]).shell
  by_cases hdir : s.host.tree.isDir (s.session.resolve (Text.withoutQuotes arg)) = true
  · obtain ⟨d, hquiet, hcwd⟩ :=
      exists_quietly_of_moved hwords hread (changeDir_dir_of_isDir (s := s) hdir)
    obtain rfl : d = c' := by
      have hsame := hquiet.run.symm.trans hrun
      cases hsame
      rfl
    exact ⟨hquiet, hcwd⟩
  · have honly := onlyAnswers_of_run (c := c) _ hwords hread (by simp)
      (Or.inl (changeDir_dir_of_not_isDir (s := s) hdir))
    exact absurd hout (honly.out_ne hrun)

/-- From an absolute directory, after a quiet `cd` with a relative argument, as many `cd ..`
as the argument has steps without its quotes are all quiet, and lead to a path with the
components of that directory. That the argument is not `..` and that something is left of
it without its quotes makes it the path of a directory. -/
theorem down_and_up_returns (habs : c.shell.session.cwd.isAbsolute = true)
    (hwords : Text.words line = ["cd", arg]) (hdots : arg ≠ "..")
    (hempty : Text.withoutQuotes arg ≠ "")
    (hrel : (Path.ofText (Text.withoutQuotes arg)).isAbsolute = false)
    (hrun : runLine .builtins line c = .ok () c') (hout : c'.shell.out = c.shell.out)
    (hups : ∀ up ∈ lines, Text.words up = ["cd", ".."])
    (hlength : lines.length = (Path.ofText (Text.withoutQuotes arg)).steps.length) :
    Quietly line c c' ∧ ∃ d, AllQuietly lines c' d ∧
      d.shell.session.cwd.components = c.shell.session.cwd.components := by
  obtain ⟨hquiet, hcwd⟩ := quietly_down hwords hdots hempty hrun hout
  have habs' : c'.shell.session.cwd.isAbsolute = true := by
    rw [hcwd]
    exact Path.isAbsolute_join habs _
  have hsteps : c'.shell.session.cwd.steps = c.shell.session.cwd.steps ++
      (Path.ofText (Text.withoutQuotes arg)).steps := by
    rw [hcwd]
    exact Path.steps_join _ hrel
  obtain ⟨d, hall, hd, hback⟩ := exists_allQuietly_up hups habs' hsteps hlength
  refine ⟨hquiet, d, hall, ?_⟩
  rw [Path.components_of_isAbsolute hd, hback, Path.components_of_isAbsolute habs]

/-- A session in `/.`, above the directory `/a/b`. -/
def aboveB : Console :=
  onTree [("/a/b", .dir)] "/."

theorem down_and_up_returns_quoted :
    ∃ c' d, runLine .builtins "cd a//\"b\"" aboveB = .ok () c' ∧
      AllQuietly ["cd ..", "cd .."] c' d ∧
      d.shell.session.cwd.components = (Path.ofText "/.").components := by
  have hwords : Text.words "cd a//\"b\"" = [Builtin.cd.name, "a//\"b\""] := by decide
  have hquotes : Text.withoutQuotes "a//\"b\"" = "a//b" := by decide
  have hdir : (aboveB.started "cd a//\"b\"" "cd" ["a//\"b\""]).shell.host.tree.isDir
      (aboveB.shell.session.resolve "a//b") = true := by
    decide
  have hups : ∀ up ∈ ["cd ..", "cd .."], Text.words up = ["cd", ".."] := by decide
  obtain ⟨c', hquiet, -⟩ := exists_quietly_of_moved hwords rfl (changeDir_dir_of_isDir hdir)
  obtain ⟨-, d, hall, hback⟩ := down_and_up_returns (by decide) hwords (by decide)
    (by rw [hquotes]; decide) (by rw [hquotes]; decide) hquiet.run hquiet.out hups
    (by rw [hquotes]; decide)
  exact ⟨c', d, hquiet.run, hall, hback⟩

/-- An argument without steps that does not come back: nothing is left of it without its
quotes, and so it goes home. -/
theorem home_and_not_back :
    Text.words "cd \"\"" = ["cd", "\"\""] ∧ "\"\"" ≠ ".." ∧
      (Path.ofText (Text.withoutQuotes "\"\"")).isAbsolute = false ∧
      (Path.ofText (Text.withoutQuotes "\"\"")).steps = [] ∧
      ∃ c', Quietly "cd \"\"" ((onTree [("/h", .dir)] "/w").atHome "/h") c' ∧
        c'.shell.session.cwd.components ≠ (Path.ofText "/w").components := by
  have hwords : Text.words "cd \"\"" = [Builtin.cd.name, "\"\""] := by decide
  refine ⟨hwords, by decide, by decide, by decide, ?_⟩
  have hmoved := changeDir_home_of_some
    (s := (((onTree [("/h", .dir)] "/w").atHome "/h").started "cd \"\"" "cd" ["\"\""]).shell)
    (rfl : _ = some (Path.ofText "/h"))
  obtain ⟨c', hquiet, hcwd⟩ := exists_quietly_of_moved hwords rfl hmoved
  exact ⟨c', hquiet, by rw [hcwd]; decide⟩

end Console

end TreeShell
