import TreeShell.Proofs.Interpreter.RootGuard

/-!
# Going to another directory

`cd` stays and says why in one line, or arrives in a directory and says nothing
(`Shell.StaysOrArrives`). It arrives in the parent because every path above the
current directory leads to a directory, and where its argument leads because it
looks there first. The home directory is taken as the host reports it, so there
it arrives only if that is a directory (`cd_staysOrArrives_iff`).
-/

namespace TreeShell

namespace Shell

/-- The session stays where it is and says one line, or it arrives in a directory
and says nothing. The tree is as before. -/
def StaysOrArrives (s s' : Shell) : Prop :=
  s'.host.tree = s.host.tree ∧
    ((s'.session.cwd = s.session.cwd ∧
        ∃ message : String, message ≠ "" ∧ '\n' ∉ message.toList ∧
          s'.out = s.out.write (Text.encode (message ++ "\n"))) ∨
      s'.host.tree.isDir s'.session.cwd = true ∧ s'.out = s.out)

variable {s : Shell} {dir : Path}

theorem staysOrArrives_moved (h : s.host.tree.isDir dir = true) : s.StaysOrArrives (s.moved dir) :=
  ⟨rfl, Or.inr ⟨h, rfl⟩⟩

/-- Going to what is no directory is neither. -/
theorem not_staysOrArrives_moved (hcwd : s.host.tree.isDir s.session.cwd = true)
    (h : s.host.tree.isDir dir ≠ true) : ¬ s.StaysOrArrives (s.moved dir) := by
  rintro ⟨-, ⟨hstays, -⟩ | ⟨harrives, -⟩⟩
  · have hsame : dir = s.session.cwd := hstays
    rw [hsame] at h
    exact h hcwd
  · exact h harrives

end Shell

namespace Command

open Shell

variable {s : Shell} {dir : Path} {name : String}

/-- A fault says one line. -/
theorem staysOrArrives_of_error {body : ShellM Unit} {e : Fault} (h : body s = .error e s)
    (hne : e.text ≠ "") (hline : '\n' ∉ e.text.toList) :
    s.StaysOrArrives (outcomeState (guarded name body s)) := by
  rw [outcomeState_guarded_of_error h]
  exact ⟨rfl, Or.inl ⟨rfl, e.text, hne, hline, rfl⟩⟩

/-- If a line is not taken, the report of that is not taken either. -/
theorem staysOrArrives_of_printLine {body : ShellM Unit} {text : String}
    (h : body s = printLine text s) (hne : text ≠ "") (hline : '\n' ∉ text.toList) :
    s.StaysOrArrives (outcomeState (guarded name body s)) := by
  have hprint : body s = _ := h.trans (print_eq (text ++ "\n") s)
  by_cases hfits : s.out.Fits (Text.encode (text ++ "\n"))
  · rw [if_pos hfits] at hprint
    rw [outcomeState_guarded_of_ok hprint]
    exact ⟨rfl, Or.inl ⟨rfl, text, hne, hline, rfl⟩⟩
  · rw [if_neg hfits] at hprint
    rw [outcomeState_guarded_of_error hprint]
    exact ⟨rfl, Or.inl ⟨rfl, text, hne, hline, Sink.write_write_of_not_fits hfits _⟩⟩

theorem newline_not_mem_text_of_parent? {p : Path} (hp : p.isAbsolute = true)
    (h : p.parent? = none) : '\n' ∉ p.text.toList := by
  obtain ⟨-, hidle⟩ := (Path.parent?_eq_none_iff (Path.ne_empty_of_isAbsolute hp)).1 h
  rw [Path.mem_text_iff (by decide)]
  rintro ⟨piece, hpiece, hmem⟩
  have hidle := hidle piece hpiece
  simp only [Piece.isIdle, Bool.or_eq_true, decide_eq_true_eq] at hidle
  rcases hidle with hempty | hdot
  · simp [hempty] at hmem
  · simp [hdot] at hmem

theorem staysOrArrives_parent (habs : s.session.cwd.isAbsolute = true)
    (hcwd : s.host.tree.isDir s.session.cwd = true) :
    s.StaysOrArrives (outcomeState (guarded name (changeDir .parent) s)) := by
  cases hparent : s.session.cwd.parent? with
  | some dir =>
    have habove : dir ∈ s.session.cwd.above := List.mem_of_mem_head? hparent
    rw [outcomeState_guarded_of_ok (changeDir_parent_of_some hparent)]
    exact staysOrArrives_moved (Tree.isDir_of_mem_above habs hcwd habove)
  | none =>
    have hline := newline_not_mem_text_of_parent? habs hparent
    have htext : (Fault.failed .changingDirectory (.file (.noParent s.session.cwd))).text =
        "Error changing directory: " ++ ("No parent directory: " ++ s.session.cwd.text) := rfl
    apply staysOrArrives_of_error (changeDir_parent_of_none hparent)
    · rw [htext]
      simp
    · rw [htext]
      simp [hline]

theorem staysOrArrives_home_iff (hcwd : s.host.tree.isDir s.session.cwd = true) :
    s.StaysOrArrives (outcomeState (guarded name (changeDir .home) s)) ↔
      ∀ dir, s.host.home = some dir → s.host.tree.isDir dir = true := by
  cases hhome : s.host.home with
  | none =>
    constructor
    · intro _ dir hdir
      cases hdir
    · intro _
      exact staysOrArrives_of_error (changeDir_home_of_none hhome) (by decide) (by decide)
  | some home =>
    rw [outcomeState_guarded_of_ok (changeDir_home_of_some hhome)]
    constructor
    · rintro harrives dir ⟨rfl⟩
      by_contra hdir
      exact not_staysOrArrives_moved hcwd hdir harrives
    · intro hdir
      exact staysOrArrives_moved (hdir home rfl)

theorem staysOrArrives_dir (arg : String) :
    s.StaysOrArrives (outcomeState (guarded name (changeDir (.dir arg)) s)) := by
  by_cases hdir : s.host.tree.isDir (s.session.resolve arg) = true
  · rw [outcomeState_guarded_of_ok (changeDir_dir_of_isDir hdir)]
    exact staysOrArrives_moved hdir
  · exact staysOrArrives_of_printLine (changeDir_dir_of_not_isDir hdir) (by decide) (by decide)

end Command

namespace Console

open Command

variable {c : Console} {args : List String}

theorem shell_run_cd {destination : Destination}
    (h : Builtin.cd.read? args = some (.cd destination)) (c : Console) :
    (outcomeState ((Builtin.cd.action args).run c)).shell =
      outcomeState (guarded Builtin.cd.name (changeDir destination) c.shell) := by
  rw [Builtin.action, h]
  exact shell_onShell _ c

theorem exists_read?_cd (hargs : Builtin.cd.Accepts args) :
    ∃ destination, Builtin.cd.read? args = some (.cd destination) := by
  match args with
  | [] => exact ⟨.home, rfl⟩
  | [arg] => exact ⟨Destination.ofArg arg, rfl⟩
  | _ :: _ :: _ => simp [Builtin.Accepts] at hargs

/-- From a directory `cd` stays and says so in one line, or arrives in a directory
and says nothing, with any arguments it takes, unless it goes home to what is no
directory. -/
theorem cd_staysOrArrives_iff (hargs : Builtin.cd.Accepts args)
    (habs : c.shell.session.cwd.isAbsolute = true)
    (hcwd : c.shell.host.tree.isDir c.shell.session.cwd = true) :
    c.shell.StaysOrArrives (outcomeState ((Builtin.cd.action args).run c)).shell ↔
      (Builtin.cd.read? args = some (.cd .home) →
        ∀ dir, c.shell.host.home = some dir → c.shell.host.tree.isDir dir = true) := by
  obtain ⟨destination, hread⟩ := exists_read?_cd hargs
  rw [shell_run_cd hread, hread]
  cases destination with
  | parent => simp [staysOrArrives_parent habs hcwd]
  | home => simp [staysOrArrives_home_iff hcwd]
  | dir arg => simp [staysOrArrives_dir]

/-- The console on a host that reports a home directory. -/
def atHome (c : Console) (home : String) : Console :=
  c.withShell { c.shell with host := { c.shell.host with home := some (Path.ofText home) } }

theorem cd_staysOrArrives_quotes :
    ((onTree [("/w/d", .dir)] "/w/d").atHome "/w").shell.StaysOrArrives
      (outcomeState ((Builtin.cd.action ["\"\""]).run
        ((onTree [("/w/d", .dir)] "/w/d").atHome "/w"))).shell := by
  have hargs : Builtin.cd.Accepts ["\"\""] := Nat.le_refl 1
  refine (cd_staysOrArrives_iff hargs (by decide) (by decide)).2 ?_
  rintro - dir ⟨rfl⟩
  decide

/-- With a home directory that does not exist, `cd` leaves the session in it and
says nothing. -/
theorem lost_at_home :
    ((onTree [("/w", .dir)] "/w").atHome "/nope").shell.session.cwd.isAbsolute = true ∧
      ((onTree [("/w", .dir)] "/w").atHome "/nope").shell.host.tree.isDir (Path.ofText "/w") =
        true ∧
      Builtin.cd.Accepts [] ∧
      ¬ ((onTree [("/w", .dir)] "/w").atHome "/nope").shell.StaysOrArrives
        (outcomeState ((Builtin.cd.action []).run
          ((onTree [("/w", .dir)] "/w").atHome "/nope"))).shell := by
  refine ⟨by decide, by decide, Nat.zero_le 1, ?_⟩
  rintro ⟨-, ⟨hstays, -⟩ | ⟨harrives, -⟩⟩
  · revert hstays
    decide
  · revert harrives
    decide

end Console

end TreeShell
