import TreeShell.Proofs.Interpreter.Frame
import TreeShell.Proofs.Shell.Cwd
import TreeShell.Tree.Listing

/-!
# Sessions stay settled

A line keeps the session settled, whatever it says and whatever the source
answers: most commands spare all directories, `cd` goes to a directory and
`rmdir` recovers. The one thing the shell does not look at is the home
directory, so it has to exist whenever a line goes there. By induction the
current directory exists after any number of lines (`isDir_cwd_runLines`).
-/

namespace TreeShell

/-- The home directory, if it is known, is a path from the root to an existing
directory. -/
def Host.HomeIsDir (h : Host) : Prop :=
  ∀ dir, h.home = some dir → dir.isAbsolute = true ∧ h.tree.isDir dir = true

namespace Command

open Shell

variable {s : Shell}

theorem settled_run (command : Command) (h : s.Settled)
    (hhome : command = .cd .home → s.host.HomeIsDir) :
    (outcomeState (command.run s)).Settled := by
  have hmkdir (p : Path) (t u : Tree) (hu : t.mkdir p = .ok u) : t.Spares u :=
    (Tree.extends_mkdir hu).spares
  have hcreate (p : Path) (t u : Tree) (hu : t.createNew p = .ok u) : t.Spares u :=
    (Tree.extends_createNew hu).spares
  have hmodify (p : Path) (bytes : List UInt8) (t u : Tree)
      (hu : t.modifyFile p (fun _ => bytes) = .ok u) : t.Spares u :=
    (Tree.extends_modifyFile hu).spares
  have hunlink (p : Path) (t u : Tree) (hu : t.unlink p = .ok u) : t.Spares u :=
    ⟨Tree.keepsDirs_unlink hu, Tree.noNewLinks_unlink hu⟩
  refine related_run (T := StaysSettled) (fun _ _ hwithin h => h.within hwithin)
    hmkdir hcreate hmodify hunlink ?_ ?_ ?_ h
  · rintro destination rfl h
    exact settled_changeDir h fun hd => hhome (by rw [hd])
  · rintro removal rfl h
    cases removal with
    | currentTree => exact settled_removeDir_currentTree h
    | emptyDir arg => exact settled_removeDir_emptyDir h arg
  · rintro rfl h
    exact ⟨h.linkless, h.unlimited, h.absolute, h.isDir⟩

theorem settled_finishRedirect (h : s.Settled) (mode : WriteMode) (file : String)
    (answer : Except Fault (Option String)) :
    (outcomeState (finishRedirect mode file answer s)).Settled := by
  have hmodify (p : Path) (content : List UInt8) (t u : Tree)
      (hu : t.modifyFile p (mode.apply content) = .ok u) : t.Spares u :=
    (Tree.extends_modifyFile hu).spares
  exact h.within (moves_finishRedirect hmodify file answer s)

end Command

namespace Console

variable {c : Console}

/-- The line is a `cd` that goes to the home directory. -/
def GoesHome (line : String) : Prop :=
  ∃ args, Text.words line = Builtin.cd.name :: args ∧ Builtin.cd.read? args = some (.cd .home)

/-- A line keeps the session settled. -/
theorem settled_runLine {line : String} (h : c.shell.Settled)
    (hhome : GoesHome line → c.shell.host.HomeIsDir) :
    (outcomeState (runLine .builtins line c)).shell.Settled := by
  have hrecord : c.shell.StaysSettled (c.shell.recorded line) :=
    fun h => ⟨h.linkless, h.unlimited, h.absolute, h.isDir⟩
  refine related_runLine (T := Shell.StaysSettled) (fun _ _ => Shell.staysSettled_of_within_eq)
    (fun mode file answer _ h => Command.settled_finishRedirect h mode file answer) hrecord ?_ h
  intro command name args hline hstarted
  apply Command.settled_run command hstarted
  rintro rfl
  obtain ⟨b, args, hwords, hread⟩ := hline
  obtain rfl : Builtin.cd = b := Builtin.builtin_of_read? hread
  exact hhome ⟨args, hwords, hread⟩

theorem settled_runLines {lines : List String} (h : c.shell.Settled)
    (hhome : ∀ before line, before ++ [line] <+: lines → GoesHome line →
      (runLines .builtins c before).shell.host.HomeIsDir) :
    (runLines .builtins c lines).shell.Settled := by
  induction lines generalizing c with
  | nil => exact h
  | cons line rest ih =>
    have hline : (outcomeState (runLine .builtins line c)).shell.Settled :=
      settled_runLine h (hhome [] line (List.prefix_append [line] rest))
    apply ih hline
    intro before next hprefix
    exact hhome (line :: before) next (List.cons_prefix_cons.2 ⟨rfl, hprefix⟩)

/-- In a tree without links, and on an output that takes everything, the
current directory is a path from the root to an existing directory after any
lines and with any source, if it is one before, and if the home directory is one
whenever a line goes there. -/
theorem isDir_cwd_runLines {lines : List String} {c : Console}
    (hlinks : c.shell.host.tree.Linkless) (hout : c.shell.out.room? = none)
    (habs : c.shell.session.cwd.isAbsolute = true)
    (hdir : c.shell.host.tree.isDir c.shell.session.cwd = true)
    (hhome : ∀ before line, before ++ [line] <+: lines → GoesHome line →
      (runLines .builtins c before).shell.host.HomeIsDir) :
    (runLines .builtins c lines).shell.session.cwd.isAbsolute = true ∧
      (runLines .builtins c lines).shell.host.tree.isDir
        (runLines .builtins c lines).shell.session.cwd = true := by
  have h := settled_runLines (c := c) ⟨hlinks, hout, habs, hdir⟩ hhome
  exact ⟨h.absolute, h.isDir⟩

/-- A session in the directory of the given text, on a tree with the entries at
their paths. -/
def onTree (entries : List (String × Entry)) (cwd : String) : Console where
  shell :=
    { host := { tree := Tree.empty.plantAll (entries.map fun x => (Path.ofText x.1, x.2)) }
      session := { cwd := Path.ofText cwd } }
  source := { replies := [] }

/-- A session in `/w/d/../e`, on a tree with `/w/d` and `/w/e`, that is at home
in `/w`. -/
def detour : Console where
  shell :=
    { host :=
        { tree := Tree.empty.plantAll [(Path.ofText "/w/d", .dir), (Path.ofText "/w/e", .dir)]
          home := some (Path.ofText "/w") }
      session := { cwd := Path.ofText "/w/d/../e" } }
  source := { replies := [] }

theorem isDir_cwd_detour :
    (runLines .builtins detour ["rmdir /w/d", "cd"]).shell.session.cwd.isAbsolute = true ∧
      (runLines .builtins detour ["rmdir /w/d", "cd"]).shell.host.tree.isDir
        (runLines .builtins detour ["rmdir /w/d", "cd"]).shell.session.cwd = true := by
  apply isDir_cwd_runLines
  · decide +kernel
  · rfl
  · decide +kernel
  · decide +kernel
  · intro before line hprefix hcd dir hdir
    obtain ⟨args, hwords, -⟩ := hcd
    match before with
    | [] =>
      obtain ⟨rfl, -⟩ := List.cons_prefix_cons.1 hprefix
      rw [show Text.words "rmdir /w/d" = ["rmdir", "/w/d"] by decide +kernel] at hwords
      exact absurd (List.cons.inj hwords).1 (by decide)
    | [first] =>
      obtain ⟨rfl, -⟩ := List.cons_prefix_cons.1 hprefix
      rw [show (runLines .builtins detour ["rmdir /w/d"]).shell.host.home = some (Path.ofText "/w")
        by decide +kernel] at hdir
      cases hdir
      decide +kernel
    | first :: second :: more =>
      have hlen := hprefix.length_le
      simp at hlen

end Console

end TreeShell
