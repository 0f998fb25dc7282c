import TreeShell.Proofs.Disk.TreeRemoval
import TreeShell.Proofs.Interpreter.RootGuard
import TreeShell.Proofs.Tree.Plain

/-!
# Removing the current directory, all or nothing

`rmdir *` hands the text of the current directory to the removal as it is, and
`cd` stores such texts as `d/..`, `d/.`, `link` and `link/`. What the removal
makes of them is not what `cd` does, so the command does all or nothing, and says
so, exactly when the text ends at the directory itself (`rmdir_star_exact_iff`).
Every text without dots does so where there are no links (`endsAt_of_plain`).
-/

namespace TreeShell

namespace Tree

variable {t : Tree} {p : Path} {a : Address}

/-- Without links a plain path ends at the directory that it leads to. -/
theorem endsAt_of_plain (hl : t.Linkless) (hp : p.Plain) (hfind : t.find p = .ok (a, .dir))
    (hroot : a ≠ []) : t.EndsAt p a := by
  have hnames := names_of_find hl hp hfind
  obtain ⟨hlocate, hname⟩ := locate_clear_of_names hnames hfind
  exact ⟨hlocate, Or.inr ⟨rmdirRefusal?_of_names hnames hroot, hname⟩⟩

end Tree

namespace Console

open Command

variable {c : Console} {line : String} {a : Address}

/-- In whatever way the session has got into a directory other than the root,
`rmdir *` removes exactly this directory with everything below it and reports that
it is gone, or reports a failure and changes nothing, if and only if the path of
the current directory ends at the directory itself. -/
theorem rmdir_star_exact_iff (hwords : Text.words line = ["rmdir", "*"])
    (hout : c.shell.out.room? = none)
    (hfind : c.shell.host.tree.find c.shell.session.cwd = .ok (a, .dir)) (hroot : a ≠ []) :
    (((outcomeState (runLine .builtins line c)).shell.out = c.shell.out.write
          (Text.encode ("Directory removed: " ++ c.shell.session.cwd.text ++ "\n")) ∧
        c.shell.host.tree.Removed a (outcomeState (runLine .builtins line c)).shell.host.tree) ∨
      ∃ message, (outcomeState (runLine .builtins line c)).shell.out = c.shell.out.write
          (Text.encode ("Error removing directory: " ++ message ++ "\n")) ∧
        (outcomeState (runLine .builtins line c)).shell.host.tree = c.shell.host.tree) ↔
    c.shell.host.tree.EndsAt c.shell.session.cwd a := by
  obtain ⟨q, hq⟩ := Tree.exists_parent?_of_find hfind hroot
  rw [shell_runLine_rmdir hwords, Removal.ofArg_star]
  constructor
  · intro hexact
    obtain ⟨htree, -⟩ := guarded_removeDir_of_parent?
      (s := (c.started line "rmdir" ["*"]).shell) hout hq Builtin.rmdir.name
    rw [htree] at hexact
    apply Disk.endsAt_of_removeTree (h := (c.started line "rmdir" ["*"]).shell.host) hfind hroot
    rcases hexact with ⟨-, hremoved⟩ | ⟨-, -, hsame⟩
    · exact Or.inl hremoved
    · exact Or.inr hsame
  · intro hends
    rcases Disk.removeTree_of_endsAt (h := (c.started line "rmdir" ["*"]).shell.host) hfind hroot
      hends with ⟨u, hok, hremoved⟩ | ⟨e, herror⟩
    · obtain ⟨htree, hwritten⟩ := guarded_removeDir_of_ok
        (s := (c.started line "rmdir" ["*"]).shell) hout hq hok Builtin.rmdir.name
      exact Or.inl ⟨hwritten, htree ▸ hremoved⟩
    · obtain ⟨htree, hwritten⟩ := guarded_removeDir_of_error
        (s := (c.started line "rmdir" ["*"]).shell) hq herror Builtin.rmdir.name
      exact Or.inr ⟨e.message, hwritten, htree⟩

/-- A session on a tree with `/w/d` and the file `/w/f`, in the directory of the
given text. -/
def withFile (cwd : String) : Console where
  shell :=
    { host :=
        { tree := Tree.empty.plantAll
            [(Path.ofText "/w/d", .dir), (Path.ofText "/w/f", .file [120])] }
      session := { cwd := Path.ofText cwd } }
  source := { replies := [] }

/-- The name of the directory `/w`. -/
def nameW : FileName :=
  ⟨"w", by decide⟩

theorem rmdir_star_exact_above_d :
    (((outcomeState (runLine .builtins "rmdir *" (withFile "/w/d/.."))).shell.out =
          (withFile "/w/d/..").shell.out.write
            (Text.encode ("Directory removed: " ++ (Path.ofText "/w/d/..").text ++ "\n")) ∧
        (withFile "/w/d/..").shell.host.tree.Removed [nameW]
          (outcomeState (runLine .builtins "rmdir *" (withFile "/w/d/.."))).shell.host.tree) ∨
      ∃ message, (outcomeState (runLine .builtins "rmdir *" (withFile "/w/d/.."))).shell.out =
          (withFile "/w/d/..").shell.out.write
            (Text.encode ("Error removing directory: " ++ message ++ "\n")) ∧
        (outcomeState (runLine .builtins "rmdir *" (withFile "/w/d/.."))).shell.host.tree =
          (withFile "/w/d/..").shell.host.tree) ↔
    (withFile "/w/d/..").shell.host.tree.EndsAt (Path.ofText "/w/d/..") [nameW] :=
  rmdir_star_exact_iff (by decide) rfl (by decide) (by decide)

/-- From `/w` two lines are enough to empty it, with a report that it is gone. -/
theorem emptied_and_reported_gone :
    (runLines .builtins (withFile "/w") ["cd d/.."]).shell.host.tree.find
        (runLines .builtins (withFile "/w") ["cd d/.."]).shell.session.cwd = .ok ([nameW], .dir) ∧
      (runLines .builtins (withFile "/w") ["cd d/..", "rmdir *"]).shell.out.text =
        "Directory removed: /w/d/..\n" ∧
      (runLines .builtins (withFile "/w") ["cd d/..", "rmdir *"]).shell.host.tree.entries =
        [([nameW], .dir)] := by
  decide +kernel

end Console

end TreeShell
