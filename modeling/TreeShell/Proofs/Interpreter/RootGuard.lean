import TreeShell.Proofs.Command.Steps
import TreeShell.Proofs.Interpreter.Sessions

/-!
# The guard of the root

`rmdir *` refuses to remove the root when the current directory has no parent.
That is a question about the text of the path. The text of the root in every
spelling without a name has no parent, but `cd` also leads to texts such as
`/w/..`, which is the root and has one: there the guard lets the command
through. So the refusal is printed exactly for the former
(`refuses_root_iff`), and the latter loses what is below the root
(`root_emptied_or_unlinked`).
-/

namespace TreeShell

theorem Text.head?_encode_append {s : String} {b : UInt8} (h : (Text.encode s).head? = some b)
    (t : String) : (Text.encode (s ++ t)).head? = some b := by
  rw [Text.encode_append, List.head?_append, h]
  rfl

/-- No failure of a file operation reads like the refusal. -/
theorem FsError.head?_encode_message (e : FsError) (t : String) :
    (Text.encode (e.message ++ t)).head? ≠ (Text.encode (Reason.rootRefused.text ++ t)).head? := by
  have hrefused : (Text.encode (Reason.rootRefused.text ++ t)).head? = some 114 :=
    Text.head?_encode_append (by decide) t
  have hmessage (b : UInt8) (hb : b ≠ 114) (head rest : String) (hm : e.message = head ++ rest)
      (hh : (Text.encode head).head? = some b) :
      (Text.encode (e.message ++ t)).head? ≠ some 114 := by
    rw [hm, Text.head?_encode_append (Text.head?_encode_append hh rest) t]
    simpa using hb
  rw [hrefused]
  cases e with
  | notFound path =>
    exact hmessage 78 (by decide) "No such file or directory: " path.text rfl (by decide)
  | notAFile path =>
    exact hmessage 78 (by decide) "Not a regular file: " path.text rfl (by decide)
  | notADirectory path =>
    exact hmessage 78 (by decide) "Not a directory: " path.text rfl (by decide)
  | notEmpty path =>
    exact hmessage 68 (by decide) "Directory is not empty: " path.text rfl (by decide)
  | alreadyExists path =>
    exact hmessage 70 (by decide) "File already exists: " path.text rfl (by decide)
  | noParent path =>
    exact hmessage 78 (by decide) "No parent directory: " path.text rfl (by decide)
  | io path source =>
    have hio : message (.io path source) =
        "I/O failure on " ++ (path.text ++ (": " ++ source.text)) := by
      rw [← String.append_assoc, ← String.append_assoc]
      rfl
    exact hmessage 73 (by decide) _ _ hio (by decide)

namespace Command

open Shell

variable {s : Shell}

/-- What is printed about a removal, done or failed, is not the refusal. -/
theorem encode_ne_refusal {text : String} (h : (∃ rest, text = "Directory removed: " ++ rest) ∨
    ∃ e : FsError, text = "Error removing directory: " ++ e.message) :
    Text.encode (text ++ "\n") ≠
      Text.encode "Error removing directory: refusing to remove the filesystem root\n" := by
  intro hbytes
  rcases h with ⟨rest, rfl⟩ | ⟨e, rfl⟩
  · have hhead := congrArg List.head? hbytes
    rw [String.append_assoc, Text.head?_encode_append (b := 68) (by decide)] at hhead
    exact absurd hhead (by decide)
  · have hsplit : "Error removing directory: refusing to remove the filesystem root\n" =
        "Error removing directory: " ++ (Reason.rootRefused.text ++ "\n") := by
      decide
    rw [hsplit, String.append_assoc, Text.encode_append _ (Reason.rootRefused.text ++ "\n"),
      Text.encode_append _ (e.message ++ "\n"), List.append_cancel_left_eq] at hbytes
    exact e.head?_encode_message "\n" (congrArg List.head? hbytes)

section Report

variable {p : Path} {host : Host}

theorem guarded_removeDir_of_ok (hu : s.out.room? = none) (h : s.session.cwd.parent? = some p)
    (hrm : Disk.removeTree s.session.cwd s.host = .ok () host) (name : String) :
    (outcomeState (guarded name (removeDir .currentTree) s)).host.tree = host.tree ∧
      (outcomeState (guarded name (removeDir .currentTree) s)).out =
        s.out.write (Text.encode ("Directory removed: " ++ s.session.cwd.text ++ "\n")) := by
  have hprint := printLine_of_unlimited (s := { s with host := host }) hu
    ("Directory removed: " ++ s.session.cwd.text)
  have hbody : removeDir .currentTree s = recoverCwd
      (wrote { s with host := host } ("Directory removed: " ++ s.session.cwd.text ++ "\n")) := by
    rw [removeDir_of_parent? h, bind_of_ok (doing_of_ok hrm), reportRemoval, bind_of_ok hprint]
  obtain ⟨s', hs', htree, hout⟩ := exists_recoverCwd_eq
    (wrote { s with host := host } ("Directory removed: " ++ s.session.cwd.text ++ "\n"))
  rw [guarded, hbody, hs']
  exact ⟨htree, hout⟩

theorem guarded_removeDir_of_error {e : FsError} (h : s.session.cwd.parent? = some p)
    (hrm : Disk.removeTree s.session.cwd s.host = .error e host) (name : String) :
    (outcomeState (guarded name (removeDir .currentTree) s)).host.tree = host.tree ∧
      (outcomeState (guarded name (removeDir .currentTree) s)).out =
        s.out.write (Text.encode ("Error removing directory: " ++ e.message ++ "\n")) := by
  have hbody := removeDir_of_parent?_of_error h hrm
  have htext : (Fault.failed .removingDirectory (.file e)).text =
      "Error removing directory: " ++ e.message := String.append_assoc ..
  rw [outcomeState_guarded_of_error hbody, htext]
  exact ⟨rfl, rfl⟩

/-- The removal of a tree reports that the directory is gone, or a failure of
the file operation, and changes the tree by that operation only. -/
theorem guarded_removeDir_of_parent? (hu : s.out.room? = none)
    (h : s.session.cwd.parent? = some p) (name : String) :
    (outcomeState (guarded name (removeDir .currentTree) s)).host.tree =
        (outcomeState (Disk.removeTree s.session.cwd s.host)).tree ∧
      ∃ text, (outcomeState (guarded name (removeDir .currentTree) s)).out =
          s.out.write (Text.encode (text ++ "\n")) ∧
        ((∃ rest, text = "Directory removed: " ++ rest) ∨
          ∃ e : FsError, text = "Error removing directory: " ++ e.message) := by
  cases hrm : Disk.removeTree s.session.cwd s.host with
  | error e host =>
    obtain ⟨htree, hout⟩ := guarded_removeDir_of_error h hrm name
    exact ⟨htree, _, hout, Or.inr ⟨e, rfl⟩⟩
  | ok _ host =>
    obtain ⟨htree, hout⟩ := guarded_removeDir_of_ok hu h hrm name
    exact ⟨htree, _, hout, Or.inl ⟨_, rfl⟩⟩

end Report

end Command

namespace Console

open Command

variable {c : Console} {line : String}

theorem shell_runLine_rmdir {arg : String} (hwords : Text.words line = ["rmdir", arg])
    (c : Console) :
    (outcomeState (runLine .builtins line c)).shell = outcomeState
      (guarded Builtin.rmdir.name (removeDir (Removal.ofArg arg))
        (c.started line "rmdir" [arg]).shell) := by
  have hread : Builtin.rmdir.read? [arg] = some (.rmdir (Removal.ofArg arg)) := rfl
  exact shell_runLine hwords hread nofun c

/-- With the root as the current directory, `rmdir *` prints the refusal and
changes nothing exactly when the path of the current directory is made of
slashes and single dots. -/
theorem refuses_root_iff (hwords : Text.words line = ["rmdir", "*"])
    (hout : c.shell.out.room? = none)
    (hroot : c.shell.host.tree.find c.shell.session.cwd = .ok ([], .dir)) :
    ((outcomeState (runLine .builtins line c)).shell.out = c.shell.out.write
        (Text.encode "Error removing directory: refusing to remove the filesystem root\n") ∧
      (outcomeState (runLine .builtins line c)).shell.host.tree = c.shell.host.tree ∧
      (outcomeState (runLine .builtins line c)).shell.session.cwd = c.shell.session.cwd) ↔
    c.shell.session.cwd.isAbsolute = true ∧
      ∀ piece ∈ c.shell.session.cwd.pieces, piece.isIdle = true := by
  have hne : c.shell.session.cwd ≠ Path.empty := by
    intro h
    have hr := Tree.refusal?_of_find hroot
    rw [h] at hr
    exact absurd hr (by decide)
  rw [← Path.parent?_eq_none_iff hne, shell_runLine_rmdir hwords,
    Removal.ofArg_star]
  constructor
  · rintro ⟨hrefused, -, -⟩
    cases hp : c.shell.session.cwd.parent? with
    | none => rfl
    | some p =>
      exfalso
      obtain ⟨-, text, htext, hcases⟩ := guarded_removeDir_of_parent?
        (s := (c.started line "rmdir" ["*"]).shell) hout hp Builtin.rmdir.name
      rw [hrefused] at htext
      have hbytes := (Shell.write_inj_of_unlimited hout).1 htext
      exact encode_ne_refusal hcases hbytes.symm
  · intro hp
    have hbody := removeDir_of_parent?_eq_none (s := (c.started line "rmdir" ["*"]).shell) hp
    rw [outcomeState_guarded_of_error hbody]
    exact ⟨rfl, rfl, rfl⟩

/-- A session on a tree with `/w` and the file `/keep`, in the directory of the
given text. -/
def withKeep (cwd : String) : Console where
  shell :=
    { host :=
        { tree := Tree.empty.plantAll
            [(Path.ofText "/w", .dir), (Path.ofText "/keep", .file [107])] }
      session := { cwd := Path.ofText cwd } }
  source := { replies := [] }

theorem refuses_root_doubled_slash :
    (outcomeState (runLine .builtins "rmdir *" (withKeep "//./"))).shell.out =
        (withKeep "//./").shell.out.write
          (Text.encode "Error removing directory: refusing to remove the filesystem root\n") ∧
      (outcomeState (runLine .builtins "rmdir *" (withKeep "//./"))).shell.host.tree =
        (withKeep "//./").shell.host.tree ∧
      (outcomeState (runLine .builtins "rmdir *" (withKeep "//./"))).shell.session.cwd =
        (withKeep "//./").shell.session.cwd :=
  (refuses_root_iff (by decide) rfl (by decide)).2 (by decide)

/-- From `/w` two lines are enough to lose the whole tree. -/
theorem root_lost_above_w :
    (runLines .builtins (withKeep "/w") ["cd /w/.."]).shell.host.tree.find
        (runLines .builtins (withKeep "/w") ["cd /w/.."]).shell.session.cwd = .ok ([], .dir) ∧
      (runLines .builtins (withKeep "/w") ["cd /w/.."]).shell.host.tree.entries.length = 2 ∧
      (runLines .builtins (withKeep "/w") ["cd /w/..", "rmdir *"]).shell.host.tree.entries = [] ∧
      (runLines .builtins (withKeep "/w") ["cd /w/..", "rmdir *"]).shell.out.text =
        "Directory removed: /w/..\n" := by
  decide +kernel

/-- Otherwise everything below the root is gone, or a link that led to the root
from the last place of the path. -/
theorem root_emptied_or_unlinked (hwords : Text.words line = ["rmdir", "*"])
    (hout : c.shell.out.room? = none)
    (hroot : c.shell.host.tree.find c.shell.session.cwd = .ok ([], .dir))
    (hname : c.shell.session.cwd.parent? ≠ none) :
    (∀ a, a ≠ [] → (outcomeState (runLine .builtins line c)).shell.host.tree.entry? a = none) ∨
      ∃ b target, c.shell.host.tree.locate .entry c.shell.session.cwd = .ok b ∧
        c.shell.host.tree.entry? b = some (.link target) ∧
        (outcomeState (runLine .builtins line c)).shell.host.tree = c.shell.host.tree.erase b := by
  obtain ⟨p, hp⟩ := Option.ne_none_iff_exists'.1 hname
  obtain ⟨htree, -⟩ := guarded_removeDir_of_parent?
    (s := (c.started line "rmdir" ["*"]).shell) hout hp Builtin.rmdir.name
  rw [shell_runLine_rmdir hwords, Removal.ofArg_star, htree]
  exact Disk.tree_removeTree_root hroot

end Console

end TreeShell
