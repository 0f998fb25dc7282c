import TreeShell.Proofs.Disk.Listing
import TreeShell.Proofs.Interpreter.PrintingFiles

/-!
# `ls` shows what is there

`ls` prints the names in the current directory, one on each line, and `ls -r` prints them
from the last to the first. What it prints is decided by which names there are, so it is
the same after any lines that end with the same names in the current directory
(`listing_complete_and_canonical`).
-/

namespace TreeShell

namespace Command

open Shell

variable {s : Shell} {a : Address} {names : List String}

/-- The listing of the current directory. -/
theorem list_of_lists (hcwd : s.host.tree.find s.session.cwd = .ok (a, .dir))
    (hlists : s.host.tree.Lists a names) (reverse : Bool) :
    list reverse s = printLines (if reverse then names.reverse else names) s := by
  obtain ⟨names', hlists', hlist⟩ := Disk.listDir_of_find hcwd
  obtain rfl : names = names' := hlists.eq_of_entries hlists' fun _ => Iff.rfl
  rw [list, bind_of_ok (cwd_eq s), bind_of_ok (doing_of_ok hlist)]

end Command

namespace Console

open Command Shell

variable {c : Console} {line : String} {a : Address} {names : List String}

theorem onlyPrints_ls (hcwd : c.shell.host.tree.find c.shell.session.cwd = .ok (a, .dir))
    (hlists : c.shell.host.tree.Lists a names) {args : List String} {reverse : Bool}
    (hwords : Text.words line = Builtin.ls.name :: args)
    (hread : Builtin.ls.read? args = some (.ls reverse)) :
    OnlyPrints line (Text.ended (if reverse then names.reverse else names)) c
      (runLine .builtins line c) := by
  let started := c.started line Builtin.ls.name args
  have hlist := list_of_lists (s := started.shell) hcwd hlists reverse
  obtain ⟨u, htree, htext, hcomes⟩ := exists_comesTo_printLines args _ started.shell
  rw [← hlist] at hcomes
  exact onlyPrints_of_comesTo hwords hread (by simp) (moves_list reverse) htree htext hcomes

/-- A directory is listed with the name of each entry, once, in the order of the bytes, and
the list is the same in whatever order the names are found. `ls` prints it, and `ls -r`
prints it from the end, one name on each line. After any lines that lead to the same names
in the current directory, the same is printed. -/
theorem listing_complete_and_canonical :
    (∀ (h : Host) (p : Path) (a : Address), h.tree.find p = .ok (a, .dir) →
      ∃ names, h.tree.Lists a names ∧ Disk.listDir p h = .ok names h ∧
        ∀ enumerated : List String, enumerated.Perm names →
          (enumerated.mergeSort fun n m => decide (n ≤ m)) = names) ∧
    (∀ (c : Console) (a : Address) (names : List String),
      c.shell.host.tree.find c.shell.session.cwd = .ok (a, .dir) →
      c.shell.host.tree.Lists a names → ∀ line,
        (Text.words line = ["ls"] →
          OnlyPrints line (Text.ended names) c (runLine .builtins line c)) ∧
        (Text.words line = ["ls", "-r"] →
          OnlyPrints line (Text.ended names.reverse) c (runLine .builtins line c))) ∧
    ∀ (before before' : Console) (lines lines' : List String),
      let c := runLines .builtins before lines
      let c' := runLines .builtins before' lines'
      ∀ a a', c.shell.host.tree.find c.shell.session.cwd = .ok (a, .dir) →
        c'.shell.host.tree.find c'.shell.session.cwd = .ok (a', .dir) →
        (∀ n, c.shell.host.tree.entry? (n :: a) ≠ none ↔
          c'.shell.host.tree.entry? (n :: a') ≠ none) →
        ∀ line, Text.words line = ["ls"] ∨ Text.words line = ["ls", "-r"] →
          ∃ text, OnlyPrints line text c (runLine .builtins line c) ∧
            OnlyPrints line text c' (runLine .builtins line c') := by
  have hls : Builtin.ls.read? [] = some (.ls false) := rfl
  have hreverse : Builtin.ls.read? ["-r"] = some (.ls true) := rfl
  refine ⟨fun h p a hfind => ?_, fun c a names hcwd hlists line => ?_,
    fun before before' lines lines' => ?_⟩
  · obtain ⟨names, hlists, hlist⟩ := Disk.listDir_of_find hfind
    exact ⟨names, hlists, hlist, fun _ hperm => hlists.mergeSort_eq hperm⟩
  · exact ⟨fun hwords => onlyPrints_ls hcwd hlists hwords hls,
      fun hwords => onlyPrints_ls hcwd hlists hwords hreverse⟩
  · intro c c' a a' hcwd hcwd' hsame line hwords
    obtain ⟨names, hlists, -⟩ := Disk.listDir_of_find hcwd
    obtain ⟨names', hlists', -⟩ := Disk.listDir_of_find hcwd'
    obtain rfl := hlists.eq_of_entries hlists' hsame
    rcases hwords with hwords | hwords
    · exact ⟨_, onlyPrints_ls hcwd hlists hwords hls, onlyPrints_ls hcwd' hlists' hwords hls⟩
    · exact ⟨_, onlyPrints_ls hcwd hlists hwords hreverse,
        onlyPrints_ls hcwd' hlists' hwords hreverse⟩

/-- A session in a directory whose names have another order when case does not count, and
another one in UTF-16. -/
def besideNames : Console :=
  onTree [("/a", .file []), ("/😀", .dir), ("/B", .link (Path.ofText "x")), ("/l", .dir),
    ("/\uFFFD", .file []), ("/ab", .dir)] "/"

/-- A session behind a link, in a directory with the same names. -/
def besideSameNames : Console :=
  onTree [("/ab", .file [65]), ("/\uFFFD", .dir), ("/l", .link Path.root), ("/B", .file []),
    ("/a", .dir), ("/😀", .link (Path.ofText "b"))] "/l/."

theorem listing_complete_and_canonical_besideNames :
    (∃ names, Disk.listDir (Path.ofText "/l") besideSameNames.shell.host =
        .ok names besideSameNames.shell.host ∧ "ab" ∈ names ∧ "x" ∉ names) ∧
      OnlyPrints "ls -r" "😀\n\uFFFD\nl\nab\na\nB\n" besideNames
        (runLine .builtins "ls -r" besideNames) ∧
      ∃ text, OnlyPrints "ls" text (runLines .builtins besideNames ["ls -r"])
          (runLine .builtins "ls" (runLines .builtins besideNames ["ls -r"])) ∧
        OnlyPrints "ls" text besideSameNames (runLine .builtins "ls" besideSameNames) := by
  let names := ["B", "a", "ab", "l", "\uFFFD", "😀"]
  have hfind : besideSameNames.shell.host.tree.find (Path.ofText "/l") = .ok ([], .dir) := by
    decide
  have hcwd : besideNames.shell.host.tree.find besideNames.shell.session.cwd = .ok ([], .dir) := by
    decide
  have hcwd' : besideSameNames.shell.host.tree.find besideSameNames.shell.session.cwd =
      .ok ([], .dir) := by
    decide
  have hsorted : names.Pairwise fun n m => Text.encode n < Text.encode m := by decide
  have hlists : besideNames.shell.host.tree.Lists [] names :=
    Tree.lists_of_perm hsorted (by decide)
  have hlists' : besideSameNames.shell.host.tree.Lists [] names :=
    Tree.lists_of_perm hsorted (by decide)
  have hls : Text.words "ls" = ["ls"] := by decide
  have hreverse : Text.words "ls -r" = ["ls", "-r"] := by decide
  obtain ⟨hlisting, hprints, hsame⟩ := listing_complete_and_canonical
  have hreversed := (hprints besideNames [] names hcwd hlists "ls -r").2 hreverse
  refine ⟨?_, hreversed, ?_⟩
  · obtain ⟨names', hnames', hlist, -⟩ := hlisting _ _ _ hfind
    obtain rfl : names = names' := hlists'.eq_of_entries hnames' fun _ => Iff.rfl
    exact ⟨names, hlist, by decide, by decide⟩
  · have htree : (runLines .builtins besideNames ["ls -r"]).shell.host.tree =
        besideNames.shell.host.tree := hreversed.tree
    have hcwd'' : (runLines .builtins besideNames ["ls -r"]).shell.session.cwd =
        besideNames.shell.session.cwd := by
      rw [runLines, runLines, hreversed.session, Session.cwd_record]
    refine hsame besideNames besideSameNames ["ls -r"] [] [] [] ?_ hcwd' (fun n => ?_) "ls"
      (Or.inl hls)
    · rw [htree, hcwd'']
      exact hcwd
    · rw [htree, ← hlists.mem_text_iff]
      exact hlists'.mem_text_iff n

end Console

end TreeShell
