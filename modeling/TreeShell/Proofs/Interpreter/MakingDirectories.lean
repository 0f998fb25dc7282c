import TreeShell.Proofs.Disk.ManyDirs
import TreeShell.Proofs.Interpreter.MissingFiles
import TreeShell.Proofs.Interpreter.Sessions

/-!
# `mkdir` in any order

`mkdir` makes one directory after the other and goes on after a failure. In a tree without
links each of them is made unless a file is in the way in the tree that the command was
entered in, whatever was made before it, and there is a line about each. So the arguments
may come in any order, and the command may be repeated, without a difference to the tree
or to what is said about any of them (`mkdir_any_order`).
-/

namespace TreeShell

theorem length_linesBytes_of_perm {lines lines' : List String} (h : lines.Perm lines') :
    (linesBytes lines).length = (linesBytes lines').length :=
  (h.flatMap_right _).length_eq

theorem Sink.fits_of_length_eq {k : Sink} {bytes bytes' : List UInt8}
    (h : bytes.length = bytes'.length) (hfits : k.Fits bytes) : k.Fits bytes' := by
  rw [Sink.Fits, ← h]
  exact hfits

namespace Shell

/-- The shell with another tree, and with the lines printed. -/
def made (s : Shell) (u : Tree) (lines : List String) : Shell :=
  { s with host := { s.host with tree := u }, out := s.out.write (linesBytes lines) }

variable {s : Shell} {u v : Tree}

theorem made_nil (s : Shell) : s.made s.host.tree [] = s := by
  rw [made, linesBytes_nil, Sink.write_nil]

theorem made_made (s : Shell) (u v : Tree) (lines lines' : List String) :
    (s.made u lines).made v lines' = s.made v (lines ++ lines') := by
  rw [made, made, made, linesBytes_append, Sink.write_append]

theorem printLine_of_fits {line : String} (h : s.out.Fits (linesBytes [line])) (u : Tree) :
    printLine line { s with host := { s.host with tree := u } } = .ok () (s.made u [line]) := by
  rw [linesBytes_cons, linesBytes_nil, List.append_nil] at h
  rw [made, linesBytes_cons, linesBytes_nil, List.append_nil]
  exact (print_eq _ _).trans (if_pos h)

end Shell

namespace Command

open Shell

/-- What `mkdir` prints for a path in the tree. -/
def mkdirLine (t : Tree) (p : Path) : String :=
  madeLine p (t.verdict p)

theorem mkdirLine_eq_iff {t : Tree} {p : Path} :
    mkdirLine t p = "Directory created: " ++ p.text ↔ ¬ t.Blocked p.address := by
  rw [← Tree.verdict_eq_ok_iff, mkdirLine]
  cases t.verdict p with
  | ok _ =>
    unfold madeLine
    exact iff_of_true rfl rfl
  | error e =>
    refine iff_of_false (fun hline => ?_) (by simp)
    have hreport := head?_encode_failed .creatingDirectory (.file e)
    have hcreated : (Text.encode ("Directory created: " ++ p.text)).head? = some 68 :=
      Text.head?_encode_append (by decide) p.text
    unfold madeLine at hline
    rw [← hline, hreport] at hcreated
    cases hcreated

/-- One line for each path is printed, and what can be made is made. -/
theorem makeDirs_of_ordinary {args lines : List String} {s : Shell}
    (hl : s.host.tree.Linkless) (hp : ∀ arg ∈ args, (s.session.resolve arg).Ordinary)
    (hlines : (args.map fun arg => mkdirLine s.host.tree (s.session.resolve arg)) = lines)
    (hfits : s.out.Fits (linesBytes lines)) :
    ∃ u, makeDirs args s = .ok () (s.made u lines) ∧
      Tree.MadeDirs (args.map s.session.resolve) s.host.tree u := by
  induction args generalizing s lines with
  | nil =>
    rw [List.map_nil] at hlines
    subst hlines
    refine ⟨s.host.tree, ?_, Tree.madeDirs_nil _⟩
    rw [made_nil]
    rfl
  | cons arg args ih =>
    obtain ⟨hparg, hpargs⟩ := List.forall_mem_cons.1 hp
    obtain ⟨u, hattempt, hmade⟩ := attempt_createDirs hl hparg
    let line := mkdirLine s.host.tree (s.session.resolve arg)
    let rest := args.map fun arg => mkdirLine s.host.tree (s.session.resolve arg)
    obtain rfl : [line] ++ rest = lines := hlines
    rw [linesBytes_append, Sink.fits_append] at hfits
    have hprint : printLine line _ = .ok () (s.made u [line]) := printLine_of_fits hfits.1 u
    -- what is said about the others is decided already
    have hrest : (args.map fun arg => mkdirLine u (s.session.resolve arg)) = rest := by
      simp only [mkdirLine, hmade.verdict_eq, rest]
    obtain ⟨v, hrun, hmore⟩ :=
      ih (s := s.made u [line]) (hmade.linkless hl) hpargs hrest hfits.2
    refine ⟨v, ?_, hmade.append hmore⟩
    rw [makeDirs_cons hattempt]
    exact (bind_of_ok hprint).trans (hrun.trans (by rw [made_made]))

end Command

namespace Console

open Shell

/-- What `mkdir` prints for the argument in the session. -/
def mkdirLine (c : Console) (arg : String) : String :=
  Command.mkdirLine c.shell.host.tree (c.shell.session.resolve arg)

/-- `mkdir` with the arguments prints the lines, leaves the tree `u`, and changes nothing
else. -/
def Makes (c : Console) (args lines : List String) (u : Tree) : Prop :=
  (Builtin.mkdir.action args).run c = .ok () { c with shell := c.shell.made u lines }

/-- The session and the arguments go along names that the system takes, without `.` and
`..`, and from the root. -/
structure Ordinary (c : Console) (args : List String) : Prop where
  absolute : c.shell.session.cwd.isAbsolute = true
  cwd_named : c.shell.session.cwd.Named
  named : ∀ arg ∈ args, (Path.ofText arg).Named
  short : ∀ arg ∈ args, (c.shell.session.resolve arg).text.utf8ByteSize ≤ Path.maxBytes

variable {c c' : Console} {args args' : List String}

theorem Ordinary.resolve (h : c.Ordinary args) :
    ∀ arg ∈ args, (c.shell.session.resolve arg).Ordinary := fun arg harg =>
  ⟨Path.isAbsolute_join h.absolute _, h.cwd_named.join (h.named arg harg), h.short arg harg⟩

theorem exists_makes (hne : args ≠ []) (hlinks : c.shell.host.tree.Linkless)
    (hargs : c.Ordinary args) (hfits : c.shell.out.Fits (linesBytes (args.map c.mkdirLine))) :
    ∃ u, c.Makes args (args.map c.mkdirLine) u ∧
      Tree.MadeDirs (args.map c.shell.session.resolve) c.shell.host.tree u := by
  obtain ⟨u, hrun, hmade⟩ := Command.makeDirs_of_ordinary hlinks hargs.resolve rfl hfits
  refine ⟨u, ?_, hmade⟩
  obtain ⟨arg, args, rfl⟩ := List.exists_cons_of_ne_nil hne
  have haction : Builtin.mkdir.action (arg :: args) = (Command.mkdir (arg :: args)).action := rfl
  rw [Makes, haction, run_action_of_ne_redirect (by simp)]
  exact onShell_of_ok (Command.guarded_of_ok _ hrun)

theorem Ordinary.perm (h : c.Ordinary args) (hperm : args.Perm args') : c.Ordinary args' where
  absolute := h.absolute
  cwd_named := h.cwd_named
  named arg harg := h.named arg (hperm.mem_iff.2 harg)
  short arg harg := h.short arg (hperm.mem_iff.2 harg)

theorem Ordinary.of_session (h : c.Ordinary args) (hsession : c'.shell.session = c.shell.session) :
    c'.Ordinary args := by
  obtain ⟨habs, hcwd, hnamed, hshort⟩ := h
  rw [← hsession] at habs hcwd hshort
  exact ⟨habs, hcwd, hnamed, hshort⟩

/-- In a tree without links `mkdir` says that it created a directory exactly if there was
no file at its path or above it when the command was entered. There is a line about each
argument, in their order, and in the end there is a directory at and above each of those
that were created, where nothing was, and nothing else is different. In any other order
of the arguments the tree gets the same entries and the same is said about each of them;
and so it is when the command is repeated, which changes nothing more. -/
theorem mkdir_any_order (hne : args ≠ []) (hlinks : c.shell.host.tree.Linkless)
    (hargs : c.Ordinary args) (hfits : c.shell.out.Fits (linesBytes (args.map c.mkdirLine))) :
    (∀ arg, c.mkdirLine arg = "Directory created: " ++ (c.shell.session.resolve arg).text ↔
      ¬ c.shell.host.tree.Blocked (c.shell.session.resolve arg).address) ∧
    ∃ u, c.Makes args (args.map c.mkdirLine) u ∧
      Tree.MadeDirs (args.map c.shell.session.resolve) c.shell.host.tree u ∧
      (∀ args', args.Perm args' → ∃ v, c.Makes args' (args'.map c.mkdirLine) v ∧ v.Same u) ∧
      ∀ c' : Console, c'.shell.session = c.shell.session → c'.shell.host.tree = u →
        c'.shell.out.Fits (linesBytes (args.map c.mkdirLine)) →
          ∃ v, c'.Makes args (args.map c.mkdirLine) v ∧ v.Same u := by
  obtain ⟨u, hmakes, hmade⟩ := exists_makes hne hlinks hargs hfits
  refine ⟨fun arg => Command.mkdirLine_eq_iff, u, hmakes, hmade, ?_, ?_⟩
  · intro args' hperm
    have hfits' : c.shell.out.Fits (linesBytes (args'.map c.mkdirLine)) :=
      Sink.fits_of_length_eq (length_linesBytes_of_perm (hperm.map _)) hfits
    have hne' : args' ≠ [] := fun hnil => hne (List.perm_nil.1 (hnil ▸ hperm))
    obtain ⟨v, hmakes', hmade'⟩ := exists_makes hne' hlinks (hargs.perm hperm) hfits'
    have hmem (p : Path) : p ∈ args'.map c.shell.session.resolve ↔
        p ∈ args.map c.shell.session.resolve := (hperm.map _).mem_iff.symm
    exact ⟨v, hmakes', (hmade'.congr hmem).same hmade⟩
  · intro c' hsession htree hfits'
    have hline : c'.mkdirLine = c.mkdirLine := by
      funext arg
      rw [mkdirLine, mkdirLine, htree, hsession, Command.mkdirLine, hmade.verdict_eq]
      rfl
    have hlinks' : c'.shell.host.tree.Linkless := htree ▸ hmade.linkless hlinks
    have hargs' : c'.Ordinary args := hargs.of_session hsession
    obtain ⟨v, hmakes', hmade'⟩ := exists_makes hne hlinks' hargs' (hline ▸ hfits')
    rw [hsession, htree] at hmade'
    exact ⟨v, hline ▸ hmakes', hmade.same_again hmade'⟩

theorem mkdir_any_order_beside_file :
    ∃ u, besideFile.Makes ["a/b", "f/x", "a//c/"]
        ["Directory created: /w/a/b", "Error creating directory: Not a directory: /w/f/x",
          "Directory created: /w/a//c/"] u ∧
      u.entry? (Path.ofText "/w/a").address = some .dir ∧
      u.entry? (Path.ofText "/w/f/x").address = none ∧
      ∃ v, besideFile.Makes ["a//c/", "f/x", "a/b"]
        ["Directory created: /w/a//c/", "Error creating directory: Not a directory: /w/f/x",
          "Directory created: /w/a/b"] v ∧ v.Same u := by
  have hargs : besideFile.Ordinary ["a/b", "f/x", "a//c/"] :=
    ⟨by decide, by decide, by decide, by decide⟩
  obtain ⟨-, u, hmakes, hmade, horder, -⟩ :=
    mkdir_any_order (by simp) (by decide) hargs (fits_of_unlimited rfl _)
  have hreversed : ["a/b", "f/x", "a//c/"].Perm ["a//c/", "f/x", "a/b"] :=
    (List.reverse_perm _).symm
  obtain ⟨v, hmakes', hsame⟩ := horder _ hreversed
  refine ⟨u, ?_, ?_, ?_, v, ?_, hsame⟩
  · exact hmakes
  · rw [hmade]
    decide
  · rw [hmade]
    decide
  · exact hmakes'

end Console

end TreeShell
