import TreeShell.Proofs.Command.Effects
import TreeShell.Proofs.Command.Shapes
import TreeShell.Proofs.Command.Steps
import TreeShell.Proofs.Disk.Locality
import TreeShell.Proofs.Shell.Upshot

/-!
# The upshots of the commands that take paths

What such a command comes to depends on the tree and on the paths that its arguments
stand for, and on nothing else: not on the directory they were taken from, nor on how
they were typed, save where an argument is shown. So there is one upshot for all shells
with the same tree and for all arguments that stand for the same paths there
(`exists_upshot_body`). Only `mkdir` needs to know how much the output takes, since it
does not go on when its output is closed.
-/

namespace TreeShell.Command

open Shell

variable {t : Tree} {path : Path} {e : FsError}

/-- The upshot of the command with any argument that stands for the path, in any shell
with the tree. -/
def IsUpshot (t : Tree) (path : Path) (command : String → ShellM Unit) (u : Upshot) : Prop :=
  ∀ arg s, s.host.tree = t → s.session.resolve arg = path →
    ComesTo id [arg] s.out u (command arg s)

section Parts

theorem comesTo_printLine (args : List String) (line : String) (s : Shell) :
    ComesTo id args s.out ⟨s.host.tree, [.words (line ++ "\n")], none⟩ (printLine line s) :=
  comesTo_print (shown_words args _) s

theorem comesTo_printLines (args : List String) (lines : List String) (s : Shell) :
    ComesTo id args s.out ⟨s.host.tree, lines.map fun line => .words (line ++ "\n"), none⟩
      (printLines lines s) := by
  induction lines generalizing s with
  | nil => exact comesTo_ok s
  | cons line rest ih =>
    exact comesTo_print_bind (shown_words args _) rfl (ih (s.wrote (line ++ "\n")))

theorem comesTo_recoverCwd (args : List String) (s : Shell) :
    ComesTo id args s.out ⟨s.host.tree, [], none⟩ (recoverCwd s) := by
  rw [recoverCwd, get_bind]
  cases nearestDir? s.host.tree s.session.cwd with
  | none => exact comesTo_ok s
  | some dir =>
    simp only
    split
    · exact comesTo_ok s
    · exact comesTo_ok (s.moved dir)

/-- What is printed for an argument that names no regular file. -/
def notFoundFragments (index : Nat) : List Fragment :=
  [.words "File not found: ", .arg index, .words "\n"]

theorem comesTo_printNotFound (args : List String) (index : Nat) (s : Shell) :
    ComesTo id args s.out ⟨s.host.tree, notFoundFragments index, none⟩
      (printLine (notFoundText (args.getD index "")) s) :=
  comesTo_print (by
    unfold notFoundText
    simp [notFoundFragments, shown, Fragment.shown, String.append_assoc]) s

theorem exists_upshot_answerRemoval (path : Path) (e : FsError) (t : Tree) :
    ∃ u : Upshot, (∀ i, .arg i ∉ u.text) ∧ ∀ args (s : Shell), s.host.tree = t →
      ComesTo id args s.out u (answerRemoval path e s) := by
  have hline (line : String) : ∃ u : Upshot, (∀ i, .arg i ∉ u.text) ∧ ∀ args (s : Shell),
      s.host.tree = t → ComesTo id args s.out u (printLine line s) :=
    ⟨⟨t, [.words (line ++ "\n")], none⟩, by simp,
      fun args s hs => hs ▸ comesTo_printLine args line s⟩
  cases e with
  | notEmpty _ => exact hline _
  | notFound _ => exact hline _
  | notADirectory _ => exact hline _
  | _ => exact ⟨⟨t, [], some _⟩, by simp, fun args s hs => hs ▸ comesTo_error _ s⟩

theorem exists_upshot_answerFile (task : Task) (e : FsError) (t : Tree) :
    ∃ u : Upshot, ∀ arg (s : Shell), s.host.tree = t →
      ComesTo id [arg] s.out u (answerFile task arg e s) := by
  have hmissing : ∃ u : Upshot, ∀ arg (s : Shell), s.host.tree = t →
      ComesTo id [arg] s.out u (printLine (notFoundText arg) s) :=
    ⟨⟨t, notFoundFragments 0, none⟩, fun arg s hs => hs ▸ comesTo_printNotFound [arg] 0 s⟩
  cases e with
  | notFound _ => exact hmissing
  | notAFile _ => exact hmissing
  | _ => exact ⟨⟨t, [], some _⟩, fun arg s hs => hs ▸ comesTo_error _ s⟩

/-- A file operation, and a line about it when it went well. -/
theorem exists_upshot_doing {operation : Disk Unit} (h : Respects Host.SameTree operation)
    (task : Task) (t : Tree) (fragments : List Fragment) :
    ∃ u : Upshot, (∀ fragment ∈ u.text, fragment ∈ fragments) ∧ ∀ args text (s : Shell),
      s.host.tree = t → shown args fragments = text ++ "\n" →
        ComesTo id args s.out u ((doing task operation >>= fun _ => printLine text) s) := by
  rcases Disk.ok_or_error_of_respects h t with ⟨_, t', hok⟩ | ⟨e, t', herror⟩
  · refine ⟨⟨t', fragments, none⟩, fun _ hmem => hmem, fun args text s hs hshown => ?_⟩
    obtain ⟨host, rfl, hrun⟩ := hok s.host hs
    rw [bind_of_ok (doing_of_ok hrun)]
    exact comesTo_print hshown { s with host := host }
  · refine ⟨⟨t', [], some (.failed task (.file e))⟩, by simp, fun args text s hs _ => ?_⟩
    obtain ⟨host, rfl, hrun⟩ := herror s.host hs
    rw [bind_of_error (doing_of_error hrun)]
    exact comesTo_error _ { s with host := host }

end Parts

section OnePath

theorem exists_upshot_touchFile (t : Tree) (path : Path) :
    ∃ u, (∀ i, .arg i ∉ u.text) ∧ IsUpshot t path touchFile u := by
  obtain ⟨u, htext, hu⟩ := exists_upshot_doing (Disk.respects_createFile path) .creatingFile t
    [.words ("File created: " ++ path.text ++ "\n")]
  refine ⟨u, fun i hi => ?_, fun arg s hs hpath => ?_⟩
  · cases List.mem_singleton.1 (htext _ hi)
  · rw [touchFile, bind_of_ok (resolve_eq arg s), hpath]
    exact hu [arg] _ s hs (shown_words [arg] _)

theorem exists_upshot_removeEmptyDir (t : Tree) (path : Path) :
    ∃ u, (∀ i, .arg i ∉ u.text) ∧
      IsUpshot t path (fun arg => removeDir (.emptyDir arg)) u := by
  rcases Disk.ok_or_error_of_respects (Disk.respects_removeEmptyDir path) t with
    ⟨_, t', hok⟩ | ⟨e, t', herror⟩
  · refine ⟨⟨t', [.words ("Directory removed: " ++ path.text ++ "\n")], none⟩, by simp,
      fun arg s hs hpath => ?_⟩
    obtain ⟨host, rfl, hrun⟩ := hok s.host hs
    rw [← hpath] at hrun ⊢
    have hremoved := removeDir_emptyDir_of_ok hrun
    simp only [hremoved]
    exact comesTo_print_bind (s := { s with host := host }) (shown_words [arg] _) rfl
      (comesTo_recoverCwd [arg] _)
  · obtain ⟨u, htext, hu⟩ := exists_upshot_answerRemoval path e t'
    refine ⟨u, htext, fun arg s hs hpath => ?_⟩
    obtain ⟨host, htree, hrun⟩ := herror s.host hs
    rw [← hpath] at hrun hu
    simp only [removeDir_emptyDir_of_error hrun]
    exact hu [arg] { s with host := host } htree

theorem exists_upshot_removeFile (t : Tree) (path : Path) :
    ∃ u, IsUpshot t path removeFile u := by
  rcases Disk.ok_or_error_of_respects (Disk.respects_deleteFile path) t with
    ⟨_, t', hok⟩ | ⟨e, t', herror⟩
  · refine ⟨⟨t', [.words ("File removed: " ++ path.text ++ "\n")], none⟩,
      fun arg s hs hpath => ?_⟩
    obtain ⟨host, rfl, hrun⟩ := hok s.host hs
    rw [removeFile, bind_of_ok (resolve_eq arg s), hpath, bind_of_ok (attempt_of_ok hrun)]
    exact comesTo_printLine [arg] _ { s with host := host }
  · obtain ⟨u, hu⟩ := exists_upshot_answerFile .removingFile e t'
    refine ⟨u, fun arg s hs hpath => ?_⟩
    obtain ⟨host, htree, hrun⟩ := herror s.host hs
    rw [← hpath] at hrun
    rw [removeFile_of_error hrun]
    exact hu arg { s with host := host } htree

theorem exists_upshot_countFile (t : Tree) (path : Path) :
    ∃ u, IsUpshot t path countFile u := by
  rcases Disk.readLines_ok_or_error path t with ⟨lines, hok⟩ | ⟨e, herror⟩
  · let n := Text.Counts.ofLines lines
    refine ⟨⟨t, [.words (toString n.lines ++ " " ++ toString n.words ++ " " ++
      toString n.chars ++ " "), .arg 0, .words "\n"], none⟩, fun arg s hs hpath => ?_⟩
    have hrun := hok s.host hs
    rw [countFile, bind_of_ok (resolve_eq arg s), hpath, bind_of_ok (attempt_of_ok hrun), ← hs]
    exact comesTo_print (by simp [shown, Fragment.shown, String.append_assoc, n]) s
  · obtain ⟨u, hu⟩ := exists_upshot_answerFile .readingFile e t
    refine ⟨u, fun arg s hs hpath => ?_⟩
    have hrun := herror s.host hs
    rw [← hpath] at hrun
    rw [countFile_of_error hrun]
    exact hu arg s hs

theorem exists_upshot_finishRedirect (mode : WriteMode)
    (answer : Except Fault (Option String)) (t : Tree) (path : Path) :
    ∃ u, IsUpshot t path (fun arg => finishRedirect mode arg answer) u := by
  match answer with
  | .error e => exact ⟨⟨t, [], some e⟩, fun arg s hs _ => hs ▸ comesTo_error e s⟩
  | .ok none =>
    let fragments : List Fragment :=
      [.words "No content read, ", .arg 0, .words " left unchanged\n"]
    refine ⟨⟨t, .words ("" ++ "\n") :: fragments, none⟩, fun arg s hs _ => ?_⟩
    subst hs
    have hshown : shown [arg] fragments =
        "No content read, " ++ arg ++ " left unchanged" ++ "\n" := by
      simp [fragments, shown, Fragment.shown, String.append_assoc]
    have hlast := comesTo_print hshown (s.wrote ("" ++ "\n"))
    exact comesTo_print_bind (shown_words [arg] _) rfl hlast
  | .ok (some content) =>
    obtain ⟨u, -, hu⟩ := exists_upshot_doing (Disk.respects_writeLines path [content] mode)
      .writingFile t [.words "Content written to ", .arg 0, .words "\n"]
    refine ⟨u, fun arg s hs hpath => ?_⟩
    have hresolve := resolve_eq arg s
    rw [hpath] at hresolve
    have hrun : finishRedirect mode arg (.ok (some content)) s =
        (doing .writingFile (Disk.writeLines path [content] mode) >>= fun _ =>
          printLine ("Content written to " ++ arg)) s :=
      bind_of_ok hresolve
    simp only [hrun]
    exact hu [arg] _ s hs (by simp [shown, Fragment.shown, String.append_assoc])

end OnePath

section ManyPaths

theorem exists_upshot_copy (t : Tree) (source target : Path) :
    ∃ u, ∀ arg arg' (s : Shell), s.host.tree = t → s.session.resolve arg = source →
      s.session.resolve arg' = target → ComesTo id [arg, arg'] s.out u (copy arg arg' s) := by
  obtain ⟨u, -, hu⟩ := exists_upshot_doing (Disk.respects_copy source target) .copying t
    [.words "Copied: ", .arg 0, .words " to ", .arg 1, .words "\n"]
  refine ⟨u, fun arg arg' s hs hsource htarget => ?_⟩
  rw [copy, bind_of_ok (resolve_eq arg s), bind_of_ok (resolve_eq arg' s), hsource, htarget]
  exact hu [arg, arg'] _ s hs (by simp [shown, Fragment.shown, String.append_assoc])

theorem exists_attempt_eq {α : Type} {operation : Disk α}
    (h : Respects Host.SameTree operation) (t : Tree) :
    ∃ outcome t', ∀ s : Shell, s.host.tree = t →
      ∃ host, host.tree = t' ∧ attempt operation s = .ok outcome { s with host := host } := by
  rcases Disk.ok_or_error_of_respects h t with ⟨a, t', hok⟩ | ⟨e, t', herror⟩
  · refine ⟨.ok a, t', fun s hs => ?_⟩
    obtain ⟨host, htree, hrun⟩ := hok s.host hs
    exact ⟨host, htree, attempt_of_ok hrun⟩
  · refine ⟨.error e, t', fun s hs => ?_⟩
    obtain ⟨host, htree, hrun⟩ := herror s.host hs
    exact ⟨host, htree, attempt_of_error hrun⟩

/-- What is said about a directory that was made, or could not be. -/
def madeLine (path : Path) : Except FsError Unit → String
  | .ok _ => "Directory created: " ++ path.text
  | .error e => (Fault.failed .creatingDirectory (.file e)).text

theorem makeDirs_cons {outcome : Except FsError Unit} {arg : String} {s s' : Shell}
    (h : attempt (Disk.createDirs (s.session.resolve arg)) s = .ok outcome s')
    (rest : List String) : makeDirs (arg :: rest) s =
      (printLine (madeLine (s.session.resolve arg) outcome) >>= fun _ => makeDirs rest) s' := by
  rw [makeDirs, bind_of_ok (resolve_eq arg s), bind_of_ok h]
  cases outcome <;> rfl

/-- Each line about a directory either fits, and the next directory is made, or it does
not and the command ends. -/
theorem exists_upshot_makeDirs (paths : List Path) (t : Tree) (room? : Option Nat) :
    ∃ u : Upshot, (∀ i, .arg i ∉ u.text) ∧ ∀ typed dirs (s : Shell), s.host.tree = t →
      s.out.room? = room? → dirs.map s.session.resolve = paths →
        ComesTo id typed s.out u (makeDirs dirs s) := by
  induction paths generalizing t room? with
  | nil =>
    refine ⟨⟨t, [], none⟩, by simp, fun typed dirs s hs _ hpaths => ?_⟩
    rw [List.map_eq_nil_iff.1 hpaths, ← hs]
    exact comesTo_ok s
  | cons path paths ih =>
    obtain ⟨outcome, t', hattempt⟩ := exists_attempt_eq (Disk.respects_createDirs path) t
    let k : Sink := { room? := room? }
    let line := madeLine path outcome
    let bytes := Text.encode (line ++ "\n")
    have hstep (arg : String) (rest : List String) (s : Shell) (hs : s.host.tree = t)
        (hpath : s.session.resolve arg = path) : ∃ host, host.tree = t' ∧
          makeDirs (arg :: rest) s =
            (printLine line >>= fun _ => makeDirs rest) { s with host := host } := by
      subst hpath
      obtain ⟨host, htree, hrun⟩ := hattempt s hs
      exact ⟨host, htree, makeDirs_cons hrun rest⟩
    -- a line that is not taken ends the command before the other directories are made
    by_cases hfits : k.Fits bytes
    · obtain ⟨u, htext, hu⟩ := ih t' (k.write bytes).room?
      refine ⟨u.after [.words (line ++ "\n")], ?_, fun typed dirs s hs hroom hpaths => ?_⟩
      · intro i
        simp [Upshot.after, htext i]
      · obtain ⟨arg, rest, rfl, hpath, hrest⟩ := List.map_eq_cons_iff.1 hpaths
        obtain ⟨host, htree, hrun⟩ := hstep arg rest s hs hpath
        have hfits' : s.out.Fits bytes := (Sink.fits_of_room hroom).2 hfits
        have hprint : printLine line { s with host := host } =
            .ok () (Shell.wrote { s with host := host } (line ++ "\n")) := by
          rw [printLine, print_eq, if_pos hfits']
        rw [hrun, bind_of_ok hprint]
        apply ComesTo.after
        · rw [shown_words]
          exact hfits'
        · rw [shown_words]
          exact hu typed rest (Shell.wrote { s with host := host } (line ++ "\n")) htree
            (Sink.room_write_of_room hroom bytes) hrest
    · refine ⟨(⟨t', [], none⟩ : Upshot).after [.words (line ++ "\n")], by simp [Upshot.after],
        fun typed dirs s hs hroom hpaths => ?_⟩
      obtain ⟨arg, rest, rfl, hpath, -⟩ := List.map_eq_cons_iff.1 hpaths
      obtain ⟨host, htree, hrun⟩ := hstep arg rest s hs hpath
      have hfits' : ¬ s.out.Fits bytes := fun h => hfits ((Sink.fits_of_room hroom).1 h)
      have hprint : printLine line { s with host := host } =
          .error .outputClosed (Shell.wrote { s with host := host } (line ++ "\n")) := by
        rw [printLine, print_eq, if_neg hfits']
      rw [hrun, bind_of_error hprint]
      apply comesTo_of_not_fits htree
      · rw [shown_words]
        exact hfits'
      · rw [shown_words]
        rfl

section Reading

theorem readAll_ok_or_error (paths : List Path) (t : Tree) :
    (∃ lines, ∀ args (s : Shell), s.host.tree = t → args.map s.session.resolve = paths →
      readAll args s = .ok lines s) ∨
    ∃ e, ∀ args (s : Shell), s.host.tree = t → args.map s.session.resolve = paths →
      readAll args s = .error e s := by
  induction paths with
  | nil =>
    refine Or.inl ⟨[], fun args s _ hpaths => ?_⟩
    rw [List.map_eq_nil_iff.1 hpaths]
    rfl
  | cons path paths ih =>
    rcases Disk.readLines_ok_or_error path t with ⟨first, hfirst⟩ | ⟨e, herror⟩
    · have hstep (arg : String) (rest : List String) (s : Shell) (hs : s.host.tree = t)
          (hpath : s.session.resolve arg = path) : readAll (arg :: rest) s =
            (readAll rest >>= fun lines => pure (first ++ lines)) s := by
        rw [readAll, bind_of_ok (resolve_eq arg s), hpath,
          bind_of_ok (doing_of_ok (hfirst s.host hs))]
      rcases ih with ⟨lines, hrest⟩ | ⟨e, hrest⟩
      · refine Or.inl ⟨first ++ lines, fun args s hs hpaths => ?_⟩
        obtain ⟨arg, rest, rfl, hpath, hmap⟩ := List.map_eq_cons_iff.1 hpaths
        rw [hstep arg rest s hs hpath, bind_of_ok (hrest rest s hs hmap)]
        rfl
      · refine Or.inr ⟨e, fun args s hs hpaths => ?_⟩
        obtain ⟨arg, rest, rfl, hpath, hmap⟩ := List.map_eq_cons_iff.1 hpaths
        rw [hstep arg rest s hs hpath, bind_of_error (hrest rest s hs hmap)]
    · refine Or.inr ⟨.failed .readingFile (.file e), fun args s hs hpaths => ?_⟩
      obtain ⟨arg, rest, rfl, hpath, -⟩ := List.map_eq_cons_iff.1 hpaths
      rw [readAll, bind_of_ok (resolve_eq arg s), hpath,
        bind_of_error (doing_of_error (herror s.host hs))]

theorem firstMissing?_eq (s : Shell) (args : List String) :
    firstMissing? s args = ((args.map s.session.resolve).findIdx? fun path =>
      !s.host.tree.isFile path).map fun i => args.getD i "" := by
  rw [firstMissing?]
  induction args with
  | nil => rfl
  | cons arg rest ih =>
    rw [List.find?_cons, List.map_cons, List.findIdx?_cons, ih]
    cases s.host.tree.isFile (s.session.resolve arg) with
    | false => rfl
    | true => simp [Function.comp_def]

theorem exists_upshot_printFiles (paths : List Path) (t : Tree) :
    ∃ u : Upshot, ∀ args (s : Shell), s.host.tree = t → args.map s.session.resolve = paths →
      ComesTo id args s.out u (printFiles args s) := by
  cases hmissing : paths.findIdx? fun path => !t.isFile path with
  | some i =>
    refine ⟨⟨t, notFoundFragments i, none⟩, fun args s hs hpaths => ?_⟩
    have hsome : firstMissing? s args = some (args.getD i "") := by
      rw [firstMissing?_eq, hpaths, hs, hmissing]
      rfl
    rw [printFiles_of_some hsome, ← hs]
    exact comesTo_printNotFound args i s
  | none =>
    have hnone (args : List String) (s : Shell) (hs : s.host.tree = t)
        (hpaths : args.map s.session.resolve = paths) : firstMissing? s args = none := by
      rw [firstMissing?_eq, hpaths, hs, hmissing]
      rfl
    rcases readAll_ok_or_error paths t with ⟨lines, hread⟩ | ⟨e, hread⟩
    · refine ⟨⟨t, lines.map fun line => .words (line ++ "\n"), none⟩,
        fun args s hs hpaths => ?_⟩
      rw [printFiles_of_none (hnone args s hs hpaths), bind_of_ok (hread args s hs hpaths), ← hs]
      exact comesTo_printLines args lines s
    · refine ⟨⟨t, [], some e⟩, fun args s hs hpaths => ?_⟩
      rw [printFiles_of_none (hnone args s hs hpaths), bind_of_error (hread args s hs hpaths),
        ← hs]
      exact comesTo_error e s

end Reading

end ManyPaths

section Builtins

/-- The built-in commands whose arguments are paths that are looked up. -/
def pathTaking : List Builtin :=
  [.mkdir, .rmdir, .touch, .cp, .rm, .cat, .wc, .overwrite, .append]

/-- The built-in commands among them that show the paths and not what was typed. -/
def pathShowing : List Builtin :=
  [.mkdir, .rmdir, .touch]

variable {answer : Except Fault (Option String)}

/-- A command with one argument has an upshot for any paths if it has one for any path.
For none or for several there is nothing to show, since no argument stands for them. -/
theorem exists_upshot_readOne {command : String → Command} {run : String → ShellM Unit}
    {P : Upshot → Prop} {ok : List String → Prop}
    (h : ∀ path, ∃ u, P u ∧ IsUpshot t path run u)
    (hrun : ∀ arg, ok [arg] → (command arg).body answer = run arg) (room? : Option Nat)
    (paths : List Path) :
    ∃ u, P u ∧ ∀ args command' (s : Shell), Builtin.readOne command args = some command' →
      ok args → s.host.tree = t → s.out.room? = room? → args.map s.session.resolve = paths →
        ComesTo id args s.out u (command'.body answer s) := by
  obtain ⟨u, hP, hu⟩ := h (paths.headD Path.empty)
  refine ⟨u, hP, fun args command' s hread hok hs _ hpaths => ?_⟩
  obtain ⟨arg, rfl, rfl⟩ := Builtin.readOne_eq_some hread
  rw [hrun arg hok]
  apply hu arg s hs
  rw [← hpaths]
  rfl

theorem exists_upshot_cp (answer : Except Fault (Option String)) (t : Tree)
    (paths : List Path) :
    ∃ u : Upshot, ∀ args command (s : Shell), Builtin.cp.read? args = some command →
      s.host.tree = t → args.map s.session.resolve = paths →
        ComesTo id args s.out u (command.body answer s) := by
  obtain ⟨u, hu⟩ := exists_upshot_copy t (paths.headD Path.empty) (paths.tail.headD Path.empty)
  refine ⟨u, fun args command s hread hs hpaths => ?_⟩
  match args with
  | [source, target] =>
    obtain rfl : command = .cp source target := (Option.some.inj hread).symm
    apply hu source target s hs
    · rw [← hpaths]
      rfl
    · rw [← hpaths]
      rfl
  | [] => cases hread
  | [_] => cases hread
  | _ :: _ :: _ :: _ => cases hread

/-- The upshot of a command that takes paths, for any arguments that stand for these
paths and in any shell with this tree and so much room on its output. -/
theorem exists_upshot_body {b : Builtin} (hb : b ∈ pathTaking)
    (answer : Except Fault (Option String)) (t : Tree) (room? : Option Nat)
    (paths : List Path) :
    ∃ u : Upshot, (b ∈ pathShowing → ∀ i, .arg i ∉ u.text) ∧
      ∀ args command (s : Shell), b.read? args = some command →
        (b = .rmdir → args ≠ ["*"]) → s.host.tree = t → s.out.room? = room? →
          args.map s.session.resolve = paths →
            ComesTo id args s.out u (command.body answer s) := by
  have hshown {run : String → ShellM Unit}
      (h : ∀ path, ∃ u : Upshot, (∀ i, .arg i ∉ u.text) ∧ IsUpshot t path run u)
      (path : Path) : ∃ u : Upshot, (b ∈ pathShowing → ∀ i, .arg i ∉ u.text) ∧
        IsUpshot t path run u :=
    let ⟨u, htext, hu⟩ := h path
    ⟨u, fun _ => htext, hu⟩
  have htyped (hb : b ∉ pathShowing) {run : String → ShellM Unit}
      (h : ∀ path, ∃ u, IsUpshot t path run u) (path : Path) : ∃ u : Upshot,
        (b ∈ pathShowing → ∀ i, .arg i ∉ u.text) ∧ IsUpshot t path run u :=
    let ⟨u, hu⟩ := h path
    ⟨u, fun hmem => absurd hmem hb, hu⟩
  cases b with
  | mkdir =>
    obtain ⟨u, htext, hu⟩ := exists_upshot_makeDirs paths t room?
    refine ⟨u, fun _ => htext, fun args command s hread _ hs hroom hpaths => ?_⟩
    obtain rfl : command = .mkdir args := by
      cases args with
      | nil => cases hread
      | cons arg rest => exact (Option.some.inj hread).symm
    exact hu args args s hs hroom hpaths
  | rmdir =>
    refine exists_upshot_readOne (hshown (exists_upshot_removeEmptyDir t)) ?_ room? paths
    intro arg hstar
    rw [Removal.ofArg, if_neg fun h => hstar rfl (by rw [h])]
    rfl
  | touch =>
    refine exists_upshot_readOne (hshown (exists_upshot_touchFile t)) ?_ room? paths
    exact fun arg _ => rfl
  | rm =>
    refine exists_upshot_readOne (htyped (by decide) (exists_upshot_removeFile t)) ?_ room? paths
    exact fun arg _ => rfl
  | wc =>
    refine exists_upshot_readOne (htyped (by decide) (exists_upshot_countFile t)) ?_ room? paths
    exact fun arg _ => rfl
  | overwrite =>
    refine exists_upshot_readOne
      (htyped (by decide) (exists_upshot_finishRedirect .truncate answer t)) ?_ room? paths
    exact fun arg _ => rfl
  | append =>
    refine exists_upshot_readOne
      (htyped (by decide) (exists_upshot_finishRedirect .append answer t)) ?_ room? paths
    exact fun arg _ => rfl
  | cp =>
    obtain ⟨u, hu⟩ := exists_upshot_cp answer t paths
    exact ⟨u, by simp [pathShowing], fun args command s hread _ hs _ hpaths =>
      hu args command s hread hs hpaths⟩
  | cat =>
    obtain ⟨u, hu⟩ := exists_upshot_printFiles paths t
    refine ⟨u, by simp [pathShowing], fun args command s hread _ hs _ hpaths => ?_⟩
    obtain rfl : command = .cat args := by
      match args with
      | [file] => exact (Option.some.inj hread).symm
      | [file₁, file₂] => exact (Option.some.inj hread).symm
      | [] => cases hread
      | _ :: _ :: _ :: _ => cases hread
    exact hu args s hs hpaths
  | _ => exact absurd hb (by decide)

end Builtins

end TreeShell.Command
