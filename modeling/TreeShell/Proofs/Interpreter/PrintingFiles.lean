import TreeShell.Proofs.Interpreter.Counting

/-!
# `cat` prints all or nothing

`cat` goes over its arguments three times: it looks whether each leads to a regular file,
then it reads them, and only then it prints. So what it prints is decided by all of the
arguments together (`FilesShown`): the files one after the other, if all of them can be
read, and otherwise one message about the first argument that leads to no file, or about
the first file that cannot be read (`cat_all_or_nothing`).

A file is printed line by line, which is its text with one line feed at the end of each
line (`ended_linesOf`).
-/

namespace TreeShell

namespace Text

/-- The text with one line feed at the end of each line: a carriage return right before a
line feed is left out, and a last line without its end gets one. -/
def feedLines : List Char → List Char
  | [] => []
  | c :: rest =>
    if c = '\r' ∧ rest.head? = some '\n' then feedLines rest
    else if rest = [] ∧ c ≠ '\n' then [c, '\n']
    else c :: feedLines rest

variable {line : List Char}

theorem feedLines_newline_cons (rest : List Char) :
    feedLines ('\n' :: rest) = '\n' :: feedLines rest := by
  simp [feedLines]

/-- A line, its end and what follows them. -/
theorem feedLines_append_cons (h : '\n' ∉ line) (rest : List Char) :
    feedLines (line ++ '\n' :: rest) = dropReturn '\r' line ++ '\n' :: feedLines rest := by
  induction line with
  | nil => exact feedLines_newline_cons rest
  | cons c line ih =>
    rw [List.mem_cons, not_or] at h
    have ih := ih h.2
    cases line with
    | nil =>
      rw [List.nil_append, dropReturn_nil, List.nil_append] at ih
      rw [List.singleton_append, feedLines, ih, dropReturn]
      by_cases hreturn : c = '\r'
      · simp [hreturn]
      · simp [hreturn]
    | cons d line =>
      have hd : d ≠ '\n' := fun hd => h.2 (hd ▸ List.mem_cons_self)
      rw [List.cons_append, feedLines, ih, dropReturn, dropReturn, List.getLast?_cons_cons]
      by_cases hreturn : (d :: line).getLast? = some '\r'
      · simp [hreturn, hd]
      · simp [hreturn, hd]

/-- A last line without its end. -/
theorem feedLines_of_not_mem (h : '\n' ∉ line) (hne : line ≠ []) :
    feedLines line = line ++ ['\n'] := by
  induction line with
  | nil => exact absurd rfl hne
  | cons c line ih =>
    rw [List.mem_cons, not_or] at h
    rw [feedLines]
    cases line with
    | nil => simp [Ne.symm h.1]
    | cons d line =>
      have hd : d ≠ '\n' := fun hd => h.2 (hd ▸ List.mem_cons_self)
      rw [ih h.2 (List.cons_ne_nil d line)]
      simp [hd]

/-- The lines of a text put together again, each with a line feed, are the text, but for
how its lines end. -/
theorem flatMap_lines (text : List Char) :
    ((lines '\n' '\r' text).flatMap fun line => line ++ ['\n']) = feedLines text := by
  induction text using line_induction '\n' with
  | cons line rest hline ih =>
    rw [lines_append_cons '\r' rest hline, List.flatMap_cons, ih, feedLines_append_cons hline,
      List.append_assoc, List.singleton_append]
  | last line h =>
    rw [lines_of_not_mem '\r' h]
    by_cases hnil : line = []
    · rw [hnil]
      rfl
    · rw [feedLines_of_not_mem h hnil]
      simp [hnil]

theorem ended_linesOf (texts : List String) :
    ended (texts.flatMap linesOf) = String.ofList (texts.flatMap fun text =>
      feedLines text.toList) := by
  simp only [ended, linesOf, List.flatMap_assoc, List.flatMap_map, String.toList_ofList,
    flatMap_lines]

end Text

/-- The text of the regular file that the argument leads to, if it leads to one and this is
UTF-8 throughout. -/
def Shell.textOf? (s : Shell) (arg : String) : Option String :=
  match s.host.tree.find (s.session.resolve arg) with
  | .ok (_, .file bytes) => Text.decode? bytes
  | _ => none

/-- The argument leads to a regular file. -/
def Shell.LeadsToFile (s : Shell) (arg : String) : Prop :=
  s.host.tree.isFile (s.session.resolve arg) = true

instance Shell.decidableLeadsToFile (s : Shell) (arg : String) : Decidable (s.LeadsToFile arg) :=
  inferInstanceAs (Decidable (_ = true))

/-- What is printed for files: all of them one after the other, or else one message. The
message is about the first argument that leads to no file, if there is one, and about the
first file that is not UTF-8 otherwise. -/
inductive FilesShown (s : Shell) : List String → String → Prop
  | files {args texts : List String} (hread : args.map s.textOf? = texts.map some) :
    FilesShown s args (String.ofList (texts.flatMap fun text => Text.feedLines text.toList))
  | missing {before after : List String} {arg : String}
    (hbefore : ∀ file ∈ before, s.LeadsToFile file) (hmissing : ¬ s.LeadsToFile arg) :
    FilesShown s (before ++ arg :: after) ("File not found: " ++ arg ++ "\n")
  | undecodable {before after : List String} {arg : String}
    (hfiles : ∀ file ∈ before ++ arg :: after, s.LeadsToFile file)
    (hbefore : ∀ file ∈ before, s.textOf? file ≠ none) (hbad : s.textOf? arg = none) :
    FilesShown s (before ++ arg :: after)
      ("Error reading file: I/O failure on " ++ (s.session.resolve arg).text ++
        ": stream did not contain valid UTF-8\n")

namespace Shell

variable {s : Shell} {arg text : String}

theorem textOf?_of_find {a : Address} {bytes : List UInt8}
    (h : s.host.tree.find (s.session.resolve arg) = .ok (a, .file bytes)) :
    s.textOf? arg = Text.decode? bytes := by
  unfold textOf?
  rw [h]

theorem textOf?_eq_some_iff : s.textOf? arg = some text ↔
    ∃ a bytes, s.host.tree.find (s.session.resolve arg) = .ok (a, .file bytes) ∧
      Text.decode? bytes = some text := by
  constructor
  · intro h
    unfold textOf? at h
    split at h
    · next a bytes hfind => exact ⟨a, bytes, hfind, h⟩
    · cases h
  · rintro ⟨a, bytes, hfind, htext⟩
    rw [textOf?_of_find hfind, htext]

theorem leadsToFile_of_textOf? (h : s.textOf? arg = some text) : s.LeadsToFile arg := by
  obtain ⟨a, bytes, hfind, -⟩ := textOf?_eq_some_iff.1 h
  exact Tree.isFile_iff_find.2 ⟨a, bytes, hfind⟩

theorem readLines_of_textOf? (h : s.textOf? arg = some text) :
    Disk.readLines (s.session.resolve arg) s.host = .ok (Text.linesOf text) s.host := by
  obtain ⟨a, bytes, hfind, htext⟩ := textOf?_eq_some_iff.1 h
  exact Disk.readLines_of_find hfind htext

theorem readLines_of_textOf?_eq_none (hfile : s.LeadsToFile arg) (h : s.textOf? arg = none) :
    Disk.readLines (s.session.resolve arg) s.host =
      .error (.io (s.session.resolve arg) .notUtf8) s.host := by
  obtain ⟨a, bytes, hfind⟩ := Tree.isFile_iff_find.1 hfile
  rw [textOf?_of_find hfind] at h
  rw [Disk.readLines, bind_of_ok (Disk.requireFile_of_find hfind), h]
  rfl

end Shell

namespace FilesShown

variable {s s' : Shell} {args : List String} {text : String}

/-- Nothing of the session matters but the current directory. -/
theorem congr (htree : s'.host.tree = s.host.tree) (hcwd : s'.session.cwd = s.session.cwd)
    (h : FilesShown s args text) : FilesShown s' args text := by
  have hresolve : s'.session.resolve = s.session.resolve :=
    funext (Session.resolve_of_cwd hcwd)
  have htext : s'.textOf? = s.textOf? := by
    funext arg
    unfold Shell.textOf?
    rw [htree, hresolve]
  have hfile : s'.LeadsToFile = s.LeadsToFile := by
    funext arg
    rw [Shell.LeadsToFile, htree, hresolve, Shell.LeadsToFile]
  cases h with
  | files hread =>
    rw [← htext] at hread
    exact .files hread
  | missing hbefore hmissing =>
    rw [← hfile] at hbefore hmissing
    exact .missing hbefore hmissing
  | undecodable hfiles hbefore hbad =>
    rw [← hfile] at hfiles
    rw [← htext] at hbefore hbad
    rw [← hresolve]
    exact .undecodable hfiles hbefore hbad

/-- For any arguments there is something to print. -/
theorem exists_text (s : Shell) (args : List String) : ∃ text, FilesShown s args text := by
  by_cases hfiles : ∀ file ∈ args, s.LeadsToFile file
  · cases hfind : args.find? fun file => (s.textOf? file).isNone with
    | none =>
      have hsome : ∀ file ∈ args, s.textOf? file = some ((s.textOf? file).getD "") := by
        intro file hmem
        have hread := List.find?_eq_none.1 hfind file hmem
        cases htext : s.textOf? file with
        | none => simp [htext] at hread
        | some text => rfl
      refine ⟨_, @FilesShown.files s args (args.map fun file => (s.textOf? file).getD "") ?_⟩
      rw [List.map_map]
      exact List.map_congr_left hsome
    | some arg =>
      obtain ⟨hbad, before, after, rfl, hbefore⟩ := List.find?_eq_some_iff_append.1 hfind
      refine ⟨_, .undecodable hfiles (fun file hmem hnone => ?_) (by simpa using hbad)⟩
      have hread := hbefore file hmem
      simp [hnone] at hread
  · obtain ⟨arg, hfind⟩ : ∃ arg, args.find? (fun file => !s.host.tree.isFile
        (s.session.resolve file)) = some arg := by
      simpa [Shell.LeadsToFile, ← Option.isSome_iff_exists] using hfiles
    obtain ⟨hmissing, before, after, rfl, hbefore⟩ := List.find?_eq_some_iff_append.1 hfind
    refine ⟨_, .missing (fun file hmem => ?_) ?_⟩
    · simpa [Shell.LeadsToFile] using hbefore file hmem
    · simpa [Shell.LeadsToFile] using hmissing

end FilesShown

namespace Command

open Shell

variable {s : Shell} {args texts : List String} {text : String}

/-- Files that can be read are read one after the other. -/
theorem readAll_of_textOf? (h : args.map s.textOf? = texts.map some) :
    readAll args s = .ok (texts.flatMap Text.linesOf) s := by
  induction args generalizing texts with
  | nil =>
    rw [List.map_eq_nil_iff.1 h.symm]
    rfl
  | cons arg args ih =>
    obtain ⟨text, texts, rfl, harg, hrest⟩ := List.map_eq_cons_iff.1 h.symm
    rw [readAll, bind_of_ok (resolve_eq arg s),
      bind_of_ok (doing_of_ok (readLines_of_textOf? harg.symm)), bind_of_ok (ih hrest.symm)]
    rfl

theorem undecodable_text (path : Path) :
    (Fault.failed .readingFile (.file (.io path .notUtf8))).text ++ "\n" =
      "Error reading file: I/O failure on " ++ path.text ++
        ": stream did not contain valid UTF-8\n" := by
  have hhead : "Error reading file: I/O failure on " =
      Task.readingFile.text ++ ": " ++ "I/O failure on " := by
    decide
  have htail : ": stream did not contain valid UTF-8\n" =
      ": " ++ IoError.notUtf8.text ++ "\n" := by
    decide
  rw [hhead, htail]
  unfold Fault.text Reason.text FsError.message
  simp only [String.append_assoc]

/-- Lines are printed with a line feed after each. -/
theorem exists_comesTo_printLines (args lines : List String) (s : Shell) :
    ∃ u : Upshot, u.tree = s.host.tree ∧ shown args u.reported.text = Text.ended lines ∧
      ComesTo id args s.out u (printLines lines s) := by
  refine ⟨⟨s.host.tree, lines.map fun line => .words (line ++ "\n"), none⟩, rfl, ?_,
    comesTo_printLines args lines s⟩
  rw [Upshot.reported]
  simpa using Console.shown_lines args lines

/-- What `cat` comes to, up to the report of its fault. -/
theorem exists_comesTo_printFiles (h : FilesShown s args text) :
    ∃ u : Upshot, u.tree = s.host.tree ∧ shown args u.reported.text = text ∧
      ComesTo id args s.out u (printFiles args s) := by
  cases h with
  | @files args texts hread =>
    have hfiles : ∀ file ∈ args, s.host.tree.isFile (s.session.resolve file) = true := by
      intro file hmem
      have htext : s.textOf? file ∈ texts.map some := hread ▸ List.mem_map_of_mem hmem
      obtain ⟨text, -, htext⟩ := List.mem_map.1 htext
      exact leadsToFile_of_textOf? htext.symm
    rw [← Text.ended_linesOf, printFiles_of_none (firstMissing?_eq_none hfiles),
      bind_of_ok (readAll_of_textOf? hread)]
    exact exists_comesTo_printLines args _ s
  | @missing before after arg hbefore hmissing =>
    have hfirst : firstMissing? s (before ++ arg :: after) = some arg := by
      rw [firstMissing?, List.find?_eq_some_iff_append]
      exact ⟨by simpa [LeadsToFile] using hmissing, before, after, rfl,
        fun file hmem => by simpa [LeadsToFile] using hbefore file hmem⟩
    refine ⟨⟨s.host.tree, [.words (notFoundText arg ++ "\n")], none⟩, rfl, ?_, ?_⟩
    · exact shown_words _ _
    · rw [printFiles_of_some hfirst]
      exact comesTo_printLine _ _ s
  | @undecodable before after arg hfiles hbefore hbad =>
    have hread : readAll (before ++ arg :: after) s =
        .error (.failed .readingFile (.file (.io (s.session.resolve arg) .notUtf8))) s := by
      refine readAll_of_error (fun file hmem => ?_)
        (readLines_of_textOf?_eq_none (hfiles arg (by simp)) hbad)
      obtain ⟨text, htext⟩ := Option.ne_none_iff_exists'.1 (hbefore file hmem)
      exact ⟨_, readLines_of_textOf? htext⟩
    refine ⟨⟨s.host.tree, [],
      some (.failed .readingFile (.file (.io (s.session.resolve arg) .notUtf8)))⟩, rfl, ?_, ?_⟩
    · rw [← undecodable_text]
      exact shown_words _ _
    · rw [printFiles_of_none (firstMissing?_eq_none hfiles), bind_of_error hread]
      exact comesTo_error _ s

end Command

namespace Console

open Command Shell

/-- The text is printed, the line is recorded, and everything else is as it was, the
requests to the source included. It fails only when the output does not take the text. -/
structure OnlyPrints (line text : String) (c : Console)
    (result : EStateM.Result Fault Console Unit) : Prop where
  out : (outcomeState result).shell.out = c.shell.out.write (Text.encode text)
  session : (outcomeState result).shell.session = c.shell.session.record line
  tree : (outcomeState result).shell.host.tree = c.shell.host.tree
  home : (outcomeState result).shell.host.home = c.shell.host.home
  source : (outcomeState result).source = c.source
  outcome : result = if c.shell.out.Fits (Text.encode text)
    then .ok () (outcomeState result) else .error .outputClosed (outcomeState result)

variable {c : Console} {line text : String} {b : Builtin} {args : List String}

/-- The line of a command that changes nothing but the log and the output. -/
theorem onlyPrints_of_comesTo {command : Command} {u : Upshot}
    (hwords : Text.words line = b.name :: args) (hread : b.read? args = some command)
    (hne : ∀ mode file, command ≠ .redirect mode file) (hmoves : Moves (Within Eq) command.run)
    (htree : u.tree = c.shell.host.tree) (htext : shown args u.reported.text = text)
    (hrun : ComesTo id args c.shell.out u (command.run (c.started line b.name args).shell)) :
    OnlyPrints line text c (runLine .builtins line c) := by
  let started := c.started line b.name args
  have hline : runLine .builtins line c =
      onShell (guarded command.builtin.name command.run) started := by
    rw [runLine_of_read? hwords hread, run_action_of_ne_redirect hne]
  have hcomes : ComesTo shell args c.shell.out u.reported (runLine .builtins line c) := by
    rw [hline]
    exact comesTo_onShell (c := started) (comesTo_guarded command.builtin.name hrun)
  have hwithin : Within Eq started.shell (outcomeState (runLine .builtins line c)).shell := by
    rw [hline, shell_onShell]
    exact related_guarded (fun _ _ => id) _ (hmoves started.shell)
  have hbytes : u.reported.bytes args = Text.encode text := by rw [Upshot.bytes, htext]
  constructor
  · rw [hcomes.out, hbytes]
  · exact hwithin.session
  · rw [hcomes.tree, ← htree]
    rfl
  · exact hwithin.host.home
  · rw [hline, source_onShell]
    rfl
  · rw [← hbytes]
    exact hcomes.outcome

/-- `cat` prints what is to be shown for its arguments. -/
theorem onlyPrints_cat (hwords : Text.words line = Builtin.cat.name :: args)
    (hargs : args.length = 1 ∨ args.length = 2) (hshown : FilesShown c.shell args text) :
    OnlyPrints line text c (runLine .builtins line c) := by
  have hread : Builtin.cat.read? args = some (.cat args) := by
    match args with
    | [file] => rfl
    | [file₁, file₂] => rfl
    | [] => simp at hargs
    | _ :: _ :: _ :: _ => simp at hargs
  have hstarted : FilesShown (c.started line Builtin.cat.name args).shell args text :=
    FilesShown.congr (s := c.shell) rfl rfl hshown
  obtain ⟨u, htree, htext, hcomes⟩ := exists_comesTo_printFiles hstarted
  exact onlyPrints_of_comesTo hwords hread (by simp) (moves_printFiles args) htree htext hcomes

/-- For one or two arguments `cat` prints what is to be shown for them and changes nothing,
and there is always something to be shown. -/
theorem cat_all_or_nothing (hwords : Text.words line = Builtin.cat.name :: args)
    (hargs : args.length = 1 ∨ args.length = 2) :
    (∃ text, FilesShown c.shell args text) ∧
      ∀ text, FilesShown c.shell args text →
        OnlyPrints line text c (runLine .builtins line c) :=
  ⟨FilesShown.exists_text c.shell args, fun _ hshown => onlyPrints_cat hwords hargs hshown⟩

/-- A session beside a file with the two line ends, where the last line lacks its end, and a
file that is not UTF-8. -/
def besideBadFile : Console :=
  onTree [("/w/f", .file [13, 120, 13, 10, 121]), ("/w/g", .file [122, 10, 0xFF])] "/w"

theorem cat_besideBadFile :
    OnlyPrints "cat f f" "\rx\ny\n\rx\ny\n" besideBadFile
        (runLine .builtins "cat f f" besideBadFile) ∧
      OnlyPrints "cat f g"
        "Error reading file: I/O failure on /w/g: stream did not contain valid UTF-8\n"
        besideBadFile (runLine .builtins "cat f g" besideBadFile) ∧
      OnlyPrints "cat g h" "File not found: h\n" besideBadFile
        (runLine .builtins "cat g h" besideBadFile) := by
  have hf : besideBadFile.shell.textOf? "f" = some "\rx\r\ny" := by decide
  have hg : besideBadFile.shell.textOf? "g" = none := by decide
  have hfile : besideBadFile.shell.LeadsToFile "g" := by decide
  have hh : ¬ besideBadFile.shell.LeadsToFile "h" := by decide
  have hshown : FilesShown besideBadFile.shell ["f", "f"] "\rx\ny\n\rx\ny\n" :=
    @FilesShown.files _ _ ["\rx\r\ny", "\rx\r\ny"] (by simp [hf])
  have hundecodable : FilesShown besideBadFile.shell (["f"] ++ "g" :: []) _ :=
    .undecodable (by simp [Shell.leadsToFile_of_textOf? hf, hfile]) (by simp [hf]) hg
  have hmissing : FilesShown besideBadFile.shell (["g"] ++ "h" :: []) _ :=
    .missing (by simp [hfile]) hh
  exact ⟨(cat_all_or_nothing (by decide) (Or.inr rfl)).2 _ hshown,
    (cat_all_or_nothing (by decide) (Or.inr rfl)).2 _ hundecodable,
    (cat_all_or_nothing (by decide) (Or.inr rfl)).2 _ hmissing⟩

end Console

end TreeShell
