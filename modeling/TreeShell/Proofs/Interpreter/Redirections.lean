import TreeShell.Proofs.Disk.CopyFile
import TreeShell.Proofs.Disk.ReadBack
import TreeShell.Proofs.Interpreter.AllOrNothing
import TreeShell.Proofs.Interpreter.BrokenStreams

/-!
# Redirections and reading back

Redirections to one file are entered one after the other, as lines whose contents
come from the source, or in the loop, where lines and contents take turns. One
redirection writes the file that its path leads to (`exists_runLine_redirect`). So
the file holds what the redirections make of its bytes one after the other, and
nothing else has changed. If it held nothing before the first one, or if one of them
was `>`, then reading it back gives the contents from the last `>` on, and `cat`
prints them (`redirections_read_back`).
-/

namespace TreeShell

/-- The command that writes in this way. -/
def WriteMode.builtin : WriteMode → Builtin
  | .truncate => .overwrite
  | .append => .append

/-- A redirection to a file: the line that is entered, and the line of content. -/
structure Redirection (file : String) where
  mode : WriteMode
  line : String
  content : String
  words_eq : Text.words line = [mode.builtin.name, file]
  newline_free : '\n' ∉ content.toList

namespace Redirection

variable {file : String}

/-- What a redirection makes of the bytes of its file. -/
def rewrite (bytes : List UInt8) (r : Redirection file) : List UInt8 :=
  r.mode.apply (Text.encode (r.content ++ "\n")) bytes

/-- The redirections from the last `>` on; all of them, if there is none. -/
def lasting : List (Redirection file) → List (Redirection file)
  | [] => []
  | r :: rest => if ∃ s ∈ rest, s.mode = .truncate then lasting rest else r :: rest

theorem lasting_of_not_truncate {rs : List (Redirection file)}
    (h : ¬ ∃ s ∈ rs, s.mode = .truncate) : lasting rs = rs := by
  cases rs with
  | nil => rfl
  | cons r rest =>
    rw [lasting, if_neg]
    rintro ⟨s, hs, hmode⟩
    exact h ⟨s, List.mem_cons_of_mem _ hs, hmode⟩

/-- The first bytes count as long as nothing truncates them. -/
theorem foldl_rewrite (rs : List (Redirection file)) (bytes : List UInt8) :
    rs.foldl rewrite bytes = (if ∃ r ∈ rs, r.mode = .truncate then [] else bytes) ++
      linesBytes ((lasting rs).map Redirection.content) := by
  induction rs generalizing bytes with
  | nil => simp [lasting]
  | cons r rest ih =>
    rw [List.foldl_cons, ih, lasting]
    by_cases hrest : ∃ s ∈ rest, s.mode = .truncate
    · have hall : ∃ s ∈ r :: rest, s.mode = .truncate := by
        obtain ⟨s, hs, hmode⟩ := hrest
        exact ⟨s, List.mem_cons_of_mem _ hs, hmode⟩
      simp only [if_pos hrest, if_pos hall]
    · rw [if_neg hrest, if_neg hrest, lasting_of_not_truncate hrest, List.map_cons,
        linesBytes_cons]
      cases hmode : r.mode with
      | truncate =>
        rw [if_pos ⟨r, List.mem_cons_self, hmode⟩, rewrite, hmode]
        rfl
      | append =>
        have hnone : ¬ ∃ s ∈ r :: rest, s.mode = .truncate := by
          rintro ⟨s, hs, htruncate⟩
          rcases List.mem_cons.1 hs with rfl | hs
          · rw [hmode] at htruncate
            cases htruncate
          · exact hrest ⟨s, hs, htruncate⟩
        rw [if_neg hnone, rewrite, hmode, WriteMode.apply, List.append_assoc]

end Redirection

namespace Command

open Shell

variable {s : Shell} {mode : WriteMode} {file content : String} {u : Tree}

theorem finishRedirect_of_ok (hout : s.out.room? = none)
    (hok : s.host.tree.modifyFile (s.session.resolve file) (mode.apply (linesBytes [content])) =
      .ok u) :
    finishRedirect mode file (.ok (some content)) s =
      .ok () (wrote { s with host := { s.host with tree := u } }
        ("Content written to " ++ file ++ "\n")) := by
  have hwrite : Disk.writeLines (s.session.resolve file) [content] mode s.host =
      .ok () { s.host with tree := u } := Disk.commit_of_ok hok
  rw [finishRedirect, bind_of_ok (resolve_eq file s), bind_of_ok (doing_of_ok hwrite)]
  exact printLine_of_unlimited (s := { s with host := { s.host with tree := u } }) hout _

end Command

namespace Console

open Shell

variable {c d : Console} {line file : String} {a : Address} {rest : List Reply}

section Reading

/-- A line that comes next is what is read, and then it is gone. -/
theorem exists_readLine_of_cons (text : String) {answer : String} (hout : c.shell.out.room? = none)
    (hreplies : c.source.replies = .line answer :: rest) :
    ∃ d, readLine text c = .ok (some answer) d ∧ d.source.replies = rest ∧
      Within Eq c.shell d.shell := by
  have hfits := fits_of_unlimited hout (Text.encode (c.source.shownPrompt text))
  obtain ⟨d, hread, hsource, hwithin, -⟩ := exists_readLine_of_fits hfits
  have hnext : c.source.next = (.line answer, { c.source with replies := rest }) := by
    rw [Source.next, hreplies]
  rw [hnext] at hread hsource
  refine ⟨d, hread, ?_, hwithin⟩
  rw [hsource]
  rfl

end Reading

section Step

/-- A redirection whose path leads to a file, or to where one can be made, takes the next
reply for its content, writes it to the file and changes nothing else. -/
theorem exists_runLine_redirect (r : Redirection file) (hout : c.shell.out.room? = none)
    (hreplies : c.source.replies = .line r.content :: rest)
    (hlocate : c.shell.host.tree.locate .output (c.shell.session.resolve file) = .ok a)
    (hfree : c.shell.host.tree.Free a) :
    ∃ d, runLine .builtins r.line c = .ok () d ∧ d.source.replies = rest ∧
      d.shell.out.room? = none ∧ d.shell.session = c.shell.session.record r.line ∧
      c.shell.host.tree.Written a (r.rewrite (c.shell.host.tree.bytesAt a)) d.shell.host.tree := by
  have hread : r.mode.builtin.read? [file] = some (.redirect r.mode file) := by
    cases r.mode <;> rfl
  obtain ⟨b, hb, hbreplies, hwithin⟩ := exists_readLine_of_cons
    (c := c.started r.line r.mode.builtin.name [file]) Command.contentPrompt hout hreplies
  obtain ⟨u, hu, hwritten⟩ := Tree.modifyFile_of_locate hlocate hfree
    (r.mode.apply (linesBytes [r.content]))
  have hsession : b.shell.session = c.shell.session.record r.line := hwithin.session
  have htree : b.shell.host.tree = c.shell.host.tree := hwithin.host.tree.symm
  have hmodify : b.shell.host.tree.modifyFile (b.shell.session.resolve file)
      (r.mode.apply (linesBytes [r.content])) = .ok u := by
    rw [htree, hsession]
    exact hu
  have hbout := hwithin.unlimited hout
  have hfinish := Command.guarded_of_ok (Command.redirect r.mode file).builtin.name
    (Command.finishRedirect_of_ok hbout hmodify)
  have hlast : linesBytes [r.content] = Text.encode (r.content ++ "\n") := by
    rw [linesBytes_cons, linesBytes_nil, List.append_nil]
  rw [hlast] at hwritten
  rw [runLine_of_read? r.words_eq hread, Command.action, run_ask_of_ok hb]
  exact ⟨_, onShell_of_ok hfinish, hbreplies, unlimited_write hbout _, hsession, hwritten⟩

/-- Since the console `c` nothing has changed but the file at `a`, which holds the
bytes by now, and what no redirection to the path depends on. -/
structure Holds (file : String) (a : Address) (bytes : List UInt8) (c d : Console) : Prop where
  bytes_eq : d.shell.host.tree.bytesAt a = bytes
  others : ∀ b, b ≠ a → d.shell.host.tree.entry? b = c.shell.host.tree.entry? b
  free : d.shell.host.tree.Free a
  locate : d.shell.host.tree.locate .output (c.shell.session.resolve file) = .ok a
  unlimited : d.shell.out.room? = none
  cwd : d.shell.session.cwd = c.shell.session.cwd
  exiting : d.shell.session.exiting = c.shell.session.exiting

/-- Such a console after one more redirection. -/
theorem Holds.exists_runLine {bytes : List UInt8} (h : Holds file a bytes c d)
    (r : Redirection file) (hreplies : d.source.replies = .line r.content :: rest) :
    ∃ e, runLine .builtins r.line d = .ok () e ∧ e.source.replies = rest ∧
      Holds file a (r.rewrite bytes) c e ∧ e.shell.host.tree.entry? a ≠ none := by
  have hpath := Session.resolve_of_cwd h.cwd file
  obtain ⟨e, hrun, herest, heout, hesession, hwritten⟩ :=
    exists_runLine_redirect r h.unlimited hreplies (hpath ▸ h.locate) h.free
  rw [h.bytes_eq] at hwritten
  refine ⟨e, hrun, herest, ⟨hwritten.bytesAt_eq, ?_, ?_, ?_, heout, ?_, ?_⟩, ?_⟩
  · intro b hb
    rw [hwritten.entry_of_ne hb, h.others b hb]
  · exact Tree.free_of_file hwritten.self
  · exact Tree.locate_of_extends hwritten.extends h.locate
  · rw [hesession, Session.cwd_record, h.cwd]
  · rw [hesession, Session.exiting_record, h.exiting]
  · rw [hwritten.self]
    exact Option.some_ne_none _

end Step

section Run

/-- The consoles after the redirections, entered as lines whose contents come from the
source. -/
theorem Holds.runLines {bytes : List UInt8} {rs : List (Redirection file)}
    (h : Holds file a bytes c d)
    (hreplies : d.source.replies = rs.map (fun r => .line r.content) ++ rest) :
    (runLines .builtins d (rs.map Redirection.line)).source.replies = rest ∧
      Holds file a (rs.foldl Redirection.rewrite bytes) c
        (runLines .builtins d (rs.map Redirection.line)) ∧
      (d.shell.host.tree.entry? a ≠ none ∨ rs ≠ [] →
        (runLines .builtins d (rs.map Redirection.line)).shell.host.tree.entry? a ≠ none) := by
  induction rs generalizing d bytes with
  | nil => exact ⟨hreplies, h, fun hthere => hthere.resolve_right (by simp)⟩
  | cons r rs ih =>
    obtain ⟨e, hrun, herest, he, hthere⟩ := h.exists_runLine r hreplies
    have hnext : outcomeState (runLine .builtins r.line d) = e := by
      rw [hrun]
      rfl
    rw [List.map_cons, Console.runLines, hnext]
    obtain ⟨hrest, hholds, hlater⟩ := ih he herest
    exact ⟨hrest, hholds, fun _ => hlater (Or.inl hthere)⟩

theorem Holds.of_within {bytes : List UInt8} {e : Console} (h : Holds file a bytes c d)
    (hwithin : Within Eq d.shell e.shell) : Holds file a bytes c e := by
  have htree : d.shell.host.tree = e.shell.host.tree := hwithin.host.tree
  constructor
  · rw [← htree, h.bytes_eq]
  · rw [← htree]
    exact h.others
  · rw [← htree]
    exact h.free
  · rw [← htree]
    exact h.locate
  · exact hwithin.unlimited h.unlimited
  · rw [hwithin.session, h.cwd]
  · rw [hwithin.session, h.exiting]

/-- A round of the loop in which a line was read and ended well. -/
theorem repl_of_runLine {r : Registry} {e : Console} (hexit : c.shell.session.exiting ≠ true)
    (hread : readLine prompt c = .ok (some line) d)
    (hrun : runLine r line { d with source := d.source.remember line } = .ok () e) :
    repl r c = repl r e := by
  have hlt := replies_readLine_lt hread
  have hle := replies_runLine_le r line { d with source := d.source.remember line }
  rw [hrun, outcomeState, Source.replies_remember] at hle
  have hc : repl r c = rounds r (c.source.replies.length + 1) c :=
    repl_eq_rounds (Nat.lt_succ_self _)
  have he : repl r e = rounds r c.source.replies.length e := repl_eq_rounds (by omega)
  rw [hc, he, rounds_of_some hexit hread, bind_of_ok hrun]

/-- The consoles after the redirections, entered in the loop, where lines and contents
take turns. -/
theorem Holds.repl {bytes : List UInt8} {rs : List (Redirection file)}
    (h : Holds file a bytes c d) (hexit : c.shell.session.exiting ≠ true)
    (hreplies : d.source.replies =
      rs.flatMap (fun r => [.line r.line, .line r.content]) ++ rest) :
    ∃ e, repl .builtins d = repl .builtins e ∧ e.source.replies = rest ∧
      Holds file a (rs.foldl Redirection.rewrite bytes) c e ∧
      (d.shell.host.tree.entry? a ≠ none ∨ rs ≠ [] → e.shell.host.tree.entry? a ≠ none) := by
  induction rs generalizing d bytes with
  | nil => exact ⟨d, rfl, hreplies, h, fun hthere => hthere.resolve_right (by simp)⟩
  | cons r rs ih =>
    rw [List.flatMap_cons, List.append_assoc] at hreplies
    obtain ⟨b, hread, hbreplies, hwithin⟩ := exists_readLine_of_cons prompt h.unlimited hreplies
    have hb : Holds file a bytes c { b with source := b.source.remember r.line } :=
      h.of_within hwithin
    obtain ⟨e, hrun, herest, he, hthere⟩ := hb.exists_runLine r hbreplies
    rw [repl_of_runLine (h.exiting ▸ hexit) hread hrun]
    obtain ⟨f, hf, hrest, hholds, hlater⟩ := ih he herest
    exact ⟨f, hf, hrest, hholds, fun _ => hlater (Or.inl hthere)⟩

end Run

section ReadBack

/-- What the redirections to a file at `a` have made of the console `c`. What was
written is read back if nothing else was there, and if there is a file by now. -/
structure Rewritten (rs : List (Redirection file)) (a : Address) (c d : Console) : Prop where
  bytes : d.shell.host.tree.bytesAt a =
    rs.foldl Redirection.rewrite (c.shell.host.tree.bytesAt a)
  others : ∀ b, b ≠ a → d.shell.host.tree.entry? b = c.shell.host.tree.entry? b
  found : c.shell.host.tree.entry? a ≠ none ∨ rs ≠ [] →
    d.shell.host.tree.find (c.shell.session.resolve file) =
      .ok (a, .file (rs.foldl Redirection.rewrite (c.shell.host.tree.bytesAt a)))
  read : c.shell.host.tree.bytesAt a = [] ∨ (∃ r ∈ rs, r.mode = .truncate) →
    c.shell.host.tree.entry? a ≠ none ∨ rs ≠ [] →
      Disk.readLines (c.shell.session.resolve file) d.shell.host =
        .ok ((Redirection.lasting rs).map fun r => Text.withoutReturn r.content) d.shell.host
  printed : c.shell.host.tree.bytesAt a = [] ∨ (∃ r ∈ rs, r.mode = .truncate) →
    c.shell.host.tree.entry? a ≠ none ∨ rs ≠ [] →
      ∀ line, Text.words line = ["cat", file] →
        ∃ e, runLine .builtins line d = .ok () e ∧
          e.shell.out.written = d.shell.out.written ++
            linesBytes ((Redirection.lasting rs).map fun r => Text.withoutReturn r.content)

/-- On an output that takes everything `cat` prints the lines of a file. -/
theorem exists_runLine_cat {bytes : List UInt8} {text : String}
    (hwords : Text.words line = ["cat", file]) (hout : c.shell.out.room? = none)
    (hfind : c.shell.host.tree.find (c.shell.session.resolve file) = .ok (a, .file bytes))
    (htext : Text.decode? bytes = some text) :
    ∃ d, runLine .builtins line c = .ok () d ∧
      d.shell.out.written = c.shell.out.written ++ linesBytes (Text.linesOf text) := by
  have hread : Builtin.cat.read? [file] = some (.cat [file]) := rfl
  let s := (c.started line Builtin.cat.name [file]).shell
  have hlines : Disk.readLines (s.session.resolve file) s.host =
      .ok (Text.linesOf text) s.host :=
    Disk.readLines_of_find hfind htext
  obtain ⟨s', hprint, hwritten⟩ := exists_printLines_eq_ok (s := s) (Text.linesOf text) hout
  have hbody : (Command.cat [file]).run s = .ok () s' := by
    rw [Command.run, Command.printFiles_of_readLines hlines, hprint]
  rw [runLine_of_read? hwords hread, run_action_of_ne_redirect fun mode file h => by cases h]
  exact ⟨_, onShell_of_ok (s := s) (Command.guarded_of_ok _ hbody), hwritten⟩

theorem Holds.rewritten {rs : List (Redirection file)}
    (h : Holds file a (rs.foldl Redirection.rewrite (c.shell.host.tree.bytesAt a)) c d)
    (hthere : c.shell.host.tree.entry? a ≠ none ∨ rs ≠ [] →
      d.shell.host.tree.entry? a ≠ none) : Rewritten rs a c d := by
  have hfound (hfile : c.shell.host.tree.entry? a ≠ none ∨ rs ≠ []) :
      d.shell.host.tree.find (c.shell.session.resolve file) =
        .ok (a, .file (rs.foldl Redirection.rewrite (c.shell.host.tree.bytesAt a))) := by
    apply Tree.find_of_locate (Tree.locate_target_of_output h.locate)
    rw [← h.bytes_eq]
    exact h.free.entry?_eq (hthere hfile)
  have hlines (hempty : c.shell.host.tree.bytesAt a = [] ∨ ∃ r ∈ rs, r.mode = .truncate) :
      rs.foldl Redirection.rewrite (c.shell.host.tree.bytesAt a) =
        linesBytes ((Redirection.lasting rs).map Redirection.content) := by
    rw [Redirection.foldl_rewrite]
    split
    · rfl
    · next hnone =>
      rw [hempty.resolve_right hnone]
      rfl
  have hfree : ∀ line ∈ (Redirection.lasting rs).map Redirection.content, '\n' ∉ line.toList := by
    intro line hline
    obtain ⟨r, -, rfl⟩ := List.mem_map.1 hline
    exact r.newline_free
  refine ⟨h.bytes_eq, h.others, hfound, ?_, ?_⟩
  · intro hempty hfile
    have hfind := hfound hfile
    rw [hlines hempty] at hfind
    rw [Disk.readLines_of_linesBytes hfind hfree, List.map_map]
    rfl
  · intro hempty hfile line hline
    have hfind := hfound hfile
    have hpath := Session.resolve_of_cwd h.cwd file
    rw [hlines hempty, ← hpath] at hfind
    obtain ⟨e, hrun, hwritten⟩ :=
      exists_runLine_cat hline h.unlimited hfind (Text.decode?_linesBytes _)
    rw [Text.linesOf_ended hfree, List.map_map] at hwritten
    exact ⟨e, hrun, hwritten⟩

/-- Redirections to a path that leads to a file, or to where one can be made, on an
output that takes everything. Here `a` is the place the path leads to when it is opened
for writing: a regular file, or nothing yet in a directory that is there. Line after
line, and in a whole session, where each line that is read stands before its content,
the file is rewritten and nothing else is. -/
theorem redirections_read_back (rs : List (Redirection file))
    (hout : c.shell.out.room? = none)
    (hlocate : c.shell.host.tree.locate .output (c.shell.session.resolve file) = .ok a)
    (hfree : c.shell.host.tree.Free a) :
    (c.source.replies = rs.map (fun r => .line r.content) ++ rest →
      (runLines .builtins c (rs.map Redirection.line)).source.replies = rest ∧
        Rewritten rs a c (runLines .builtins c (rs.map Redirection.line))) ∧
    (c.shell.session.exiting ≠ true →
      c.source.replies = rs.flatMap (fun r => [.line r.line, .line r.content]) ++ rest →
      ∃ d, repl .builtins c = repl .builtins d ∧ d.source.replies = rest ∧
        Rewritten rs a c d) := by
  have hstart : Holds file a (c.shell.host.tree.bytesAt a) c c :=
    ⟨rfl, fun _ _ => rfl, hfree, hlocate, hout, rfl, rfl⟩
  constructor
  · intro hreplies
    obtain ⟨hrest, hholds, hthere⟩ := hstart.runLines hreplies
    exact ⟨hrest, hholds.rewritten hthere⟩
  · intro hexit hreplies
    obtain ⟨d, hd, hrest, hholds, hthere⟩ := hstart.repl hexit hreplies
    exact ⟨d, hd, hrest, hholds.rewritten hthere⟩

/-- A session in `/w`, which is empty, with two lines to come. -/
def dictating : Console :=
  { onTree [("/w", .dir)] "/w" with source := { replies := [.line "a\x0d", .line ""] } }

/-- Overwrites `f` with the first of the lines. -/
def overwriteF : Redirection "f" where
  mode := .truncate
  line := "> f"
  content := "a\x0d"
  words_eq := by decide
  newline_free := by decide

/-- Appends the second line, which is empty. -/
def appendF : Redirection "f" where
  mode := .append
  line := " >>  f"
  content := ""
  words_eq := by decide
  newline_free := by decide

/-- The address of `/w/f`. -/
def addressWF : Address :=
  [Disk.nameF, nameW]

theorem redirections_read_back_dictated :
    Disk.readLines (Path.ofText "/w/f")
        (runLines .builtins dictating ["> f", " >>  f"]).shell.host =
      .ok ["a", ""] (runLines .builtins dictating ["> f", " >>  f"]).shell.host := by
  have hlocate : dictating.shell.host.tree.locate .output (dictating.shell.session.resolve "f") =
      .ok addressWF := by
    decide
  have hfree : dictating.shell.host.tree.Free addressWF := Tree.free_of_eq_none (by decide)
  have hreplies : dictating.source.replies =
      [overwriteF, appendF].map (fun r => .line r.content) ++ [] :=
    rfl
  obtain ⟨-, hwritten⟩ := (redirections_read_back [overwriteF, appendF] rfl hlocate hfree).1
    hreplies
  exact hwritten.read (Or.inl (by decide)) (Or.inr (by simp))

/-- Without any redirection the file is not there to be read. -/
theorem unread_without_redirection :
    dictating.shell.host.tree.locate .output (dictating.shell.session.resolve "f") =
        .ok addressWF ∧
      dictating.shell.host.tree.entry? addressWF = none ∧
      Disk.readLines (dictating.shell.session.resolve "f")
        (runLines .builtins dictating []).shell.host =
          .error (.notFound (Path.ofText "/w/f")) dictating.shell.host ∧
      (outcomeState (runLine .builtins "cat f" (runLines .builtins dictating []))).shell.out.written =
        Text.encode "File not found: f\n" := by
  refine ⟨by decide, by decide, by decide, ?_⟩
  decide

end ReadBack

end Console

end TreeShell
