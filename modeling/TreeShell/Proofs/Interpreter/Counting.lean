import Mathlib.Algebra.GroupWithZero.Nat
import TreeShell.Proofs.Disk.ReadBack
import TreeShell.Proofs.Interpreter.PathPolicy
import TreeShell.Proofs.Text.Layout

/-!
# What `wc` counts is what `cat` prints

`wc` and `cat` read the same lines of a file. The numbers that `wc` shows are those of
the output of `cat`: its lines, its characters without the line feeds, and the words that
its lines would have as command lines (`wc_counts_cat`), although words are counted by
where they start and command lines are cut between them. The counts of several parts of
a text add up (`ofLines_flatten`).

Three numbers with blanks between them are read in one way (`Counts.shown_injective`), so
what `wc` shows determines what it counted.
-/

namespace TreeShell

namespace Text

section Pieces

variable {α : Type} [DecidableEq α] {nl cr : α} {text line : List α}

theorem subset_of_dropReturn : dropReturn cr line ⊆ line := by
  rw [dropReturn]
  split
  · exact List.dropLast_subset line
  · exact List.Subset.refl line

/-- No line has a line feed in it. -/
theorem not_mem_of_mem_lines (h : line ∈ lines nl cr text) : nl ∉ line := by
  have hpiece {piece : List α} (hmem : piece ∈ text.splitOn nl) : nl ∉ piece :=
    Path.not_mem_of_mem_splitOn hmem
  rcases List.mem_append.1 h with hended | hopen
  · obtain ⟨piece, hmem, rfl⟩ := List.mem_map.1 hended
    exact fun hnl => hpiece (List.mem_of_mem_dropLast hmem) (subset_of_dropReturn hnl)
  · split at hopen
    · cases hopen
    · obtain rfl := List.mem_singleton.1 hopen
      apply hpiece
      rw [openRest, List.getLast?_eq_some_getLast (List.splitOn_ne_nil nl text)]
      exact List.getLast_mem _

end Pieces

theorem not_mem_of_mem_linesOf {text line : String} (h : line ∈ linesOf text) :
    '\n' ∉ line.toList := by
  obtain ⟨cs, hmem, rfl⟩ := List.mem_map.1 h
  rw [String.toList_ofList]
  exact not_mem_of_mem_lines hmem

theorem encode_injective {text text' : String} (h : encode text = encode text') :
    text = text' := by
  have hread := congrArg decode? h
  rw [decode?_encode, decode?_encode] at hread
  exact Option.some.inj hread

namespace Counts

instance instZeroCounts : Zero Counts := ⟨{}⟩

/-- The counts as they are shown for a file. -/
def shown (n : Counts) (name : String) : String :=
  toString n.lines ++ " " ++ toString n.words ++ " " ++ toString n.chars ++ " " ++ name

theorem ofLines_append (lines lines' : List String) :
    ofLines (lines ++ lines') = ofLines lines + ofLines lines' := by
  induction lines with
  | nil =>
    change _ = (⟨0 + _, 0 + _, 0 + _⟩ : Counts)
    simp only [Nat.zero_add]
    rfl
  | cons line lines ih =>
    rw [List.cons_append, ofLines_cons, ofLines_cons, ih]
    change (⟨_, _, _⟩ : Counts) = ⟨_, _, _⟩
    simp only [lines_add, words_add, chars_add, Nat.add_assoc]

/-- The counts of several parts are the sums of their counts. -/
theorem ofLines_flatten (parts : List (List String)) :
    ofLines parts.flatten = (parts.map ofLines).sum := by
  induction parts with
  | nil => rfl
  | cons part parts ih =>
    rw [List.flatten_cons, ofLines_append, ih, List.map_cons, List.sum_cons]

/-- With a line feed for each line, the characters are those of the text. -/
theorem chars_add_lines_ofLines (lines : List String) :
    (ofLines lines).chars + (ofLines lines).lines = (ended lines).length := by
  induction lines with
  | nil => rfl
  | cons line lines ih =>
    rw [ended_cons, String.length_append, String.length_append, ← ih, ofLines_cons, chars_add,
      lines_add]
    change line.length + _ + (1 + _) = line.length + 1 + _
    omega

theorem words_ofLines (lines : List String) :
    (ofLines lines).words = (lines.map wordCount).sum := by
  induction lines with
  | nil => rfl
  | cons line lines ih => rw [ofLines_cons, words_add, ih, List.map_cons, List.sum_cons, ofLine]

section Shown

theorem toString_injective {m n : Nat} (h : toString m = toString n) : m = n := by
  have hdigits : Nat.toDigits 10 m = Nat.toDigits 10 n := by
    rw [← Nat.toList_repr, ← Nat.toList_repr]
    exact congrArg String.toList h
  rw [← Nat.ofDigitChars_ten_toDigits (n := m), hdigits, Nat.ofDigitChars_ten_toDigits]

/-- A number ends at the first character that is no digit. -/
theorem toString_append_inj {m n : Nat} {rest rest' : String}
    (h : toString m ++ (" " ++ rest) = toString n ++ (" " ++ rest')) : m = n ∧ rest = rest' := by
  have hdigits (k : Nat) : ∀ c ∈ (toString k).toList, c.isDigit = true := by
    intro c hc
    rw [Nat.toString_eq_repr, Nat.toList_repr] at hc
    exact Nat.isDigit_of_mem_toDigits (by decide) (by decide) hc
  have hblank (tail : String) : ∀ c ∈ (' ' :: tail.toList).head?, c.isDigit = false := by
    rintro c ⟨rfl⟩
    decide
  have hchars : (toString m).toList ++ ' ' :: rest.toList =
      (toString n).toList ++ ' ' :: rest'.toList := by
    simpa using congrArg String.toList h
  obtain ⟨hnumber, htail⟩ :=
    append_inj_of_head (hdigits m) (hblank rest) (hdigits n) (hblank rest') hchars
  exact ⟨toString_injective (String.toList_inj.1 hnumber),
    String.toList_inj.1 (List.cons.inj htail).2⟩

/-- Different counts are shown differently. -/
theorem shown_injective {m n : Counts} {name : String} (h : m.shown name = n.shown name) :
    m = n := by
  simp only [shown, String.append_assoc] at h
  obtain ⟨hlines, hwords⟩ := toString_append_inj h
  obtain ⟨hwords, hchars⟩ := toString_append_inj hwords
  obtain ⟨hchars, -⟩ := toString_append_inj hchars
  cases m
  cases n
  exact (Counts.mk.injEq ..).mpr ⟨hlines, hwords, hchars⟩

end Shown

end Counts

end Text

/-- How many words are found in a line: the name and the arguments of the command line
that it is, and none if it is no command line. -/
def CommandLine.wordsFound (line : String) : Nat :=
  match parse line with
  | .ok command => command.args.length + 1
  | .error .emptyLine => 0

theorem CommandLine.wordsFound_eq (line : String) : wordsFound line = Text.wordCount line := by
  rw [wordsFound, parse, Text.wordCount_eq]
  cases Text.words line with
  | nil => rfl
  | cons name args => rfl

namespace Console

open Shell

/-- The command with the arguments prints the text, as much as the output takes of it. -/
def Prints (c : Console) (b : Builtin) (args : List String) (text : String) : Prop :=
  (outcomeState ((b.action args).run c)).shell.out = c.shell.out.write (Text.encode text)

variable {c : Console} {f : String} {lines : List String} {host : Host}

/-- An output that takes everything shows which text was printed. -/
theorem Prints.inj {b : Builtin} {args : List String} {text text' : String}
    (hout : c.shell.out.room? = none) (h : Prints c b args text) (h' : Prints c b args text') :
    text = text' := by
  have hwrite : c.shell.out.write (Text.encode text) = c.shell.out.write (Text.encode text') :=
    h.symm.trans h'
  exact Text.encode_injective ((write_inj_of_unlimited hout).1 hwrite)

/-- What a command prints that ends without a fault. -/
theorem prints_of_comesTo {args : List String} {u : Upshot} {command : Command} {b : Builtin}
    (hread : b.read? args = some command) (hne : ∀ mode file, command ≠ .redirect mode file)
    (hfault : u.fault? = none) (h : ComesTo id args c.shell.out u (command.run c.shell)) :
    Prints c b args (shown args u.text) := by
  have hrun := comesTo_onShell (Command.comesTo_guarded command.builtin.name h)
  have haction : b.action args = command.action := by rw [Builtin.action, hread]
  have hreported : u.reported.bytes args = Text.encode (shown args u.text) := by
    simp [Upshot.bytes, Upshot.reported, hfault]
  rw [Prints, haction, run_action_of_ne_redirect hne, ← hreported]
  exact hrun.out

theorem shown_lines (args lines : List String) :
    shown args (lines.map fun line => .words (line ++ "\n")) = Text.ended lines := by
  induction lines with
  | nil => rfl
  | cons line lines ih =>
    rw [List.map_cons, shown, ih, Text.ended_cons]
    rfl

theorem prints_cat
    (hread : Disk.readLines (c.shell.session.resolve f) c.shell.host = .ok lines host) :
    Prints c .cat [f] (Text.ended lines) := by
  have hbody : Command.printFiles [f] c.shell = printLines lines c.shell :=
    Command.printFiles_of_readLines hread
  have hcat : Builtin.cat.read? [f] = some (.cat [f]) := rfl
  let u : Upshot :=
    ⟨c.shell.host.tree, lines.map fun line => .words (line ++ "\n"), none⟩
  have hupshot : ComesTo id [f] c.shell.out u (Command.printFiles [f] c.shell) :=
    hbody ▸ Command.comesTo_printLines [f] lines c.shell
  have hprints : Prints c .cat [f] (shown [f] u.text) :=
    prints_of_comesTo hcat (by simp) rfl hupshot
  rwa [shown_lines] at hprints

theorem prints_wc
    (hread : Disk.readLines (c.shell.session.resolve f) c.shell.host = .ok lines host) :
    Prints c .wc [f] ((Text.Counts.ofLines lines).shown f ++ "\n") := by
  obtain ⟨-, -, -, -, -, -, rfl⟩ := Disk.readLines_eq_ok hread
  have hbody : Command.countFile f c.shell =
      printLine ((Text.Counts.ofLines lines).shown f) c.shell := by
    rw [Command.countFile, bind_of_ok (resolve_eq f c.shell), bind_of_ok (attempt_of_ok hread)]
    rfl
  have hwc : Builtin.wc.read? [f] = some (.wc f) := rfl
  let u : Upshot :=
    ⟨c.shell.host.tree, [.words ((Text.Counts.ofLines lines).shown f ++ "\n")], none⟩
  have hupshot : ComesTo id [f] c.shell.out u (Command.countFile f c.shell) :=
    hbody ▸ Command.comesTo_printLine [f] _ c.shell
  have hprints : Prints c .wc [f] (shown [f] u.text) :=
    prints_of_comesTo hwc (by simp) rfl hupshot
  rwa [shown_words] at hprints

/-- For a file that can be read, `cat` prints lines and `wc` shows three numbers: how many
lines these are, how many words they have as command lines, and how many characters `cat`
prints without the line feeds. The counts of lines are the sums of the counts of any parts
that they are put together from. -/
theorem wc_counts_cat
    (hread : Disk.readLines (c.shell.session.resolve f) c.shell.host = .ok lines host) :
    (∀ line ∈ lines, '\n' ∉ line.toList) ∧ Prints c .cat [f] (Text.ended lines) ∧
    (∃ n : Text.Counts, Prints c .wc [f] (n.shown f ++ "\n") ∧
      (c.shell.out.room? = none → ∀ m : Text.Counts, Prints c .wc [f] (m.shown f ++ "\n") → m = n) ∧
      n.lines = lines.length ∧ n.words = (lines.map CommandLine.wordsFound).sum ∧
      n.chars + n.lines = (Text.ended lines).length) ∧
    ∀ parts : List (List String),
      Text.Counts.ofLines parts.flatten = (parts.map Text.Counts.ofLines).sum := by
  have hcount : Prints c .wc [f] ((Text.Counts.ofLines lines).shown f ++ "\n") := prints_wc hread
  refine ⟨?_, prints_cat hread, ⟨_, hcount, ?_, Text.Counts.lines_ofLines lines, ?_,
    Text.Counts.chars_add_lines_ofLines lines⟩, Text.Counts.ofLines_flatten⟩
  · obtain ⟨-, -, text, -, -, rfl, -⟩ := Disk.readLines_eq_ok hread
    exact fun line hline => Text.not_mem_of_mem_linesOf hline
  · intro hout m hm
    have hchars := congrArg String.toList (hm.inj hout hcount)
    rw [String.toList_append, String.toList_append] at hchars
    exact Text.Counts.shown_injective (String.toList_inj.1 (List.append_cancel_right hchars))
  · rw [Text.Counts.words_ofLines, funext CommandLine.wordsFound_eq]

/-- A session beside a file with both line ends, a line without characters, a blank that
takes two bytes, and a last line without its end. -/
def besideLines : Console :=
  onTree [("/w/f", .file [97, 0xC2, 0xA0, 98, 13, 10, 10, 120, 32, 121])] "/w"

theorem wc_counts_cat_besideLines :
    Disk.readLines (besideLines.shell.session.resolve "f") besideLines.shell.host =
        .ok ["a\u00A0b", "", "x y"] besideLines.shell.host ∧
      Prints besideLines .cat ["f"] "a\u00A0b\n\nx y\n" ∧
      Prints besideLines .wc ["f"] "3 4 6 f\n" := by
  have hread : Disk.readLines (besideLines.shell.session.resolve "f") besideLines.shell.host =
      .ok ["a\u00A0b", "", "x y"] besideLines.shell.host := by
    decide
  obtain ⟨-, hcat, ⟨n, hwc, -, hlines, hwords, hchars⟩, -⟩ := wc_counts_cat hread
  have hshown : n.shown "f" ++ "\n" = "3 4 6 f\n" := by
    have hthree : n.lines = 3 := hlines
    have hfour : n.words = 4 := hwords.trans (by decide)
    have hnine : n.chars + n.lines = 9 := hchars.trans (by decide)
    have hsix : n.chars = 6 := by omega
    rw [Text.Counts.shown, hthree, hfour, hsix]
    decide
  exact ⟨hread, hcat, hshown ▸ hwc⟩

end Console

end TreeShell
