import TreeShell.Proofs.Interpreter.PrintingFiles

/-!
# What `echo` prints

A message of several words stands between double quotes, which belong to its first and its
last word, since a line is cut into words without a look at the quotes. `echo` joins the
words again and takes every double quote out. So a message whose words have no quotes of
their own is printed with single spaces, whatever gaps it was entered with
(`echo_prints_message`), and of any other line the quotes at its two ends decide.

A line with given words and given gaps has these words (`words_lineOf`).
-/

namespace TreeShell

namespace Text

/-- Gaps to put after so many words, where only the last one may be empty. -/
structure AreGaps (count : Nat) (gaps : List (List Char)) : Prop where
  length : gaps.length = count
  isGap : ∀ gap ∈ gaps, IsGap gap
  ne_nil : ∀ gap ∈ gaps.dropLast, gap ≠ []

/-- The line that begins with the indent and has each of the words with its gap after it. -/
def lineOf (indent : List Char) (words : List String) (gaps : List (List Char)) : String :=
  String.ofList (indent ++ spread ((words.map String.toList).zip gaps))

section Laying

variable {indent gap : List Char} {gaps : List (List Char)} {words : List String} {count : Nat}

theorem AreGaps.tail (h : AreGaps (count + 1) (gap :: gaps)) : AreGaps count gaps := by
  refine ⟨Nat.succ.inj h.length, (List.forall_mem_cons.1 h.isGap).2, fun next hnext => ?_⟩
  apply h.ne_nil
  cases gaps with
  | nil => cases hnext
  | cons first rest =>
    rw [List.dropLast_cons_cons]
    exact List.mem_cons_of_mem gap hnext

/-- A gap that is empty is the last one. -/
theorem AreGaps.eq_nil (h : AreGaps count (gap :: gaps)) (hgap : gap = []) : gaps = [] := by
  cases gaps with
  | nil => rfl
  | cons first rest => exact absurd hgap (h.ne_nil gap List.mem_cons_self)

theorem spaced_zip (hwords : ∀ word ∈ words, IsWord word.toList)
    (hgaps : AreGaps words.length gaps) : Spaced ((words.map String.toList).zip gaps) := by
  induction words generalizing gaps with
  | nil => trivial
  | cons word words ih =>
    obtain ⟨hword, hrest⟩ := List.forall_mem_cons.1 hwords
    cases gaps with
    | nil => cases hgaps.length
    | cons gap gaps =>
      refine ⟨hword, hgaps.isGap gap List.mem_cons_self, fun hgap => ?_, ih hrest hgaps.tail⟩
      rw [hgaps.eq_nil hgap]
      exact List.zip_nil_right

/-- The words of a line are found again, whatever the gaps around them. -/
theorem words_lineOf (hwords : ∀ word ∈ words, IsWord word.toList) (hindent : IsGap indent)
    (hgaps : AreGaps words.length gaps) : Text.words (lineOf indent words gaps) = words := by
  let layout : Layout := ⟨indent, _, hindent, spaced_zip hwords hgaps⟩
  have hlen : (words.map String.toList).length ≤ gaps.length := by
    rw [List.length_map, hgaps.length]
  have hlayout : layout.words = words := by
    change ((words.map String.toList).zip gaps).map (String.ofList ∘ Prod.fst) = words
    rw [← List.map_map, List.map_fst_zip hlen, List.map_map]
    exact List.map_id'' (fun _ => String.ofList_toList) words
  exact (words_text layout).trans hlayout

end Laying

section Quotes

theorem toList_withoutQuotes (text : String) :
    (withoutQuotes text).toList = text.toList.filter fun c => c != '"' := by
  rw [withoutQuotes, String.toList_ofList]

theorem withoutQuotes_append (s t : String) :
    withoutQuotes (s ++ t) = withoutQuotes s ++ withoutQuotes t := by
  apply String.toList_inj.1
  rw [String.toList_append, toList_withoutQuotes, toList_withoutQuotes, toList_withoutQuotes,
    String.toList_append, List.filter_append]

theorem withoutQuotes_of_not_mem {text : String} (h : '"' ∉ text.toList) :
    withoutQuotes text = text := by
  apply String.toList_inj.1
  rw [toList_withoutQuotes, List.filter_eq_self]
  intro c hc
  have hne : c ≠ '"' := fun hquote => h (hquote ▸ hc)
  simpa using hne

/-- Quotes are taken out of the words one by one. -/
theorem withoutQuotes_intercalate (words : List String) :
    withoutQuotes (" ".intercalate words) = " ".intercalate (words.map withoutQuotes) := by
  have hspace : withoutQuotes " " = " " := by decide
  induction words with
  | nil => decide
  | cons word words ih =>
    cases words with
    | nil => simp
    | cons next rest =>
      rw [String.intercalate_cons_cons, withoutQuotes_append, withoutQuotes_append, ih, hspace]
      simp

variable {first last : String} {middle : List String}

/-- Words without quotes are what is left of them when they were put between quotes. -/
theorem withoutQuotes_quoted (h : ∀ word ∈ first :: (middle ++ [last]), '"' ∉ word.toList) :
    withoutQuotes (" ".intercalate (("\"" ++ first) :: (middle ++ [last ++ "\""]))) =
      " ".intercalate (first :: (middle ++ [last])) := by
  have hquote : withoutQuotes "\"" = "" := by decide
  obtain ⟨hfirst, hrest⟩ := List.forall_mem_cons.1 h
  obtain ⟨hmiddle, hlast⟩ := List.forall_mem_append.1 hrest
  have hkept : middle.map withoutQuotes = middle :=
    List.map_congr_left (fun word hword => withoutQuotes_of_not_mem (hmiddle word hword)) |>.trans
      (List.map_id middle)
  rw [withoutQuotes_intercalate, List.map_cons, List.map_append, List.map_singleton,
    withoutQuotes_append, withoutQuotes_append, hquote, hkept, withoutQuotes_of_not_mem hfirst,
    withoutQuotes_of_not_mem (hlast last (List.mem_singleton_self last)), String.empty_append,
    String.append_empty]

theorem isWord_quoted (h : ∀ word ∈ first :: (middle ++ [last]), IsWord word.toList) :
    ∀ word ∈ ("\"" ++ first) :: (middle ++ [last ++ "\""]), IsWord word.toList := by
  obtain ⟨hfirst, hrest⟩ := List.forall_mem_cons.1 h
  obtain ⟨hmiddle, hlast⟩ := List.forall_mem_append.1 hrest
  have hlast : IsWord last.toList := hlast last (List.mem_singleton_self last)
  refine List.forall_mem_cons.2 ⟨?_, List.forall_mem_append.2 ⟨hmiddle, ?_⟩⟩
  · refine ⟨by simp, fun c hc => ?_⟩
    rw [String.toList_append] at hc
    rcases List.mem_append.1 hc with hc | hc
    · rw [List.mem_singleton.1 hc]
      exact isBlank_quote
    · exact hfirst.2 c hc
  · rintro word hword
    rw [List.mem_singleton.1 hword, String.toList_append]
    refine ⟨by simp, fun c hc => ?_⟩
    rcases List.mem_append.1 hc with hc | hc
    · exact hlast.2 c hc
    · rw [List.mem_singleton.1 hc]
      exact isBlank_quote

end Quotes

end Text

namespace Builtin

variable {args : List String}

theorem isQuoted_quoted (first last : String) (middle : List String) :
    IsQuoted (("\"" ++ first) :: (middle ++ [last ++ "\""])) := by
  refine ⟨⟨_, rfl, by simp⟩, last ++ "\"", ?_, by simp⟩
  rw [← List.cons_append, List.getLast?_concat]

/-- Several words that are quoted are the message of their text without the quotes. -/
theorem readEcho_of_isQuoted (hlen : 2 ≤ args.length) (h : IsQuoted args) :
    readEcho args = some (.echo (Text.withoutQuotes (" ".intercalate args))) := by
  have hjoined : Text.joinQuoted args = some (Text.withoutQuotes (" ".intercalate args)) := by
    obtain ⟨message, hmessage⟩ :=
      Option.isSome_iff_exists.1 ((joinQuoted_isSome_iff args).2 ⟨hlen, h⟩)
    unfold Text.joinQuoted at hmessage ⊢
    split at hmessage
    · split at hmessage
      · next hquotes => rw [if_pos hquotes]
      · cases hmessage
    · cases hmessage
  match args with
  | [] => cases hlen
  | [word] => simp at hlen
  | first :: second :: rest => rw [readEcho, hjoined, Option.map_some]; simp

end Builtin

namespace Console

open Command Shell

variable {c : Console} {line message : String} {args : List String}

theorem onlyPrints_echo (hwords : Text.words line = "echo" :: args)
    (hread : Builtin.readEcho args = some (.echo message)) :
    OnlyPrints line (message ++ "\n") c (runLine .builtins line c) := by
  have hwords : Text.words line = Builtin.echo.name :: args := hwords
  have hread : Builtin.echo.read? args = some (.echo message) := hread
  let started := c.started line Builtin.echo.name args
  exact onlyPrints_of_comesTo hwords hread (by simp) (moves_printLine message)
    (u := ⟨c.shell.host.tree, [.words (message ++ "\n")], none⟩) rfl (shown_words args _)
    (comesTo_printLine args message started.shell)

/-- A message of words without quotes, put between quotes, is printed with single spaces,
whatever the gaps that it is entered with. Of any line with `echo`, one argument is printed
as it is. More are taken exactly if the first begins and the last ends with a quote, and
then they are printed with single spaces and without their quotes. -/
theorem echo_prints_message (c : Console) :
    (∀ (first last : String) (middle : List String) (indent : List Char) (gaps : List (List Char)),
      (∀ word ∈ first :: (middle ++ [last]), Text.IsWord word.toList ∧ '"' ∉ word.toList) →
      Text.IsGap indent → Text.AreGaps (middle.length + 3) gaps →
      ∀ line, line = Text.lineOf indent
          ("echo" :: ("\"" ++ first) :: (middle ++ [last ++ "\""])) gaps →
        OnlyPrints line (" ".intercalate (first :: (middle ++ [last])) ++ "\n") c
          (runLine .builtins line c)) ∧
    ∀ (line : String) (args : List String), Text.words line = "echo" :: args →
      (∀ word, args = [word] → OnlyPrints line (word ++ "\n") c (runLine .builtins line c)) ∧
      (2 ≤ args.length → ((Builtin.echo.read? args).isSome = true ↔ Builtin.IsQuoted args) ∧
        (Builtin.IsQuoted args → OnlyPrints line
          (String.ofList ((" ".intercalate args).toList.filter fun x => x != '"') ++ "\n") c
          (runLine .builtins line c)) ∧
        (¬ Builtin.IsQuoted args →
          OnlyAnswers line "Usage: echo <message>" c (runLine .builtins line c))) := by
  constructor
  · rintro first last middle indent gaps hmessage hindent hgaps line rfl
    have hword := Text.isWord_quoted fun word hmem => (hmessage word hmem).1
    have hname : Text.IsWord "echo".toList := by decide
    have hwords : Text.words (Text.lineOf indent
        ("echo" :: ("\"" ++ first) :: (middle ++ [last ++ "\""])) gaps) =
          "echo" :: ("\"" ++ first) :: (middle ++ [last ++ "\""]) :=
      Text.words_lineOf (List.forall_mem_cons.2 ⟨hname, hword⟩) hindent (by simpa using hgaps)
    rw [← Text.withoutQuotes_quoted fun word hmem => (hmessage word hmem).2]
    exact onlyPrints_echo hwords
      (Builtin.readEcho_of_isQuoted (by simp) (Builtin.isQuoted_quoted first last middle))
  · intro line args hwords
    refine ⟨fun word hargs => ?_, fun hlen => ⟨?_, fun hquoted => ?_, fun hquoted => ?_⟩⟩
    · rw [hargs] at hwords
      exact onlyPrints_echo hwords rfl
    · rw [Builtin.isSome_read?_iff, Builtin.Accepts, or_iff_right (by omega), and_iff_right hlen]
    · exact onlyPrints_echo hwords (Builtin.readEcho_of_isQuoted hlen hquoted)
    · refine onlyAnswers_of_read?_eq_none (b := .echo) hwords ?_ c
      rw [← Option.not_isSome_iff_eq_none, Builtin.isSome_read?_iff, Builtin.Accepts]
      rintro (hone | ⟨-, hmore⟩)
      · omega
      · exact hquoted hmore

/-- A message with a no-break space after the name and a line feed between its words, and a
message of a lone quote, a word with a quote inside it, and another lone quote. -/
theorem echo_prints_message_loneQuotes :
    OnlyPrints "\techo\u00A0\"a  é\n b\"" "a é b\n" (onTree [] "/")
        (runLine .builtins "\techo\u00A0\"a  é\n b\"" (onTree [] "/")) ∧
      OnlyPrints "echo \" x\"y \"" " xy \n" (onTree [] "/")
        (runLine .builtins "echo \" x\"y \"" (onTree [] "/")) := by
  obtain ⟨hmessage, hline⟩ := echo_prints_message (onTree [] "/")
  constructor
  · refine hmessage "a" "b" ["é"] ['\t'] [['\u00A0'], [' ', ' '], ['\n', ' '], []] ?_ ?_ ?_ _ ?_
    · decide
    · decide
    · exact ⟨rfl, by decide, by decide⟩
    · decide
  · have hquoted : Builtin.IsQuoted ["\"", "x\"y", "\""] :=
      ⟨⟨_, rfl, by decide⟩, _, rfl, by decide⟩
    exact ((hline "echo \" x\"y \"" ["\"", "x\"y", "\""] (by decide)).2 (by decide)).2.1 hquoted

end Console

end TreeShell
