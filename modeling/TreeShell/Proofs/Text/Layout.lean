import Mathlib.Logic.ExistsUnique
import TreeShell.Command.Line
import TreeShell.Text.Counts

/-!
# Lines laid out

A layout of a line is the gap that the line begins with, and its words, each with the
gap after it. Gaps are blank, words are not, and only the last gap may be empty. Every
line has exactly one layout (`existsUnique_layout`): nothing of it is lost, and no
character could belong to another word. The words of a line are those of its layout
(`words_text`), so reading a command line undoes writing words with any gaps around them
(`parse_iff_layout`).

Counting the places where a word starts counts the words (`wordCount_eq`).
-/

namespace TreeShell.Text

/-- Blanks only, or nothing. -/
def IsGap (gap : List Char) : Prop :=
  ∀ c ∈ gap, isBlank c = true

/-- At least one character, and no blanks. -/
def IsWord (word : List Char) : Prop :=
  word ≠ [] ∧ ∀ c ∈ word, isBlank c = false

instance decidableIsGap (gap : List Char) : Decidable (IsGap gap) :=
  List.decidableBAll (fun c => isBlank c = true) gap

instance decidableIsWord (word : List Char) : Decidable (IsWord word) :=
  @instDecidableAnd _ _ inferInstance (List.decidableBAll (fun c => isBlank c = false) word)

/-- Words, each with the gap after it. Between two words the gap is not empty. -/
def Spaced : List (List Char × List Char) → Prop
  | [] => True
  | (word, gap) :: rest => IsWord word ∧ IsGap gap ∧ (gap = [] → rest = []) ∧ Spaced rest

/-- A line, taken apart into its words and the gaps around them. -/
@[ext] structure Layout where
  indent : List Char
  parts : List (List Char × List Char)
  isGap_indent : IsGap indent
  spaced : Spaced parts

/-- Words and gaps put together. -/
def spread (parts : List (List Char × List Char)) : List Char :=
  parts.flatMap fun part => part.1 ++ part.2

namespace Layout

/-- The line that is laid out. -/
def text (l : Layout) : String :=
  String.ofList (l.indent ++ spread l.parts)

/-- The words of the layout, in order. -/
def words (l : Layout) : List String :=
  l.parts.map fun part => String.ofList part.1

end Layout

variable {c : Char} {cs word gap : List Char} {parts : List (List Char × List Char)}

theorem spread_cons (part : List Char × List Char) (parts : List (List Char × List Char)) :
    spread (part :: parts) = part.1 ++ (part.2 ++ spread parts) := by
  rw [spread, List.flatMap_cons, List.append_assoc]
  rfl

section Runs

/-- The maximal runs of characters that are not blank. -/
def runs (cs : List Char) : List (List Char) :=
  (cs.splitOnP isBlank).filter fun run => !run.isEmpty

theorem words_ofList (cs : List Char) : words (String.ofList cs) = (runs cs).map String.ofList := by
  rw [words, String.toList_ofList, runs]

theorem runs_append_cons (before after : List Char) (h : isBlank c = true) :
    runs (before ++ c :: after) = runs before ++ runs after := by
  rw [runs, List.splitOnP_append_cons before after h, List.filter_append]
  rfl

theorem runs_gap_append (h : IsGap gap) (cs : List Char) : runs (gap ++ cs) = runs cs := by
  induction gap with
  | nil => rfl
  | cons c gap ih =>
    obtain ⟨hc, hgap⟩ := List.forall_mem_cons.1 h
    exact (runs_append_cons [] (gap ++ cs) hc).trans (ih hgap)

theorem runs_word (h : IsWord word) : runs word = [word] := by
  rw [runs, List.splitOnP_eq_singleton h.2]
  simp [h.1]

/-- A word ends where a gap begins, or at the end of the line. -/
theorem runs_word_append (hword : IsWord word) (hgap : IsGap gap) (hend : gap = [] → cs = []) :
    runs (word ++ (gap ++ cs)) = word :: runs cs := by
  cases gap with
  | nil =>
    rw [hend rfl, List.append_nil, List.append_nil, runs_word hword]
    rfl
  | cons c gap =>
    obtain ⟨hc, hgap⟩ := List.forall_mem_cons.1 hgap
    rw [List.cons_append, runs_append_cons word _ hc, runs_word hword, runs_gap_append hgap]
    rfl

theorem runs_spread (h : Spaced parts) : runs (spread parts) = parts.map Prod.fst := by
  induction parts with
  | nil => rfl
  | cons part parts ih =>
    obtain ⟨hword, hgap, hlast, hrest⟩ := h
    have hend (hnil : part.2 = []) : spread parts = [] := congrArg spread (hlast hnil)
    rw [spread_cons, runs_word_append hword hgap hend, ih hrest, List.map_cons]

/-- The words of a line are the words it is laid out in. -/
theorem words_text (l : Layout) : words l.text = l.words := by
  rw [Layout.text, words_ofList, runs_gap_append l.isGap_indent, runs_spread l.spaced,
    List.map_map, Layout.words]
  rfl

end Runs

section Unique

variable {p : Char → Bool} {xs ys xs' ys' : List Char}

/-- Two lists that are cut where a property first fails are cut in the same place. -/
theorem append_inj_of_head (hxs : ∀ c ∈ xs, p c = true) (hys : ∀ c ∈ ys.head?, p c = false)
    (hxs' : ∀ c ∈ xs', p c = true) (hys' : ∀ c ∈ ys'.head?, p c = false)
    (h : xs ++ ys = xs' ++ ys') : xs = xs' ∧ ys = ys' := by
  have hcut {xs ys : List Char} (hxs : ∀ c ∈ xs, p c = true) (hys : ∀ c ∈ ys.head?, p c = false) :
      (xs ++ ys).takeWhile p = xs := by
    rw [List.takeWhile_append_of_pos hxs]
    cases ys with
    | nil => simp
    | cons c ys => simp [hys c rfl]
  have hfirst : xs = xs' := by rw [← hcut hxs hys, h, hcut hxs' hys']
  subst hfirst
  exact ⟨rfl, List.append_cancel_left h⟩

theorem isBlank_head?_spread (h : Spaced parts) : ∀ c ∈ (spread parts).head?, isBlank c = false := by
  cases parts with
  | nil => simp [spread]
  | cons part parts =>
    obtain ⟨⟨hne, hword⟩, -⟩ := h
    obtain ⟨first, word, hcons⟩ := List.exists_cons_of_ne_nil hne
    rw [spread_cons, hcons]
    rintro c ⟨rfl⟩
    exact hword _ (hcons ▸ List.mem_cons_self)

/-- What follows a word does not begin with a character of a word. -/
theorem isBlank_head?_gap_append (hgap : IsGap gap) (hend : gap = [] → cs = []) :
    ∀ c ∈ (gap ++ cs).head?, isBlank c = true := by
  cases gap with
  | nil =>
    simp [hend rfl]
  | cons first gap =>
    rintro c ⟨rfl⟩
    exact hgap _ List.mem_cons_self

theorem spread_injective {parts' : List (List Char × List Char)} (h : Spaced parts)
    (h' : Spaced parts') (heq : spread parts = spread parts') : parts = parts' := by
  induction parts generalizing parts' with
  | nil =>
    cases parts' with
    | nil => rfl
    | cons part' parts' =>
      rw [spread_cons] at heq
      exact absurd (List.append_eq_nil_iff.1 heq.symm).1 h'.1.1
  | cons part parts ih =>
    cases parts' with
    | nil =>
      rw [spread_cons] at heq
      exact absurd (List.append_eq_nil_iff.1 heq).1 h.1.1
    | cons part' parts' =>
      obtain ⟨word, gap⟩ := part
      obtain ⟨word', gap'⟩ := part'
      obtain ⟨⟨hne, hword⟩, hgap, hlast, hrest⟩ := h
      obtain ⟨⟨hne', hword'⟩, hgap', hlast', hrest'⟩ := h'
      have hend (hnil : gap = []) : spread parts = [] := congrArg spread (hlast hnil)
      have hend' (hnil : gap' = []) : spread parts' = [] := congrArg spread (hlast' hnil)
      rw [spread_cons, spread_cons] at heq
      change word ++ (gap ++ spread parts) = word' ++ (gap' ++ spread parts') at heq
      have hafter := isBlank_head?_gap_append hgap hend
      have hafter' := isBlank_head?_gap_append hgap' hend'
      obtain ⟨rfl, htail⟩ := append_inj_of_head (p := fun c => !isBlank c) (by simpa using hword)
        (by simpa using hafter) (by simpa using hword') (by simpa using hafter') heq
      obtain ⟨rfl, hmore⟩ := append_inj_of_head hgap (isBlank_head?_spread hrest) hgap'
        (isBlank_head?_spread hrest') htail
      rw [ih hrest hrest' hmore]

/-- A line has no two layouts. -/
theorem Layout.text_injective {l l' : Layout} (h : l.text = l'.text) : l = l' := by
  obtain ⟨hindent, hparts⟩ := append_inj_of_head l.isGap_indent (isBlank_head?_spread l.spaced)
    l'.isGap_indent (isBlank_head?_spread l'.spaced) (String.ofList_injective h)
  exact Layout.ext hindent (spread_injective l.spaced l'.spaced hparts)

end Unique

section Exists

/-- A layout of the line with one more character before it: a blank lengthens the indent,
any other character the first word, or it is a word of its own before the indent. -/
theorem exists_layout_cons (c : Char) (l : Layout) :
    ∃ l' : Layout, l'.text = String.ofList (c :: (l.indent ++ spread l.parts)) := by
  obtain ⟨indent, parts, hindent, hspaced⟩ := l
  by_cases hc : isBlank c = true
  · exact ⟨⟨c :: indent, parts, List.forall_mem_cons.2 ⟨hc, hindent⟩, hspaced⟩, rfl⟩
  · have hletter : isBlank c = false := by simpa using hc
    have hgap : IsGap [] := by simp [IsGap]
    by_cases hjoin : indent = [] → parts = []
    · have hword : IsWord [c] := ⟨by simp, by simpa using hletter⟩
      exact ⟨⟨[], ([c], indent) :: parts, hgap, hword, hindent, hjoin, hspaced⟩, rfl⟩
    · obtain ⟨rfl, hne⟩ := Classical.not_imp.1 hjoin
      obtain ⟨⟨word, gap⟩, rest, rfl⟩ := List.exists_cons_of_ne_nil hne
      obtain ⟨⟨-, hword⟩, hrest⟩ := hspaced
      have hlonger : IsWord (c :: word) := ⟨by simp, List.forall_mem_cons.2 ⟨hletter, hword⟩⟩
      exact ⟨⟨[], (c :: word, gap) :: rest, hgap, hlonger, hrest⟩, rfl⟩

/-- Every line is laid out in exactly one way. -/
theorem existsUnique_layout (line : String) : ∃! l : Layout, l.text = line := by
  have hexists (cs : List Char) : ∃ l : Layout, l.text = String.ofList cs := by
    induction cs with
    | nil => exact ⟨⟨[], [], by simp [IsGap], trivial⟩, rfl⟩
    | cons c cs ih =>
      obtain ⟨l, hl⟩ := ih
      obtain ⟨l', hl'⟩ := exists_layout_cons c l
      exact ⟨l', by rw [hl', String.ofList_injective hl]⟩
  obtain ⟨l, hl⟩ := hexists line.toList
  rw [String.ofList_toList] at hl
  exact ⟨l, hl, fun l' hl' => Layout.text_injective (hl'.trans hl.symm)⟩

end Exists

/-- The runs that start in the characters are those of the characters; inside a run
already, the first of the pieces between blanks does not start one. -/
theorem runStarts_eq (cs : List Char) : runStarts false cs = (runs cs).length ∧
    runStarts true cs = ((cs.splitOnP isBlank).tail.filter fun run => !run.isEmpty).length := by
  induction cs with
  | nil => exact ⟨rfl, rfl⟩
  | cons c cs ih =>
    rw [runs] at ih ⊢
    rw [List.splitOnP_cons_eq_if_modifyHead]
    by_cases hc : isBlank c = true
    · rw [runStarts_cons_blank _ _ hc, runStarts_cons_blank _ _ hc, if_pos hc]
      exact ⟨ih.1, ih.1⟩
    · obtain ⟨first, more, hsplit⟩ := List.exists_cons_of_ne_nil (List.splitOnP_ne_nil isBlank cs)
      rw [hsplit] at ih ⊢
      simp only [runStarts, if_neg hc, if_true, ih.2]
      exact ⟨rfl, rfl⟩

/-- As many words start in a line as it has words. -/
theorem wordCount_eq (line : String) : wordCount line = (words line).length := by
  rw [wordCount, (runStarts_eq line.toList).1, words, List.length_map, runs]

end TreeShell.Text

namespace TreeShell.CommandLine

open TreeShell.Text (Layout)

variable {line name : String} {args : List String}

theorem parse_eq_ok_iff : parse line = .ok ⟨name, args⟩ ↔ Text.words line = name :: args := by
  rw [parse]
  cases Text.words line with
  | nil => simp
  | cons first rest => simp

theorem parse_eq_error_iff : parse line = .error .emptyLine ↔ Text.words line = [] := by
  rw [parse]
  cases Text.words line with
  | nil => simp
  | cons first rest => simp

/-- A line of blanks only is no command. Any other line is read as the name and the
arguments that it is laid out in, whatever the gaps around them; and no line is laid out
in two ways. -/
theorem parse_iff_layout (line : String) :
    (parse line = .error .emptyLine ↔ ∀ c ∈ line.toList, Text.isBlank c = true) ∧
    (∀ name args, parse line = .ok ⟨name, args⟩ ↔
      ∃ l : Layout, l.text = line ∧ l.words = name :: args) ∧
    ∃! l : Layout, l.text = line := by
  obtain ⟨l, hl, hunique⟩ := Text.existsUnique_layout line
  refine ⟨?_, ?_, l, hl, hunique⟩
  · rw [parse_eq_error_iff]
    constructor
    · intro hnil
      rw [← hl, Text.words_text] at hnil
      have hparts : l.parts = [] := List.map_eq_nil_iff.1 hnil
      rw [← hl, Layout.text, hparts, Text.spread, List.flatMap_nil, List.append_nil,
        String.toList_ofList]
      exact l.isGap_indent
    · intro hblank
      let blank : Layout := ⟨line.toList, [], hblank, trivial⟩
      have htext : blank.text = line := by
        rw [Layout.text, Text.spread, List.flatMap_nil, List.append_nil, String.ofList_toList]
      rw [← htext, Text.words_text]
      rfl
  · intro name args
    rw [parse_eq_ok_iff]
    constructor
    · intro hwords
      exact ⟨l, hl, by rw [← Text.words_text, hl, hwords]⟩
    · rintro ⟨l', rfl, hwords⟩
      rw [Text.words_text, hwords]

end TreeShell.CommandLine
