/-!
# Lines

A line ends at a line feed, and one carriage return right before the line feed
belongs to the end. The last line may lack its end; then it keeps a carriage
return, and an empty rest is no line at all. The rule is the same for bytes
and for characters, so the two ending symbols are parameters. What is said about
texts is said by induction on their lines (`line_induction`).
-/

namespace TreeShell.Text

variable {α : Type} [DecidableEq α]

/-- Takes one `cr` off the end of the list, if it is there. -/
def dropReturn (cr : α) (line : List α) : List α :=
  if line.getLast? = some cr then line.dropLast else line

/-- The lines that end in `nl`, without their ends. -/
def endedLines (nl cr : α) (text : List α) : List (List α) :=
  (text.splitOn nl).dropLast.map (dropReturn cr)

/-- What follows the last `nl`. -/
def openRest (nl : α) (text : List α) : List α :=
  (text.splitOn nl).getLast?.getD []

/-- All lines, without their ends. -/
def lines (nl cr : α) (text : List α) : List (List α) :=
  endedLines nl cr text ++ if (openRest nl text).isEmpty then [] else [openRest nl text]

/-- The lines of a text, without their ends. -/
def linesOf (text : String) : List String :=
  (lines '\n' '\r' text.toList).map String.ofList

@[simp] theorem dropReturn_nil (cr : α) : dropReturn cr [] = [] := by simp [dropReturn]

@[simp] theorem dropReturn_concat (cr : α) (line : List α) : dropReturn cr (line ++ [cr]) = line := by
  simp [dropReturn]

@[simp] theorem lines_nil (nl cr : α) : lines nl cr [] = [] := by
  simp [lines, endedLines, openRest]

/-- The first line ends at the first `nl`, and the other lines are those of
what follows it. -/
theorem lines_append_cons {nl : α} (cr : α) {line : List α} (rest : List α) (h : nl ∉ line) :
    lines nl cr (line ++ nl :: rest) = dropReturn cr line :: lines nl cr rest := by
  have hs : (line ++ nl :: rest).splitOn nl = line :: rest.splitOn nl :=
    List.splitOn_append_cons_self_of_not_mem h rest
  have hne : rest.splitOn nl ≠ [] := List.splitOn_ne_nil nl rest
  have hl : (line :: rest.splitOn nl).getLast? = (rest.splitOn nl).getLast? := by
    rw [List.getLast?_cons, List.getLast?_eq_some_getLast hne, Option.getD_some]
  simp only [lines, endedLines, openRest, hs, hl, List.dropLast_cons_of_ne_nil hne, List.map_cons,
    List.cons_append]
  rfl

/-- Without an `nl` the whole text is one line. -/
theorem lines_of_not_mem {nl : α} (cr : α) {text : List α} (h : nl ∉ text) :
    lines nl cr text = if text.isEmpty then [] else [text] := by
  simp [lines, endedLines, openRest, List.splitOn_eq_singleton h]

/-- A text has no `nl` in it, or it is a line, its `nl`, and a text. -/
@[elab_as_elim]
theorem line_induction {motive : List α → Prop} (nl : α)
    (last : ∀ line, nl ∉ line → motive line)
    (cons : ∀ line rest, nl ∉ line → motive rest → motive (line ++ nl :: rest))
    (text : List α) : motive text := by
  by_cases h : nl ∈ text
  · obtain ⟨line, rest, htext, hline⟩ := List.eq_append_cons_of_mem h
    rw [htext]
    exact cons line rest hline (line_induction nl last cons rest)
  · exact last text h
termination_by text.length
decreasing_by
  rw [htext, List.length_append, List.length_cons]
  omega

end TreeShell.Text
