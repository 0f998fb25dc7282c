import TreeShell.Text.Blank

/-!
# Words of a line

A word is a maximal run of characters that are not blank. `words` lists the
words of a line in order; `wordCount` counts the places where a run starts,
without building the words, and the two agree on every line.
-/

namespace TreeShell.Text

/-- The words of a line, in order. -/
def words (line : String) : List String :=
  ((line.toList.splitOnP isBlank).filter fun run => !run.isEmpty).map String.ofList

/-- The number of runs that start in the characters, where `inside` says
whether the character before them belongs to a run. -/
def runStarts : Bool → List Char → Nat
  | _, [] => 0
  | inside, c :: cs =>
    if isBlank c then runStarts false cs
    else if inside then runStarts true cs
    else runStarts true cs + 1

/-- The number of maximal runs of characters that are not blank. -/
def wordCount (line : String) : Nat :=
  runStarts false line.toList

@[simp] theorem runStarts_nil (inside : Bool) : runStarts inside [] = 0 := rfl

theorem runStarts_cons_blank (inside : Bool) {c : Char} (cs : List Char) (h : isBlank c = true) :
    runStarts inside (c :: cs) = runStarts false cs := by
  simp [runStarts, h]

/-- The characters with every double quote taken out. -/
def withoutQuotes (text : String) : String :=
  String.ofList (text.toList.filter fun c => c != '"')

/-- Rejoins a quoted message of several words: there are at least two, the
first starts and the last ends with a double quote. The words are joined by
single spaces and lose every double quote. -/
def joinQuoted (args : List String) : Option String :=
  match args with
  | first :: second :: rest =>
    if first.toList.head? = some '"'
        ∧ ((second :: rest).getLast (List.cons_ne_nil _ _)).toList.getLast? = some '"' then
      some (withoutQuotes (" ".intercalate args))
    else none
  | _ => none

@[simp] theorem joinQuoted_nil : joinQuoted [] = none := rfl

@[simp] theorem joinQuoted_singleton (word : String) : joinQuoted [word] = none := rfl

end TreeShell.Text
