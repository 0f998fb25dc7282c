import TreeShell.Text.Words

/-!
# Counts

The numbers of lines, of words and of characters of a text given as lines
without their ends. Counts of two parts add up.
-/

namespace TreeShell.Text

/-- Numbers of lines, words and characters. -/
structure Counts where
  lines : Nat := 0
  words : Nat := 0
  chars : Nat := 0
deriving DecidableEq

namespace Counts

instance : Add Counts :=
  ⟨fun a b => ⟨a.lines + b.lines, a.words + b.words, a.chars + b.chars⟩⟩

/-- The counts of one line without its end. -/
def ofLine (line : String) : Counts where
  lines := 1
  words := wordCount line
  chars := line.length

/-- The counts of lines without their ends. -/
def ofLines : List String → Counts
  | [] => {}
  | line :: rest => ofLine line + ofLines rest

@[simp] theorem lines_add (a b : Counts) : (a + b).lines = a.lines + b.lines := rfl

@[simp] theorem words_add (a b : Counts) : (a + b).words = a.words + b.words := rfl

@[simp] theorem chars_add (a b : Counts) : (a + b).chars = a.chars + b.chars := rfl

@[simp] theorem ofLines_nil : ofLines [] = {} := rfl

@[simp] theorem ofLines_cons (line : String) (rest : List String) :
    ofLines (line :: rest) = ofLine line + ofLines rest := rfl

@[simp] theorem lines_ofLines (lines : List String) : (ofLines lines).lines = lines.length := by
  induction lines with
  | nil => rfl
  | cons line rest ih => simp [ofLine, ih, Nat.add_comm]

end Counts

end TreeShell.Text
