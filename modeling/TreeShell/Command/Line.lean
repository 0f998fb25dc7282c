import TreeShell.Text.Words

/-!
# Command lines

A command line is a name and its arguments: the words of the line. Nothing is
quoted or escaped. A line without words is no command.
-/

namespace TreeShell

/-- A command name with its arguments. -/
structure CommandLine where
  name : String
  args : List String
deriving DecidableEq

/-- Why a line is no command. -/
inductive ParseError where
  | emptyLine
deriving DecidableEq

/-- What is printed for a line that is no command. -/
def ParseError.message : ParseError → String
  | .emptyLine => "Invalid command. Please try again."

namespace CommandLine

/-- The command line that the words make. -/
def ofWords : List String → Except ParseError CommandLine
  | [] => .error .emptyLine
  | name :: args => .ok ⟨name, args⟩

/-- Reads a line. -/
def parse (line : String) : Except ParseError CommandLine :=
  ofWords (Text.words line)

@[simp] theorem ofWords_nil : ofWords [] = .error .emptyLine := rfl

@[simp] theorem ofWords_cons (name : String) (args : List String) :
    ofWords (name :: args) = .ok ⟨name, args⟩ := rfl

end CommandLine

end TreeShell
