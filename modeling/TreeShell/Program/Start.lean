import TreeShell.Path.Absolute
import TreeShell.Program.Options
import TreeShell.Tree.Resolve

/-!
# Where a session starts

A session starts in the directory that the options name, or in the working
directory of the process. The working directory is a place in the tree, so it
is given by its address; the start directory is a path, made absolute without
looking at the tree, and has to lead to a directory.
-/

namespace TreeShell

/-- Why a session cannot start. -/
inductive StartError where
  | emptyPath
  | notADirectory (dir : Path)
deriving DecidableEq

namespace StartError

/-- What went wrong. -/
def text : StartError → String
  | .emptyPath => "can't resolve "
  | .notADirectory dir => "start directory " ++ dir.text ++ " is not a directory"

/-- The reason for it, where there is one to be told. -/
def cause? : StartError → Option String
  | .emptyPath => some "cannot make an empty path absolute"
  | .notADirectory _ => none

/-- The error with its cause, in one line. -/
def chain (e : StartError) : String :=
  match e.cause? with
  | some cause => e.text ++ ": " ++ cause
  | none => e.text

/-- The error with its cause, as the last words of the program. -/
def report (e : StartError) : String :=
  match e.cause? with
  | some cause => "Error: " ++ e.text ++ "\n\nCaused by:\n    " ++ cause ++ "\n"
  | none => "Error: " ++ e.text ++ "\n"

end StartError

/-- The directory that a session starts in, for a process working at `here`. -/
def Options.startDir (o : Options) (t : Tree) (here : Address) : Except StartError Path := do
  let dir ← match o.startDir? with
    | none => pure here.path
    | some "" => throw .emptyPath
    | some text => pure (here.path.absolute (Path.ofText text))
  if t.isDir dir then pure dir else throw (.notADirectory dir)

end TreeShell
