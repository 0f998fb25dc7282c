import TreeShell.Disk.Basic
import TreeShell.Text.Lines
import TreeShell.Text.Utf8

/-!
# Reading and writing files

Files hold bytes, and commands see lines. Reading takes a file that is UTF-8
throughout and takes the line ends off; writing puts a line feed after each
line. Every operation here changes one entry, or fails and changes nothing.
-/

namespace TreeShell

/-- What writing does with the bytes that are there. -/
inductive WriteMode where
  | truncate
  | append
deriving DecidableEq

/-- The bytes that writing `content` makes of the bytes that are there. -/
def WriteMode.apply (mode : WriteMode) (content bytes : List UInt8) : List UInt8 :=
  match mode with
  | .truncate => content
  | .append => bytes ++ content

/-- The bytes of the lines, each followed by a line feed. -/
def linesBytes (lines : List String) : List UInt8 :=
  lines.flatMap fun line => Text.encode (line ++ "\n")

namespace Disk

/-- Makes an empty file. Nothing may be there yet. -/
def createFile (path : Path) : Disk Unit :=
  commit path fun t => t.createNew path

/-- Deletes a regular file, or a link that leads to one. -/
def deleteFile (path : Path) : Disk Unit := do
  let _ ← requireFile path
  commit path fun t => t.unlink path

/-- The lines of a regular file, without their ends. -/
def readLines (path : Path) : Disk (List String) := do
  match Text.decode? (← requireFile path) with
  | some text => pure (Text.linesOf text)
  | none => throw (.ofIo path .notUtf8)

/-- Writes the lines to a file, which is made if it is missing. -/
def writeLines (path : Path) (lines : List String) (mode : WriteMode) : Disk Unit :=
  commit path fun t => t.modifyFile path (mode.apply (linesBytes lines))

end Disk

@[simp] theorem linesBytes_nil : linesBytes [] = [] := rfl

@[simp] theorem linesBytes_cons (line : String) (lines : List String) :
    linesBytes (line :: lines) = Text.encode (line ++ "\n") ++ linesBytes lines := rfl

@[simp] theorem linesBytes_append (l₁ l₂ : List String) :
    linesBytes (l₁ ++ l₂) = linesBytes l₁ ++ linesBytes l₂ := by
  simp [linesBytes]

end TreeShell
