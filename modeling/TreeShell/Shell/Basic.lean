import TreeShell.Disk.Copy
import TreeShell.Shell.Fault
import TreeShell.Shell.Session
import TreeShell.Shell.Sink

/-!
# What commands act on

A command sees the host, the session and the output stream, together a
`Shell`, and acts on them in `ShellM`, which ends with a value or a fault and
leaves a shell in both cases. The input is not part of it: a command that wants
a line has to ask for one.
-/

namespace TreeShell

/-- What commands act on. -/
structure Shell where
  host : Host
  session : Session
  out : Sink := {}
deriving DecidableEq

/-- Actions on a shell. -/
abbrev ShellM := EStateM Fault Shell

namespace Shell

/-- Writes a text to the output stream. -/
def print (text : String) : ShellM Unit := do
  let s ← get
  let bytes := Text.encode text
  set { s with out := s.out.write bytes }
  if s.out.Fits bytes then pure () else throw .outputClosed

/-- Writes a text and a line feed to the output stream. -/
def printLine (text : String) : ShellM Unit :=
  print (text ++ "\n")

/-- Writes the texts, each followed by a line feed. -/
def printLines : List String → ShellM Unit
  | [] => pure ()
  | text :: rest => do
    printLine text
    printLines rest

/-- Logs a message. -/
def note (level : LogLevel) (message : String) : ShellM Unit :=
  modify fun s => { s with host := s.host.note level message }

/-- Does a file operation and gives its outcome. -/
def attempt {α : Type} (operation : Disk α) : ShellM (Except FsError α) := do
  let s ← get
  match operation s.host with
  | .ok a host =>
    set { s with host := host }
    pure (.ok a)
  | .error e host =>
    set { s with host := host }
    pure (.error e)

/-- Does a file operation whose failure is the failure of a task. -/
def doing {α : Type} (task : Task) (operation : Disk α) : ShellM α := do
  match ← attempt operation with
  | .ok a => pure a
  | .error e => throw (.failed task (.file e))

/-- The path that an argument stands for. -/
def resolve (arg : String) : ShellM Path := do
  return (← get).session.resolve arg

/-- The current directory. -/
def cwd : ShellM Path := do
  return (← get).session.cwd

/-- Makes another directory the current one. That it exists is left to the
caller. -/
def setCwd (dir : Path) : ShellM Unit := do
  note .info ("current directory: " ++ (← cwd).text ++ " -> " ++ dir.text)
  modify fun s => { s with session := { s.session with cwd := dir } }

/-- The nearest directory among a path and the paths above it. -/
def nearestDir? (t : Tree) (p : Path) : Option Path :=
  p.ancestors.find? fun q => t.isDir q

/-- Moves up to the nearest existing directory, if the current one is gone. -/
def recoverCwd : ShellM Unit := do
  let s ← get
  match nearestDir? s.host.tree s.session.cwd with
  | none => pure ()
  | some dir => if dir.components = s.session.cwd.components then pure () else setCwd dir

/-- Adds a line to the history. -/
def record (line : String) : ShellM Unit :=
  modify fun s => { s with session := s.session.record line }

/-- Asks the loop to end. -/
def requestExit : ShellM Unit :=
  modify fun s => { s with session := { s.session with exiting := true } }

end Shell

end TreeShell
