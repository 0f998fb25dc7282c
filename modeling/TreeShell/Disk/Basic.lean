import TreeShell.Error.FsError
import TreeShell.Tree.Calls

/-!
# The host

A session runs on a host: its file tree, the home directory it reports, if it
knows one, and its log. An operation of `Disk` ends with a value or with a
failure that names a path, and leaves a host in both cases.
-/

namespace TreeShell

/-- How much a log message matters. -/
inductive LogLevel where
  | debug
  | info
  | warn
deriving DecidableEq

/-- A log message. -/
structure LogRecord where
  level : LogLevel
  message : String
deriving DecidableEq

/-- What a session runs on. The log grows at the end. -/
structure Host where
  tree : Tree
  home : Option Path := none
  log : List LogRecord := []
deriving DecidableEq

/-- The host with one more log message. -/
def Host.note (h : Host) (level : LogLevel) (message : String) : Host :=
  { h with log := h.log ++ [⟨level, message⟩] }

/-- File operations on a host. -/
abbrev Disk := EStateM FsError Host

namespace Disk

/-- The tree as it is. -/
def tree : Disk Tree := do
  return (← get).tree

/-- Logs a message. -/
def note (level : LogLevel) (message : String) : Disk Unit :=
  modify fun h => h.note level message

/-- The answer of a call on `path`, its refusal made a failure on `path`. -/
def liftCall {α : Type} (path : Path) (answer : Except IoError α) : Disk α :=
  match answer with
  | .ok a => pure a
  | .error e => throw (.ofIo path e)

/-- Makes the tree what a call on `path` leaves. -/
def commit (path : Path) (call : Tree → Except IoError Tree) : Disk Unit := do
  let t ← liftCall path (call (← tree))
  modify fun h => { h with tree := t }

/-- The address of the directory that the path leads to. -/
def requireDir (path : Path) : Disk Address := do
  match ← liftCall path ((← tree).find path) with
  | (a, .dir) => pure a
  | _ => throw (.notADirectory path)

/-- The bytes of the regular file that the path leads to. -/
def requireFile (path : Path) : Disk (List UInt8) := do
  match ← liftCall path ((← tree).find path) with
  | (_, .file bytes) => pure bytes
  | _ => throw (.notAFile path)

/-- Whether the path leads to a directory. -/
def isDir (path : Path) : Disk Bool := do
  return (← tree).isDir path

/-- Whether the path leads to a regular file. -/
def isFile (path : Path) : Disk Bool := do
  return (← tree).isFile path

/-- The home directory, as it is reported. -/
def homeDir : Disk (Option Path) := do
  return (← get).home

end Disk

end TreeShell
