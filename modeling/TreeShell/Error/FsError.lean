import TreeShell.Error.IoError
import TreeShell.Path.Basic

/-!
# Failures of file operations

A failed file operation names the path it was asked for. Four kinds of system
error become cases of their own (`FsError.ofIo`); whatever else the system says
is kept as the source of an input-output failure.
-/

namespace TreeShell

/-- A failure of a file operation on a path. -/
inductive FsError where
  | notFound (path : Path)
  | notAFile (path : Path)
  | notADirectory (path : Path)
  | notEmpty (path : Path)
  | alreadyExists (path : Path)
  | noParent (path : Path)
  | io (path : Path) (source : IoError)
deriving DecidableEq

namespace FsError

/-- The failure of an operation on `path` that the system refused. -/
def ofIo (path : Path) (e : IoError) : FsError :=
  match e.kind with
  | .notFound => .notFound path
  | .alreadyExists => .alreadyExists path
  | .directoryNotEmpty => .notEmpty path
  | .notADirectory => .notADirectory path
  | .unclassified => .io path e

/-- The failure in words, with its source. -/
def message : FsError → String
  | .notFound path => "No such file or directory: " ++ path.text
  | .notAFile path => "Not a regular file: " ++ path.text
  | .notADirectory path => "Not a directory: " ++ path.text
  | .notEmpty path => "Directory is not empty: " ++ path.text
  | .alreadyExists path => "File already exists: " ++ path.text
  | .noParent path => "No parent directory: " ++ path.text
  | .io path source => "I/O failure on " ++ path.text ++ ": " ++ source.text

@[simp] theorem ofIo_notFound (path : Path) : ofIo path .notFound = .notFound path := rfl

@[simp] theorem ofIo_alreadyExists (path : Path) :
    ofIo path .alreadyExists = .alreadyExists path := rfl

@[simp] theorem ofIo_notADirectory (path : Path) :
    ofIo path .notADirectory = .notADirectory path := rfl

@[simp] theorem ofIo_notEmpty (path : Path) : ofIo path .notEmpty = .notEmpty path := rfl

end FsError

end TreeShell
