import TreeShell.Error.FsError

/-!
# Faults

A fault is what stops a command: a failed task with its reason, or a stream
that broke. A failed task is reported on the output and the session goes on;
what is left of a fault after that ends it.
-/

namespace TreeShell

/-- What a command was doing. -/
inductive Task where
  | changingDirectory
  | listing
  | creatingDirectory
  | removingDirectory
  | creatingFile
  | copying
  | removingFile
  | readingFile
  | writingFile
deriving DecidableEq

/-- The words that open the report of a failed task. -/
def Task.text : Task → String
  | .changingDirectory => "Error changing directory"
  | .listing => "Error listing directory"
  | .creatingDirectory => "Error creating directory"
  | .removingDirectory => "Error removing directory"
  | .creatingFile => "Error creating file"
  | .copying => "Error copying file/directory"
  | .removingFile => "Error removing file"
  | .readingFile => "Error reading file"
  | .writingFile => "Error writing to file"

/-- Why a task failed. -/
inductive Reason where
  | file (e : FsError)
  | rootRefused
  | homeUnknown
deriving DecidableEq

/-- The reason in words. -/
def Reason.text : Reason → String
  | .file e => e.message
  | .rootRefused => "refusing to remove the filesystem root"
  | .homeUnknown => "home directory is unknown"

/-- What stops a command. -/
inductive Fault where
  | failed (task : Task) (reason : Reason)
  | outputClosed
  | inputFailed (text : String)
  | custom (text : String)
deriving DecidableEq

/-- The fault in words. -/
def Fault.text : Fault → String
  | .failed task reason => task.text ++ ": " ++ reason.text
  | .outputClosed => "output closed"
  | .inputFailed text => text
  | .custom text => text

end TreeShell
