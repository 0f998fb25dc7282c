import TreeShell.Command.Builtin
import TreeShell.Shell.Basic
import TreeShell.Text.Counts

/-!
# What the built-in commands do

Each command acts on the shell and prints its answer. A failed task ends the
command with a fault; `Command.guarded` prints the fault, so that only a broken
stream is left of it. A redirection first needs a line of content and goes on
with what it got, `Command.finishRedirect`.
-/

namespace TreeShell.Command

open Shell

/-- Goes to another directory. -/
def changeDir : Destination → ShellM Unit
  | .parent => do
    let here ← cwd
    match here.parent? with
    | some dir => setCwd dir
    | none => throw (.failed .changingDirectory (.file (.noParent here)))
  | .home => do
    match (← get).host.home with
    | some dir => setCwd dir
    | none => throw (.failed .changingDirectory .homeUnknown)
  | .dir arg => do
    let dir ← resolve arg
    if (← get).host.tree.isDir dir then setCwd dir else printLine "Directory does not exist"

/-- Prints the names in the current directory. -/
def list (reverse : Bool) : ShellM Unit := do
  let names ← doing .listing (Disk.listDir (← cwd))
  printLines (if reverse then names.reverse else names)

/-- Makes directories one after the other. One that fails does not stop those
after it. -/
def makeDirs : List String → ShellM Unit
  | [] => pure ()
  | arg :: rest => do
    let dir ← resolve arg
    match ← attempt (Disk.createDirs dir) with
    | .ok () => printLine ("Directory created: " ++ dir.text)
    | .error e => printLine (Fault.failed .creatingDirectory (.file e)).text
    makeDirs rest

/-- Says that a directory is gone, and leaves it if it was the current one. -/
def reportRemoval (dir : Path) : ShellM Unit := do
  printLine ("Directory removed: " ++ dir.text)
  recoverCwd

/-- Removes a directory. -/
def removeDir : Removal → ShellM Unit
  | .currentTree => do
    let dir ← cwd
    if dir.parent?.isNone then throw (.failed .removingDirectory .rootRefused)
    else
      doing .removingDirectory (Disk.removeTree dir)
      reportRemoval dir
  | .emptyDir arg => do
    let dir ← resolve arg
    match ← attempt (Disk.removeEmptyDir dir) with
    | .ok () => reportRemoval dir
    | .error (.notEmpty _) => printLine ("Directory is not empty: " ++ dir.text)
    | .error (.notFound _) | .error (.notADirectory _) =>
      printLine ("Directory not found: " ++ dir.text)
    | .error e => throw (.failed .removingDirectory (.file e))

/-- Makes an empty file. -/
def touchFile (arg : String) : ShellM Unit := do
  let path ← resolve arg
  doing .creatingFile (Disk.createFile path)
  printLine ("File created: " ++ path.text)

/-- Copies a file or a directory. -/
def copy (source target : String) : ShellM Unit := do
  doing .copying (Disk.copy (← resolve source) (← resolve target))
  printLine ("Copied: " ++ source ++ " to " ++ target)

/-- What is printed for an argument that names no regular file. -/
def notFoundText (arg : String) : String :=
  "File not found: " ++ arg

/-- Deletes a regular file. -/
def removeFile (arg : String) : ShellM Unit := do
  let path ← resolve arg
  match ← attempt (Disk.deleteFile path) with
  | .ok () => printLine ("File removed: " ++ path.text)
  | .error (.notFound _) | .error (.notAFile _) => printLine (notFoundText arg)
  | .error e => throw (.failed .removingFile (.file e))

/-- The first argument that names no regular file. -/
def firstMissing? (s : Shell) (args : List String) : Option String :=
  args.find? fun arg => !s.host.tree.isFile (s.session.resolve arg)

/-- The lines of the files, one file after the other. -/
def readAll : List String → ShellM (List String)
  | [] => pure []
  | arg :: rest => do
    let lines ← doing .readingFile (Disk.readLines (← resolve arg))
    return lines ++ (← readAll rest)

/-- Prints files, once all of them are read. -/
def printFiles (args : List String) : ShellM Unit := do
  match firstMissing? (← get) args with
  | some arg => printLine (notFoundText arg)
  | none => printLines (← readAll args)

/-- Prints the counts of a file. -/
def countFile (arg : String) : ShellM Unit := do
  match ← attempt (Disk.readLines (← resolve arg)) with
  | .ok lines =>
    let n := Text.Counts.ofLines lines
    printLine (toString n.lines ++ " " ++ toString n.words ++ " " ++ toString n.chars ++ " " ++ arg)
  | .error (.notFound _) | .error (.notAFile _) => printLine (notFoundText arg)
  | .error e => throw (.failed .readingFile (.file e))

/-- The lines of a history, numbered from `i` on. -/
def numbered (i : Nat) : List String → List String
  | [] => []
  | line :: rest => (toString i ++ " " ++ line) :: numbered (i + 1) rest

/-- Prints every line entered so far. -/
def printHistory : ShellM Unit := do
  printLines (numbered 1 (← get).session.history)

/-- What is asked before a redirection. -/
def contentPrompt : String := "Enter content to write to the file: "

/-- Goes on with a redirection when its line of content was asked for. -/
def finishRedirect (mode : WriteMode) (arg : String) : Except Fault (Option String) → ShellM Unit
  | .error e => throw e
  | .ok none => do
    printLine ""
    printLine ("No content read, " ++ arg ++ " left unchanged")
  | .ok (some content) => do
    doing .writingFile (Disk.writeLines (← resolve arg) [content] mode)
    printLine ("Content written to " ++ arg)

/-- Does what the body says and prints the fault it ends with, if it does. -/
def guarded (name : String) (body : ShellM Unit) : ShellM Unit := fun s =>
  match body s with
  | .ok () s => .ok () s
  | .error e s =>
    (do
      note .debug (name ++ " failed: " ++ e.text)
      printLine e.text : ShellM Unit) s

/-- What the command does on the shell. A redirection does nothing before it
has asked for its content. -/
def run : Command → ShellM Unit
  | .echo message => printLine message
  | .pwd => do printLine (← cwd).text
  | .cd destination => changeDir destination
  | .ls reverse => list reverse
  | .mkdir dirs => makeDirs dirs
  | .rmdir removal => removeDir removal
  | .touch file => touchFile file
  | .cp source target => copy source target
  | .rm file => removeFile file
  | .cat files => printFiles files
  | .wc file => countFile file
  | .redirect _ _ => pure ()
  | .history => printHistory
  | .exit => requestExit

@[simp] theorem numbered_nil (i : Nat) : numbered i [] = [] := rfl

@[simp] theorem length_numbered (i : Nat) (lines : List String) :
    (numbered i lines).length = lines.length := by
  induction lines generalizing i with
  | nil => rfl
  | cons line rest ih => simp [numbered, ih]

end TreeShell.Command
