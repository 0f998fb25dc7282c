import TreeShell.Interpreter.Builtins
import TreeShell.Interpreter.Loop
import TreeShell.Program.Start

/-!
# A whole run of the program

A run takes the arguments, the line editor, the working directory, the standard
input as bytes and the host, and leaves an exit code, what it wrote, and the
host. Without `--plain` the line editor reads the input; then no prompts are
shown, since the input is no terminal.
-/

namespace TreeShell

/-- A line editor, by what its calls return over the bytes of an input that is no
terminal, before they return its end. -/
abbrev Editor := List UInt8 → List EditorRead

/-- A line of the input, returned as it is. -/
def EditorRead.ofLine (raw : List UInt8) : EditorRead :=
  match Text.decode? raw with
  | some text => .line text
  | none => .malformed IoError.notUtf8.text

/-- The line editor that takes each line as it is. -/
def Editor.keyless : Editor := fun input => (Text.lines 10 13 input).map EditorRead.ofLine

/-- What a run of the program leaves. -/
structure Outcome where
  code : Nat
  output : List UInt8 := []
  errors : String := ""
  host : Host

namespace Options

/-- The source that the standard input is for the options. -/
def source (o : Options) (editor : Editor) (input : List UInt8) : Source :=
  if o.plain then Source.ofBytes input none true else Source.ofEditor (editor input)

/-- Runs a session from the directory on. -/
def runSession (o : Options) (dir : Path) (editor : Editor) (input : List UInt8) (host : Host) :
    Outcome :=
  let shell : Shell :=
    { host := host.note .info ("starting in " ++ dir.text), session := { cwd := dir } }
  match Console.repl .builtins ⟨shell, o.source editor input⟩ with
  | .ok () c => { code := 0, output := c.shell.out.written, host := c.shell.host }
  | .error e c =>
    { code := 1, output := c.shell.out.written, errors := "Error: " ++ e.text ++ "\n",
      host := c.shell.host }

/-- Runs the program with the options. -/
def run (o : Options) (editor : Editor) (here : Address) (input : List UInt8) (host : Host) :
    Outcome :=
  match o.startDir host.tree here with
  | .error e => { code := 1, errors := e.report, host := host }
  | .ok dir => o.runSession dir editor input host

end Options

/-- Runs the program. -/
def run (args : List String) (editor : Editor) (here : Address) (input : List UInt8)
    (host : Host) : Outcome :=
  match Options.ofArgs args with
  | .error .help =>
    { code := 0, output := Text.encode (EarlyExit.help.message ++ "\n"), host := host }
  | .error e =>
    { code := 1,
      errors := e.message ++ "\nRun term_shell --help for more information.\n", host := host }
  | .ok o => o.run editor here input host

end TreeShell
