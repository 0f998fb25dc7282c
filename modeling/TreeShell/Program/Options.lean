/-!
# Command line options

The program takes two switches and one option with a value, and no other
arguments. Arguments are read from left to right and the first mistake ends the
reading. After `--` every argument counts as a plain one. Asking for help shows
it only if no mistake follows.
-/

namespace TreeShell

/-- What the command line asks for. -/
structure Options where
  startDir? : Option String := none
  plain : Bool := false
  verbose : Bool := false
deriving DecidableEq

/-- Why the program ends before it starts. -/
inductive EarlyExit where
  | help
  | unrecognized (arg : String)
  | missingValue (option : String)
  | duplicate (option value : String)
  | trailing
deriving DecidableEq

namespace Options

/-- The help text. -/
def helpText : String :=
  "Usage: term_shell [--start-dir <start-dir>] [--plain] [-v]\n\n"
    ++ "Interactive shell with a small set of filesystem and text commands.\n\n"
    ++ "Options:\n"
    ++ "  --start-dir       directory the session starts in. Defaults to the process\n"
    ++ "                    working directory.\n"
    ++ "  --plain           read commands from standard input without the line editor.\n"
    ++ "  -v, --verbose     log dispatch details to standard error.\n"
    ++ "  --help, help      display usage information\n"

/-- What has been seen on the way: whether help was asked for, and whether only
plain arguments can follow. -/
structure Progress where
  options : Options := {}
  help : Bool := false
  plainOnly : Bool := false

/-- Reads the arguments that are left. -/
def readArgs (seen : Progress) : List String → Except EarlyExit Options
  | [] => if seen.help then .error .help else .ok seen.options
  | arg :: rest =>
    if seen.plainOnly then .error (.unrecognized arg)
    else if arg = "--help" ∨ arg = "help" then readArgs { seen with help := true } rest
    else if arg.toList.head? ≠ some '-' then .error (.unrecognized arg)
    else if arg = "--" then readArgs { seen with plainOnly := true } rest
    else if seen.help then .error .trailing
    else if arg = "--plain" then
      readArgs { seen with options := { seen.options with plain := true } } rest
    else if arg = "-v" ∨ arg = "--verbose" then
      readArgs { seen with options := { seen.options with verbose := true } } rest
    else if arg = "--start-dir" then
      match rest with
      | [] => .error (.missingValue arg)
      | value :: rest =>
        if seen.options.startDir?.isSome then .error (.duplicate arg value)
        else readArgs { seen with options := { seen.options with startDir? := some value } } rest
    else .error (.unrecognized arg)

/-- Reads a command line. -/
def ofArgs (args : List String) : Except EarlyExit Options :=
  readArgs {} args

end Options

/-- What is shown when the program ends early. -/
def EarlyExit.message : EarlyExit → String
  | .help => Options.helpText
  | .unrecognized arg => "Unrecognized argument: " ++ arg ++ "\n"
  | .missingValue option => "No value provided for option '" ++ option ++ "'.\n"
  | .duplicate option value =>
    "Error parsing option '" ++ option ++ "' with value '" ++ value
      ++ "': duplicate values provided\n"
  | .trailing => "Trailing arguments are not allowed after \x60help\x60."

end TreeShell
