import TreeShell.Disk.Files
import TreeShell.Text.Words

/-!
# Built-in commands

There are fifteen built-in commands. `Builtin.read?` turns the arguments of one
into a `Command`, which holds what is to be done, or refuses them for their
shape; nothing is done before that. A refused command prints its usage.
-/

namespace TreeShell

/-- The built-in commands. -/
inductive Builtin where
  | echo
  | pwd
  | cd
  | ls
  | mkdir
  | rmdir
  | touch
  | cp
  | rm
  | cat
  | wc
  | overwrite
  | append
  | history
  | exit
deriving DecidableEq

namespace Builtin

/-- Every built-in command. -/
def all : List Builtin :=
  [.echo, .pwd, .cd, .ls, .mkdir, .rmdir, .touch, .cp, .rm, .cat, .wc, .overwrite, .append,
   .history, .exit]

theorem mem_all (b : Builtin) : b ∈ all := by
  cases b <;> decide

/-- The name a command is called by. -/
def name : Builtin → String
  | .echo => "echo"
  | .pwd => "pwd"
  | .cd => "cd"
  | .ls => "ls"
  | .mkdir => "mkdir"
  | .rmdir => "rmdir"
  | .touch => "touch"
  | .cp => "cp"
  | .rm => "rm"
  | .cat => "cat"
  | .wc => "wc"
  | .overwrite => ">"
  | .append => ">>"
  | .history => "history"
  | .exit => "exit"

/-- What is printed for arguments of the wrong shape. -/
def usage : Builtin → String
  | .echo => "Usage: echo <message>"
  | .pwd => "Usage: pwd"
  | .cd => "Usage: cd <directory>"
  | .ls => "Usage: ls or ls -r"
  | .mkdir => "Usage: mkdir <directory1> <directory2> ..."
  | .rmdir => "Usage: rmdir * or rmdir <directory>"
  | .touch => "Usage: touch <file>"
  | .cp => "Usage: cp <source> <destination>"
  | .rm => "Usage: rm <file>"
  | .cat => "Usage: cat <file> or cat <file1> <file2>"
  | .wc => "Usage: wc <file>"
  | .overwrite => "Usage: > <file>"
  | .append => "Usage: >> <file>"
  | .history => "Usage: history"
  | .exit => "Usage: exit"

end Builtin

/-- Where `cd` goes. -/
inductive Destination where
  | parent
  | home
  | dir (arg : String)
deriving DecidableEq

/-- The destination that the argument of `cd` names. Double quotes in it do not
count, and what is then empty stands for the home directory. -/
def Destination.ofArg (arg : String) : Destination :=
  if arg = ".." then .parent
  else if Text.withoutQuotes arg = "" then .home
  else .dir (Text.withoutQuotes arg)

/-- What `rmdir` removes: everything at and below the current directory, or an
empty directory. -/
inductive Removal where
  | currentTree
  | emptyDir (arg : String)
deriving DecidableEq

/-- The removal that the argument of `rmdir` names. -/
def Removal.ofArg (arg : String) : Removal :=
  if arg = "*" then .currentTree else .emptyDir arg

/-- What is to be done for a command line. -/
inductive Command where
  | echo (message : String)
  | pwd
  | cd (destination : Destination)
  | ls (reverse : Bool)
  | mkdir (dirs : List String)
  | rmdir (removal : Removal)
  | touch (file : String)
  | cp (source target : String)
  | rm (file : String)
  | cat (files : List String)
  | wc (file : String)
  | redirect (mode : WriteMode) (file : String)
  | history
  | exit
deriving DecidableEq

/-- The built-in command that a command was read from. -/
def Command.builtin : Command → Builtin
  | .echo _ => .echo
  | .pwd => .pwd
  | .cd _ => .cd
  | .ls _ => .ls
  | .mkdir _ => .mkdir
  | .rmdir _ => .rmdir
  | .touch _ => .touch
  | .cp _ _ => .cp
  | .rm _ => .rm
  | .cat _ => .cat
  | .wc _ => .wc
  | .redirect .truncate _ => .overwrite
  | .redirect .append _ => .append
  | .history => .history
  | .exit => .exit

namespace Builtin

/-- A command without arguments. -/
def readNone (command : Command) : List String → Option Command
  | [] => some command
  | _ => none

/-- A command with one argument. -/
def readOne (command : String → Command) : List String → Option Command
  | [arg] => some (command arg)
  | _ => none

/-- A message of one word, or a quoted one of several. -/
def readEcho : List String → Option Command
  | [word] => some (.echo word)
  | args => (Text.joinQuoted args).map Command.echo

/-- No argument stands for the home directory. -/
def readCd : List String → Option Command
  | [] => some (.cd .home)
  | [arg] => some (.cd (Destination.ofArg arg))
  | _ => none

/-- The one flag is `-r`. -/
def readLs : List String → Option Command
  | [] => some (.ls false)
  | [flag] => if flag = "-r" then some (.ls true) else none
  | _ => none

/-- At least one directory. -/
def readMkdir : List String → Option Command
  | [] => none
  | dirs => some (.mkdir dirs)

/-- A source and a target. -/
def readCp : List String → Option Command
  | [source, target] => some (.cp source target)
  | _ => none

/-- One file or two. -/
def readCat : List String → Option Command
  | [file] => some (.cat [file])
  | [file₁, file₂] => some (.cat [file₁, file₂])
  | _ => none

/-- The command that the arguments make, if they have the right shape. -/
def read? (b : Builtin) (args : List String) : Option Command :=
  match b with
  | .echo => readEcho args
  | .pwd => readNone .pwd args
  | .cd => readCd args
  | .ls => readLs args
  | .mkdir => readMkdir args
  | .rmdir => readOne (fun arg => .rmdir (Removal.ofArg arg)) args
  | .touch => readOne .touch args
  | .cp => readCp args
  | .rm => readOne .rm args
  | .cat => readCat args
  | .wc => readOne .wc args
  | .overwrite => readOne (.redirect .truncate) args
  | .append => readOne (.redirect .append) args
  | .history => readNone .history args
  | .exit => some .exit

end Builtin

end TreeShell
