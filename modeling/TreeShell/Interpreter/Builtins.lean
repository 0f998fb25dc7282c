import TreeShell.Command.Run
import TreeShell.Interpreter.Registry

/-!
# The built-in commands as actions

A redirection asks for its content and then writes it; every other built-in
command acts at once. Arguments of the wrong shape make an action that prints
the usage.
-/

namespace TreeShell

/-- The action of a command. Its fault is printed, so that only a broken stream
ends the session. -/
def Command.action (command : Command) : Action :=
  let body (m : ShellM Unit) : Action := .act (Command.guarded command.builtin.name m)
  match command with
  | .redirect mode file =>
    .ask Command.contentPrompt fun answer => body (Command.finishRedirect mode file answer)
  | _ => body command.run

namespace Builtin

/-- What arguments of the wrong shape lead to. -/
def reject (b : Builtin) (count : Nat) : ShellM Unit := do
  Shell.note .debug (b.name ++ ": rejected " ++ toString count ++ " argument(s)")
  Shell.printLine b.usage

/-- The action that the arguments of a built-in command make. -/
def action (b : Builtin) (args : List String) : Action :=
  match b.read? args with
  | some command => command.action
  | none => .act (b.reject args.length)

/-- The factory of a built-in command. -/
def factory (b : Builtin) : Factory where
  name := b.name
  create := b.action

end Builtin

/-- The built-in commands. -/
def Registry.builtins : Registry :=
  Registry.ofList (Builtin.all.map Builtin.factory)

end TreeShell
