import TreeShell.Interpreter.Registry

/-!
# Commands described by data

A recipe describes a command of a simple kind. In this order: it may fail at
once, ask for a line and show it, change the current directory without looking
whether it exists, and ask for the end of the session. Last it prints its reply
with its arguments. Unlike a built-in command it does not print its own fault.
-/

namespace TreeShell

/-- A command described by data. -/
structure Recipe where
  name : String
  reply : String := ""
  fail? : Option String := none
  ask? : Option String := none
  cd? : Option String := none
  exit : Bool := false
deriving DecidableEq

namespace Recipe

/-- What is shown of the line that was asked for. -/
def echoed : Option String → String
  | some line => "got <" ++ line ++ ">"
  | none => "got nothing"

/-- What comes after asking. -/
def finish (r : Recipe) (args : List String) : ShellM Unit := do
  match r.cd? with
  | some dir => Shell.setCwd (← Shell.resolve dir)
  | none => pure ()
  if r.exit then Shell.requestExit
  Shell.printLine (r.reply ++ "[" ++ ",".intercalate args ++ "]")

/-- The action of the recipe with the given arguments. -/
def action (r : Recipe) (args : List String) : Action :=
  match r.fail?, r.ask? with
  | some text, _ => .act (throw (.custom text))
  | none, none => .act (r.finish args)
  | none, some prompt =>
    .ask prompt fun
      | .error e => .act (throw e)
      | .ok line? => .act do
        Shell.printLine (echoed line?)
        r.finish args

/-- The factory of the recipe. -/
def factory (r : Recipe) : Factory where
  name := r.name
  create := r.action

end Recipe

end TreeShell
