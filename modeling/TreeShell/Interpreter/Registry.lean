import TreeShell.Interpreter.Action

/-!
# Registered commands

A factory makes the action of one command from its arguments. A registry holds
at most one factory of each name; registering a name again replaces its factory
and is worth a warning.
-/

namespace TreeShell

/-- A command name and what its arguments make. -/
structure Factory where
  name : String
  create : List String → Action

/-- The factories by name, each name once. -/
abbrev Registry := List Factory

namespace Registry

/-- The factory of a name. -/
def find? (r : Registry) (name : String) : Option Factory :=
  List.find? (fun f => f.name = name) r

/-- Adds a factory. If there is one of the same name, the new one takes its place
and the old one is given back. -/
def insert (r : Registry) (f : Factory) : Option Factory × Registry :=
  match r.find? f.name with
  | some old => (some old, r.map fun g => if g.name = f.name then f else g)
  | none => (none, r ++ [f])

/-- The warning that a name is registered again. -/
def replaced (name : String) : LogRecord :=
  ⟨.warn, "command " ++ name ++ " registered twice, keeping the last one"⟩

/-- Registers one more factory, and warns if that replaces another one. -/
def register (made : Registry × List LogRecord) (f : Factory) : Registry × List LogRecord :=
  match made.1.insert f with
  | (some _, r) => (r, made.2 ++ [replaced f.name])
  | (none, r) => (r, made.2)

/-- What registering the factories in order makes: a registry, and the warnings on
the way. -/
def registered (factories : List Factory) : Registry × List LogRecord :=
  factories.foldl register ([], [])

/-- The registry of the factories, registered in order. -/
def ofList (factories : List Factory) : Registry :=
  (registered factories).1

/-- The warnings that registering the factories in order gives. -/
def warnings (factories : List Factory) : List LogRecord :=
  (registered factories).2

@[simp] theorem ofList_nil : ofList [] = [] := rfl

@[simp] theorem find?_nil (name : String) : find? [] name = none := rfl

theorem registered_concat (factories : List Factory) (f : Factory) :
    registered (factories ++ [f]) = register (registered factories) f := by
  simp [registered]

theorem ofList_concat (factories : List Factory) (f : Factory) :
    ofList (factories ++ [f]) = ((ofList factories).insert f).2 := by
  rw [ofList, registered_concat, register, ofList]
  split <;> simp [*]

/-- Registering one more factory gives a warning exactly if its name is taken. -/
theorem warnings_concat (factories : List Factory) (f : Factory) :
    warnings (factories ++ [f]) = warnings factories ++
      if (find? (ofList factories) f.name).isSome then [replaced f.name] else [] := by
  rw [warnings, registered_concat, register, insert, warnings, ofList]
  cases (registered factories).1.find? f.name with
  | some old => rfl
  | none => exact (List.append_nil _).symm

end Registry

end TreeShell
