import TreeShell.Path.Basic

/-!
# Sessions

A session holds the current directory as the text it was reached by, which is
never normalised, the lines entered at the command prompt, and whether the
shell has been asked to exit. Relative arguments are taken from the current
directory, never from the working directory of the process.
-/

namespace TreeShell

/-- The state of a session. The history grows at the end. -/
structure Session where
  cwd : Path
  history : List String := []
  exiting : Bool := false
deriving DecidableEq

namespace Session

/-- The path that an argument stands for. -/
def resolve (s : Session) (arg : String) : Path :=
  s.cwd.join (Path.ofText arg)

/-- The session with one more line in its history. -/
def record (s : Session) (line : String) : Session :=
  { s with history := s.history ++ [line] }

/-- What an argument stands for is decided by the current directory. -/
theorem resolve_of_cwd {s s' : Session} (h : s'.cwd = s.cwd) (arg : String) :
    s'.resolve arg = s.resolve arg := by
  rw [resolve, h, resolve]

@[simp] theorem cwd_record (s : Session) (line : String) : (s.record line).cwd = s.cwd := rfl

@[simp] theorem history_record (s : Session) (line : String) :
    (s.record line).history = s.history ++ [line] := rfl

@[simp] theorem exiting_record (s : Session) (line : String) :
    (s.record line).exiting = s.exiting := rfl

end Session

end TreeShell
