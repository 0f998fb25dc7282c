import TreeShell.Command.Line
import TreeShell.Interpreter.Registry
import TreeShell.Text.Quoted

/-!
# The interpreter

A line is recorded, read as a command line, and handed to the command of its
name. The loop asks for lines until the session is to exit or the input ends;
it ends because every line it gets is taken off the source and no command puts
one back.
-/

namespace TreeShell

/-- The prompt shown before each command line. -/
def prompt : String := ">"

namespace Console

/-- Does what a command line says. -/
def dispatch (r : Registry) (line : CommandLine) : ConsoleM Unit :=
  match r.find? line.name with
  | some factory => do
    onShell (Shell.note .debug
      ("dispatch " ++ line.name ++ " with " ++ toString line.args.length ++ " argument(s)"))
    (factory.create line.args).run
  | none =>
    onShell do
      Shell.note .debug ("unknown command " ++ Text.quoted line.name)
      Shell.printLine ("Unknown command: " ++ line.name)

/-- Records a line and does what it says. -/
def runLine (r : Registry) (line : String) : ConsoleM Unit := do
  onShell (Shell.record line)
  match CommandLine.parse line with
  | .ok commandLine => dispatch r commandLine
  | .error e => onShell (Shell.printLine e.message)

theorem source_le_of_bind {α β : Type} (m : ConsoleM α) (f : α → ConsoleM β) (c : Console)
    (hm : (outcomeState (m c)).source.replies.length ≤ c.source.replies.length)
    (hf : ∀ a d, (outcomeState (f a d)).source.replies.length ≤ d.source.replies.length) :
    (outcomeState ((m >>= f) c)).source.replies.length ≤ c.source.replies.length := by
  change (outcomeState (EStateM.bind m f c)).source.replies.length ≤ _
  unfold EStateM.bind
  split
  · next a d hd =>
    rw [hd] at hm
    exact Nat.le_trans (hf a d) hm
  · next e d hd =>
    rw [hd] at hm
    exact hm

theorem replies_dispatch_le (r : Registry) (line : CommandLine) (c : Console) :
    (outcomeState (dispatch r line c)).source.replies.length ≤ c.source.replies.length := by
  unfold dispatch
  cases r.find? line.name with
  | some factory =>
    exact source_le_of_bind _ _ _ (by simp) fun _ d => Action.replies_run_le _ d
  | none => simp

/-- Doing what a line says does not add replies to the source. -/
theorem replies_runLine_le (r : Registry) (line : String) (c : Console) :
    (outcomeState (runLine r line c)).source.replies.length ≤ c.source.replies.length := by
  unfold runLine
  refine source_le_of_bind _ _ _ (by simp) fun _ d => ?_
  cases CommandLine.parse line with
  | ok commandLine => exact replies_dispatch_le r _ d
  | error e => simp

/-- Asks for command lines and does what they say, until the session is to exit
or the input ends. -/
def repl (r : Registry) (c : Console) : EStateM.Result Fault Console Unit :=
  if c.shell.session.exiting then .ok () c
  else
    match _hread : readLine prompt c with
    | .error e c => .error e c
    | .ok none c => onShell (Shell.note .info "end of input") c
    | .ok (some line) asked =>
      match _hrun : runLine r line { asked with source := asked.source.remember line } with
      | .error e c => .error e c
      | .ok () c => repl r c
termination_by c.source.replies.length
decreasing_by
  have hle := replies_runLine_le r line { asked with source := asked.source.remember line }
  rw [_hrun] at hle
  have hlt := replies_readLine_lt _hread
  simp only [outcomeState, Source.replies_remember] at hle
  omega

end Console

end TreeShell
