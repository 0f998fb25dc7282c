import TreeShell.Shell.Basic
import TreeShell.Shell.Source

/-!
# Actions that may ask for input

An action acts on the shell, or asks for a line with a prompt and becomes
another action once it has the answer. Only the console, which holds a shell
and a source of lines, answers. So an action can take lines from the source but
cannot put any back: `replies_run_le`.
-/

namespace TreeShell

/-- What a command is, once its arguments are known. -/
inductive Action where
  | act (body : ShellM Unit)
  | ask (prompt : String) (next : Except Fault (Option String) → Action)

/-- A shell together with its source of lines. -/
structure Console where
  shell : Shell
  source : Source
deriving DecidableEq

/-- Actions on a console. -/
abbrev ConsoleM := EStateM Fault Console

namespace Console

/-- Acts on the shell alone. -/
def onShell {α : Type} (body : ShellM α) : ConsoleM α := fun c =>
  match body c.shell with
  | .ok a shell => .ok a { c with shell := shell }
  | .error e shell => .error e { c with shell := shell }

/-- Takes the next reply of the source. A line that the line editor could not
decode is read as one replacement character. -/
def takeReply : ConsoleM (Option String) := fun c =>
  let rest := { c with source := c.source.next.2 }
  match c.source.next.1 with
  | .line text => .ok (some text) rest
  | .undecodable reason =>
    onShell (do
      Shell.note .warn ("undecodable input line: " ++ reason)
      pure (some "\uFFFD")) rest
  | .done => .ok none rest
  | .failure text => .error (.inputFailed text) rest

/-- Shows a prompt on the output, if the source wants it shown. -/
def showPrompt (prompt : String) : ConsoleM Unit := fun c =>
  if c.source.echo then onShell (Shell.print prompt) c else .ok () c

/-- Asks for a line, and gives nothing at the end of input. -/
def readLine (prompt : String) : ConsoleM (Option String) := fun c =>
  match showPrompt prompt { c with source := c.source.ask prompt } with
  | .ok () c => takeReply c
  | .error e c => .error e c

end Console

/-- Does an action on a console. -/
def Action.run : Action → ConsoleM Unit
  | .act body => Console.onShell body
  | .ask prompt next => fun c =>
    match Console.readLine prompt c with
    | .ok answer c => (next (.ok answer)).run c
    | .error e c => (next (.error e)).run c

/-- The console that a computation leaves, whatever its outcome. -/
def outcomeState {ε σ α : Type} : EStateM.Result ε σ α → σ
  | .ok _ s => s
  | .error _ s => s

namespace Console

@[simp] theorem source_onShell {α : Type} (body : ShellM α) (c : Console) :
    (outcomeState (onShell body c)).source = c.source := by
  unfold onShell; cases body c.shell <;> rfl

theorem source_takeReply (c : Console) :
    (outcomeState (takeReply c)).source = c.source.next.2 := by
  unfold takeReply
  split
  · rfl
  · simp
  · rfl
  · rfl

@[simp] theorem source_showPrompt (prompt : String) (c : Console) :
    (outcomeState (showPrompt prompt c)).source = c.source := by
  unfold showPrompt
  split
  · simp
  · rfl

/-- Asking for a line does not add replies to the source. -/
theorem replies_readLine_le (prompt : String) (c : Console) :
    (outcomeState (readLine prompt c)).source.replies.length ≤ c.source.replies.length := by
  have hs := source_showPrompt prompt { c with source := c.source.ask prompt }
  unfold readLine
  split
  · next c' hc =>
    rw [hc] at hs
    simp only [outcomeState] at hs
    have := Source.length_next_le c'.source
    rw [← source_takeReply] at this
    simpa [hs] using this
  · next e c' hc =>
    rw [hc] at hs
    simp only [outcomeState] at hs
    simp [outcomeState, hs]

/-- A line that was asked for is taken off the source. -/
theorem replies_readLine_lt {prompt : String} {c c' : Console} {line : String}
    (h : readLine prompt c = .ok (some line) c') :
    c'.source.replies.length < c.source.replies.length := by
  have hs := source_showPrompt prompt { c with source := c.source.ask prompt }
  unfold readLine at h
  split at h
  · next d hd =>
    rw [hd] at hs
    simp only [outcomeState] at hs
    have ht := source_takeReply d
    rw [h] at ht
    simp only [outcomeState] at ht
    have hlt : d.source.next.2.replies.length < d.source.replies.length := by
      apply Source.length_next_lt
      · intro hdone
        simp [takeReply, hdone] at h
      · intro t hfail
        simp [takeReply, hfail] at h
    rw [ht]
    simpa [hs] using hlt
  · cases h

end Console

/-- An action does not add replies to the source. -/
theorem Action.replies_run_le (action : Action) (c : Console) :
    (outcomeState (action.run c)).source.replies.length ≤ c.source.replies.length := by
  induction action generalizing c with
  | act body => simp [Action.run]
  | ask prompt next ih =>
    have hr := Console.replies_readLine_le prompt c
    unfold Action.run
    split
    · next answer d hd =>
      rw [hd] at hr
      exact Nat.le_trans (ih _ d) hr
    · next e d hd =>
      rw [hd] at hr
      exact Nat.le_trans (ih _ d) hr

end TreeShell
