import TreeShell.Text.Lines
import TreeShell.Text.Utf8

/-!
# Line sources

A source answers one request for a line after the other. What it will answer
is fixed from the start, so a source is the list of its replies and what it
gives after them: the end of input, or the same failure again and again.

A plain reader over bytes cuts them into lines first and decodes each line by
itself, with replacement characters for malformed bytes. How the line editor
reads its input is its own affair: it is given by what its calls return, one
after the other (`EditorRead`), and only what is made of these is settled here. A
line that was broken off is asked for again, and one that the editor could not
decode is no failure.
-/

namespace TreeShell

/-- The answer to one request for a line. A line that could not be decoded comes
with the reason. -/
inductive Reply where
  | line (text : String)
  | undecodable (reason : String)
  | done
  | failure (text : String)
deriving DecidableEq

/-- What one call of the line editor returns: a line, or the news that the line was
broken off, that the input has ended, that its data are malformed, or that
reading failed otherwise. -/
inductive EditorRead where
  | line (text : String)
  | interrupted
  | ended
  | malformed (reason : String)
  | failed (reason : String)
deriving DecidableEq

/-- The reply that a call of the line editor comes to. After a line that was broken
off the editor is called again. -/
def EditorRead.reply? : EditorRead → Option Reply
  | .line text => some (.line text)
  | .interrupted => none
  | .ended => some .done
  | .malformed reason => some (.undecodable reason)
  | .failed reason => some (.failure reason)

/-- A source of lines: its replies to come, the failure that follows them, if
it is not the end of input, whether prompts are shown on the output, the prompts
asked so far, and the lines it was told to remember. -/
structure Source where
  replies : List Reply
  fault? : Option String := none
  echo : Bool := false
  asked : List String := []
  remembered : List String := []
deriving DecidableEq

namespace Source

/-- The reply to the next request, and the source after it. -/
def next (s : Source) : Reply × Source :=
  match s.replies with
  | reply :: rest => (reply, { s with replies := rest })
  | [] =>
    match s.fault? with
    | some text => (.failure text, s)
    | none => (.done, s)

/-- The source that has been asked with a prompt once more. -/
def ask (s : Source) (prompt : String) : Source :=
  { s with asked := s.asked ++ [prompt] }

/-- The source that has been told to remember a line. -/
def remember (s : Source) (line : String) : Source :=
  { s with remembered := s.remembered ++ [line] }

/-- The pieces of raw input that are read as lines. If reading fails in the end,
an unfinished line is lost. -/
def rawLines (bytes : List UInt8) (fault? : Option String) : List (List UInt8) :=
  match fault? with
  | none => Text.lines 10 13 bytes
  | some _ => Text.endedLines 10 13 bytes

/-- A plain reader over bytes, which may fail after them. -/
def ofBytes (bytes : List UInt8) (fault? : Option String) (echo : Bool) : Source where
  replies := (rawLines bytes fault?).map fun raw => .line (Text.decodeLossy raw)
  fault? := fault?
  echo := echo

/-- The line editor whose calls return `reads`, and the end of input after them. -/
def ofEditor (reads : List EditorRead) : Source where
  replies := reads.filterMap EditorRead.reply?

@[simp] theorem replies_ask (s : Source) (prompt : String) : (s.ask prompt).replies = s.replies :=
  rfl

@[simp] theorem replies_remember (s : Source) (line : String) :
    (s.remember line).replies = s.replies := rfl

theorem next_nil {s : Source} (h : s.replies = []) : s.next.2 = s := by
  unfold next; rw [h]; cases hf : s.fault? <;> rfl

/-- A request takes at most one reply off the source. -/
theorem length_next_le (s : Source) : s.next.2.replies.length ≤ s.replies.length := by
  cases h : s.replies with
  | nil => simp [next_nil h, h]
  | cons reply rest => simp [next, h]

/-- A request that is answered by a line takes one reply off the source. -/
theorem length_next_lt {s : Source} (h : s.next.1 ≠ .done) (hf : ∀ t, s.next.1 ≠ .failure t) :
    s.next.2.replies.length < s.replies.length := by
  cases hr : s.replies with
  | nil =>
    cases hfa : s.fault? with
    | none => exact absurd (by simp [next, hr, hfa]) h
    | some t => exact absurd (by simp [next, hr, hfa]) (hf t)
  | cons reply rest => simp [next, hr]

end Source

end TreeShell
