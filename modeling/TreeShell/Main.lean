import TreeShell.Program.Run

/-!
# The executable

The executable runs the program on a tree that starts empty, with the root as
its working directory. The home directory is the one that the environment names.
Its line editor knows no keys: every line of the input is what it is.
-/

open TreeShell

/-- Reads the rest of a stream. -/
partial def readRest (stream : IO.FS.Stream) (before : ByteArray) : IO ByteArray := do
  let chunk ← stream.read 4096
  if chunk.isEmpty then return before else readRest stream (before ++ chunk)

def main (args : List String) : IO UInt32 := do
  let input ← readRest (← IO.getStdin) ByteArray.empty
  let home := ((← IO.getEnv "HOME").filter fun text => !text.isEmpty).map Path.ofText
  let outcome := run args Editor.keyless [] input.toList { tree := Tree.empty, home := home }
  (← IO.getStdout).write ⟨outcome.output.toArray⟩
  (← IO.getStderr).putStr outcome.errors
  return outcome.code.toUInt32
