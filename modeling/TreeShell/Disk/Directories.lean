import TreeShell.Disk.Basic

/-!
# Listing, making and removing directories

A listing is sorted by name. Making a directory makes the missing ones above
it, and does nothing if it is there. Removing takes an empty directory, or a
directory with everything below it; links below it are removed and not
followed.
-/

namespace TreeShell.Disk

/-- The names in a directory, sorted by their code points. -/
def listDir (path : Path) : Disk (List String) := do
  let a ← requireDir path
  let names := ((← tree).children a).map FileName.text
  pure (names.mergeSort fun n m => decide (n ≤ m))

/-- Goes on after making a directory at `step` was refused, which does no harm
if there is a directory. -/
def settle (path step : Path) (e : IoError) : Disk Unit := do
  if ← isDir step then pure () else throw (.ofIo path e)

/-- Makes the directories of the list, each of which lies above the one before
it, as far as they are missing: from the first one upwards until one can be
made or is there, and from there back down. Failures name `path`. -/
def climb (path : Path) : List Path → Disk Unit
  | [] => pure ()
  | step :: above => do
    if step.isEmpty then pure ()
    else
      match (← tree).mkdir step with
      | .ok t => modify fun h => { h with tree := t }
      | .error e =>
        if e.kind = .notFound then
          climb path above
          match (← tree).mkdir step with
          | .ok t => modify fun h => { h with tree := t }
          | .error e => settle path step e
        else settle path step e

/-- Makes a directory together with the missing ones above it. -/
def createDirs (path : Path) : Disk Unit := do
  if ← isFile path then throw (.alreadyExists path)
  else climb path path.ancestors

/-- Removes a directory that has no entries. -/
def removeEmptyDir (path : Path) : Disk Unit := do
  let a ← requireDir path
  if (← tree).IsEmptyDir a then commit path fun t => t.rmdir path
  else throw (.notEmpty path)

/-- Removes everything in the directory that the path leads to, and then what
the path names in the tree that is left. If the path no longer leads anywhere
by then, that is no failure. -/
def emptyAndRemove (path : Path) (a : Address) : Disk Unit := do
  modify fun h => { h with tree := h.tree.clear a }
  match (← tree).rmdir path with
  | .ok t => modify fun h => { h with tree := t }
  | .error e => if e.kind = .notFound then pure () else throw (.ofIo path e)

/-- Removes a directory with everything below it. Of a link to a directory only
the link is removed. -/
def removeTree (path : Path) : Disk Unit := do
  let a ← requireDir path
  let t ← tree
  match t.entry? (← liftCall path (t.locate .entry path)) with
  | some (.link _) => commit path fun t => t.unlink path
  | _ => emptyAndRemove path a

end TreeShell.Disk
