import TreeShell.Disk.Directories
import TreeShell.Disk.Files

/-!
# Copying

A file is copied byte by byte over its target, which is emptied first. So a file
must not be copied onto itself: nothing is done if the two paths are known to lead
to the same entry. A directory is copied by what
was below it before the call: `snapshot` lists the entries first, so copying a
directory into itself ends. The list has every directory before what lies in
it. A link to a file is copied as the file; other links are left out, and the
log says so.
-/

namespace TreeShell

/-- The path of an address relative to the directory it is taken from. -/
def Address.relative : Address → Path
  | [] => Path.empty
  | n :: a => ⟨(n :: a).reverse.map FileName.piece, by simp⟩

/-- An entry to be copied: its address relative to the copied directory, and
whether it is a directory. -/
structure Item where
  address : Address
  isDir : Bool
deriving DecidableEq

namespace Disk

/-- The entries below `a`, every directory before what lies in it. -/
def levels (t : Tree) (a : Address) : List (Address × Entry) :=
  (t.below a).mergeSort fun x y => decide (x.1.length ≤ y.1.length)

/-- What is to be copied of an entry below the directory `root`, if anything. -/
def examine (root : Path) (x : Address × Entry) : Disk (Option Item) := do
  let path := root.join (Address.relative x.1)
  match x.2 with
  | .file _ => pure (some ⟨x.1, false⟩)
  | .dir =>
    let _ ← requireDir path
    pure (some ⟨x.1, true⟩)
  | .link _ =>
    match (← tree).find path with
    | .ok (_, .file _) => pure (some ⟨x.1, false⟩)
    | .ok _ =>
      note .warn ("not following directory link " ++ path.text)
      pure none
    | .error e =>
      note .warn ("skipping dangling link " ++ path.text ++ ": " ++ e.text)
      pure none

/-- What is to be copied of the given entries below the directory `root`. -/
def examineAll (root : Path) : List (Address × Entry) → Disk (List Item)
  | [] => pure []
  | x :: rest => do
    let item? ← examine root x
    let items ← examineAll root rest
    pure (item?.toList ++ items)

/-- What is to be copied of the directory that `root` leads to. -/
def snapshot (root : Path) : Disk (List Item) := do
  let a ← requireDir (root.join Path.empty)
  examineAll root (levels (← tree) a)

/-- The bytes that there are to copy from the file at `a`, once the target is open:
opening it has emptied it. -/
def bytesLeft (t : Tree) (a : Address) (target : Path) (bytes : List UInt8) : List UInt8 :=
  match t.locate .output target with
  | .ok b => if b = a then [] else bytes
  | .error _ => bytes

/-- Copies a file. Nothing happens if both paths are seen to lead to the same
entry. Both ways to fail name the target; the source is opened first. -/
def copyFile (source target : Path) : Disk Unit := do
  let t ← tree
  if t.sameEntry source target then
    note .debug (source.text ++ " and " ++ target.text ++ " are the same file")
  else
    match ← liftCall target (t.find source) with
    | (a, .file bytes) =>
      commit target fun u => u.modifyFile target fun _ => bytesLeft t a target bytes
    | _ => throw (.ofIo target .notCopyable)

/-- Copies one entry from below `source` to its place below `target`. -/
def copyItem (source target : Path) (item : Item) : Disk Unit :=
  let place := target.join item.address.relative
  if item.isDir then createDirs place else copyFile (source.join item.address.relative) place

/-- Copies the entries in order. -/
def copyItems (source target : Path) : List Item → Disk Unit
  | [] => pure ()
  | item :: rest => do
    copyItem source target item
    copyItems source target rest

/-- Copies a file, or a directory with everything below it, over what is at the
target. A directory copied onto itself stays as it is. -/
def copy (source target : Path) : Disk Unit := do
  let t ← tree
  match ← liftCall source (t.find source) with
  | (_, .dir) =>
    if t.sameEntry source target then pure ()
    else
      let items ← snapshot source
      createDirs target
      copyItems source target items
  | _ => copyFile source target

end Disk

end TreeShell
