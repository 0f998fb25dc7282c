import TreeShell.Tree.Resolve

/-!
# Calls that change one entry

Each call follows a path and then makes one change to the tree, or is refused.
A refused call has no tree to give back, so it changes nothing.
-/

namespace TreeShell.Tree

/-- The names of the directory at `a` are all gone. -/
def IsEmptyDir (t : Tree) (a : Address) : Prop :=
  t.children a = []

instance (t : Tree) (a : Address) : Decidable (t.IsEmptyDir a) := by
  unfold IsEmptyDir; infer_instance

/-- Adds an entry at an address where nothing is. -/
def place (t : Tree) (a : Address) (e : Entry) : Except IoError Tree :=
  match a with
  | [] => .error .alreadyExists
  | n :: b => if (t.entry? (n :: b)).isSome then .error .alreadyExists else .ok (t.insert n b e)

/-- Makes a directory. Its parent has to exist. -/
def mkdir (t : Tree) (p : Path) : Except IoError Tree := do
  t.place (← t.locate .name p) .dir

/-- Why the last piece of a path cannot be what is removed from a directory:
the root and the names `.` and `..` cannot. -/
def rmdirRefusal? (p : Path) : Option IoError :=
  match p.trimmed.getLast? with
  | none => some .busy
  | some piece =>
    if piece.text = "." then some .invalidArgument
    else if piece.text = ".." then some .notEmpty
    else none

/-- Removes an empty directory. A link to one does not count. -/
def rmdir (t : Tree) (p : Path) : Except IoError Tree := do
  let a ← t.locate .name p
  match rmdirRefusal? p with
  | some e => .error e
  | none =>
    match t.entry? a with
    | none => .error .notFound
    | some .dir => if t.IsEmptyDir a then .ok (t.erase a) else .error .notEmpty
    | some _ => .error .notADirectory

/-- Removes a file or a link. -/
def unlink (t : Tree) (p : Path) : Except IoError Tree := do
  let a ← t.locate .entry p
  match t.entry? a with
  | none => .error .notFound
  | some .dir => .error .isADirectory
  | some _ => .ok (t.erase a)

/-- Makes an empty file where nothing is, not even a link. A path of slashes only
is answered like a name with a slash after it: so the program answers where the
tree lies in a directory of a larger one. A system says `alreadyExists` of its own
root. Nothing is made either way. -/
def createNew (t : Tree) (p : Path) : Except IoError Tree := do
  let a ← t.locate .fresh p
  if p.trimmed = [] then .error .isADirectory else t.place a (.file [])

/-- Replaces the bytes of the file that the path leads to by a function of
them. A file that is missing is made, with no bytes to start from. -/
def modifyFile (t : Tree) (p : Path) (f : List UInt8 → List UInt8) : Except IoError Tree := do
  let a ← t.locate .output p
  match t.entry? a with
  | none => t.place a (.file (f []))
  | some (.file bytes) => .ok (t.setBytes a (f bytes))
  | some .dir => .error .isADirectory
  | some (.link _) => .error .linkLoop

end TreeShell.Tree
