import TreeShell.Tree.Basic

/-!
# Following a path

A path is followed from the root, piece by piece, along directories; a link on
the way is replaced by its target. `Tree.locate` gives the address that the
path leads to. There may be nothing at that address, but then the directory it
would lie in exists, so the address is where something could be created.

`Tree.walk` goes along the pieces up to the first link and hands the rest of
the journey over; `Tree.follow` allows a fixed number of links. Both are
recursions on what they have left, pieces or links, so every path ends
somewhere, a loop of links included.

`Tree.identify?` finds the canonical path of an entry by looking the names up one
after the other, each by its own canonical path. `Tree.passages` lists what it
looks up on the way.
-/

namespace TreeShell

/-- How the end of a path is understood.

* `target`: what the path leads to in the end; a link is followed, and a slash
  after the last name asks for a directory.
* `entry`: like `target`, but a link in the last place is the answer itself.
* `name`: the entry of the last name, whatever it is; slashes after it do not
  count.
* `output`: like `target`, for a file to be written: a slash after the last
  name is refused, since a directory cannot be written.
* `fresh`: like `output`, but a link in the last place is the answer itself. -/
inductive Ending where
  | target
  | entry
  | name
  | output
  | fresh
deriving DecidableEq

/-- Whether a link in the last place is followed. -/
def Ending.followsLink : Ending → Bool
  | .target | .output => true
  | .entry | .name | .fresh => false

/-- Whether a slash after the last name is refused. -/
def Ending.refusesSlash : Ending → Bool
  | .output | .fresh => true
  | .target | .entry | .name => false

/-- Whether the pieces after a name are only slashes. -/
def areSlashes (rest : List Piece) : Bool :=
  !rest.isEmpty && rest.all fun p => p.text = ""

namespace Path

/-- The longest path the system takes, in bytes. -/
def maxBytes : Nat := 4095

/-- Why the system does not take the path, whatever the tree: a null character
in it, its length, or its being empty. -/
def refusal? (p : Path) : Option IoError :=
  if '\x00' ∈ p.text.toList then some .nulInPath
  else if maxBytes < p.text.utf8ByteSize then some .nameTooLong
  else if p.isEmpty then some .notFound
  else none

/-- The pieces without the slashes at the end. -/
def trimmed (p : Path) : List Piece :=
  (p.pieces.reverse.dropWhile fun piece => piece.text = "").reverse

end Path

/-- Whether the pieces after a name ask for a directory before the next name:
`..` comes first, or nothing but idle pieces. -/
def asksDir (rest : List Piece) : Bool :=
  match rest.dropWhile Piece.isIdle with
  | [] => !rest.isEmpty
  | p :: _ => p.text = ".."

/-- A name that is looked up: the address that it stands for, and whether a slash
is put after it, since it has to be a directory. -/
structure Lookup where
  address : Address
  slashed : Bool
deriving DecidableEq

/-- The bytes of the path that is asked for. -/
def Lookup.size (lookup : Lookup) : Nat :=
  lookup.address.path.text.utf8ByteSize + lookup.slashed.toNat

namespace Tree

/-- Goes along the pieces from the address `a`. At a link that is to be
followed, `jump` goes on from where the target starts, along the target's
pieces and the rest. -/
def walk (t : Tree) (ending : Ending) (jump : Address → List Piece → Except IoError Address) :
    Address → List Piece → Except IoError Address
  | a, [] => .ok a
  | a, p :: rest =>
    if t.HasDir a then
      if ending.refusesSlash ∧ areSlashes rest ∧ !p.isIdle ∧ p.text ≠ ".." then
        .error .isADirectory
      else
        match Step.ofPiece p with
        | .stay => t.walk ending jump a rest
        | .up => t.walk ending jump a.tail rest
        | .refuse e => .error e
        | .enter n =>
          match t.entry? (n :: a) with
          | none => if rest = [] then .ok (n :: a) else .error .notFound
          | some (.link target) =>
            if rest = [] ∧ !ending.followsLink then .ok (n :: a)
            else jump (if target.isAbsolute then [] else a) (target.pieces ++ rest)
          | some _ => t.walk ending jump (n :: a) rest
    else .error .notADirectory

/-- Goes along the pieces from an address, through at most the given number of
links. -/
def follow (t : Tree) (ending : Ending) : Nat → Address → List Piece → Except IoError Address
  | 0 => t.walk ending fun _ _ => .error .linkLoop
  | links + 1 => t.walk ending (t.follow ending links)

/-- How many links one path may pass. -/
def maxLinks : Nat := 40

/-- The address that a path leads to. A relative path starts at the root, too. -/
def locate (t : Tree) (ending : Ending) (p : Path) : Except IoError Address :=
  match p.refusal? with
  | some e => .error e
  | none => t.follow ending maxLinks [] (if ending = .name then p.trimmed else p.pieces)

/-- The address and the entry that a path leads to, links followed. -/
def find (t : Tree) (p : Path) : Except IoError (Address × Entry) := do
  let a ← t.locate .target p
  match t.entry? a with
  | some e => .ok (a, e)
  | none => .error .notFound

/-- Whether the path leads to a directory. -/
def isDir (t : Tree) (p : Path) : Bool :=
  match t.find p with
  | .ok (_, .dir) => true
  | _ => false

/-- Whether the path leads to a regular file. -/
def isFile (t : Tree) (p : Path) : Bool :=
  match t.find p with
  | .ok (_, .file _) => true
  | _ => false

/-- Whether there is a link at the address. -/
def hasLink (t : Tree) (a : Address) : Bool :=
  match t.entry? a with
  | some (.link _) => true
  | _ => false

/-- The names that are looked up along the pieces from the address `a`. At a link
`jump` lists those that follow. -/
def lookups (t : Tree) (jump : Address → List Piece → List Lookup) :
    Address → List Piece → List Lookup
  | _, [] => []
  | a, p :: rest =>
    match Step.ofPiece p with
    | .stay => t.lookups jump a rest
    | .up => t.lookups jump a.tail rest
    | .refuse _ => []
    | .enter n =>
      ⟨n :: a, asksDir rest && !t.hasLink (n :: a)⟩ :: match t.entry? (n :: a) with
        | some (.link target) => jump (if target.isAbsolute then [] else a) (target.pieces ++ rest)
        | _ => t.lookups jump (n :: a) rest

/-- The names that are looked up through at most the given number of links. -/
def passages (t : Tree) : Nat → Address → List Piece → List Lookup
  | 0 => t.lookups fun _ _ => []
  | links + 1 => t.lookups (t.passages links)

/-- Whether the system can look the path up name by name. It asks for each name
by the canonical path of its place, and takes that path only if it is not too
long. The length of the path itself does not matter. -/
def Traceable (t : Tree) (p : Path) : Prop :=
  ∀ lookup ∈ t.passages maxLinks [] p.pieces, lookup.size ≤ Path.maxBytes

instance (t : Tree) (p : Path) : Decidable (t.Traceable p) :=
  inferInstanceAs (Decidable (∀ lookup ∈ _, _))

/-- The address of the existing entry that a path leads to, if its canonical path
can be made out. -/
def identify? (t : Tree) (p : Path) : Option Address :=
  if '\x00' ∈ p.text.toList ∨ p.isEmpty ∨ ¬ t.Traceable p then none
  else
    match t.follow .target maxLinks [] p.pieces with
    | .ok a => if (t.entry? a).isSome then some a else none
    | .error _ => none

/-- Whether both paths lead to the same existing entry, as far as this can be made
out. -/
def sameEntry (t : Tree) (p q : Path) : Bool :=
  match t.identify? p, t.identify? q with
  | some a, some b => a = b
  | _, _ => false

variable (t : Tree) (ending : Ending) (jump : Address → List Piece → Except IoError Address)

@[simp] theorem walk_nil (a : Address) : t.walk ending jump a [] = .ok a := rfl

theorem walk_of_not_hasDir {a : Address} (h : ¬ t.HasDir a) (p : Piece) (rest : List Piece) :
    t.walk ending jump a (p :: rest) = .error .notADirectory := by
  simp [walk, h]

/-- An idle piece asks for a directory and nothing else. -/
theorem walk_cons_idle {a : Address} (h : t.HasDir a) {p : Piece} (hp : p.isIdle = true)
    (rest : List Piece) : t.walk ending jump a (p :: rest) = t.walk ending jump a rest := by
  simp [walk, h, hp]

end Tree

end TreeShell
