import TreeShell.Error.IoError
import TreeShell.Path.Basic

/-!
# File names and addresses

A file name is a piece of a path that can stand for an entry of a directory:
not empty, neither `.` nor `..`, without slash and null character, and at most
255 bytes long. An address is the list of names that leads to an entry from
the root, the innermost first, so that the parent of an entry is the tail of
its address and the entries below a directory are those whose address ends in
the directory's.

`Step.ofPiece` says what a piece of a path asks for when the path is followed.
-/

namespace TreeShell

/-- What makes a text a file name. -/
def IsFileName (s : String) : Prop :=
  s ≠ "" ∧ s ≠ "." ∧ s ≠ ".." ∧ '/' ∉ s.toList ∧ '\x00' ∉ s.toList ∧ s.utf8ByteSize ≤ 255

instance (s : String) : Decidable (IsFileName s) := by
  unfold IsFileName; infer_instance

/-- A name that an entry of a directory can have. -/
structure FileName where
  text : String
  valid : IsFileName text
deriving DecidableEq

/-- The name as a piece of a path. -/
def FileName.piece (n : FileName) : Piece :=
  ⟨n.text, n.valid.2.2.2.1⟩

/-- The names that lead to an entry from the root, the innermost first. -/
abbrev Address := List FileName

/-- The canonical path of an address: absolute, without dots and doubled
slashes. -/
def Address.path : Address → Path
  | [] => Path.root
  | n :: a => ⟨Piece.empty :: (n :: a).reverse.map FileName.piece, by simp⟩

/-- What a piece of a path asks for. -/
inductive Step where
  | stay
  | up
  | enter (name : FileName)
  | refuse (reason : IoError)
deriving DecidableEq

/-- An idle piece stays where it is, `..` goes up, and any other piece enters
the entry of that name, if it can be a name at all. -/
def Step.ofPiece (p : Piece) : Step :=
  if p.isIdle then .stay
  else if p.text = ".." then .up
  else if h : IsFileName p.text then .enter ⟨p.text, h⟩
  else if '\x00' ∈ p.text.toList then .refuse .nulInPath
  else .refuse .nameTooLong

@[simp] theorem Step.ofPiece_piece (n : FileName) : Step.ofPiece n.piece = .enter n := by
  obtain ⟨s, h⟩ := n
  have hi : (FileName.piece ⟨s, h⟩).isIdle = false := by
    simp [Piece.isIdle, FileName.piece, h.1, h.2.1]
  simp only [Step.ofPiece, hi]
  simp [FileName.piece, h.2.2.1, h]

@[simp] theorem Step.ofPiece_of_isIdle {p : Piece} (h : p.isIdle = true) :
    Step.ofPiece p = .stay := by
  simp [Step.ofPiece, h]

end TreeShell
