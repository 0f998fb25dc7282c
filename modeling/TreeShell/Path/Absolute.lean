import TreeShell.Path.Basic

/-!
# Absolute paths

`Path.absolute` completes a path by the directory it is taken from. Idle pieces
go, `..` and a slash at the end stay, and nothing is looked up, so that links
keep their meaning. Of the slashes in front two stay, which a system may take for
something other than the root, but three or more count as one.
-/

namespace TreeShell.Path

/-- The path of a single piece. -/
def ofPiece (piece : Piece) : Path := ⟨[piece], by simp⟩

/-- Whether the text ends in a slash. -/
def endsInSlash (p : Path) : Bool :=
  p.pieces.getLast p.ne_nil = Piece.empty

/-- Whether the text starts with two slashes and no third one. -/
def hasTwoSlashes (p : Path) : Bool :=
  match p.pieces with
  | first :: second :: third :: rest =>
    first.text = "" ∧ second.text = "" ∧ (third.text = "" → rest = [])
  | _ => false

/-- The path `//`. -/
def twoSlashes : Path := ⟨[Piece.empty, Piece.empty, Piece.empty], by simp⟩

/-- The path made absolute from the directory `here`. -/
def absolute (here p : Path) : Path :=
  let base :=
    if p.hasTwoSlashes then twoSlashes else if p.isAbsolute then root else here
  let full := p.components.2.foldl (fun q piece => q.join (ofPiece piece)) base
  if p.endsInSlash then full.join empty else full

end TreeShell.Path
