/-!
# Paths

A path is the list of the pieces of its text between slashes: `/w//a` has the
pieces ``, `w`, `` and `a`. A text and its pieces determine each other
(`ofText_text`, `text_ofText`), so nothing of the text is lost, and joining,
cutting and reading a path are operations on lists.

An idle piece, empty or a single dot, names nothing. The components of a path
are its start, which is the root, an explicit `.` or nothing, and its other
pieces without the idle ones; two paths with the same components are the same
place in every tree, whatever their texts.
-/

namespace TreeShell

/-- A text without slashes. -/
structure Piece where
  text : String
  slash_free : '/' ∉ text.toList
deriving DecidableEq

namespace Piece

/-- The empty piece, as before a leading and after a trailing slash. -/
def empty : Piece := ⟨"", by simp⟩

/-- The piece `.`. -/
def dot : Piece := ⟨".", by simp⟩

/-- Whether the piece names nothing. -/
def isIdle (p : Piece) : Bool :=
  p.text = "" || p.text = "."

@[simp] theorem isIdle_empty : empty.isIdle = true := rfl

@[simp] theorem isIdle_dot : dot.isIdle = true := rfl

end Piece

/-- A path, as its pieces between slashes. -/
structure Path where
  pieces : List Piece
  ne_nil : pieces ≠ []
deriving DecidableEq

/-- Where a path starts: at the root, at an explicit `.`, or neither. -/
inductive Start where
  | root
  | here
  | bare
deriving DecidableEq

namespace Path

/-- The text of the path. -/
def text (p : Path) : String :=
  "/".intercalate (p.pieces.map Piece.text)

theorem not_mem_of_mem_splitOn {α : Type} [BEq α] [LawfulBEq α] {a : α} {l piece : List α}
    (h : piece ∈ l.splitOn a) : a ∉ piece := by
  induction l generalizing piece with
  | nil => simp_all
  | cons b l ih =>
    rw [List.splitOn_cons_eq_if_modifyHead] at h
    split at h
    · rcases List.mem_cons.1 h with rfl | h
      · simp
      · exact ih h
    · next hb =>
      cases hl : l.splitOn a with
      | nil => simp [hl] at h
      | cons first rest =>
        rw [hl, List.modifyHead_cons] at h
        rcases List.mem_cons.1 h with rfl | h
        · simp only [List.mem_cons, not_or]
          exact ⟨fun hab => hb (by simp [hab]), ih (by simp [hl])⟩
        · exact ih (by simp [hl, h])

/-- The path of a text. -/
def ofText (text : String) : Path where
  pieces := (text.toList.splitOn '/').attach.map fun piece =>
    ⟨String.ofList piece.1, by simpa using not_mem_of_mem_splitOn piece.2⟩
  ne_nil := by simp

theorem map_text_ofText (text : String) :
    (ofText text).pieces.map (fun p => p.text.toList) = text.toList.splitOn '/' := by
  simp [ofText]

@[simp] theorem text_ofText (text : String) : (ofText text).text = text := by
  apply String.toList_inj.1
  have h := map_text_ofText text
  simp only [Path.text, String.toList_intercalate, List.map_map, Function.comp_def, h]
  exact List.intercalate_splitOn '/'

theorem text_injective {p q : Path} (h : p.text = q.text) : p = q := by
  have key (r : Path) : r.text.toList.splitOn '/' = r.pieces.map (fun s => s.text.toList) := by
    have hs : r.text.toList = ['/'].intercalate (r.pieces.map fun s => s.text.toList) := by
      simp [Path.text, String.toList_intercalate, Function.comp_def]
    rw [hs]
    refine List.splitOn_intercalate '/' ?_ (by simp [r.ne_nil])
    intro l hl
    obtain ⟨s, _, rfl⟩ := List.mem_map.1 hl
    exact s.slash_free
  have hpq : p.pieces.map (fun s => s.text.toList) = q.pieces.map (fun s => s.text.toList) := by
    rw [← key p, ← key q, h]
  have hinj : Function.Injective fun s : Piece => s.text.toList := by
    rintro ⟨s, _⟩ ⟨t, _⟩ hst
    simpa [String.toList_inj] using hst
  have := List.map_inj_right (fun x y hxy => hinj hxy) |>.1 hpq
  cases p; cases q; simp_all

@[simp] theorem ofText_text (p : Path) : ofText p.text = p :=
  text_injective (text_ofText p.text)

/-- The empty path. -/
def empty : Path := ⟨[Piece.empty], by simp⟩

/-- The path `/`. -/
def root : Path := ⟨[Piece.empty, Piece.empty], by simp⟩

/-- Whether the text starts with a slash. -/
def isAbsolute (p : Path) : Bool :=
  match p.pieces with
  | first :: _ :: _ => first.text = ""
  | _ => false

/-- Whether the path is the empty one. -/
def isEmpty (p : Path) : Bool :=
  p = empty

/-- The pieces of the path, less an empty last one: what another path can be
put after. -/
def stem (p : Path) : List Piece :=
  if p.pieces.getLast p.ne_nil = Piece.empty then p.pieces.dropLast else p.pieces

/-- The path `rel` taken from `base`: an absolute one replaces the base, any
other is put after it and one slash, which is not doubled. -/
def join (base rel : Path) : Path :=
  if rel.isAbsolute then rel else ⟨base.stem ++ rel.pieces, by simp [rel.ne_nil]⟩

/-- Where the path starts. -/
def start (p : Path) : Start :=
  match p.pieces with
  | first :: rest =>
    if first.text = "" ∧ rest ≠ [] then .root else if first.text = "." then .here else .bare
  | [] => .bare

/-- The pieces that follow the start. -/
def body (p : Path) : List Piece :=
  match p.start with
  | .bare => p.pieces
  | _ => p.pieces.tail

/-- The path with the given start and pieces after it. -/
def build : Start → List Piece → Path
  | .root, [] => root
  | .root, piece :: rest => ⟨Piece.empty :: piece :: rest, by simp⟩
  | .here, rest => ⟨Piece.dot :: rest, by simp⟩
  | .bare, [] => empty
  | .bare, piece :: rest => ⟨piece :: rest, by simp⟩

/-- The start of the path and the pieces after it that name something. -/
def components (p : Path) : Start × List Piece :=
  (p.start, p.body.filter fun piece => !piece.isIdle)

/-- How many components the path has. -/
def depth (p : Path) : Nat :=
  p.components.2.length + match p.start with
    | .bare => 0
    | _ => 1

/-- The paths above one with the start `s` and the given pieces after it, last
piece first: the nearest comes first. A component is cut off together with the
idle pieces on both of its sides. -/
def aboveOf (s : Start) : List Piece → List Path
  | [] => match s with
    | .here => [empty]
    | _ => []
  | piece :: before =>
    if piece.isIdle then aboveOf s before
    else build s (before.dropWhile Piece.isIdle).reverse :: aboveOf s before

/-- The paths above this one, the nearest first. -/
def above (p : Path) : List Path :=
  aboveOf p.start p.body.reverse

/-- The path and those above it. -/
def ancestors (p : Path) : List Path :=
  p :: p.above

/-- The path without its last component. The root and the empty path have none
to lose. -/
def parent? (p : Path) : Option Path :=
  p.above.head?

@[simp] theorem join_of_isAbsolute (base : Path) {rel : Path} (h : rel.isAbsolute = true) :
    base.join rel = rel := by
  simp [join, h]

theorem pieces_join (base : Path) {rel : Path} (h : rel.isAbsolute = false) :
    (base.join rel).pieces = base.stem ++ rel.pieces := by
  simp [join, h]

@[simp] theorem above_root : root.above = [] := by decide

@[simp] theorem above_empty : empty.above = [] := by decide

theorem parent?_root : root.parent? = none := rfl

theorem parent?_empty : empty.parent? = none := rfl

end Path

end TreeShell
