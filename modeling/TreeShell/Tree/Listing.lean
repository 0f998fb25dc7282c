import TreeShell.Tree.Calls

/-!
# Building and listing trees

`Tree.plant` puts an entry at a path, with the directories above it, and
`Tree.plantAll` builds a tree from nothing. `Tree.listing` lists a tree by the
canonical paths of its entries, in the order of their texts, so that trees with
the same entries have the same listing.
-/

namespace TreeShell.Tree

/-- The tree after a call, or the same tree if the call is refused. -/
def orSame (t : Tree) (answer : Except IoError Tree) : Tree :=
  match answer with
  | .ok u => u
  | .error _ => t

/-- Makes the directories of the list, the last one first. -/
def plantDirs (t : Tree) : List Path → Tree
  | [] => t
  | p :: above =>
    let u := t.plantDirs above
    u.orSame (u.mkdir p)

/-- Puts an entry at a path. The directories above it are made if they are
missing. A file takes new bytes; nothing else that is there is replaced. -/
def plant (t : Tree) (p : Path) (e : Entry) : Tree :=
  let u := t.plantDirs p.above
  match e with
  | .dir => u.orSame (u.mkdir p)
  | .file bytes => u.orSame (u.modifyFile p fun _ => bytes)
  | .link _ => u.orSame (do u.place (← u.locate .name p) e)

/-- Puts the entries at their paths, in order. -/
def plantAll (t : Tree) (entries : List (Path × Entry)) : Tree :=
  entries.foldl (fun u x => u.plant x.1 x.2) t

/-- The entries by their canonical paths, in the order of the texts. -/
def listing (t : Tree) : List (Path × Entry) :=
  (t.entries.map fun x => (Address.path x.1, x.2)).mergeSort fun x y =>
    decide (x.1.text ≤ y.1.text)

@[simp] theorem plantAll_nil (t : Tree) : t.plantAll [] = t := rfl

@[simp] theorem plantAll_cons (t : Tree) (x : Path × Entry) (rest : List (Path × Entry)) :
    t.plantAll (x :: rest) = (t.plant x.1 x.2).plantAll rest := rfl

end TreeShell.Tree
