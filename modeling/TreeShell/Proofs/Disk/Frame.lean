import TreeShell.Disk.Copy
import TreeShell.Proofs.Computation
import TreeShell.Proofs.Tree.Changes

/-!
# What file operations leave alone

An operation changes the tree by calls only, and never the home directory. So
for any preorder on trees that holds of the calls an operation makes, the trees
before and after the operation are related, whether it fails or not. Operations
that only read leave the very same tree.
-/

namespace TreeShell

/-- The relation holds of every change that a call makes to a tree. -/
structure Tree.HoldsOfCalls (R : Tree → Tree → Prop) : Prop where
  mkdir : ∀ (p : Path) (t u : Tree), t.mkdir p = .ok u → R t u
  createNew : ∀ (p : Path) (t u : Tree), t.createNew p = .ok u → R t u
  modifyFile : ∀ (p : Path) (f : List UInt8 → List UInt8) (t u : Tree),
    t.modifyFile p f = .ok u → R t u
  unlink : ∀ (p : Path) (t u : Tree), t.unlink p = .ok u → R t u
  rmdir : ∀ (p : Path) (t u : Tree), t.rmdir p = .ok u → R t u
  clear : ∀ (a : Address) (t : Tree), R t (t.clear a)

/-- The trees are related by `R`, and nothing but the tree and the log
differs. -/
structure Host.Within (R : Tree → Tree → Prop) (h h' : Host) : Prop where
  tree : R h.tree h'.tree
  home : h'.home = h.home

namespace Disk

open Host (Within)

variable {α β : Type} {R : Tree → Tree → Prop}

/-- What follows a look at the tree may rely on what was seen. -/
theorem moves_tree_bind {f : Tree → Disk β}
    (hf : ∀ h : Host, Within R h (outcomeState (f h.tree h))) : Moves (Within R) (tree >>= f) :=
  hf

section

variable [IsPreorder Tree R]

instance : IsPreorder Host (Within R) where
  refl h := ⟨refl_of R h.tree, rfl⟩
  trans _ _ _ h h' := ⟨trans_of R h.tree h'.tree, h'.home.trans h.home⟩

theorem moves_tree : Moves (Within R) tree :=
  fun h => refl_of (Within R) h

theorem moves_note (level : LogLevel) (message : String) : Moves (Within R) (note level message) :=
  moves_modify fun h => ⟨refl_of R h.tree, rfl⟩

theorem moves_liftCall (path : Path) (answer : Except IoError α) :
    Moves (Within R) (liftCall path answer) := by
  cases answer with
  | ok a => exact moves_pure a
  | error e => exact moves_throw _

theorem moves_requireDir (path : Path) : Moves (Within R) (requireDir path) := by
  refine moves_bind moves_tree fun t => moves_bind (moves_liftCall path _) fun x => ?_
  split
  · exact moves_pure _
  · exact moves_throw _

theorem moves_requireFile (path : Path) : Moves (Within R) (requireFile path) := by
  refine moves_bind moves_tree fun t => moves_bind (moves_liftCall path _) fun x => ?_
  split
  · exact moves_pure _
  · exact moves_throw _

theorem moves_isDir (path : Path) : Moves (Within R) (isDir path) :=
  moves_bind moves_tree fun _ => moves_pure _

theorem moves_isFile (path : Path) : Moves (Within R) (isFile path) :=
  moves_bind moves_tree fun _ => moves_pure _

theorem moves_listDir (path : Path) : Moves (Within R) (listDir path) :=
  moves_bind (moves_requireDir path) fun _ => moves_bind moves_tree fun _ => moves_pure _

theorem moves_readLines (path : Path) : Moves (Within R) (readLines path) := by
  refine moves_bind (moves_requireFile path) fun bytes => ?_
  split
  · exact moves_pure _
  · exact moves_throw _

/-- Reading leaves even the log as it is. -/
theorem outcomeState_readLines (path : Path) (h : Host) :
    outcomeState (readLines path h) = h := by
  have hfile : Moves Eq (requireFile path) := by
    refine moves_bind (fun _ => rfl) fun t => moves_bind (fun _ => ?_) fun x => ?_
    · cases t.find path <;> rfl
    · split
      · exact moves_pure _
      · exact moves_throw _
  have hread : Moves Eq (readLines path) := by
    refine moves_bind hfile fun bytes => ?_
    split
    · exact moves_pure _
    · exact moves_throw _
  exact (hread h).symm

omit [IsPreorder Tree R] in
/-- Going on with the tree that a call leaves, or otherwise if it is refused. -/
theorem moves_call {call : Tree → Except IoError Tree} {k : IoError → Disk Unit}
    (hR : ∀ t u, call t = .ok u → R t u) (hk : ∀ e, Moves (Within R) (k e)) :
    Moves (Within R) (do
      match call (← tree) with
      | .ok t => modify fun h => { h with tree := t }
      | .error e => k e) := by
  refine moves_tree_bind fun h => ?_
  cases hc : call h.tree with
  | ok t => exact ⟨hR _ _ hc, rfl⟩
  | error e => exact hk e h

theorem moves_commit {path : Path} {call : Tree → Except IoError Tree}
    (hR : ∀ t u, call t = .ok u → R t u) : Moves (Within R) (commit path call) := by
  refine moves_tree_bind fun h => ?_
  cases hc : call h.tree with
  | ok t => exact ⟨hR _ _ hc, rfl⟩
  | error e => exact refl_of (Within R) h

theorem moves_settle (path step : Path) (e : IoError) : Moves (Within R) (settle path step e) := by
  refine moves_bind (moves_isDir step) fun b => ?_
  split
  · exact moves_pure _
  · exact moves_throw _

section MakeDirs

variable (hR : ∀ (p : Path) (t u : Tree), t.mkdir p = .ok u → R t u)

include hR

theorem moves_climb (path : Path) (steps : List Path) : Moves (Within R) (climb path steps) := by
  induction steps with
  | nil => exact moves_pure _
  | cons step above ih =>
    rw [climb]
    split
    · exact moves_pure _
    · refine moves_call (hR step) fun e => ?_
      split
      · exact moves_bind ih fun _ => moves_call (hR step) fun e => moves_settle path step e
      · exact moves_settle path step e

theorem moves_createDirs (path : Path) : Moves (Within R) (createDirs path) := by
  refine moves_bind (moves_isFile path) fun b => ?_
  split
  · exact moves_throw _
  · exact moves_climb hR path _

end MakeDirs

section Copy

theorem moves_examine (root : Path) (x : Address × Entry) : Moves (Within R) (examine root x) := by
  rw [examine]
  split
  · exact moves_pure _
  · exact moves_bind (moves_requireDir _) fun _ => moves_pure _
  · refine moves_bind moves_tree fun t => ?_
    split
    · exact moves_pure _
    · exact moves_bind (moves_note _ _) fun _ => moves_pure _
    · exact moves_bind (moves_note _ _) fun _ => moves_pure _

theorem moves_examineAll (root : Path) (xs : List (Address × Entry)) :
    Moves (Within R) (examineAll root xs) := by
  induction xs with
  | nil => exact moves_pure _
  | cons x xs ih =>
    exact moves_bind (moves_examine root x) fun _ => moves_bind ih fun _ => moves_pure _

theorem moves_snapshot (root : Path) : Moves (Within R) (snapshot root) :=
  moves_bind (moves_requireDir _) fun _ => moves_bind moves_tree fun _ => moves_examineAll root _

variable (hm : ∀ (p : Path) (t u : Tree), t.mkdir p = .ok u → R t u)
  (hf : ∀ (p : Path) (bytes : List UInt8) (t u : Tree),
    t.modifyFile p (fun _ => bytes) = .ok u → R t u)

include hf in
theorem moves_copyFile (source target : Path) : Moves (Within R) (copyFile source target) := by
  refine moves_bind moves_tree fun t => ?_
  split
  · exact moves_note _ _
  · refine moves_bind (moves_liftCall target _) fun x => ?_
    split
    · exact moves_commit (hf target _)
    · exact moves_throw _

include hm hf

theorem moves_copyItem (source target : Path) (item : Item) :
    Moves (Within R) (copyItem source target item) := by
  rw [copyItem]
  split
  · exact moves_createDirs hm _
  · exact moves_copyFile hf _ _

theorem moves_copyItems (source target : Path) (items : List Item) :
    Moves (Within R) (copyItems source target items) := by
  induction items with
  | nil => exact moves_pure _
  | cons item rest ih => exact moves_bind (moves_copyItem hm hf source target item) fun _ => ih

theorem moves_copy (source target : Path) : Moves (Within R) (copy source target) := by
  refine moves_bind moves_tree fun t => moves_bind (moves_liftCall source _) fun x => ?_
  split
  · split
    · exact moves_pure _
    · exact moves_bind (moves_snapshot source) fun items =>
        moves_bind (moves_createDirs hm target) fun _ => moves_copyItems hm hf source target items
  · exact moves_copyFile hf source target

end Copy

theorem moves_createFile (hR : ∀ (p : Path) (t u : Tree), t.createNew p = .ok u → R t u)
    (path : Path) : Moves (Within R) (createFile path) :=
  moves_commit (hR path)

theorem moves_deleteFile (hR : ∀ (p : Path) (t u : Tree), t.unlink p = .ok u → R t u)
    (path : Path) : Moves (Within R) (deleteFile path) :=
  moves_bind (moves_requireFile path) fun _ => moves_commit (hR path)

theorem moves_writeLines {mode : WriteMode}
    (hR : ∀ (p : Path) (content : List UInt8) (t u : Tree),
      t.modifyFile p (mode.apply content) = .ok u → R t u)
    (path : Path) (lines : List String) : Moves (Within R) (writeLines path lines mode) :=
  moves_commit (hR path _)

section Removal

variable (hrmdir : ∀ (p : Path) (t u : Tree), t.rmdir p = .ok u → R t u)

include hrmdir

theorem moves_removeEmptyDir (path : Path) : Moves (Within R) (removeEmptyDir path) := by
  refine moves_bind (moves_requireDir path) fun a => moves_bind moves_tree fun t => ?_
  split
  · exact moves_commit (hrmdir path)
  · exact moves_throw _

theorem moves_emptyAndRemove (hclear : ∀ (a : Address) (t : Tree), R t (t.clear a)) (path : Path)
    (a : Address) : Moves (Within R) (emptyAndRemove path a) := by
  refine moves_bind (moves_modify fun h => ⟨hclear a h.tree, rfl⟩) fun _ =>
    moves_call (hrmdir path) fun e => ?_
  split
  · exact moves_pure _
  · exact moves_throw _

theorem moves_removeTree (hunlink : ∀ (p : Path) (t u : Tree), t.unlink p = .ok u → R t u)
    (hclear : ∀ (a : Address) (t : Tree), R t (t.clear a)) (path : Path) :
    Moves (Within R) (removeTree path) := by
  refine moves_bind (moves_requireDir path) fun a => moves_bind moves_tree fun t =>
    moves_bind (moves_liftCall path _) fun b => ?_
  split
  · exact moves_commit (hunlink path)
  · exact moves_emptyAndRemove hrmdir hclear path a

end Removal

end

end Disk

end TreeShell
