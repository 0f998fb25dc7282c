import TreeShell.Proofs.Disk.Frame

/-!
# File operations depend on the tree only

From hosts with the same tree a file operation gives the same outcome and leaves the
same tree, whatever home directory the hosts know and whatever they have logged. Like
a frame condition this is put together from the parts of an operation: a computation
that `Respects` a relation of states ends alike from states so related.
-/

namespace TreeShell

section Respects

variable {ε σ α β : Type}

/-- Both computations ended with the same value or the same failure, in states that `R`
relates. -/
inductive Alike (R : σ → σ → Prop) :
    EStateM.Result ε σ α → EStateM.Result ε σ α → Prop
  | ok {a : α} {s s' : σ} (h : R s s') : Alike R (.ok a s) (.ok a s')
  | error {e : ε} {s s' : σ} (h : R s s') : Alike R (.error e s) (.error e s')

/-- From states that `R` relates the computation ends alike. -/
def Respects (R : σ → σ → Prop) (m : EStateM ε σ α) : Prop :=
  ∀ s s', R s s' → Alike R (m s) (m s')

variable {R : σ → σ → Prop} {m : EStateM ε σ α} {f : α → EStateM ε σ β}

theorem respects_pure (a : α) : Respects R (pure a : EStateM ε σ α) :=
  fun _ _ h => .ok h

theorem respects_throw (e : ε) : Respects R (throw e : EStateM ε σ α) :=
  fun _ _ h => .error h

theorem respects_modify {g : σ → σ} (h : ∀ s s', R s s' → R (g s) (g s')) :
    Respects R (modify g : EStateM ε σ PUnit) :=
  fun s s' hs => .ok (h s s' hs)

theorem respects_bind (hm : Respects R m) (hf : ∀ a, Respects R (f a)) :
    Respects R (m >>= f) := by
  intro s s' h
  have halike := hm s s' h
  cases hs : m s with
  | ok a t =>
    cases hs' : m s' with
    | ok b t' =>
      rw [hs, hs'] at halike
      rw [bind_of_ok hs, bind_of_ok hs']
      cases halike with
      | ok ht => exact hf a t t' ht
    | error e t' =>
      rw [hs, hs'] at halike
      cases halike
  | error e t =>
    cases hs' : m s' with
    | ok b t' =>
      rw [hs, hs'] at halike
      cases halike
    | error e' t' =>
      rw [hs, hs'] at halike
      rw [bind_of_error hs, bind_of_error hs']
      cases halike with
      | error ht => exact .error ht

end Respects

/-- The trees are the same. -/
def Host.SameTree (h h' : Host) : Prop :=
  h.tree = h'.tree

namespace Disk

open Host (SameTree)

variable {α β : Type}

theorem respects_tree_bind {f : Tree → Disk β} (hf : ∀ t, Respects SameTree (f t)) :
    Respects SameTree (tree >>= f) := by
  intro h h' hsame
  have halike := hf h.tree h h' hsame
  have hread : f h'.tree h' = f h.tree h' := by rw [hsame]
  change Alike SameTree (f h.tree h) (f h'.tree h')
  rw [hread]
  exact halike

theorem respects_note (level : LogLevel) (message : String) :
    Respects SameTree (note level message) :=
  respects_modify fun _ _ h => h

/-- Another tree in place of the old one is the same in both hosts. -/
theorem respects_setTree (t : Tree) :
    Respects SameTree (modify fun h => { h with tree := t } : Disk PUnit) :=
  respects_modify fun _ _ _ => rfl

theorem respects_liftCall (path : Path) (answer : Except IoError α) :
    Respects SameTree (liftCall path answer) := by
  cases answer with
  | ok a => exact respects_pure a
  | error e => exact respects_throw _

theorem respects_commit (path : Path) (call : Tree → Except IoError Tree) :
    Respects SameTree (commit path call) :=
  respects_tree_bind fun _ => respects_bind (respects_liftCall path _) respects_setTree

theorem respects_requireDir (path : Path) : Respects SameTree (requireDir path) := by
  refine respects_tree_bind fun t => respects_bind (respects_liftCall path _) fun x => ?_
  split
  · exact respects_pure _
  · exact respects_throw _

theorem respects_requireFile (path : Path) : Respects SameTree (requireFile path) := by
  refine respects_tree_bind fun t => respects_bind (respects_liftCall path _) fun x => ?_
  split
  · exact respects_pure _
  · exact respects_throw _

theorem respects_isDir (path : Path) : Respects SameTree (isDir path) :=
  respects_tree_bind fun _ => respects_pure _

theorem respects_isFile (path : Path) : Respects SameTree (isFile path) :=
  respects_tree_bind fun _ => respects_pure _

section Directories

/-- Going on with the tree that a call leaves, or otherwise if it is refused. -/
theorem respects_call {call : Tree → Except IoError Tree} {k : IoError → Disk Unit}
    (hk : ∀ e, Respects SameTree (k e)) :
    Respects SameTree (do
      match call (← tree) with
      | .ok t => modify fun h => { h with tree := t }
      | .error e => k e) := by
  refine respects_tree_bind fun t => ?_
  cases call t with
  | ok u => exact respects_setTree u
  | error e => exact hk e

theorem respects_settle (path step : Path) (e : IoError) :
    Respects SameTree (settle path step e) := by
  refine respects_bind (respects_isDir step) fun b => ?_
  split
  · exact respects_pure _
  · exact respects_throw _

theorem respects_climb (path : Path) (steps : List Path) :
    Respects SameTree (climb path steps) := by
  induction steps with
  | nil => exact respects_pure _
  | cons step above ih =>
    rw [climb]
    split
    · exact respects_pure _
    · refine respects_call fun e => ?_
      split
      · exact respects_bind ih fun _ => respects_call fun e => respects_settle path step e
      · exact respects_settle path step e

theorem respects_createDirs (path : Path) : Respects SameTree (createDirs path) := by
  refine respects_bind (respects_isFile path) fun b => ?_
  split
  · exact respects_throw _
  · exact respects_climb path _

theorem respects_removeEmptyDir (path : Path) : Respects SameTree (removeEmptyDir path) := by
  refine respects_bind (respects_requireDir path) fun a => respects_tree_bind fun t => ?_
  split
  · exact respects_commit path _
  · exact respects_throw _

end Directories

section Files

theorem respects_createFile (path : Path) : Respects SameTree (createFile path) :=
  respects_commit path _

theorem respects_deleteFile (path : Path) : Respects SameTree (deleteFile path) :=
  respects_bind (respects_requireFile path) fun _ => respects_commit path _

theorem respects_readLines (path : Path) : Respects SameTree (readLines path) := by
  refine respects_bind (respects_requireFile path) fun bytes => ?_
  split
  · exact respects_pure _
  · exact respects_throw _

theorem respects_writeLines (path : Path) (lines : List String) (mode : WriteMode) :
    Respects SameTree (writeLines path lines mode) :=
  respects_commit path _

end Files

section Copy

theorem respects_examine (root : Path) (x : Address × Entry) :
    Respects SameTree (examine root x) := by
  rw [examine]
  split
  · exact respects_pure _
  · exact respects_bind (respects_requireDir _) fun _ => respects_pure _
  · refine respects_tree_bind fun t => ?_
    split
    · exact respects_pure _
    · exact respects_bind (respects_note _ _) fun _ => respects_pure _
    · exact respects_bind (respects_note _ _) fun _ => respects_pure _

theorem respects_examineAll (root : Path) (xs : List (Address × Entry)) :
    Respects SameTree (examineAll root xs) := by
  induction xs with
  | nil => exact respects_pure _
  | cons x xs ih =>
    exact respects_bind (respects_examine root x) fun _ => respects_bind ih fun _ =>
      respects_pure _

theorem respects_snapshot (root : Path) : Respects SameTree (snapshot root) :=
  respects_bind (respects_requireDir _) fun _ => respects_tree_bind fun _ =>
    respects_examineAll root _

theorem respects_copyFile (source target : Path) :
    Respects SameTree (copyFile source target) := by
  refine respects_tree_bind fun t => ?_
  split
  · exact respects_note _ _
  · refine respects_bind (respects_liftCall target _) fun x => ?_
    split
    · exact respects_commit target _
    · exact respects_throw _

theorem respects_copyItems (source target : Path) (items : List Item) :
    Respects SameTree (copyItems source target items) := by
  induction items with
  | nil => exact respects_pure _
  | cons item rest ih =>
    refine respects_bind ?_ fun _ => ih
    rw [copyItem]
    split
    · exact respects_createDirs _
    · exact respects_copyFile _ _

theorem respects_copy (source target : Path) : Respects SameTree (copy source target) := by
  refine respects_tree_bind fun t => respects_bind (respects_liftCall source _) fun x => ?_
  split
  · split
    · exact respects_pure _
    · exact respects_bind (respects_snapshot source) fun items =>
        respects_bind (respects_createDirs target) fun _ =>
          respects_copyItems source target items
  · exact respects_copyFile source target

end Copy

section Outcome

/-- An operation that depends on the tree only ends in the same way on all hosts with
the tree. -/
theorem ok_or_error_of_respects {operation : Disk α} (h : Respects SameTree operation)
    (t : Tree) :
    (∃ a u, ∀ host : Host, host.tree = t →
      ∃ host', host'.tree = u ∧ operation host = .ok a host') ∨
    ∃ e u, ∀ host : Host, host.tree = t →
      ∃ host', host'.tree = u ∧ operation host = .error e host' := by
  -- the host without a home and a log stands for all of them
  have halike (host : Host) (hhost : host.tree = t) := h { tree := t } host hhost.symm
  cases hop : operation { tree := t } with
  | ok a first =>
    refine Or.inl ⟨a, first.tree, fun host hhost => ?_⟩
    have hsame := halike host hhost
    rw [hop] at hsame
    generalize hrun : operation host = r at hsame
    cases hsame with
    | ok htree => exact ⟨_, htree.symm, rfl⟩
  | error e first =>
    refine Or.inr ⟨e, first.tree, fun host hhost => ?_⟩
    have hsame := halike host hhost
    rw [hop] at hsame
    generalize hrun : operation host = r at hsame
    cases hsame with
    | error htree => exact ⟨_, htree.symm, rfl⟩

theorem readLines_ok_or_error (path : Path) (t : Tree) :
    (∃ lines, ∀ host : Host, host.tree = t → readLines path host = .ok lines host) ∨
      ∃ e, ∀ host : Host, host.tree = t → readLines path host = .error e host := by
  rcases ok_or_error_of_respects (respects_readLines path) t with
    ⟨lines, _, hrun⟩ | ⟨e, _, hrun⟩
  · refine Or.inl ⟨lines, fun host hhost => ?_⟩
    obtain ⟨host', -, hok⟩ := hrun host hhost
    have hstate := outcomeState_readLines path host
    rw [hok] at hstate
    rw [hok, ← hstate]
    rfl
  · refine Or.inr ⟨e, fun host hhost => ?_⟩
    obtain ⟨host', -, herror⟩ := hrun host hhost
    have hstate := outcomeState_readLines path host
    rw [herror] at hstate
    rw [herror, ← hstate]
    rfl

end Outcome

end Disk

end TreeShell
