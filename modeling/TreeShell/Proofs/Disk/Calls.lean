import TreeShell.Disk.Basic
import TreeShell.Proofs.Computation

/-!
# Operations made of one call

What the steps of a file operation give when the answer of the tree is known.
A step that only reads, and a call that is refused, leave the host as it is.
-/

namespace TreeShell.Disk

variable {h : Host} {path : Path} {a : Address}

theorem tree_bind {β : Type} (f : Tree → Disk β) (h : Host) : (tree >>= f) h = f h.tree h :=
  rfl

theorem liftCall_of_ok {α : Type} {answer : Except IoError α} {x : α} (hc : answer = .ok x) :
    liftCall path answer h = .ok x h := by
  rw [hc]
  rfl

theorem liftCall_of_error {α : Type} {answer : Except IoError α} {e : IoError}
    (hc : answer = .error e) : liftCall path answer h = .error (.ofIo path e) h := by
  rw [hc]
  rfl

theorem liftCall_eq_ok {α : Type} {answer : Except IoError α} {x : α} {h' : Host}
    (hok : liftCall path answer h = .ok x h') : answer = .ok x ∧ h' = h := by
  cases answer with
  | error e => cases hok
  | ok y =>
    cases hok
    exact ⟨rfl, rfl⟩

theorem requireDir_of_find (hf : h.tree.find path = .ok (a, .dir)) :
    requireDir path h = .ok a h := by
  rw [requireDir, tree_bind, bind_of_ok (liftCall_of_ok hf)]
  rfl

theorem requireDir_cases (path : Path) (h : Host) :
    (∃ a, h.tree.find path = .ok (a, .dir) ∧ requireDir path h = .ok a h) ∨
      ∃ e, requireDir path h = .error e h := by
  cases hf : h.tree.find path with
  | error e =>
    rw [requireDir, tree_bind, bind_of_error (liftCall_of_error hf)]
    exact Or.inr ⟨_, rfl⟩
  | ok x =>
    obtain ⟨a, x⟩ := x
    cases x with
    | dir => exact Or.inl ⟨a, rfl, requireDir_of_find hf⟩
    | file bytes =>
      rw [requireDir, tree_bind, bind_of_ok (liftCall_of_ok hf)]
      exact Or.inr ⟨_, rfl⟩
    | link target =>
      rw [requireDir, tree_bind, bind_of_ok (liftCall_of_ok hf)]
      exact Or.inr ⟨_, rfl⟩

theorem requireDir_eq_ok {h' : Host} (hok : requireDir path h = .ok a h') :
    h.tree.find path = .ok (a, .dir) ∧ h' = h := by
  rcases requireDir_cases path h with ⟨c, hfind, hc⟩ | ⟨e, he⟩
  · rw [hc] at hok
    cases hok
    exact ⟨hfind, rfl⟩
  · rw [he] at hok
    cases hok

theorem requireFile_of_find {bytes : List UInt8} (hf : h.tree.find path = .ok (a, .file bytes)) :
    requireFile path h = .ok bytes h := by
  rw [requireFile, tree_bind, bind_of_ok (liftCall_of_ok hf)]
  rfl

theorem requireFile_of_error {e : IoError} (hf : h.tree.find path = .error e) :
    requireFile path h = .error (.ofIo path e) h := by
  rw [requireFile, tree_bind, bind_of_error (liftCall_of_error hf)]

theorem requireFile_cases (path : Path) (h : Host) :
    (∃ a bytes, h.tree.find path = .ok (a, .file bytes) ∧ requireFile path h = .ok bytes h) ∨
      ∃ e, requireFile path h = .error e h := by
  cases hf : h.tree.find path with
  | error e => exact Or.inr ⟨_, requireFile_of_error hf⟩
  | ok x =>
    obtain ⟨a, x⟩ := x
    cases x with
    | file bytes => exact Or.inl ⟨a, bytes, rfl, requireFile_of_find hf⟩
    | dir =>
      rw [requireFile, tree_bind, bind_of_ok (liftCall_of_ok hf)]
      exact Or.inr ⟨_, rfl⟩
    | link target =>
      rw [requireFile, tree_bind, bind_of_ok (liftCall_of_ok hf)]
      exact Or.inr ⟨_, rfl⟩

theorem commit_of_ok {call : Tree → Except IoError Tree} {t : Tree} (hc : call h.tree = .ok t) :
    commit path call h = .ok () { h with tree := t } := by
  rw [commit, tree_bind, bind_of_ok (liftCall_of_ok hc)]
  rfl

theorem commit_of_error {call : Tree → Except IoError Tree} {e : IoError}
    (hc : call h.tree = .error e) : commit path call h = .error (.ofIo path e) h := by
  rw [commit, tree_bind, bind_of_error (liftCall_of_error hc)]

theorem commit_eq_ok {call : Tree → Except IoError Tree} {h' : Host}
    (hok : commit path call h = .ok () h') :
    ∃ t, call h.tree = .ok t ∧ h' = { h with tree := t } := by
  cases hc : call h.tree with
  | error e =>
    rw [commit_of_error hc] at hok
    cases hok
  | ok t =>
    rw [commit_of_ok hc] at hok
    cases hok
    exact ⟨t, rfl, rfl⟩

end TreeShell.Disk
