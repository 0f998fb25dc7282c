import TreeShell.Proofs.Command.Records
import TreeShell.Proofs.Tree.Deeds

/-!
# What commands may do

`Command.deeds` is the table of what each command may do to the entries of the tree,
and `changesBy_body` says that it does nothing else, whatever its arguments and its
outcome, and whatever its paths lead to. A command without an entry in the table leaves
the very same tree. `touch` makes one file at most, and an empty one
(`touchFile_once`).

Of the session, only `cd` and `rmdir` change the current directory, only `exit` the
wish to exit, and none the history.
-/

namespace TreeShell.Command

open Shell

/-- What the command may do to the entries of the tree. -/
def deeds : Command → List Deed
  | .mkdir _ => [.makes .dir]
  | .rmdir .currentTree => [.removes .dir, .removes .file, .removes .link]
  | .rmdir (.emptyDir _) => [.removes .dir]
  | .touch _ => [.makes .file]
  | .cp _ _ => [.makes .dir, .makes .file, .rewrites]
  | .rm _ => [.removes .file, .removes .link]
  | .redirect .truncate _ => [.makes .file, .rewrites]
  | .redirect .append _ => [.makes .file, .appends]
  | .echo _ | .pwd | .cd _ | .ls _ | .cat _ | .wc _ | .history | .exit => []

section Table

variable {command : Command} {d : Deed} {kind : Kind}

theorem makes_link_not_mem_deeds (command : Command) : .makes .link ∉ command.deeds := by
  unfold deeds
  split <;> simp

theorem builtin_of_rewrites_mem_deeds (h : .rewrites ∈ command.deeds) :
    command.builtin = .overwrite ∨ command.builtin = .cp := by
  unfold deeds at h
  split at h <;> simp_all [builtin]

theorem builtin_of_appends_mem_deeds (h : .appends ∈ command.deeds) :
    command.builtin = .append := by
  unfold deeds at h
  split at h <;> simp_all [builtin]

theorem builtin_of_removes_dir_mem_deeds (h : .removes .dir ∈ command.deeds) :
    command.builtin = .rmdir := by
  unfold deeds at h
  split at h <;> simp_all [builtin]

theorem eq_of_removes_mem_deeds (h : .removes kind ∈ command.deeds) (hkind : kind ≠ .dir) :
    command.builtin = .rm ∨ command = .rmdir .currentTree := by
  unfold deeds at h
  split at h <;> simp_all [builtin]

theorem eq_makes_dir_of_mem_deeds (hmkdir : command.builtin = .mkdir) (h : d ∈ command.deeds) :
    d = .makes .dir := by
  unfold deeds at h
  split at h <;> simp_all [builtin]

theorem builtin_of_mem_deeds (h : d ∈ command.deeds) :
    command.builtin ∈ [.mkdir, .rmdir, .touch, .cp, .rm, .overwrite, .append] := by
  unfold deeds at h
  split at h <;> simp_all [builtin]

end Table

/-- What the command does once the line of content that a redirection asks for was
answered. -/
def body (answer : Except Fault (Option String)) : Command → ShellM Unit
  | .redirect mode file => finishRedirect mode file answer
  | command => command.run

variable {s : Shell} {command : Command} {answer : Except Fault (Option String)}

theorem body_of_ne_redirect (h : ∀ mode file, command ≠ .redirect mode file) :
    command.body answer = command.run := by
  cases command with
  | redirect mode file => exact absurd rfl (h mode file)
  | _ => rfl

section Tree

open TreeShell.Tree (ChangesBy)

/-- No command makes again what it removes. -/
instance isPreorder_deeds (command : Command) :
    IsPreorder Tree (ChangesBy (· ∈ command.deeds)) := by
  apply Tree.isPreorder_changesBy
  intro kind kind'
  cases command with
  | rmdir removal => cases removal <;> simp [deeds]
  | redirect mode file => cases mode <;> simp [deeds]
  | _ => simp [deeds]

/-- The trees are related by `R`, whatever else differs. -/
def Trees (R : Tree → Tree → Prop) (s s' : Shell) : Prop :=
  R s.host.tree s'.host.tree

instance isPreorder_trees (R : Tree → Tree → Prop) [IsPreorder Tree R] :
    IsPreorder Shell (Trees R) where
  refl s := refl_of R s.host.tree
  trans _ _ _ h h' := trans_of R h h'

theorem trees_of_within {R : Tree → Tree → Prop} {s s' : Shell} (h : Within R s s') :
    Trees R s s' :=
  h.host.tree

theorem moves_removeDir_deeds (removal : Removal) :
    Moves (Trees (ChangesBy (· ∈ (Command.rmdir removal).deeds))) (removeDir removal) := by
  let R := ChangesBy (· ∈ (Command.rmdir removal).deeds)
  have hset (dir : Path) : Moves (Trees R) (setCwd dir) := fun s => Tree.ChangesBy.refl _
  have hrmdir (p : Path) (t u : Tree) : t.rmdir p = .ok u → R t u := by
    apply Tree.changesBy_rmdir
    cases removal <;> simp [deeds]
  cases removal with
  | emptyDir arg => exact moves_removeDir_emptyDir (fun _ _ => trees_of_within) hset hrmdir arg
  | currentTree =>
    have hkinds (kind : Kind) : .removes kind ∈ (Command.rmdir .currentTree).deeds := by
      cases kind <;> simp [deeds]
    exact moves_removeDir (fun _ _ => trees_of_within) hset hrmdir
      (fun p t u => Tree.changesBy_unlink fun kind _ => hkinds kind)
      (fun a t => Tree.changesBy_clear hkinds t a) .currentTree

theorem moves_finishRedirect_deeds (mode : WriteMode) (file : String)
    (answer : Except Fault (Option String)) :
    Moves (Within (ChangesBy (· ∈ (Command.redirect mode file).deeds)))
      (finishRedirect mode file answer) := by
  apply moves_finishRedirect
  intro p content t u
  cases mode with
  | truncate =>
    exact Tree.changesBy_modifyFile (by simp [deeds])
      fun bytes => ⟨.rewrites, by simp [deeds], .rewrites bytes content⟩
  | append =>
    exact Tree.changesBy_modifyFile (by simp [deeds])
      fun bytes => ⟨.appends, by simp [deeds], .appends bytes content⟩

theorem moves_run_deeds (command : Command) :
    Moves (Trees (ChangesBy (· ∈ command.deeds))) command.run := by
  intro s
  cases command with
  | echo message => exact trees_of_within (moves_printLine message s)
  | pwd => exact trees_of_within (moves_bind moves_cwd (fun dir => moves_printLine dir.text) s)
  | cd destination =>
    exact moves_changeDir (fun _ _ => trees_of_within) (fun dir s => Tree.ChangesBy.refl _)
      destination s
  | ls reverse => exact trees_of_within (moves_list reverse s)
  | mkdir dirs =>
    have hmkdir (p : Path) (t u : Tree) (h : t.mkdir p = .ok u) :
        ChangesBy (· ∈ (Command.mkdir dirs).deeds) t u :=
      Tree.changesBy_mkdir (by simp [deeds]) h
    exact trees_of_within (moves_makeDirs hmkdir dirs s)
  | rmdir removal => exact moves_removeDir_deeds removal s
  | touch file =>
    have hcreate (p : Path) (t u : Tree) (h : t.createNew p = .ok u) :
        ChangesBy (· ∈ (Command.touch file).deeds) t u :=
      Tree.changesBy_createNew (by simp [deeds]) h
    exact trees_of_within (moves_touchFile hcreate file s)
  | cp source target =>
    have hmkdir (p : Path) (t u : Tree) (h : t.mkdir p = .ok u) :
        ChangesBy (· ∈ (Command.cp source target).deeds) t u :=
      Tree.changesBy_mkdir (by simp [deeds]) h
    have hmodify (p : Path) (content : List UInt8) (t u : Tree)
        (h : t.modifyFile p (fun _ => content) = .ok u) :
        ChangesBy (· ∈ (Command.cp source target).deeds) t u :=
      Tree.changesBy_modifyFile (by simp [deeds])
        (fun bytes => ⟨.rewrites, by simp [deeds], .rewrites bytes content⟩) h
    exact trees_of_within (moves_copy hmkdir hmodify source target s)
  | rm file =>
    have hunlink (p : Path) (t u : Tree) (h : t.unlink p = .ok u) :
        ChangesBy (· ∈ (Command.rm file).deeds) t u := by
      refine Tree.changesBy_unlink (fun kind hkind => ?_) h
      cases kind with
      | dir => exact absurd rfl hkind
      | _ => simp [deeds]
    exact trees_of_within (moves_removeFile hunlink file s)
  | cat files => exact trees_of_within (moves_printFiles files s)
  | wc file => exact trees_of_within (moves_countFile file s)
  | redirect mode file => exact Tree.ChangesBy.refl _
  | history => exact trees_of_within (moves_printHistory s)
  | exit => exact Tree.ChangesBy.refl _

/-- A command does to the entries what its deeds say and nothing else. -/
theorem changesBy_body (command : Command) (answer : Except Fault (Option String)) (s : Shell) :
    ChangesBy (· ∈ command.deeds) s.host.tree
      (outcomeState (command.body answer s)).host.tree := by
  by_cases hredirect : ∃ mode file, command = .redirect mode file
  · obtain ⟨mode, file, rfl⟩ := hredirect
    exact trees_of_within (moves_finishRedirect_deeds mode file answer s)
  · rw [body_of_ne_redirect fun mode file hc => hredirect ⟨mode, file, hc⟩]
    exact moves_run_deeds command s

/-- At most one file is made, and it is empty. -/
theorem touchFile_once (file : String) (s : Shell) :
    (outcomeState (touchFile file s)).host.tree = s.host.tree ∨
      ∃ a, s.host.tree.entry? a = none ∧
        s.host.tree.Written a [] (outcomeState (touchFile file s)).host.tree := by
  rw [touchFile, bind_of_ok (resolve_eq file s)]
  let path := s.session.resolve file
  cases hcall : s.host.tree.createNew path with
  | error e =>
    have herror : Disk.createFile path s.host = .error (.ofIo path e) s.host :=
      Disk.commit_of_error hcall
    rw [bind_of_error (doing_of_error herror)]
    exact Or.inl rfl
  | ok u =>
    have hok : Disk.createFile path s.host = .ok () { s.host with tree := u } :=
      Disk.commit_of_ok hcall
    rw [bind_of_ok (doing_of_ok hok), outcomeState_printLine]
    obtain ⟨a, -, hnone, hwritten⟩ := Tree.exists_written_of_createNew hcall
    exact Or.inr ⟨a, hnone, hwritten⟩

end Tree

section Session

/-- Only `exit` touches the records. -/
theorem sameRecords_body (h : command ≠ .exit) :
    SameRecords s (outcomeState (command.body answer s)) := by
  by_cases hredirect : ∃ mode file, command = .redirect mode file
  · obtain ⟨mode, file, rfl⟩ := hredirect
    exact moves_finishRedirect_sameRecords mode file answer s
  · rw [body_of_ne_redirect fun mode file hc => hredirect ⟨mode, file, hc⟩]
    exact moves_run_sameRecords h s

theorem history_body (command : Command) (answer : Except Fault (Option String)) (s : Shell) :
    (outcomeState (command.body answer s)).session.history = s.session.history := by
  by_cases h : command = .exit
  · subst h
    rfl
  · exact (sameRecords_body h).history

theorem exiting_body (command : Command) (answer : Except Fault (Option String)) (s : Shell) :
    (outcomeState (command.body answer s)).session.exiting = true ↔
      s.session.exiting = true ∨ command = .exit := by
  by_cases h : command = .exit
  · subst h
    exact iff_of_true rfl (Or.inr rfl)
  · rw [(sameRecords_body h).exiting, or_iff_left h]

theorem cwd_body (hcd : command.builtin ≠ .cd) (hrmdir : command.builtin ≠ .rmdir) :
    (outcomeState (command.body answer s)).session.cwd = s.session.cwd := by
  by_cases hexit : command = .exit
  · subst hexit
    rfl
  by_cases hredirect : ∃ mode file, command = .redirect mode file
  · obtain ⟨mode, file, rfl⟩ := hredirect
    have hwithin : Within AnyTrees s (outcomeState (finishRedirect mode file answer s)) :=
      moves_finishRedirect (fun _ _ t u _ => anyTrees t u) file answer s
    exact congrArg Session.cwd hwithin.session
  · rw [body_of_ne_redirect fun mode file hc => hredirect ⟨mode, file, hc⟩]
    have hcalls := holdsOfCalls_anyTrees
    have hwithin : Within AnyTrees s (outcomeState (command.run s)) := by
      refine related_run (fun _ _ h => h) hcalls.mkdir hcalls.createNew
        (fun p bytes => hcalls.modifyFile p fun _ => bytes) hcalls.unlink ?_ ?_
        fun h => absurd h hexit
      · rintro destination rfl
        exact absurd rfl hcd
      · rintro removal rfl
        exact absurd rfl hrmdir
    exact congrArg Session.cwd hwithin.session

end Session

end TreeShell.Command
