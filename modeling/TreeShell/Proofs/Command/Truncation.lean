import TreeShell.Proofs.Shell.Truncation

/-!
# Commands on a limited output

Every built-in command, run on a limited output and on one without a limit, ends
alike or is cut. A command stops at the first write that fails: nothing catches
the fault but `Command.guarded`, and what that prints does not fit either
(`truncates_guarded`).
-/

namespace TreeShell.Command

open Shell

variable {limit : Nat} {already : Bool}

theorem truncates_changeDir (destination : Destination) :
    Truncates (comparison limit already) (changeDir destination) := by
  cases destination with
  | parent =>
    refine truncates_bind truncates_cwd fun here => ?_
    split
    · exact truncates_setCwd _
    · exact truncates_throw _
  | home =>
    refine truncates_get_bind (fun s => ?_) fun s s' h => by rw [h.host]
    split
    · exact truncates_setCwd _
    · exact truncates_throw _
  | dir arg =>
    refine truncates_bind (truncates_resolve arg) fun dir =>
      truncates_get_bind (fun s => ?_) fun s s' h => by rw [h.host]
    split
    · exact truncates_setCwd dir
    · exact truncates_printLine _

theorem truncates_list (reverse : Bool) : Truncates (comparison limit already) (list reverse) :=
  truncates_bind truncates_cwd fun _ => truncates_bind (truncates_doing _ _) fun _ =>
    truncates_printLines _

theorem truncates_makeDirs (dirs : List String) :
    Truncates (comparison limit already) (makeDirs dirs) := by
  induction dirs with
  | nil => exact truncates_pure _
  | cons arg rest ih =>
    refine truncates_bind (truncates_resolve arg) fun dir =>
      truncates_bind (truncates_attempt _) fun outcome => ?_
    split
    · exact truncates_bind (truncates_printLine _) fun _ => ih
    · exact truncates_bind (truncates_printLine _) fun _ => ih

theorem truncates_reportRemoval (dir : Path) :
    Truncates (comparison limit already) (reportRemoval dir) :=
  truncates_bind (truncates_printLine _) fun _ => truncates_recoverCwd

theorem truncates_removeDir (removal : Removal) :
    Truncates (comparison limit already) (removeDir removal) := by
  cases removal with
  | currentTree =>
    refine truncates_bind truncates_cwd fun dir => ?_
    split
    · exact truncates_throw _
    · exact truncates_bind (truncates_doing _ _) fun _ => truncates_reportRemoval dir
  | emptyDir arg =>
    refine truncates_bind (truncates_resolve arg) fun dir =>
      truncates_bind (truncates_attempt _) fun outcome => ?_
    split
    · exact truncates_reportRemoval dir
    · exact truncates_printLine _
    · exact truncates_printLine _
    · exact truncates_printLine _
    · exact truncates_throw _

theorem truncates_touchFile (arg : String) : Truncates (comparison limit already) (touchFile arg) :=
  truncates_bind (truncates_resolve arg) fun _ =>
    truncates_bind (truncates_doing _ _) fun _ => truncates_printLine _

theorem truncates_copy (source target : String) :
    Truncates (comparison limit already) (copy source target) :=
  truncates_bind (truncates_resolve source) fun _ => truncates_bind (truncates_resolve target)
    fun _ => truncates_bind (truncates_doing _ _) fun _ => truncates_printLine _

theorem truncates_removeFile (arg : String) :
    Truncates (comparison limit already) (removeFile arg) := by
  refine truncates_bind (truncates_resolve arg) fun path =>
    truncates_bind (truncates_attempt _) fun outcome => ?_
  split
  · exact truncates_printLine _
  · exact truncates_printLine _
  · exact truncates_printLine _
  · exact truncates_throw _

theorem truncates_readAll (args : List String) :
    Truncates (comparison limit already) (readAll args) := by
  induction args with
  | nil => exact truncates_pure _
  | cons arg rest ih =>
    exact truncates_bind (truncates_resolve arg) fun _ =>
      truncates_bind (truncates_doing _ _) fun _ => truncates_bind ih fun _ => truncates_pure _

theorem truncates_printFiles (args : List String) :
    Truncates (comparison limit already) (printFiles args) := by
  refine truncates_get_bind (fun s => ?_) fun s s' h => ?_
  · split
    · exact truncates_printLine _
    · exact truncates_bind (truncates_readAll args) fun _ => truncates_printLines _
  · simp only [firstMissing?, h.host, h.session]

theorem truncates_countFile (arg : String) :
    Truncates (comparison limit already) (countFile arg) := by
  refine truncates_bind (truncates_resolve arg) fun path =>
    truncates_bind (truncates_attempt _) fun outcome => ?_
  split
  · exact truncates_printLine _
  · exact truncates_printLine _
  · exact truncates_printLine _
  · exact truncates_throw _

theorem truncates_printHistory : Truncates (comparison limit already) printHistory :=
  truncates_get_bind (fun _ => truncates_printLines _) fun _ _ h => by rw [h.session]

theorem truncates_finishRedirect (mode : WriteMode) (arg : String)
    (answer : Except Fault (Option String)) :
    Truncates (comparison limit already) (finishRedirect mode arg answer) := by
  match answer with
  | .error e => exact truncates_throw e
  | .ok none => exact truncates_bind (truncates_printLine _) fun _ => truncates_printLine _
  | .ok (some content) =>
    exact truncates_bind (truncates_resolve arg) fun path =>
      truncates_bind (truncates_doing _ _) fun _ => truncates_printLine _

theorem truncates_run (command : Command) : Truncates (comparison limit already) command.run := by
  cases command with
  | echo message => exact truncates_printLine message
  | pwd => exact truncates_bind truncates_cwd fun _ => truncates_printLine _
  | cd destination => exact truncates_changeDir destination
  | ls reverse => exact truncates_list reverse
  | mkdir dirs => exact truncates_makeDirs dirs
  | rmdir removal => exact truncates_removeDir removal
  | touch file => exact truncates_touchFile file
  | cp source target => exact truncates_copy source target
  | rm file => exact truncates_removeFile file
  | cat files => exact truncates_printFiles files
  | wc file => exact truncates_countFile file
  | redirect mode file => exact truncates_pure ()
  | history => exact truncates_printHistory
  | exit => exact truncates_requestExit

/-- What is done about a fault: it is logged and printed. -/
def report (name : String) (e : Fault) : ShellM Unit := do
  note .debug (name ++ " failed: " ++ e.text)
  printLine e.text

theorem guarded_eq_handle (name : String) (body : ShellM Unit) :
    guarded name body = handle body pure (report name) := by
  funext s
  unfold guarded handle
  cases body s <;> rfl

theorem truncates_report (name : String) (e : Fault) :
    Truncates (comparison limit already) (report name e) :=
  truncates_bind (truncates_note _ _) fun _ => truncates_printLine _

/-- A run that is cut cannot print its fault, and so ends with it. -/
theorem exists_report_of_cut {s s' : Shell} (h : Cut limit s s') (name : String) (e : Fault) :
    ∃ t, report name e s = .error .outputClosed t ∧ Cut limit t s' := by
  have hnoted : Cut limit (s.noted .debug (name ++ " failed: " ++ e.text)) s' :=
    ⟨h.full, h.written, h.history, h.unlimited, h.exceeds, h.refused⟩
  refine ⟨_, ?_, hnoted.wrote (e.text ++ "\n")⟩
  exact (print_eq (e.text ++ "\n") _).trans (if_neg (hnoted.not_fits e.text))

/-- Printing the fault of a command does not hide that its output is full. -/
theorem truncates_guarded {body : ShellM Unit} (h : Truncates (comparison limit already) body)
    (name : String) : Truncates (comparison limit already) (guarded name body) := by
  rw [guarded_eq_handle]
  exact truncates_handle h truncates_pure (truncates_report name)
    fun s s' hcut => exists_report_of_cut hcut name .outputClosed

end TreeShell.Command
