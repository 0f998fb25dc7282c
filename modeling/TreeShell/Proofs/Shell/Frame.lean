import TreeShell.Command.Run
import TreeShell.Proofs.Disk.Frame

/-!
# What commands leave alone

`Shell.Within R` relates two shells that differ in the tree, the log and the
output only, with trees related by `R`. A command that goes nowhere, that is
any but `cd`, `rmdir` and `exit`, keeps within `R` when its file operations do.
A command that only reads keeps within equality.

Printing writes to the output and does nothing else; it fails when the text
does not fit (`print_eq`).
-/

namespace TreeShell

/-- Nothing but the tree, the log and the output differs, and the trees are
related by `R`. An output without a limit has none afterwards. -/
structure Shell.Within (R : Tree → Tree → Prop) (s s' : Shell) : Prop where
  host : Host.Within R s.host s'.host
  session : s'.session = s.session
  unlimited : s.out.room? = none → s'.out.room? = none

@[simp] theorem Sink.write_nil (k : Sink) : k.write [] = k := by
  obtain ⟨room?, written, refused⟩ := k
  cases room? <;> simp [write]

/-- After a write that does not fit nothing more is taken. -/
theorem Sink.write_write_of_not_fits {k : Sink} {bytes : List UInt8} (h : ¬ k.Fits bytes)
    (more : List UInt8) : (k.write bytes).write more = k.write bytes := by
  cases hr : k.room? with
  | none => exact absurd (by simp [Fits, hr]) h
  | some room =>
    have hlt : room < bytes.length := by
      by_contra hle
      apply h
      intro room' hr'
      rw [hr, Option.some.injEq] at hr'
      omega
    have hfull : room - bytes.length = 0 := by omega
    simp [write, hr, hfull, hlt]

namespace Shell

/-- The shell with a text written to its output. -/
def wrote (s : Shell) (text : String) : Shell :=
  { s with out := s.out.write (Text.encode text) }

/-- The shell with one more log message. -/
def noted (s : Shell) (level : LogLevel) (message : String) : Shell :=
  { s with host := s.host.note level message }

/-- The shell with one more line in its history. -/
def recorded (s : Shell) (line : String) : Shell :=
  { s with session := s.session.record line }

theorem print_eq (text : String) (s : Shell) :
    print text s = if s.out.Fits (Text.encode text) then .ok () (s.wrote text)
      else .error .outputClosed (s.wrote text) := by
  change (if s.out.Fits (Text.encode text) then pure () else throw Fault.outputClosed : ShellM Unit)
    (s.wrote text) = _
  split <;> rfl

@[simp] theorem outcomeState_print (text : String) (s : Shell) :
    outcomeState (print text s) = s.wrote text := by
  rw [print_eq]
  split <;> rfl

@[simp] theorem outcomeState_printLine (text : String) (s : Shell) :
    outcomeState (printLine text s) = s.wrote (text ++ "\n") :=
  outcomeState_print _ s

theorem fits_of_unlimited {s : Shell} (h : s.out.room? = none) (bytes : List UInt8) :
    s.out.Fits bytes := by
  simp [Sink.Fits, h]

/-- Without a limit printing succeeds. -/
theorem printLine_of_unlimited {s : Shell} (h : s.out.room? = none) (text : String) :
    printLine text s = .ok () (s.wrote (text ++ "\n")) := by
  rw [printLine, print_eq, if_pos (fits_of_unlimited h _)]

theorem unlimited_write {k : Sink} (h : k.room? = none) (bytes : List UInt8) :
    (k.write bytes).room? = none := by
  simp [Sink.write, h]

theorem write_inj_of_unlimited {k : Sink} (h : k.room? = none) {bytes bytes' : List UInt8} :
    k.write bytes = k.write bytes' ↔ bytes = bytes' := by
  simp [Sink.write, h]

theorem resolve_eq (arg : String) (s : Shell) :
    resolve arg s = .ok (s.session.resolve arg) s :=
  rfl

theorem cwd_eq (s : Shell) : cwd s = .ok s.session.cwd s :=
  rfl

variable {α : Type} {R : Tree → Tree → Prop}

variable [IsPreorder Tree R]

instance : IsPreorder Shell (Within R) where
  refl s := ⟨refl_of (Host.Within R) s.host, rfl, id⟩
  trans _ _ _ h h' := ⟨trans_of (Host.Within R) h.host h'.host, h'.session.trans h.session,
    h'.unlimited ∘ h.unlimited⟩

theorem within_wrote (s : Shell) (text : String) : Within R s (s.wrote text) :=
  ⟨refl_of (Host.Within R) s.host, rfl, fun h => unlimited_write h _⟩

theorem within_noted (s : Shell) (level : LogLevel) (message : String) :
    Within R s (s.noted level message) :=
  ⟨⟨refl_of R s.host.tree, rfl⟩, rfl, id⟩

theorem moves_print (text : String) : Moves (Within R) (print text) := by
  intro s
  rw [outcomeState_print]
  exact within_wrote s text

theorem moves_printLine (text : String) : Moves (Within R) (printLine text) :=
  moves_print _

theorem moves_printLines (texts : List String) : Moves (Within R) (printLines texts) := by
  induction texts with
  | nil => exact moves_pure _
  | cons text rest ih => exact moves_bind (moves_printLine text) fun _ => ih

theorem moves_note (level : LogLevel) (message : String) :
    Moves (Within R) (note level message) :=
  fun s => within_noted s level message

theorem moves_resolve (arg : String) : Moves (Within R) (resolve arg) :=
  moves_bind (moves_get_bind fun s => refl_of (Within R) s) fun _ => moves_pure _

theorem moves_cwd : Moves (Within R) cwd :=
  fun s => refl_of (Within R) s

/-- A file operation ends on the host that it leaves, and gives its outcome. -/
theorem attempt_eq (operation : Disk α) (s : Shell) :
    attempt operation s = .ok (match operation s.host with
      | .ok a _ => .ok a
      | .error e _ => .error e) { s with host := outcomeState (operation s.host) } := by
  change (match operation s.host with
    | .ok a host => (do set { s with host := host }; pure (.ok a) : ShellM (Except FsError α))
    | .error e host => (do set { s with host := host }; pure (.error e))) s = _
  cases operation s.host <;> rfl

section Outcome

variable {task : Task} {operation : Disk α} {s : Shell} {a : α} {e : FsError} {host : Host}

theorem attempt_of_ok (h : operation s.host = .ok a host) :
    attempt operation s = .ok (.ok a) { s with host := host } := by
  rw [attempt_eq, h]
  rfl

theorem attempt_of_error (h : operation s.host = .error e host) :
    attempt operation s = .ok (.error e) { s with host := host } := by
  rw [attempt_eq, h]
  rfl

theorem doing_of_ok (h : operation s.host = .ok a host) :
    doing task operation s = .ok a { s with host := host } :=
  bind_of_ok (attempt_of_ok h)

theorem doing_of_error (h : operation s.host = .error e host) :
    doing task operation s = .error (.failed task (.file e)) { s with host := host } :=
  bind_of_ok (attempt_of_error h)

end Outcome

omit [IsPreorder Tree R] in
theorem moves_attempt {operation : Disk α} (h : Moves (Host.Within R) operation) :
    Moves (Within R) (attempt operation) := by
  intro s
  rw [attempt_eq]
  exact ⟨h s.host, rfl, id⟩

theorem moves_doing {operation : Disk α} (task : Task) (h : Moves (Host.Within R) operation) :
    Moves (Within R) (doing task operation) := by
  refine moves_bind (moves_attempt h) fun outcome => ?_
  split
  · exact moves_pure _
  · exact moves_throw _

end Shell

namespace Command

open Shell

variable {R : Tree → Tree → Prop} [IsPreorder Tree R]

theorem moves_list (reverse : Bool) : Moves (Within R) (list reverse) :=
  moves_bind moves_cwd fun _ => moves_bind (moves_doing _ (Disk.moves_listDir _)) fun _ =>
    moves_printLines _

theorem moves_readAll (args : List String) : Moves (Within R) (readAll args) := by
  induction args with
  | nil => exact moves_pure _
  | cons arg rest ih =>
    exact moves_bind (moves_resolve arg) fun _ =>
      moves_bind (moves_doing _ (Disk.moves_readLines _)) fun _ =>
        moves_bind ih fun _ => moves_pure _

theorem moves_printFiles (args : List String) : Moves (Within R) (printFiles args) := by
  refine moves_get_bind fun s => ?_
  cases firstMissing? s args with
  | some arg => exact moves_printLine _ s
  | none => exact moves_bind (moves_readAll args) (fun _ => moves_printLines _) s

theorem moves_countFile (arg : String) : Moves (Within R) (countFile arg) := by
  refine moves_bind (moves_resolve arg) fun path =>
    moves_bind (moves_attempt (Disk.moves_readLines path)) fun outcome => ?_
  split
  · exact moves_printLine _
  · exact moves_printLine _
  · exact moves_printLine _
  · exact moves_throw _

theorem moves_printHistory : Moves (Within R) printHistory :=
  moves_get_bind fun s => moves_printLines _ s

theorem moves_makeDirs (hR : ∀ (p : Path) (t u : Tree), t.mkdir p = .ok u → R t u)
    (dirs : List String) : Moves (Within R) (makeDirs dirs) := by
  induction dirs with
  | nil => exact moves_pure _
  | cons arg rest ih =>
    refine moves_bind (moves_resolve arg) fun dir =>
      moves_bind (moves_attempt (Disk.moves_createDirs hR dir)) fun outcome => ?_
    split
    · exact moves_bind (moves_printLine _) fun _ => ih
    · exact moves_bind (moves_printLine _) fun _ => ih

theorem moves_touchFile (hR : ∀ (p : Path) (t u : Tree), t.createNew p = .ok u → R t u)
    (arg : String) : Moves (Within R) (touchFile arg) :=
  moves_bind (moves_resolve arg) fun path =>
    moves_bind (moves_doing _ (Disk.moves_createFile hR path)) fun _ => moves_printLine _

theorem moves_copy (hm : ∀ (p : Path) (t u : Tree), t.mkdir p = .ok u → R t u)
    (hf : ∀ (p : Path) (bytes : List UInt8) (t u : Tree),
      t.modifyFile p (fun _ => bytes) = .ok u → R t u)
    (source target : String) : Moves (Within R) (copy source target) :=
  moves_bind (moves_resolve source) fun _ => moves_bind (moves_resolve target) fun _ =>
    moves_bind (moves_doing _ (Disk.moves_copy hm hf _ _)) fun _ => moves_printLine _

theorem moves_removeFile (hR : ∀ (p : Path) (t u : Tree), t.unlink p = .ok u → R t u)
    (arg : String) : Moves (Within R) (removeFile arg) := by
  refine moves_bind (moves_resolve arg) fun path =>
    moves_bind (moves_attempt (Disk.moves_deleteFile hR path)) fun outcome => ?_
  split
  · exact moves_printLine _
  · exact moves_printLine _
  · exact moves_printLine _
  · exact moves_throw _

theorem moves_finishRedirect {mode : WriteMode}
    (hR : ∀ (p : Path) (content : List UInt8) (t u : Tree),
      t.modifyFile p (mode.apply content) = .ok u → R t u)
    (arg : String) (answer : Except Fault (Option String)) :
    Moves (Within R) (finishRedirect mode arg answer) := by
  match answer with
  | .error e => exact moves_throw e
  | .ok none => exact moves_bind (moves_printLine _) fun _ => moves_printLine _
  | .ok (some content) =>
    exact moves_bind (moves_resolve arg) fun path =>
      moves_bind (moves_doing _ (Disk.moves_writeLines hR path _)) fun _ => moves_printLine _

section Session

variable {T : Shell → Shell → Prop} [IsPreorder Shell T] (hT : ∀ s s', Within R s s' → T s s')
  (hset : ∀ dir : Path, Moves T (setCwd dir))

include hset in
theorem moves_recoverCwd : Moves T recoverCwd := by
  refine moves_get_bind fun s => ?_
  cases nearestDir? s.host.tree s.session.cwd with
  | none => exact refl_of T s
  | some dir =>
    simp only
    split
    · exact refl_of T s
    · exact hset dir s

include hT hset

theorem moves_changeDir (destination : Destination) : Moves T (changeDir destination) := by
  cases destination with
  | parent =>
    refine moves_bind (moves_cwd.mono hT) fun here => ?_
    split
    · exact hset _
    · exact moves_throw _
  | home =>
    refine moves_get_bind fun s => ?_
    cases s.host.home with
    | some dir => exact hset dir s
    | none => exact refl_of T s
  | dir arg =>
    refine moves_bind ((moves_resolve arg).mono hT) fun dir => moves_get_bind fun s => ?_
    split
    · exact hset dir s
    · exact hT _ _ (moves_printLine _ s)

theorem moves_reportRemoval (dir : Path) : Moves T (reportRemoval dir) :=
  moves_bind ((moves_printLine _).mono hT) fun _ => moves_recoverCwd hset

theorem moves_removeDir_emptyDir
    (hrmdir : ∀ (p : Path) (t u : Tree), t.rmdir p = .ok u → R t u) (arg : String) :
    Moves T (removeDir (.emptyDir arg)) := by
  have hprint (text : String) : Moves T (printLine text) := (moves_printLine text).mono hT
  refine moves_bind ((moves_resolve arg).mono hT) fun dir =>
    moves_bind ((moves_attempt (Disk.moves_removeEmptyDir hrmdir dir)).mono hT) fun outcome => ?_
  split
  · exact moves_reportRemoval hT hset dir
  · exact hprint _
  · exact hprint _
  · exact hprint _
  · exact moves_throw _

theorem moves_removeDir (hrmdir : ∀ (p : Path) (t u : Tree), t.rmdir p = .ok u → R t u)
    (hunlink : ∀ (p : Path) (t u : Tree), t.unlink p = .ok u → R t u)
    (hclear : ∀ (a : Address) (t : Tree), R t (t.clear a)) (removal : Removal) :
    Moves T (removeDir removal) := by
  cases removal with
  | currentTree =>
    refine moves_bind (moves_cwd.mono hT) fun dir => ?_
    split
    · exact moves_throw _
    · have hremove := Disk.moves_removeTree hrmdir hunlink hclear dir
      exact moves_bind ((moves_doing _ hremove).mono hT) fun _ => moves_reportRemoval hT hset dir
  | emptyDir arg => exact moves_removeDir_emptyDir hT hset hrmdir arg

omit hset in
/-- What holds of the calls that the other commands make holds of every command, if it
holds of the three that do more: going to a directory, removing one, and exiting. -/
theorem related_run (hmkdir : ∀ (p : Path) (t u : Tree), t.mkdir p = .ok u → R t u)
    (hcreate : ∀ (p : Path) (t u : Tree), t.createNew p = .ok u → R t u)
    (hmodify : ∀ (p : Path) (bytes : List UInt8) (t u : Tree),
      t.modifyFile p (fun _ => bytes) = .ok u → R t u)
    (hunlink : ∀ (p : Path) (t u : Tree), t.unlink p = .ok u → R t u)
    {command : Command} {s : Shell}
    (hcd : ∀ destination, command = .cd destination →
      T s (outcomeState (changeDir destination s)))
    (hrmdir : ∀ removal, command = .rmdir removal → T s (outcomeState (removeDir removal s)))
    (hexit : command = .exit → T s (outcomeState (requestExit s))) :
    T s (outcomeState (command.run s)) := by
  cases command with
  | exit => exact hexit rfl
  | cd destination => exact hcd destination rfl
  | rmdir removal => exact hrmdir removal rfl
  | redirect mode file => exact refl_of T s
  | echo message => exact hT _ _ (moves_printLine message s)
  | pwd => exact hT _ _ (moves_bind moves_cwd (fun dir => moves_printLine dir.text) s)
  | ls reverse => exact hT _ _ (moves_list reverse s)
  | mkdir dirs => exact hT _ _ (moves_makeDirs hmkdir dirs s)
  | touch file => exact hT _ _ (moves_touchFile hcreate file s)
  | cp source target => exact hT _ _ (moves_copy hmkdir hmodify source target s)
  | rm file => exact hT _ _ (moves_removeFile hunlink file s)
  | cat files => exact hT _ _ (moves_printFiles files s)
  | wc file => exact hT _ _ (moves_countFile file s)
  | history => exact hT _ _ (moves_printHistory s)

/-- What holds of calls, of going to a directory and of exiting holds of every command. -/
theorem moves_run (hR : Tree.HoldsOfCalls R) {command : Command}
    (hexit : command = .exit → Moves T requestExit) : Moves T command.run := by
  intro s
  have hmodify (p : Path) (bytes : List UInt8) := hR.modifyFile p fun _ => bytes
  refine related_run hT hR.mkdir hR.createNew hmodify hR.unlink ?_ ?_ fun h => hexit h s
  · intro destination _
    exact moves_changeDir hT hset destination s
  · intro removal _
    exact moves_removeDir hT hset hR.rmdir hR.unlink hR.clear removal s

end Session

/-- The report of a fault changes the log and the output only. -/
theorem within_guarded (name : String) (body : ShellM Unit) (s : Shell) :
    Within Eq (outcomeState (body s)) (outcomeState (guarded name body s)) := by
  rw [guarded]
  cases body s with
  | ok _ s' => exact refl_of (Within Eq) s'
  | error e s' =>
    have hreport : Moves (Within Eq) (do
        Shell.note .debug (name ++ " failed: " ++ e.text)
        printLine e.text : ShellM Unit) :=
      moves_bind (moves_note _ _) fun _ => moves_printLine _
    exact hreport s'

theorem related_guarded {T : Shell → Shell → Prop} [IsPreorder Shell T]
    (hT : ∀ s s', Within Eq s s' → T s s') {body : ShellM Unit} {s : Shell} (name : String)
    (h : T s (outcomeState (body s))) : T s (outcomeState (guarded name body s)) :=
  trans_of T h (hT _ _ (within_guarded name body s))

end Command

end TreeShell
