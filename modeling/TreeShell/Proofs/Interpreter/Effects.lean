import TreeShell.Proofs.Command.Effects
import TreeShell.Proofs.Interpreter.Sessions
import TreeShell.Proofs.Interpreter.Truncation

/-!
# Who may change what

Between the record of a line and the end of it nothing but the log and the output
changes, save by the body of the command that the line spells (`exists_body`). So a
line does to the tree what the deeds of its command say, and to the session what the
command does (`effects_runLine`).

Whatever every line does or leaves alone, lines one after the other and a whole session
do or leave alone as well (`related_repl`): a file stays as it is until a line comes
that may rewrite or remove it (`effects_confined`).
-/

namespace TreeShell

namespace Console

open Shell

variable {line : String} {command : Command} {b : Builtin} {c : Console}

section Calls

/-- The first word of the line is the name of the built-in command. -/
def Calls (line : String) (b : Builtin) : Prop :=
  ∃ args, Text.words line = b.name :: args

theorem calls_iff (h : IsCommand line command) : Calls line b ↔ command.builtin = b := by
  obtain ⟨b', args, hwords, hread⟩ := h
  rw [Builtin.builtin_of_read? hread]
  constructor
  · rintro ⟨args', hwords'⟩
    rw [hwords] at hwords'
    exact Builtin.name_injective (List.cons.inj hwords').1
  · rintro rfl
    exact ⟨args, hwords⟩

theorem words_of_currentTree (h : IsCommand line (.rmdir .currentTree)) :
    Text.words line = ["rmdir", "*"] := by
  obtain ⟨b, args, hwords, hread⟩ := h
  obtain rfl : Builtin.rmdir = b := Builtin.builtin_of_read? hread
  obtain ⟨arg, rfl, hcommand⟩ := Builtin.readOne_eq_some hread
  have hremoval : Removal.ofArg arg = .currentTree := (Command.rmdir.inj hcommand).symm
  have hstar : arg = "*" := by
    rw [Removal.ofArg] at hremoval
    split at hremoval
    · assumption
    · cases hremoval
  rw [hwords, hstar]
  rfl

end Calls

/-- A line that is a command does what the body of the command does. What it does
before and after is to the log and the output only. -/
theorem exists_body (h : IsCommand line command) (c : Console) :
    ∃ answer s, Within Eq (c.shell.recorded line) s ∧
      Within Eq (outcomeState (command.body answer s))
        (outcomeState (runLine .builtins line c)).shell := by
  obtain ⟨b, args, hwords, hread⟩ := h
  rw [runLine_of_read? hwords hread]
  have hstarted : Within Eq (c.shell.recorded line) (c.started line b.name args).shell :=
    within_noted _ _ _
  by_cases hredirect : ∃ mode file, command = .redirect mode file
  · obtain ⟨mode, file, rfl⟩ := hredirect
    obtain ⟨answer, d, hask, hwithin⟩ :=
      exists_run_ask Command.contentPrompt (c.started line b.name args)
    refine ⟨answer, d.shell, trans_of (Within Eq) hstarted hwithin, ?_⟩
    rw [Command.action, hask, Action.run, shell_onShell]
    exact Command.within_guarded _ _ _
  · have hne (mode : WriteMode) (file : String) : command ≠ .redirect mode file :=
      fun hc => hredirect ⟨mode, file, hc⟩
    refine ⟨.ok none, _, hstarted, ?_⟩
    rw [run_action_of_ne_redirect hne, shell_onShell, Command.body_of_ne_redirect hne]
    exact Command.within_guarded _ _ _

/-- What the line may do to the entries of the tree. -/
def MayDo (line : String) (d : Deed) : Prop :=
  ∃ command, IsCommand line command ∧ d ∈ command.deeds

/-- A line does to the entries what its command may do and nothing else. -/
theorem changesBy_runLine (line : String) (c : Console) :
    Tree.ChangesBy (MayDo line) c.shell.host.tree
      (outcomeState (runLine .builtins line c)).shell.host.tree := by
  rcases isCommand_or_onlyAnswers line c with ⟨command, name, args, hline, -⟩ | ⟨-, answer, h⟩
  · obtain ⟨answer, s, hbefore, hafter⟩ := exists_body hline c
    have hbody := Command.changesBy_body command answer s
    rw [← hbefore.host.tree, hafter.host.tree] at hbody
    exact hbody.mono fun d hd => ⟨command, hline, hd⟩
  · rw [h.tree]
    exact Tree.ChangesBy.refl _

theorem touches_once (h : Calls line .touch) (c : Console) :
    (outcomeState (runLine .builtins line c)).shell.host.tree = c.shell.host.tree ∨
      ∃ a, c.shell.host.tree.entry? a = none ∧ c.shell.host.tree.Written a []
        (outcomeState (runLine .builtins line c)).shell.host.tree := by
  rcases isCommand_or_onlyAnswers line c with
    ⟨command, name, args, hline, -⟩ | ⟨-, answer, honly⟩
  · obtain ⟨answer, s, hbefore, hafter⟩ := exists_body hline c
    have hbuiltin := (calls_iff hline).1 h
    cases command with
    | touch file =>
      have honce := Command.touchFile_once file s
      rw [← hbefore.host.tree] at honce
      rw [Command.body_of_ne_redirect (by simp), Command.run] at hafter
      rw [← hafter.host.tree]
      exact honce
    | redirect mode file => cases mode <;> cases hbuiltin
    | _ => cases hbuiltin
  · exact Or.inl honly.tree

/-- What becomes of the session is up to the command, and every line is recorded. -/
structure Leaves (line : String) (s s' : Session) : Prop where
  cwd : s'.cwd ≠ s.cwd → Calls line .cd ∨ Calls line .rmdir
  exiting : s'.exiting = true ↔ s.exiting = true ∨ Calls line .exit
  history : s'.history = s.history ++ [line]

theorem leaves_runLine (line : String) (c : Console) :
    Leaves line c.shell.session (outcomeState (runLine .builtins line c)).shell.session := by
  rcases isCommand_or_onlyAnswers line c with ⟨command, name, args, hline, -⟩ | ⟨hnone, answer, h⟩
  · obtain ⟨answer, s, hbefore, hafter⟩ := exists_body hline c
    have hexit : Calls line .exit ↔ command = .exit := by
      rw [calls_iff hline]
      constructor
      · intro hb
        cases command with
        | exit => rfl
        | redirect mode file => cases mode <;> cases hb
        | _ => cases hb
      · rintro rfl
        rfl
    rw [hafter.session]
    constructor
    · intro hne
      rw [calls_iff hline, calls_iff hline]
      by_contra hb
      rw [not_or] at hb
      apply hne
      rw [Command.cwd_body hb.1 hb.2, hbefore.session]
      rfl
    · rw [Command.exiting_body, hbefore.session, hexit]
      rfl
    · rw [Command.history_body, hbefore.session]
      rfl
  · rw [h.session]
    refine ⟨fun hne => absurd rfl hne, ?_, rfl⟩
    -- a line whose first word is `exit` always spells the command
    have hexit : ¬ Calls line .exit := by
      rintro ⟨args, hwords⟩
      exact hnone .exit ⟨.exit, args, hwords, rfl⟩
    rw [or_iff_left hexit]
    rfl

/-- What a line can change, by the command that it calls. -/
structure Effects (line : String) (s s' : Shell) : Prop where
  links : s.host.tree.NoNewLinks s'.host.tree
  kinds : ∀ a e f, s.host.tree.entry? a = some e → s'.host.tree.entry? a = some f →
    f.kind = e.kind
  quiet : (∀ b, Calls line b → b ∈ [.echo, .pwd, .cd, .ls, .cat, .wc, .history, .exit]) →
    s'.host.tree = s.host.tree
  mkdir : Calls line .mkdir → ∀ a, s'.host.tree.entry? a = s.host.tree.entry? a ∨
    s.host.tree.entry? a = none ∧ s'.host.tree.HasDir a
  touch : Calls line .touch → s'.host.tree = s.host.tree ∨
    ∃ a, s.host.tree.entry? a = none ∧ s.host.tree.Written a [] s'.host.tree
  bytes : ∀ a bytes bytes', s.host.tree.entry? a = some (.file bytes) →
    s'.host.tree.entry? a = some (.file bytes') → bytes' ≠ bytes →
      Calls line .overwrite ∨ Calls line .append ∨ Calls line .cp
  append : Calls line .append → ∀ a bytes bytes', s.host.tree.entry? a = some (.file bytes) →
    s'.host.tree.entry? a = some (.file bytes') → bytes <+: bytes'
  removed : ∀ a e, s.host.tree.entry? a = some e → e.kind ≠ .dir →
    s'.host.tree.entry? a = none → Calls line .rm ∨ Text.words line = ["rmdir", "*"]
  removedDir : ∀ a, s.host.tree.HasDir a → s'.host.tree.entry? a = none → Calls line .rmdir
  session : Leaves line s.session s'.session

theorem effects_runLine (line : String) (c : Console) :
    Effects line c.shell (outcomeState (runLine .builtins line c)).shell := by
  have hchanges := changesBy_runLine line c
  have hremoves {kind : Kind} (h : MayDo line (.removes kind)) (hkind : kind ≠ .dir) :
      Calls line .rm ∨ Text.words line = ["rmdir", "*"] := by
    obtain ⟨command, hline, hd⟩ := h
    rcases Command.eq_of_removes_mem_deeds hd hkind with hrm | rfl
    · exact Or.inl ((calls_iff hline).2 hrm)
    · exact Or.inr (words_of_currentTree hline)
  constructor
  case links =>
    apply hchanges.noNewLinks
    rintro ⟨command, -, hd⟩
    exact Command.makes_link_not_mem_deeds command hd
  case kinds => exact fun a e f => hchanges.kind_eq
  case quiet =>
    intro hquiet
    refine (hchanges.quiet ?_).symm
    rintro d ⟨command, hline, hd⟩
    have hwrites := Command.builtin_of_mem_deeds hd
    have hreads := hquiet _ ((calls_iff hline).2 rfl)
    revert hwrites hreads
    cases command.builtin <;> decide
  case mkdir =>
    intro hmkdir
    apply hchanges.adds_dirs
    rintro d ⟨command, hline, hd⟩
    exact Command.eq_makes_dir_of_mem_deeds ((calls_iff hline).1 hmkdir) hd
  case touch => exact fun htouch => touches_once htouch c
  case bytes =>
    intro a bytes bytes' ht hu hne
    by_contra hcalls
    apply hne
    refine hchanges.bytes_eq ?_ ?_ ht hu
    · rintro ⟨command, hline, hd⟩
      rcases Command.builtin_of_rewrites_mem_deeds hd with hb | hb
      · exact hcalls (Or.inl ((calls_iff hline).2 hb))
      · exact hcalls (Or.inr (Or.inr ((calls_iff hline).2 hb)))
    · rintro ⟨command, hline, hd⟩
      exact hcalls (Or.inr (Or.inl ((calls_iff hline).2
        (Command.builtin_of_appends_mem_deeds hd))))
  case append =>
    intro happend a bytes bytes'
    apply hchanges.isPrefix
    rintro ⟨command, hline, hd⟩
    have hb := (calls_iff hline).1 happend
    rcases Command.builtin_of_rewrites_mem_deeds hd with h | h
    · rw [h] at hb
      cases hb
    · rw [h] at hb
      cases hb
  case removed =>
    intro a e ht hkind hu
    by_contra hcalls
    obtain ⟨f, hf⟩ := hchanges.exists_entry ht fun hmay => hcalls (hremoves hmay hkind)
    rw [hu] at hf
    cases hf
  case removedDir =>
    intro a ht hu
    by_contra hcalls
    obtain ⟨f, hf⟩ := hchanges.exists_entry ht fun ⟨command, hline, hd⟩ =>
      hcalls ((calls_iff hline).2 (Command.builtin_of_removes_dir_mem_deeds hd))
    rw [hu] at hf
    cases hf
  case session => exact leaves_runLine line c

/-- The line may rewrite files or remove them. -/
def Endangers (line : String) : Prop :=
  Calls line .overwrite ∨ Calls line .append ∨ Calls line .cp ∨ Calls line .rm ∨
    Text.words line = ["rmdir", "*"]

/-- A line that does not rewrite or remove files leaves every file as it is. -/
theorem Effects.keeps_file {s s' : Shell} {a : Address} {bytes : List UInt8}
    (h : Effects line s s') (hline : ¬ Endangers line)
    (hfile : s.host.tree.entry? a = some (.file bytes)) :
    s'.host.tree.entry? a = some (.file bytes) := by
  cases hu : s'.host.tree.entry? a with
  | none =>
    rcases h.removed a _ hfile (by simp [Entry.kind]) hu with hrm | hstar
    · exact absurd (Or.inr (Or.inr (Or.inr (Or.inl hrm)))) hline
    · exact absurd (Or.inr (Or.inr (Or.inr (Or.inr hstar)))) hline
  | some e =>
    have hkind := h.kinds a _ e hfile hu
    cases e with
    | dir => cases hkind
    | link target => cases hkind
    | file bytes' =>
      have hsame : bytes' = bytes := by
        by_contra hne
        rcases h.bytes a bytes bytes' hfile hu hne with ho | ha | hcp
        · exact hline (Or.inl ho)
        · exact hline (Or.inr (Or.inl ha))
        · exact hline (Or.inr (Or.inr (Or.inl hcp)))
      rw [hsame]

/-- The lines were entered. Unless one of them may rewrite files or remove them, every
file is there with its bytes. -/
structure Entered (lines : List String) (s s' : Shell) : Prop where
  history : s'.session.history = s.session.history ++ lines
  kept : (∀ line ∈ lines, ¬ Endangers line) → ∀ a bytes,
    s.host.tree.entry? a = some (.file bytes) → s'.host.tree.entry? a = some (.file bytes)

theorem Entered.refl (s : Shell) : Entered [] s s :=
  ⟨(List.append_nil _).symm, fun _ _ _ h => h⟩

theorem Entered.trans {lines lines' : List String} {s s' s'' : Shell} (h : Entered lines s s')
    (h' : Entered lines' s' s'') : Entered (lines ++ lines') s s'' := by
  constructor
  · rw [h'.history, h.history, List.append_assoc]
  · intro hlines a bytes hfile
    rw [List.forall_mem_append] at hlines
    exact h'.kept hlines.2 a bytes (h.kept hlines.1 a bytes hfile)

theorem entered_runLine (line : String) (c : Console) :
    Entered [line] c.shell (outcomeState (runLine .builtins line c)).shell := by
  have heffects := effects_runLine line c
  refine ⟨heffects.session.history, fun hline a bytes hfile => ?_⟩
  exact heffects.keeps_file (hline line (List.mem_singleton_self line)) hfile

theorem entered_runLines (lines : List String) (c : Console) :
    Entered lines c.shell (runLines .builtins c lines).shell := by
  induction lines generalizing c with
  | nil => exact Entered.refl c.shell
  | cons line rest ih => exact (entered_runLine line c).trans (ih _)

section Loop

variable {T : Shell → Shell → Prop} [IsPreorder Shell T] {r : Registry}
  (hT : ∀ s s', Within Eq s s' → T s s')
  (hline : ∀ line c, T c.shell (outcomeState (runLine r line c)).shell)

include hT hline

theorem related_rounds (n : Nat) (c : Console) :
    T c.shell (outcomeState (rounds r n c)).shell := by
  induction n generalizing c with
  | zero => exact refl_of T c.shell
  | succ n ih =>
    by_cases hexit : c.shell.session.exiting = true
    · rw [rounds_of_exiting hexit]
      exact refl_of T c.shell
    · have hread := within_readLine prompt c
      cases hd : readLine prompt c with
      | error e d =>
        rw [hd] at hread
        rw [rounds_of_error hexit hd]
        exact hT _ _ hread
      | ok line? d =>
        rw [hd] at hread
        cases line? with
        | none =>
          rw [rounds_of_none hexit hd, shell_onShell]
          exact hT _ _ (trans_of (Within Eq) hread (within_noted _ _ _))
        | some line =>
          rw [rounds_of_some hexit hd]
          refine trans_of T (hT _ _ hread) ?_
          have hfirst := hline line { d with source := d.source.remember line }
          cases hrun : runLine r line { d with source := d.source.remember line } with
          | ok _ e =>
            rw [hrun] at hfirst
            rw [bind_of_ok hrun]
            exact trans_of T hfirst (ih e)
          | error _ e =>
            rw [hrun] at hfirst
            rw [bind_of_error hrun]
            exact hfirst

/-- What every line does to the shell, and what changes the log and the output only,
a whole session does. -/
theorem related_repl (c : Console) : T c.shell (outcomeState (repl r c)).shell := by
  rw [repl_eq_rounds (Nat.lt_succ_self _)]
  exact related_rounds hT hline _ c

end Loop

/-- Some lines were entered. -/
def SomeEntered (s s' : Shell) : Prop :=
  ∃ lines, Entered lines s s'

instance : IsPreorder Shell SomeEntered where
  refl s := ⟨[], Entered.refl s⟩
  trans _ _ _ := fun ⟨lines, h⟩ ⟨lines', h'⟩ => ⟨lines ++ lines', h.trans h'⟩

theorem someEntered_of_within {s s' : Shell} (h : Within Eq s s') : SomeEntered s s' := by
  refine ⟨[], ?_, fun _ a bytes hfile => ?_⟩
  · rw [h.session, List.append_nil]
  · rw [← h.host.tree]
    exact hfile

/-- What a line changes is limited by the command that it calls. So a file stays as it
is through any lines, one after the other or in a whole session, unless a line among
them calls one of the commands that rewrite or remove files. -/
theorem effects_confined (c : Console) :
    (∀ line, Effects line c.shell (outcomeState (runLine .builtins line c)).shell) ∧
    (∀ lines, Entered lines c.shell (runLines .builtins c lines).shell) ∧
    ∃ lines, Entered lines c.shell (outcomeState (repl .builtins c)).shell :=
  ⟨fun line => effects_runLine line c, fun lines => entered_runLines lines c,
    related_repl (T := SomeEntered) (fun _ _ => someEntered_of_within)
      (fun line c => ⟨[line], entered_runLine line c⟩) c⟩

end Console

end TreeShell
