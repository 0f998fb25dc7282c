import TreeShell.Proofs.Command.Truncation
import TreeShell.Proofs.Interpreter.Lines

/-!
# Sessions on a limited output

The comparison of two runs is carried from commands to lines, whose consoles also
hold the source, and by induction on the replies that are left to the whole loop.
A prompt that is shown on the output can be what does not fit; then the command
that asked gets the fault and can only print it.

So a limit cuts the output of a session and changes nothing before that
(`repl_withLimit`).
-/

namespace TreeShell

theorem Registry.exists_eq_factory_of_find?_builtins {name : String} {f : Factory}
    (h : Registry.find? .builtins name = some f) : ∃ b : Builtin, f = b.factory := by
  by_cases hname : ∀ b : Builtin, name ≠ b.name
  · rw [find?_builtins_eq_none hname] at h
    cases h
  · obtain ⟨b, rfl⟩ : ∃ b : Builtin, name = b.name := by simpa using hname
    rw [find?_builtins_name] at h
    exact ⟨b, (Option.some.inj h).symm⟩

/-- The fault that a computation ends with, if it does. -/
def fault? {ε σ α : Type} : EStateM.Result ε σ α → Option ε
  | .ok _ _ => none
  | .error e _ => some e

namespace Console

variable {limit : Nat} {already : Bool}

/-- The shells are in step and the sources are the same. -/
structure InStep (limit : Nat) (already : Bool) (c c' : Console) : Prop where
  shell : Shell.InStep limit already c.shell c'.shell
  source : c.source = c'.source

/-- Runs of lines, on an output with the limit and on one without. -/
def comparison (limit : Nat) (already : Bool) : Comparison Console where
  InStep := InStep limit already
  Cut c c' := Shell.Cut limit c.shell c'.shell
  Grows c c' := Shell.Grows c.shell c'.shell
  grows_refl c := Shell.Grows.refl c.shell
  grows_trans _ _ _ := Shell.Grows.trans
  cut_of_grows _ _ _ := Shell.Cut.of_grows

theorem truncates_onShell {α : Type} {body : ShellM α}
    (h : Truncates (Shell.comparison limit already) body) :
    Truncates (comparison limit already) (onShell body) where
  results c c' hc := by
    have hbody := h.results c.shell c'.shell hc.shell
    have hstate := shell_onShell body c'
    unfold onShell at hstate ⊢
    generalize body c.shell = r at hbody ⊢
    generalize body c'.shell = r' at hbody hstate ⊢
    cases hbody with
    | ok hs => exact .ok ⟨hs, hc.source⟩
    | error hs => exact .error ⟨hs, hc.source⟩
    | cut hs => exact .cut ((congrArg (Shell.Cut limit _) hstate).mpr hs)
  grows c := by
    change Shell.Grows c.shell (outcomeState (onShell body c)).shell
    rw [shell_onShell]
    exact h.grows c.shell

theorem truncates_takeReply : Truncates (comparison limit already) takeReply := by
  have hnote (text : String) : Truncates (comparison limit already)
      (onShell (do Shell.note .warn text; pure (some "\uFFFD"))) :=
    truncates_onShell (truncates_bind (Shell.truncates_note _ _) fun _ => truncates_pure _)
  constructor
  · intro c c' hc
    unfold takeReply
    rw [hc.source]
    have hrest : InStep limit already { c with source := c'.source.next.2 }
        { c' with source := c'.source.next.2 } := ⟨hc.shell, rfl⟩
    cases c'.source.next.1 with
    | line text => exact .ok hrest
    | undecodable reason => exact (hnote _).results _ _ hrest
    | done => exact .ok hrest
    | failure text => exact .error hrest
  · intro c
    unfold takeReply
    cases c.source.next.1 with
    | line text => exact Shell.Grows.refl _
    | undecodable reason => exact (hnote _).grows { c with source := c.source.next.2 }
    | done => exact Shell.Grows.refl _
    | failure text => exact Shell.Grows.refl _

theorem truncates_showPrompt (text : String) :
    Truncates (comparison limit already) (showPrompt text) where
  results c c' hc := by
    unfold showPrompt
    rw [hc.source]
    split
    · exact (truncates_onShell (Shell.truncates_print text)).results c c' hc
    · exact .ok hc
  grows c := by
    have hprint : Truncates (comparison limit already) (onShell (Shell.print text)) :=
      truncates_onShell (Shell.truncates_print text)
    unfold showPrompt
    split
    · exact hprint.grows c
    · exact Shell.Grows.refl _

/-- Asking for a line is a change of the source, the prompt, and the reply. -/
theorem readLine_eq (text : String) : readLine text = (do
    modify fun c => { c with source := c.source.ask text }
    showPrompt text
    takeReply) := by
  funext c
  unfold readLine
  change _ = EStateM.bind (showPrompt text) (fun _ => takeReply) _
  unfold EStateM.bind
  cases showPrompt text { c with source := c.source.ask text } <;> rfl

theorem truncates_readLine (text : String) :
    Truncates (comparison limit already) (readLine text) := by
  rw [readLine_eq]
  refine truncates_bind ?_ fun _ => truncates_bind (truncates_showPrompt text) fun _ =>
    truncates_takeReply
  exact truncates_modify (fun _ _ h => ⟨h.shell, by rw [h.source]⟩) fun _ => Shell.Grows.refl _

theorem run_ask_eq_handle (text : String) (next : Except Fault (Option String) → Action) :
    (Action.ask text next).run = handle (readLine text) (fun answer => (next (.ok answer)).run)
      (fun e => (next (.error e)).run) := by
  funext c
  simp only [Action.run, handle]
  cases readLine text c <;> rfl

/-- If it is the prompt for content that does not fit, the command can only print
that fault. -/
theorem truncates_action (command : Command) :
    Truncates (comparison limit already) command.action.run := by
  have hact (body : ShellM Unit) (h : Truncates (Shell.comparison limit already) body) :
      Truncates (comparison limit already) (onShell (Command.guarded command.builtin.name body)) :=
    truncates_onShell (Command.truncates_guarded h _)
  cases command with
  | redirect mode file =>
    have hfinish (answer : Except Fault (Option String)) :=
      hact _ (Command.truncates_finishRedirect mode file answer)
    rw [Command.action, run_ask_eq_handle]
    refine truncates_handle (truncates_readLine _) (fun _ => hfinish _) (fun _ => hfinish _) ?_
    intro c c' hcut
    obtain ⟨t, ht, hcutt⟩ := Command.exists_report_of_cut hcut
      (Command.redirect mode file).builtin.name .outputClosed
    refine ⟨c.withShell t, ?_, hcutt⟩
    exact onShell_of_error (s := c.shell) ht
  | _ => exact hact _ (Command.truncates_run _)

theorem truncates_reject (b : Builtin) (count : Nat) :
    Truncates (comparison limit already) (onShell (b.reject count)) :=
  truncates_onShell (truncates_bind (Shell.truncates_note _ _) fun _ =>
    Shell.truncates_printLine _)

theorem truncates_builtin_action (b : Builtin) (args : List String) :
    Truncates (comparison limit already) (b.action args).run := by
  rw [Builtin.action]
  cases b.read? args with
  | some command => exact truncates_action command
  | none => exact truncates_reject b args.length

theorem truncates_dispatch (line : CommandLine) :
    Truncates (comparison limit already) (dispatch .builtins line) := by
  rw [dispatch]
  split
  · next factory hfind =>
    obtain ⟨b, rfl⟩ := Registry.exists_eq_factory_of_find?_builtins hfind
    exact truncates_bind (truncates_onShell (Shell.truncates_note _ _)) fun _ =>
      truncates_builtin_action b line.args
  · exact truncates_onShell (truncates_bind (Shell.truncates_note _ _) fun _ =>
      Shell.truncates_printLine _)

theorem truncates_runLine (line : String) :
    Truncates (comparison limit already) (runLine .builtins line) := by
  refine truncates_bind (truncates_onShell (Shell.truncates_record line)) fun _ => ?_
  split
  · exact truncates_dispatch _
  · exact truncates_onShell (Shell.truncates_printLine _)

/-- At most so many rounds of the loop. -/
def rounds (r : Registry) : Nat → ConsoleM Unit
  | 0 => pure ()
  | n + 1 => do
    if (← get).shell.session.exiting then pure ()
    else
      match ← readLine prompt with
      | none => onShell (Shell.note .info "end of input")
      | some line =>
        modify fun c => { c with source := c.source.remember line }
        runLine r line
        rounds r n

section Rounds

variable {r : Registry} {n : Nat} {c d : Console}

theorem rounds_of_exiting (h : c.shell.session.exiting = true) : rounds r n c = .ok () c := by
  cases n with
  | zero => rfl
  | succ n =>
    rw [rounds, get_bind, if_pos h]
    rfl

theorem rounds_of_error {e : Fault} (h : c.shell.session.exiting ≠ true)
    (hread : readLine prompt c = .error e d) : rounds r (n + 1) c = .error e d := by
  rw [rounds, get_bind, if_neg h, bind_of_error hread]

theorem rounds_of_none (h : c.shell.session.exiting ≠ true)
    (hread : readLine prompt c = .ok none d) :
    rounds r (n + 1) c = onShell (Shell.note .info "end of input") d := by
  rw [rounds, get_bind, if_neg h, bind_of_ok hread]

theorem rounds_of_some {line : String} (h : c.shell.session.exiting ≠ true)
    (hread : readLine prompt c = .ok (some line) d) :
    rounds r (n + 1) c =
      (runLine r line >>= fun _ => rounds r n) { d with source := d.source.remember line } := by
  rw [rounds, get_bind, if_neg h, bind_of_ok hread]
  rfl

/-- A round for each reply that is left, and one more, are all rounds. -/
theorem repl_eq_rounds (h : c.source.replies.length < n) : repl r c = rounds r n c := by
  induction n generalizing c with
  | zero => cases h
  | succ n ih =>
    unfold repl
    split
    · next hexit => exact (rounds_of_exiting hexit).symm
    · next hexit =>
      split
      · next e d hd => exact (rounds_of_error hexit hd).symm
      · next d hd => exact (rounds_of_none hexit hd).symm
      · next line d hd =>
        have hlt := replies_readLine_lt hd
        have hle := replies_runLine_le r line { d with source := d.source.remember line }
        rw [rounds_of_some hexit hd]
        split
        · next e d' hd' => rw [bind_of_error hd']
        · next d' hd' =>
          rw [hd', outcomeState, Source.replies_remember] at hle
          rw [bind_of_ok hd']
          exact ih (by omega)

end Rounds

theorem truncates_rounds (n : Nat) : Truncates (comparison limit already) (rounds .builtins n) := by
  induction n with
  | zero => exact truncates_pure ()
  | succ n ih =>
    refine truncates_get_bind (fun c => ?_) fun c c' h => by rw [h.shell.session]
    split
    · exact truncates_pure ()
    · refine truncates_bind (truncates_readLine prompt) fun line? => ?_
      split
      · exact truncates_onShell (Shell.truncates_note _ _)
      · refine truncates_bind (truncates_modify ?_ ?_) fun _ =>
          truncates_bind (truncates_runLine _) fun _ => ih
        · exact fun _ _ h => ⟨h.shell, by rw [h.source]⟩
        · exact fun _ => Shell.Grows.refl _

/-- The console with an output that takes no more than so many bytes, if there
is a limit, and has taken none. -/
def withLimit (c : Console) (limit? : Option Nat) : Console :=
  c.withShell { c.shell with out := { room? := limit? } }

theorem inStep_withLimit (c : Console) (limit : Nat) :
    InStep limit false (c.withLimit (some limit)) (c.withLimit none) :=
  ⟨⟨rfl, rfl, rfl, rfl, Nat.zero_le _, rfl, rfl⟩, rfl⟩

/-- Two sessions ended alike: with the same fault or with none, and with the same
output, tree, current directory, history and wish to exit. -/
structure EndAlike (r r' : EStateM.Result Fault Console Unit) : Prop where
  fault : fault? r = fault? r'
  written : (outcomeState r).shell.out.written = (outcomeState r').shell.out.written
  tree : (outcomeState r).shell.host.tree = (outcomeState r').shell.host.tree
  session : (outcomeState r).shell.session = (outcomeState r').shell.session

/-- The first session ended because its output was closed. It has written what
the other session has, up to the limit, and its history is the beginning of the
other one. -/
structure CutShort (limit : Nat) (r r' : EStateM.Result Fault Console Unit) : Prop where
  fault : (fault? r).map Fault.text = some "output closed"
  written : (outcomeState r).shell.out.written = (outcomeState r').shell.out.written.take limit
  history : (outcomeState r).shell.session.history <+: (outcomeState r').shell.session.history

/-- A limit does not matter to a session that stays within it, and cuts one that
goes beyond it. -/
theorem repl_withLimit (c : Console) (limit : Nat) :
    if (outcomeState (repl .builtins (c.withLimit none))).shell.out.written.length ≤ limit then
      EndAlike (repl .builtins (c.withLimit (some limit))) (repl .builtins (c.withLimit none))
    else
      CutShort limit (repl .builtins (c.withLimit (some limit)))
        (repl .builtins (c.withLimit none)) := by
  have hrounds (limit? : Option Nat) : repl .builtins (c.withLimit limit?) =
      rounds .builtins (c.source.replies.length + 1) (c.withLimit limit?) :=
    repl_eq_rounds (Nat.lt_succ_self _)
  have hresults := (truncates_rounds (c.source.replies.length + 1)).results _ _
    (inStep_withLimit c limit)
  rw [← hrounds, ← hrounds] at hresults
  generalize repl .builtins (c.withLimit (some limit)) = r at hresults ⊢
  generalize repl .builtins (c.withLimit none) = r' at hresults ⊢
  have halike (hf : fault? r = fault? r')
      (h : InStep limit false (outcomeState r) (outcomeState r')) :
      if (outcomeState r').shell.out.written.length ≤ limit then EndAlike r r'
      else CutShort limit r r' := by
    rw [if_pos h.shell.fits]
    exact ⟨hf, h.shell.written, by rw [h.shell.host], h.shell.session⟩
  cases hresults with
  | ok h => exact halike rfl h
  | error h => exact halike rfl h
  | cut h =>
    rw [if_neg (Nat.not_le.2 h.exceeds)]
    exact ⟨rfl, h.written, h.history⟩

end Console

end TreeShell
