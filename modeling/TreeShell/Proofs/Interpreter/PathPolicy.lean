import TreeShell.Proofs.Command.Upshots
import TreeShell.Proofs.Interpreter.Turns
import TreeShell.Proofs.Path.Ancestors

/-!
# One policy for paths

The paths that a command works on are its arguments taken from the current directory,
and nothing else of the session matters to it. So the arguments in one directory and
the absolute paths that they stand for there, entered in any other directory, come to
the same upshot (`same_upshot_elsewhere`): the same tree, the same end, and the same
output, in which the arguments are shown as they were typed where they are shown at all.

A redirection shows its prompt and takes a reply before it does anything
(`exists_upshot_ask_of_fits`), and a fault is printed after all the rest (`comesTo_guarded`); in
between the upshots are those of the bodies of the commands.
-/

namespace TreeShell

/-- The action of the command without the report of its fault. -/
def Command.unreported : Command → Action
  | .redirect mode file =>
    .ask Command.contentPrompt fun answer => .act (Command.finishRedirect mode file answer)
  | command => .act command.run

namespace Command

open Shell

variable {args : List String} {s : Shell} {u : Upshot} {body : ShellM Unit}

/-- A fault is printed after all the rest. -/
theorem comesTo_guarded (name : String) (h : ComesTo id args s.out u (body s)) :
    ComesTo id args s.out u.reported (guarded name body s) := by
  have htree : (outcomeState (body s)).host.tree = u.tree := h.tree
  have hout : (outcomeState (body s)).out = s.out.write (u.bytes args) := h.out
  have houtcome := h.outcome
  generalize outcomeState (body s) = s' at htree hout houtcome
  let report : Upshot :=
    ⟨u.tree, (u.fault?.map fun e => Fragment.words (e.text ++ "\n")).toList, none⟩
  have hreported : u.reported = report.after u.text := rfl
  rw [hreported]
  by_cases hfits : s.out.Fits (u.bytes args)
  · rw [if_pos hfits, Upshot.endIn] at houtcome
    refine ComesTo.after hfits ?_
    cases hfault : u.fault? with
    | none =>
      rw [hfault] at houtcome
      have hnothing : report = ⟨s'.host.tree, [], none⟩ := by
        simp [report, hfault, htree]
      rw [guarded_of_ok name houtcome, hnothing]
      exact hout ▸ comesTo_ok s'
    | some e =>
      rw [hfault] at houtcome
      have hline : report = ⟨s'.host.tree, [.words (e.text ++ "\n")], none⟩ := by
        simp [report, hfault, htree]
      rw [guarded, houtcome, hline]
      exact hout ▸ comesTo_printLine args e.text (s'.noted .debug (name ++ " failed: " ++ e.text))
  · rw [if_neg hfits] at houtcome
    -- what refused a part of the output refuses the report, too
    let ended := s'.noted .debug (name ++ " failed: " ++ Fault.outputClosed.text)
    have hnot : ¬ ended.out.Fits (Text.encode (Fault.outputClosed.text ++ "\n")) := by
      change ¬ s'.out.Fits _
      rw [hout]
      exact Sink.not_fits_write hfits (by decide)
    have hprint : guarded name body s =
        .error .outputClosed (ended.wrote (Fault.outputClosed.text ++ "\n")) := by
      rw [guarded, houtcome]
      exact (print_eq _ ended).trans (if_neg hnot)
    rw [hprint]
    apply comesTo_of_not_fits htree hfits
    change s'.out.write _ = _
    rw [hout, Sink.write_write_of_not_fits hfits]
    rfl

end Command

namespace Console

variable {args : List String} {u : Upshot} {body : ShellM Unit} {c : Console}

theorem comesTo_onShell (h : ComesTo id args c.shell.out u (body c.shell)) :
    ComesTo shell args c.shell.out u (onShell body c) := by
  refine ⟨?_, ?_, ?_⟩
  · rw [shell_onShell]
    exact h.tree
  · rw [shell_onShell]
    exact h.out
  · have houtcome := h.outcome
    rw [Upshot.endIn] at houtcome ⊢
    split at houtcome
    · next hfits =>
      rw [if_pos hfits]
      cases hfault : u.fault? with
      | none =>
        rw [hfault] at houtcome
        rw [show onShell body c = _ from onShell_of_ok houtcome]
        rfl
      | some e =>
        rw [hfault] at houtcome
        rw [show onShell body c = _ from onShell_of_error houtcome]
        rfl
    · next hfits =>
      rw [if_neg hfits, show onShell body c = _ from onShell_of_error houtcome]
      rfl

/-- Another console for the same work: with the same tree, as much room on the output and
the same reply to come. The directory, the records, the home, the log and what was
printed before are its own. -/
structure Elsewhere (c c' : Console) : Prop where
  tree : c'.shell.host.tree = c.shell.host.tree
  room : c'.shell.out.room? = c.shell.out.room?
  reply : c'.source.next.1 = c.source.next.1
  echo : c'.source.echo = c.source.echo

theorem Elsewhere.refl (c : Console) : c.Elsewhere c := ⟨rfl, rfl, rfl, rfl⟩

theorem Elsewhere.fits_iff {c' : Console} (h : c.Elsewhere c') (bytes : List UInt8) :
    c'.shell.out.Fits bytes ↔ c.shell.out.Fits bytes :=
  Sink.fits_of_room h.room

theorem Elsewhere.shownPrompt_eq {c' : Console} (h : c.Elsewhere c') (prompt : String) :
    c'.source.shownPrompt prompt = c.source.shownPrompt prompt := by
  rw [Source.shownPrompt, h.echo]
  rfl

section Run

variable {b : Builtin} {args : List String} {command : Command}

/-- The upshot of the command that the arguments make, entered in the same place as the
first console or elsewhere, where the arguments stand for the paths. -/
def IsUpshot (b : Builtin) (c₀ : Console) (paths : List Path) (u : Upshot) : Prop :=
  ∀ args command c, b.read? args = some command → (b = .rmdir → args ≠ ["*"]) →
    c₀.Elsewhere c → args.map c.shell.session.resolve = paths →
      ComesTo shell args c.shell.out u (command.unreported.run c) ∧
        ComesTo shell args c.shell.out u.reported (command.action.run c)

/-- A command that does not ask comes to what its body comes to. -/
theorem exists_upshot_act (hb : b ∈ Command.pathTaking) (hasks : ¬ (b = .overwrite ∨ b = .append))
    (c₀ : Console) (paths : List Path) :
    ∃ u, (b ∈ Command.pathShowing → ∀ i, .arg i ∉ u.text) ∧ IsUpshot b c₀ paths u := by
  obtain ⟨u, htext, hu⟩ := Command.exists_upshot_body hb (.ok none) c₀.shell.host.tree
    c₀.shell.out.room? paths
  refine ⟨u, htext, fun args command c hread hstar hc hpaths => ?_⟩
  have hne (mode : WriteMode) (file : String) : command ≠ .redirect mode file := by
    rintro rfl
    have hbuiltin := Builtin.builtin_of_read? hread
    cases mode with
    | truncate => exact hasks (Or.inl hbuiltin.symm)
    | append => exact hasks (Or.inr hbuiltin.symm)
  have hrun : ComesTo id args c.shell.out u (command.run c.shell) := by
    have hbody := hu args command c.shell hread hstar hc.tree hc.room hpaths
    rw [Command.body_of_ne_redirect hne] at hbody
    exact hbody
  have hunreported : command.unreported = .act command.run := by
    cases command with
    | redirect mode file => exact absurd rfl (hne mode file)
    | _ => rfl
  constructor
  · rw [hunreported]
    exact comesTo_onShell hrun
  · rw [run_action_of_ne_redirect hne]
    exact comesTo_onShell (Command.comesTo_guarded _ hrun)

theorem exists_redirect_of_read? (h : b.read? args = some command)
    (hasks : b = .overwrite ∨ b = .append) : ∃ mode file, command = .redirect mode file := by
  rcases hasks with rfl | rfl
  · obtain ⟨file, -, rfl⟩ := Builtin.readOne_eq_some h
    exact ⟨.truncate, file, rfl⟩
  · obtain ⟨file, -, rfl⟩ := Builtin.readOne_eq_some h
    exact ⟨.append, file, rfl⟩

/-- A command that asks shows its prompt before everything else. -/
theorem exists_upshot_ask_of_fits (hb : b ∈ Command.pathTaking)
    (hasks : b = .overwrite ∨ b = .append) {c₀ : Console}
    (hfits : c₀.shell.out.Fits (Text.encode (c₀.source.shownPrompt Command.contentPrompt)))
    (paths : List Path) : ∃ u, IsUpshot b c₀ paths u := by
  let prompt := c₀.source.shownPrompt Command.contentPrompt
  obtain ⟨u, -, hu⟩ := Command.exists_upshot_body hb c₀.source.next.1.answer
    c₀.shell.host.tree (c₀.shell.out.write (Text.encode prompt)).room? paths
  refine ⟨u.after [.words prompt], fun args command c hread hstar hc hpaths => ?_⟩
  have hprompt : c.source.shownPrompt Command.contentPrompt = prompt := hc.shownPrompt_eq _
  have htaken : c.shell.out.Fits (Text.encode prompt) := (hc.fits_iff _).2 hfits
  obtain ⟨d, hrun, -, hwithin, hout⟩ := exists_run_ask_of_fits (hprompt.symm ▸ htaken)
  rw [hprompt] at hout
  rw [hc.reply] at hrun
  have hbody := hu args command d.shell hread hstar (hwithin.host.tree.symm.trans hc.tree)
    (hout ▸ Sink.room_write_of_room hc.room _) (hwithin.session ▸ hpaths)
  have hafter {u' : Upshot} {r : EStateM.Result Fault Console Unit}
      (h : ComesTo shell args d.shell.out u' r) :
      ComesTo shell args c.shell.out (u'.after [.words prompt]) r := by
    rw [hout] at h
    apply ComesTo.after
    · rw [shown_words]
      exact htaken
    · rw [shown_words]
      exact h
  obtain ⟨mode, file, rfl⟩ := exists_redirect_of_read? hread hasks
  constructor
  · rw [Command.unreported, hrun]
    exact hafter (comesTo_onShell hbody)
  · rw [Upshot.reported_after, Command.action, hrun]
    exact hafter (comesTo_onShell (Command.comesTo_guarded _ hbody))

/-- If the output does not take the prompt, that is what the command comes to. -/
theorem exists_upshot_ask_of_not_fits (hasks : b = .overwrite ∨ b = .append) {c₀ : Console}
    (hfits : ¬ c₀.shell.out.Fits (Text.encode (c₀.source.shownPrompt Command.contentPrompt)))
    (paths : List Path) : ∃ u, IsUpshot b c₀ paths u := by
  let prompt := c₀.source.shownPrompt Command.contentPrompt
  let u : Upshot := ⟨c₀.shell.host.tree, [], some .outputClosed⟩
  refine ⟨u.after [.words prompt], fun args command c hread _ hc _ => ?_⟩
  have hprompt : c.source.shownPrompt Command.contentPrompt = prompt := hc.shownPrompt_eq _
  have hrefused : ¬ c.shell.out.Fits (Text.encode prompt) := mt (hc.fits_iff _).1 hfits
  obtain ⟨d, hrun, hwithin, hout⟩ := exists_run_ask_of_not_fits (hprompt.symm ▸ hrefused)
  rw [hprompt] at hout
  have htree : d.shell.host.tree = c₀.shell.host.tree := hwithin.host.tree.symm.trans hc.tree
  rw [← shown_words args prompt] at hrefused hout
  obtain ⟨mode, file, rfl⟩ := exists_redirect_of_read? hread hasks
  -- nothing is written, and not even the report of that is printed
  constructor
  · rw [Command.unreported, hrun]
    exact comesTo_of_not_fits htree hrefused hout
  · have hbody : ComesTo id args d.shell.out u (.error .outputClosed d.shell) := by
      rw [show u = ⟨d.shell.host.tree, [], some .outputClosed⟩ by rw [htree]]
      exact Shell.comesTo_error .outputClosed d.shell
    have hguarded := comesTo_onShell
      (Command.comesTo_guarded (Command.redirect mode file).builtin.name hbody)
    rw [hout] at hguarded
    rw [Upshot.reported_after, Command.action, hrun]
    apply ComesTo.after_of_not_fits hrefused _ hguarded
    change Text.encode (Fault.outputClosed.text ++ "\n" ++ "") ≠ []
    decide

theorem exists_upshot (hb : b ∈ Command.pathTaking) (c₀ : Console) (paths : List Path) :
    ∃ u, (b ∈ Command.pathShowing → ∀ i, .arg i ∉ u.text) ∧ IsUpshot b c₀ paths u := by
  by_cases hasks : b = .overwrite ∨ b = .append
  · have hupshot : ∃ u, IsUpshot b c₀ paths u := by
      by_cases hfits :
          c₀.shell.out.Fits (Text.encode (c₀.source.shownPrompt Command.contentPrompt))
      · exact exists_upshot_ask_of_fits hb hasks hfits paths
      · exact exists_upshot_ask_of_not_fits hasks hfits paths
    obtain ⟨u, hu⟩ := hupshot
    refine ⟨u, fun hshows => ?_, hu⟩
    rcases hasks with rfl | rfl <;> exact absurd hshows (by decide)
  · exact exists_upshot_act hb hasks c₀ paths

end Run

section Paths

variable {b : Builtin} {args args' : List String}

/-- All that the shape of such a command says is how many arguments there are. -/
theorem accepts_of_length_eq (hb : b ∈ Command.pathTaking) (h : b.Accepts args)
    (hlength : args'.length = args.length) : b.Accepts args' := by
  cases b with
  | mkdir | rmdir | touch | cp | rm | cat | wc | overwrite | append =>
    simp only [Builtin.Accepts, hlength] at h ⊢
    exact h
  | _ => exact absurd hb (by decide)

end Paths

end Console

/-- The absolute paths that arguments stand for in the session, as arguments. -/
def Session.absolutely (s : Session) (args : List String) : List String :=
  args.map fun arg => (s.resolve arg).text

namespace Session

variable {s : Session}

/-- An absolute path stands for itself everywhere. -/
theorem map_resolve_absolutely (h : s.cwd.isAbsolute = true) (s' : Session)
    (args : List String) : (s.absolutely args).map s'.resolve = args.map s.resolve := by
  rw [absolutely, List.map_map]
  refine List.map_congr_left fun arg _ => ?_
  have habs : (s.resolve arg).isAbsolute = true := Path.isAbsolute_join h _
  rw [Function.comp_apply, resolve, Path.ofText_text, Path.join_of_isAbsolute _ habs]

theorem absolutely_ne_star (h : s.cwd.isAbsolute = true) (args : List String) :
    s.absolutely args ≠ ["*"] := by
  intro hstar
  obtain ⟨arg, rest, rfl, harg, -⟩ := List.map_eq_cons_iff.1 hstar
  have habs : (s.resolve arg).isAbsolute = true := Path.isAbsolute_join h _
  have hrel : s.resolve arg = Path.ofText "*" := by rw [← harg, Path.ofText_text]
  rw [hrel] at habs
  exact absurd habs (by decide)

end Session

namespace Console

variable {b : Builtin} {args : List String} {c c' : Console}

/-- A command that takes paths, with arguments taken from an absolute directory, and the
command with the absolute paths that they stand for there, anywhere else where the tree
and the next line are the same: both are commands, and they come to the same upshot,
before and after their fault is printed. What they print is the same but for the
arguments, which are shown as they are, and by `mkdir`, `rmdir` and `touch` not at all. -/
theorem same_upshot_elsewhere (hb : b ∈ Command.pathTaking) (hargs : b.Accepts args)
    (hstar : b = .rmdir → args ≠ ["*"]) (habs : c.shell.session.cwd.isAbsolute = true)
    (h : c.Elsewhere c') :
    ∃ command command' u,
      b.read? args = some command ∧
      b.read? (c.shell.session.absolutely args) = some command' ∧
      (b ∈ Command.pathShowing →
        u.bytes args = u.bytes (c.shell.session.absolutely args) ∧
          u.reported.bytes args = u.reported.bytes (c.shell.session.absolutely args)) ∧
      ComesTo shell args c.shell.out u (command.unreported.run c) ∧
      ComesTo shell (c.shell.session.absolutely args) c'.shell.out u
        (command'.unreported.run c') ∧
      ComesTo shell args c.shell.out u.reported (command.action.run c) ∧
      ComesTo shell (c.shell.session.absolutely args) c'.shell.out u.reported
        (command'.action.run c') := by
  let session := c.shell.session
  obtain ⟨command, hread⟩ := Option.isSome_iff_exists.1 ((b.isSome_read?_iff args).2 hargs)
  have haccepts : b.Accepts (session.absolutely args) :=
    accepts_of_length_eq hb hargs (List.length_map _)
  obtain ⟨command', hread'⟩ :=
    Option.isSome_iff_exists.1 ((b.isSome_read?_iff _).2 haccepts)
  obtain ⟨u, htext, hu⟩ := exists_upshot hb c (args.map session.resolve)
  have hhere := hu args command c hread hstar (.refl c) rfl
  have hthere := hu (session.absolutely args) command' c' hread'
    (fun _ => Session.absolutely_ne_star habs args) h
    (Session.map_resolve_absolutely habs c'.shell.session args)
  exact ⟨command, command', u, hread, hread', fun hshows => Upshot.bytes_congr (htext hshows) _ _,
    hhere.1, hthere.1, hhere.2, hthere.2⟩

/-- A session in the directory, in which the link `/w/l` leads to `/w/f` and the next line
is `hi`. -/
def linked (cwd : String) : Console :=
  { onTree [("/w/l", .link (Path.ofText "f"))] cwd with source := { replies := [.line "hi"] } }

theorem same_upshot_elsewhere_linked :
    ∃ command command' u,
      Builtin.overwrite.read? ["l"] = some command ∧
      Builtin.overwrite.read? ["/w/l"] = some command' ∧
      (Builtin.overwrite ∈ Command.pathShowing →
        u.bytes ["l"] = u.bytes ["/w/l"] ∧ u.reported.bytes ["l"] = u.reported.bytes ["/w/l"]) ∧
      ComesTo shell ["l"] (linked "/w").shell.out u (command.unreported.run (linked "/w")) ∧
      ComesTo shell ["/w/l"] (linked "/").shell.out u (command'.unreported.run (linked "/")) ∧
      ComesTo shell ["l"] (linked "/w").shell.out u.reported (command.action.run (linked "/w")) ∧
      ComesTo shell ["/w/l"] (linked "/").shell.out u.reported
        (command'.action.run (linked "/")) := by
  have htyped : (linked "/w").shell.session.absolutely ["l"] = ["/w/l"] := by decide
  have helsewhere : (linked "/w").Elsewhere (linked "/") := ⟨rfl, rfl, rfl, rfl⟩
  have h := same_upshot_elsewhere (b := .overwrite) (by decide) (rfl : ["l"].length = 1)
    (fun hrmdir => by cases hrmdir) (by decide) helsewhere
  rwa [htyped] at h

end Console

end TreeShell
