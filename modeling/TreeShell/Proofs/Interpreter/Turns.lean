import TreeShell.Proofs.Command.Records
import TreeShell.Proofs.Interpreter.Sessions
import TreeShell.Proofs.Interpreter.Truncation

/-!
# The turns of a session

A session goes in turns. A turn reads one reply at the command prompt, which has
to be a line, and one more at the content prompt if and only if the line is `>`
or `>>` with one argument. A `Transcript` of a session lists its turns and tells
how it ended: by `exit`, or by a reply at the command prompt that is no line. It
accounts for every reply that was taken, every prompt that was shown, every line
that was recorded and every byte that was printed.

On an output that takes everything, and with a source that ends with the end of
input, every session has a transcript (`exists_transcript`). The induction is on
the replies that are left. One turn is what a line does to the console
(`exists_runLine_eq_ok`) together with the reply it was read from
(`exists_takes`).
-/

namespace TreeShell

/-- The line that a reply is read as, if it is one. -/
def Reply.line? : Reply → Option String
  | .line text => some text
  | .undecodable _ => some "\uFFFD"
  | .done => none
  | .failure _ => none

/-- The fault that a reply is, if it is one. -/
def Reply.fault? : Reply → Option Fault
  | .failure text => some (.inputFailed text)
  | _ => none

/-- What a reply answers to a request for a line. -/
def Reply.answer (reply : Reply) : Except Fault (Option String) :=
  match reply.fault? with
  | some e => .error e
  | none => .ok reply.line?

/-- The replies `given` are the first ones of `before`, in order, and `after` are
the others. A request for which no reply is left is answered by the end of
input. -/
def Serves (before given after : List Reply) : Prop :=
  before = given ++ after ∨ ∃ n, given = before ++ List.replicate n .done ∧ after = []

theorem Serves.append {before between after given given' : List Reply}
    (h : Serves before given between) (h' : Serves between given' after) :
    Serves before (given ++ given') after := by
  rcases h with rfl | ⟨n, rfl, rfl⟩
  · rcases h' with rfl | ⟨m, rfl, rfl⟩
    · exact Or.inl (List.append_assoc ..).symm
    · exact Or.inr ⟨m, (List.append_assoc ..).symm, rfl⟩
  · rcases h' with h' | ⟨m, rfl, rfl⟩
    · obtain ⟨rfl, rfl⟩ := List.append_eq_nil_iff.1 h'.symm
      exact Or.inr ⟨n, List.append_nil _, rfl⟩
    · refine Or.inr ⟨n + m, ?_, rfl⟩
      rw [List.nil_append, List.append_assoc, List.replicate_append_replicate]

namespace Source

/-- A source without a failure at its end serves one reply for each request. -/
theorem serves_next {s : Source} (h : s.fault? = none) :
    Serves s.replies [s.next.1] s.next.2.replies := by
  cases hr : s.replies with
  | nil => exact Or.inr ⟨1, by simp [next, hr, h], by simp [next, hr, h]⟩
  | cons reply rest => exact Or.inl (by simp [next, hr])

/-- What is shown of a prompt. -/
def shownPrompt (s : Source) (prompt : String) : String :=
  if s.echo then prompt else ""

theorem shownPrompt_of_silent {s : Source} (h : s.echo = false) (prompt : String) :
    s.shownPrompt prompt = "" := by
  simp [shownPrompt, h]

/-- What is asked for does not change the replies. -/
theorem next_ask (s : Source) (text : String) :
    (s.ask text).next = (s.next.1, s.next.2.ask text) := by
  obtain ⟨replies, fault?, echo, asked, remembered⟩ := s
  cases replies with
  | nil => cases fault? <;> rfl
  | cons reply rest => rfl

/-- Taking a reply changes nothing but the replies. -/
theorem next_eq (s : Source) : s.next.2 = { s with replies := s.next.2.replies } := by
  obtain ⟨replies, fault?, echo, asked, remembered⟩ := s
  cases replies with
  | nil => cases fault? <;> rfl
  | cons reply rest => rfl

end Source

/-- The line asks for a line of content. -/
def AsksContent (line : String) : Prop :=
  ∃ file, Text.words line = [">", file] ∨ Text.words line = [">>", file]

/-- The first word of the line is `exit`. -/
def IsExit (line : String) : Prop :=
  ∃ args, Text.words line = "exit" :: args

/-- The line is `history` without arguments. -/
def IsHistory (line : String) : Prop :=
  Text.words line = ["history"]

section Commands

variable {line : String}

/-- The lines that ask for content are the redirections. -/
theorem asksContent_iff : AsksContent line ↔ ∃ mode file, IsCommand line (.redirect mode file) := by
  constructor
  · rintro ⟨file, h | h⟩
    · exact ⟨.truncate, file, .overwrite, [file], h, rfl⟩
    · exact ⟨.append, file, .append, [file], h, rfl⟩
  · rintro ⟨mode, file, b, args, hwords, hread⟩
    have hb := Builtin.builtin_of_read? hread
    cases mode with
    | truncate =>
      subst hb
      obtain ⟨arg, rfl, -⟩ := Builtin.readOne_eq_some hread
      exact ⟨arg, Or.inl hwords⟩
    | append =>
      subst hb
      obtain ⟨arg, rfl, -⟩ := Builtin.readOne_eq_some hread
      exact ⟨arg, Or.inr hwords⟩

theorem isExit_iff : IsExit line ↔ IsCommand line .exit := by
  constructor
  · rintro ⟨args, hwords⟩
    exact ⟨.exit, args, hwords, rfl⟩
  · rintro ⟨b, args, hwords, hread⟩
    obtain rfl : Builtin.exit = b := Builtin.builtin_of_read? hread
    exact ⟨args, hwords⟩

theorem isHistory_iff : IsHistory line ↔ IsCommand line .history := by
  constructor
  · intro hwords
    exact ⟨.history, [], hwords, rfl⟩
  · rintro ⟨b, args, hwords, hread⟩
    obtain rfl : Builtin.history = b := Builtin.builtin_of_read? hread
    have hargs := (Builtin.isSome_read?_iff .history args).1 (Option.isSome_of_eq_some hread)
    rw [IsHistory, hwords, hargs]
    rfl

end Commands

/-- One turn of a session: the command line and the reply it was read from, the
reply that was taken as its content, and the bytes it has printed. -/
structure Turn where
  line : String
  reply : Reply
  content? : Option Reply
  printed : List UInt8
  line_eq : reply.line? = some line
  content_iff : content?.isSome = true ↔ AsksContent line

/-- The prompts that were shown in a turn, in order. -/
def Turn.prompts (turn : Turn) : List String :=
  prompt :: (turn.content?.map fun _ => Command.contentPrompt).toList

/-- The replies that were taken in a turn, one for each prompt. -/
def Turn.replies (turn : Turn) : List Reply :=
  turn.reply :: turn.content?.toList

/-- The bytes of a history as it is printed, one numbered line after the other. -/
def historyBytes (lines : List String) : List UInt8 :=
  linesBytes (lines.mapIdx fun i line => toString (i + 1) ++ " " ++ line)

namespace Console

/-- The turns of a session that starts in the console and has the result, and
the reply at the command prompt that has ended it. Without such a reply it was
ended by `exit`. -/
structure Transcript (c : Console) (result : EStateM.Result Fault Console Unit)
    (turns : List Turn) (last? : Option Reply) : Prop where
  asked : (outcomeState result).source.asked =
    c.source.asked ++ turns.flatMap Turn.prompts ++ (last?.map fun _ => prompt).toList
  replies : Serves c.source.replies (turns.flatMap Turn.replies ++ last?.toList)
    (outcomeState result).source.replies
  history : (outcomeState result).shell.session.history =
    c.shell.session.history ++ turns.map Turn.line
  remembered : (outcomeState result).source.remembered =
    c.source.remembered ++ turns.map Turn.line
  printed : (outcomeState result).shell.out.written =
    c.shell.out.written ++ turns.flatMap Turn.printed
  listed : ∀ before turn after, turns = before ++ turn :: after → IsHistory turn.line →
    turn.printed =
      historyBytes (c.shell.session.history ++ (before ++ [turn]).map Turn.line)
  exits : ∀ before turn after, turns = before ++ turn :: after → IsExit turn.line →
    after = [] ∧ last? = none
  ended : last? = none → turns = [] ∧ c.shell.session.exiting = true ∨
    ∃ before turn, turns = before ++ [turn] ∧ IsExit turn.line
  stopped : c.shell.session.exiting = true → turns = [] ∧ last? = none
  last : ∀ reply, last? = some reply → reply.line? = none
  fault : fault? result = last?.bind Reply.fault?

variable {c d : Console} {line : String}

theorem showPrompt_eq (prompt : String) (c : Console) :
    showPrompt prompt c = onShell (Shell.print (c.source.shownPrompt prompt)) c := by
  rw [showPrompt, Source.shownPrompt]
  split
  · rfl
  · have hprint : Shell.print "" c.shell = .ok () c.shell := by
      rw [Shell.print_eq, Shell.wrote, Text.encode_empty, if_pos (Sink.fits_nil _),
        Sink.write_nil]
    exact (onShell_of_ok hprint).symm

theorem exists_takeReply (c : Console) :
    ∃ d, takeReply c = (match c.source.next.1.fault? with
        | some e => .error e d
        | none => .ok c.source.next.1.line? d) ∧
      d.source = c.source.next.2 ∧ d.shell.out = c.shell.out := by
  unfold takeReply
  cases c.source.next.1 with
  | line text => exact ⟨_, rfl, rfl, rfl⟩
  | undecodable reason => exact ⟨_, rfl, rfl, rfl⟩
  | done => exact ⟨_, rfl, rfl, rfl⟩
  | failure text => exact ⟨_, rfl, rfl, rfl⟩

section Asking

variable {prompt : String}

/-- Once its prompt is shown, asking for a line is taking a reply. -/
theorem exists_readLine_of_fits
    (h : c.shell.out.Fits (Text.encode (c.source.shownPrompt prompt))) :
    ∃ d, readLine prompt c = (match c.source.next.1.fault? with
        | some e => .error e d
        | none => .ok c.source.next.1.line? d) ∧
      d.source = c.source.next.2.ask prompt ∧ Shell.Within Eq c.shell d.shell ∧
      d.shell.out = c.shell.out.write (Text.encode (c.source.shownPrompt prompt)) := by
  let asked : Console := { c with source := c.source.ask prompt }
  let shown : Console := asked.withShell (c.shell.wrote (c.source.shownPrompt prompt))
  have hprint := Shell.print_eq (c.source.shownPrompt prompt) c.shell
  rw [if_pos h] at hprint
  have hshow : showPrompt prompt asked = .ok () shown :=
    (showPrompt_eq prompt asked).trans (onShell_of_ok (c := asked) hprint)
  have hread : readLine prompt c = takeReply shown := by
    simp only [readLine, asked] at hshow ⊢
    rw [hshow]
  obtain ⟨d, htake, hsource, hout⟩ := exists_takeReply shown
  have hnext : shown.source.next = (c.source.next.1, c.source.next.2.ask prompt) :=
    Source.next_ask c.source prompt
  rw [hnext] at htake hsource
  have hd : outcomeState (takeReply shown) = d := by
    rw [htake]
    split <;> rfl
  have hwithin := within_readLine prompt c
  rw [hread, hd] at hwithin
  exact ⟨d, hread.trans htake, hsource, hwithin, hout⟩

theorem exists_readLine_of_not_fits
    (h : ¬ c.shell.out.Fits (Text.encode (c.source.shownPrompt prompt))) :
    ∃ d, readLine prompt c = .error .outputClosed d ∧ Shell.Within Eq c.shell d.shell ∧
      d.shell.out = c.shell.out.write (Text.encode (c.source.shownPrompt prompt)) := by
  let asked : Console := { c with source := c.source.ask prompt }
  have hprint := Shell.print_eq (c.source.shownPrompt prompt) c.shell
  rw [if_neg h] at hprint
  have hshow : showPrompt prompt asked =
      .error .outputClosed (asked.withShell (c.shell.wrote (c.source.shownPrompt prompt))) :=
    (showPrompt_eq prompt asked).trans (onShell_of_error (c := asked) hprint)
  refine ⟨asked.withShell (c.shell.wrote (c.source.shownPrompt prompt)), ?_,
    Shell.within_wrote _ _, rfl⟩
  simp only [readLine, asked] at hshow ⊢
  rw [hshow]

/-- On a source that does not show its prompts, asking for a line takes a reply
and prints nothing. -/
theorem exists_readLine_eq (prompt : String) (hecho : c.source.echo = false) :
    ∃ d, readLine prompt c = (match c.source.next.1.fault? with
        | some e => .error e d
        | none => .ok c.source.next.1.line? d) ∧
      d.source = c.source.next.2.ask prompt ∧
      d.shell.session = c.shell.session ∧ d.shell.out = c.shell.out := by
  have hsilent := c.source.shownPrompt_of_silent hecho prompt
  obtain ⟨d, hread, hsource, hwithin, hout⟩ := exists_readLine_of_fits (c := c) (by
    rw [hsilent]
    exact Sink.fits_nil _)
  rw [hsilent, Text.encode_empty, Sink.write_nil] at hout
  exact ⟨d, hread, hsource, hwithin.session, hout⟩

/-- An action that asks goes on with what the reply answers. -/
theorem exists_run_ask_of_fits
    (h : c.shell.out.Fits (Text.encode (c.source.shownPrompt prompt))) :
    ∃ d, (∀ next, (Action.ask prompt next).run c = (next c.source.next.1.answer).run d) ∧
      d.source = c.source.next.2.ask prompt ∧ Shell.Within Eq c.shell d.shell ∧
      d.shell.out = c.shell.out.write (Text.encode (c.source.shownPrompt prompt)) := by
  obtain ⟨d, hread, hd⟩ := exists_readLine_of_fits h
  refine ⟨d, fun next => ?_, hd⟩
  rw [Reply.answer]
  cases hfault : c.source.next.1.fault? with
  | some e =>
    rw [hfault] at hread
    exact run_ask_of_error hread
  | none =>
    rw [hfault] at hread
    exact run_ask_of_ok hread

/-- If the output does not take its prompt, the fault is the answer. -/
theorem exists_run_ask_of_not_fits
    (h : ¬ c.shell.out.Fits (Text.encode (c.source.shownPrompt prompt))) :
    ∃ d, (∀ next, (Action.ask prompt next).run c = (next (.error .outputClosed)).run d) ∧
      Shell.Within Eq c.shell d.shell ∧
      d.shell.out = c.shell.out.write (Text.encode (c.source.shownPrompt prompt)) := by
  obtain ⟨d, hread, hd⟩ := exists_readLine_of_not_fits h
  exact ⟨d, fun next => run_ask_of_error hread, hd⟩

end Asking

/-- What a line has done to the records, the output and the source of a session
whose output takes everything. -/
structure Did (line : String) (c d : Console) : Prop where
  history : d.shell.session.history = c.shell.session.history ++ [line]
  exiting : d.shell.session.exiting = true ↔ c.shell.session.exiting = true ∨ IsExit line
  unlimited : d.shell.out.room? = none
  written : c.shell.out.written <+: d.shell.out.written
  listed : IsHistory line → d.shell.out.written =
    c.shell.out.written ++ historyBytes (c.shell.session.history ++ [line])
  content : AsksContent line → d.source = c.source.next.2.ask Command.contentPrompt
  silent : ¬ AsksContent line → d.source = c.source

/-- A line changes neither the failure at the end of the source nor whether its
prompts are shown. -/
theorem Did.keeps_source (h : Did line c d) :
    d.source.fault? = c.source.fault? ∧ d.source.echo = c.source.echo := by
  by_cases hasks : AsksContent line
  · rw [h.content hasks, Source.ask, c.source.next_eq]
    exact ⟨rfl, rfl⟩
  · rw [h.silent hasks]
    exact ⟨rfl, rfl⟩

theorem OnlyAnswers.exists_did {answer : String} {result : EStateM.Result Fault Console Unit}
    (h : OnlyAnswers line answer c result) (hout : c.shell.out.room? = none)
    (hline : ∀ command, ¬ IsCommand line command) : ∃ d, result = .ok () d ∧ Did line c d := by
  have hok := h.outcome
  rw [if_pos (Shell.fits_of_unlimited hout _)] at hok
  refine ⟨_, hok, ?_⟩
  have hexit : ¬ IsExit line := fun he => hline _ (isExit_iff.1 he)
  have hcontent : ¬ AsksContent line := by
    intro ha
    obtain ⟨mode, file, hcommand⟩ := asksContent_iff.1 ha
    exact hline _ hcommand
  constructor
  · rw [h.session, Session.history_record]
  · rw [h.session, Session.exiting_record]
    exact (or_iff_left hexit).symm
  · rw [h.out]
    exact Shell.unlimited_write hout _
  · rw [h.out, Sink.written_write_of_unlimited _ hout]
    exact List.prefix_append _ _
  · intro hlist
    exact absurd (isHistory_iff.1 hlist) (hline _)
  · intro ha
    exact absurd ha hcontent
  · intro _
    exact h.source

section Run

variable {command : Command} {name : String} {args : List String}

/-- A guarded body on a shell without a limit ends well, in a console whose source
is the same. -/
theorem exists_onShell_guarded_eq_ok {body : ShellM Unit} {limit : Nat} {already : Bool}
    (h : Truncates (Shell.comparison limit already) body) (name : String)
    (hout : c.shell.out.room? = none) :
    ∃ s', onShell (Command.guarded name body) c = .ok () (c.withShell s') ∧
      Command.guarded name body c.shell = .ok () s' ∧ Shell.Grows c.shell s' := by
  obtain ⟨s', hs', hgrows⟩ := Command.exists_guarded_eq_ok h name hout
  exact ⟨s', onShell_of_ok (s := c.shell) hs', hs', hgrows⟩

/-- A redirection takes one reply, whatever it is, and goes on with it. -/
theorem exists_redirect_eq_ok {mode : WriteMode} {file : String}
    (hline : IsCommand line (.redirect mode file)) (hout : c.shell.out.room? = none)
    (hecho : c.source.echo = false) :
    ∃ d, (Command.redirect mode file).action.run (c.started line name args) = .ok () d ∧
      Did line c d := by
  have hasks : AsksContent line := asksContent_iff.2 ⟨mode, file, hline⟩
  have hexit : ¬ IsExit line := fun h => by cases hline.eq (isExit_iff.1 h)
  have hlist : ¬ IsHistory line := fun h => by cases hline.eq (isHistory_iff.1 h)
  have hsilent : (c.started line name args).source.shownPrompt Command.contentPrompt = "" :=
    Source.shownPrompt_of_silent hecho _
  obtain ⟨d, hrun, hsource, hwithin, hdout⟩ :=
    exists_run_ask_of_fits (c := c.started line name args) (by
      rw [hsilent]
      exact Sink.fits_nil _)
  rw [hsilent, Text.encode_empty, Sink.write_nil] at hdout
  have hsession := hwithin.session
  have hfinish (answer : Except Fault (Option String)) :
      ∃ d', onShell (Command.guarded (Command.redirect mode file).builtin.name
        (Command.finishRedirect mode file answer)) d = .ok () d' ∧ Did line c d' := by
    have htruncates :
        Truncates (Shell.comparison 0 false) (Command.finishRedirect mode file answer) :=
      Command.truncates_finishRedirect mode file answer
    obtain ⟨s', hok, hguarded, hgrows⟩ := exists_onShell_guarded_eq_ok htruncates
      (Command.redirect mode file).builtin.name (hdout ▸ hout)
    have hrecords := Command.moves_guarded_sameRecords
      (Command.moves_finishRedirect_sameRecords mode file answer)
      (Command.redirect mode file).builtin.name d.shell
    rw [hguarded] at hrecords
    refine ⟨_, hok, ?_, ?_, ?_, ?_, fun h => absurd h hlist, fun _ => hsource,
      fun h => absurd hasks h⟩
    · refine hrecords.history.trans ?_
      rw [hsession]
      rfl
    · have hexiting : s'.session.exiting = _ := hrecords.exiting
      rw [or_iff_left hexit]
      change s'.session.exiting = true ↔ _
      rw [hexiting, hsession]
      rfl
    · exact hgrows.unlimited (hdout ▸ hout)
    · have hwritten := hgrows.written
      rw [hdout] at hwritten
      exact hwritten
  rw [Command.action, hrun]
  exact hfinish _

/-- A command acts and takes nothing from the source. -/
theorem exists_act_eq_ok (hline : IsCommand line command)
    (hact : ∀ mode file, command ≠ .redirect mode file) (hout : c.shell.out.room? = none) :
    ∃ d, command.action.run (c.started line name args) = .ok () d ∧ Did line c d := by
  have hasks : ¬ AsksContent line := by
    intro h
    obtain ⟨mode, file, hredirect⟩ := asksContent_iff.1 h
    exact hact mode file (hline.eq hredirect)
  have htruncates : Truncates (Shell.comparison 0 false) command.run := command.truncates_run
  obtain ⟨s', hok, hguarded, hgrows⟩ := exists_onShell_guarded_eq_ok
    (c := c.started line name args) htruncates command.builtin.name hout
  have hrecords : s'.session.history = c.shell.session.history ++ [line] ∧
      (s'.session.exiting = true ↔ c.shell.session.exiting = true ∨ IsExit line) := by
    by_cases hexit : command = .exit
    · subst hexit
      cases hguarded
      exact ⟨rfl, by simp [isExit_iff.2 hline]⟩
    · have hsame := Command.moves_guarded_sameRecords (Command.moves_run_sameRecords hexit)
        command.builtin.name (c.started line name args).shell
      rw [hguarded] at hsame
      refine ⟨hsame.history, ?_⟩
      have hno : ¬ IsExit line := fun h => hexit (hline.eq (isExit_iff.1 h))
      have hexiting : s'.session.exiting = _ := hsame.exiting
      rw [or_iff_left hno, hexiting]
      rfl
  rw [run_action_of_ne_redirect hact]
  refine ⟨_, hok, hrecords.1, hrecords.2, hgrows.unlimited hout, hgrows.written, ?_,
    fun h => absurd h hasks, fun _ => rfl⟩
  intro hlist
  obtain rfl := hline.eq (isHistory_iff.1 hlist)
  obtain ⟨t, ht, hwritten⟩ := Command.guarded_printHistory
    (s := (c.started line name args).shell) Builtin.history.name hout
  have hsame : s' = t := by
    have hboth := hguarded.symm.trans ht
    cases hboth
    rfl
  rw [hsame]
  exact hwritten

/-- Where the output takes everything a line never ends the session by a
fault. -/
theorem exists_runLine_eq_ok (line : String) (hout : c.shell.out.room? = none)
    (hecho : c.source.echo = false) :
    ∃ d, runLine .builtins line c = .ok () d ∧ Did line c d := by
  rcases isCommand_or_onlyAnswers line c with ⟨command, name, args, hline, hrun⟩ | ⟨hline, _, h⟩
  · rw [hrun]
    by_cases hredirect : ∃ mode file, command = .redirect mode file
    · obtain ⟨mode, file, rfl⟩ := hredirect
      exact exists_redirect_eq_ok hline hout hecho
    · refine exists_act_eq_ok hline (fun mode file h => hredirect ⟨mode, file, h⟩) hout
  · exact h.exists_did hout hline

end Run

section Loop

variable {result : EStateM.Result Fault Console Unit} {turns : List Turn} {last? : Option Reply}

/-- What a turn makes of a console. -/
structure Takes (turn : Turn) (c d : Console) : Prop where
  asked : d.source.asked = c.source.asked ++ turn.prompts
  replies : Serves c.source.replies turn.replies d.source.replies
  history : d.shell.session.history = c.shell.session.history ++ [turn.line]
  remembered : d.source.remembered = c.source.remembered ++ [turn.line]
  printed : d.shell.out.written = c.shell.out.written ++ turn.printed
  listed : IsHistory turn.line →
    turn.printed = historyBytes (c.shell.session.history ++ [turn.line])
  starts : c.shell.session.exiting ≠ true
  exiting : d.shell.session.exiting = true ↔ IsExit turn.line

/-- A session that is asked to end does nothing more. -/
theorem transcript_of_exiting (h : c.shell.session.exiting = true) :
    Transcript c (.ok () c) [] none where
  asked := by simp [outcomeState]
  replies := Or.inl rfl
  history := by simp [outcomeState]
  remembered := by simp [outcomeState]
  printed := by simp [outcomeState]
  listed before turn after h := by simp at h
  exits before turn after h := by simp at h
  ended _ := Or.inl ⟨rfl, h⟩
  stopped _ := ⟨rfl, rfl⟩
  last _ h := by cases h
  fault := rfl

/-- A reply at the command prompt that is no line ends the session. -/
theorem transcript_of_last {reply : Reply} (h : c.shell.session.exiting ≠ true)
    (hreply : c.source.next.1 = reply) (hline : reply.line? = none)
    (hsource : (outcomeState result).source = c.source.next.2.ask prompt)
    (hsession : (outcomeState result).shell.session = c.shell.session)
    (hout : (outcomeState result).shell.out = c.shell.out) (hfault : c.source.fault? = none)
    (hresult : fault? result = reply.fault?) : Transcript c result [] (some reply) where
  asked := by
    rw [hsource, Source.ask, c.source.next_eq]
    simp
  replies := by
    rw [hsource, ← hreply]
    exact Source.serves_next hfault
  history := by simp [hsession]
  remembered := by
    rw [hsource, Source.ask, c.source.next_eq]
    simp
  printed := by simp [hout]
  listed before turn after h := by simp at h
  exits before turn after h := by simp at h
  ended h := by cases h
  stopped hexit := absurd hexit h
  last _ h := by
    cases h
    exact hline
  fault := hresult

/-- A turn before the others. -/
theorem Transcript.cons {turn : Turn} (hturn : Takes turn c d)
    (h : Transcript d result turns last?) : Transcript c result (turn :: turns) last? where
  asked := by
    rw [h.asked, hturn.asked]
    simp
  replies := by
    rw [List.flatMap_cons, List.append_assoc]
    exact hturn.replies.append h.replies
  history := by
    rw [h.history, hturn.history]
    simp
  remembered := by
    rw [h.remembered, hturn.remembered]
    simp
  printed := by
    rw [h.printed, hturn.printed]
    simp
  listed before other after hturns hlist := by
    rcases List.cons_eq_append_iff.1 hturns with ⟨rfl, hcons⟩ | ⟨before, rfl, hrest⟩
    · obtain ⟨rfl, -⟩ := List.cons.inj hcons
      exact hturn.listed hlist
    · rw [h.listed before other after hrest hlist, hturn.history]
      simp
  exits before other after hturns hexit := by
    rcases List.cons_eq_append_iff.1 hturns with ⟨rfl, hcons⟩ | ⟨before, rfl, hrest⟩
    · obtain ⟨rfl, rfl⟩ := List.cons.inj hcons
      exact h.stopped (hturn.exiting.2 hexit)
    · exact h.exits before other after hrest hexit
  ended hlast := by
    rcases h.ended hlast with ⟨rfl, hexit⟩ | ⟨before, other, rfl, hexit⟩
    · exact Or.inr ⟨[], turn, rfl, hturn.exiting.1 hexit⟩
    · exact Or.inr ⟨turn :: before, other, rfl, hexit⟩
  stopped hexit := absurd hexit hturn.starts
  last := h.last
  fault := h.fault

/-- The console `d` is what a line that was read and remembered leaves of `c`. -/
theorem exists_takes {between : Console} (hexit : c.shell.session.exiting ≠ true)
    (hfault : c.source.fault? = none) (hreply : c.source.next.1.line? = some line)
    (hsource : between.source = (c.source.next.2.ask prompt).remember line)
    (hsession : between.shell.session = c.shell.session)
    (hout : between.shell.out = c.shell.out) (hdid : Did line between d) :
    ∃ turn, Takes turn c d := by
  obtain ⟨printed, hprinted⟩ := hdid.written
  have hlisted (h : IsHistory line) :
      printed = historyBytes (c.shell.session.history ++ [line]) := by
    have hboth := hdid.listed h
    rw [← hprinted, hsession] at hboth
    exact List.append_cancel_left hboth
  have hnext : c.source.next.2 = { c.source with replies := c.source.next.2.replies } :=
    c.source.next_eq
  have hexiting : d.shell.session.exiting = true ↔ IsExit line := by
    rw [hdid.exiting, hsession, or_iff_right hexit]
  have hhistory : d.shell.session.history = c.shell.session.history ++ [line] := by
    rw [hdid.history, hsession]
  rw [hout] at hprinted
  by_cases hasks : AsksContent line
  · have hd := hdid.content hasks
    have hbetween : between.source.next.2 =
        { between.source with replies := between.source.next.2.replies } :=
      between.source.next_eq
    have hfault' : between.source.fault? = none := by
      rw [hsource, hnext]
      exact hfault
    refine ⟨⟨line, c.source.next.1, some between.source.next.1, printed, hreply,
      by simp [hasks]⟩, ?_, ?_, hhistory, ?_, hprinted.symm, hlisted, hexit, hexiting⟩
    · rw [hd, Source.ask, hbetween, hsource, hnext]
      simp [Source.ask, Source.remember, Turn.prompts]
    · have hsecond := Source.serves_next hfault'
      rw [hd]
      refine (Source.serves_next hfault).append ?_
      rw [hsource] at hsecond ⊢
      exact hsecond
    · rw [hd, Source.ask, hbetween, hsource, hnext]
      rfl
  · have hd := hdid.silent hasks
    refine ⟨⟨line, c.source.next.1, none, printed, hreply, by simp [hasks]⟩, ?_, ?_, hhistory, ?_,
      hprinted.symm, hlisted, hexit, hexiting⟩
    · rw [hd, hsource, hnext]
      rfl
    · rw [hd, hsource]
      exact Source.serves_next hfault
    · rw [hd, hsource, hnext]
      rfl

theorem exists_transcript_rounds {n : Nat} (hn : c.source.replies.length < n)
    (hout : c.shell.out.room? = none) (hecho : c.source.echo = false)
    (hfault : c.source.fault? = none) :
    ∃ turns last?, Transcript c (rounds .builtins n c) turns last? := by
  induction n generalizing c with
  | zero => cases hn
  | succ n ih =>
    by_cases hexit : c.shell.session.exiting = true
    · rw [rounds_of_exiting hexit]
      exact ⟨[], none, transcript_of_exiting hexit⟩
    · obtain ⟨d, hread, hsource, hsession, hdout⟩ := exists_readLine_eq prompt hecho
      cases hreply : c.source.next.1.fault? with
      | some e =>
        rw [hreply] at hread
        rw [rounds_of_error hexit hread]
        have hline : c.source.next.1.line? = none := by
          cases hnext : c.source.next.1 <;> simp [hnext, Reply.fault?, Reply.line?] at hreply ⊢
        exact ⟨[], _, transcript_of_last hexit rfl hline hsource hsession hdout hfault hreply.symm⟩
      | none =>
        rw [hreply] at hread
        cases hline : c.source.next.1.line? with
        | none =>
          rw [hline] at hread
          rw [rounds_of_none hexit hread]
          exact ⟨[], _, transcript_of_last hexit rfl hline hsource hsession hdout hfault
            hreply.symm⟩
        | some line =>
          rw [hline] at hread
          have hnext : c.source.next.2 = { c.source with replies := c.source.next.2.replies } :=
            c.source.next_eq
          have hbetween : d.source.fault? = none ∧ d.source.echo = false := by
            rw [hsource, Source.ask, hnext]
            exact ⟨hfault, hecho⟩
          obtain ⟨e, hrun, hdid⟩ := exists_runLine_eq_ok line
            (c := { d with source := d.source.remember line }) (hdout ▸ hout) hbetween.2
          have hasked : ({ d with source := d.source.remember line } : Console).source =
              (c.source.next.2.ask prompt).remember line :=
            congrArg (Source.remember · line) hsource
          obtain ⟨turn, hturn⟩ := exists_takes hexit hfault hline hasked hsession hdout hdid
          have hafter := hdid.keeps_source
          have hle := replies_runLine_le .builtins line { d with source := d.source.remember line }
          have hlt := replies_readLine_lt hread
          rw [hrun, outcomeState, Source.replies_remember] at hle
          obtain ⟨turns, last?, h⟩ := ih (c := e) (by omega) hdid.unlimited
            (hafter.2.trans hbetween.2) (hafter.1.trans hbetween.1)
          rw [rounds_of_some hexit hread, bind_of_ok hrun]
          exact ⟨turn :: turns, last?, h.cons hturn⟩

/-- Every session on an output that takes everything goes in turns. -/
theorem exists_transcript (hout : c.shell.out.room? = none) (hecho : c.source.echo = false)
    (hfault : c.source.fault? = none) :
    ∃ turns last?, Transcript c (repl .builtins c) turns last? := by
  rw [repl_eq_rounds (Nat.lt_succ_self _)]
  exact exists_transcript_rounds (Nat.lt_succ_self _) hout hecho hfault

/-- A session that is given the end of input and then an `exit` where it asks for
content, and has a line left after the `exit` that ends it. -/
def dictated : Console where
  shell :=
    { host := { tree := Tree.empty.plantAll [(Path.ofText "/w", .dir)] }
      session := { cwd := Path.ofText "/w" } }
  source :=
    { replies := [.line "> f", .done, .line ">> f", .line "exit", .line "history", .line "exit",
        .line "pwd"] }

theorem exists_transcript_dictated :
    ∃ turns last?, Transcript dictated (repl .builtins dictated) turns last? :=
  exists_transcript rfl rfl rfl

end Loop

end Console

end TreeShell
