import TreeShell.Proofs.Command.Truncation

/-!
# What commands record

No command but `exit` touches the history or asks for the end of the session
(`moves_run_sameRecords`), and on an output without a limit every command ends
well, since its fault can be printed (`exists_guarded_eq_ok`). What `history`
prints is the history, numbered from one (`guarded_printHistory`).
-/

namespace TreeShell

namespace Shell

variable {s s' : Shell}

/-- The history and the wish to exit are the same. -/
structure SameRecords (s s' : Shell) : Prop where
  history : s'.session.history = s.session.history
  exiting : s'.session.exiting = s.session.exiting

instance : IsPreorder Shell SameRecords where
  refl _ := ⟨rfl, rfl⟩
  trans _ _ _ h h' := ⟨h'.history.trans h.history, h'.exiting.trans h.exiting⟩

/-- Any two trees. -/
def AnyTrees (_ _ : Tree) : Prop := True

theorem anyTrees (t u : Tree) : AnyTrees t u := trivial

instance : IsPreorder Tree AnyTrees where
  refl t := anyTrees t t
  trans t _ v _ _ := anyTrees t v

theorem holdsOfCalls_anyTrees : Tree.HoldsOfCalls AnyTrees :=
  ⟨fun _ t u _ => anyTrees t u, fun _ t u _ => anyTrees t u, fun _ _ t u _ => anyTrees t u,
    fun _ t u _ => anyTrees t u, fun _ t u _ => anyTrees t u, fun _ t => anyTrees t _⟩

theorem sameRecords_of_within {R : Tree → Tree → Prop} (h : Within R s s') : SameRecords s s' :=
  ⟨by rw [h.session], by rw [h.session]⟩

/-- What keeps the session keeps its records. -/
theorem moves_sameRecords {α : Type} {m : ShellM α} (h : Moves (Within AnyTrees) m) :
    Moves SameRecords m :=
  h.mono fun _ _ => sameRecords_of_within

theorem moves_setCwd_sameRecords (dir : Path) : Moves SameRecords (setCwd dir) :=
  fun _ => ⟨rfl, rfl⟩

/-- Without a limit all lines are printed. -/
theorem exists_printLines_eq_ok (texts : List String) (h : s.out.room? = none) :
    ∃ s', printLines texts s = .ok () s' ∧ s'.out.written = s.out.written ++ linesBytes texts := by
  induction texts generalizing s with
  | nil => exact ⟨s, rfl, by rw [linesBytes_nil, List.append_nil]⟩
  | cons text rest ih =>
    obtain ⟨s', hs', hwritten⟩ := ih (s := s.wrote (text ++ "\n")) (unlimited_write h _)
    refine ⟨s', ?_, ?_⟩
    · rw [printLines, bind_of_ok (printLine_of_unlimited h text), hs']
    · have hfirst : (s.wrote (text ++ "\n")).out.written =
          s.out.written ++ Text.encode (text ++ "\n") := Sink.written_write_of_unlimited _ h
      rw [hwritten, hfirst, linesBytes_cons, List.append_assoc]

end Shell

namespace Command

open Shell

variable {s : Shell} {name : String} {body : ShellM Unit}

theorem moves_run_sameRecords {command : Command} (h : command ≠ .exit) :
    Moves SameRecords command.run :=
  moves_run (fun _ _ => sameRecords_of_within) moves_setCwd_sameRecords holdsOfCalls_anyTrees
    fun hexit => absurd hexit h

theorem moves_finishRedirect_sameRecords (mode : WriteMode) (file : String)
    (answer : Except Fault (Option String)) : Moves SameRecords (finishRedirect mode file answer) :=
  moves_sameRecords (moves_finishRedirect (fun _ _ t u _ => anyTrees t u) file answer)

theorem moves_guarded_sameRecords (h : Moves SameRecords body) (name : String) :
    Moves SameRecords (guarded name body) :=
  fun s => related_guarded (fun _ _ => sameRecords_of_within) name (h s)

/-- Without a limit a command ends well, and leaves an output without a limit
that has only been added to. -/
theorem exists_guarded_eq_ok {limit : Nat} {already : Bool}
    (h : Truncates (Shell.comparison limit already) body)
    (name : String) (hout : s.out.room? = none) :
    ∃ s', guarded name body s = .ok () s' ∧ Grows s s' := by
  have hgrows := (truncates_guarded h name).grows s
  rw [guarded_eq_handle] at hgrows ⊢
  cases hb : body s with
  | ok a t =>
    rw [handle_of_ok hb] at hgrows ⊢
    exact ⟨t, rfl, hgrows⟩
  | error e t =>
    have ht : t.out.room? = none := by
      have hbody : Grows s (outcomeState (body s)) := h.grows s
      rw [hb] at hbody
      exact hbody.unlimited hout
    have hreport : report name e t = .ok () _ :=
      printLine_of_unlimited (s := t.noted .debug (name ++ " failed: " ++ e.text)) ht e.text
    rw [handle_of_error hb, hreport] at hgrows ⊢
    exact ⟨_, rfl, hgrows⟩

theorem numbered_eq_mapIdx (i : Nat) (lines : List String) :
    numbered i lines = lines.mapIdx fun j line => toString (j + i) ++ " " ++ line := by
  induction lines generalizing i with
  | nil => rfl
  | cons line rest ih =>
    rw [numbered, ih, List.mapIdx_cons, Nat.zero_add]
    congr 2
    funext j line
    rw [Nat.add_assoc, Nat.add_comm 1 i]

theorem guarded_printHistory (name : String) (hout : s.out.room? = none) :
    ∃ s', guarded name printHistory s = .ok () s' ∧ s'.out.written = s.out.written ++
      linesBytes (s.session.history.mapIdx fun i line => toString (i + 1) ++ " " ++ line) := by
  obtain ⟨s', hs', hwritten⟩ := exists_printLines_eq_ok (numbered 1 s.session.history) hout
  rw [numbered_eq_mapIdx] at hwritten
  refine ⟨s', ?_, hwritten⟩
  have hbody : printHistory s = .ok () s' := hs'
  rw [guarded_eq_handle, handle_of_ok hbody]
  rfl

end Command

end TreeShell
