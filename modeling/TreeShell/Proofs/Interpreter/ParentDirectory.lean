import TreeShell.Proofs.Interpreter.AllOrNothing
import TreeShell.Proofs.Interpreter.ChangeDirectory
import TreeShell.Proofs.Interpreter.Frame

/-!
# Going to the parent directory

`cd ..` cuts the last component off the text of the current directory. That is
the parent directory if the component is a name. But `cd` also stores texts that
end in `..`, such as `d/..`, and cutting that off goes down, into `d`. So `cd ..`
goes to the parent, and fails at the root, exactly for the other texts
(`cd_parent_iff`).
-/

namespace TreeShell

/-- Cutting off the last component is going up: the component is not `..`, and the
empty path is not what is left. -/
def Path.CutsUp (p : Path) : Prop :=
  p.components.2.getLast?.map Piece.text ≠ some ".." ∧ p.parent? ≠ some Path.empty

instance (p : Path) : Decidable p.CutsUp := by
  unfold Path.CutsUp; infer_instance

namespace Path

variable {p q : Path} {piece : Piece}

theorem mem_body_of_getLast? (h : p.components.2.getLast? = some piece) :
    piece ∈ p.body ∧ piece.isIdle = false := by
  have hmem := List.mem_of_getLast? h
  simpa [components] using hmem

theorem cutsUp_of_parent?_eq_none (hne : p ≠ empty) (h : p.parent? = none) : p.CutsUp := by
  obtain ⟨-, hidle⟩ := (parent?_eq_none_iff hne).1 h
  refine ⟨?_, by simp [h]⟩
  intro hdots
  obtain ⟨piece, hlast, -⟩ := Option.map_eq_some_iff.1 hdots
  obtain ⟨hbody, hpiece⟩ := mem_body_of_getLast? hlast
  have hmem : piece ∈ p.pieces := by
    rw [pieces_eq_lead_append]
    exact List.mem_append_right _ hbody
  rw [hidle piece hmem] at hpiece
  cases hpiece

theorem ne_of_parent? (h : p.parent? = some q) : q ≠ p := by
  rintro rfl
  by_cases hq : q = empty
  · rw [hq, parent?_empty] at h
    cases h
  · obtain ⟨pieces, idles, piece, rest, hbody, hbuild, hlast, -, -⟩ :=
      exists_body_eq_of_parent? h hq
    by_cases hnil : pieces = []
    · -- what is left is the root or `.`, which have no name to cut off
      obtain ⟨hmem, hidle⟩ := mem_body_of_getLast? hlast
      subst hnil
      cases hs : q.start with
      | bare =>
        rw [hs] at hbuild
        exact hq hbuild
      | root =>
        rw [hs] at hbuild
        rw [hbuild] at hmem
        cases List.mem_singleton.1 hmem
        cases hidle
      | here =>
        rw [hs] at hbuild
        rw [hbuild] at hmem
        cases hmem
    · have hpieces := pieces_build (s := q.start) hnil
      rw [← hbuild, pieces_eq_lead_append, List.append_cancel_left_eq, hbody] at hpieces
      have hlength := congrArg List.length hpieces
      simp at hlength

end Path

/-- A piece that is not idle goes up or enters. -/
theorem Step.from?_ofPiece {piece : Piece} {a b : Address} (hidle : piece.isIdle = false)
    (h : (Step.ofPiece piece).from? b = some a) :
    (piece.text = ".." ∧ a = b.tail) ∨ piece.text ≠ ".." ∧ ∃ n, a = n :: b := by
  unfold Step.ofPiece at h
  rw [if_neg (by simp [hidle])] at h
  split at h
  · next hdots =>
    cases h
    exact Or.inl ⟨hdots, rfl⟩
  · next hdots =>
    split at h
    · cases h
      exact Or.inr ⟨hdots, _, rfl⟩
    · split at h <;> cases h

namespace Tree

variable {t : Tree} {p q : Path} {a : Address}

/-- From the directory that the nearest path above leads to, the component that was cut off
leads on. -/
theorem exists_find_parent? (hl : t.Linkless) (hfind : t.find p = .ok (a, .dir))
    (h : p.parent? = some q) (hq : q ≠ Path.empty) :
    ∃ b piece, t.find q = .ok (b, .dir) ∧ p.components.2.getLast? = some piece ∧
      (Step.ofPiece piece).from? b = some a := by
  obtain ⟨hr, htrail⟩ := (find_eq_dir_iff hl).1 hfind
  obtain ⟨pieces, idles, piece, rest, hbody, rfl, hlast, hidles, hrest⟩ :=
    Path.exists_body_eq_of_parent? h hq
  rw [← trail_body, hbody, trail_append] at htrail
  obtain ⟨b, hb, hon⟩ := htrail
  rw [trail_idle_append hidles, trail_cons] at hon
  obtain ⟨-, c, hstep, hc⟩ := hon
  obtain ⟨-, rfl⟩ := (trail_idle hrest).1 hc
  have hbuild := find_of_trail (Path.refusal?_build hr hbody hq) ((trail_build hq).2 hb)
  exact ⟨b, piece, hbuild, hlast, hstep⟩

/-- The argument `..` of a command is the parent directory. -/
theorem find_join_dots (hl : t.Linkless) (hfind : t.find p = .ok (a, .dir))
    (hr : (p.join (Path.ofText "..")).refusal? = none) :
    t.find (p.join (Path.ofText "..")) = .ok (a.tail, .dir) := by
  obtain ⟨-, htrail⟩ := (find_eq_dir_iff hl).1 hfind
  have hpieces : (Path.ofText "..").pieces = [⟨"..", by decide⟩] := by decide
  have hdots : t.Trail a [⟨"..", by decide⟩] a.tail :=
    ⟨htrail.hasDir_end, a.tail, rfl, t.hasDir_tail htrail.hasDir_end, rfl⟩
  apply find_of_trail hr
  rw [Path.pieces_join p (by decide), hpieces]
  exact trail_append.2 ⟨a, trail_stem.2 htrail, hdots⟩

end Tree

/-- From the directory at `a` the session goes to the one that `a` lies in. From the
root it goes nowhere and says that this is an error. Both are what the argument `..`
leads to, unless that makes the path too long. -/
structure Shell.GoesToParent (s : Shell) (a : Address) (s' : Shell) : Prop where
  goes : a ≠ [] → s'.host.tree.find s'.session.cwd = .ok (a.tail, .dir)
  fails : a = [] → s'.session.cwd = s.session.cwd ∧
    ∃ reason, s'.out = s.out.write (Text.encode ("Error changing directory" ++ reason ++ "\n"))
  agrees : (s.session.resolve "..").refusal? = none →
    s'.host.tree.find s'.session.cwd = s.host.tree.find (s.session.resolve "..")

namespace Command

open Shell

variable {s : Shell} {a : Address}

theorem goesToParent_iff (hl : s.host.tree.Linkless)
    (hfind : s.host.tree.find s.session.cwd = .ok (a, .dir)) (name : String) :
    s.GoesToParent a (outcomeState (guarded name (changeDir .parent) s)) ↔
      s.session.cwd.CutsUp := by
  have hne : s.session.cwd ≠ Path.empty := by
    intro hempty
    have hr := Tree.refusal?_of_find hfind
    rw [hempty] at hr
    exact absurd hr (by decide)
  cases hparent : s.session.cwd.parent? with
  | none =>
    have hroot : a = [] := by
      by_contra ha
      obtain ⟨q, hq⟩ := Tree.exists_parent?_of_find hfind ha
      rw [hparent] at hq
      cases hq
    subst hroot
    rw [outcomeState_guarded_of_error (changeDir_parent_of_none hparent)]
    refine iff_of_true ⟨fun ha => absurd rfl ha, fun _ => ⟨rfl, ?_⟩, ?_⟩
      (Path.cutsUp_of_parent?_eq_none hne hparent)
    · refine ⟨": " ++ ("No parent directory: " ++ s.session.cwd.text), ?_⟩
      rw [← String.append_assoc]
      rfl
    · intro hr
      exact hfind.trans (Tree.find_join_dots hl hfind hr).symm
  | some q =>
    rw [outcomeState_guarded_of_ok (changeDir_parent_of_some hparent)]
    have hroot (h : s.GoesToParent a (s.moved q)) : a ≠ [] := fun ha =>
      Path.ne_of_parent? hparent (h.fails ha).1
    by_cases hq : q = Path.empty
    · refine iff_of_false ?_ fun hcuts => hcuts.2 (by rw [hparent, hq])
      intro h
      have hr : q.refusal? = none := Tree.refusal?_of_find (h.goes (hroot h))
      rw [hq] at hr
      exact absurd hr (by decide)
    · obtain ⟨b, piece, hfindq, hlast, hstep⟩ := Tree.exists_find_parent? hl hfind hparent hq
      rcases Step.from?_ofPiece (Path.mem_body_of_getLast? hlast).2 hstep with
        ⟨hdots, rfl⟩ | ⟨hname, n, rfl⟩
      · refine iff_of_false ?_ fun hcuts => hcuts.1 (by rw [hlast, ← hdots]; rfl)
        -- the path has led down, into the directory at `b`
        intro h
        have hback : s.host.tree.find q = .ok (b.tail.tail, .dir) := h.goes (hroot h)
        rw [hfindq, Except.ok.injEq, Prod.mk.injEq] at hback
        have hlength := congrArg List.length hback.1
        have hpos := List.length_pos_of_ne_nil (hroot h)
        simp only [List.length_tail] at hlength hpos
        omega
      · refine iff_of_true
          ⟨fun _ => hfindq, fun ha => absurd ha (List.cons_ne_nil n b), ?_⟩ ⟨?_, ?_⟩
        · intro hr
          exact hfindq.trans (Tree.find_join_dots hl hfind hr).symm
        · simp [hlast, hname]
        · simp [hparent, hq]

end Command

namespace Console

variable {c : Console} {lines : List String} {line : String} {a : Address}

/-- After any lines, in a tree without links, `cd ..` goes to the parent of the
current directory, and fails at the root, exactly if cutting off the last component
of its text is going up. -/
theorem cd_parent_iff (hlinks : c.shell.host.tree.Linkless)
    (hwords : Text.words line = ["cd", ".."])
    (hfind : (runLines .builtins c lines).shell.host.tree.find
      (runLines .builtins c lines).shell.session.cwd = .ok (a, .dir)) :
    (runLines .builtins c lines).shell.GoesToParent a
        (runLines .builtins c (lines ++ [line])).shell ↔
      (runLines .builtins c lines).shell.session.cwd.CutsUp := by
  have hl := linkless_runLines hlinks lines
  have hread : Builtin.cd.read? [".."] = some (.cd .parent) := rfl
  rw [runLines_concat]
  generalize runLines .builtins c lines = d at hl hfind ⊢
  have hiff := Command.goesToParent_iff (s := (d.started line "cd" [".."]).shell) hl hfind
    Builtin.cd.name
  rw [shell_runLine hwords hread nofun]
  constructor
  · intro h
    exact hiff.1 ⟨h.goes, h.fails, h.agrees⟩
  · intro h
    obtain ⟨hgoes, hfails, hagrees⟩ := hiff.2 h
    exact ⟨hgoes, hfails, hagrees⟩

theorem cd_parent_dot :
    (runLines .builtins (onTree [("/w", .dir)] "/w") ["cd ."]).shell.GoesToParent [nameW]
      (runLines .builtins (onTree [("/w", .dir)] "/w") ["cd .", "cd .."]).shell := by
  have hlinks : (onTree [("/w", .dir)] "/w").shell.host.tree.Linkless := by decide
  have hwords : Text.words "cd .." = ["cd", ".."] := by decide
  have hfind : (runLines .builtins (onTree [("/w", .dir)] "/w") ["cd ."]).shell.host.tree.find
      (runLines .builtins (onTree [("/w", .dir)] "/w") ["cd ."]).shell.session.cwd =
        .ok ([nameW], .dir) := by
    decide
  exact (cd_parent_iff hlinks hwords hfind).2 (by decide)

/-- From the root `cd ..` can go down and say nothing. -/
theorem cd_parent_below_root :
    (onTree [("/w", .dir)] "/w").shell.host.tree.Linkless ∧
      (runLines .builtins (onTree [("/w", .dir)] "/w") ["cd /w/.."]).shell.host.tree.find
        (runLines .builtins (onTree [("/w", .dir)] "/w") ["cd /w/.."]).shell.session.cwd =
          .ok ([], .dir) ∧
      (runLines .builtins (onTree [("/w", .dir)] "/w") ["cd /w/..", "cd .."]).shell.out.text = "" ∧
      ¬ (runLines .builtins (onTree [("/w", .dir)] "/w") ["cd /w/.."]).shell.GoesToParent []
        (runLines .builtins (onTree [("/w", .dir)] "/w") ["cd /w/..", "cd .."]).shell := by
  refine ⟨by decide +kernel, by decide +kernel, by decide +kernel, ?_⟩
  intro h
  have hstays := (h.fails rfl).1
  revert hstays
  decide +kernel

end Console

end TreeShell
