import TreeShell.Program.Run
import TreeShell.Proofs.Path.Absolute
import TreeShell.Proofs.Tree.IdlePieces
import TreeShell.Proofs.Tree.Lookup
import TreeShell.Tree.Listing

/-!
# Where a session starts

The start directory is made absolute without looking at the tree, and only then looked up.
It has the steps of the path that was asked for, with the links among them in their places,
so the two lead to the same directories (`Tree.leadsToDir_iff_find`). The session starts
exactly if there is one (`starts_where_asked`). Without an option this is the working
directory itself, as with a dot. Two slashes in front are not made one
(`startDir_of_two_slashes`), but lead to the root all the same.
-/

namespace TreeShell

/-- The path to the directory that the options ask for. -/
def Options.asked (o : Options) : Path :=
  Path.ofText (o.startDir?.getD ".")

variable {o : Options} {t : Tree} {host : Host} {here a : Address} {p q : Path}

namespace Tree

/-- For a process that works in the directory at `here` the path leads to the directory at
`a`. -/
structure LeadsToDir (t : Tree) (here : Address) (p : Path) (a : Address) : Prop where
  refusal : p.refusal? = none
  followed : t.follow .target maxLinks (if p.isAbsolute then [] else here) p.pieces = .ok a
  hasDir : t.HasDir a

/-- A path leads to a directory exactly if it does when it was made absolute, as far as the
lengths of the two go. -/
theorem leadsToDir_iff_find (hhere : t.HasDir here) (hne : p ≠ Path.empty)
    (hsize : p.text.utf8ByteSize ≤ Path.maxBytes)
    (hsize' : (here.path.absolute p).text.utf8ByteSize ≤ Path.maxBytes) :
    t.LeadsToDir here p a ↔ t.find (here.path.absolute p) = .ok (a, .dir) := by
  let start : Address := if p.isAbsolute then [] else here
  have hstart : t.HasDir start := by
    simp only [start]
    split
    · exact t.hasDir_nil
    · exact hhere
  have hsteps : ((here.path.absolute p).pieces.filter fun s => !s.isIdle) =
      (start.reverse.map FileName.piece ++ p.pieces).filter fun s => !s.isIdle := by
    have habsolute := Path.steps_absolute here p
    rw [Path.steps, Path.stepsFrom, Path.steps] at habsolute
    rw [habsolute, List.filter_append, Path.filter_names]
    simp only [start]
    split <;> rfl
  rw [find_eq_dir_iff_follow, Path.refusal?_absolute hne hsize hsize']
  constructor
  · rintro ⟨hr, hfollow, ha⟩
    rw [← follow_names_append _ hstart] at hfollow
    exact ⟨hr, follow_of_steps ha hsteps hfollow, ha⟩
  · rintro ⟨hr, hfollow, ha⟩
    refine ⟨hr, ?_, ha⟩
    rw [← follow_names_append _ hstart]
    exact follow_of_steps ha hsteps.symm hfollow

end Tree

theorem Path.ofText_eq_empty_iff {text : String} : Path.ofText text = Path.empty ↔ text = "" := by
  constructor
  · intro h
    rw [← Path.text_ofText text, h]
    rfl
  · rintro rfl
    decide

theorem startDir_eq (o : Options) (t : Tree) (here : Address) : o.startDir t here =
    if o.asked = Path.empty then .error .emptyPath
    else if t.isDir (here.path.absolute o.asked) then .ok (here.path.absolute o.asked)
    else .error (.notADirectory (here.path.absolute o.asked)) := by
  rw [Options.startDir, Options.asked]
  cases o.startDir? with
  | none =>
    have hdot : Path.ofText "." ≠ Path.empty := by decide
    rw [Option.getD_none, if_neg hdot, Path.absolute_dot]
    rfl
  | some text =>
    rw [Option.getD_some]
    by_cases htext : text = ""
    · rw [if_pos (Path.ofText_eq_empty_iff.2 htext), htext]
      rfl
    · rw [if_neg (mt Path.ofText_eq_empty_iff.1 htext)]
      simp only [pure_bind]
      rfl

namespace Options

theorem run_of_startDir (hstart : o.startDir host.tree here = .ok q) (editor : Editor)
    (input : List UInt8) : o.run editor here input host = o.runSession q editor input host := by
  simp only [run, hstart]

/-- Without a start directory there is no session, and the host is left as it is. -/
theorem run_of_startError {e : StartError} (hstart : o.startDir host.tree here = .error e)
    (editor : Editor) (input : List UInt8) :
    o.run editor here input host = { code := 1, errors := e.report, host := host } := by
  simp only [run, hstart]

end Options

theorem startDir_eq_ok_iff {dir : Path} : o.startDir t here = .ok dir ↔
    dir = here.path.absolute o.asked ∧ o.asked ≠ Path.empty ∧
      t.isDir (here.path.absolute o.asked) = true := by
  rw [startDir_eq]
  by_cases hempty : o.asked = Path.empty
  · simp [hempty]
  · rw [if_neg hempty]
    by_cases hdir : t.isDir (here.path.absolute o.asked) = true
    · simp [hdir, hempty, eq_comm]
    · simp [hdir]

/-- A session can start exactly if the path that is asked for leads to a directory from where
the process works. -/
theorem startDir_eq_ok_iff_leadsToDir {dir : Path} (hhere : t.HasDir here) (hp : o.asked = p)
    (hsize : p.text.utf8ByteSize ≤ Path.maxBytes)
    (hsize' : (here.path.absolute p).text.utf8ByteSize ≤ Path.maxBytes) :
    o.startDir t here = .ok dir ↔
      dir = here.path.absolute p ∧ ∃ a, t.LeadsToDir here p a := by
  rw [startDir_eq_ok_iff, hp, and_congr_right_iff]
  rintro -
  by_cases hne : p = Path.empty
  · rw [iff_false_left (fun h => h.1 hne)]
    rintro ⟨a, hleads⟩
    exact ((Path.refusal?_eq_none_iff p).1 hleads.refusal).2.2 hne
  · simp only [Tree.leadsToDir_iff_find hhere hne hsize hsize', ← Tree.isDir_iff_find, hne, ne_eq,
      not_false_eq_true, true_and]

/-- The start directory is the path that is asked for, made absolute: it has no idle pieces
but a slash at the end and a second one in front, where there were exactly two, and leads to
the same directory as the path from where the process works. There is a start directory
exactly if there is such a directory, and then the session starts there. Otherwise it never
starts. -/
theorem starts_where_asked (hhere : host.tree.HasDir here) (hp : o.asked = p)
    (hq : here.path.absolute p = q) (hsize : p.text.utf8ByteSize ≤ Path.maxBytes)
    (hsize' : q.text.utf8ByteSize ≤ Path.maxBytes) :
    (∀ dir, o.startDir host.tree here = .ok dir ↔
      dir = q ∧ ∃ a, host.tree.LeadsToDir here p a) ∧
    q.isAbsolute = true ∧
    q.pieces = p.front ++ (Path.stepsFrom here p ++
      if Path.stepsFrom here p = [] ∨ p.endsInSlash = true then [Piece.empty] else []) ∧
    (p ≠ Path.empty →
      ∀ a, host.tree.LeadsToDir here p a ↔ host.tree.find q = .ok (a, .dir)) ∧
    ((∃ a, host.tree.LeadsToDir here p a) → ∀ editor input,
      o.run editor here input host = o.runSession q editor input host) ∧
    ((¬ ∃ a, host.tree.LeadsToDir here p a) → ∃ e, o.startDir host.tree here = .error e ∧
      ∀ editor input,
        o.run editor here input host = { code := 1, errors := e.report, host := host }) := by
  subst hq
  have hstart (dir : Path) : o.startDir host.tree here = .ok dir ↔
      dir = here.path.absolute p ∧ ∃ a, host.tree.LeadsToDir here p a :=
    startDir_eq_ok_iff_leadsToDir hhere hp hsize hsize'
  refine ⟨hstart, Path.isAbsolute_absolute here p, Path.pieces_absolute here p,
    fun hne a => Tree.leadsToDir_iff_find hhere hne hsize hsize',
    fun hleads editor input => Options.run_of_startDir ((hstart _).2 ⟨rfl, hleads⟩) editor input,
    fun hnone => ?_⟩
  cases hdir : o.startDir host.tree here with
  | ok dir => exact absurd ((hstart dir).1 hdir).2 hnone
  | error e =>
    exact ⟨e, rfl, fun editor input => Options.run_of_startError hdir editor input⟩

theorem isFileName_x : IsFileName "x" := by
  decide

/-- A tree with the directory `/x/y`, a file beside it, and a link to the directory. -/
def besideLink : Host where
  tree := Tree.empty.plantAll [(Path.ofText "/x/y", .dir), (Path.ofText "/x/f", .file []),
    (Path.ofText "/l", .link (Path.ofText "x/y"))]

/-- A way through the link and back up. -/
def upFromLink : Options where
  startDir? := some ".//l/.././"

/-- A file for a directory. -/
def intoFile : Options where
  startDir? := some "f/."

/-- The directory beside the link, after two slashes. -/
def twoSlashed : Options where
  startDir? := some "//x/./"

theorem starts_where_asked_besideLink :
    upFromLink.run .keyless [] [] besideLink =
        upFromLink.runSession (Path.ofText "/l/../") .keyless [] besideLink ∧
      ∃ e : StartError, intoFile.run .keyless [⟨"x", isFileName_x⟩] [] besideLink =
        { code := 1, errors := e.report, host := besideLink } := by
  let x : Address := [⟨"x", isFileName_x⟩]
  have habsolute : (Address.path []).absolute (Path.ofText ".//l/.././") =
      Path.ofText "/l/../" := by
    decide
  have habsolute' : x.path.absolute (Path.ofText "f/.") = Path.ofText "/x/f" := by decide
  have hdir : besideLink.tree.isDir (Path.ofText "/l/../") = true := by decide
  have hfile : besideLink.tree.isDir (Path.ofText "/x/f") = false := by decide
  constructor
  · obtain ⟨-, -, -, hleads, hstarts, -⟩ := @starts_where_asked upFromLink besideLink [] _ _
      besideLink.tree.hasDir_nil rfl habsolute (by decide) (by decide)
    obtain ⟨a, hfind⟩ := Tree.isDir_iff_find.1 hdir
    exact hstarts ⟨a, (hleads (by decide) a).2 hfind⟩ _ []
  · obtain ⟨-, -, -, hleads, -, hfails⟩ := @starts_where_asked intoFile besideLink x _ _
      (by decide) rfl habsolute' (by decide) (by decide)
    have hnone : ¬ ∃ a, besideLink.tree.LeadsToDir x (Path.ofText "f/.") a := by
      rintro ⟨a, ha⟩
      rw [Tree.isDir_iff_find.2 ⟨a, (hleads (by decide) a).1 ha⟩] at hfile
      cases hfile
    obtain ⟨e, -, hrun⟩ := hfails hnone
    exact ⟨e, hrun _ []⟩

/-- The two slashes in front are not made one, though the directory is the one that the path
with a single slash leads to. -/
theorem startDir_of_two_slashes :
    twoSlashed.startDir besideLink.tree [] = .ok (Path.ofText "//x/") ∧
      Path.ofText "//x/" ≠ Path.ofText "/x/" ∧
      besideLink.tree.find (Path.ofText "//x/") = besideLink.tree.find (Path.ofText "/x/") := by
  decide

end TreeShell
