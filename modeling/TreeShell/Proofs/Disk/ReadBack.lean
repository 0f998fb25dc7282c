import TreeShell.Disk.Files
import TreeShell.Proofs.Disk.Calls
import TreeShell.Proofs.Text.Encoding
import TreeShell.Proofs.Tree.Writing

/-!
# Reading lines back

Lines that were written one after the other, each with a line feed, are read back as
these lines (`readLines_of_linesBytes`): none is lost, an empty one included, and
none is added for the end of the last one. Only a carriage return at the end of a
line is lost, since it counts as a part of the line end.
-/

namespace TreeShell

namespace Text

/-- The line without the carriage return at its end, if it has one. -/
def withoutReturn (line : String) : String :=
  String.ofList (dropReturn '\r' line.toList)

/-- The text of the lines, each followed by a line feed. -/
def ended (lines : List String) : String :=
  String.ofList (lines.flatMap fun line => line.toList ++ ['\n'])

theorem ended_cons (line : String) (lines : List String) :
    ended (line :: lines) = line ++ "\n" ++ ended lines := by
  apply String.toList_inj.1
  simp [ended]

theorem encode_ended (lines : List String) : encode (ended lines) = linesBytes lines := by
  induction lines with
  | nil => rfl
  | cons line lines ih => rw [ended_cons, encode_append, ih, linesBytes_cons]

theorem decode?_linesBytes (lines : List String) :
    decode? (linesBytes lines) = some (ended lines) := by
  rw [← encode_ended, decode?_encode]

/-- A text of ended lines is read as these lines. -/
theorem linesOf_ended {contents : List String} (h : ∀ line ∈ contents, '\n' ∉ line.toList) :
    linesOf (ended contents) = contents.map withoutReturn := by
  rw [linesOf, ended, String.toList_ofList]
  induction contents with
  | nil => rfl
  | cons line rest ih =>
    obtain ⟨hline, hrest⟩ := List.forall_mem_cons.1 h
    rw [List.flatMap_cons, List.append_assoc, List.singleton_append,
      lines_append_cons '\r' _ hline, List.map_cons, List.map_cons, ih hrest, withoutReturn]

end Text

namespace Disk

variable {h : Host} {p : Path} {a : Address}

theorem readLines_of_find {bytes : List UInt8} {text : String}
    (hfind : h.tree.find p = .ok (a, .file bytes)) (htext : Text.decode? bytes = some text) :
    readLines p h = .ok (Text.linesOf text) h := by
  rw [readLines, bind_of_ok (requireFile_of_find hfind), htext]
  rfl

theorem readLines_eq_ok {h' : Host} {lines : List String} (hok : readLines p h = .ok lines h') :
    ∃ a bytes text, h.tree.find p = .ok (a, .file bytes) ∧
      Text.decode? bytes = some text ∧ lines = Text.linesOf text ∧ h' = h := by
  rcases requireFile_cases p h with ⟨a, bytes, hfind, hfile⟩ | ⟨e, he⟩
  · rw [readLines, bind_of_ok hfile] at hok
    cases htext : Text.decode? bytes with
    | none =>
      rw [htext] at hok
      cases hok
    | some text =>
      rw [htext] at hok
      cases hok
      exact ⟨a, bytes, text, hfind, htext, rfl, rfl⟩
  · rw [readLines, bind_of_error he] at hok
    cases hok

/-- The lines that a file was written with are read back. -/
theorem readLines_of_linesBytes {contents : List String}
    (hfind : h.tree.find p = .ok (a, .file (linesBytes contents)))
    (hlines : ∀ line ∈ contents, '\n' ∉ line.toList) :
    readLines p h = .ok (contents.map Text.withoutReturn) h := by
  rw [readLines_of_find hfind (Text.decode?_linesBytes contents), Text.linesOf_ended hlines]

end Disk

end TreeShell
