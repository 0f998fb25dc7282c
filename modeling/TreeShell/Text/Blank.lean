import TreeShell.Text.CharClass

/-!
# Blanks

A blank is a character with the Unicode property `White_Space`. There are
twenty-five of them: besides the six of ASCII, the next-line control, the
no-break spaces, the typographic spaces and the line and paragraph separators.
The zero-width space U+200B and the byte order mark U+FEFF are not among them.
-/

namespace TreeShell.Text

/-- The ranges of the property `White_Space`. -/
def blankRanges : List (Nat × Nat) :=
  [(0x09, 0x0d), (0x20, 0x20), (0x85, 0x85), (0xa0, 0xa0), (0x1680, 0x1680),
   (0x2000, 0x200a), (0x2028, 0x2029), (0x202f, 0x202f), (0x205f, 0x205f), (0x3000, 0x3000)]

/-- Whether the character is white space. -/
def isBlank (c : Char) : Bool :=
  inRanges blankRanges c

theorem isBlank_space : isBlank ' ' = true := by decide

theorem isBlank_newline : isBlank '\n' = true := by decide

theorem isBlank_quote : isBlank '"' = false := by decide

/-- Every ASCII white space is a blank. -/
theorem isBlank_of_isWhitespace {c : Char} (h : c.isWhitespace = true) : isBlank c = true := by
  simp only [Char.isWhitespace, Bool.or_eq_true, decide_eq_true_eq] at h
  rcases h with ((rfl | rfl) | rfl) | rfl <;> decide

end TreeShell.Text
