import TreeShell.Proofs.Tree.IdlePieces
import TreeShell.Proofs.Tree.Plain

/-!
# The last piece of a path

Where a path ends is decided by its last piece. The walk along it may go on behind links, but
in the end the last piece is followed from some directory (`exists_follow_last`). If it is
`.` or `..` this ends at a directory, and if it is a name, below the root. So a path by which
something was made, or could be, ends in a name (`rmdirRefusal?_of_locate_name`).

A path whose last name is that of a directory leads to the directory, with all the slashes
that may follow the name (`find_of_locate_name`). A path to a file has no slash at its end,
so the file can be written by it, too (`locate_output_of_find`).
-/

namespace TreeShell.Tree

variable {t : Tree} {a b : Address} {p : Path} {s : Piece} {ps : List Piece}
  {ending : Ending} {jump : Address → List Piece → Except IoError Address}

section Directory

/-- A path whose last name is that of a directory leads to it. -/
theorem find_of_locate_name (hl : t.locate .name p = .ok a) (ha : t.HasDir a) :
    t.find p = .ok (a, .dir) := by
  have hr := refusal?_of_locate hl
  obtain ⟨slashes, hp, hidle⟩ := exists_pieces_eq_trimmed_append p
  refine find_of_locate ?_ ha
  rw [locate, hr] at hl ⊢
  refine follow_of_steps ha ?_ hl
  simp only [reduceCtorEq, if_true, if_false]
  rw [hp, List.filter_append, Path.filter_idle hidle, List.append_nil]

end Directory

section Last

/-- A walk follows its last piece in the end, or it goes on to it behind a link. -/
theorem exists_walk_last (h : t.walk ending jump a (ps ++ [s]) = .ok b) :
    (∃ c, t.walk ending jump c [s] = .ok b) ∨ ∃ c qs, jump c (qs ++ [s]) = .ok b := by
  induction ps generalizing a with
  | nil => exact Or.inl ⟨a, h⟩
  | cons p ps ih =>
    rw [List.cons_append] at h
    obtain ⟨-, -, hgets⟩ := walk_cons_eq_ok_iff.1 h
    have hne : ps ++ [s] ≠ [] := by simp
    cases hgets with
    | passes c e hstep he hkind hrest => exact ih hrest
    | ends n hp hn hps => exact absurd hps hne
    | stops n target hp hn hps => exact absurd hps hne
    | jumps n target hp hn _ hjumped =>
      rw [← List.append_assoc] at hjumped
      exact Or.inr ⟨_, _, hjumped⟩

theorem exists_follow_last {links : Nat} (h : t.follow ending links a (ps ++ [s]) = .ok b) :
    ∃ jump c, t.walk ending jump c [s] = .ok b := by
  induction links generalizing a ps with
  | zero =>
    rcases exists_walk_last h with ⟨c, hc⟩ | ⟨c, qs, hjump⟩
    · exact ⟨_, c, hc⟩
    · cases hjump
  | succ links ih =>
    rcases exists_walk_last h with ⟨c, hc⟩ | ⟨c, qs, hjump⟩
    · exact ⟨_, c, hc⟩
    · exact ih hjump

/-- What a path names is the root, or its last piece leads there. -/
theorem exists_last_of_locate_name (hl : t.locate .name p = .ok a) :
    p.trimmed = [] ∧ a = [] ∨ ∃ s jump c, p.trimmed.getLast? = some s ∧
      t.walk .name jump c [s] = .ok a := by
  have hr := refusal?_of_locate hl
  rw [locate, hr, if_pos rfl] at hl
  simp only at hl
  rcases List.eq_nil_or_concat' p.trimmed with hnil | ⟨ps, s, hps⟩
  · rw [hnil] at hl
    cases hl
    exact Or.inl ⟨hnil, rfl⟩
  · rw [hps] at hl ⊢
    obtain ⟨jump, c, hwalk⟩ := exists_follow_last hl
    exact Or.inr ⟨s, jump, c, List.getLast?_concat, hwalk⟩

/-- The pieces `.` and `..` lead to a directory. -/
theorem hasDir_of_walk_last (hs : Step.ofPiece s = .stay ∨ Step.ofPiece s = .up)
    (h : t.walk ending jump a [s] = .ok b) : t.HasDir b := by
  obtain ⟨ha, -, hgets⟩ := walk_cons_eq_ok_iff.1 h
  cases hgets with
  | passes c e hstep he hkind hrest =>
    cases hrest
    rcases hs with hs | hs
    · rw [hs] at hstep
      cases hstep
      exact ha
    · rw [hs] at hstep
      cases hstep
      exact t.hasDir_tail ha
  | ends n hp => simp [hp] at hs
  | stops n target hp => simp [hp] at hs
  | jumps n target hp => simp [hp] at hs

/-- A name leads below the root, unless it is that of a link, which is followed. -/
theorem ne_nil_of_walk_last (hfollows : ending.followsLink = false)
    (hs : Step.ofPiece s ≠ .stay ∧ Step.ofPiece s ≠ .up)
    (h : t.walk ending jump a [s] = .ok b) : b ≠ [] := by
  obtain ⟨-, -, hgets⟩ := walk_cons_eq_ok_iff.1 h
  cases hgets with
  | passes c e hstep he hkind hrest =>
    cases hrest
    cases hp : Step.ofPiece s with
    | stay => exact absurd hp hs.1
    | up => exact absurd hp hs.2
    | enter n =>
      rw [hp] at hstep
      cases hstep
      exact List.cons_ne_nil n a
    | refuse e =>
      rw [hp] at hstep
      cases hstep
  | ends n hp hn hps heq =>
    rw [heq]
    exact List.cons_ne_nil n a
  | stops n target hp hn hps hstop heq =>
    rw [heq]
    exact List.cons_ne_nil n a
  | jumps n target hp hn hlast =>
    rw [hlast rfl] at hfollows
    cases hfollows

/-- A path ends in a name unless it ends in a dot or in two, or has slashes only. -/
theorem rmdirRefusal?_eq_none_iff : rmdirRefusal? p = none ↔
    ∃ s, p.trimmed.getLast? = some s ∧ s.text ≠ "." ∧ s.text ≠ ".." := by
  rw [rmdirRefusal?]
  cases p.trimmed.getLast? with
  | none => simp
  | some s =>
    by_cases hdot : s.text = "."
    · simp [hdot]
    · by_cases hdots : s.text = ".."
      · simp [hdots]
      · simp [hdot, hdots]

/-- The root has no name that it could be removed by. -/
theorem ne_nil_of_locate_name (hr : rmdirRefusal? p = none) (hl : t.locate .name p = .ok a) :
    a ≠ [] := by
  obtain ⟨last, hlast', hdot, hdots⟩ := rmdirRefusal?_eq_none_iff.1 hr
  rcases exists_last_of_locate_name hl with ⟨hnil, -⟩ | ⟨s, jump, c, hlast, hwalk⟩
  · rw [hnil] at hlast'
    cases hlast'
  · obtain rfl : last = s := Option.some.inj (hlast'.symm.trans hlast)
    have hempty : last.text ≠ "" := Path.text_ne_of_getLast?_trimmed hlast
    have hidle : last.isIdle = false := by simp [Piece.isIdle, hempty, hdot]
    refine ne_nil_of_walk_last rfl ?_ hwalk
    rw [Step.ofPiece, hidle, if_neg Bool.false_ne_true, if_neg hdots]
    split
    · simp
    · split <;> simp

/-- What is no directory has a name that it could be removed by. -/
theorem rmdirRefusal?_of_locate_name (hl : t.locate .name p = .ok a) (ha : ¬ t.HasDir a) :
    rmdirRefusal? p = none := by
  rw [rmdirRefusal?_eq_none_iff]
  rcases exists_last_of_locate_name hl with ⟨-, rfl⟩ | ⟨s, jump, c, hlast, hwalk⟩
  · exact absurd t.hasDir_nil ha
  · have hdot : s.text ≠ "." := by
      intro hdot
      refine ha (hasDir_of_walk_last (Or.inl (Step.ofPiece_of_isIdle ?_)) hwalk)
      simp [Piece.isIdle, hdot]
    have hdots : s.text ≠ ".." := by
      intro hdots
      refine ha (hasDir_of_walk_last (Or.inr ?_) hwalk)
      simp [Step.ofPiece, Piece.isIdle, hdots]
    exact ⟨s, hlast, hdot, hdots⟩

end Last

section Output

variable {links : Nat} {bytes : List UInt8}

/-- No slash follows the name of a file. -/
theorem suits_output_of_follow (hfile : t.entry? b = some (.file bytes))
    (h : t.follow .target links a ps = .ok b) : Ending.output.Suits ps := by
  intro _ s hs hempty
  obtain ⟨before, rfl⟩ := List.getLast?_eq_some_iff.1 hs
  obtain ⟨jump, c, hwalk⟩ := exists_follow_last h
  have hstay : Step.ofPiece s = .stay := Step.ofPiece_of_isIdle (by simp [Piece.isIdle, hempty])
  cases (hasDir_of_walk_last (Or.inl hstay) hwalk).eq_dir hfile

theorem walk_output_of_suits {jump' : Address → List Piece → Except IoError Address}
    (hsuits : Ending.output.Suits ps) (hjump : ∀ a ps, jump a ps = .ok b → jump' a ps = .ok b)
    (h : t.walk .target jump a ps = .ok b) : t.walk .output jump' a ps = .ok b := by
  induction ps generalizing a with
  | nil => exact h
  | cons p ps ih =>
    obtain ⟨ha, -, hgets⟩ := walk_cons_eq_ok_iff.1 h
    refine walk_cons_eq_ok_iff.2 ⟨ha, hsuits.not_refuses, ?_⟩
    cases hgets with
    | passes c e hstep he hkind hrest =>
      exact .passes c e hstep he hkind (ih hsuits.tail hrest)
    | ends n hp hn hps hb => exact .ends n hp hn hps hb
    | stops n target hp hn hps hstop => cases hstop
    | jumps n target hp hn _ hjumped =>
      exact .jumps n target hp hn (fun _ => rfl) (hjump _ _ hjumped)

theorem follow_output_of_file (hfile : t.entry? b = some (.file bytes))
    (h : t.follow .target links a ps = .ok b) : t.follow .output links a ps = .ok b := by
  have hsuits := suits_output_of_follow hfile h
  induction links generalizing a ps with
  | zero =>
    apply walk_output_of_suits hsuits _ h
    intro a ps hjump
    cases hjump
  | succ links ih =>
    apply walk_output_of_suits hsuits _ h
    intro a ps hjump
    exact ih hjump (suits_output_of_follow hfile hjump)

/-- A file can be written by every path that it can be read by. -/
theorem locate_output_of_find (h : t.find p = .ok (a, .file bytes)) :
    t.locate .output p = .ok a := by
  have hr := refusal?_of_find h
  obtain ⟨hl, hfile⟩ := locate_of_find h
  rw [locate, hr] at hl ⊢
  exact follow_output_of_file hfile hl

end Output

end TreeShell.Tree
