import TreeShell.Proofs.Path.Spelling
import TreeShell.Proofs.Tree.Trails

/-!
# Looking up an address

Where there are no links, a path that spells an address leads to that address
and nowhere else. It gets there when the directory above exists. Otherwise a
file stands in the way (`Blocked`), or some directory is missing, and the two
are told apart by the error (`locate_of_blocked`, `locate_of_missing`).
-/

namespace TreeShell.Tree

open TreeShell.Path (Names)

/-- There is a file at the address or above it. -/
def Blocked (t : Tree) (a : Address) : Prop :=
  ∃ c bytes, c <:+ a ∧ t.entry? c = some (.file bytes)

variable {t : Tree} {a b c rel : Address} {n : FileName} {ps : List Piece} {p : Path}

theorem not_blocked_of_hasDir (h : t.HasDir a) : ¬ t.Blocked a := by
  rintro ⟨c, bytes, hc, hfile⟩
  cases (t.hasDir_of_hasDir_suffix h hc).eq_dir hfile

theorem Blocked.mono (h : t.Blocked a) (hab : a <:+ b) : t.Blocked b := by
  obtain ⟨c, bytes, hc, hfile⟩ := h
  exact ⟨c, bytes, hc.trans hab, hfile⟩

/-- Without a file in the way and without links an entry is a directory. -/
theorem hasDir_of_not_blocked {e : Entry} (hl : t.Linkless) (hb : ¬ t.Blocked a)
    (he : t.entry? a = some e) : t.HasDir a := by
  cases e with
  | dir => exact he
  | file bytes => exact absurd ⟨a, bytes, List.suffix_rfl, he⟩ hb
  | link target => exact absurd he (hl a target)

/-- No file is on the way to an address below a directory where nothing is. -/
theorem not_blocked_of_missing (hn : t.entry? (n :: a) = none) (ha : t.HasDir a)
    (h : (n :: a) <:+ b) : ¬ t.Blocked b := by
  rintro ⟨c, bytes, hc, hfile⟩
  rcases List.suffix_or_suffix_of_suffix h hc with hnc | hcn
  · rw [entry?_eq_none_of_suffix hn hnc] at hfile
    cases hfile
  · rcases List.suffix_cons_iff.1 hcn with rfl | hca
    · rw [hfile] at hn
      cases hn
    · exact not_blocked_of_hasDir ha ⟨c, bytes, hca, hfile⟩

theorem names_cons {s : Piece} (hs : s.text ≠ "") (h : Names (s :: ps) rel) :
    ∃ m rel', rel = rel' ++ [m] ∧ s = m.piece ∧ Names ps rel' := by
  rw [Names, List.filter_cons_of_pos (by simpa using hs)] at h
  rcases List.eq_nil_or_concat' rel with rfl | ⟨rel', m, rfl⟩
  · cases h
  · rw [List.reverse_append, List.reverse_singleton, List.singleton_append, List.map_cons,
      List.cons.injEq] at h
    exact ⟨m, rel', rfl, h.1, h.2⟩

/-- A trail along names goes from directory to directory. -/
theorem trail_of_names (h : Names ps rel) :
    t.Trail a ps b ↔ t.HasDir (rel ++ a) ∧ b = rel ++ a := by
  induction ps generalizing a rel with
  | nil =>
    have hrel : rel = [] := by simpa [Names] using h
    rw [hrel, trail_nil, List.nil_append, eq_comm]
  | cons s ps ih =>
    by_cases hs : s.text = ""
    · rw [Path.names_cons_empty hs] at h
      rw [trail_cons_idle (by simp [Piece.isIdle, hs]), ih h]
    · obtain ⟨m, rel, rfl, rfl, hps⟩ := names_cons hs h
      rw [trail_cons, Step.ofPiece_piece, List.append_assoc, List.singleton_append]
      constructor
      · rintro ⟨-, c, ⟨rfl⟩, htrail⟩
        exact (ih hps).1 htrail
      · intro hd
        have hsuffix : a <:+ rel ++ m :: a := ⟨rel ++ [m], by simp⟩
        exact ⟨t.hasDir_of_hasDir_suffix hd.1 hsuffix, m :: a, rfl, (ih hps).2 hd⟩

/-- The names of a directory lead there from the root. -/
theorem follow_names_append (links : Nat) (ha : t.HasDir a) (qs : List Piece) :
    t.follow .target links [] (a.reverse.map FileName.piece ++ qs) =
      t.follow .target links a qs := by
  have htrail : t.Trail [] (a.reverse.map FileName.piece) a :=
    (trail_of_names (Path.names_map_piece a)).2 (by rw [List.append_nil]; exact ⟨ha, rfl⟩)
  obtain ⟨jump, hj⟩ := t.exists_follow_eq_walk .target links
  rw [hj, walk_append_of_trail (Ending.suits_of_not_refusesSlash rfl _) htrail]

section Walk

variable {ending : Ending} {jump : Address → List Piece → Except IoError Address}

theorem walk_of_blocked (hl : t.Linkless) (hs : ending.Suits (ps ++ [n.piece]))
    (h : Names ps rel) (ha : t.HasDir a) (hb : t.Blocked (rel ++ a)) :
    t.walk ending jump a (ps ++ [n.piece]) = .error .notADirectory := by
  induction ps generalizing a rel with
  | nil =>
    have hrel : rel = [] := by simpa [Names] using h
    rw [hrel] at hb
    exact absurd hb (not_blocked_of_hasDir ha)
  | cons s ps ih =>
    rw [List.cons_append] at hs ⊢
    by_cases hempty : s.text = ""
    · rw [Path.names_cons_empty hempty] at h
      rw [walk_cons_idle _ _ _ ha (by simp [Piece.isIdle, hempty])]
      exact ih hs.tail h ha hb
    · obtain ⟨m, rel, rfl, rfl, hps⟩ := names_cons hempty h
      rw [List.append_assoc, List.singleton_append] at hb
      cases hm : t.entry? (m :: a) with
      | none => exact absurd hb (not_blocked_of_missing hm ha (List.suffix_append _ _))
      | some e =>
        rw [walk_cons_of_entry hs ha (Step.ofPiece_piece m) hm (hl.kind_ne hm)]
        by_cases hdir : t.HasDir (m :: a)
        · exact ih hs.tail hps hdir hb
        · obtain ⟨s, rest, hrest⟩ := List.exists_cons_of_ne_nil (l := ps ++ [n.piece]) (by simp)
          rw [hrest]
          exact t.walk_of_not_hasDir _ _ hdir s rest

theorem walk_of_missing (hl : t.Linkless) (hs : ending.Suits (ps ++ [n.piece]))
    (h : Names ps rel) (ha : t.HasDir a) (hb : ¬ t.Blocked (rel ++ a))
    (hmissing : ¬ t.HasDir (rel ++ a)) :
    t.walk ending jump a (ps ++ [n.piece]) = .error .notFound := by
  induction ps generalizing a rel with
  | nil =>
    have hrel : rel = [] := by simpa [Names] using h
    rw [hrel] at hmissing
    exact absurd ha hmissing
  | cons s ps ih =>
    rw [List.cons_append] at hs ⊢
    by_cases hempty : s.text = ""
    · rw [Path.names_cons_empty hempty] at h
      rw [walk_cons_idle _ _ _ ha (by simp [Piece.isIdle, hempty])]
      exact ih hs.tail h ha hb hmissing
    · obtain ⟨m, rel, rfl, rfl, hps⟩ := names_cons hempty h
      rw [List.append_assoc, List.singleton_append] at hb hmissing
      cases hm : t.entry? (m :: a) with
      | none =>
        rw [walk_cons_of_none hs ha (Step.ofPiece_piece m) hm]
        exact if_neg (by simp)
      | some e =>
        have hdir : t.HasDir (m :: a) :=
          hasDir_of_not_blocked hl (fun hf => hb (hf.mono (List.suffix_append _ _))) hm
        rw [walk_cons_of_hasDir hs ha (by rw [Step.ofPiece_piece]; rfl) hdir]
        exact ih hs.tail hps hdir hb hmissing

end Walk

section Last

/-- After a name there is no slash at the end to leave out. -/
theorem trimmed_of_concat (hp : p.pieces = ps ++ [n.piece]) : p.trimmed = p.pieces := by
  rw [Path.trimmed, hp, List.reverse_append, List.reverse_singleton, List.singleton_append,
    List.dropWhile_cons_of_neg (by simpa using Path.text_piece_ne n), List.reverse_cons,
    List.reverse_reverse]

theorem suits_of_last (ending : Ending) (ps : List Piece) (n : FileName) :
    ending.Suits (ps ++ [n.piece]) := by
  intro _ s hs
  rw [List.getLast?_append] at hs
  cases hs
  exact Path.text_piece_ne n

/-- The last name is followed unless it is that of a link. -/
theorem walk_piece {ending : Ending} {jump : Address → List Piece → Except IoError Address}
    (ha : t.HasDir a) (hlink : ∀ target, t.entry? (n :: a) ≠ some (.link target)) :
    t.walk ending jump a [n.piece] = .ok (n :: a) := by
  have hs := suits_of_last ending [] n
  cases hn : t.entry? (n :: a) with
  | none => rw [walk_cons_of_none hs ha (Step.ofPiece_piece n) hn, if_pos rfl]
  | some e =>
    have hkind : e.kind ≠ .link := by
      intro hk
      obtain ⟨target, rfl⟩ := Entry.kind_eq_link_iff.1 hk
      exact hlink target hn
    rw [walk_cons_of_entry hs ha (Step.ofPiece_piece n) hn hkind, walk_nil]

end Last

section Spells

theorem trimmed_of_spells (hs : p.Spells (n :: a)) : p.trimmed = p.pieces := by
  obtain ⟨before, hp, -⟩ := hs.exists_pieces_eq
  exact trimmed_of_concat hp

/-- Looking up a name walks along the names before it. -/
theorem exists_locate_of_spells (ending : Ending) (hs : p.Spells (n :: a))
    (hr : p.refusal? = none) : ∃ jump before, Names before a ∧ ending.Suits (before ++ [n.piece]) ∧
      t.locate ending p = t.walk ending jump [] (before ++ [n.piece]) := by
  obtain ⟨jump, hj⟩ := t.exists_locate_eq_walk ending hr
  obtain ⟨before, hp, hnames⟩ := hs.exists_pieces_eq
  refine ⟨jump, before, hnames, suits_of_last ending before n, ?_⟩
  rw [hj, trimmed_of_spells hs, ite_self, hp]

theorem locate_of_hasDir (ending : Ending) (hl : t.Linkless) (hs : p.Spells (n :: a))
    (hr : p.refusal? = none) (ha : t.HasDir a) : t.locate ending p = .ok (n :: a) := by
  obtain ⟨jump, before, hnames, hsuits, hlocate⟩ := exists_locate_of_spells (t := t) ending hs hr
  have htrail : t.Trail [] before a :=
    (trail_of_names hnames).2 (by rw [List.append_nil]; exact ⟨ha, rfl⟩)
  rw [hlocate, walk_append_of_trail hsuits htrail]
  exact walk_piece ha (hl (n :: a))

theorem locate_of_blocked (ending : Ending) (hl : t.Linkless) (hs : p.Spells (n :: a))
    (hr : p.refusal? = none) (hb : t.Blocked a) : t.locate ending p = .error .notADirectory := by
  obtain ⟨jump, before, hnames, hsuits, hlocate⟩ := exists_locate_of_spells (t := t) ending hs hr
  rw [hlocate]
  exact walk_of_blocked hl hsuits hnames t.hasDir_nil (by rwa [List.append_nil])

theorem locate_of_missing (ending : Ending) (hl : t.Linkless) (hs : p.Spells (n :: a))
    (hr : p.refusal? = none) (hb : ¬ t.Blocked a) (hmissing : ¬ t.HasDir a) :
    t.locate ending p = .error .notFound := by
  obtain ⟨jump, before, hnames, hsuits, hlocate⟩ := exists_locate_of_spells (t := t) ending hs hr
  rw [hlocate]
  exact walk_of_missing hl hsuits hnames t.hasDir_nil (by rwa [List.append_nil])
    (by rwa [List.append_nil])

/-- A path that spells an address finds what is there, and nothing else. -/
theorem find_eq_ok_iff {e : Entry} (hl : t.Linkless) (hs : p.Spells a) (hr : p.refusal? = none) :
    t.find p = .ok (b, e) ↔ b = a ∧ t.entry? a = some e := by
  cases a with
  | nil =>
    have htrail : t.Trail [] p.pieces [] := (trail_of_names hs.names).2 ⟨t.hasDir_nil, rfl⟩
    rw [find_of_trail hr htrail, entry?_nil]
    simp only [Except.ok.injEq, Prod.mk.injEq, Option.some.injEq]
    exact and_congr_left' eq_comm
  | cons n a =>
    by_cases ha : t.HasDir a
    · have hlocate := locate_of_hasDir .target hl hs hr ha
      constructor
      · intro h
        obtain ⟨hb, he⟩ := locate_of_find h
        rw [hlocate] at hb
        cases hb
        exact ⟨rfl, he⟩
      · rintro ⟨rfl, he⟩
        exact find_of_locate hlocate he
    · have herror : ∃ e, t.locate .target p = .error e := by
        by_cases hb : t.Blocked a
        · exact ⟨_, locate_of_blocked .target hl hs hr hb⟩
        · exact ⟨_, locate_of_missing .target hl hs hr hb ha⟩
      obtain ⟨e', herror⟩ := herror
      constructor
      · intro h
        rw [(locate_of_find h).1] at herror
        cases herror
      · rintro ⟨-, he⟩
        exact absurd (t.hasDir_of_entry? he) ha

theorem isDir_iff_hasDir (hl : t.Linkless) (hs : p.Spells a) (hr : p.refusal? = none) :
    t.isDir p = true ↔ t.HasDir a := by
  simp only [isDir_iff_find, find_eq_ok_iff hl hs hr, exists_eq_left, HasDir]

theorem isFile_iff (hl : t.Linkless) (hs : p.Spells a) (hr : p.refusal? = none) :
    t.isFile p = true ↔ ∃ bytes, t.entry? a = some (.file bytes) := by
  simp only [isFile_iff_find, find_eq_ok_iff hl hs hr, exists_and_left, exists_eq_left]

end Spells

end TreeShell.Tree
