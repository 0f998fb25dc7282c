import TreeShell.Proofs.Tree.IdlePieces
import TreeShell.Proofs.Tree.Lookup
import TreeShell.Proofs.Tree.Writing

/-!
# Going on from a directory

A path to a directory may pass links, and what comes after it is followed from the
directory's own address (`exists_follow_append_eq_walk`). Names that are put after the
path lead along the directories below, and the last of them to whatever it names, if
that is no link (`locate_join`). For a path that ends in a name the same is true of
its last name and the path above (`locate_of_parent?`).
-/

namespace TreeShell

theorem Ending.Suits.append {ending : Ending} {qs : List Piece} (h : ending.Suits qs)
    (hqs : qs ≠ []) (ps : List Piece) : ending.Suits (ps ++ qs) := by
  intro hr s hs
  rw [List.getLast?_append_of_ne_nil _ hqs] at hs
  exact h hr s hs

namespace Path

variable {p q : Path} {n : FileName}

/-- Between a path and the one that is joined to it at most a slash is left out. -/
theorem exists_pieces_eq_stem_append (p : Path) :
    ∃ slashes, p.pieces = p.stem ++ slashes ∧ ∀ s ∈ slashes, s.isIdle = true := by
  rw [stem]
  split
  · next hlast =>
    refine ⟨[Piece.empty], ?_, by simp⟩
    rw [← hlast, List.dropLast_concat_getLast]
  · exact ⟨[], (List.append_nil _).symm, by simp⟩

/-- Above the last name of a path is its parent, up to slashes and dots. -/
theorem exists_pieces_eq_of_parent? (habs : p.isAbsolute = true) (hparent : p.parent? = some q)
    (hname : p.pieces.getLast? = some n.piece) : ∃ ps idles slashes,
      p.pieces = ps ++ (idles ++ [n.piece]) ∧ q.pieces = ps ++ slashes ∧
        (∀ s ∈ idles, s.isIdle = true) ∧ ∀ s ∈ slashes, s.isIdle = true := by
  have hqabs := isAbsolute_of_mem_above habs (List.mem_of_mem_head? hparent)
  obtain ⟨pieces, idles, piece, rest, hbody, rfl, -, hidles, hrest⟩ :=
    exists_body_eq_of_parent? hparent (ne_empty_of_isAbsolute hqabs)
  have hpieces := pieces_of_isAbsolute habs
  rw [hbody] at hpieces
  have hlast : p.pieces = (Piece.empty :: pieces) ++ (idles ++ [n.piece]) := by
    rcases List.eq_nil_or_concat' rest with rfl | ⟨rest, s, rfl⟩
    · have hconcat : Piece.empty :: (pieces ++ (idles ++ [piece])) =
          (Piece.empty :: pieces ++ idles) ++ [piece] := by simp
      rw [hpieces, hconcat, List.getLast?_concat, Option.some.injEq] at hname
      rw [hpieces, hname, List.cons_append]
    · -- what stands after the name of the parent's entry is idle, and a name is not
      have hconcat : Piece.empty :: (pieces ++ (idles ++ piece :: (rest ++ [s]))) =
          (Piece.empty :: pieces ++ idles ++ piece :: rest) ++ [s] := by simp
      rw [hpieces, hconcat, List.getLast?_concat, Option.some.injEq] at hname
      have hidle := hrest s (by simp)
      rw [hname, isIdle_piece] at hidle
      cases hidle
  rw [start_of_isAbsolute habs]
  by_cases hnil : pieces = []
  · refine ⟨_, idles, [Piece.empty], hlast, ?_, hidles, by simp⟩
    rw [pieces_build_root, if_pos hnil, hnil]
    rfl
  · refine ⟨_, idles, [], hlast, ?_, hidles, by simp⟩
    rw [pieces_build_root, if_neg hnil, List.append_nil]

end Path

namespace Tree

variable {t u : Tree} {a b c rel : Address} {n : FileName} {ps qs slashes : List Piece}
  {p q : Path} {ending : Ending}

section Walk

variable {jump jump' : Address → List Piece → Except IoError Address}

/-- A walk that ends in a directory goes on from there. -/
theorem exists_walk_append_eq_walk (hs : ending.Suits qs) (hqs : qs ≠ []) (hc : t.HasDir c)
    (hslashes : ∀ s ∈ slashes, s.isIdle = true)
    (hjump : ∀ a ps, jump a (ps ++ slashes) = .ok c →
      ∃ last, jump' a (ps ++ qs) = t.walk ending last c qs)
    (hw : t.walk .target jump a (ps ++ slashes) = .ok c) :
    ∃ last, t.walk ending jump' a (ps ++ qs) = t.walk ending last c qs := by
  induction ps generalizing a with
  | nil =>
    obtain rfl := walk_idle_eq_ok hslashes hw
    exact ⟨jump', rfl⟩
  | cons p ps ih =>
    rw [List.cons_append] at hw ⊢
    obtain ⟨ha, -, hgets⟩ := walk_cons_eq_ok_iff.1 hw
    have hsuits : ending.Suits (p :: (ps ++ qs)) := hs.append hqs (p :: ps)
    cases hgets with
    | passes d e hstep he hkind hrest =>
      rw [walk_cons_of_passes hsuits.not_refuses ha hstep he hkind]
      exact ih hrest
    | ends n hp hn _ heq =>
      rw [heq] at hc
      exact absurd hn hc.ne_none
    | stops n target hp hn _ hstop => cases hstop
    | jumps n target hp hn _ hjumped =>
      rw [walk_cons_of_link hsuits.not_refuses ha hp hn fun hnil =>
        absurd (List.append_eq_nil_iff.1 hnil).2 hqs]
      rw [← List.append_assoc] at hjumped ⊢
      exact hjump _ _ hjumped

theorem exists_follow_append_eq_walk {links : Nat} (hs : ending.Suits qs) (hqs : qs ≠ [])
    (hc : t.HasDir c) (hslashes : ∀ s ∈ slashes, s.isIdle = true)
    (hf : t.follow .target links a (ps ++ slashes) = .ok c) :
    ∃ last, t.follow ending links a (ps ++ qs) = t.walk ending last c qs := by
  induction links generalizing a ps with
  | zero =>
    apply exists_walk_append_eq_walk hs hqs hc hslashes _ hf
    intro a ps hjump
    cases hjump
  | succ links ih =>
    apply exists_walk_append_eq_walk hs hqs hc hslashes _ hf
    intro a ps hjump
    exact ih hjump

end Walk

/-- A path with names after it is followed from the directory that it leads to. -/
theorem locate_join (ending : Ending) (hfind : t.find p = .ok (c, .dir))
    (hr : (p.join (Address.relative (n :: rel))).refusal? = none) (hdir : t.HasDir (rel ++ c))
    (hlink : ∀ target, t.entry? (n :: rel ++ c) ≠ some (.link target)) :
    t.locate ending (p.join (Address.relative (n :: rel))) = .ok (n :: rel ++ c) := by
  have hpieces : (p.join (Address.relative (n :: rel))).pieces =
      p.stem ++ (rel.reverse.map FileName.piece ++ [n.piece]) := by
    rw [Path.pieces_join _ (Path.isAbsolute_relative _), Path.pieces_relative, List.reverse_cons,
      List.map_append, List.map_singleton]
  have htrimmed := trimmed_of_concat (hpieces.trans (List.append_assoc _ _ _).symm)
  obtain ⟨slashes, hp, hslashes⟩ := p.exists_pieces_eq_stem_append
  have hfollow := follow_of_find hfind
  rw [hp] at hfollow
  have hsuits := suits_of_last ending (rel.reverse.map FileName.piece) n
  obtain ⟨last, hlast⟩ := exists_follow_append_eq_walk hsuits (by simp)
    (locate_of_find hfind).2 hslashes hfollow
  have htrail : t.Trail c (rel.reverse.map FileName.piece) (rel ++ c) :=
    (trail_of_names (Path.names_map_piece rel)).2 ⟨hdir, rfl⟩
  rw [locate, hr, htrimmed, ite_self, hpieces]
  simp only
  rw [hlast, walk_append_of_trail hsuits htrail, walk_piece hdir hlink]
  rfl

/-- A slash after the path leads to the directory, too. -/
theorem find_join_empty (hfind : t.find p = .ok (c, .dir))
    (hr : (p.join Path.empty).refusal? = none) : t.find (p.join Path.empty) = .ok (c, .dir) := by
  have hempty : Path.empty.steps = [] := by decide
  apply find_of_steps hfind hr
  rw [Path.steps_join p (by decide), hempty, List.append_nil]

/-- A path that ends in a name leads to what has the name in the directory that the
path above leads to. -/
theorem locate_of_parent? (ending : Ending) (habs : p.isAbsolute = true)
    (hparent : p.parent? = some q) (hname : p.pieces.getLast? = some n.piece)
    (hfind : t.find q = .ok (b, .dir)) (hr : p.refusal? = none)
    (hlink : ∀ target, t.entry? (n :: b) ≠ some (.link target)) :
    t.locate ending p = .ok (n :: b) := by
  obtain ⟨ps, idles, slashes, hp, hq, hidles, hslashes⟩ :=
    Path.exists_pieces_eq_of_parent? habs hparent hname
  have hb : t.HasDir b := (locate_of_find hfind).2
  have hfollow := follow_of_find hfind
  rw [hq] at hfollow
  have hsuits := suits_of_last ending idles n
  obtain ⟨last, hlast⟩ := exists_follow_append_eq_walk hsuits (by simp) hb hslashes hfollow
  have htrimmed := trimmed_of_concat (hp.trans (List.append_assoc _ _ _).symm)
  rw [locate, hr, htrimmed, ite_self, hp]
  simp only
  rw [hlast, walk_append_of_trail hsuits ((trail_idle hidles).2 ⟨hb, rfl⟩), walk_piece hb hlink]

end Tree

end TreeShell
