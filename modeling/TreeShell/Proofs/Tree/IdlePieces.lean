import TreeShell.Proofs.Tree.Trails

/-!
# Idle pieces do not matter on the way to a directory

A directory is reached along the same steps whatever idle pieces stand between them or at
the end (`follow_of_steps`), since these only ask for a directory, and one is there. For
anything else this is not so: a file is reached without a slash at the end, and with one it
is not. Since links are followed on the way, the idle pieces are compared in what is left of
the journey behind each link, too.

So two paths with the same steps lead to the same directories (`find_of_steps`).
-/

namespace TreeShell.Tree

variable {t : Tree} {a b : Address} {p q : Path} {ps qs : List Piece} {ending : Ending}

section Walk

variable {jump jump' : Address → List Piece → Except IoError Address}

theorem hasDir_of_walk (hb : t.HasDir b) (h : t.walk ending jump a ps = .ok b) : t.HasDir a := by
  cases ps with
  | nil =>
    cases h
    exact hb
  | cons p ps => exact hasDir_of_walk_cons h

/-- A walk to a directory reaches it, too, with other idle pieces and if links in the last
place are followed, as far as this is so behind links. -/
theorem walk_of_steps (hb : t.HasDir b)
    (hjump : ∀ a ps qs, (qs.filter fun s => !s.isIdle) = ps.filter (fun s => !s.isIdle) →
      jump a ps = .ok b → jump' a qs = .ok b)
    (hsteps : (qs.filter fun s => !s.isIdle) = ps.filter fun s => !s.isIdle)
    (h : t.walk ending jump a ps = .ok b) : t.walk .target jump' a qs = .ok b := by
  have hsuits (qs : List Piece) : Ending.target.Suits qs := Ending.suits_of_not_refusesSlash rfl qs
  induction ps generalizing a qs with
  | nil =>
    cases h
    have hidle : ∀ s ∈ qs, s.isIdle = true := by simpa using hsteps
    exact walk_of_trail (hsuits qs) ((trail_idle hidle).2 ⟨hb, rfl⟩)
  | cons p ps ih =>
    have ha := hasDir_of_walk hb h
    by_cases hp : p.isIdle = true
    · rw [walk_cons_idle _ _ _ ha hp] at h
      rw [List.filter_cons_of_neg (by simp [hp])] at hsteps
      exact ih hsteps h
    · -- the other pieces have the same step behind idle ones
      rw [List.filter_cons_of_pos (by simpa using hp)] at hsteps
      obtain ⟨idles, rest, rfl, hidles, -, hrest⟩ := List.filter_eq_cons_iff.1 hsteps
      have hidle : t.Trail a idles a := (trail_idle (by simpa using hidles)).2 ⟨ha, rfl⟩
      rw [walk_append_of_trail (hsuits _) hidle]
      obtain ⟨-, -, hgets⟩ := walk_cons_eq_ok_iff.1 h
      cases hgets with
      | passes c e hstep he hkind hpassed =>
        rw [walk_cons_of_passes (hsuits _).not_refuses ha hstep he hkind]
        exact ih hrest hpassed
      | ends n hp hn _ heq =>
        rw [heq] at hb
        exact absurd hn hb.ne_none
      | stops n target hp hn _ _ heq =>
        rw [heq] at hb
        cases hb.eq_dir hn
      | jumps n target hp hn _ hjumped =>
        rw [walk_cons_of_link (hsuits _).not_refuses ha hp hn fun _ => rfl]
        refine hjump _ _ _ ?_ hjumped
        rw [List.filter_append, List.filter_append, hrest]

theorem follow_of_steps {links : Nat} (hb : t.HasDir b)
    (hsteps : (qs.filter fun s => !s.isIdle) = ps.filter fun s => !s.isIdle)
    (h : t.follow ending links a ps = .ok b) : t.follow .target links a qs = .ok b := by
  induction links generalizing a ps qs with
  | zero =>
    apply walk_of_steps hb _ hsteps h
    intro a ps qs _ hjump
    cases hjump
  | succ links ih =>
    apply walk_of_steps hb _ hsteps h
    intro a ps qs hsteps hjump
    exact ih hsteps hjump

end Walk

section Find

theorem follow_of_find {e : Entry} (h : t.find p = .ok (a, e)) :
    t.follow .target maxLinks [] p.pieces = .ok a := by
  obtain ⟨hl, -⟩ := locate_of_find h
  rwa [locate, refusal?_of_find h] at hl

theorem find_eq_dir_iff_follow : t.find p = .ok (a, .dir) ↔ p.refusal? = none ∧
    t.follow .target maxLinks [] p.pieces = .ok a ∧ t.HasDir a := by
  constructor
  · intro h
    exact ⟨refusal?_of_find h, follow_of_find h, (locate_of_find h).2⟩
  · rintro ⟨hr, hfollow, ha⟩
    refine find_of_locate ?_ ha
    rw [locate, hr]
    exact hfollow

/-- Paths with the same steps lead to the same directories. -/
theorem find_of_steps (hfind : t.find p = .ok (a, .dir)) (hr : q.refusal? = none)
    (hsteps : q.steps = p.steps) : t.find q = .ok (a, .dir) := by
  obtain ⟨-, hfollow, ha⟩ := find_eq_dir_iff_follow.1 hfind
  exact find_eq_dir_iff_follow.2 ⟨hr, follow_of_steps ha hsteps hfollow, ha⟩

end Find

end TreeShell.Tree
