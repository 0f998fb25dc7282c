import TreeShell.Proofs.Tree.Trails

/-!
# Passing through directories and links

A path passes an entry when the entry is looked up on the way, be it a name of
the path itself or one in the target of a link. `t.passed p` lists the addresses
that the path `p` passes. What a path leads to depends on these entries and on no
others: when entries are removed, a path to a directory leads there as before if
it has passed none of them (`find_of_kept`), and nowhere if it has passed one
(`find_of_missed`).

A path that goes on leads through a directory first, so in every tree the paths
above a path to a directory lead to directories (`isDir_of_mem_above`).
-/

namespace TreeShell.Tree

variable {t u : Tree} {a b c : Address} {ps qs : List Piece} {p q : Path}

section Beginnings

variable {jump jump' : Address → List Piece → Except IoError Address}

/-- A walk that goes on after its first pieces is in a directory there. -/
theorem exists_walk_of_append (hqs : qs ≠ [])
    (hjump : ∀ a ps b, jump a (ps ++ qs) = .ok b → ∃ c, jump' a ps = .ok c ∧ t.HasDir c)
    (h : t.walk .target jump a (ps ++ qs) = .ok b) :
    ∃ c, t.walk .target jump' a ps = .ok c ∧ t.HasDir c := by
  induction ps generalizing a with
  | nil =>
    obtain ⟨s, rest, rfl⟩ := List.exists_cons_of_ne_nil hqs
    exact ⟨a, rfl, hasDir_of_walk_cons h⟩
  | cons s ps ih =>
    rw [List.cons_append] at h
    obtain ⟨ha, -, hgets⟩ := walk_cons_eq_ok_iff.1 h
    have hsuits : Ending.target.Suits (s :: ps) := Ending.suits_of_not_refusesSlash rfl _
    cases hgets with
    | passes d e hstep he hkind hrest =>
      obtain ⟨c, hc, hdir⟩ := ih hrest
      exact ⟨c, by rwa [walk_cons_of_passes hsuits.not_refuses ha hstep he hkind], hdir⟩
    | ends n hp hn hps => exact absurd (List.append_eq_nil_iff.1 hps).2 hqs
    | stops n target hp hn hps => exact absurd (List.append_eq_nil_iff.1 hps).2 hqs
    | jumps n target hp hn _ hjumped =>
      rw [← List.append_assoc] at hjumped
      obtain ⟨c, hc, hdir⟩ := hjump _ _ _ hjumped
      exact ⟨c, by rwa [walk_cons_of_link hsuits.not_refuses ha hp hn fun _ => rfl], hdir⟩

theorem exists_follow_of_append {links : Nat} (hqs : qs ≠ [])
    (h : t.follow .target links a (ps ++ qs) = .ok b) :
    ∃ c, t.follow .target links a ps = .ok c ∧ t.HasDir c := by
  induction links generalizing a ps b with
  | zero =>
    apply exists_walk_of_append hqs _ h
    intro a ps b hjump
    cases hjump
  | succ links ih =>
    apply exists_walk_of_append hqs _ h
    intro a ps b hjump
    exact ih hjump

theorem isDir_of_pieces_eq_append {e : Entry} (h : t.find p = .ok (a, e))
    (hp : p.pieces = q.pieces ++ qs) (hqs : qs ≠ []) (hr : q.refusal? = none) :
    t.isDir q = true := by
  obtain ⟨hl, -⟩ := locate_of_find h
  rw [locate, refusal?_of_find h] at hl
  have hfollow : t.follow .target maxLinks [] (q.pieces ++ qs) = .ok a := by
    rw [← hp]
    exact hl
  obtain ⟨c, hc, hdir⟩ := exists_follow_of_append hqs hfollow
  have hlocate : t.locate .target q = .ok c := by
    rw [locate, hr]
    exact hc
  exact isDir_iff_find.2 ⟨c, find_of_locate hlocate hdir⟩

theorem isDir_root (t : Tree) : t.isDir Path.root = true := by
  have htrail : t.Trail [] Path.root.pieces [] := (trail_idle (by decide)).2 ⟨t.hasDir_nil, rfl⟩
  exact isDir_iff_find.2 ⟨[], find_of_trail Path.refusal?_root htrail⟩

/-- Above a path to a directory there are only such paths. -/
theorem isDir_of_mem_above (hp : p.isAbsolute = true) (h : t.isDir p = true) (hq : q ∈ p.above) :
    t.isDir q = true := by
  obtain ⟨a, hfind⟩ := isDir_iff_find.1 h
  have hr := Path.refusal?_of_mem_above hp (refusal?_of_find hfind) hq
  obtain ⟨pieces, idles, piece, rest, hbody, rfl, -⟩ := Path.exists_body_eq_of_mem_above hp hq
  by_cases hnil : pieces = []
  · rw [hnil]
    exact t.isDir_root
  · have hpieces : p.pieces = (Path.build .root pieces).pieces ++ (idles ++ piece :: rest) := by
      rw [Path.pieces_of_isAbsolute hp, Path.pieces_build_root, if_neg hnil, hbody,
        List.cons_append, List.append_assoc]
    exact isDir_of_pieces_eq_append hfind hpieces (by simp) hr

end Beginnings

section Passed

/-- The addresses of the entries that a path passes. -/
def passed (t : Tree) (p : Path) : List Address :=
  (t.passages maxLinks [] p.pieces).map Lookup.address

theorem forall_mem_passed {P : Address → Prop} :
    (∀ c ∈ t.passed p, P c) ↔ ∀ l ∈ t.passages maxLinks [] p.pieces, P l.address :=
  List.forall_mem_map

variable {jump jump' : Address → List Piece → Except IoError Address}
  {names : Address → List Piece → List Lookup}

/-- The target of a link is followed from a directory. -/
theorem hasDir_target (ha : t.HasDir a) (target : Path) :
    t.HasDir (if target.isAbsolute then [] else a) := by
  split
  · exact t.hasDir_nil
  · exact ha

/-- A walk goes the same way where all the entries that it passes are. -/
theorem walk_of_kept
    (hjump : ∀ a ps b, t.HasDir a → u.HasDir a →
      (∀ l ∈ names a ps, u.entry? l.address = t.entry? l.address) →
        jump a ps = .ok b → jump' a ps = .ok b ∧ u.entry? b = t.entry? b)
    (ha : t.HasDir a) (hua : u.HasDir a)
    (hkept : ∀ l ∈ t.lookups names a ps, u.entry? l.address = t.entry? l.address)
    (h : t.walk .target jump a ps = .ok b) :
    u.walk .target jump' a ps = .ok b ∧ u.entry? b = t.entry? b := by
  induction ps generalizing a with
  | nil =>
    cases h
    exact ⟨rfl, hua.trans ha.symm⟩
  | cons p ps ih =>
    rw [walk_cons_of_not_refuses (Ending.suits_of_not_refusesSlash rfl _).not_refuses ha] at h
    rw [walk_cons_of_not_refuses (Ending.suits_of_not_refusesSlash rfl _).not_refuses hua]
    rw [lookups] at hkept
    cases hp : Step.ofPiece p with
    | stay =>
      rw [hp] at h hkept
      exact ih ha hua hkept h
    | up =>
      rw [hp] at h hkept
      exact ih (t.hasDir_tail ha) (u.hasDir_tail hua) hkept h
    | refuse e =>
      rw [hp] at h
      cases h
    | enter n =>
      rw [hp] at h hkept
      obtain ⟨hn, hrest⟩ := List.forall_mem_cons.1 hkept
      simp only [hn]
      cases hentry : t.entry? (n :: a) with
      | none =>
        simp only [hentry] at h ⊢
        split at h
        · next hnil =>
          cases h
          rw [if_pos hnil]
          exact ⟨rfl, hn⟩
        · cases h
      | some e =>
        simp only [hentry] at h hrest ⊢
        cases e with
        | link target =>
          simp only at h hrest ⊢
          rw [if_neg (by simp [Ending.followsLink])] at h ⊢
          exact hjump _ _ _ (hasDir_target ha target) (hasDir_target hua target) hrest h
        | dir => exact ih hentry (hn.trans hentry) hrest h
        | file bytes =>
          -- nothing can follow a file
          cases ps with
          | nil =>
            cases h
            exact ⟨rfl, hn⟩
          | cons q ps => cases (hasDir_of_walk_cons h).eq_dir hentry

/-- The result of a search that finds no entry. -/
def Misses (u : Tree) (result : Except IoError Address) : Prop :=
  result = .error .notFound ∨ ∃ b, result = .ok b ∧ u.entry? b = none

/-- A walk finds nothing where an entry that it passes is gone. -/
theorem misses_walk (hu : ∀ b, u.entry? b = none ∨ u.entry? b = t.entry? b)
    {l : Lookup} (hgone : u.entry? l.address ≠ t.entry? l.address)
    (hjump : ∀ a ps b, t.HasDir a → u.HasDir a → l ∈ names a ps → jump a ps = .ok b →
      u.Misses (jump' a ps))
    (ha : t.HasDir a) (hua : u.HasDir a) (hl : l ∈ t.lookups names a ps)
    (h : t.walk .target jump a ps = .ok b) : u.Misses (u.walk .target jump' a ps) := by
  induction ps generalizing a with
  | nil => cases hl
  | cons p ps ih =>
    rw [walk_cons_of_not_refuses (Ending.suits_of_not_refusesSlash rfl _).not_refuses ha] at h
    rw [walk_cons_of_not_refuses (Ending.suits_of_not_refusesSlash rfl _).not_refuses hua]
    rw [lookups] at hl
    cases hp : Step.ofPiece p with
    | stay =>
      rw [hp] at h hl
      exact ih ha hua hl h
    | up =>
      rw [hp] at h hl
      exact ih (t.hasDir_tail ha) (u.hasDir_tail hua) hl h
    | refuse e =>
      rw [hp] at h
      cases h
    | enter n =>
      rw [hp] at h hl
      cases hn : u.entry? (n :: a) with
      | none =>
        simp only [hn]
        split
        · exact Or.inr ⟨n :: a, rfl, hn⟩
        · exact Or.inl rfl
      | some e =>
        have hsame : u.entry? (n :: a) = t.entry? (n :: a) :=
          (hu (n :: a)).resolve_left (by simp [hn])
        have hentry : t.entry? (n :: a) = some e := hsame.symm.trans hn
        -- this entry is still there, so the one that is gone comes later
        have hlater : l ≠ ⟨n :: a, asksDir ps && !t.hasLink (n :: a)⟩ := by
          rintro rfl
          exact hgone hsame
        have hrest := (List.mem_cons.1 hl).resolve_left hlater
        simp only [hentry] at h hrest
        simp only [hn]
        cases e with
        | link target =>
          simp only at h hrest ⊢
          rw [if_neg (by simp [Ending.followsLink])] at h ⊢
          exact hjump _ _ _ (hasDir_target ha target) (hasDir_target hua target) hrest h
        | dir => exact ih hentry hn hrest h
        | file bytes =>
          cases ps with
          | nil => cases hrest
          | cons q ps => cases (hasDir_of_walk_cons h).eq_dir hentry

theorem follow_of_kept {links : Nat} (ha : t.HasDir a) (hua : u.HasDir a)
    (hkept : ∀ l ∈ t.passages links a ps, u.entry? l.address = t.entry? l.address)
    (h : t.follow .target links a ps = .ok b) :
    u.follow .target links a ps = .ok b ∧ u.entry? b = t.entry? b := by
  induction links generalizing a ps b with
  | zero =>
    apply walk_of_kept _ ha hua hkept h
    intro a ps b _ _ _ hjump
    cases hjump
  | succ links ih =>
    apply walk_of_kept _ ha hua hkept h
    intro a ps b ha hua hkept hjump
    exact ih ha hua hkept hjump

theorem misses_follow {links : Nat} (hu : ∀ b, u.entry? b = none ∨ u.entry? b = t.entry? b)
    {l : Lookup} (hgone : u.entry? l.address ≠ t.entry? l.address) (ha : t.HasDir a)
    (hua : u.HasDir a) (hl : l ∈ t.passages links a ps) (h : t.follow .target links a ps = .ok b) :
    u.Misses (u.follow .target links a ps) := by
  induction links generalizing a ps b with
  | zero =>
    apply misses_walk hu hgone _ ha hua hl h
    intro a ps b _ _ _ hjump
    cases hjump
  | succ links ih =>
    apply misses_walk hu hgone _ ha hua hl h
    intro a ps b ha hua hl hjump
    exact ih ha hua hl hjump

/-- A path leads to the same entry where all the entries that it passes are. -/
theorem find_of_kept {e : Entry} (h : t.find p = .ok (a, e))
    (hkept : ∀ c ∈ t.passed p, u.entry? c = t.entry? c) : u.find p = .ok (a, e) := by
  obtain ⟨hl, ha⟩ := locate_of_find h
  have hr := refusal?_of_find h
  rw [locate, hr] at hl
  obtain ⟨hfollow, hsame⟩ := follow_of_kept t.hasDir_nil u.hasDir_nil (forall_mem_passed.1 hkept) hl
  have hlocate : u.locate .target p = .ok a := by
    rw [locate, hr]
    exact hfollow
  exact find_of_locate hlocate (hsame.trans ha)

/-- A path leads nowhere where an entry that it passes is gone. -/
theorem find_of_missed {x : Address × Entry} (hu : ∀ b, u.entry? b = none ∨ u.entry? b = t.entry? b)
    (h : t.find p = .ok x) (hc : c ∈ t.passed p) (hgone : u.entry? c ≠ t.entry? c) :
    u.find p = .error .notFound := by
  obtain ⟨hl, -⟩ := locate_of_find h
  have hr := refusal?_of_find h
  rw [locate, hr] at hl
  have hmisses : u.Misses (u.locate .target p) := by
    obtain ⟨l, hlookup, rfl⟩ := List.mem_map.1 hc
    rw [locate, hr]
    exact misses_follow hu hgone t.hasDir_nil u.hasDir_nil hlookup hl
  rcases hmisses with herror | ⟨b, hb, hnone⟩
  · rw [find, herror]
    rfl
  · simp only [find, hb, bind, Except.bind, hnone]

/-- When entries are removed, a path to a directory still leads to one exactly if
it has passed none of them. -/
theorem isDir_iff_kept (hu : ∀ b, u.entry? b = none ∨ u.entry? b = t.entry? b)
    (h : t.isDir p = true) :
    u.isDir p = true ↔ ∀ c ∈ t.passed p, u.entry? c = t.entry? c := by
  obtain ⟨a, hfind⟩ := isDir_iff_find.1 h
  constructor
  · intro hdir c hc
    by_contra hgone
    obtain ⟨b, hb⟩ := isDir_iff_find.1 hdir
    rw [find_of_missed hu hfind hc hgone] at hb
    cases hb
  · intro hkept
    exact isDir_iff_find.2 ⟨a, find_of_kept hfind hkept⟩

end Passed

end TreeShell.Tree
