import TreeShell.Proofs.Disk.MakeDirs

/-!
# A source laid over a target

The copy of a directory lays the source, as it was before the call, over the
target. `Copied` says what is at every address once a first part of the listed
entries has been put in place.

The target may lie above the source, and then the copy writes over the very
entries it still has to read. That this does no harm comes from the order of
the list (`Turn`): an entry of the source that is also a place of the target is
the place of something that lies deeper in the source than the entry itself, so
it is read before it is written (`Copied.entry?_source`).
-/

namespace TreeShell

/-- Sorting by a number leaves none before a smaller one. -/
theorem pairwise_mergeSort_of_measure {α : Type} (f : α → Nat) (l : List α) :
    (l.mergeSort fun x y => decide (f x ≤ f y)).Pairwise fun x y => f x ≤ f y := by
  have htrans (x y z : α) (hxy : decide (f x ≤ f y) = true) (hyz : decide (f y ≤ f z) = true) :
      decide (f x ≤ f z) = true := by
    simp only [decide_eq_true_eq] at hxy hyz ⊢
    omega
  have htotal (x y : α) : (decide (f x ≤ f y) || decide (f y ≤ f x)) = true := by
    simp only [Bool.or_eq_true, decide_eq_true_eq]
    omega
  exact (List.pairwise_mergeSort htrans htotal l).imp fun h => of_decide_eq_true h

namespace Tree

/-- What a copy of the directory at `a` to the address `b` starts from: paths
that spell the two addresses, with `b` neither at nor below `a`, and short
enough for the system with everything of the source put after them. -/
structure Copying (t : Tree) (source target : Path) (a b : Address) : Prop where
  linkless : t.Linkless
  source_spells : source.Spells a
  target_spells : target.Spells b
  hasDir : t.HasDir a
  apart : ¬ a <:+ b
  source_taken : ∀ rel e, t.entry? (rel ++ a) = some e →
    (source.join (Address.relative rel)).refusal? = none
  target_taken : target.refusal? = none
  below_taken : ∀ rel e, rel ≠ [] → t.entry? (rel ++ a) = some e →
    (target.join (Address.relative rel)).refusal? = none

/-- Where the source and the target both have an entry, it is of one kind. -/
def Agree (t : Tree) (a b : Address) : Prop :=
  ∀ rel e f, t.entry? (rel ++ a) = some e → t.entry? (rel ++ b) = some f → f.kind = e.kind

/-- The tree `u` is `t` with the entries of the list in their places below `b`,
and with directories at `b` and above it. -/
structure Copied (t : Tree) (b : Address) (done : List (Address × Entry)) (u : Tree) : Prop where
  copied : ∀ x ∈ done, u.entry? (x.1 ++ b) = some x.2
  place : ∀ c, c <:+ b → u.HasDir c
  kept : ∀ c, ¬ c <:+ b → (∀ x ∈ done, x.1 ++ b ≠ c) → u.entry? c = t.entry? c

/-- The tree `u` is `t` with what was at and below `a` laid over what was at and
below `b`: every entry of the source is in its place, every other entry is as it
was, and new besides the copies are only directories above `b`. -/
structure Overlaid (t : Tree) (a b : Address) (u : Tree) : Prop where
  copied : ∀ rel e, t.entry? (rel ++ a) = some e → u.entry? (rel ++ b) = some e
  kept : ∀ c e, t.entry? c = some e →
    (∀ rel f, t.entry? (rel ++ a) = some f → rel ++ b ≠ c) → u.entry? c = some e
  fresh : ∀ c e, t.entry? c = none → u.entry? c = some e →
    (∃ rel, c = rel ++ b ∧ t.entry? (rel ++ a) = some e) ∨ c <:+ b ∧ e = .dir

/-- It is the turn of `rel` after the entries of the list: all that lie less
deep are done, and nothing that lies deeper. -/
structure Turn (t : Tree) (a : Address) (done : List (Address × Entry)) (rel : Address)
    (e : Entry) : Prop where
  ne_nil : rel ≠ []
  entry : t.entry? (rel ++ a) = some e
  earlier : ∀ x ∈ done, t.entry? (x.1 ++ a) = some x.2 ∧ x.1 ≠ rel ∧ x.1.length ≤ rel.length
  above : ∀ x : Address × Entry, x.1 ≠ [] → t.entry? (x.1 ++ a) = some x.2 →
    x.1.length < rel.length → x ∈ done

variable {t u v : Tree} {a b c rel : Address} {e : Entry} {done : List (Address × Entry)}

theorem Copying.append_ne {source target : Path} (hc : t.Copying source target a b)
    (rel : Address) : rel ++ a ≠ rel ++ b := by
  intro heq
  apply hc.apart
  rw [List.append_cancel_left heq]

/-- The source itself is shorter than the path with a slash that is listed. -/
theorem Copying.source_taken_self {source target : Path} (hc : t.Copying source target a b) :
    source.refusal? = none := by
  have hlisted := hc.source_taken [] .dir hc.hasDir
  have hslash : source.endsInSlash = false := by
    cases hs : source.endsInSlash with
    | false => rfl
    | true =>
      have ha := hc.source_spells.slash hs
      exact absurd (by rw [ha]; exact List.nil_suffix) hc.apart
  have hpieces : (source.join (Address.relative [])).pieces = source.pieces ++ [Piece.empty] := by
    rw [Path.pieces_join _ (Path.isAbsolute_relative []), Path.stem,
      if_neg (by simpa [Path.endsInSlash] using hslash)]
    rfl
  rw [Path.refusal?_eq_none_iff] at hlisted ⊢
  obtain ⟨hnul, hsize, -⟩ := hlisted
  refine ⟨?_, ?_, Path.ne_empty_of_isAbsolute hc.source_spells.absolute⟩
  · intro s hs
    exact hnul s (by rw [hpieces]; exact List.mem_append_left _ hs)
  · have h₁ := Path.utf8ByteSize_text source
    have h₂ := Path.utf8ByteSize_text (source.join (Address.relative []))
    rw [hpieces, Path.slashedSize_append] at h₂
    omega

section Levels

theorem mem_levels {x : Address × Entry} :
    x ∈ Disk.levels t a ↔ x.1 ≠ [] ∧ t.entry? (x.1 ++ a) = some x.2 := by
  rw [Disk.levels, List.mem_mergeSort]
  exact t.mem_below

theorem pairwise_levels (t : Tree) (a : Address) :
    (Disk.levels t a).Pairwise fun x y => x.1.length ≤ y.1.length :=
  pairwise_mergeSort_of_measure (fun x => x.1.length) (t.below a)

theorem nodup_levels (t : Tree) (a : Address) : ((Disk.levels t a).map Prod.fst).Nodup :=
  ((List.mergeSort_perm (t.below a) _).map Prod.fst).nodup_iff.2 (t.nodup_below a)

/-- The list has every directory before what lies in it. -/
theorem turn_of_levels {rest : List (Address × Entry)}
    (h : Disk.levels t a = done ++ (rel, e) :: rest) : t.Turn a done rel e := by
  have hmem {x : Address × Entry} (hx : x ∈ done ++ (rel, e) :: rest) :
      x.1 ≠ [] ∧ t.entry? (x.1 ++ a) = some x.2 := by
    rw [← h] at hx
    exact mem_levels.1 hx
  have hself := hmem (x := (rel, e)) (by simp)
  have hsorted := pairwise_levels t a
  have hnodup := nodup_levels t a
  rw [h, List.pairwise_append] at hsorted
  rw [h, List.map_append, List.nodup_append] at hnodup
  obtain ⟨-, hrest, hdone⟩ := hsorted
  refine ⟨hself.1, hself.2, ?_, ?_⟩
  · intro x hx
    refine ⟨(hmem (List.mem_append_left _ hx)).2, ?_, hdone x hx (rel, e) List.mem_cons_self⟩
    exact hnodup.2.2 x.1 (List.mem_map_of_mem hx) rel (by simp)
  · intro x hne hx hlen
    have hx : x ∈ done ++ (rel, e) :: rest := by
      rw [← h]
      exact mem_levels.2 ⟨hne, hx⟩
    rcases List.mem_append.1 hx with hx | hx
    · exact hx
    · exfalso
      rcases List.mem_cons.1 hx with rfl | hx
      · exact absurd hlen (Nat.lt_irrefl _)
      · have hle := (List.pairwise_cons.1 hrest).1 x hx
        exact absurd hlen (Nat.not_lt.2 hle)

end Levels

namespace Copied

theorem linkless (h : Copied t b done u) (hl : t.Linkless)
    (hdone : ∀ x ∈ done, t.entry? (x.1 ++ a) = some x.2) : u.Linkless := by
  intro c target hc
  by_cases hb : c <:+ b
  · cases (h.place c hb).eq_dir hc
  · by_cases hx : ∃ x ∈ done, x.1 ++ b = c
    · obtain ⟨x, hx, rfl⟩ := hx
      rw [h.copied x hx] at hc
      rw [Option.some.injEq] at hc
      exact hl _ target ((hdone x hx).trans (by rw [hc]))
    · rw [h.kept c hb fun x hmem heq => hx ⟨x, hmem, heq⟩] at hc
      exact hl c target hc

theorem of_addsDirs (h : AddsDirs b t u) (hl : t.Linkless) (hb : ¬ t.Blocked b) :
    Copied t b [] u where
  copied := by simp
  place _ hc := h.hasDir hl hb hc
  kept c hc _ := by rw [h c, if_neg fun hs => hc hs.1]

/-- One more entry in its place. -/
theorem concat (h : Copied t b done u) (hne : rel ≠ []) (hdone : ∀ x ∈ done, x.1 ≠ rel)
    (hv : ∀ c, v.entry? c = if c = rel ++ b then some e else u.entry? c) :
    Copied t b (done ++ [(rel, e)]) v where
  copied x hx := by
    rcases List.mem_append.1 hx with hx | hx
    · have hplace : x.1 ++ b ≠ rel ++ b := fun heq => hdone x hx (List.append_cancel_right heq)
      rw [hv, if_neg hplace]
      exact h.copied x hx
    · rw [List.mem_singleton.1 hx, hv, if_pos rfl]
  place c hc := by
    have hplace : c ≠ rel ++ b := by
      rintro rfl
      exact hne (List.append_left_eq_self.1 (hc.eq_of_length_le (by simp)))
    rw [HasDir, hv, if_neg hplace]
    exact h.place c hc
  kept c hc hx := by
    have hplace : c ≠ rel ++ b := fun heq => hx (rel, e) (by simp) heq.symm
    rw [hv, if_neg hplace]
    exact h.kept c hc fun x hmem => hx x (List.mem_append_left _ hmem)

/-- The source of an entry is as it was before when its turn comes: what was
written there would come from deeper in the source. -/
theorem entry?_source (h : Copied t b done u) (hab : ¬ a <:+ b) (hturn : t.Turn a done rel e) :
    u.entry? (rel ++ a) = some e := by
  rw [h.kept (rel ++ a) (fun hs => hab ((List.suffix_append rel a).trans hs)), hturn.entry]
  intro x hx heq
  have hle := (hturn.earlier x hx).2.2
  -- `a` and `b` are both above `rel ++ a`, so `b` is above `a`, and `x` is deeper than `rel`
  have hb : b <:+ rel ++ a := ⟨x.1, heq⟩
  rcases List.suffix_or_suffix_of_suffix hb (List.suffix_append rel a) with hba | hab'
  · obtain ⟨d, rfl⟩ := hba
    rw [← List.append_assoc] at heq
    have hx : x.1 = rel ++ d := List.append_cancel_right heq
    rw [hx, List.length_append] at hle
    have hd : d = [] := List.length_eq_zero_iff.1 (by omega)
    exact hab (by rw [hd, List.nil_append])
  · exact hab hab'

/-- The place of an entry is as it was before when its turn comes. -/
theorem entry?_place (h : Copied t b done u) (hturn : t.Turn a done rel e) :
    u.entry? (rel ++ b) = t.entry? (rel ++ b) := by
  apply h.kept
  · intro hs
    exact hturn.ne_nil (List.append_left_eq_self.1 (hs.eq_of_length_le (by simp)))
  · intro x hx heq
    exact (hturn.earlier x hx).2.1 (List.append_cancel_right heq)

/-- The directory in which an entry is put is there when its turn comes. -/
theorem hasDir_place {n : FileName} (h : Copied t b done u) (hturn : t.Turn a done (n :: rel) e) :
    u.HasDir (rel ++ b) := by
  by_cases hrel : rel = []
  · rw [hrel]
    exact h.place b List.suffix_rfl
  · have habove : t.entry? (rel ++ a) = some .dir := t.hasDir_of_entry? hturn.entry
    exact h.copied (rel, .dir) (hturn.above (rel, .dir) hrel habove (by simp))

/-- When all entries are in place the source is laid over the target. -/
theorem overlaid (h : Copied t b (Disk.levels t a) u) (hl : t.Linkless) (ha : t.HasDir a)
    (hb : ¬ t.Blocked b) : t.Overlaid a b u where
  copied rel e he := by
    by_cases hrel : rel = []
    · subst hrel
      have hdir : some e = some .dir := he.symm.trans ha
      rw [hdir]
      exact h.place b List.suffix_rfl
    · exact h.copied (rel, e) (mem_levels.2 ⟨hrel, he⟩)
  kept c e he hplaces := by
    by_cases hc : c <:+ b
    · have hdir : t.HasDir c := hasDir_of_not_blocked hl (fun hf => hb (hf.mono hc)) he
      rw [← he, hdir]
      exact h.place c hc
    · rw [h.kept c hc, he]
      intro x hx
      exact hplaces x.1 x.2 (mem_levels.1 hx).2
  fresh c e hnone he := by
    by_cases hc : c <:+ b
    · exact Or.inr ⟨hc, (h.place c hc).eq_dir he⟩
    · by_cases hx : ∃ x ∈ Disk.levels t a, x.1 ++ b = c
      · obtain ⟨x, hx, rfl⟩ := hx
        refine Or.inl ⟨x.1, rfl, ?_⟩
        rw [(mem_levels.1 hx).2, ← h.copied x hx, he]
      · rw [h.kept c hc fun x hmem heq => hx ⟨x, hmem, heq⟩, hnone] at he
        cases he

end Copied

end Tree

end TreeShell
