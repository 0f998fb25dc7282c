import TreeShell.Proofs.Tree.Passages

/-!
# Making out canonical paths

The canonical path of an entry is made out name by name. A path that leads to an entry
(`Tree.LeadsTo`) has it made out exactly if no name on the way has a canonical path that
is too long (`identify?_eq_some_iff`). How long the path itself is does not matter, so an
entry can be identified by a path that the system does not take, and a path that it takes
may fail to identify an entry behind a link. Without links, the names on the way take no
more bytes than the path, so every path from the root that the system takes can be made
out (`traceable_of_linkless`). But no path to a file can be made out if the canonical path
of the file is too long (`Traceable.size_le`).
-/

namespace TreeShell.Tree

open TreeShell.Path (slashedSize slashedSize_append slashedSize_cons utf8ByteSize_text)

variable {t : Tree} {a b : Address} {p q : Path} {ps : List Piece} {lookup : Lookup}

/-- The path leads to an entry at the address `a`, links followed. Its length is left out
of account. -/
structure LeadsTo (t : Tree) (p : Path) (a : Address) : Prop where
  nul_free : '\x00' ∉ p.text.toList
  ne_empty : p ≠ Path.empty
  followed : t.follow .target maxLinks [] p.pieces = .ok a
  isSome : (t.entry? a).isSome = true

theorem LeadsTo.unique (h : t.LeadsTo p a) (h' : t.LeadsTo p b) : a = b :=
  Except.ok.inj (h.followed.symm.trans h'.followed)

theorem identify?_eq_some_iff : t.identify? p = some a ↔ t.LeadsTo p a ∧ t.Traceable p := by
  unfold identify?
  constructor
  · intro h
    split at h
    · cases h
    · next hknown =>
      rw [not_or, not_or, not_not] at hknown
      obtain ⟨hnul, hempty, htraceable⟩ := hknown
      split at h
      · next b hb =>
        split at h
        · next hsome =>
          cases h
          exact ⟨⟨hnul, fun hp => hempty (decide_eq_true hp), hb, hsome⟩, htraceable⟩
        · cases h
      · cases h
  · rintro ⟨hleads, htraceable⟩
    have hknown : ¬ ('\x00' ∈ p.text.toList ∨ p.isEmpty = true ∨ ¬ t.Traceable p) := by
      rintro (hnul | hempty | hlong)
      · exact hleads.nul_free hnul
      · exact hleads.ne_empty (of_decide_eq_true hempty)
      · exact hlong htraceable
    rw [if_neg hknown]
    simp only [hleads.followed, hleads.isSome, if_true]

theorem sameEntry_iff : t.sameEntry p q = true ↔
    (∃ a, t.LeadsTo p a ∧ t.LeadsTo q a) ∧ t.Traceable p ∧ t.Traceable q := by
  unfold sameEntry
  constructor
  · intro h
    split at h
    · next a b ha hb =>
      obtain rfl := of_decide_eq_true h
      obtain ⟨hp, htp⟩ := identify?_eq_some_iff.1 ha
      obtain ⟨hq, htq⟩ := identify?_eq_some_iff.1 hb
      exact ⟨⟨a, hp, hq⟩, htp, htq⟩
    · cases h
  · rintro ⟨⟨a, hp, hq⟩, htp, htq⟩
    rw [identify?_eq_some_iff.2 ⟨hp, htp⟩, identify?_eq_some_iff.2 ⟨hq, htq⟩]
    exact decide_eq_true rfl

theorem leadsTo_of_find {e : Entry} (h : t.find p = .ok (a, e)) : t.LeadsTo p a := by
  have hr := refusal?_of_find h
  obtain ⟨hl, he⟩ := locate_of_find h
  rw [locate, hr] at hl
  obtain ⟨hnul, -, hempty⟩ := (Path.refusal?_eq_none_iff p).1 hr
  refine ⟨fun hmem => ?_, hempty, hl, by rw [he]; rfl⟩
  obtain ⟨s, hs, hc⟩ := (Path.mem_text_iff (by decide) p).1 hmem
  exact hnul s hs hc

/-- Of the paths that lead to an entry the system refuses only those that are too long. -/
theorem LeadsTo.refusal? (h : t.LeadsTo p a) (hsize : p.text.utf8ByteSize ≤ Path.maxBytes) :
    p.refusal? = none := by
  have hempty : ¬ p.isEmpty = true := fun hp => h.ne_empty (of_decide_eq_true hp)
  rw [Path.refusal?, if_neg h.nul_free, if_neg (Nat.not_lt.2 hsize), if_neg hempty]

theorem LeadsTo.find {e : Entry} (h : t.LeadsTo p a) (he : t.entry? a = some e)
    (hsize : p.text.utf8ByteSize ≤ Path.maxBytes) : t.find p = .ok (a, e) := by
  refine find_of_locate ?_ he
  rw [locate, h.refusal? hsize]
  exact h.followed

section Passing

variable {bytes : List UInt8}

/-- A walk to a file looks the file up. -/
theorem exists_mem_lookups_of_walk {jump : Address → List Piece → List Lookup}
    {jump' : Address → List Piece → Except IoError Address}
    (hfile : t.entry? b = some (.file bytes))
    (hjump : ∀ a ps, t.HasDir a → jump' a ps = .ok b → ∃ l ∈ jump a ps, l.address = b)
    (ha : t.HasDir a) (h : t.walk .target jump' a ps = .ok b) :
    ∃ l ∈ t.lookups jump a ps, l.address = b := by
  induction ps generalizing a with
  | nil =>
    cases h
    cases ha.eq_dir hfile
  | cons s ps ih =>
    obtain ⟨-, -, hgets⟩ := walk_cons_eq_ok_iff.1 h
    rw [lookups]
    cases hgets with
    | passes c e hstep he hkind hrest =>
      cases hs : Step.ofPiece s with
      | stay =>
        rw [hs] at hstep
        cases hstep
        exact ih ha hrest
      | up =>
        rw [hs] at hstep
        cases hstep
        exact ih (t.hasDir_tail ha) hrest
      | refuse reason =>
        rw [hs] at hstep
        cases hstep
      | enter n =>
        rw [hs] at hstep
        cases hstep
        simp only [he]
        cases e with
        | link target => exact absurd rfl hkind
        | dir =>
          obtain ⟨l, hl, hb⟩ := ih he hrest
          exact ⟨l, List.mem_cons_of_mem _ hl, hb⟩
        | file old =>
          -- nothing can follow a file
          cases ps with
          | nil =>
            cases hrest
            exact ⟨_, List.mem_cons_self, rfl⟩
          | cons q ps => cases (hasDir_of_walk_cons hrest).eq_dir he
    | ends n hs hn hps hb =>
      rw [hb, hn] at hfile
      cases hfile
    | stops n target hs hn hps hstop => cases hstop
    | jumps n target hs hn _ hjumped =>
      rw [hs]
      simp only [hn]
      obtain ⟨l, hl, hb⟩ := hjump _ _ (hasDir_target ha target) hjumped
      exact ⟨l, List.mem_cons_of_mem _ hl, hb⟩

theorem exists_mem_passages_of_follow {links : Nat} (hfile : t.entry? b = some (.file bytes))
    (ha : t.HasDir a) (h : t.follow .target links a ps = .ok b) :
    ∃ l ∈ t.passages links a ps, l.address = b := by
  induction links generalizing a ps with
  | zero =>
    apply exists_mem_lookups_of_walk hfile _ ha h
    intro a ps _ hjump
    cases hjump
  | succ links ih =>
    apply exists_mem_lookups_of_walk hfile _ ha h
    intro a ps ha hjump
    exact ih ha hjump

/-- Only if the canonical path of a file is not too long, a path to it can be made out. -/
theorem Traceable.size_le (h : t.Traceable p) (hleads : t.LeadsTo p a)
    (hfile : t.entry? a = some (.file bytes)) :
    a.path.text.utf8ByteSize ≤ Path.maxBytes := by
  obtain ⟨l, hl, rfl⟩ := exists_mem_passages_of_follow hfile t.hasDir_nil hleads.followed
  exact (Nat.le_add_right _ _).trans (h l hl)

end Passing

section Sizes

/-- Only the text of a name enters the entry of that name. -/
theorem eq_piece_of_enter {s : Piece} {n : FileName} (h : Step.ofPiece s = .enter n) :
    s = n.piece := by
  unfold Step.ofPiece at h
  split at h
  · cases h
  · split at h
    · cases h
    · split at h
      · cases h
        rfl
      · split at h <;> cases h

/-- How many bytes the names of an address take, each with one slash. -/
def nameBytes (a : Address) : Nat :=
  slashedSize (a.map FileName.piece)

theorem utf8ByteSize_path {n : FileName} (a : Address) :
    (Address.path (n :: a)).text.utf8ByteSize = nameBytes (n :: a) := by
  have hreverse (b : Address) : slashedSize (b.reverse.map FileName.piece) = nameBytes b := by
    induction b with
    | nil => rfl
    | cons m b ih =>
      rw [List.reverse_cons, List.map_append, slashedSize_append, ih, nameBytes, nameBytes]
      exact Nat.add_comm _ _
  have htext := utf8ByteSize_text (Address.path (n :: a))
  have hempty : Piece.empty.text.utf8ByteSize = 0 := by decide
  rw [Address.path, slashedSize_cons, hreverse, hempty] at htext
  rw [Address.path]
  omega

/-- Pieces that ask for a directory take at least the slash before them. -/
theorem toNat_asksDir_le (ps : List Piece) (b : Bool) :
    (asksDir ps && b).toNat ≤ slashedSize ps := by
  cases ps with
  | nil => exact Nat.le_refl 0
  | cons s ps =>
    rw [slashedSize_cons]
    have hone := Bool.toNat_le (asksDir (s :: ps) && b)
    omega

/-- Without links, what is looked up on the way takes no more bytes than the way. -/
theorem size_le_of_mem_lookups {jump : Address → List Piece → List Lookup} (hl : t.Linkless)
    (h : lookup ∈ t.lookups jump a ps) : lookup.size ≤ nameBytes a + slashedSize ps := by
  induction ps generalizing a with
  | nil => cases h
  | cons s ps ih =>
    rw [slashedSize_cons]
    rw [lookups] at h
    cases hs : Step.ofPiece s with
    | stay =>
      rw [hs] at h
      have hrest := ih h
      omega
    | up =>
      rw [hs] at h
      have hrest := ih h
      have hup : nameBytes a.tail ≤ nameBytes a := by
        cases a with
        | nil => exact Nat.le_refl _
        | cons n a =>
          rw [List.tail_cons, nameBytes, nameBytes, List.map_cons, slashedSize_cons]
          omega
      omega
    | refuse e =>
      rw [hs] at h
      cases h
    | enter n =>
      obtain rfl := eq_piece_of_enter hs
      rw [hs] at h
      have hbytes : nameBytes (n :: a) = n.piece.text.utf8ByteSize + 1 + nameBytes a := rfl
      rcases List.mem_cons.1 h with rfl | hlater
      · have hslash := toNat_asksDir_le ps (!t.hasLink (n :: a))
        simp only [Lookup.size, utf8ByteSize_path]
        omega
      · split at hlater
        · next target htarget => exact absurd htarget (hl _ target)
        · have hrest := ih hlater
          omega

/-- Pieces that name nothing look nothing up. -/
theorem lookups_append_of_idle {idles : List Piece} (jump : Address → List Piece → List Lookup)
    (hidle : ∀ s ∈ idles, s.isIdle = true) :
    t.lookups jump a (idles ++ ps) = t.lookups jump a ps := by
  induction idles with
  | nil => rfl
  | cons s idles ih =>
    obtain ⟨hs, hrest⟩ := List.forall_mem_cons.1 hidle
    rw [List.cons_append, lookups, Step.ofPiece_of_isIdle hs]
    exact ih hrest

theorem exists_passages_eq_lookups (t : Tree) (links : Nat) :
    ∃ jump, t.passages links = t.lookups jump := by
  cases links with
  | zero => exact ⟨_, rfl⟩
  | succ links => exact ⟨_, rfl⟩

/-- Without links every path from the root that the system takes can be made out. -/
theorem traceable_of_linkless (hl : t.Linkless) (habs : p.isAbsolute = true)
    (hr : p.refusal? = none) : t.Traceable p := by
  intro lookup hlookup
  obtain ⟨jump, hj⟩ := t.exists_passages_eq_lookups maxLinks
  -- the piece before the first slash is empty and looks nothing up
  rw [hj, Path.pieces_of_isAbsolute habs, lookups, Step.ofPiece_of_isIdle rfl] at hlookup
  have hsize := size_le_of_mem_lookups hl hlookup
  have htext := utf8ByteSize_text p
  have hempty : Piece.empty.text.utf8ByteSize = 0 := by decide
  rw [Path.pieces_of_isAbsolute habs, slashedSize_cons, hempty] at htext
  have hmax := ((Path.refusal?_eq_none_iff p).1 hr).2.1
  have hnone : nameBytes [] = 0 := rfl
  omega

end Sizes

end TreeShell.Tree
