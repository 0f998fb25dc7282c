import TreeShell.Proofs.Disk.Copy
import TreeShell.Proofs.Tree.Plain

/-!
# Copying a directory into itself

The target may be the source itself, and then nothing happens, or it lies inside
the source. The entries to be copied are listed before anything is changed, so
the copy ends, and every listed entry gets an entry of its kind at its place. But
the bytes of a file are read when its turn comes. A file that is the place of
another one has been written over by then, since what lies less deep is copied
first. So each place holds what its source holds after the copy
(`Reflected.mirrored`), and the copy is exact only where source and place had
the same bytes from the start (`copy_into_itself`).

The invariant of the loop is `Mirrored`. It lasts because the places lie deeper
than their sources: a place that was written is not the source of an entry that
was copied before (`Mirrored.concat`).
-/

namespace TreeShell

namespace Tree

/-- The entries of the list have been copied, in their order, from `a` to `b`,
which lies below `a`: a place holds what its source holds by now. -/
structure Mirrored (t : Tree) (a b : Address) (done : List (Address × Entry)) (u : Tree) :
    Prop where
  kinds : t.Extends u
  mirrored : ∀ x ∈ done, u.entry? (x.1 ++ b) = u.entry? (x.1 ++ a)
  place : ∀ c, c <:+ b → u.HasDir c
  kept : ∀ c, ¬ c <:+ b → (∀ x ∈ done, x.1 ++ b ≠ c) → u.entry? c = t.entry? c

/-- The tree `u` is `t` after what is at and below `a` was copied to `b` entry by
entry: everything is still of its kind, every place holds what its source holds,
and what is no place and not above one is as it was. -/
structure Reflected (t : Tree) (a b : Address) (u : Tree) : Prop where
  kinds : t.Extends u
  mirrored : ∀ rel e, t.entry? (rel ++ a) = some e → u.entry? (rel ++ b) = u.entry? (rel ++ a)
  place : ∀ c, c <:+ b → u.HasDir c
  kept : ∀ c, ¬ c <:+ b → (∀ rel e, t.entry? (rel ++ a) = some e → rel ++ b ≠ c) →
    u.entry? c = t.entry? c

variable {t u v : Tree} {a b c d rel : Address} {e f : Entry} {done : List (Address × Entry)}

theorem Mirrored.of_addsDirs (h : AddsDirs b t u) (hl : t.Linkless) (hb : ¬ t.Blocked b) :
    Mirrored t a b [] u where
  kinds := Disk.extends_of_addsDirs h
  mirrored := by simp
  place _ hc := h.hasDir hl hb hc
  kept c hc _ := by rw [h c, if_neg fun hs => hc hs.1]

theorem Mirrored.hasDir_place {n : FileName} (h : Mirrored t a b done u)
    (hturn : t.Turn a done (n :: rel) e) : u.HasDir (rel ++ b) := by
  by_cases hrel : rel = []
  · rw [hrel]
    exact h.place b List.suffix_rfl
  · have habove : t.HasDir (rel ++ a) := t.hasDir_of_entry? hturn.entry
    have hsource : u.HasDir (rel ++ a) := h.kinds.kinds.keepsDirs _ habove
    rw [HasDir, h.mirrored (rel, .dir) (hturn.above (rel, .dir) hrel habove (by simp))]
    exact hsource

/-- One more entry is copied. -/
theorem Mirrored.concat (h : Mirrored t a (d ++ a) done u) (hd : d ≠ [])
    (hturn : t.Turn a done rel e) (hkinds : u.Extends v)
    (hv : ∀ c, v.entry? c = if c = rel ++ (d ++ a) then u.entry? (rel ++ a) else u.entry? c) :
    Mirrored t a (d ++ a) (done ++ [(rel, e)]) v := by
  have hlength : 0 < d.length := List.length_pos_iff.2 hd
  -- no source of what is done, nor of this entry, lies as deep as this place
  have hsource {x : Address} (hx : x.length ≤ rel.length) :
      v.entry? (x ++ a) = u.entry? (x ++ a) := by
    rw [hv, if_neg]
    intro heq
    have := congrArg List.length heq
    simp only [List.length_append] at this
    omega
  refine ⟨trans_of Extends h.kinds hkinds, ?_, ?_, ?_⟩
  · intro x hx
    rcases List.mem_append.1 hx with hx | hx
    · obtain ⟨-, hne, hle⟩ := hturn.earlier x hx
      have hplace : x.1 ++ (d ++ a) ≠ rel ++ (d ++ a) :=
        fun heq => hne (List.append_cancel_right heq)
      rw [hv, if_neg hplace, h.mirrored x hx, hsource hle]
    · rw [List.mem_singleton.1 hx, hv, if_pos rfl, hsource (Nat.le_refl _)]
  · intro c hc
    exact hkinds.kinds.keepsDirs c (h.place c hc)
  · intro c hc hx
    have hplace : c ≠ rel ++ (d ++ a) := fun heq => hx (rel, e) (by simp) heq.symm
    rw [hv, if_neg hplace]
    exact h.kept c hc fun x hmem => hx x (List.mem_append_left _ hmem)

/-- When all entries are copied the target mirrors the source. -/
theorem Mirrored.reflected (h : Mirrored t a b (Disk.levels t a) u) (ha : t.HasDir a) :
    t.Reflected a b u where
  kinds := h.kinds
  mirrored rel e he := by
    by_cases hrel : rel = []
    · have hsource : u.HasDir a := h.kinds.kinds.keepsDirs a ha
      have hplace : u.HasDir b := h.place b List.suffix_rfl
      rw [hrel, List.nil_append, List.nil_append, hplace, hsource]
    · exact h.mirrored (rel, e) (mem_levels.2 ⟨hrel, he⟩)
  place := h.place
  kept c hc hplaces := h.kept c hc fun x hx => hplaces x.1 x.2 (mem_levels.1 hx).2

namespace Reflected

theorem entry?_eq_of_not_place (h : t.Reflected a b u) (hc : t.entry? c = some e)
    (hplaces : ∀ rel f, t.entry? (rel ++ a) = some f → rel ++ b ≠ c) : u.entry? c = some e := by
  by_cases hsuffix : c <:+ b
  · -- the entry is a directory, since there is one afterwards and no kind changes
    obtain ⟨f, hf, hk⟩ := h.kinds.kinds c e hc
    have hdir := h.place c hsuffix
    obtain rfl := hdir.eq_dir hf
    rw [Entry.kind_eq_dir_iff.1 hk.symm]
    exact hdir
  · rw [h.kept c hsuffix hplaces, hc]

/-- What is neither at the target nor below it is as it was. -/
theorem entry?_of_outside (h : t.Reflected a b u) (hc : t.entry? c = some e) (hb : ¬ b <:+ c) :
    u.entry? c = some e := by
  apply h.entry?_eq_of_not_place hc
  rintro rel f - rfl
  exact hb (List.suffix_append rel b)

/-- A place holds an entry of the kind that its source had. -/
theorem exists_copy (h : t.Reflected a b u) (he : t.entry? (rel ++ a) = some e) :
    ∃ f, u.entry? (rel ++ b) = some f ∧ f.kind = e.kind := by
  rw [h.mirrored rel e he]
  exact h.kinds.kinds _ _ he

/-- The copies are exact if every source that is a place, too, was like the source
of what is copied there, and only then. -/
theorem exact_iff (h : t.Reflected a (d ++ a) u) (hd : d ≠ []) :
    (∀ rel e, t.entry? (rel ++ a) = some e → u.entry? (rel ++ (d ++ a)) = some e) ↔
      ∀ rel e f, t.entry? (rel ++ a) = some e → t.entry? (rel ++ (d ++ a)) = some f → f = e := by
  constructor
  · intro hexact rel e f he hf
    have hplace := hexact rel e he
    -- the place is a source, too, and its copy one level deeper is exact
    rw [← List.append_assoc] at hf hplace
    have hdeeper := hexact (rel ++ d) f hf
    rw [h.mirrored (rel ++ d) f hf, hplace] at hdeeper
    exact (Option.some.inj hdeeper).symm
  · intro hagree rel e he
    -- a source that is a place has its bytes from a source less deep
    induction hn : rel.length using Nat.strong_induction_on generalizing rel e with
    | h n ih =>
      rw [h.mirrored rel e he]
      by_cases hplace : ∃ rel' f, t.entry? (rel' ++ a) = some f ∧ rel' ++ (d ++ a) = rel ++ a
      · obtain ⟨rel', f, hf, heq⟩ := hplace
        have hlength : rel'.length < n := by
          have hpos := List.length_pos_iff.2 hd
          have := congrArg List.length heq
          simp only [List.length_append] at this
          omega
        rw [← heq] at he ⊢
        rw [hagree rel' f e hf he]
        exact ih rel'.length hlength rel' f hf rfl
      · apply h.entry?_eq_of_not_place he
        intro rel' f hf heq
        exact hplace ⟨rel', f, hf, heq⟩

end Reflected

/-- A file that was written has the new bytes, and nothing else has changed. -/
theorem entry?_of_modifyFile {q : Path} {bytes : List UInt8} (hl : t.Linkless) (hq : q.Plain)
    (hb : Path.Names q.pieces b) (hm : t.modifyFile q (fun _ => bytes) = .ok u) (c : Address) :
    u.entry? c = if c = b then some (.file bytes) else t.entry? c := by
  obtain ⟨b', hlocate, hwritten⟩ := exists_written_of_modifyFile hm
  obtain rfl := Path.eq_of_names_of_names (names_of_locate hl hq hlocate) hb
  exact hwritten.entry c

end Tree

namespace Disk

open TreeShell.Path (Names Plain)
open TreeShell.Tree

variable {h h' : Host} {p q source target : Path} {a b d rel : Address}

section Snapshot

theorem examine_eq_ok {root : Path} {x : Address × Entry} {item? : Option Item}
    (hx : x.2.kind ≠ .link) (hok : examine root x h = .ok item? h') :
    item? = some (itemOf x) ∧ h' = h := by
  obtain ⟨rel, e⟩ := x
  cases e with
  | file bytes =>
    cases hok
    exact ⟨rfl, rfl⟩
  | link target => exact absurd rfl hx
  | dir =>
    obtain ⟨c, h₁, hdir, hpure⟩ := bind_eq_ok.1 hok
    obtain ⟨-, rfl⟩ := requireDir_eq_ok hdir
    cases hpure
    exact ⟨rfl, rfl⟩

theorem examineAll_eq_ok {root : Path} {xs : List (Address × Entry)} {items : List Item}
    (hxs : ∀ x ∈ xs, x.2.kind ≠ .link) (hok : examineAll root xs h = .ok items h') :
    items = xs.map itemOf ∧ h' = h := by
  induction xs generalizing items h' with
  | nil =>
    cases hok
    exact ⟨rfl, rfl⟩
  | cons x xs ih =>
    obtain ⟨item?, h₁, hfirst, hothers⟩ := bind_eq_ok.1 hok
    obtain ⟨rest, h₂, hrest, hpure⟩ := bind_eq_ok.1 hothers
    obtain ⟨rfl, rfl⟩ := examine_eq_ok (hxs x List.mem_cons_self) hfirst
    obtain ⟨rfl, rfl⟩ := ih (fun y hy => hxs y (List.mem_cons_of_mem _ hy)) hrest
    cases hpure
    exact ⟨rfl, rfl⟩

/-- Without links everything below the source is listed. -/
theorem snapshot_eq_ok {items : List Item} (hl : h.tree.Linkless)
    (habs : source.isAbsolute = true) (ha : Names source.pieces a)
    (hok : snapshot source h = .ok items h') : items = (levels h.tree a).map itemOf ∧ h' = h := by
  obtain ⟨c, h₁, hdir, hlist⟩ := bind_eq_ok.1 hok
  obtain ⟨hfind, rfl⟩ := requireDir_eq_ok hdir
  have hnames := Path.names_join_empty ha
  have hplain := Path.plain_of_names (Path.isAbsolute_join habs _) hnames
  obtain rfl := Path.eq_of_names_of_names (names_of_find hl hplain hfind) hnames
  rw [tree_bind] at hlist
  exact examineAll_eq_ok (fun x hx => hl.kind_ne (mem_levels.1 hx).2) hlist

end Snapshot

section Items

variable {t : Tree} {e : Entry} {done rest : List (Address × Entry)}

/-- A file that was copied was copied from its address to the other one. -/
theorem copyFile_eq_ok (hl : h.tree.Linkless) (hp : p.Plain) (ha : Names p.pieces a)
    (hq : q.Plain) (hb : Names q.pieces b) (hab : a ≠ b) (hok : copyFile p q h = .ok () h') :
    ∃ u, h' = { h with tree := u } ∧ h.tree.Extends u ∧
      ∀ c, u.entry? c = if c = b then h.tree.entry? a else h.tree.entry? c := by
  have hapart : h.tree.sameEntry p q = false := by
    by_contra hsame
    obtain ⟨c, hc, hc'⟩ := exists_names_of_sameEntry hl hp hq (by simpa using hsame)
    exact hab ((Path.eq_of_names_of_names ha hc).trans (Path.eq_of_names_of_names hc' hb))
  rw [copyFile_eq hapart] at hok
  obtain ⟨⟨c, e⟩, h₁, hread, hwrite⟩ := bind_eq_ok.1 hok
  obtain ⟨hfind, rfl⟩ := liftCall_eq_ok hread
  obtain rfl := Path.eq_of_names_of_names (names_of_find hl hp hfind) ha
  rw [(locate_of_find hfind).2]
  cases e with
  | dir => cases hwrite
  | link target => cases hwrite
  | file bytes =>
    have hother : ∀ d, h₁.tree.locate .output q = .ok d → d ≠ c := by
      rintro d hd rfl
      exact hab (Path.eq_of_names_of_names (names_of_locate hl hq hd) hb)
    have hcommit : commit q (fun t => t.modifyFile q fun _ => bytesLeft h₁.tree c q bytes) h₁ =
        .ok () h' := hwrite
    rw [bytesLeft_of_ne hother] at hcommit
    obtain ⟨u, hm, rfl⟩ := commit_eq_ok hcommit
    exact ⟨u, rfl, extends_modifyFile hm, entry?_of_modifyFile hl hq hb hm⟩

/-- An entry that was copied got what its source held by then. -/
theorem copyItem_eq_ok (hl : t.Linkless) (hsource : source.isAbsolute = true)
    (ha : Names source.pieces a) (htarget : target.isAbsolute = true)
    (hb : Names target.pieces (d ++ a)) (hd : d ≠ [])
    (hmirrored : Mirrored t a (d ++ a) done h.tree) (hturn : t.Turn a done rel e)
    (hok : copyItem source target (itemOf (rel, e)) h = .ok () h') :
    ∃ u, h' = { h with tree := u } ∧ Mirrored t a (d ++ a) (done ++ [(rel, e)]) u := by
  have hl' : h.tree.Linkless := hmirrored.kinds.links.linkless hl
  have hspells := Path.spells_join htarget hb hturn.ne_nil
  have hplain := Path.plain_of_names hspells.absolute hspells.names
  obtain ⟨n, rel, rfl⟩ := List.exists_cons_of_ne_nil hturn.ne_nil
  have hdir := hmirrored.hasDir_place hturn
  obtain ⟨f, hf, hk⟩ := hmirrored.kinds.kinds _ e hturn.entry
  cases e with
  | link target => exact absurd hturn.entry (hl _ target)
  | dir =>
    obtain ⟨c, u, hc, -, hfree, hadds, rfl⟩ := createDirs_eq_ok hl' hplain hok
    obtain rfl := Path.eq_of_names_of_names hc hspells.names
    refine ⟨u, rfl, hmirrored.concat hd hturn (extends_of_addsDirs hadds) fun c => ?_⟩
    rw [hf, Entry.kind_eq_dir_iff.1 hk]
    exact hadds.entry?_eq hl' hfree hdir c
  | file bytes =>
    have hself := Path.spells_join hsource ha hturn.ne_nil
    have hne : n :: rel ++ a ≠ n :: rel ++ (d ++ a) := by
      intro heq
      exact hd (List.append_left_eq_self.1 (List.append_cancel_left heq).symm)
    obtain ⟨u, rfl, hextends, hu⟩ := copyFile_eq_ok hl'
      (Path.plain_of_names hself.absolute hself.names) hself.names hplain hspells.names hne hok
    exact ⟨u, rfl, hmirrored.concat hd hturn hextends hu⟩

theorem copyItems_eq_ok (hl : t.Linkless) (hsource : source.isAbsolute = true)
    (ha : Names source.pieces a) (htarget : target.isAbsolute = true)
    (hb : Names target.pieces (d ++ a)) (hd : d ≠ []) (hlevels : levels t a = done ++ rest)
    (hmirrored : Mirrored t a (d ++ a) done h.tree)
    (hok : copyItems source target (rest.map itemOf) h = .ok () h') :
    Mirrored t a (d ++ a) (levels t a) h'.tree := by
  induction rest generalizing done h with
  | nil =>
    cases hok
    rw [hlevels, List.append_nil]
    exact hmirrored
  | cons x rest ih =>
    obtain ⟨_, h₁, hfirst, hrest⟩ := bind_eq_ok.1 hok
    obtain ⟨u, rfl, hnext⟩ :=
      copyItem_eq_ok hl hsource ha htarget hb hd hmirrored (turn_of_levels hlevels) hfirst
    exact ih (by simp [hlevels]) hnext hrest

end Items

section Copy

/-- A copy of a directory to itself or to the inside of it that succeeded. -/
theorem exists_reflected_of_copy (hl : h.tree.Linkless) (hsource : source.Plain)
    (htarget : target.Plain) (hinside : source.components.2 <+: target.components.2)
    (hfind : h.tree.find source = .ok (a, .dir)) (hok : copy source target h = .ok () h') :
    ∃ d, Names target.pieces (d ++ a) ∧ (d = [] ∧ h' = h ∨
      d ≠ [] ∧ h.tree.Reflected a (d ++ a) h'.tree) := by
  have ha := names_of_find hl hsource hfind
  have hdir := (locate_of_find hfind).2
  rw [copy, tree_bind, bind_of_ok (liftCall_of_ok hfind)] at hok
  simp only at hok
  split at hok
  · next hsame =>
    obtain ⟨c, hc, hc'⟩ := exists_names_of_sameEntry hl hsource htarget hsame
    obtain rfl := Path.eq_of_names_of_names hc ha
    cases hok
    exact ⟨[], hc', Or.inl ⟨rfl, rfl⟩⟩
  · next hapart =>
    obtain ⟨items, h₁, hitems, hok⟩ := bind_eq_ok.1 hok
    obtain ⟨rfl, rfl⟩ := snapshot_eq_ok hl hsource.absolute ha hitems
    obtain ⟨_, h₂, hcreate, hok⟩ := bind_eq_ok.1 hok
    obtain ⟨b, u, hb, htaken, hfree, hadds, rfl⟩ := createDirs_eq_ok hl htarget hcreate
    obtain ⟨d, rfl⟩ :=
      (Path.components_prefix_iff hsource.absolute ha htarget.absolute hb).1 hinside
    have hd : d ≠ [] := by
      rintro rfl
      exact hapart (sameEntry_of_hasDir hl hsource.absolute (refusal?_of_find hfind) ha
        htarget.absolute htaken hb hdir)
    have hstart : Mirrored h₁.tree a (d ++ a) [] u := Mirrored.of_addsDirs hadds hl hfree
    have hall := copyItems_eq_ok (h := { h₁ with tree := u }) hl hsource.absolute ha
      htarget.absolute hb hd (List.nil_append _).symm hstart hok
    exact ⟨d, hb, Or.inr ⟨hd, hall.reflected hdir⟩⟩

/-- Without links, for a directory and a target that is it or lies inside it: a
copy that succeeds puts an entry of the same kind at the place of everything that
was below the directory, and changes nothing outside the target. The places hold
exactly what was there to be copied if the files that were both to be copied and to
be written over had the same bytes as what was copied there, and only then. -/
theorem copy_into_itself (hl : h.tree.Linkless) (hsource : source.Plain) (htarget : target.Plain)
    (hinside : source.components.2 <+: target.components.2)
    (hfind : h.tree.find source = .ok (a, .dir)) (hok : copy source target h = .ok () h') :
    ∃ d, Names target.pieces (d ++ a) ∧
      (∀ rel e, h.tree.entry? (rel ++ a) = some e →
        ∃ f, h'.tree.entry? (rel ++ (d ++ a)) = some f ∧ f.kind = e.kind) ∧
      (∀ c e, h.tree.entry? c = some e → ¬ (d ++ a) <:+ c → h'.tree.entry? c = some e) ∧
      ((∀ rel e, h.tree.entry? (rel ++ a) = some e →
          h'.tree.entry? (rel ++ (d ++ a)) = some e) ↔
        ∀ rel e f, h.tree.entry? (rel ++ a) = some e →
          h.tree.entry? (rel ++ (d ++ a)) = some f → f = e) := by
  obtain ⟨d, hb, ⟨rfl, rfl⟩ | ⟨hd, h⟩⟩ :=
    exists_reflected_of_copy hl hsource htarget hinside hfind hok
  · refine ⟨[], hb, fun rel e he => ⟨e, he, rfl⟩, fun c e he _ => he, ?_⟩
    constructor
    · intro _ rel e f he hf
      exact Option.some.inj (hf.symm.trans he)
    · intro _ rel e he
      exact he
  · exact ⟨d, hb, fun rel e => h.exists_copy, fun c e => h.entry?_of_outside, h.exact_iff hd⟩

/-- A tree with the files `/a/f` and `/a/b/f`, of which the second is the place of
the first when `/a` is copied to `/a/b`. -/
def overlapping : Host where
  tree := Tree.empty.plantAll
    [(Path.ofText "/a/f", .file [49]), (Path.ofText "/a/b/f", .file [50])]

/-- What is left of it when `/a` was copied to `/a/b`. -/
def overlapped : Host where
  tree := Tree.empty.plantAll [(Path.ofText "/a/f", .file [49]), (Path.ofText "/a/b/f", .file [49]),
    (Path.ofText "/a/b/b/f", .file [49])]

/-- The address of `/a/b/f`. -/
def overlap : Address :=
  [⟨"f", by decide⟩, nameB, ⟨"a", by decide⟩]

theorem copy_overlapping :
    copy (Path.ofText "/a") (Path.ofText "/a/b") overlapping = .ok () overlapped := by
  have hfind : overlapping.tree.find (Path.ofText "/a") = .ok (overlap.drop 2, .dir) := by
    decide +kernel
  have hslash : overlapping.tree.find ((Path.ofText "/a").join Path.empty) =
      .ok (overlap.drop 2, .dir) := by
    decide +kernel
  -- the entries are listed in an order in which they need no sorting
  have hlevels : levels overlapping.tree (overlap.drop 2) =
      overlapping.tree.below (overlap.drop 2) :=
    List.mergeSort_of_pairwise (by decide +kernel)
  have hitems : snapshot (Path.ofText "/a") overlapping =
      .ok ((overlapping.tree.below (overlap.drop 2)).map itemOf) overlapping := by
    rw [snapshot, bind_of_ok (requireDir_of_find hslash), tree_bind, hlevels]
    decide +kernel
  have hcopied : (do
      createDirs (Path.ofText "/a/b")
      copyItems (Path.ofText "/a") (Path.ofText "/a/b")
        ((overlapping.tree.below (overlap.drop 2)).map itemOf) : Disk Unit) overlapping =
      .ok () overlapped := by
    decide +kernel
  have hapart : overlapping.tree.sameEntry (Path.ofText "/a") (Path.ofText "/a/b") = false := by
    decide +kernel
  rw [copy, tree_bind, bind_of_ok (liftCall_of_ok hfind)]
  simp only [hapart]
  rw [if_neg Bool.false_ne_true, bind_of_ok hitems]
  exact hcopied

theorem copy_into_itself_overlapping :
    ∃ d, Names (Path.ofText "/a/b").pieces (d ++ overlap.drop 2) ∧
      (∀ rel e, overlapping.tree.entry? (rel ++ overlap.drop 2) = some e →
        ∃ f, overlapped.tree.entry? (rel ++ (d ++ overlap.drop 2)) = some f ∧ f.kind = e.kind) ∧
      (∀ c e, overlapping.tree.entry? c = some e → ¬ (d ++ overlap.drop 2) <:+ c →
        overlapped.tree.entry? c = some e) ∧
      ((∀ rel e, overlapping.tree.entry? (rel ++ overlap.drop 2) = some e →
          overlapped.tree.entry? (rel ++ (d ++ overlap.drop 2)) = some e) ↔
        ∀ rel e f, overlapping.tree.entry? (rel ++ overlap.drop 2) = some e →
          overlapping.tree.entry? (rel ++ (d ++ overlap.drop 2)) = some f → f = e) :=
  copy_into_itself (by decide +kernel) ⟨by decide +kernel, by decide +kernel⟩
    ⟨by decide +kernel, by decide +kernel⟩ (by decide +kernel) (by decide +kernel) copy_overlapping

/-- The file `/a/b/f` held `2`, and its copy holds `1`. -/
theorem bytes_lost_in_overlap :
    copy (Path.ofText "/a") (Path.ofText "/a/b") overlapping = .ok () overlapped ∧
      overlapping.tree.find (Path.ofText "/a/b/f") = .ok (overlap, .file [50]) ∧
      overlapped.tree.find (Path.ofText "/a/b/b/f") =
        .ok (overlap.take 2 ++ overlap.drop 1, .file [49]) :=
  ⟨copy_overlapping, by decide +kernel, by decide +kernel⟩

end Copy

end Disk

end TreeShell
