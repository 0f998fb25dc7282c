import TreeShell.Proofs.Disk.CopyFile
import TreeShell.Proofs.Tree.Continuation

/-!
# Copying a directory with links to a fresh place

Nothing is at the target and the target is not inside the source. Then the copy
succeeds, whatever links there are in the source and on the way to it, and what it
makes of the source is a tree without links (`copy_to_fresh_place`): the directories
and the files that are there without following a link, a file for each link that leads
to a file, and nothing for other links (`Tree.counterpart?`).

What a link leads to is found twice, when the entries are listed and when its turn
comes. In between the copy has made entries at the target and nowhere else, and there
a link could only lead that led nowhere before (`Filled.find_source`).
-/

namespace TreeShell

namespace Tree

/-- What the copy makes of the entry at `rel` below the directory at `a`, which
`source` leads to: a link becomes the file that it leads to, if it leads to one. -/
def counterpart? (t : Tree) (source : Path) (a rel : Address) : Option Entry :=
  match t.entry? (rel ++ a) with
  | some (.link _) =>
    match t.find (source.join (Address.relative rel)) with
    | .ok (_, .file bytes) => some (.file bytes)
    | _ => none
  | e? => e?

/-- What a copy to a fresh place starts from. The source leads to the directory at `a`,
the target ends in the name `n`, which nothing has in the directory at `b` that the
path above the target leads to, and its place is not inside the source. All paths that
the copy looks up are such as the system takes. -/
structure FreshCopying (t : Tree) (source target : Path) (a b : Address) (n : FileName) :
    Prop where
  source_dir : t.find source = .ok (a, .dir)
  absolute : target.isAbsolute = true
  name : target.pieces.getLast? = some n.piece
  parent_dir : ∃ q, target.parent? = some q ∧ t.find q = .ok (b, .dir)
  missing : t.entry? (n :: b) = none
  apart : ¬ a <:+ n :: b
  source_taken : ∀ rel e, t.entry? (rel ++ a) = some e →
    (source.join (Address.relative rel)).refusal? = none
  target_taken : target.refusal? = none
  below_taken : ∀ rel e, rel ≠ [] → t.entry? (rel ++ a) = some e →
    (target.join (Address.relative rel)).refusal? = none

/-- At and below `c` the tree `u` has what the copy makes of the entries of the list,
and elsewhere it has what `t` has. -/
structure Filled (t : Tree) (source : Path) (a c : Address) (done : List (Address × Entry))
    (u : Tree) : Prop where
  place : u.HasDir c
  copied : ∀ rel, rel ≠ [] → u.entry? (rel ++ c) =
    if rel ∈ done.map Prod.fst then t.counterpart? source a rel else none
  kept : ∀ d, ¬ c <:+ d → u.entry? d = t.entry? d

variable {t u v : Tree} {source target p q : Path} {a b c d rel : Address} {n : FileName}
  {e : Entry} {bytes : List UInt8} {done : List (Address × Entry)}

theorem counterpart?_ne_link (link : Path) : t.counterpart? source a rel ≠ some (.link link) := by
  unfold counterpart?
  split
  · split
    · exact fun h => by cases h
    · exact fun h => by cases h
  · next hne => exact hne link

theorem counterpart?_eq_none (h : t.entry? (rel ++ a) = none) :
    t.counterpart? source a rel = none := by
  rw [counterpart?, h]

theorem counterpart?_eq_dir_iff :
    t.counterpart? source a rel = some .dir ↔ t.HasDir (rel ++ a) := by
  unfold counterpart?
  rw [HasDir]
  split
  · next link hlink =>
    rw [hlink]
    split
    · simp
    · simp
  · rfl

/-- What the copy makes of an entry with bytes can be read by its path. -/
theorem FreshCopying.exists_find (hc : t.FreshCopying source target a b n) (hrel : rel ≠ [])
    (hfile : t.counterpart? source a rel = some (.file bytes)) :
    ∃ f, t.find (source.join (Address.relative rel)) = .ok (f, .file bytes) := by
  cases he : t.entry? (rel ++ a) with
  | none =>
    rw [counterpart?_eq_none he] at hfile
    cases hfile
  | some e =>
    cases e with
    | dir =>
      rw [counterpart?_eq_dir_iff.2 he] at hfile
      cases hfile
    | file bytes' =>
      rw [counterpart?, he] at hfile
      cases hfile
      obtain ⟨m, rel, rfl⟩ := List.exists_cons_of_ne_nil hrel
      have hlocate := locate_join .target hc.source_dir (hc.source_taken _ _ he)
        (t.hasDir_of_entry? he) (by rw [he]; simp)
      exact ⟨_, find_of_locate hlocate he⟩
    | link link =>
      simp only [counterpart?, he] at hfile
      split at hfile
      · next f bytes' hfind =>
        cases hfile
        exact ⟨f, hfind⟩
      · cases hfile

/-- The target, once its directory is made, leads to it. -/
theorem FreshCopying.locate_target (hc : t.FreshCopying source target a b n) (hu : t.Extends u)
    (hlink : ∀ link, u.entry? (n :: b) ≠ some (.link link)) (ending : Ending) :
    u.locate ending target = .ok (n :: b) := by
  obtain ⟨q, hq, hfind⟩ := hc.parent_dir
  obtain ⟨hl, hb⟩ := locate_of_find hfind
  have hfind' := find_of_locate (locate_of_extends hu hl) (hu.kinds.keepsDirs b hb)
  exact locate_of_parent? ending hc.absolute hq hc.name hfind' hc.target_taken hlink

theorem Filled.extends (h : Filled t source a c done u) (hc : t.entry? c = none) : t.Extends u := by
  have houtside {d : Address} {e : Entry} (hd : t.entry? d = some e) : ¬ c <:+ d := by
    intro hcd
    rw [entry?_eq_none_of_suffix hc hcd] at hd
    cases hd
  constructor
  · intro d e hd
    exact ⟨e, (h.kept d (houtside hd)).trans hd, rfl⟩
  · intro d link hd
    by_cases hcd : c <:+ d
    · exfalso
      obtain ⟨rel, rfl⟩ := hcd
      by_cases hrel : rel = []
      · subst hrel
        cases h.place.eq_dir hd
      · rw [h.copied rel hrel] at hd
        split at hd
        · exact counterpart?_ne_link link hd
        · cases hd
    · rw [← h.kept d hcd]
      exact hd

/-- The directory at the place is all that there is at first. -/
theorem filled_nil (hc : t.entry? c = none)
    (hu : ∀ d, u.entry? d = if d = c then some .dir else t.entry? d) :
    Filled t source a c [] u where
  place := by rw [HasDir, hu, if_pos rfl]
  copied rel hrel := by
    rw [hu, if_neg fun heq => hrel (List.append_left_eq_self.1 heq),
      entry?_eq_none_of_suffix hc (List.suffix_append rel c), List.map_nil,
      if_neg List.not_mem_nil]
  kept d hd := by
    rw [hu, if_neg]
    rintro rfl
    exact hd List.suffix_rfl

/-- What a path led to, it leads to while the place is filled. -/
theorem Filled.find_source (h : Filled t source a c done u) (hc : t.entry? c = none)
    (hfind : t.find p = .ok (d, e)) : u.find p = .ok (d, e) := by
  obtain ⟨hl, hd⟩ := locate_of_find hfind
  refine find_of_locate (locate_of_extends (h.extends hc) hl) ((h.kept d fun hcd => ?_).trans hd)
  rw [entry?_eq_none_of_suffix hc hcd] at hd
  cases hd

/-- Nothing is at the place of an entry when its turn comes. -/
theorem Filled.entry?_place (h : Filled t source a c done u) (hturn : t.Turn a done rel e) :
    u.entry? (rel ++ c) = none := by
  rw [h.copied rel hturn.ne_nil, if_neg]
  intro hmem
  obtain ⟨x, hx, hrel⟩ := List.mem_map.1 hmem
  exact (hturn.earlier x hx).2.1 hrel

/-- The directory in which an entry is put is there when its turn comes. -/
theorem Filled.hasDir_place {m : FileName} (h : Filled t source a c done u)
    (hturn : t.Turn a done (m :: rel) e) : u.HasDir (rel ++ c) := by
  by_cases hrel : rel = []
  · rw [hrel]
    exact h.place
  · have habove : t.HasDir (rel ++ a) := t.hasDir_of_entry? hturn.entry
    have hdone := hturn.above (rel, .dir) hrel habove (by simp)
    rw [HasDir, h.copied rel hrel, if_pos (List.mem_map.2 ⟨_, hdone, rfl⟩)]
    exact counterpart?_eq_dir_iff.2 habove

/-- One more entry is in its place, or nothing where the copy makes nothing of it. -/
theorem Filled.concat (h : Filled t source a c done u) (hrel : rel ≠ [])
    (hv : ∀ d, v.entry? d = if d = rel ++ c then t.counterpart? source a rel else u.entry? d) :
    Filled t source a c (done ++ [(rel, e)]) v where
  place := by
    rw [HasDir, hv, if_neg fun heq => hrel (List.append_left_eq_self.1 heq.symm)]
    exact h.place
  copied rel' hrel' := by
    rw [hv, List.map_append, List.map_singleton]
    by_cases heq : rel' = rel
    · rw [heq, if_pos rfl, if_pos (by simp)]
    · have hmem : rel' ∈ done.map Prod.fst ++ [rel] ↔ rel' ∈ done.map Prod.fst := by
        rw [List.mem_append, List.mem_singleton, or_iff_left heq]
      rw [if_neg fun happend => heq (List.append_cancel_right happend), h.copied rel' hrel']
      simp only [hmem]
  kept d hd := by
    rw [hv, if_neg]
    · exact h.kept d hd
    · rintro rfl
      exact hd (List.suffix_append rel c)

end Tree

namespace Disk

open TreeShell.Tree

variable {h : Host} {t : Tree} {source target p q : Path} {a b c rel : Address} {n : FileName}
  {e : Entry} {done rest : List (Address × Entry)}

theorem sameEntry_of_missing (hl : t.locate .target q = .ok c) (hc : t.entry? c = none) :
    t.sameEntry p q = false := by
  rw [Bool.eq_false_iff]
  intro hsame
  obtain ⟨⟨d, -, hd⟩, -⟩ := sameEntry_iff.1 hsame
  obtain ⟨e, he⟩ := Option.isSome_iff_exists.1 hd.isSome
  have hsize := ((Path.refusal?_eq_none_iff q).1 (refusal?_of_locate hl)).2.1
  have hlocate := (locate_of_find (hd.find he hsize)).1
  rw [hl] at hlocate
  cases hlocate
  rw [hc] at he
  cases he

/-- A file is copied to a place where nothing is. -/
theorem copyFile_of_missing {f : Address} {bytes : List UInt8}
    (hfind : h.tree.find p = .ok (f, .file bytes))
    (hl : ∀ ending, h.tree.locate ending q = .ok c) (hc : h.tree.entry? c = none) :
    ∃ u, copyFile p q h = .ok () { h with tree := u } ∧
      ∀ d, u.entry? d = if d = c then some (.file bytes) else h.tree.entry? d := by
  have hf := (locate_of_find hfind).2
  obtain ⟨u, hu, hwritten⟩ :=
    modifyFile_of_locate (hl .output) (free_of_eq_none hc) fun _ => bytes
  refine ⟨u, ?_, hwritten.entry⟩
  have hother : ∀ d, h.tree.locate .output q = .ok d → d ≠ f := by
    rintro d hd rfl
    rw [hl .output] at hd
    cases hd
    rw [hc] at hf
    cases hf
  rw [copyFile_of_apart hfind (sameEntry_of_missing (hl .target) hc), bytesLeft_of_ne hother]
  exact commit_of_ok hu

section Listing

/-- An entry is listed as what the copy makes of it. -/
theorem exists_examine {x : Address × Entry} (hfind : h.tree.find source = .ok (a, .dir))
    (hne : x.1 ≠ []) (hx : h.tree.entry? (x.1 ++ a) = some x.2)
    (hr : x.2 = .dir → (source.join (Address.relative x.1)).refusal? = none) :
    ∃ h', examine source x h = .ok ((h.tree.counterpart? source a x.1).map fun e =>
        itemOf (x.1, e)) h' ∧ h'.tree = h.tree := by
  obtain ⟨rel, e⟩ := x
  cases e with
  | file bytes =>
    refine ⟨h, ?_, rfl⟩
    simp only [counterpart?, hx]
    rfl
  | dir =>
    obtain ⟨m, rel, rfl⟩ := List.exists_cons_of_ne_nil hne
    have hlocate := locate_join .target hfind (hr rfl) (h.tree.hasDir_of_entry? hx)
      (by rw [hx]; simp)
    refine ⟨h, ?_, rfl⟩
    rw [counterpart?_eq_dir_iff.2 hx, examine]
    simp only
    rw [bind_of_ok (requireDir_of_find (find_of_locate hlocate hx))]
    rfl
  | link link =>
    simp only [counterpart?, hx, examine]
    rw [tree_bind]
    cases h.tree.find (source.join (Address.relative rel)) with
    | error e => exact ⟨_, rfl, rfl⟩
    | ok x =>
      obtain ⟨f, x⟩ := x
      cases x with
      | file bytes => exact ⟨_, rfl, rfl⟩
      | dir => exact ⟨_, rfl, rfl⟩
      | link link => exact ⟨_, rfl, rfl⟩

theorem exists_examineAll {xs : List (Address × Entry)}
    (hfind : h.tree.find source = .ok (a, .dir))
    (hxs : ∀ x ∈ xs, x.1 ≠ [] ∧ h.tree.entry? (x.1 ++ a) = some x.2 ∧
      (x.2 = .dir → (source.join (Address.relative x.1)).refusal? = none)) :
    ∃ h', examineAll source xs h = .ok (xs.filterMap fun x =>
      (h.tree.counterpart? source a x.1).map fun e => itemOf (x.1, e)) h' ∧ h'.tree = h.tree := by
  induction xs generalizing h with
  | nil => exact ⟨h, rfl, rfl⟩
  | cons x xs ih =>
    obtain ⟨hne, hx, hr⟩ := hxs x List.mem_cons_self
    obtain ⟨h₁, hfirst, htree⟩ := exists_examine hfind hne hx hr
    rw [← htree] at hfind
    obtain ⟨h₂, hrest, htree₂⟩ := ih hfind fun y hy => by
      rw [htree]
      exact hxs y (List.mem_cons_of_mem _ hy)
    refine ⟨h₂, ?_, htree₂.trans htree⟩
    rw [examineAll, bind_of_ok hfirst, bind_of_ok hrest, htree, List.filterMap_cons]
    cases h.tree.counterpart? source a x.1 with
    | none => rfl
    | some e => rfl

/-- The entries are listed, whatever links there are, if the system takes the paths of the
directories. -/
theorem exists_snapshot (hfind : h.tree.find source = .ok (a, .dir))
    (htaken : ∀ rel, h.tree.HasDir (rel ++ a) →
      (source.join (Address.relative rel)).refusal? = none) :
    ∃ h', snapshot source h = .ok ((levels h.tree a).filterMap fun x =>
      (h.tree.counterpart? source a x.1).map fun e => itemOf (x.1, e)) h' ∧ h'.tree = h.tree := by
  have hslash := find_join_empty hfind (htaken [] (locate_of_find hfind).2)
  have hlevels : ∀ x ∈ levels h.tree a, x.1 ≠ [] ∧ h.tree.entry? (x.1 ++ a) = some x.2 ∧
      (x.2 = .dir → (source.join (Address.relative x.1)).refusal? = none) := by
    intro x hx
    obtain ⟨hne, hx⟩ := mem_levels.1 hx
    exact ⟨hne, hx, fun hdir => htaken x.1 (hx.trans (congrArg some hdir))⟩
  obtain ⟨h', hlisted, htree⟩ := exists_examineAll hfind hlevels
  refine ⟨h', ?_, htree⟩
  rw [snapshot, bind_of_ok (requireDir_of_find hslash), tree_bind]
  exact hlisted

end Listing

section Loop

/-- When its turn comes, the entry of the source is copied to its place. -/
theorem exists_copyItem (hc : t.FreshCopying source target a b n)
    (hfilled : t.Filled source a (n :: b) done h.tree) (hturn : t.Turn a done rel e) {f : Entry}
    (hcounter : t.counterpart? source a rel = some f) :
    ∃ u, copyItem source target (itemOf (rel, f)) h = .ok () { h with tree := u } ∧
      ∀ d, u.entry? d = if d = rel ++ n :: b then some f else h.tree.entry? d := by
  have hnone := hfilled.entry?_place hturn
  have htaken := hc.below_taken rel e hturn.ne_nil hturn.entry
  have htarget := find_of_locate (hc.locate_target (hfilled.extends hc.missing)
    (by rw [hfilled.place]; simp) .target) hfilled.place
  obtain ⟨m, rel, rfl⟩ := List.exists_cons_of_ne_nil hturn.ne_nil
  have hlocate (ending : Ending) :
      h.tree.locate ending (target.join (Address.relative (m :: rel))) =
        .ok (m :: rel ++ n :: b) :=
    locate_join ending htarget htaken (hfilled.hasDir_place hturn) (by rw [hnone]; simp)
  cases f with
  | dir => exact createDirs_of_locate hlocate hnone
  | file bytes =>
    obtain ⟨f, hfind⟩ := hc.exists_find hturn.ne_nil hcounter
    exact copyFile_of_missing (hfilled.find_source hc.missing hfind) hlocate hnone
  | link link => exact absurd hcounter (counterpart?_ne_link link)

/-- The loop fills the place, entry by entry. -/
theorem exists_copyItems (hc : t.FreshCopying source target a b n)
    (hlevels : levels t a = done ++ rest)
    (hfilled : t.Filled source a (n :: b) done h.tree) :
    ∃ u, copyItems source target (rest.filterMap fun x =>
        (t.counterpart? source a x.1).map fun e => itemOf (x.1, e)) h =
      .ok () { h with tree := u } ∧ t.Filled source a (n :: b) (levels t a) u := by
  induction rest generalizing done h with
  | nil =>
    rw [List.append_nil] at hlevels
    exact ⟨h.tree, rfl, hlevels ▸ hfilled⟩
  | cons x rest ih =>
    have hturn := turn_of_levels hlevels
    have hlevels' : levels t a = done ++ [x] ++ rest := by simp [hlevels]
    cases hcounter : t.counterpart? source a x.1 with
    | none =>
      have hnext : t.Filled source a (n :: b) (done ++ [x]) h.tree := by
        refine hfilled.concat hturn.ne_nil fun d => ?_
        split
        · next hd => rw [hd, hcounter, hfilled.entry?_place hturn]
        · rfl
      obtain ⟨u, hu, hall⟩ := ih hlevels' hnext
      refine ⟨u, ?_, hall⟩
      rw [List.filterMap_cons, hcounter]
      exact hu
    | some f =>
      obtain ⟨u, hu, hentry⟩ := exists_copyItem hc hfilled hturn hcounter
      have hnext : t.Filled source a (n :: b) (done ++ [x]) u :=
        hfilled.concat hturn.ne_nil (hcounter ▸ hentry)
      obtain ⟨v, hv, hall⟩ := ih (h := { h with tree := u }) hlevels' hnext
      refine ⟨v, ?_, hall⟩
      rw [List.filterMap_cons, hcounter]
      simp only [Option.map_some, copyItems]
      rw [bind_of_ok hu]
      exact hv

/-- After all turns the whole copy is in its place. -/
theorem entry?_of_filled {u : Tree} (ha : t.HasDir a) (hfilled : t.Filled source a c (levels t a) u)
    (rel : Address) : u.entry? (rel ++ c) = t.counterpart? source a rel := by
  by_cases hrel : rel = []
  · rw [hrel, List.nil_append, hfilled.place]
    exact (counterpart?_eq_dir_iff.2 ha).symm
  · rw [hfilled.copied rel hrel]
    split
    · rfl
    · next hmem =>
      cases he : t.entry? (rel ++ a) with
      | none => exact (counterpart?_eq_none he).symm
      | some e =>
        have hlisted : (rel, e) ∈ levels t a := mem_levels.2 ⟨hrel, he⟩
        exact absurd (List.mem_map.2 ⟨(rel, e), hlisted, rfl⟩) hmem

end Loop

/-- A directory is copied to a place where nothing is, and which is not inside the
directory, whatever links there are. The copy has a directory for each directory below
the source, a file with the same bytes for each file and for each link that leads to a
file, and no link. Everything outside the copy is as it was. -/
theorem copy_to_fresh_place (hc : h.tree.FreshCopying source target a b n) :
    ∃ h', copy source target h = .ok () h' ∧
      (∀ rel, h'.tree.entry? (rel ++ n :: b) = h.tree.counterpart? source a rel) ∧
      (∀ rel link, h'.tree.entry? (rel ++ n :: b) ≠ some (.link link)) ∧
      ∀ d, ¬ n :: b <:+ d → h'.tree.entry? d = h.tree.entry? d := by
  have htarget (ending : Ending) : h.tree.locate ending target = .ok (n :: b) :=
    hc.locate_target (refl_of Extends h.tree) (by rw [hc.missing]; simp) ending
  have hsame : h.tree.sameEntry source target = false :=
    sameEntry_of_missing (htarget .target) hc.missing
  obtain ⟨h₁, hsnapshot, htree⟩ := exists_snapshot hc.source_dir fun rel hrel =>
    hc.source_taken rel .dir hrel
  have hmissing : h₁.tree.entry? (n :: b) = none := by
    rw [htree]
    exact hc.missing
  obtain ⟨u, hu, hmade⟩ := createDirs_of_locate (by rwa [htree]) hmissing
  rw [htree] at hmade
  obtain ⟨v, hv, hfilled⟩ :=
    exists_copyItems (h := { h₁ with tree := u }) hc (List.nil_append _).symm
      (filled_nil hc.missing hmade)
  have hcopied := entry?_of_filled (locate_of_find hc.source_dir).2 hfilled
  refine ⟨{ h₁ with tree := v }, ?_, hcopied, ?_, hfilled.kept⟩
  · rw [copy, tree_bind, bind_of_ok (liftCall_of_ok hc.source_dir)]
    simp only [hsame, Bool.false_eq_true, if_false]
    rw [bind_of_ok hsnapshot, bind_of_ok hu]
    exact hv
  · intro rel link
    rw [hcopied]
    exact counterpart?_ne_link link

/-- A directory `/s` in which links lead to a file, to a directory above, to
themselves and to where there will be a file after `/s` is copied to `/c`. -/
def ravelled : Host where
  tree := Tree.empty.plantAll [(Path.ofText "/s/f", .file [120]), (Path.ofText "/s/e", .dir),
    (Path.ofText "/s/l", .link (Path.ofText "f")), (Path.ofText "/s/u", .link (Path.ofText "..")),
    (Path.ofText "/s/m", .link (Path.ofText "m")), (Path.ofText "/s/w", .link (Path.ofText "/c/f"))]

theorem isFileName_s : IsFileName "s" := by
  decide

theorem isFileName_c : IsFileName "c" := by
  decide

theorem freshCopying_ravelled :
    ravelled.tree.FreshCopying (Path.ofText "/s") (Path.ofText "/c") [⟨"s", isFileName_s⟩] []
      ⟨"c", isFileName_c⟩ := by
  have hbelow : ∀ x ∈ ravelled.tree.below [⟨"s", isFileName_s⟩],
      ((Path.ofText "/s").join (Address.relative x.1)).refusal? = none ∧
        ((Path.ofText "/c").join (Address.relative x.1)).refusal? = none := by
    decide
  have hroot : ravelled.tree.find Path.root = .ok ([], .dir) := by
    decide
  refine ⟨by decide, by decide, by decide, ⟨Path.root, by decide, hroot⟩, by decide,
    by decide, ?_, by decide, ?_⟩
  · intro rel e he
    by_cases hrel : rel = []
    · rw [hrel]
      decide
    · exact (hbelow (rel, e) (ravelled.tree.mem_below.2 ⟨hrel, he⟩)).1
  · intro rel e hrel he
    exact (hbelow (rel, e) (ravelled.tree.mem_below.2 ⟨hrel, he⟩)).2

theorem copy_to_fresh_place_ravelled :
    ravelled.tree.FreshCopying (Path.ofText "/s") (Path.ofText "/c") [⟨"s", isFileName_s⟩] []
        ⟨"c", isFileName_c⟩ ∧
      ∃ h', copy (Path.ofText "/s") (Path.ofText "/c") ravelled = .ok () h' ∧
        (∀ rel, h'.tree.entry? (rel ++ [⟨"c", isFileName_c⟩]) =
          ravelled.tree.counterpart? (Path.ofText "/s") [⟨"s", isFileName_s⟩] rel) ∧
        (∀ rel link, h'.tree.entry? (rel ++ [⟨"c", isFileName_c⟩]) ≠ some (.link link)) ∧
        ∀ d, ¬ [⟨"c", isFileName_c⟩] <:+ d → h'.tree.entry? d = ravelled.tree.entry? d :=
  ⟨freshCopying_ravelled, copy_to_fresh_place freshCopying_ravelled⟩

end Disk

end TreeShell
