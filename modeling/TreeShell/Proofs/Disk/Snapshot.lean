import TreeShell.Proofs.Disk.Worklist
import TreeShell.Proofs.Path.Absolute
import TreeShell.Proofs.Tree.IdlePieces

/-!
# What is listed before a directory is copied

The list that a copy goes by has each entry below the directory once, and every entry after
the directory it lies in (`Tree.IsSnapshot`). Reading the directories one after another and
sorting by the number of components gives such a list, in whatever order the names come, and
so does `Disk.snapshot`; two such lists differ in order only (`Tree.IsSnapshot.perm`).

The system has to take the path of every directory that is to be read. If it does not, the
listing fails, and no order of reading gets around that.
-/

namespace TreeShell

theorem Address.names_relative (rel : Address) : Path.Names rel.relative.pieces rel := by
  cases rel with
  | nil => exact Path.names_nil_iff.2 (by decide)
  | cons n rel => exact Path.names_map_piece (n :: rel)

/-- Different entries have different relative paths. -/
theorem Address.relative_injective : Function.Injective Address.relative := fun x y h =>
  Path.eq_of_names_of_names x.names_relative (h ▸ y.names_relative)

/-- A relative path has a component for each name. -/
theorem Address.depth_relative (rel : Address) : rel.relative.depth = rel.length := by
  cases rel with
  | nil => decide
  | cons n rel =>
    have hstart : (Address.relative (n :: rel)).start = .bare := by
      obtain ⟨m, rest, hrev⟩ :=
        List.exists_cons_of_ne_nil (List.reverse_ne_nil_iff.2 (List.cons_ne_nil n rel))
      have hdot : m.piece.text ≠ "." := m.valid.2.1
      rw [Path.start, Path.pieces_relative, hrev]
      simp [Path.text_piece_ne m, hdot]
    have hnamed : ((n :: rel).reverse.map FileName.piece).filter (fun piece => !piece.isIdle) =
        (n :: rel).reverse.map FileName.piece := by
      simp [Path.isIdle_piece]
    rw [Path.depth, Path.components, Path.body, hstart]
    simp only
    rw [Path.pieces_relative, hnamed]
    simp

/-- The entries found, those with fewer components first. -/
def Worklist.sorted (w : Worklist) : List Item :=
  w.found.mergeSort fun x y => decide (x.address.relative.depth ≤ y.address.relative.depth)

namespace Tree

/-- The list has what there is to list below the directory at `a`, each entry once and after
the directory it lies in. -/
structure IsSnapshot (t : Tree) (root : Path) (a : Address) (items : List Item) : Prop where
  nodup : (items.map fun item => item.address.relative).Nodup
  mem : ∀ item, item ∈ items ↔ t.IsListed root a item
  parent_first : ∀ before item after, items = before ++ item :: after →
    item.address.tail = [] ∨ ⟨item.address.tail, true⟩ ∈ before

variable {t : Tree} {root : Path} {a rel : Address} {e : Entry} {item : Item}
  {items items' : List Item} {w : Worklist}

/-- In a list by depth an entry has the directory it lies in before it. -/
theorem isSnapshot_of_pairwise (hnodup : (items.map Item.address).Nodup)
    (hmem : ∀ item, item ∈ items ↔ t.IsListed root a item)
    (hsorted : items.Pairwise fun x y => x.address.length ≤ y.address.length) :
    t.IsSnapshot root a items where
  nodup := by
    have hmap := hnodup.map Address.relative_injective
    rwa [List.map_map] at hmap
  mem := hmem
  parent_first before item after hsplit := by
    rw [or_iff_not_imp_left]
    intro habove
    obtain ⟨hne, e, he, -⟩ := (hmem item).1 (by rw [hsplit]; simp)
    have hdir : t.HasDir (item.address.tail ++ a) := by
      obtain ⟨n, rel, haddress⟩ := List.exists_cons_of_ne_nil hne
      rw [haddress] at he ⊢
      exact t.hasDir_of_entry? he
    have hlength : item.address.tail.length < item.address.length := by
      rw [List.length_tail]
      exact Nat.sub_lt (List.length_pos_of_ne_nil hne) Nat.one_pos
    have hparent := (hmem _).2 (isListed_dir_iff.2 ⟨habove, hdir⟩)
    rw [hsplit, List.mem_append, List.mem_cons] at hparent
    rw [hsplit, List.pairwise_append, List.pairwise_cons] at hsorted
    rcases hparent with hbefore | hself | hafter
    · exact hbefore
    · exact absurd (congrArg (fun x => x.address.length) hself) (Nat.ne_of_lt hlength)
    · exact absurd (hsorted.2.1.1 _ hafter) (Nat.not_le.2 hlength)

/-- There is one such list, up to the order. -/
theorem IsSnapshot.perm (h : t.IsSnapshot root a items) (h' : t.IsSnapshot root a items') :
    items.Perm items' :=
  (List.perm_ext_iff_of_nodup (List.Nodup.of_map _ h.nodup) (List.Nodup.of_map _ h'.nodup)).2
    fun item => (h.mem item).trans (h'.mem item).symm

/-- When nothing is left to read, what was found is all there is. -/
theorem FoundUpTo.isSnapshot_sorted (h : t.FoundUpTo root a w) (hdone : w.pending = []) :
    t.IsSnapshot root a w.sorted := by
  have hperm : w.sorted.Perm w.found := List.mergeSort_perm _ _
  refine isSnapshot_of_pairwise ((hperm.map Item.address).nodup_iff.2 h.nodup) ?_ ?_
  · intro item
    rw [hperm.mem_iff, h.found, hdone]
    simp [Passed]
  · refine (pairwise_mergeSort_of_measure _ w.found).imp fun hle => ?_
    rwa [Address.depth_relative, Address.depth_relative] at hle

/-- What is listed of an entry goes by what the copy makes of it. -/
theorem map_counterpart? (he : t.entry? (rel ++ a) = some e) :
    (t.counterpart? root a rel).map (fun f => Disk.itemOf (rel, f)) = t.listed? root rel e := by
  cases e with
  | dir => simp [counterpart?, he, listed?, Entry.kind]
  | file bytes => simp [counterpart?, he, listed?, Entry.kind]
  | link link =>
    rw [counterpart?, he]
    simp only
    split
    · next b bytes hfind => simp [listed?, isFile, hfind, Disk.itemOf]
    · next hother =>
      have hfile : t.isFile (root.join rel.relative) = false := by
        rw [← Bool.not_eq_true, isFile_iff_find]
        rintro ⟨b, bytes, hfind⟩
        exact hother b bytes hfind
      simp [listed?, hfile, Entry.kind]

/-- Going by the entries level by level gives such a list. -/
theorem isSnapshot_levels (t : Tree) (root : Path) (a : Address) :
    t.IsSnapshot root a ((Disk.levels t a).filterMap fun x =>
      (t.counterpart? root a x.1).map fun f => Disk.itemOf (x.1, f)) := by
  have hlisted {x : Address × Entry} (hx : x ∈ Disk.levels t a) :
      (t.counterpart? root a x.1).map (fun f => Disk.itemOf (x.1, f)) = t.listed? root x.1 x.2 :=
    map_counterpart? (mem_levels.1 hx).2
  have haddress {x : Address × Entry} {item : Item}
      (hitem : item ∈ (t.counterpart? root a x.1).map fun f => Disk.itemOf (x.1, f)) :
      item.address = x.1 := by
    obtain ⟨f, -, rfl⟩ := Option.map_eq_some_iff.1 hitem
    rfl
  refine isSnapshot_of_pairwise ?_ (fun item => ?_) ?_
  · rw [List.Nodup, List.pairwise_map, List.pairwise_filterMap]
    refine (List.pairwise_map.1 (nodup_levels t a)).imp fun hne y hy z hz => ?_
    rwa [haddress hy, haddress hz]
  · rw [List.mem_filterMap]
    constructor
    · rintro ⟨x, hx, hitem⟩
      obtain ⟨hne, he⟩ := mem_levels.1 hx
      rw [hlisted hx] at hitem
      obtain ⟨haddress, hkept⟩ := listed?_eq_some_iff.1 hitem
      rw [← haddress] at hne he
      exact ⟨hne, x.2, he, hkept⟩
    · rintro ⟨hne, e, he, hkept⟩
      have hx : (item.address, e) ∈ Disk.levels t a := mem_levels.2 ⟨hne, he⟩
      exact ⟨_, hx, (hlisted hx).trans (listed?_eq_some_iff.2 ⟨rfl, hkept⟩)⟩
  · rw [List.pairwise_filterMap]
    refine (pairwise_levels t a).imp fun hle y hy z hz => ?_
    rwa [haddress hy, haddress hz]

end Tree

namespace Disk

open TreeShell.Tree

variable {h : Host} {root : Path} {a : Address}

section Refused

theorem requireDir_of_refusal {p : Path} {e : IoError} (hr : p.refusal? = some e) :
    requireDir p h = .error (.ofIo p e) h := by
  rw [requireDir, tree_bind, bind_of_error (liftCall_of_error (find_of_refusal hr))]

theorem examine_of_refusal {x : Address × Entry} {e : IoError} (hdir : x.2 = .dir)
    (hr : (root.join (Address.relative x.1)).refusal? = some e) :
    examine root x h = .error (.ofIo (root.join (Address.relative x.1)) e) h := by
  rw [examine, hdir]
  exact bind_of_error (requireDir_of_refusal hr)

/-- The error of the first directory, if the system does not take its path. -/
theorem examineAll_of_refused {xs : List (Address × Entry)}
    (hfind : h.tree.find root = .ok (a, .dir))
    (hxs : ∀ x ∈ xs, x.1 ≠ [] ∧ h.tree.entry? (x.1 ++ a) = some x.2)
    (hrefused : ∃ x ∈ xs, x.2 = .dir ∧ (root.join (Address.relative x.1)).refusal? ≠ none) :
    ∃ x ∈ xs, x.2 = .dir ∧ ∃ e h', (root.join (Address.relative x.1)).refusal? = some e ∧
      examineAll root xs h = .error (.ofIo (root.join (Address.relative x.1)) e) h' := by
  induction xs generalizing h with
  | nil =>
    obtain ⟨x, hx, -⟩ := hrefused
    cases hx
  | cons x xs ih =>
    obtain ⟨hne, hx⟩ := hxs x List.mem_cons_self
    by_cases hr : x.2 = .dir ∧ (root.join (Address.relative x.1)).refusal? ≠ none
    · obtain ⟨e, he⟩ := Option.ne_none_iff_exists'.1 hr.2
      refine ⟨x, List.mem_cons_self, hr.1, e, h, he, ?_⟩
      rw [examineAll, bind_of_error (examine_of_refusal hr.1 he)]
    · have htaken : x.2 = .dir → (root.join (Address.relative x.1)).refusal? = none := by
        intro hdir
        by_contra hne
        exact hr ⟨hdir, hne⟩
      obtain ⟨h₁, hfirst, htree⟩ := exists_examine hfind hne hx htaken
      obtain ⟨y, hy, hdir, e, h', he, herror⟩ := ih (h := h₁) (by rwa [htree])
        (fun y hy => by rw [htree]; exact hxs y (List.mem_cons_of_mem _ hy)) (by
          obtain ⟨y, hy, hbad⟩ := hrefused
          rcases List.mem_cons.1 hy with rfl | hy
          · exact absurd hbad hr
          · exact ⟨y, hy, hbad⟩)
      refine ⟨y, List.mem_cons_of_mem _ hy, hdir, e, h', he, ?_⟩
      rw [examineAll, bind_of_ok hfirst, bind_of_error herror]

theorem snapshot_of_refused (hfind : h.tree.find root = .ok (a, .dir))
    (hrefused : ∃ rel, h.tree.HasDir (rel ++ a) ∧
      (root.join (Address.relative rel)).refusal? ≠ none) :
    ∃ rel e h', h.tree.HasDir (rel ++ a) ∧
      (root.join (Address.relative rel)).refusal? = some e ∧
      snapshot root h = .error (.ofIo (root.join (Address.relative rel)) e) h' := by
  cases hslash : (root.join Path.empty).refusal? with
  | some e =>
    refine ⟨[], e, h, (locate_of_find hfind).2, hslash, ?_⟩
    exact bind_of_error (requireDir_of_refusal hslash)
  | none =>
    obtain ⟨rel, hdir, hrel⟩ := hrefused
    have hne : rel ≠ [] := by
      rintro rfl
      exact hrel hslash
    have hlevel : (rel, Entry.dir) ∈ levels h.tree a := mem_levels.2 ⟨hne, hdir⟩
    obtain ⟨⟨d, f⟩, hmem, rfl, e, h', he, herror⟩ := examineAll_of_refused hfind
      (fun _ => mem_levels.1) ⟨_, hlevel, rfl, hrel⟩
    refine ⟨d, e, h', (mem_levels.1 hmem).2, he, ?_⟩
    rw [snapshot, bind_of_ok (requireDir_of_find (find_join_empty hfind hslash)), tree_bind]
    exact herror

end Refused

/-- Reading one directory after another ends, whatever links there are: there are no more
rounds than directories. If the system takes the path of every directory, the rounds go on
until nothing is pending. What was found by then, sorted, is each entry that there is to list,
once and after the directory it lies in, and up to the order it is the list that the copy goes
by. If the system does not take the path of some directory, the listing fails with the error
of such a path, and the rounds never get through. -/
theorem lists_each_entry_once (hfind : h.tree.find root = .ok (a, .dir)) :
    (∀ n w, h.tree.Reaches root n w →
        n + w.pending.length ≤ (h.tree.dirsBelow a).length + 1) ∧
      ((∀ rel, h.tree.HasDir (rel ++ a) → (root.join rel.relative).refusal? = none) →
        (∀ n w, h.tree.Reaches root n w → w.pending ≠ [] → ∃ w', h.tree.Round root w w') ∧
          ∃ items h', snapshot root h = .ok items h' ∧ h'.tree = h.tree ∧
            h.tree.IsSnapshot root a items ∧
            ∀ n w, h.tree.Reaches root n w → w.pending = [] →
              h.tree.IsSnapshot root a w.sorted ∧ w.sorted.Perm items) ∧
      ((∃ rel, h.tree.HasDir (rel ++ a) ∧ (root.join rel.relative).refusal? ≠ none) →
        (∃ rel e h', h.tree.HasDir (rel ++ a) ∧ (root.join rel.relative).refusal? = some e ∧
          snapshot root h = .error (.ofIo (root.join rel.relative) e) h') ∧
          ∀ n w, h.tree.Reaches root n w → w.pending ≠ []) := by
  refine ⟨fun n w hreaches => hreaches.length_le hfind, fun htaken => ⟨?_, ?_⟩,
    fun hrefused => ⟨snapshot_of_refused hfind hrefused, ?_⟩⟩
  · rintro n ⟨found, _ | ⟨rel, rest⟩⟩ hreaches hne
    · exact absurd rfl hne
    · have hfound := foundUpTo_of_reaches hfind hreaches
      exact exists_round hfind hfound (htaken rel (hfound.pending rel List.mem_cons_self))
  · obtain ⟨h', hsnapshot, htree⟩ := exists_snapshot hfind htaken
    have hitems := isSnapshot_levels h.tree root a
    refine ⟨_, h', hsnapshot, htree, hitems, fun n w hreaches hdone => ?_⟩
    have hsorted := (foundUpTo_of_reaches hfind hreaches).isSnapshot_sorted hdone
    exact ⟨hsorted, hsorted.perm hitems⟩
  · rintro n w hreaches hdone
    obtain ⟨rel, hdir, hrel⟩ := hrefused
    refine hrel ((foundUpTo_of_reaches hfind hreaches).taken rel hdir ?_ ?_)
    · simp [hdone]
    · simp [hdone, Passed]

theorem isFileName_e : IsFileName "e" := by
  decide

theorem isFileName_u : IsFileName "u" := by
  decide

def nameS : FileName :=
  ⟨"s", isFileName_s⟩

/-- The name of a link in `/s` to the directory above. -/
def nameU : FileName :=
  ⟨"u", isFileName_u⟩

theorem lists_each_entry_once_ravelled :
    ravelled.tree.find (Path.ofText "/s") = .ok ([nameS], .dir) ∧
      (∀ n w, ravelled.tree.Reaches (Path.ofText "/s") n w → n + w.pending.length ≤ 2) ∧
      ∃ items h', snapshot (Path.ofText "/s") ravelled = .ok items h' ∧
        ravelled.tree.IsSnapshot (Path.ofText "/s") [nameS] items ∧
        ⟨[nameL], false⟩ ∈ items ∧
        ∀ isDir, ⟨[nameU], isDir⟩ ∉ items := by
  have hfind : ravelled.tree.find (Path.ofText "/s") = .ok ([nameS], .dir) :=
    freshCopying_ravelled.source_dir
  have hdirs : (ravelled.tree.dirsBelow [nameS]).length = 1 := by decide
  obtain ⟨hends, hlists, -⟩ := lists_each_entry_once hfind
  obtain ⟨-, items, h', hsnapshot, -, hitems, -⟩ :=
    hlists fun rel hrel => freshCopying_ravelled.source_taken rel .dir hrel
  refine ⟨hfind, fun n w hreaches => ?_, items, h', hsnapshot, hitems, ?_, ?_⟩
  · have hle := hends n w hreaches
    rwa [hdirs] at hle
  · exact (hitems.mem _).2
      ⟨by simp, .link (Path.ofText "f"), by decide, by simp, fun _ => by decide⟩
  · intro isDir hmem
    obtain ⟨-, e, he, -, hfile⟩ := (hitems.mem _).1 hmem
    have hlink : ravelled.tree.entry? ([nameU] ++ [nameS]) =
        some (.link (Path.ofText "..")) := by
      decide
    have hdir : ravelled.tree.isFile
        ((Path.ofText "/s").join (Address.relative [nameU])) = false := by
      decide
    obtain rfl := Option.some.inj (he.symm.trans hlink)
    exact Bool.false_ne_true (hdir.symm.trans (hfile rfl))

section Limits

/-- The piece that goes up. -/
def dots : Piece :=
  ⟨"..", by simp⟩

/-- One way and back again, `k` times. -/
def turns (away back : Piece) (k : Nat) : List Piece :=
  (List.replicate k [away, back]).flatten

theorem turns_succ (away back : Piece) (k : Nat) :
    turns away back (k + 1) = away :: back :: turns away back k := by
  rw [turns, List.replicate_succ, List.flatten_cons]
  rfl

/-- The way to `/s` with `k` turns at its end, each up through the link `u`. -/
def winding (k : Nat) : Path :=
  ⟨Piece.empty :: nameS.piece :: turns nameU.piece nameS.piece k, by simp⟩

theorem refusal?_winding : (winding 40).refusal? = none :=
  Path.refusal?_of_slashedSize (by decide) (by decide) (by decide)

/-- Each turn takes one of the links that a path may pass. -/
theorem follow_turns (k links : Nat) (qs : List Piece) :
    ravelled.tree.follow .target (k + links) [nameS] (turns nameU.piece nameS.piece k ++ qs) =
      ravelled.tree.follow .target links [nameS] qs := by
  have hsuits (p : Piece) (ps : List Piece) : ¬ Ending.target.Refuses p ps :=
    (Ending.suits_of_not_refusesSlash rfl (p :: ps)).not_refuses
  have hs : ravelled.tree.HasDir [nameS] := by decide
  have hu : ravelled.tree.entry? [nameU, nameS] = some (.link (Path.ofText "..")) := by decide
  have hup : Path.ofText ".." = ⟨[dots], by simp⟩ := by decide
  induction k with
  | zero => simp [turns]
  | succ k ih =>
    have hjump : ravelled.tree.follow .target (k + 1 + links) [nameS]
        (nameU.piece :: nameS.piece :: (turns nameU.piece nameS.piece k ++ qs)) =
        ravelled.tree.follow .target (k + links) [nameS]
          (dots :: nameS.piece :: (turns nameU.piece nameS.piece k ++ qs)) := by
      rw [Nat.add_right_comm, follow,
        walk_cons_of_link (hsuits _ _) hs (Step.ofPiece_piece nameU) hu (fun _ => rfl), hup]
      rfl
    obtain ⟨jump, hj⟩ := ravelled.tree.exists_follow_eq_walk .target (k + links)
    rw [turns_succ, List.cons_append, List.cons_append, hjump, ← ih, hj,
      walk_cons_of_passes (hsuits _ _) hs rfl ravelled.tree.entry?_nil (by decide),
      walk_cons_of_passes (hsuits _ _) ravelled.tree.hasDir_nil
        (by rw [Step.ofPiece_piece]; rfl) hs (by decide)]

/-- All links that a path may pass are needed for the turns. -/
theorem follow_winding (qs : List Piece) :
    ravelled.tree.follow .target maxLinks [] ((winding 40).pieces ++ qs) =
      ravelled.tree.follow .target 0 [nameS] qs := by
  have hsuits : ¬ Ending.target.Refuses nameS.piece (turns nameU.piece nameS.piece 40 ++ qs) :=
    (Ending.suits_of_not_refusesSlash rfl (_ :: _)).not_refuses
  obtain ⟨jump, hj⟩ := ravelled.tree.exists_follow_eq_walk .target (40 + 0)
  rw [← follow_turns 40 0 qs, maxLinks, hj, winding, List.cons_append, List.cons_append,
    walk_cons_idle _ _ _ ravelled.tree.hasDir_nil rfl,
    walk_cons_of_passes hsuits ravelled.tree.hasDir_nil (by rw [Step.ofPiece_piece]; rfl)
      (e := .dir) (by decide) (by decide)]

theorem find_winding : ravelled.tree.find (winding 40) = .ok ([nameS], .dir) := by
  refine find_eq_dir_iff_follow.2 ⟨refusal?_winding, ?_, by decide⟩
  have hfollow := follow_winding []
  rwa [List.append_nil] at hfollow

/-- The paths of the directory and of the one in it are short enough. -/
theorem taken_winding {rel : Address} (hrel : ravelled.tree.HasDir (rel ++ [nameS])) :
    ((winding 40).join (Address.relative rel)).refusal? = none := by
  have hdirs : ravelled.tree.dirsBelow [nameS] = [[⟨"e", isFileName_e⟩]] := by decide
  by_cases hne : rel = []
  · rw [hne]
    exact Path.refusal?_of_slashedSize (by decide) (by decide) (by decide)
  · have hmem := mem_dirsBelow.2 ⟨hne, hrel⟩
    rw [hdirs, List.mem_singleton] at hmem
    rw [hmem]
    exact Path.refusal?_of_slashedSize (by decide) (by decide) (by decide)

theorem stem_winding : (winding 40).stem = (winding 40).pieces := by
  decide

/-- No link is left for the one in the directory. -/
theorem follow_nameL :
    ravelled.tree.follow .target 0 [nameS] [nameL.piece] = .error .linkLoop := by
  decide

/-- The directory `/s/f`, with a directory with a long name in it. -/
def deepened : Host where
  tree := ((Tree.empty.insert nameS [] .dir).insert nameF [nameS] .dir).insert nameLong
    [nameF, nameS] .dir

set_option maxRecDepth 2000 in
theorem hasDir_nameLong : deepened.tree.HasDir ([nameLong] ++ [nameF, nameS]) := by
  decide

/-- The way to `/s/f` with `k` turns before its end, each in and out again. -/
def detour (k : Nat) : Path :=
  ⟨(Piece.empty :: nameS.piece :: turns nameF.piece dots k) ++ [nameF.piece], by simp⟩

theorem slashedSize_detour (k : Nat) : Path.slashedSize (detour k).pieces = 5 * k + 5 := by
  have hempty : Piece.empty.text.utf8ByteSize = 0 := by decide
  have hs : nameS.piece.text.utf8ByteSize = 1 := by decide
  have hf : nameF.piece.text.utf8ByteSize = 1 := by decide
  have hdots : dots.text.utf8ByteSize = 2 := by decide
  have hturns : Path.slashedSize (turns nameF.piece dots k) = 5 * k := by
    induction k with
    | zero => rfl
    | succ k ih =>
      rw [turns_succ, Path.slashedSize_cons, Path.slashedSize_cons, ih, hf, hdots]
      omega
  rw [detour, Path.slashedSize_append, Path.slashedSize_cons, Path.slashedSize_cons, hturns,
    Path.slashedSize_cons, Path.slashedSize, hempty, hs, hf]
  omega

theorem refusal?_detour {k : Nat} (hk : k ≤ 800) : (detour k).refusal? = none := by
  refine Path.refusal?_of_slashedSize ?_ ?_ ?_
  · intro piece hpiece
    have hcases : piece ∈ [Piece.empty, nameS.piece, nameF.piece, dots] := by
      simp only [detour, turns, List.mem_append, List.mem_cons, List.mem_flatten,
        List.mem_replicate, List.not_mem_nil, or_false] at hpiece ⊢
      grind
    have hnul : ∀ s ∈ [Piece.empty, nameS.piece, nameF.piece, dots], '\x00' ∉ s.text.toList := by
      decide
    exact hnul piece hcases
  · rw [slashedSize_detour, Path.maxBytes]
    omega
  · intro hempty
    have hlength := congrArg (fun p => p.pieces.length) hempty
    simp [detour, Path.empty] at hlength

/-- Turning in and out of a directory leads back to where the turns began. -/
theorem trail_turns {t : Tree} {n : FileName} {a b : Address} {qs : List Piece}
    (hdir : t.HasDir (n :: a)) (k : Nat) :
    t.Trail a (turns n.piece dots k ++ qs) b ↔ t.Trail a qs b := by
  have ha : t.HasDir a := t.hasDir_of_entry? hdir
  induction k with
  | zero => simp [turns]
  | succ k ih =>
    have hup : Step.ofPiece dots = .up := by decide
    refine Iff.trans ?_ ih
    rw [turns_succ, List.cons_append, List.cons_append]
    simp only [trail_cons, Step.ofPiece_piece, hup, Step.from?, ha, hdir, true_and,
      Option.some.injEq, exists_eq_left', List.tail_cons]

theorem find_detour {k : Nat} (hk : k ≤ 800) :
    deepened.tree.find (detour k) = .ok ([nameF, nameS], .dir) := by
  have hf := deepened.tree.hasDir_of_entry? hasDir_nameLong
  refine find_of_trail (refusal?_detour hk) ?_
  have hpieces : (detour k).pieces = Piece.empty :: nameS.piece ::
    (turns nameF.piece dots k ++ [nameF.piece]) := rfl
  rw [hpieces, trail_cons_idle rfl, trail_cons, Step.ofPiece_piece]
  refine ⟨deepened.tree.hasDir_nil, _, rfl, (trail_turns hf k).2 ?_⟩
  rw [trail_cons, Step.ofPiece_piece]
  exact ⟨deepened.tree.hasDir_of_entry? hf, _, rfl, hf, rfl⟩

theorem refusal?_join_detour :
    ((detour 768).join (Address.relative [nameLong])).refusal? ≠ none := by
  intro hr
  obtain ⟨-, hsize, -⟩ := (Path.refusal?_eq_none_iff _).1 hr
  have hname : nameLong.piece.text.utf8ByteSize = 255 := utf8ByteSize_replicate 255
  have hstem : (detour 768).stem = (detour 768).pieces :=
    Path.stem_concat (Path.isIdle_piece nameF) rfl
  have htext := Path.utf8ByteSize_text ((detour 768).join (Address.relative [nameLong]))
  rw [Path.pieces_join _ (Path.isAbsolute_relative _), hstem, Path.slashedSize_append,
    slashedSize_detour, Path.pieces_relative, List.reverse_singleton, List.map_singleton,
    Path.slashedSize_cons, hname, Path.slashedSize] at htext
  rw [Path.maxBytes] at hsize
  omega

/-- Behind a path with as many links as a path may have, a link in the directory leads nowhere,
though by a shorter path it leads to a file, and is not listed. Behind a path that is almost
as long as a path may be, a directory cannot be read, and nothing is listed. -/
theorem not_listed_at_limits :
    (ravelled.tree.find (winding 40) = .ok ([nameS], .dir) ∧
      ravelled.tree.entry? [nameL, nameS] = some (.link (Path.ofText "f")) ∧
      ravelled.tree.isFile (Path.ofText "/s/l") = true ∧
      ∃ items h', snapshot (winding 40) ravelled = .ok items h' ∧ ⟨[nameL], false⟩ ∉ items) ∧
    deepened.tree.find (detour 768) = .ok ([nameF, nameS], .dir) ∧
      ∃ e h', snapshot (detour 768) deepened = .error e h' := by
  refine ⟨⟨find_winding, by decide, by decide, ?_⟩, find_detour (by decide), ?_⟩
  · obtain ⟨h', hsnapshot, -⟩ := exists_snapshot find_winding fun _ => taken_winding
    refine ⟨_, h', hsnapshot, fun hmem => ?_⟩
    obtain ⟨-, e, he, -, hfile⟩ := ((isSnapshot_levels _ _ _).mem _).1 hmem
    have hlink : ravelled.tree.entry? ([nameL] ++ [nameS]) = some (.link (Path.ofText "f")) := by
      decide
    obtain rfl := Option.some.inj (he.symm.trans hlink)
    obtain ⟨b, bytes, hfind⟩ := isFile_iff_find.1 (hfile rfl)
    have hfollow := follow_of_find hfind
    rw [Path.pieces_join _ (Path.isAbsolute_relative _), stem_winding, follow_winding,
      Path.pieces_relative, List.reverse_singleton, List.map_singleton, follow_nameL] at hfollow
    cases hfollow
  · obtain ⟨rel, e, h', -, -, herror⟩ := snapshot_of_refused (find_detour (by decide))
      ⟨[nameLong], hasDir_nameLong, refusal?_join_detour⟩
    exact ⟨_, h', herror⟩

end Limits

end Disk

end TreeShell
