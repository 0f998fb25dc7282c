import TreeShell.Proofs.Disk.FreshCopy
import TreeShell.Proofs.Disk.Listing

/-!
# Reading the directories one after another

What is below a directory is found with a list of the directories still to be read. In a
round the first of them is read, in whatever order its names come, and the directories
among its entries go to the front of the list (`Tree.Round`). A link is never gone through,
so the list only ever has directories that lie apart from each other.

After any number of rounds exactly those entries are found that do not lie below a
directory on the list (`Tree.FoundUpTo`). Each round reads one directory and no directory
is read twice, so the rounds come to an end (`Tree.Reaches.length_le`).
-/

namespace TreeShell

/-- The entries found so far, and the directories still to be read, the next one first. -/
structure Worklist where
  found : List Item
  pending : List Address

/-- The addresses of the directories among the items. -/
def dirsOf (items : List Item) : List Address :=
  (items.filter Item.isDir).map Item.address

namespace Tree

/-- What is listed of an entry at `rel` below the directory that `root` leads to: nothing
of a link that does not lead to a file. -/
def listed? (t : Tree) (root : Path) (rel : Address) (e : Entry) : Option Item :=
  if e.kind = .link ∧ t.isFile (root.join rel.relative) = false then none
  else some (Disk.itemOf (rel, e))

/-- What is listed of the named entries of the directory at `b`, which has the address
`rel` from the directory that `root` leads to. -/
def listedIn (t : Tree) (root : Path) (b rel : Address) (names : List FileName) : List Item :=
  names.filterMap fun n => (t.entry? (n :: b)).bind (t.listed? root (n :: rel))

/-- One round: the first directory is read. -/
inductive Round (t : Tree) (root : Path) : Worklist → Worklist → Prop
  | read {found : List Item} {pending : List Address} {b rel : Address} {names : List FileName}
    (hread : t.find (root.join rel.relative) = .ok (b, .dir))
    (hnames : names.Perm (t.children b)) :
    Round t root ⟨found, rel :: pending⟩
      ⟨found ++ t.listedIn root b rel names,
        (dirsOf (t.listedIn root b rel names)).reverse ++ pending⟩

/-- Where the list can stand after some rounds, when it starts with the directory itself. -/
inductive Reaches (t : Tree) (root : Path) : Nat → Worklist → Prop
  | start : Reaches t root 0 ⟨[], [[]]⟩
  | next {n : Nat} {w w' : Worklist} (h : Reaches t root n w) (hround : t.Round root w w') :
    Reaches t root (n + 1) w'

/-- The items that there are to list below the directory at `a`, which `root` leads to: an
entry at any depth, with no link above it, and if it is a link, one that leads to a file by
its path from `root`. -/
structure IsListed (t : Tree) (root : Path) (a : Address) (item : Item) : Prop where
  ne_nil : item.address ≠ []
  entry : ∃ e, t.entry? (item.address ++ a) = some e ∧ (item.isDir = true ↔ e = .dir) ∧
    (e.kind = .link → t.isFile (root.join item.address.relative) = true)

/-- No directory on the list lies above `x`. -/
def Passed (pending : List Address) (x : Address) : Prop :=
  ∀ d ∈ pending, ¬ isBelow d x = true

/-- No directory on the list is another one of them or lies below it. -/
def Apart (pending : List Address) : Prop :=
  pending.Pairwise fun x y => ¬ x <:+ y ∧ ¬ y <:+ x

/-- Found is what there is to list, except for what lies below a pending directory. The
pending directories lie apart from each other, and the system takes the path of each other
directory that does not lie below one of them. -/
structure FoundUpTo (t : Tree) (root : Path) (a : Address) (w : Worklist) : Prop where
  found : ∀ item, item ∈ w.found ↔ t.IsListed root a item ∧ Passed w.pending item.address
  nodup : (w.found.map Item.address).Nodup
  pending : ∀ rel ∈ w.pending, t.HasDir (rel ++ a)
  apart : Apart w.pending
  taken : ∀ rel, t.HasDir (rel ++ a) → rel ∉ w.pending → Passed w.pending rel →
    (root.join rel.relative).refusal? = none

variable {t : Tree} {root : Path} {a b rel : Address} {e : Entry} {item : Item}
  {names : List FileName} {w w' : Worklist} {n : Nat}

theorem listed?_eq_some_iff : t.listed? root rel e = some item ↔
    item.address = rel ∧ (item.isDir = true ↔ e = .dir) ∧
      (e.kind = .link → t.isFile (root.join item.address.relative) = true) := by
  obtain ⟨address, isDir⟩ := item
  rw [listed?]
  split
  · next h =>
    simp only [reduceCtorEq, false_iff, not_and]
    rintro rfl - hfile
    rw [hfile h.1] at h
    cases h.2
  · next h =>
    rw [not_and] at h
    simp only [Disk.itemOf, Option.some.injEq, Item.mk.injEq]
    constructor
    · rintro ⟨rfl, rfl⟩
      exact ⟨rfl, by simp, fun hlink => by simpa using h hlink⟩
    · rintro ⟨rfl, hdir, -⟩
      refine ⟨rfl, ?_⟩
      rw [Bool.eq_iff_iff, decide_eq_true_iff]
      exact hdir.symm

/-- The items of a directory are those of its entries that are to be listed. -/
theorem mem_listedIn (hnames : names.Perm (t.children (rel ++ a))) :
    item ∈ t.listedIn root (rel ++ a) rel names ↔
      t.IsListed root a item ∧ ∃ n, item.address = n :: rel := by
  rw [listedIn, List.mem_filterMap]
  constructor
  · rintro ⟨n, -, hitem⟩
    obtain ⟨e, he, hlisted⟩ := Option.bind_eq_some_iff.1 hitem
    obtain ⟨haddress, hkept⟩ := listed?_eq_some_iff.1 hlisted
    rw [← List.cons_append, ← haddress] at he
    exact ⟨⟨by simp [haddress], e, he, hkept⟩, n, haddress⟩
  · rintro ⟨⟨-, e, he, hkept⟩, n, haddress⟩
    rw [haddress, List.cons_append] at he
    refine ⟨n, hnames.mem_iff.2 (t.mem_children.2 ⟨e, he⟩), ?_⟩
    rw [he, Option.bind_some]
    exact listed?_eq_some_iff.2 ⟨haddress, hkept⟩

theorem nodup_listedIn (hnames : names.Perm (t.children b)) :
    ((t.listedIn root b rel names).map Item.address).Nodup := by
  rw [listedIn, List.map_filterMap, List.Nodup, List.pairwise_filterMap]
  have haddress {n : FileName} {x : Address}
      (hx : ((t.entry? (n :: b)).bind (t.listed? root (n :: rel))).map Item.address = some x) :
      x = n :: rel := by
    obtain ⟨item, hitem, rfl⟩ := Option.map_eq_some_iff.1 hx
    obtain ⟨e, -, hlisted⟩ := Option.bind_eq_some_iff.1 hitem
    exact (listed?_eq_some_iff.1 hlisted).1
  refine (hnames.nodup_iff.2 (t.nodup_children b)).imp ?_
  rintro n m hne x hx y hy rfl
  exact hne (List.cons.inj ((haddress hx).symm.trans (haddress hy))).1

theorem mem_dirsOf {items : List Item} : rel ∈ dirsOf items ↔ ⟨rel, true⟩ ∈ items := by
  simp only [dirsOf, List.mem_map, List.mem_filter]
  constructor
  · rintro ⟨⟨address, isDir⟩, ⟨hmem, rfl⟩, rfl⟩
    exact hmem
  · intro hmem
    exact ⟨_, ⟨hmem, rfl⟩, rfl⟩

theorem isListed_dir_iff : t.IsListed root a ⟨rel, true⟩ ↔ rel ≠ [] ∧ t.HasDir (rel ++ a) := by
  constructor
  · rintro ⟨hne, e, he, hdir, -⟩
    rw [hdir.1 rfl] at he
    exact ⟨hne, he⟩
  · rintro ⟨hne, hdir⟩
    exact ⟨hne, .dir, hdir, by simp, by simp [Entry.kind]⟩

/-- The directories of a directory, whatever is listed with them. -/
theorem mem_dirsOf_listedIn {d : Address} (hnames : names.Perm (t.children (rel ++ a))) :
    d ∈ dirsOf (t.listedIn root (rel ++ a) rel names) ↔
      t.HasDir (d ++ a) ∧ ∃ n, d = n :: rel := by
  rw [mem_dirsOf, mem_listedIn hnames, isListed_dir_iff]
  constructor
  · rintro ⟨⟨-, hd⟩, hn⟩
    exact ⟨hd, hn⟩
  · rintro ⟨hd, n, rfl⟩
    exact ⟨⟨List.cons_ne_nil n rel, hd⟩, n, rfl⟩

section Round

variable {rest children : List Address}

/-- The directories in a directory take its place among those that lie apart. -/
theorem Apart.replace (h : Apart (rel :: rest)) (hnodup : children.Nodup)
    (hchildren : ∀ d ∈ children, ∃ n, d = n :: rel) : Apart (children ++ rest) := by
  obtain ⟨hrel, hrest⟩ := List.pairwise_cons.1 h
  refine List.pairwise_append.2 ⟨hnodup.imp_of_mem ?_, hrest, ?_⟩
  · intro x y hx hy hne
    obtain ⟨n, rfl⟩ := hchildren x hx
    obtain ⟨m, rfl⟩ := hchildren y hy
    exact ⟨fun hxy => hne (hxy.eq_of_length (by simp)),
      fun hyx => hne (hyx.eq_of_length (by simp)).symm⟩
  · intro x hx y hy
    obtain ⟨n, rfl⟩ := hchildren x hx
    refine ⟨fun hxy => (hrel y hy).1 ((List.suffix_cons n rel).trans hxy), fun hyx => ?_⟩
    rcases List.suffix_cons_iff.1 hyx with rfl | hyx
    · exact (hrel _ hy).1 (List.suffix_cons n rel)
    · exact (hrel y hy).2 hyx

/-- When a directory is read, its entries are all that comes out from below the list. -/
theorem passed_replace_iff (h : Apart (rel :: rest))
    (hchildren : ∀ d, d ∈ children ↔ t.HasDir (d ++ a) ∧ ∃ n, d = n :: rel) {x : Address}
    (hx : t.entry? (x ++ a) = some e) :
    Passed (children ++ rest) x ↔ Passed (rel :: rest) x ∨ ∃ n, x = n :: rel := by
  have hrel := (List.pairwise_cons.1 h).1
  simp only [Passed, List.forall_mem_append, List.forall_mem_cons]
  constructor
  · rintro ⟨hpassed, hrest⟩
    rw [or_iff_not_imp_right]
    intro hne
    refine ⟨fun hbelow => ?_, hrest⟩
    obtain ⟨n, hn⟩ := isBelow_iff_exists_cons.1 hbelow
    have hn' : n :: rel ≠ x := fun heq => hne ⟨n, heq.symm⟩
    have hdir : t.HasDir (n :: rel ++ a) := by
      refine t.hasDir_of_suffix hx ?_ fun heq => hn' (List.append_cancel_right heq)
      obtain ⟨c, rfl⟩ := hn
      exact ⟨c, by simp⟩
    exact hpassed _ ((hchildren _).2 ⟨hdir, n, rfl⟩) (isBelow_iff.2 ⟨hn, hn'⟩)
  · rintro (⟨hpassed, hrest⟩ | ⟨m, rfl⟩)
    · refine ⟨fun d hd hbelow => hpassed ?_, hrest⟩
      obtain ⟨-, n, rfl⟩ := (hchildren d).1 hd
      exact isBelow_iff_exists_cons.2 ⟨n, (isBelow_iff.1 hbelow).1⟩
    · refine ⟨fun d hd hbelow => ?_, fun d hd hbelow => (hrel d hd).2 ?_⟩
      · obtain ⟨-, n, rfl⟩ := (hchildren d).1 hd
        obtain ⟨hsuffix, hne⟩ := isBelow_iff.1 hbelow
        exact hne (hsuffix.eq_of_length (by simp))
      · exact isAtOrBelow_iff.1 hbelow

variable (hfind : t.find root = .ok (a, .dir))

include hfind

/-- A directory that is there without following a link is found if the system takes its
path. -/
theorem find_of_taken (hdir : t.HasDir (rel ++ a))
    (hr : (root.join rel.relative).refusal? = none) :
    t.find (root.join rel.relative) = .ok (rel ++ a, .dir) := by
  cases rel with
  | nil => exact find_join_empty hfind hr
  | cons n rel =>
    have hlocate := locate_join .target hfind hr (t.hasDir_of_entry? hdir) fun target htarget => by
      cases hdir.eq_dir htarget
    exact find_of_locate hlocate hdir

theorem eq_of_find (hdir : t.HasDir (rel ++ a))
    (hread : t.find (root.join rel.relative) = .ok (b, .dir)) : b = rel ++ a := by
  have htaken := find_of_taken hfind hdir (refusal?_of_find hread)
  rw [hread] at htaken
  cases htaken
  rfl

/-- At first nothing is found, and everything lies below the directory itself. -/
theorem foundUpTo_start : t.FoundUpTo root a ⟨[], [[]]⟩ where
  found item := by
    simp only [List.not_mem_nil, false_iff, not_and]
    intro hlisted hpassed
    refine hpassed [] (List.mem_singleton.2 rfl) (isBelow_iff.2 ⟨List.nil_suffix, ?_⟩)
    exact hlisted.ne_nil.symm
  nodup := List.nodup_nil
  pending rel hrel := by
    rw [List.mem_singleton.1 hrel]
    exact (locate_of_find hfind).2
  apart := List.pairwise_singleton _ _
  taken rel _ hmem hpassed := by
    rw [List.mem_singleton] at hmem
    exact absurd (isBelow_iff.2 ⟨List.nil_suffix, Ne.symm hmem⟩)
      (hpassed [] (List.mem_singleton.2 rfl))

/-- A round keeps what is found in step with what is pending. -/
theorem FoundUpTo.round (h : t.FoundUpTo root a w) (hround : t.Round root w w') :
    t.FoundUpTo root a w' := by
  cases hround with
  | @read found rest b rel names hread hnames =>
    obtain rfl := eq_of_find hfind (h.pending rel List.mem_cons_self) hread
    have hitem (item : Item) : item ∈ t.listedIn root (rel ++ a) rel names ↔
        t.IsListed root a item ∧ ∃ n, item.address = n :: rel := mem_listedIn hnames
    have hchild (d : Address) : d ∈ dirsOf (t.listedIn root (rel ++ a) rel names) ↔
        t.HasDir (d ++ a) ∧ ∃ n, d = n :: rel := mem_dirsOf_listedIn hnames
    have hnodup : ((t.listedIn root (rel ++ a) rel names).map Item.address).Nodup :=
      nodup_listedIn hnames
    generalize t.listedIn root (rel ++ a) rel names = new at hitem hchild hnodup ⊢
    have hchildren (d : Address) : d ∈ (dirsOf new).reverse ↔
        t.HasDir (d ++ a) ∧ ∃ n, d = n :: rel := List.mem_reverse.trans (hchild d)
    have hpassed {x : Address} {e : Entry} (hx : t.entry? (x ++ a) = some e) :=
      passed_replace_iff h.apart hchildren hx
    constructor
    case found =>
      intro item
      rw [List.mem_append, h.found, hitem, ← and_or_left]
      refine and_congr_right fun hlisted => ?_
      obtain ⟨e, he, -⟩ := hlisted.entry
      exact (hpassed he).symm
    case nodup =>
      rw [List.map_append, List.nodup_append']
      refine ⟨h.nodup, hnodup, fun x hold hnew => ?_⟩
      obtain ⟨item, hmem, rfl⟩ := List.mem_map.1 hold
      obtain ⟨item', hmem', haddress⟩ := List.mem_map.1 hnew
      obtain ⟨-, n, hn⟩ := (hitem item').1 hmem'
      refine ((h.found item).1 hmem).2 rel List.mem_cons_self ?_
      exact isBelow_iff_exists_cons.2 ⟨n, by rw [← hn, haddress]⟩
    case pending =>
      intro d hd
      rcases List.mem_append.1 hd with hd | hd
      · exact ((hchildren d).1 hd).1
      · exact h.pending d (List.mem_cons_of_mem _ hd)
    case apart =>
      refine h.apart.replace (List.nodup_reverse.2 ?_) fun d hd => ((hchildren d).1 hd).2
      exact (List.filter_sublist.map Item.address).nodup hnodup
    case taken =>
      intro d hdir hmem hclear
      rw [List.mem_append, not_or] at hmem
      rcases (hpassed hdir).1 hclear with hclear | hn
      · by_cases heq : d = rel
        · rw [heq]
          exact refusal?_of_find hread
        · exact h.taken d hdir (by simp [heq, hmem.2]) hclear
      · exact absurd ((hchildren d).2 ⟨hdir, hn⟩) hmem.1

theorem foundUpTo_of_reaches (h : t.Reaches root n w) : t.FoundUpTo root a w := by
  induction h with
  | start => exact foundUpTo_start hfind
  | next _ hround ih => exact ih.round hfind hround

/-- A round can always be made, unless the system does not take the path of the directory
whose turn it is. -/
theorem exists_round {found : List Item}
    (h : t.FoundUpTo root a ⟨found, rel :: rest⟩) (hr : (root.join rel.relative).refusal? = none) :
    ∃ w', t.Round root ⟨found, rel :: rest⟩ w' :=
  ⟨_, .read (find_of_taken hfind (h.pending rel List.mem_cons_self) hr) (List.Perm.refl _)⟩

end Round

section Count

/-- The directories below `a`, by their addresses relative to `a`. -/
def dirsBelow (t : Tree) (a : Address) : List Address :=
  ((t.below a).filter fun x => x.2.kind = .dir).map Prod.fst

theorem mem_dirsBelow : rel ∈ t.dirsBelow a ↔ rel ≠ [] ∧ t.HasDir (rel ++ a) := by
  rw [HasDir, ← mem_below]
  simp [dirsBelow, Entry.kind_eq_dir_iff]

/-- Each round takes one directory from the list, and each directory that is found comes
onto it. -/
theorem Reaches.add_length_pending (h : t.Reaches root n w) :
    n + w.pending.length = (dirsOf w.found).length + 1 := by
  induction h with
  | start => rfl
  | next h hround ih =>
    cases hround with
    | read hread hnames =>
      simp only [dirsOf, List.filter_append, List.map_append, List.length_append,
        List.length_reverse, List.length_cons] at ih ⊢
      omega

theorem FoundUpTo.mem_dirsOf_found (h : t.FoundUpTo root a w) (hrel : rel ∈ dirsOf w.found) :
    rel ∈ t.dirsBelow a :=
  mem_dirsBelow.2 (isListed_dir_iff.1 ((h.found _).1 (mem_dirsOf.1 hrel)).1)

theorem FoundUpTo.nodup_dirsOf (h : t.FoundUpTo root a w) : (dirsOf w.found).Nodup :=
  (List.filter_sublist.map Item.address).nodup h.nodup

/-- There are no more rounds than there are directories at and below the root. -/
theorem Reaches.length_le (hfind : t.find root = .ok (a, .dir)) (h : t.Reaches root n w) :
    n + w.pending.length ≤ (t.dirsBelow a).length + 1 := by
  have hfound := foundUpTo_of_reaches hfind h
  rw [h.add_length_pending]
  refine Nat.succ_le_succ (List.Subperm.length_le ?_)
  exact List.subperm_of_subset hfound.nodup_dirsOf fun rel => hfound.mem_dirsOf_found

end Count

end Tree

end TreeShell
