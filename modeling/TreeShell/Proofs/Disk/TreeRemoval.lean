import TreeShell.Proofs.Disk.Removal
import TreeShell.Proofs.Tree.Plain
import TreeShell.Tree.Listing

/-!
# Removing a tree, all or nothing

A tree is removed by emptying the directory that the path leads to and then
removing what the path names. The two need not be the same. A link in the last
place is removed and its directory stays; a path that ends in `.` or `..` names
nothing that can be removed; and a path that goes through what is below the
directory leads nowhere once that is gone, which is not taken for a failure.

So the removal does all or nothing exactly when the path ends at the directory
itself (`Tree.EndsAt`): `removeTree_of_endsAt` and `endsAt_of_removeTree`. The path
that spells the names of the directory does so wherever the links of the tree lead,
and along it the removal does not fail (`removeTree_of_spells`).
-/

namespace TreeShell

namespace Tree

open TreeShell.Path (Names)

/-- The tree `u` is `t` without the entry at `a` and everything below it. -/
structure Removed (t : Tree) (a : Address) (u : Tree) : Prop where
  gone : ∀ c, a <:+ c → u.entry? c = none
  kept : ∀ c, ¬ a <:+ c → u.entry? c = t.entry? c

/-- The path ends at the directory at `a`: it does not end in a link to it, and
unless the directory is empty it ends in its name and still leads there when
everything below the directory is gone. -/
def EndsAt (t : Tree) (p : Path) (a : Address) : Prop :=
  t.locate .entry p = .ok a ∧
    (t.IsEmptyDir a ∨ rmdirRefusal? p = none ∧ (t.clear a).locate .name p = .ok a)

variable {t u : Tree} {a b c : Address} {p : Path}

theorem isEmptyDir_iff : t.IsEmptyDir a ↔ ∀ n, t.entry? (n :: a) = none := by
  rw [IsEmptyDir, List.eq_nil_iff_forall_not_mem]
  simp only [mem_children, not_exists, Option.eq_none_iff_forall_ne_some]

/-- Nothing at all is below an empty directory. -/
theorem IsEmptyDir.entry?_eq_none (h : t.IsEmptyDir a) (hab : a <:+ b) (hne : a ≠ b) :
    t.entry? b = none := by
  obtain ⟨n, hn⟩ := exists_cons_suffix hab hne
  exact entry?_eq_none_of_suffix (isEmptyDir_iff.1 h n) hn

theorem hasDir_clear (ha : t.HasDir a) : (t.clear a).HasDir a := by
  rw [HasDir, entry?_clear, if_neg fun h => h.2 rfl]
  exact ha

theorem isEmptyDir_clear (t : Tree) (a : Address) : (t.clear a).IsEmptyDir a := by
  rw [isEmptyDir_iff]
  intro n
  rw [entry?_clear, if_pos ⟨List.suffix_cons n a, List.ne_cons_self⟩]

theorem eq_of_entries_eq (h : t.entries = u.entries) : t = u := by
  cases t
  cases u
  cases h
  rfl

theorem clear_eq_self (h : t.IsEmptyDir a) : t.clear a = t := by
  refine eq_of_entries_eq (List.filter_eq_self.2 fun x hx => ?_)
  by_contra hbelow
  obtain ⟨b, e⟩ := x
  obtain ⟨hab, hne⟩ := isBelow_iff.1 (by simpa using hbelow)
  cases b with
  | nil => exact hne (List.eq_nil_of_suffix_nil hab)
  | cons n b =>
    have he := t.entry?_cons_eq_some_iff.2 hx
    rw [h.entry?_eq_none hab hne] at he
    cases he

theorem isEmptyDir_of_clear_eq (h : t.clear a = t) : t.IsEmptyDir a :=
  h ▸ isEmptyDir_clear t a

theorem removed_erase_clear (t : Tree) (ha : a ≠ []) : t.Removed a ((t.clear a).erase a) := by
  constructor
  · intro c hc
    have hne : c ≠ [] := by
      rintro rfl
      exact ha (List.eq_nil_of_suffix_nil hc)
    rw [entry?_erase _ a hne, if_pos hc]
  · intro c hc
    by_cases hne : c = []
    · rw [hne]
      rfl
    · rw [entry?_erase _ a hne, if_neg hc, entry?_clear, if_neg fun h => hc h.1]

theorem rmdirRefusal?_of_rmdir (h : t.rmdir p = .ok u) : rmdirRefusal? p = none := by
  rw [rmdir] at h
  cases hl : t.locate .name p with
  | error e =>
    rw [hl] at h
    cases h
  | ok a =>
    simp only [hl, bind, Except.bind] at h
    split at h
    · cases h
    · assumption

theorem kind_of_rmdirRefusal? {e : IoError} (h : rmdirRefusal? p = some e) :
    e.kind ≠ .notFound := by
  unfold rmdirRefusal? at h
  split at h
  · cases h
    decide
  · split at h
    · cases h
      decide
    · split at h
      · cases h
        decide
      · cases h

theorem rmdir_of_locate (hl : t.locate .name p = .ok a) (hr : rmdirRefusal? p = none)
    (ha : t.entry? a = some .dir) (hempty : t.IsEmptyDir a) : t.rmdir p = .ok (t.erase a) := by
  simp only [rmdir, hl, bind, Except.bind, hr, ha, if_pos hempty]

/-- The call for a directory that is empty finds it, whatever it answers. -/
theorem rmdir_cases (hfind : t.find p = .ok (a, .dir)) (hempty : t.IsEmptyDir a) :
    t.rmdir p = .ok (t.erase a) ∨ ∃ e, t.rmdir p = .error e ∧ e.kind ≠ .notFound := by
  have ha := (locate_of_find hfind).2
  cases hr : rmdirRefusal? p with
  | some e =>
    right
    refine ⟨e, ?_, kind_of_rmdirRefusal? hr⟩
    rcases locate_name_of_find hfind with hl | ⟨b, target, hl, -⟩
    · simp only [rmdir, hl, bind, Except.bind, hr]
    · simp only [rmdir, hl, bind, Except.bind, hr]
  | none =>
    rcases locate_name_of_find hfind with hl | ⟨b, target, hl, hlink⟩
    · exact Or.inl (rmdir_of_locate hl hr ha hempty)
    · right
      refine ⟨.notADirectory, ?_, by decide⟩
      simp only [rmdir, hl, bind, Except.bind, hr, hlink]

/-- What the call removes from the emptied tree is the emptied directory, if in
the end that directory is gone or nothing at all has changed. -/
theorem eq_of_rmdir_clear (ha : t.HasDir a) (hroot : a ≠ []) (hb : (t.clear a).HasDir b)
    (hempty : (t.clear a).IsEmptyDir b)
    (h : t.Removed a ((t.clear a).erase b) ∨ (t.clear a).erase b = t) : b = a := by
  by_contra hne
  have habove : ¬ b <:+ a := by
    intro hba
    exact (hasDir_clear ha).ne_none (hempty.entry?_eq_none hba hne)
  have hbnil : b ≠ [] := by
    rintro rfl
    exact habove List.nil_suffix
  rcases h with h | h
  · have hgone := h.gone a List.suffix_rfl
    rw [entry?_erase _ b hroot, if_neg habove] at hgone
    exact (hasDir_clear ha).ne_none hgone
  · have hgone : entry? ((t.clear a).erase b) b = none := by
      rw [entry?_erase _ b hbnil, if_pos List.suffix_rfl]
    rw [h] at hgone
    rcases t.entry?_clear_eq_none_or a b with hnone | hsame
    · exact hb.ne_none hnone
    · exact hb.ne_none (hsame.trans hgone)

/-- The last piece of a path along names is the name of what is to be removed. -/
theorem rmdirRefusal?_of_names (hnames : Names p.pieces a) (hroot : a ≠ []) :
    rmdirRefusal? p = none := by
  obtain ⟨n, a, rfl⟩ := List.exists_cons_of_ne_nil hroot
  obtain ⟨before, hbefore⟩ := Path.eq_append_of_names (Path.names_trimmed.2 hnames) fun s =>
    Path.text_ne_of_getLast?_trimmed
  have hdot : n.piece.text ≠ "." := n.valid.2.1
  have hdots : n.piece.text ≠ ".." := n.valid.2.2.1
  simp [rmdirRefusal?, hbefore, hdot, hdots]

/-- The names of a directory lead to it whatever is below it. -/
theorem locate_clear_of_names (hnames : Names p.pieces a) (hfind : t.find p = .ok (a, .dir)) :
    t.locate .entry p = .ok a ∧ (t.clear a).locate .name p = .ok a := by
  have hr := refusal?_of_find hfind
  have ha : t.HasDir a := (locate_of_find hfind).2
  have htrail (u : Tree) (hu : u.HasDir a) : u.Trail [] p.pieces a :=
    (trail_of_names hnames).2 (by rw [List.append_nil]; exact ⟨hu, rfl⟩)
  exact ⟨locate_of_trail .entry hr (htrail t ha) rfl,
    locate_of_trail .name hr (htrail _ (hasDir_clear ha)) rfl⟩

end Tree

namespace Disk

open TreeShell.Tree

variable {h : Host} {p : Path} {a : Address}

/-- The removal succeeds if the path ends in the name of the directory and leads there
when the directory is empty. -/
theorem removeTree_of_locate_clear (hfind : h.tree.find p = .ok (a, .dir)) (hroot : a ≠ [])
    (hlocate : h.tree.locate .entry p = .ok a) (hr : rmdirRefusal? p = none)
    (hname : (h.tree.clear a).locate .name p = .ok a) :
    ∃ u, removeTree p h = .ok () { h with tree := u } ∧ h.tree.Removed a u := by
  have ha : h.tree.entry? a = some .dir := (locate_of_find hfind).2
  have hok : (h.tree.clear a).rmdir p = .ok ((h.tree.clear a).erase a) :=
    rmdir_of_locate hname hr (hasDir_clear ha) (isEmptyDir_clear h.tree a)
  refine ⟨(h.tree.clear a).erase a, ?_, removed_erase_clear h.tree hroot⟩
  rw [removeTree_of_locate hfind hlocate, ha]
  simp only [emptyAndRemove_eq, hok]

/-- A removal along a path that ends at the directory does all or nothing. -/
theorem removeTree_of_endsAt (hfind : h.tree.find p = .ok (a, .dir)) (hroot : a ≠ [])
    (hends : h.tree.EndsAt p a) :
    (∃ u, removeTree p h = .ok () { h with tree := u } ∧ h.tree.Removed a u) ∨
      ∃ e, removeTree p h = .error e h := by
  obtain ⟨hlocate, hempty | ⟨hr, hname⟩⟩ := hends
  · have hremoved := removed_erase_clear h.tree hroot
    rw [removeTree_of_locate hfind hlocate, (locate_of_find hfind).2]
    simp only [emptyAndRemove_eq]
    rw [clear_eq_self hempty] at hremoved ⊢
    rcases rmdir_cases hfind hempty with hok | ⟨e, herror, hkind⟩
    · rw [hok]
      exact Or.inl ⟨_, rfl, hremoved⟩
    · rw [herror]
      simp only [if_neg hkind]
      exact Or.inr ⟨_, rfl⟩
  · exact Or.inl (removeTree_of_locate_clear hfind hroot hlocate hr hname)

/-- Only along such a path, whatever is reported. -/
theorem endsAt_of_removeTree (hfind : h.tree.find p = .ok (a, .dir)) (hroot : a ≠ [])
    (hexact : h.tree.Removed a (outcomeState (removeTree p h)).tree ∨
      (outcomeState (removeTree p h)).tree = h.tree) : h.tree.EndsAt p a := by
  have ha : h.tree.HasDir a := (locate_of_find hfind).2
  rcases locate_entry_of_find hfind with hlocate | ⟨b, target, hlocate, hlink⟩
  · refine ⟨hlocate, ?_⟩
    have hstays : ¬ h.tree.Removed a (h.tree.clear a) := by
      intro hremoved
      exact (hasDir_clear ha).ne_none (hremoved.gone a List.suffix_rfl)
    rw [removeTree_of_locate hfind hlocate, (locate_of_find hfind).2] at hexact
    simp only [emptyAndRemove_eq] at hexact
    cases hrm : (h.tree.clear a).rmdir p with
    | ok u =>
      rw [hrm] at hexact
      obtain ⟨b, hname, hb, hempty, rfl⟩ := rmdir_eq_ok hrm
      obtain rfl := eq_of_rmdir_clear ha hroot hb hempty hexact
      exact Or.inr ⟨rmdirRefusal?_of_rmdir hrm, hname⟩
    | error e =>
      have htree : h.tree.Removed a (h.tree.clear a) ∨ h.tree.clear a = h.tree := by
        rw [hrm] at hexact
        simp only at hexact
        split at hexact
        · exact hexact
        · exact hexact
      exact Or.inl (isEmptyDir_of_clear_eq (htree.resolve_left hstays))
  · -- the link is removed, and the directory is still there
    exfalso
    rw [removeTree_of_link hfind hlocate hlink] at hexact
    have hne : b ≠ a := by
      rintro rfl
      cases ha.eq_dir hlink
    have hbnil : b ≠ [] := by
      rintro rfl
      cases hlink
    rcases hexact with hremoved | hsame
    · have hgone : entry? (h.tree.erase b) a = none := hremoved.gone a List.suffix_rfl
      rw [entry?_erase_of_ne_dir hlink (by simp [Entry.kind]) hne] at hgone
      exact ha.ne_none hgone
    · have hgone : entry? (h.tree.erase b) b = none := by
        rw [entry?_erase _ b hbnil, if_pos List.suffix_rfl]
      have hsame : h.tree.erase b = h.tree := hsame
      rw [hsame, hlink] at hgone
      cases hgone

/-- Wherever the links of the tree lead, a directory other than the root is removed
along its own names with everything below it, and nothing else is touched. -/
theorem removeTree_of_spells (hs : p.Spells a) (hfind : h.tree.find p = .ok (a, .dir))
    (hroot : a ≠ []) : ∃ u, removeTree p h = .ok () { h with tree := u } ∧ h.tree.Removed a u := by
  obtain ⟨hlocate, hname⟩ := locate_clear_of_names hs.names hfind
  have hallowed := rmdirRefusal?_of_names hs.names hroot
  exact removeTree_of_locate_clear hfind hroot hlocate hallowed hname

/-- A tree in which the links in `/d` lead to the root, to themselves and to the file
`/f`. -/
def entangled : Host where
  tree := Tree.empty.plantAll [(Path.ofText "/f", .file [120]),
    (Path.ofText "/d/up", .link (Path.ofText "..")), (Path.ofText "/d/me", .link (Path.ofText "me")),
    (Path.ofText "/d/out", .link (Path.ofText "/f"))]

theorem isFileName_d : IsFileName "d" := by
  decide

theorem removeTree_of_spells_entangled :
    entangled.tree.find (Path.ofText "/d") = .ok ([⟨"d", isFileName_d⟩], .dir) ∧
      ∃ u, removeTree (Path.ofText "/d") entangled = .ok () { entangled with tree := u } ∧
        entangled.tree.Removed [⟨"d", isFileName_d⟩] u := by
  have hfind : entangled.tree.find (Path.ofText "/d") = .ok ([⟨"d", isFileName_d⟩], .dir) := by
    decide
  exact ⟨hfind, removeTree_of_spells ⟨by decide, by decide, by decide⟩ hfind (by decide)⟩

end Disk

end TreeShell
