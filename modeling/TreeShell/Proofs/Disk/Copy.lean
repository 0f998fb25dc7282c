import TreeShell.Proofs.Disk.Frame
import TreeShell.Proofs.Disk.Overlay
import TreeShell.Proofs.Tree.Writing
import TreeShell.Tree.Listing

/-!
# Copying a directory

Without links, and for a target that is neither the source nor inside it, the
copy of a directory succeeds exactly when no file stands in the way of the
target and wherever source and target both have an entry it is of one kind.
Then the source as it was is laid over the target (`copy_directory`).

One way the loop keeps `Copied`, one entry at a time (`copyItem_of_turn`). The
other way a place that holds the other kind of entry holds it until its turn
comes, since no call changes a kind, and there the copy fails
(`agree_of_copyItems`).
-/

namespace TreeShell

namespace Tree

variable {t : Tree} {a b c : Address} {p q : Path}

/-- Paths that spell different addresses do not lead to the same entry. -/
theorem sameEntry_eq_false (hl : t.Linkless) (hp : p.Spells a) (hq : q.Spells b) (hab : a ≠ b) :
    t.sameEntry p q = false := by
  by_contra hsame
  obtain ⟨c, hc, hc'⟩ := exists_names_of_sameEntry hl (Path.plain_of_names hp.absolute hp.names)
    (Path.plain_of_names hq.absolute hq.names) (by simpa using hsame)
  exact hab ((Path.eq_of_names_of_names hp.names hc).trans
    (Path.eq_of_names_of_names hc' hq.names))

/-- Writing a file where nothing is, or over a file. -/
theorem modifyFile_of_hasDir {n : FileName} (bytes : List UInt8) (hl : t.Linkless)
    (hq : q.Spells (n :: b)) (hr : q.refusal? = none) (hb : t.HasDir b)
    (hn : ¬ t.HasDir (n :: b)) :
    ∃ u, t.modifyFile q (fun _ => bytes) = .ok u ∧
      ∀ c, u.entry? c = if c = n :: b then some (.file bytes) else t.entry? c := by
  have hlocate := locate_of_hasDir .output hl hq hr hb
  have hfree : t.Free (n :: b) := by
    intro e he
    cases e with
    | file old => rfl
    | dir => exact absurd he hn
    | link target => exact absurd he (hl _ target)
  obtain ⟨u, hu, hwritten⟩ := modifyFile_of_locate hlocate hfree fun _ => bytes
  exact ⟨u, hu, hwritten.entry⟩

theorem modifyFile_of_dir {n : FileName} {bytes : List UInt8} (hl : t.Linkless)
    (hq : q.Spells (n :: b)) (hr : q.refusal? = none) (hn : t.HasDir (n :: b)) :
    t.modifyFile q (fun _ => bytes) = .error .isADirectory := by
  have hlocate := locate_of_hasDir .output hl hq hr (t.hasDir_of_entry? hn)
  rw [HasDir] at hn
  simp only [modifyFile, hlocate, bind, Except.bind, hn]

end Tree

namespace Disk

open TreeShell.Tree

variable {h : Host} {p q : Path} {a b : Address} {n : FileName}

theorem copyFile_eq (hne : h.tree.sameEntry p q = false) : copyFile p q h = (do
    match ← liftCall q (h.tree.find p) with
    | (a, .file bytes) => commit q fun t => t.modifyFile q fun _ => bytesLeft h.tree a q bytes
    | _ => throw (.ofIo q .notCopyable) : Disk Unit) h := by
  rw [copyFile, tree_bind, hne]
  rfl

/-- Opening another file takes nothing from the source. -/
theorem bytesLeft_of_ne {t : Tree} {bytes : List UInt8}
    (h : ∀ b, t.locate .output q = .ok b → b ≠ a) : bytesLeft t a q bytes = bytes := by
  unfold bytesLeft
  split
  · next b hb => rw [if_neg (h b hb)]
  · rfl

theorem copyFile_of_file {bytes : List UInt8} (hl : h.tree.Linkless) (hp : p.Spells a)
    (hpr : p.refusal? = none) (hq : q.Spells (n :: b)) (hqr : q.refusal? = none)
    (hab : a ≠ n :: b) (hfile : h.tree.entry? a = some (.file bytes)) (hb : h.tree.HasDir b)
    (hn : ¬ h.tree.HasDir (n :: b)) :
    ∃ u, copyFile p q h = .ok () { h with tree := u } ∧
      ∀ c, u.entry? c = if c = n :: b then some (.file bytes) else h.tree.entry? c := by
  obtain ⟨u, hu, hentry⟩ := modifyFile_of_hasDir bytes hl hq hqr hb hn
  refine ⟨u, ?_, hentry⟩
  have hfind := (find_eq_ok_iff hl hp hpr).2 ⟨rfl, hfile⟩
  have hother : ∀ c, h.tree.locate .output q = .ok c → c ≠ a := by
    intro c hc
    rw [locate_of_hasDir .output hl hq hqr hb] at hc
    cases hc
    exact hab.symm
  rw [copyFile_eq (sameEntry_eq_false hl hp hq hab), bind_of_ok (liftCall_of_ok hfind)]
  simp only [bytesLeft_of_ne hother]
  exact commit_of_ok hu

/-- Nothing can be copied over a directory as a file. -/
theorem copyFile_of_dir (hl : h.tree.Linkless) (hp : p.Spells a) (hq : q.Spells (n :: b))
    (hqr : q.refusal? = none) (hab : a ≠ n :: b) (hn : h.tree.HasDir (n :: b)) :
    ∃ e, copyFile p q h = .error e h := by
  rw [copyFile_eq (sameEntry_eq_false hl hp hq hab)]
  cases hfind : h.tree.find p with
  | error e => exact ⟨_, bind_of_error (liftCall_of_error rfl)⟩
  | ok x =>
    obtain ⟨c, e⟩ := x
    rw [bind_of_ok (liftCall_of_ok rfl)]
    cases e with
    | dir => exact ⟨_, rfl⟩
    | link target => exact ⟨_, rfl⟩
    | file bytes => exact ⟨_, commit_of_error (modifyFile_of_dir hl hq hqr hn)⟩

/-- What is listed of an entry that is no link. -/
def itemOf (x : Address × Entry) : Item :=
  ⟨x.1, decide (x.2 = .dir)⟩

section Snapshot

variable {source : Path}

theorem examine_of_entry {x : Address × Entry} (hl : h.tree.Linkless) (hs : source.Spells a)
    (hne : x.1 ≠ []) (hx : h.tree.entry? (x.1 ++ a) = some x.2)
    (hr : (source.join (Address.relative x.1)).refusal? = none) :
    examine source x h = .ok (some (itemOf x)) h := by
  obtain ⟨rel, e⟩ := x
  cases e with
  | file bytes => rfl
  | link target => exact absurd hx (hl _ target)
  | dir =>
    have hfind := (find_eq_ok_iff hl (hs.join hne) hr).2 ⟨rfl, hx⟩
    rw [examine]
    simp only
    rw [bind_of_ok (requireDir_of_find hfind)]
    rfl

theorem examineAll_of_entries {xs : List (Address × Entry)} (hl : h.tree.Linkless)
    (hs : source.Spells a)
    (hxs : ∀ x ∈ xs, x.1 ≠ [] ∧ h.tree.entry? (x.1 ++ a) = some x.2 ∧
      (source.join (Address.relative x.1)).refusal? = none) :
    examineAll source xs h = .ok (xs.map itemOf) h := by
  induction xs with
  | nil => rfl
  | cons x xs ih =>
    obtain ⟨hne, hx, hr⟩ := hxs x List.mem_cons_self
    rw [examineAll, bind_of_ok (examine_of_entry hl hs hne hx hr),
      bind_of_ok (ih fun y hy => hxs y (List.mem_cons_of_mem _ hy))]
    rfl

end Snapshot

section Loop

variable {t : Tree} {source target : Path} {rel : Address} {e : Entry}
  {done rest : List (Address × Entry)}

/-- When its turn comes, an entry is put in its place, and nothing else
changes. -/
theorem copyItem_of_turn (hc : t.Copying source target a b) (hagree : t.Agree a b)
    (hcopied : Copied t b done h.tree) (hturn : t.Turn a done rel e) :
    ∃ u, copyItem source target (itemOf (rel, e)) h = .ok () { h with tree := u } ∧
      ∀ c, u.entry? c = if c = rel ++ b then some e else h.tree.entry? c := by
  have hl : h.tree.Linkless := hcopied.linkless hc.linkless fun x hx => (hturn.earlier x hx).1
  have hplace := hcopied.entry?_place hturn
  have hspells := hc.target_spells.join hturn.ne_nil
  have htaken := hc.below_taken rel e hturn.ne_nil hturn.entry
  obtain ⟨n, rel, rfl⟩ := List.exists_cons_of_ne_nil hturn.ne_nil
  have habove := hcopied.hasDir_place hturn
  cases e with
  | link link => exact absurd hturn.entry (hc.linkless _ link)
  | dir =>
    -- a file at the place would be there from the start, and of the other kind
    have hfree : ¬ h.tree.Blocked (n :: rel ++ b) := by
      rintro ⟨c, bytes, hsuffix, hfile⟩
      rcases List.suffix_cons_iff.1 hsuffix with rfl | hsuffix
      · rw [List.cons_append] at hplace
        have hkind := hagree _ _ _ hturn.entry (hplace.symm.trans hfile)
        cases hkind
      · exact not_blocked_of_hasDir habove ⟨c, bytes, hsuffix, hfile⟩
    obtain ⟨u, hu, hadds⟩ := createDirs_of_not_blocked hl hspells htaken hfree
    exact ⟨u, hu, hadds.entry?_eq hl hfree habove⟩
  | file bytes =>
    have hfree : ¬ h.tree.HasDir (n :: rel ++ b) := by
      intro hd
      have hkind := hagree _ _ _ hturn.entry (hplace.symm.trans hd)
      cases hkind
    exact copyFile_of_file hl (hc.source_spells.join hturn.ne_nil)
      (hc.source_taken _ _ hturn.entry) hspells htaken (hc.append_ne _)
      (hcopied.entry?_source hc.apart hturn) habove hfree

/-- The loop puts all entries in their places, whatever it writes over. -/
theorem copyItems_of_copied (hc : t.Copying source target a b) (hagree : t.Agree a b)
    (hlevels : levels t a = done ++ rest) (hcopied : Copied t b done h.tree) :
    ∃ u, copyItems source target (rest.map itemOf) h = .ok () { h with tree := u } ∧
      Copied t b (levels t a) u := by
  induction rest generalizing done h with
  | nil =>
    rw [List.append_nil] at hlevels
    exact ⟨h.tree, rfl, hlevels ▸ hcopied⟩
  | cons x rest ih =>
    have hturn := turn_of_levels hlevels
    obtain ⟨u, hu, hentry⟩ := copyItem_of_turn hc hagree hcopied hturn
    have hnext := hcopied.concat hturn.ne_nil (fun y hy => (hturn.earlier y hy).2.1) hentry
    obtain ⟨v, hv, hall⟩ := ih (h := { h with tree := u }) (by simp [hlevels]) hnext
    refine ⟨v, ?_, hall⟩
    rw [List.map_cons, copyItems, bind_of_ok hu]
    exact hv

/-- An item that was copied was copied in a tree with the entries of the first
one, each of its kind. -/
theorem exists_copyItem_of_copyItems {items : List Item} {h' : Host} {item : Item}
    (hok : copyItems source target items h = .ok () h') (hitem : item ∈ items) :
    ∃ h₁ h₂, Host.Within Extends h h₁ ∧ copyItem source target item h₁ = .ok () h₂ := by
  induction items generalizing h with
  | nil => cases hitem
  | cons first rest ih =>
    rw [copyItems, bind_eq_ok] at hok
    obtain ⟨_, h₁, hfirst, hrest⟩ := hok
    rcases List.mem_cons.1 hitem with rfl | hitem
    · exact ⟨h, h₁, refl_of (Host.Within Extends) h, hfirst⟩
    · have hmoves : Moves (Host.Within Extends) (copyItem source target first) :=
        moves_copyItem (fun _ _ _ => extends_mkdir) (fun _ _ _ _ => extends_modifyFile) _ _ _
      have hstep := hmoves h
      rw [hfirst] at hstep
      obtain ⟨h₂, h₃, hwithin, hok⟩ := ih hrest hitem
      exact ⟨h₂, h₃, trans_of (Host.Within Extends) hstep hwithin, hok⟩

/-- Where the kinds do not agree the copy fails at the latest. -/
theorem agree_of_copyItems {h' : Host} (hc : t.Copying source target a b) (hb : ¬ t.Blocked b)
    (hstart : t.Extends h.tree)
    (hok : copyItems source target ((levels t a).map itemOf) h = .ok () h') : t.Agree a b := by
  intro rel e f he hf
  by_contra hkind
  cases rel with
  | nil =>
    -- the source and the target themselves: the list has no item for them
    have hdir : t.HasDir ([] ++ b) := hasDir_of_not_blocked hc.linkless hb hf
    have hdir' : t.HasDir ([] ++ a) := hc.hasDir
    exact hkind (by rw [hdir.eq_dir hf, hdir'.eq_dir he])
  | cons n rel =>
    have hne := List.cons_ne_nil n rel
    have hspells := hc.target_spells.join hne
    have htaken := hc.below_taken _ e hne he
    have hmem : itemOf (n :: rel, e) ∈ (levels t a).map itemOf :=
      List.mem_map_of_mem (mem_levels.2 ⟨hne, he⟩)
    -- no call before its turn has changed the kind of what is at its place
    obtain ⟨h₁, h₂, hwithin, hitem⟩ := exists_copyItem_of_copyItems hok hmem
    have hextends : t.Extends h₁.tree := trans_of Extends hstart hwithin.tree
    have hl : h₁.tree.Linkless := hextends.links.linkless hc.linkless
    obtain ⟨g, hg, hgf⟩ := hextends.kinds _ f hf
    rw [← hgf] at hkind
    cases e with
    | link link => exact absurd he (hc.linkless _ link)
    | dir =>
      have hblocked : h₁.tree.Blocked (n :: rel ++ b) := by
        by_contra hfree
        exact hkind (by rw [(hasDir_of_not_blocked hl hfree hg).eq_dir hg])
      obtain ⟨e, herror⟩ := createDirs_of_blocked hl hspells htaken hblocked
      have hcreate : createDirs (target.join (Address.relative (n :: rel))) h₁ = .ok () h₂ := hitem
      rw [herror] at hcreate
      cases hcreate
    | file bytes =>
      have hd : h₁.tree.HasDir (n :: rel ++ b) := by
        cases g with
        | dir => exact hg
        | file old => exact absurd rfl hkind
        | link link => exact absurd hg (hl _ link)
      obtain ⟨e, herror⟩ := copyFile_of_dir hl (hc.source_spells.join hne) hspells htaken
        (hc.append_ne _) hd
      have hcopy : copyFile (source.join (Address.relative (n :: rel)))
        (target.join (Address.relative (n :: rel))) h₁ = .ok () h₂ := hitem
      rw [herror] at hcopy
      cases hcopy

end Loop

section Copy

variable {source target : Path}

/-- A copy lists the source, makes the target and goes through the list. -/
theorem copy_eq (hc : h.tree.Copying source target a b) : copy source target h = (do
    createDirs target
    copyItems source target ((levels h.tree a).map itemOf) : Disk Unit) h := by
  have hself : (source.join Path.empty).refusal? = none := hc.source_taken [] .dir hc.hasDir
  have hsource := hc.source_taken_self
  have hfind := (find_eq_ok_iff hc.linkless hc.source_spells hsource).2 ⟨rfl, hc.hasDir⟩
  have hdir : h.tree.find (source.join Path.empty) = .ok (a, .dir) := by
    apply find_of_trail hself
    rw [trail_of_names hc.source_spells.names_join_empty, List.append_nil]
    exact ⟨hc.hasDir, rfl⟩
  have hitems : snapshot source h = .ok ((levels h.tree a).map itemOf) h := by
    rw [snapshot, bind_of_ok (requireDir_of_find hdir), tree_bind]
    apply examineAll_of_entries hc.linkless hc.source_spells
    intro x hx
    obtain ⟨hne, hx⟩ := mem_levels.1 hx
    exact ⟨hne, hx, hc.source_taken x.1 x.2 hx⟩
  have hapart := sameEntry_eq_false hc.linkless hc.source_spells hc.target_spells
    (hc.append_ne [])
  rw [copy, tree_bind, bind_of_ok (liftCall_of_ok hfind)]
  simp only [hapart]
  rw [if_neg Bool.false_ne_true, bind_of_ok hitems]

theorem extends_of_addsDirs {t u : Tree} (hadds : AddsDirs b t u) : t.Extends u where
  kinds c e he := by
    refine ⟨e, ?_, rfl⟩
    rw [hadds c, he, if_neg]
    rintro ⟨-, hnone⟩
    cases hnone
  links c target hc := by
    rw [hadds c] at hc
    split at hc
    · cases hc
    · exact hc

/-- Where nothing is in the way and the kinds agree, the copy succeeds. -/
theorem copy_of_agree (hc : h.tree.Copying source target a b) (hb : ¬ h.tree.Blocked b)
    (hagree : h.tree.Agree a b) :
    ∃ u, copy source target h = .ok () { h with tree := u } ∧ h.tree.Overlaid a b u := by
  obtain ⟨u, hu, hadds⟩ :=
    createDirs_of_not_blocked hc.linkless hc.target_spells hc.target_taken hb
  have hstart := Copied.of_addsDirs hadds hc.linkless hb
  obtain ⟨v, hv, hcopied⟩ :=
    copyItems_of_copied (h := { h with tree := u }) hc hagree (List.nil_append _).symm hstart
  refine ⟨v, ?_, hcopied.overlaid hc.linkless hc.hasDir hb⟩
  rw [copy_eq hc, bind_of_ok hu]
  exact hv

/-- It does not succeed otherwise. -/
theorem agree_of_copy {h' : Host} (hc : h.tree.Copying source target a b)
    (hok : copy source target h = .ok () h') : ¬ h.tree.Blocked b ∧ h.tree.Agree a b := by
  rw [copy_eq hc, bind_eq_ok] at hok
  obtain ⟨_, h₁, hcreate, hitems⟩ := hok
  have hb : ¬ h.tree.Blocked b := by
    intro hb
    obtain ⟨e, herror⟩ :=
      createDirs_of_blocked hc.linkless hc.target_spells hc.target_taken hb
    rw [herror] at hcreate
    cases hcreate
  obtain ⟨u, hu, hadds⟩ :=
    createDirs_of_not_blocked hc.linkless hc.target_spells hc.target_taken hb
  rw [hu] at hcreate
  cases hcreate
  exact ⟨hb, agree_of_copyItems hc hb (extends_of_addsDirs hadds) hitems⟩

/-- Without links, and to a target that is neither the source nor inside it, the
copy of a directory succeeds exactly when no file is at the target or above it
and source and target have no entry of different kinds in common. The source as
it was before is then laid over the target. -/
theorem copy_directory (hc : h.tree.Copying source target a b) :
    ((∃ h', copy source target h = .ok () h') ↔ ¬ h.tree.Blocked b ∧ h.tree.Agree a b) ∧
      ∀ h', copy source target h = .ok () h' → h.tree.Overlaid a b h'.tree := by
  constructor
  · constructor
    · rintro ⟨h', hok⟩
      exact agree_of_copy hc hok
    · rintro ⟨hb, hagree⟩
      obtain ⟨u, hu, -⟩ := copy_of_agree hc hb hagree
      exact ⟨_, hu⟩
  · intro h' hok
    obtain ⟨hb, hagree⟩ := agree_of_copy hc hok
    obtain ⟨u, hu, hoverlaid⟩ := copy_of_agree hc hb hagree
    rw [hu] at hok
    cases hok
    exact hoverlaid

/-- A tree in which the copy of `/b/s` to `/b` writes `/b/s/s/f` over
`/b/s/f`. -/
def nested : Host where
  tree := Tree.empty.plantAll [(Path.ofText "/b/s/s", .dir), (Path.ofText "/b/s/f", .file [1]),
    (Path.ofText "/b/s/s/f", .file [2])]

/-- The name of the directory `/b`. -/
def nameB : FileName :=
  ⟨"b", by decide⟩

/-- The address of `/b/s`, or of `/b` without the first name. -/
def inner : Address :=
  [⟨"s", by decide⟩, nameB]

theorem copying_nested :
    nested.tree.Copying (Path.ofText "/b/s") (Path.ofText "/b") inner inner.tail := by
  have hbelow : ∀ x ∈ nested.tree.below inner,
      ((Path.ofText "/b/s").join (Address.relative x.1)).refusal? = none ∧
        ((Path.ofText "/b").join (Address.relative x.1)).refusal? = none := by
    decide +kernel
  refine ⟨by decide +kernel, ⟨by decide +kernel, by decide +kernel, by decide +kernel⟩,
    ⟨by decide +kernel, by decide +kernel, by decide +kernel⟩, by decide +kernel,
    by decide +kernel, ?_, by decide +kernel, ?_⟩
  · intro rel e he
    by_cases hrel : rel = []
    · rw [hrel]
      decide +kernel
    · exact (hbelow (rel, e) (nested.tree.mem_below.2 ⟨hrel, he⟩)).1
  · intro rel e hrel he
    exact (hbelow (rel, e) (nested.tree.mem_below.2 ⟨hrel, he⟩)).2

theorem copy_directory_nested :
    ((∃ h', copy (Path.ofText "/b/s") (Path.ofText "/b") nested = .ok () h') ↔
      ¬ nested.tree.Blocked inner.tail ∧ nested.tree.Agree inner inner.tail) ∧
    ∀ h', copy (Path.ofText "/b/s") (Path.ofText "/b") nested = .ok () h' →
      nested.tree.Overlaid inner inner.tail h'.tree :=
  copy_directory copying_nested

end Copy

end Disk

end TreeShell
