import Mathlib.Order.Defs.Unbundled
import TreeShell.Proofs.Tree.Entries

/-!
# What a call can change

Each call that succeeds makes one of three changes: it adds an entry where
nothing was, it replaces the bytes of a file, or it removes an entry
(`mkdir_eq_ok` and the lemmas after it). So what all calls keep has to be
shown for these changes only.
-/

namespace TreeShell.Tree

/-- Every directory of `t` is one in `u`. -/
def KeepsDirs (t u : Tree) : Prop :=
  ∀ a, t.HasDir a → u.HasDir a

/-- Every entry of `t` is there in `u`, and of the same kind. -/
def KeepsKinds (t u : Tree) : Prop :=
  ∀ a e, t.entry? a = some e → ∃ f, u.entry? a = some f ∧ f.kind = e.kind

/-- Every link of `u` is there in `t`, and with the same target. -/
def NoNewLinks (t u : Tree) : Prop :=
  ∀ a target, u.entry? a = some (.link target) → t.entry? a = some (.link target)

/-- The entries of `t` are there in `u`, each of its kind, and `u` has no links
but those of `t`. -/
structure Extends (t u : Tree) : Prop where
  kinds : t.KeepsKinds u
  links : t.NoNewLinks u

variable {t u v : Tree}

theorem KeepsDirs.refl (t : Tree) : t.KeepsDirs t := fun _ h => h

theorem KeepsDirs.trans (h : t.KeepsDirs u) (h' : u.KeepsDirs v) : t.KeepsDirs v :=
  fun a ha => h' a (h a ha)

theorem KeepsKinds.refl (t : Tree) : t.KeepsKinds t := fun _ e h => ⟨e, h, rfl⟩

theorem KeepsKinds.trans (h : t.KeepsKinds u) (h' : u.KeepsKinds v) : t.KeepsKinds v := by
  intro a e he
  obtain ⟨f, hf, hk⟩ := h a e he
  obtain ⟨g, hg, hk'⟩ := h' a f hf
  exact ⟨g, hg, hk'.trans hk⟩

theorem KeepsKinds.keepsDirs (h : t.KeepsKinds u) : t.KeepsDirs u := by
  intro a ha
  obtain ⟨f, hf, hk⟩ := h a .dir ha
  rw [Entry.kind_eq_dir_iff.1 hk] at hf
  exact hf

theorem NoNewLinks.refl (t : Tree) : t.NoNewLinks t := fun _ _ h => h

theorem NoNewLinks.trans (h : t.NoNewLinks u) (h' : u.NoNewLinks v) : t.NoNewLinks v :=
  fun a target ha => h a target (h' a target ha)

theorem NoNewLinks.linkless (h : t.NoNewLinks u) (hl : t.Linkless) : u.Linkless :=
  fun a target ha => hl a target (h a target ha)

instance : IsPreorder Tree Extends where
  refl t := ⟨KeepsKinds.refl t, NoNewLinks.refl t⟩
  trans _ _ _ h h' := ⟨h.kinds.trans h'.kinds, h.links.trans h'.links⟩

/-- A link stays a link with its target. -/
theorem Extends.entry?_link {a : Address} {target : Path} (h : t.Extends u)
    (ha : t.entry? a = some (.link target)) : u.entry? a = some (.link target) := by
  obtain ⟨f, hf, hk⟩ := h.kinds _ _ ha
  obtain ⟨target', rfl⟩ := Entry.kind_eq_link_iff.1 hk
  rw [h.links _ _ hf] at ha
  cases ha
  exact hf

section Insert

variable {n : FileName} {a : Address} {e : Entry}

theorem insert_eq_self_or (t : Tree) (n : FileName) (a : Address) (e : Entry) :
    t.insert n a e = t ∨ t.HasDir a ∧ t.entry? (n :: a) = none := by
  unfold insert
  split
  · next h => exact Or.inr h
  · exact Or.inl rfl

theorem keepsKinds_insert : t.KeepsKinds (t.insert n a e) := by
  rcases t.insert_eq_self_or n a e with h | ⟨hd, hn⟩
  · rw [h]
    exact KeepsKinds.refl t
  · intro b f hf
    rw [t.entry?_insert hd hn]
    split
    · next hb =>
      rw [hb, hn] at hf
      cases hf
    · exact ⟨f, hf, rfl⟩

theorem noNewLinks_insert (he : e.kind ≠ .link) : t.NoNewLinks (t.insert n a e) := by
  rcases t.insert_eq_self_or n a e with h | ⟨hd, hn⟩
  · rw [h]
    exact NoNewLinks.refl t
  · intro b target hb
    rw [t.entry?_insert hd hn] at hb
    split at hb
    · cases hb
      exact absurd rfl he
    · exact hb

theorem extends_insert (he : e.kind ≠ .link) : t.Extends (t.insert n a e) :=
  ⟨keepsKinds_insert, noNewLinks_insert he⟩

end Insert

theorem keepsKinds_setBytes {a : Address} {bytes : List UInt8} :
    t.KeepsKinds (t.setBytes a bytes) := by
  intro b e he
  rw [entry?_setBytes, he]
  split
  · exact ⟨e.withBytes bytes, rfl, e.kind_withBytes bytes⟩
  · exact ⟨e, rfl, rfl⟩

theorem noNewLinks_setBytes {a : Address} {bytes : List UInt8} :
    t.NoNewLinks (t.setBytes a bytes) := by
  intro b target hb
  rw [entry?_setBytes] at hb
  split at hb
  · cases he : t.entry? b with
    | none =>
      rw [he] at hb
      cases hb
    | some e =>
      rw [he] at hb
      cases e <;> cases hb
      rfl
  · exact hb

theorem extends_setBytes {a : Address} {bytes : List UInt8} : t.Extends (t.setBytes a bytes) :=
  ⟨keepsKinds_setBytes, noNewLinks_setBytes⟩

theorem entry?_erase_eq_none_or (t : Tree) (a b : Address) :
    entry? (t.erase a) b = none ∨ entry? (t.erase a) b = t.entry? b := by
  by_cases hb : b = []
  · exact Or.inr (by rw [hb]; rfl)
  · rw [t.entry?_erase a hb]
    split
    · exact Or.inl rfl
    · exact Or.inr rfl

theorem entry?_clear_eq_none_or (t : Tree) (a b : Address) :
    entry? (t.clear a) b = none ∨ entry? (t.clear a) b = t.entry? b := by
  rw [entry?_clear]
  split
  · exact Or.inl rfl
  · exact Or.inr rfl

theorem noNewLinks_of_removed (h : ∀ b, u.entry? b = none ∨ u.entry? b = t.entry? b) :
    t.NoNewLinks u := by
  intro b target hb
  rcases h b with hn | hs
  · rw [hn] at hb
    cases hb
  · rw [← hs]
    exact hb

/-- What is removed with an entry that is no directory is that entry only. -/
theorem entry?_erase_of_ne_dir {a b : Address} {e : Entry} (ha : t.entry? a = some e)
    (he : e.kind ≠ .dir) (hb : a ≠ b) : entry? (t.erase a) b = t.entry? b := by
  by_cases hnil : b = []
  · rw [hnil]
    rfl
  · rw [t.entry?_erase a hnil]
    split
    · next hab =>
      cases hf : t.entry? b with
      | none => rfl
      | some f =>
        have hdir := (t.hasDir_of_suffix hf hab hb).eq_dir ha
        exact absurd (Entry.kind_eq_dir_iff.2 hdir) he
    · rfl

theorem keepsDirs_erase {a : Address} {e : Entry} (ha : t.entry? a = some e)
    (he : e.kind ≠ .dir) : t.KeepsDirs (t.erase a) := by
  intro b hb
  have hne : a ≠ b := by
    rintro rfl
    exact he (Entry.kind_eq_dir_iff.2 (hb.eq_dir ha))
  rw [HasDir, entry?_erase_of_ne_dir ha he hne]
  exact hb

section Calls

variable {p : Path}

theorem place_eq_ok {a : Address} {e : Entry} (h : t.place a e = .ok u) :
    ∃ n b, a = n :: b ∧ t.entry? (n :: b) = none ∧ u = t.insert n b e := by
  cases a with
  | nil => cases h
  | cons n b =>
    rw [place] at h
    split at h
    · cases h
    · next hn =>
      cases h
      exact ⟨n, b, rfl, by simpa using hn, rfl⟩

theorem mkdir_eq_ok (h : t.mkdir p = .ok u) :
    ∃ n a, t.locate .name p = .ok (n :: a) ∧ t.entry? (n :: a) = none ∧ u = t.insert n a .dir := by
  rw [mkdir] at h
  cases hl : t.locate .name p with
  | error e =>
    rw [hl] at h
    cases h
  | ok a =>
    rw [hl] at h
    obtain ⟨n, b, rfl, hn, rfl⟩ := place_eq_ok h
    exact ⟨n, b, rfl, hn, rfl⟩

theorem rmdir_eq_ok (h : t.rmdir p = .ok u) :
    ∃ a, t.locate .name p = .ok a ∧ t.HasDir a ∧ t.IsEmptyDir a ∧ u = t.erase a := by
  rw [rmdir] at h
  cases hl : t.locate .name p with
  | error e =>
    rw [hl] at h
    cases h
  | ok a =>
    simp only [hl, bind, Except.bind] at h
    split at h
    · cases h
    · split at h
      · cases h
      · next ha =>
        split at h
        · next he =>
          cases h
          exact ⟨a, rfl, ha, he, rfl⟩
        · cases h
      · cases h

theorem unlink_eq_ok (h : t.unlink p = .ok u) :
    ∃ a e, t.locate .entry p = .ok a ∧ t.entry? a = some e ∧ e.kind ≠ .dir ∧ u = t.erase a := by
  rw [unlink] at h
  cases hl : t.locate .entry p with
  | error e =>
    rw [hl] at h
    cases h
  | ok a =>
    simp only [hl, bind, Except.bind] at h
    split at h
    · cases h
    · cases h
    · next e hne ha =>
      cases h
      exact ⟨a, e, rfl, ha, fun hk => hne (Entry.kind_eq_dir_iff.1 hk), rfl⟩

theorem createNew_eq_ok (h : t.createNew p = .ok u) :
    ∃ n a, t.locate .fresh p = .ok (n :: a) ∧ t.entry? (n :: a) = none ∧
      u = t.insert n a (.file []) := by
  rw [createNew] at h
  cases hl : t.locate .fresh p with
  | error e =>
    rw [hl] at h
    cases h
  | ok a =>
    simp only [hl, bind, Except.bind] at h
    split at h
    · cases h
    · obtain ⟨n, b, rfl, hn, rfl⟩ := place_eq_ok h
      exact ⟨n, b, rfl, hn, rfl⟩

theorem modifyFile_eq_ok {f : List UInt8 → List UInt8} (h : t.modifyFile p f = .ok u) :
    (∃ n a, t.locate .output p = .ok (n :: a) ∧ t.entry? (n :: a) = none ∧
      u = t.insert n a (.file (f []))) ∨
    ∃ a bytes, t.locate .output p = .ok a ∧ t.entry? a = some (.file bytes) ∧
      u = t.setBytes a (f bytes) := by
  rw [modifyFile] at h
  cases hl : t.locate .output p with
  | error e =>
    rw [hl] at h
    cases h
  | ok a =>
    simp only [hl, bind, Except.bind] at h
    split at h
    · obtain ⟨n, b, rfl, hn, rfl⟩ := place_eq_ok h
      exact Or.inl ⟨n, b, rfl, hn, rfl⟩
    · next bytes ha =>
      cases h
      exact Or.inr ⟨a, bytes, rfl, ha, rfl⟩
    · cases h
    · cases h

theorem extends_mkdir (h : t.mkdir p = .ok u) : t.Extends u := by
  obtain ⟨n, a, -, -, rfl⟩ := mkdir_eq_ok h
  exact extends_insert (by simp [Entry.kind])

theorem extends_createNew (h : t.createNew p = .ok u) : t.Extends u := by
  obtain ⟨n, a, -, -, rfl⟩ := createNew_eq_ok h
  exact extends_insert (by simp [Entry.kind])

theorem extends_modifyFile {f : List UInt8 → List UInt8} (h : t.modifyFile p f = .ok u) :
    t.Extends u := by
  rcases modifyFile_eq_ok h with ⟨n, a, -, -, rfl⟩ | ⟨a, bytes, -, -, rfl⟩
  · exact extends_insert (by simp [Entry.kind])
  · exact extends_setBytes

theorem keepsDirs_unlink (h : t.unlink p = .ok u) : t.KeepsDirs u := by
  obtain ⟨a, e, -, ha, he, rfl⟩ := unlink_eq_ok h
  exact keepsDirs_erase ha he

theorem noNewLinks_unlink (h : t.unlink p = .ok u) : t.NoNewLinks u := by
  obtain ⟨a, e, -, -, -, rfl⟩ := unlink_eq_ok h
  exact noNewLinks_of_removed (t.entry?_erase_eq_none_or a)

theorem noNewLinks_rmdir (h : t.rmdir p = .ok u) : t.NoNewLinks u := by
  obtain ⟨a, -, -, -, rfl⟩ := rmdir_eq_ok h
  exact noNewLinks_of_removed (t.entry?_erase_eq_none_or a)

end Calls

end TreeShell.Tree
