import TreeShell.Proofs.Disk.TreeRemoval
import TreeShell.Proofs.Tree.Writing

/-!
# What is done to the entries

What a call does to what is at an address is one of a few deeds: an entry is made
where nothing was, the bytes of a file are replaced or go on, or an entry is removed.
`Tree.ChangesBy may t u` says that nothing but the deeds that `may` allows was done to
any entry of `t`. One change after the other adds up to one by the same deeds, unless
what was removed can be made again (`isPreorder_changesBy`).

No deed turns an entry into one of another kind (`ChangesBy.kind_eq`), so what cannot
become of an entry is read off from the deeds that are not allowed.
-/

namespace TreeShell

/-- What can be done to what is at an address. -/
inductive Deed where
  | makes (kind : Kind)
  | rewrites
  | appends
  | removes (kind : Kind)
deriving DecidableEq

/-- The deed makes the second of the first. -/
inductive Deed.Does : Deed → Option Entry → Option Entry → Prop
  | makes {kind : Kind} (e : Entry) (h : e.kind = kind) : Does (.makes kind) none (some e)
  | rewrites (bytes bytes' : List UInt8) :
      Does .rewrites (some (.file bytes)) (some (.file bytes'))
  | appends (bytes more : List UInt8) :
      Does .appends (some (.file bytes)) (some (.file (bytes ++ more)))
  | removes {kind : Kind} (e : Entry) (h : e.kind = kind) : Does (.removes kind) (some e) none

namespace Deed

variable {d d' : Deed} {x y z : Option Entry}

theorem Does.kind_eq {e f : Entry} (h : d.Does (some e) (some f)) : f.kind = e.kind := by
  cases h with
  | rewrites bytes bytes' => rfl
  | appends bytes more => rfl

/-- Two deeds at one address come to one of them or to nothing, unless the second
makes again what the first has removed. -/
theorem Does.trans (h : d.Does x y) (h' : d'.Does y z)
    (hagain : ∀ kind kind', d = .removes kind → d' ≠ .makes kind') :
    x = z ∨ d.Does x z ∨ d'.Does x z := by
  cases h with
  | makes e hkind =>
    cases h' with
    | rewrites bytes bytes' => exact Or.inr (Or.inl (.makes (.file bytes') hkind))
    | appends bytes more => exact Or.inr (Or.inl (.makes (.file (bytes ++ more)) hkind))
    | removes => exact Or.inl rfl
  | rewrites bytes bytes' =>
    cases h' with
    | rewrites _ bytes'' => exact Or.inr (Or.inl (.rewrites bytes bytes''))
    | appends _ more => exact Or.inr (Or.inl (.rewrites bytes (bytes' ++ more)))
    | removes _ hkind => exact Or.inr (Or.inr (.removes (.file bytes) hkind))
  | appends bytes more =>
    cases h' with
    | rewrites _ bytes' => exact Or.inr (Or.inr (.rewrites bytes bytes'))
    | appends _ more' =>
      rw [List.append_assoc]
      exact Or.inr (Or.inl (.appends bytes (more ++ more')))
    | removes _ hkind => exact Or.inr (Or.inr (.removes (.file bytes) hkind))
  | removes e =>
    cases h' with
    | makes f => exact absurd rfl (hagain _ _ rfl)

end Deed

namespace Tree

/-- Nothing was done to any entry of `t` but what is allowed. If nothing is, `u` is the
very same tree. -/
structure ChangesBy (may : Deed → Prop) (t u : Tree) : Prop where
  entry : ∀ a, t.entry? a = u.entry? a ∨ ∃ d, may d ∧ d.Does (t.entry? a) (u.entry? a)
  quiet : (∀ d, ¬ may d) → t = u

variable {t u v : Tree} {a : Address} {may may' : Deed → Prop}

theorem ChangesBy.refl (t : Tree) : ChangesBy may t t :=
  ⟨fun _ => Or.inl rfl, fun _ => rfl⟩

theorem ChangesBy.mono (h : ChangesBy may t u) (hmay : ∀ d, may d → may' d) :
    ChangesBy may' t u :=
  ⟨fun a => (h.entry a).imp_right fun ⟨d, hd, hdoes⟩ => ⟨d, hmay d hd, hdoes⟩,
    fun hnone => h.quiet fun d hd => hnone d (hmay d hd)⟩

/-- Deeds of which none makes again what another removes add up. -/
theorem isPreorder_changesBy
    (hagain : ∀ kind kind', may (.removes kind) → ¬ may (.makes kind')) :
    IsPreorder Tree (ChangesBy may) where
  refl := ChangesBy.refl
  trans t u v h h' := by
    refine ⟨fun a => ?_, fun hnone => (h.quiet hnone).trans (h'.quiet hnone)⟩
    -- two deeds at one address have to come to one
    rcases h.entry a with hsame | ⟨d, hd, hdoes⟩
    · rw [hsame]
      exact h'.entry a
    · rcases h'.entry a with hsame | ⟨d', hd', hdoes'⟩
      · rw [← hsame]
        exact Or.inr ⟨d, hd, hdoes⟩
      · have hnot (kind kind' : Kind) (hr : d = .removes kind) : d' ≠ .makes kind' := by
          rintro rfl
          exact hagain kind kind' (hr ▸ hd) hd'
        rcases hdoes.trans hdoes' hnot with h | h | h
        · exact Or.inl h
        · exact Or.inr ⟨d, hd, h⟩
        · exact Or.inr ⟨d', hd', h⟩

section Reading

variable {e f : Entry} {bytes bytes' : List UInt8}

/-- What is still there is of the kind it was of. -/
theorem ChangesBy.kind_eq (h : ChangesBy may t u) (he : t.entry? a = some e)
    (hf : u.entry? a = some f) : f.kind = e.kind := by
  have hentry := h.entry a
  rw [he, hf] at hentry
  rcases hentry with hsame | ⟨d, -, hdoes⟩
  · cases hsame
    rfl
  · exact hdoes.kind_eq

theorem ChangesBy.noNewLinks (h : ChangesBy may t u) (hlink : ¬ may (.makes .link)) :
    t.NoNewLinks u := by
  intro a target hu
  have hentry := h.entry a
  rw [hu] at hentry
  rcases hentry with hsame | ⟨d, hd, hdoes⟩
  · exact hsame
  · generalize t.entry? a = x at hdoes
    cases hdoes with
    | makes _ hkind =>
      cases hkind
      exact absurd hd hlink

/-- What nothing removes is still there. -/
theorem ChangesBy.exists_entry (h : ChangesBy may t u) (he : t.entry? a = some e)
    (hkind : ¬ may (.removes e.kind)) : ∃ f, u.entry? a = some f := by
  have hentry := h.entry a
  rw [he] at hentry
  rcases hentry with hsame | ⟨d, hd, hdoes⟩
  · exact ⟨e, hsame.symm⟩
  · generalize u.entry? a = x at hdoes ⊢
    cases hdoes with
    | rewrites bytes bytes' => exact ⟨_, rfl⟩
    | appends bytes more => exact ⟨_, rfl⟩
    | removes _ hremoved => exact absurd (hremoved ▸ hd) hkind

/-- What nothing rewrites can only go on. -/
theorem ChangesBy.isPrefix (h : ChangesBy may t u) (hrewrites : ¬ may .rewrites)
    (ht : t.entry? a = some (.file bytes)) (hu : u.entry? a = some (.file bytes')) :
    bytes <+: bytes' := by
  have hentry := h.entry a
  rw [ht, hu] at hentry
  rcases hentry with hsame | ⟨d, hd, hdoes⟩
  · cases hsame
    exact List.prefix_rfl
  · cases hdoes with
    | rewrites => exact absurd hd hrewrites
    | appends _ more => exact List.prefix_append bytes more

theorem ChangesBy.bytes_eq (h : ChangesBy may t u) (hrewrites : ¬ may .rewrites)
    (happends : ¬ may .appends) (ht : t.entry? a = some (.file bytes))
    (hu : u.entry? a = some (.file bytes')) : bytes' = bytes := by
  have hentry := h.entry a
  rw [ht, hu] at hentry
  rcases hentry with hsame | ⟨d, hd, hdoes⟩
  · cases hsame
    rfl
  · cases hdoes with
    | rewrites => exact absurd hd hrewrites
    | appends => exact absurd hd happends

theorem ChangesBy.adds_dirs (h : ChangesBy may t u) (hmay : ∀ d, may d → d = .makes .dir)
    (a : Address) : u.entry? a = t.entry? a ∨ t.entry? a = none ∧ u.HasDir a := by
  rcases h.entry a with hsame | ⟨d, hd, hdoes⟩
  · exact Or.inl hsame.symm
  · rw [hmay d hd] at hdoes
    rw [HasDir]
    generalize t.entry? a = x at hdoes
    generalize u.entry? a = y at hdoes
    cases hdoes with
    | makes e hkind => exact Or.inr ⟨rfl, congrArg some (Entry.kind_eq_dir_iff.1 hkind)⟩

end Reading

section Calls

variable {p : Path}

theorem changesBy_of_may {d : Deed} (hd : may d)
    (h : ∀ a, t.entry? a = u.entry? a ∨ ∃ d, may d ∧ d.Does (t.entry? a) (u.entry? a)) :
    ChangesBy may t u :=
  ⟨h, fun hnone => absurd hd (hnone d)⟩

theorem changesBy_mkdir (hdir : may (.makes .dir)) (h : t.mkdir p = .ok u) :
    ChangesBy may t u := by
  obtain ⟨n, b, hl, hn, rfl⟩ := mkdir_eq_ok h
  refine changesBy_of_may hdir fun a => ?_
  rw [t.entry?_insert (hasDir_of_locate hl) hn]
  split
  · next ha =>
    rw [ha, hn]
    exact Or.inr ⟨_, hdir, .makes .dir rfl⟩
  · exact Or.inl rfl

theorem changesBy_of_written {bytes : List UInt8} (hfile : may (.makes .file))
    (h : t.Written a bytes u)
    (hbytes : ∀ old, t.entry? a = some (.file old) →
      ∃ d, may d ∧ d.Does (some (.file old)) (some (.file bytes))) : ChangesBy may t u := by
  refine changesBy_of_may hfile fun c => ?_
  rw [h.entry]
  split
  · next hc =>
    right
    rw [hc]
    cases he : t.entry? a with
    | none => exact ⟨_, hfile, .makes (.file bytes) rfl⟩
    | some e =>
      have hkind := h.free e he
      cases e with
      | file old => exact hbytes old he
      | dir => cases hkind
      | link target => cases hkind
  · exact Or.inl rfl

theorem changesBy_createNew (hfile : may (.makes .file)) (h : t.createNew p = .ok u) :
    ChangesBy may t u := by
  obtain ⟨a, -, hnone, hwritten⟩ := exists_written_of_createNew h
  refine changesBy_of_written hfile hwritten fun old hold => ?_
  rw [hnone] at hold
  cases hold

theorem changesBy_modifyFile {f : List UInt8 → List UInt8} (hfile : may (.makes .file))
    (hf : ∀ bytes, ∃ d, may d ∧ d.Does (some (.file bytes)) (some (.file (f bytes))))
    (h : t.modifyFile p f = .ok u) : ChangesBy may t u := by
  obtain ⟨a, -, hwritten⟩ := exists_written_of_modifyFile h
  refine changesBy_of_written hfile hwritten fun old hold => ?_
  rw [bytesAt, hold]
  exact hf old

theorem changesBy_unlink (hkinds : ∀ kind, kind ≠ .dir → may (.removes kind))
    (h : t.unlink p = .ok u) : ChangesBy may t u := by
  obtain ⟨b, e, -, he, hkind, rfl⟩ := unlink_eq_ok h
  refine changesBy_of_may (hkinds e.kind hkind) fun a => ?_
  by_cases hab : b = a
  · have hgone : entry? (t.erase b) b = none := by
      have hne : b ≠ [] := by
        rintro rfl
        cases he
        exact hkind rfl
      rw [entry?_erase _ b hne, if_pos List.suffix_rfl]
    rw [← hab, he, hgone]
    exact Or.inr ⟨_, hkinds e.kind hkind, .removes e rfl⟩
  · exact Or.inl (entry?_erase_of_ne_dir he hkind hab).symm

theorem changesBy_rmdir (hdir : may (.removes .dir)) (h : t.rmdir p = .ok u) :
    ChangesBy may t u := by
  obtain ⟨b, -, hb, hempty, rfl⟩ := rmdir_eq_ok h
  refine changesBy_of_may hdir fun a => ?_
  by_cases hroot : a = []
  · exact Or.inl (by rw [hroot]; rfl)
  · rw [entry?_erase _ b hroot]
    split
    · next hba =>
      by_cases hab : b = a
      · rw [← hab, hb]
        exact Or.inr ⟨_, hdir, .removes .dir rfl⟩
      · exact Or.inl (hempty.entry?_eq_none hba hab)
    · exact Or.inl rfl

theorem changesBy_clear (hkinds : ∀ kind, may (.removes kind)) (t : Tree) (b : Address) :
    ChangesBy may t (t.clear b) := by
  refine changesBy_of_may (hkinds .dir) fun a => ?_
  rw [entry?_clear]
  split
  · cases t.entry? a with
    | none => exact Or.inl rfl
    | some e => exact Or.inr ⟨_, hkinds e.kind, .removes e rfl⟩
  · exact Or.inl rfl

end Calls

end Tree

end TreeShell
