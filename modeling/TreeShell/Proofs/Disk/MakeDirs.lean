import TreeShell.Proofs.Disk.Calls
import TreeShell.Proofs.Disk.Frame
import TreeShell.Proofs.Path.Parents
import TreeShell.Proofs.Tree.Plain
import TreeShell.Proofs.Tree.Writing

/-!
# Making a directory with those above it

Where there are no links, and for a path that spells an address, making a
directory succeeds exactly when no file stands in the way. Then it adds the
directories that are missing at the address and above it, and nothing else
(`createDirs_of_not_blocked`); otherwise nothing changes
(`createDirs_of_blocked`), and which file it is decides what the system says
(`Tree.obstacle?`). A plain path may end in slashes, and the system may
refuse it; if the call succeeds it has done the same (`createDirs_eq_ok`).
-/

namespace TreeShell

namespace Tree

/-- The tree `u` is `t` with directories at `b` and above it where nothing
was. -/
def AddsDirs (b : Address) (t u : Tree) : Prop :=
  ∀ c, u.entry? c = if c <:+ b ∧ t.entry? c = none then some .dir else t.entry? c

variable {t u : Tree} {a b : Address} {n : FileName} {p : Path}

theorem addsDirs_refl (h : t.HasDir b) : AddsDirs b t t := by
  intro c
  rw [if_neg]
  rintro ⟨hc, hnone⟩
  exact (t.hasDir_of_hasDir_suffix h hc).ne_none hnone

theorem AddsDirs.linkless (h : AddsDirs b t u) (hl : t.Linkless) : u.Linkless := by
  intro c target hc
  rw [h c] at hc
  split at hc
  · cases hc
  · exact hl c target hc

theorem AddsDirs.hasDir (h : AddsDirs b t u) (hl : t.Linkless) (hb : ¬ t.Blocked b)
    {c : Address} (hc : c <:+ b) : u.HasDir c := by
  rw [HasDir, h c]
  split
  · rfl
  · next hnone =>
    cases he : t.entry? c with
    | none => exact absurd ⟨hc, he⟩ hnone
    | some e => exact (hasDir_of_not_blocked hl (fun hf => hb (hf.mono hc)) he).symm ▸ he.symm

theorem AddsDirs.entry?_cons (h : AddsDirs a t u) (n : FileName) :
    u.entry? (n :: a) = t.entry? (n :: a) := by
  rw [h (n :: a), if_neg]
  rintro ⟨hsuffix, -⟩
  exact absurd hsuffix.length_le (by simp)

theorem AddsDirs.insert (h : AddsDirs a t u) (ha : u.HasDir a) (hn : t.entry? (n :: a) = none) :
    AddsDirs (n :: a) t (u.insert n a .dir) := by
  intro c
  rw [u.entry?_insert ha ((h.entry?_cons n).trans hn)]
  by_cases hc : c = n :: a
  · rw [if_pos hc, hc, if_pos ⟨List.suffix_rfl, hn⟩]
  · rw [if_neg hc, h c]
    simp only [List.suffix_cons_iff, hc, false_or]

/-- Below a directory only the last one can be missing. -/
theorem AddsDirs.entry?_eq (h : AddsDirs (n :: a) t u) (hl : t.Linkless)
    (hb : ¬ t.Blocked (n :: a)) (ha : t.HasDir a) (c : Address) :
    u.entry? c = if c = n :: a then some .dir else t.entry? c := by
  by_cases hself : c = n :: a
  · rw [if_pos hself, hself]
    exact h.hasDir hl hb List.suffix_rfl
  · rw [if_neg hself, h c, if_neg]
    rintro ⟨hsuffix, hnone⟩
    rcases List.suffix_cons_iff.1 hsuffix with hsuffix | hsuffix
    · exact hself hsuffix
    · exact (t.hasDir_of_hasDir_suffix ha hsuffix).ne_none hnone

/-- Why no directory can be made at the address, if there is a file at it or above it. -/
def obstacle? (t : Tree) : Address → Option IoError
  | [] => none
  | n :: a =>
    if (t.obstacle? a).isSome then some .notADirectory
    else
      match t.entry? (n :: a) with
      | some (.file _) => some .alreadyExists
      | _ => none

theorem blocked_cons_iff : t.Blocked (n :: a) ↔
    t.Blocked a ∨ ∃ bytes, t.entry? (n :: a) = some (.file bytes) := by
  constructor
  · rintro ⟨c, bytes, hc, hfile⟩
    rcases List.suffix_cons_iff.1 hc with rfl | hc
    · exact Or.inr ⟨bytes, hfile⟩
    · exact Or.inl ⟨c, bytes, hc, hfile⟩
  · rintro (hb | ⟨bytes, hfile⟩)
    · exact hb.mono (List.suffix_cons n a)
    · exact ⟨n :: a, bytes, List.suffix_rfl, hfile⟩

theorem isSome_obstacle?_iff : (t.obstacle? a).isSome = true ↔ t.Blocked a := by
  induction a with
  | nil => simp [obstacle?, not_blocked_of_hasDir t.hasDir_nil]
  | cons n a ih =>
    rw [obstacle?, blocked_cons_iff, ← ih]
    split
    · next habove => simp [habove]
    · next habove =>
      split
      · next bytes hfile => simp [hfile]
      · next hfile => simpa [habove] using hfile

theorem obstacle?_eq_none_iff : t.obstacle? a = none ↔ ¬ t.Blocked a := by
  rw [← isSome_obstacle?_iff, Option.not_isSome_iff_eq_none]

instance decidableBlocked (t : Tree) (a : Address) : Decidable (t.Blocked a) :=
  decidable_of_iff _ isSome_obstacle?_iff

theorem obstacle?_cons_eq_some_iff {e : IoError} : t.obstacle? (n :: a) = some e ↔
    (t.Blocked a ∧ e = .notADirectory) ∨
      (∃ bytes, t.entry? (n :: a) = some (.file bytes)) ∧ e = .alreadyExists := by
  rw [obstacle?, ← isSome_obstacle?_iff]
  split
  · next habove =>
    have hnot : ¬ ∃ bytes, t.entry? (n :: a) = some (.file bytes) := fun ⟨_, hfile⟩ =>
      not_blocked_of_hasDir (t.hasDir_of_entry? hfile) (isSome_obstacle?_iff.1 habove)
    rw [and_iff_right habove, or_iff_left fun hfile => hnot hfile.1, Option.some.injEq, eq_comm]
  · next habove =>
    split
    · next bytes hfile => simp [habove, hfile, eq_comm]
    · next hfile => simpa [habove] using fun bytes hbytes => absurd hbytes (hfile bytes)

theorem obstacle?_of_file {bytes : List UInt8} (h : t.entry? a = some (.file bytes)) :
    t.obstacle? a = some .alreadyExists := by
  cases a with
  | nil => cases h
  | cons n a => exact obstacle?_cons_eq_some_iff.2 (Or.inr ⟨⟨bytes, h⟩, rfl⟩)

/-- Only the files of the tree are in the way. -/
theorem obstacle?_congr (h : ∀ c bytes, u.entry? c = some (.file bytes) ↔
    t.entry? c = some (.file bytes)) (a : Address) : u.obstacle? a = t.obstacle? a := by
  cases a with
  | nil => rfl
  | cons n a =>
    apply Option.ext
    intro e
    simp only [obstacle?_cons_eq_some_iff, Blocked, h]

/-- What the call for one directory says. -/
theorem mkdir_of_locate (hp : t.locate .name p = .ok (n :: a)) : t.mkdir p =
    if (t.entry? (n :: a)).isSome then .error .alreadyExists else .ok (t.insert n a .dir) := by
  rw [mkdir, hp]
  rfl

theorem mkdir_of_hasDir (hl : t.Linkless) (hs : p.Spells (n :: a)) (hr : p.refusal? = none)
    (ha : t.HasDir a) : t.mkdir p =
      if (t.entry? (n :: a)).isSome then .error .alreadyExists else .ok (t.insert n a .dir) :=
  mkdir_of_locate (locate_of_hasDir .name hl hs hr ha)

theorem mkdir_of_blocked (hl : t.Linkless) (hs : p.Spells (n :: a)) (hr : p.refusal? = none)
    (hb : t.Blocked a) : t.mkdir p = .error .notADirectory := by
  rw [mkdir, locate_of_blocked .name hl hs hr hb]
  rfl

theorem mkdir_of_missing (hl : t.Linkless) (hs : p.Spells (n :: a)) (hr : p.refusal? = none)
    (hb : ¬ t.Blocked a) (ha : ¬ t.HasDir a) : t.mkdir p = .error .notFound := by
  rw [mkdir, locate_of_missing .name hl hs hr hb ha]
  rfl

/-- Nothing is made where a path leads to something. -/
theorem mkdir_of_find {e : Entry} (hfind : t.find p = .ok (a, e)) :
    t.mkdir p = .error .alreadyExists := by
  obtain ⟨b, hl, hb⟩ : ∃ b, t.locate .name p = .ok b ∧ (t.entry? b).isSome = true := by
    rcases locate_name_of_find hfind with hl | ⟨b, target, hl, hlink⟩
    · exact ⟨a, hl, by rw [(locate_of_find hfind).2]; rfl⟩
    · exact ⟨b, hl, by rw [hlink]; rfl⟩
  cases b with
  | nil =>
    rw [mkdir, hl]
    rfl
  | cons n b => rw [mkdir_of_locate hl, if_pos hb]

end Tree

namespace Disk

open Host (Within)
open TreeShell.Path (Names Plain)
open TreeShell.Tree

variable {h : Host} {path p : Path} {a b : Address} {n : FileName}

theorem settle_of_isDir {step : Path} (hd : h.tree.isDir step = true) (e : IoError) :
    settle path step e h = .ok () h := by
  change (if h.tree.isDir step then pure () else throw (.ofIo path e) : Disk Unit) h = _
  rw [if_pos hd]
  rfl

theorem settle_of_not_isDir {step : Path} (hd : h.tree.isDir step ≠ true) (e : IoError) :
    settle path step e h = .error (.ofIo path e) h := by
  change (if h.tree.isDir step then pure () else throw (.ofIo path e) : Disk Unit) h = _
  rw [if_neg hd]
  rfl

section Climb

variable {step : Path} {above : List Path}

theorem climb_of_ok {u : Tree} (hne : step ≠ Path.empty) (hm : h.tree.mkdir step = .ok u) :
    climb path (step :: above) h = .ok () { h with tree := u } := by
  rw [climb, if_neg (by simpa [Path.isEmpty] using hne), tree_bind, hm]
  rfl

theorem climb_of_error {e : IoError} (hne : step ≠ Path.empty)
    (hm : h.tree.mkdir step = .error e) (he : e.kind ≠ .notFound) :
    climb path (step :: above) h = settle path step e h := by
  rw [climb, if_neg (by simpa [Path.isEmpty] using hne), tree_bind, hm]
  simp only [if_neg he]

/-- A directory that is there need not be made. -/
theorem climb_of_isDir (hd : h.tree.isDir step = true) :
    climb path (step :: above) h = .ok () h := by
  obtain ⟨a, hfind⟩ := isDir_iff_find.1 hd
  have hne := ((Path.refusal?_eq_none_iff step).1 (refusal?_of_find hfind)).2.2
  rw [climb_of_error hne (mkdir_of_find hfind) (by decide), settle_of_isDir hd]

/-- Where the directory above is missing, it is made first. -/
theorem climb_of_missing {u v : Tree} (hne : step ≠ Path.empty)
    (hm : h.tree.mkdir step = .error .notFound)
    (habove : climb path above h = .ok () { h with tree := u }) (hu : u.mkdir step = .ok v) :
    climb path (step :: above) h = .ok () { h with tree := v } := by
  rw [climb, if_neg (by simpa [Path.isEmpty] using hne), tree_bind, hm]
  simp only [IoError.kind, if_pos]
  rw [bind_of_ok habove, tree_bind]
  simp only [hu]
  rfl

/-- Where nothing is in the way, climbing goes up to an existing directory and
makes all those below it on the way back. -/
theorem climb_of_not_blocked (hl : h.tree.Linkless) (hs : p.Spells b) (hr : p.refusal? = none)
    (hb : ¬ h.tree.Blocked b) :
    ∃ u, climb path p.ancestors h = .ok () { h with tree := u } ∧ AddsDirs b h.tree u := by
  -- the induction is on the address, since the path above spells the address above
  induction b generalizing p with
  | nil =>
    have hd : h.tree.isDir p = true := (isDir_iff_hasDir hl hs hr).2 h.tree.hasDir_nil
    refine ⟨h.tree, ?_, addsDirs_refl h.tree.hasDir_nil⟩
    rw [Path.ancestors, climb_of_isDir hd]
  | cons n a ih =>
    have hne := Path.ne_empty_of_isAbsolute hs.absolute
    have hba : ¬ h.tree.Blocked a := fun hf => hb (hf.mono (List.suffix_cons n a))
    by_cases ha : h.tree.HasDir a
    · have hmkdir := mkdir_of_hasDir hl hs hr ha
      cases hn : h.tree.entry? (n :: a) with
      | none =>
        rw [hn] at hmkdir
        exact ⟨_, climb_of_ok hne hmkdir, (addsDirs_refl ha).insert ha hn⟩
      | some e =>
        have hdir := hasDir_of_not_blocked hl hb hn
        refine ⟨h.tree, ?_, addsDirs_refl hdir⟩
        rw [Path.ancestors, climb_of_isDir ((isDir_iff_hasDir hl hs hr).2 hdir)]
    · -- nothing can be made here before the directory above is there
      obtain ⟨q, hq, hqs⟩ := hs.exists_parent?
      have habove := Path.above_eq_cons hq
      have hqr : q.refusal? = none :=
        Path.refusal?_of_mem_above hs.absolute hr (habove ▸ List.mem_cons_self)
      obtain ⟨u, hu, hadds⟩ := ih hqs hqr hba
      have hn : h.tree.entry? (n :: a) = none := by
        cases hn : h.tree.entry? (n :: a) with
        | none => rfl
        | some e => exact absurd (h.tree.hasDir_of_entry? hn) ha
      have hua : u.HasDir a := hadds.hasDir hl hba List.suffix_rfl
      have hmkdir := mkdir_of_hasDir (hadds.linkless hl) hs hr hua
      rw [hadds.entry?_cons n, hn] at hmkdir
      refine ⟨u.insert n a .dir, ?_, hadds.insert hua hn⟩
      rw [Path.ancestors, habove]
      exact climb_of_missing hne (mkdir_of_missing hl hs hr hba ha) hu hmkdir

/-- Where a file is in the way nothing is made. -/
theorem climb_of_obstacle {e : IoError} (hl : h.tree.Linkless) (hs : p.Spells b)
    (hr : p.refusal? = none) (he : h.tree.obstacle? b = some e) :
    climb path p.ancestors h = .error (.ofIo path e) h := by
  have hb : h.tree.Blocked b := isSome_obstacle?_iff.1 (Option.isSome_of_mem he)
  have hd : h.tree.isDir p ≠ true := fun hd =>
    not_blocked_of_hasDir ((isDir_iff_hasDir hl hs hr).1 hd) hb
  have hne := Path.ne_empty_of_isAbsolute hs.absolute
  cases b with
  | nil => cases he
  | cons n a =>
    have herror : h.tree.mkdir p = .error e ∧ e.kind ≠ .notFound := by
      rcases obstacle?_cons_eq_some_iff.1 he with ⟨ha, rfl⟩ | ⟨⟨bytes, hfile⟩, rfl⟩
      · exact ⟨mkdir_of_blocked hl hs hr ha, by decide⟩
      · have hmkdir := mkdir_of_hasDir hl hs hr (h.tree.hasDir_of_entry? hfile)
        rw [hfile] at hmkdir
        exact ⟨hmkdir, by decide⟩
    rw [Path.ancestors, climb_of_error hne herror.1 herror.2, settle_of_not_isDir hd]

theorem climb_of_blocked (hl : h.tree.Linkless) (hs : p.Spells b) (hr : p.refusal? = none)
    (hb : h.tree.Blocked b) : ∃ e, climb path p.ancestors h = .error e h := by
  obtain ⟨e, he⟩ := Option.isSome_iff_exists.1 (isSome_obstacle?_iff.2 hb)
  exact ⟨_, climb_of_obstacle hl hs hr he⟩

end Climb

theorem createDirs_eq (path : Path) (h : Host) : createDirs path h =
    (if h.tree.isFile path then throw (.alreadyExists path) else climb path path.ancestors) h :=
  rfl

/-- Where one call makes the directory, nothing else is tried. -/
theorem createDirs_of_mkdir {u : Tree} (hm : h.tree.mkdir p = .ok u) :
    createDirs p h = .ok () { h with tree := u } := by
  obtain ⟨n, b, hlocate, -⟩ := mkdir_eq_ok hm
  have hne := ((Path.refusal?_eq_none_iff p).1 (refusal?_of_locate hlocate)).2.2
  have hfile : h.tree.isFile p ≠ true := by
    intro hfile
    obtain ⟨a, bytes, hfind⟩ := isFile_iff_find.1 hfile
    rw [mkdir_of_find hfind] at hm
    cases hm
  rw [createDirs_eq, if_neg hfile]
  exact climb_of_ok hne hm

/-- A directory is made where nothing is and the directory above it is there. -/
theorem createDirs_of_locate (hp : ∀ ending, h.tree.locate ending p = .ok (n :: b))
    (hn : h.tree.entry? (n :: b) = none) :
    ∃ u, createDirs p h = .ok () { h with tree := u } ∧
      ∀ d, u.entry? d = if d = n :: b then some .dir else h.tree.entry? d := by
  have hmkdir : h.tree.mkdir p = .ok (h.tree.insert n b .dir) := by
    rw [mkdir_of_locate (hp .name), hn, Option.isSome_none, if_neg Bool.false_ne_true]
  exact ⟨_, createDirs_of_mkdir hmkdir,
    h.tree.entry?_insert (hasDir_of_locate (hp .name)) hn .dir⟩

theorem createDirs_of_not_blocked (hl : h.tree.Linkless) (hs : p.Spells b)
    (hr : p.refusal? = none) (hb : ¬ h.tree.Blocked b) :
    ∃ u, createDirs p h = .ok () { h with tree := u } ∧ AddsDirs b h.tree u := by
  have hfile : h.tree.isFile p ≠ true := by
    intro hfile
    obtain ⟨bytes, hbytes⟩ := (isFile_iff hl hs hr).1 hfile
    exact hb ⟨b, bytes, List.suffix_rfl, hbytes⟩
  rw [createDirs_eq, if_neg hfile]
  exact climb_of_not_blocked hl hs hr hb

theorem createDirs_of_blocked (hl : h.tree.Linkless) (hs : p.Spells b) (hr : p.refusal? = none)
    (hb : h.tree.Blocked b) : ∃ e, createDirs p h = .error e h := by
  rw [createDirs_eq]
  split
  · exact ⟨_, rfl⟩
  · exact climb_of_blocked hl hs hr hb

section Succeeded

variable {step : Path} {above : List Path} {h' : Host}

/-- Climbing that succeeds has made the first directory in some tree, or has found
it there. -/
theorem climb_eq_ok (hne : step ≠ Path.empty) (hok : climb path (step :: above) h = .ok () h') :
    ∃ t : Tree, h.tree.NoNewLinks t ∧ ((∃ u, t.mkdir step = .ok u) ∨ t.isDir step = true) := by
  have hsettle {e : IoError} {h₁ : Host} (hok : settle path step e h₁ = .ok () h') :
      h₁.tree.isDir step = true := by
    by_contra hd
    rw [settle_of_not_isDir hd] at hok
    cases hok
  rw [climb, if_neg (by simpa [Path.isEmpty] using hne), tree_bind] at hok
  cases hm : h.tree.mkdir step with
  | ok u => exact ⟨h.tree, NoNewLinks.refl _, Or.inl ⟨u, hm⟩⟩
  | error e =>
    rw [hm] at hok
    simp only at hok
    split at hok
    · obtain ⟨_, h₁, habove, hok⟩ := bind_eq_ok.1 hok
      have hmoves : Moves (Within Extends) (climb path above) :=
        moves_climb (fun _ _ _ => extends_mkdir) path above
      have hwithin := hmoves h
      rw [habove] at hwithin
      refine ⟨h₁.tree, hwithin.tree.links, ?_⟩
      rw [tree_bind] at hok
      cases hm₁ : h₁.tree.mkdir step with
      | ok u => exact Or.inl ⟨u, rfl⟩
      | error e =>
        rw [hm₁] at hok
        exact Or.inr (hsettle hok)
    · exact ⟨h.tree, NoNewLinks.refl _, Or.inr (hsettle hok)⟩

/-- Slashes at the end are no matter to climbing. -/
theorem climb_unslashed (hl : h.tree.Linkless) (habs : p.isAbsolute = true)
    (ha : Names p.pieces a) (hr : p.refusal? = none) :
    climb path p.unslashed.ancestors h = climb path p.ancestors h := by
  have hmkdir (t : Tree) := mkdir_unslashed t habs hr
  have hsettle (e : IoError) {h₁ : Host} (hl : h₁.tree.Linkless) :
      settle path p.unslashed e h₁ = settle path p e h₁ := by
    change (if h₁.tree.isDir p.unslashed then pure () else throw _ : Disk Unit) h₁ = _
    rw [isDir_unslashed hl habs ha hr]
    rfl
  have hne := Path.ne_empty_of_isAbsolute habs
  have hne' := Path.ne_empty_of_isAbsolute (Path.isAbsolute_unslashed habs)
  rw [Path.ancestors, Path.ancestors, Path.above_unslashed habs, climb, climb,
    if_neg (by simpa [Path.isEmpty] using hne'), if_neg (by simpa [Path.isEmpty] using hne),
    tree_bind, tree_bind, hmkdir]
  cases h.tree.mkdir p with
  | ok u => rfl
  | error e =>
    simp only
    split
    · have hmoves : Moves (Within Extends) (climb path p.above) :=
        moves_climb (fun _ _ _ => extends_mkdir) path p.above
      have hwithin := hmoves h
      cases hc : climb path p.above h with
      | error e h₁ => rw [bind_of_error hc, bind_of_error hc]
      | ok _ h₁ =>
        rw [hc] at hwithin
        rw [bind_of_ok hc, bind_of_ok hc, tree_bind, tree_bind, hmkdir]
        cases h₁.tree.mkdir p with
        | ok u => rfl
        | error e => exact hsettle e (hwithin.tree.links.linkless hl)
    · exact hsettle e hl

/-- What a call that made a directory says about the path and has done. -/
theorem createDirs_eq_ok (hl : h.tree.Linkless) (hp : p.Plain)
    (hok : createDirs p h = .ok () h') :
    ∃ a u, Names p.pieces a ∧ p.refusal? = none ∧ ¬ h.tree.Blocked a ∧ AddsDirs a h.tree u ∧
      h' = { h with tree := u } := by
  rw [createDirs_eq] at hok
  split at hok
  · cases hok
  · obtain ⟨t, hlinks, hmade⟩ := climb_eq_ok (Path.ne_empty_of_isAbsolute hp.absolute) hok
    have ht := hlinks.linkless hl
    obtain ⟨a, hr, ha⟩ : ∃ a, p.refusal? = none ∧ Names p.pieces a := by
      rcases hmade with ⟨u, hu⟩ | hd
      · obtain ⟨n, a, hlocate, -⟩ := mkdir_eq_ok hu
        exact ⟨_, refusal?_of_locate hlocate, names_of_locate ht hp hlocate⟩
      · obtain ⟨a, hfind⟩ := isDir_iff_find.1 hd
        exact ⟨a, refusal?_of_find hfind, names_of_find ht hp hfind⟩
    have hspells := Path.spells_unslashed hp.absolute ha
    have hr' := Path.refusal?_unslashed hp.absolute hr
    rw [← climb_unslashed hl hp.absolute ha hr] at hok
    by_cases hb : h.tree.Blocked a
    · have hblocked : ∃ e, climb p p.unslashed.ancestors h = .error e h :=
        climb_of_blocked hl hspells hr' hb
      obtain ⟨e, herror⟩ := hblocked
      rw [herror] at hok
      cases hok
    · have hfree : ∃ u, climb p p.unslashed.ancestors h = .ok () { h with tree := u } ∧
          AddsDirs a h.tree u := climb_of_not_blocked hl hspells hr' hb
      obtain ⟨u, hu, hadds⟩ := hfree
      rw [hu] at hok
      cases hok
      exact ⟨a, u, ha, hr, hb, hadds, rfl⟩

end Succeeded

end Disk

end TreeShell
