import TreeShell.Proofs.Command.Upshots
import TreeShell.Proofs.Disk.MakeDirs

/-!
# Making several directories

Where there are no links, only a file can keep a directory from being made
(`Tree.verdict`), and making directories leaves the files as they are. So what is said
about each of several directories is decided by the tree before the first one is made,
whatever comes before it, and the directories that are there in the end depend on which
paths are given, not on their order or on how often they are given
(`Tree.MadeDirs.same`). Making them once more changes nothing (`Tree.MadeDirs.same_again`).
-/

namespace TreeShell

namespace Path

/-- The pieces are slashes and names. -/
def Named (p : Path) : Prop :=
  ∀ s ∈ p.pieces, s.text = "" ∨ IsFileName s.text

instance decidableNamed (p : Path) : Decidable p.Named :=
  inferInstanceAs (Decidable (∀ s ∈ p.pieces, _))

/-- The address that the names of the path lead to. -/
def address (p : Path) : Address :=
  (p.pieces.filterMap fun s => if h : IsFileName s.text then some ⟨s.text, h⟩ else none).reverse

/-- The path starts at the root, goes along names only, and is not too long for the
system. -/
structure Ordinary (p : Path) : Prop where
  absolute : p.isAbsolute = true
  named : p.Named
  short : p.text.utf8ByteSize ≤ maxBytes

variable {p q : Path}

theorem Named.names_address (h : p.Named) : Names p.pieces p.address := by
  rw [Names, address, List.reverse_reverse, List.map_filterMap]
  rw [Named] at h
  generalize p.pieces = ps at h
  induction ps with
  | nil => rfl
  | cons s ps ih =>
    obtain ⟨hs, hps⟩ := List.forall_mem_cons.1 h
    rcases hs with hempty | hname
    · have hnot : ¬ IsFileName s.text := fun hname => hname.1 hempty
      rw [List.filter_cons_of_neg (by simpa using hempty),
        List.filterMap_cons_none (by simp [hnot]), ih hps]
    · rw [List.filter_cons_of_pos (by simpa using hname.1),
        List.filterMap_cons_some (b := s) (by simp [hname, FileName.piece]), ih hps]

/-- Putting paths of names together makes a path of names. -/
theorem Named.join (hp : p.Named) (hq : q.Named) : (p.join q).Named := by
  cases habs : q.isAbsolute with
  | true => rwa [join_of_isAbsolute p habs]
  | false =>
    have hstem : p.stem ⊆ p.pieces := by
      rw [stem]
      split
      · exact List.dropLast_subset _
      · exact List.Subset.refl _
    intro s hs
    rw [pieces_join p habs] at hs
    rcases List.mem_append.1 hs with hs | hs
    · exact hp s (hstem hs)
    · exact hq s hs

theorem Ordinary.refusal?_eq_none (h : p.Ordinary) : p.refusal? = none := by
  rw [refusal?_eq_none_iff]
  refine ⟨fun s hs hnul => ?_, h.short, ne_empty_of_isAbsolute h.absolute⟩
  rcases h.named s hs with hempty | hname
  · rw [hempty] at hnul
    cases hnul
  · exact hname.2.2.2.2.1 hnul

end Path

namespace Tree

variable {t u v : Tree} {p : Path} {ps qs : List Path}

/-- What comes of making a directory at the path, by the files that are in the way. -/
def verdict (t : Tree) (p : Path) : Except FsError Unit :=
  match t.obstacle? p.address with
  | none => .ok ()
  | some e => .error (.ofIo p e)

theorem verdict_eq_ok_iff : t.verdict p = .ok () ↔ ¬ t.Blocked p.address := by
  rw [verdict, ← obstacle?_eq_none_iff]
  cases t.obstacle? p.address with
  | none => simp
  | some e => simp

/-- The tree `u` is `t` with directories along the paths that no file is in the way of,
where nothing was. -/
def MadeDirs (ps : List Path) (t u : Tree) : Prop :=
  ∀ b, u.entry? b =
    if t.entry? b = none ∧ ∃ p ∈ ps, ¬ t.Blocked p.address ∧ b <:+ p.address then some .dir
    else t.entry? b

theorem madeDirs_nil (t : Tree) : MadeDirs [] t t := by
  intro b
  simp

theorem madeDirs_singleton_of_blocked (h : t.Blocked p.address) : MadeDirs [p] t t := by
  intro b
  simp [h]

theorem madeDirs_singleton_of_not_blocked (h : ¬ t.Blocked p.address)
    (hadds : AddsDirs p.address t u) : MadeDirs [p] t u := by
  intro b
  rw [hadds b]
  simp [h, and_comm]

namespace MadeDirs

theorem entry?_eq_file_iff (h : MadeDirs ps t u) (b : Address) (bytes : List UInt8) :
    u.entry? b = some (.file bytes) ↔ t.entry? b = some (.file bytes) := by
  rw [h b]
  split
  · next hmade => simp [hmade.1]
  · rfl

/-- No file comes in the way of a directory by making others. -/
theorem obstacle?_eq (h : MadeDirs ps t u) (a : Address) : u.obstacle? a = t.obstacle? a :=
  obstacle?_congr h.entry?_eq_file_iff a

theorem verdict_eq (h : MadeDirs ps t u) (p : Path) : u.verdict p = t.verdict p := by
  rw [verdict, verdict, h.obstacle?_eq]

theorem blocked_iff (h : MadeDirs ps t u) (a : Address) : u.Blocked a ↔ t.Blocked a := by
  rw [← isSome_obstacle?_iff, h.obstacle?_eq, isSome_obstacle?_iff]

theorem linkless (h : MadeDirs ps t u) (hl : t.Linkless) : u.Linkless := by
  intro b target hb
  rw [h b] at hb
  split at hb
  · cases hb
  · exact hl b target hb

/-- What is made first and what is made then is made by making all of it. -/
theorem append (h : MadeDirs ps t u) (h' : MadeDirs qs u v) : MadeDirs (ps ++ qs) t v := by
  intro b
  rw [h' b, h b]
  simp only [h.blocked_iff, List.mem_append, or_and_right, exists_or]
  by_cases hnone : t.entry? b = none
  · by_cases hp : ∃ p ∈ ps, ¬ t.Blocked p.address ∧ b <:+ p.address
    · simp [hnone, hp]
    · simp [hnone, hp]
  · simp [hnone]

/-- What is made depends on which paths are given only. -/
theorem congr (h : MadeDirs ps t u) (hmem : ∀ p, p ∈ ps ↔ p ∈ qs) : MadeDirs qs t u := by
  intro b
  rw [h b]
  simp only [hmem]

theorem same (h : MadeDirs ps t u) (h' : MadeDirs ps t v) : u.Same v :=
  fun b => (h b).trans (h' b).symm

/-- What was made is not made again. -/
theorem same_again (h : MadeDirs ps t u) (h' : MadeDirs ps u v) : v.Same u := by
  intro b
  rw [h' b, if_neg]
  rintro ⟨hnone, p, hp, hfree, hb⟩
  rw [h.blocked_iff] at hfree
  rw [h b] at hnone
  split at hnone
  · cases hnone
  · next hmade => exact hmade ⟨hnone, p, hp, hfree, hb⟩

end MadeDirs

end Tree

namespace Disk

open TreeShell.Tree

variable {h : Host} {p : Path}

/-- What the path is asked about as it stands is at its address. -/
theorem exists_file_of_isFile (hl : h.tree.Linkless) (hp : p.Ordinary)
    (hfile : h.tree.isFile p = true) : ∃ bytes, h.tree.entry? p.address = some (.file bytes) := by
  obtain ⟨a, bytes, hfind⟩ := isFile_iff_find.1 hfile
  have hnames := hp.named.names_address
  have hplain := Path.plain_of_names hp.absolute hnames
  obtain rfl := Path.eq_of_names_of_names (names_of_find hl hplain hfind) hnames
  exact ⟨bytes, (locate_of_find hfind).2⟩

theorem createDirs_of_ordinary (hl : h.tree.Linkless) (hp : p.Ordinary)
    (hfree : ¬ h.tree.Blocked p.address) :
    ∃ u, createDirs p h = .ok () { h with tree := u } ∧ AddsDirs p.address h.tree u := by
  have hnames := hp.named.names_address
  have hr := hp.refusal?_eq_none
  have hfile : h.tree.isFile p ≠ true := by
    intro hfile
    obtain ⟨bytes, hentry⟩ := exists_file_of_isFile hl hp hfile
    exact hfree ⟨_, bytes, List.suffix_rfl, hentry⟩
  rw [createDirs_eq, if_neg hfile, ← climb_unslashed hl hp.absolute hnames hr]
  exact climb_of_not_blocked hl (Path.spells_unslashed hp.absolute hnames)
    (Path.refusal?_unslashed hp.absolute hr) hfree

theorem createDirs_of_obstacle {e : IoError} (hl : h.tree.Linkless) (hp : p.Ordinary)
    (he : h.tree.obstacle? p.address = some e) : createDirs p h = .error (.ofIo p e) h := by
  have hnames := hp.named.names_address
  have hr := hp.refusal?_eq_none
  rw [createDirs_eq]
  split
  · next hfile =>
    obtain ⟨bytes, hentry⟩ := exists_file_of_isFile hl hp hfile
    obtain rfl : IoError.alreadyExists = e :=
      Option.some.inj ((obstacle?_of_file hentry).symm.trans he)
    rfl
  · rw [← climb_unslashed hl hp.absolute hnames hr]
    exact climb_of_obstacle hl (Path.spells_unslashed hp.absolute hnames)
      (Path.refusal?_unslashed hp.absolute hr) he

end Disk

namespace Shell

open TreeShell.Tree

variable {s : Shell} {p : Path}

/-- Whether or not a file is in the way, an attempt to make a directory makes what the
tree lets it make. -/
theorem attempt_createDirs (hl : s.host.tree.Linkless) (hp : p.Ordinary) :
    ∃ u, attempt (Disk.createDirs p) s =
        .ok (s.host.tree.verdict p) { s with host := { s.host with tree := u } } ∧
      MadeDirs [p] s.host.tree u := by
  cases he : s.host.tree.obstacle? p.address with
  | none =>
    have hfree := obstacle?_eq_none_iff.1 he
    obtain ⟨u, hu, hadds⟩ := Disk.createDirs_of_ordinary hl hp hfree
    refine ⟨u, ?_, madeDirs_singleton_of_not_blocked hfree hadds⟩
    rw [attempt_of_ok hu, verdict_eq_ok_iff.2 hfree]
  | some e =>
    have hverdict : s.host.tree.verdict p = .error (.ofIo p e) := by rw [verdict, he]
    refine ⟨s.host.tree, ?_, madeDirs_singleton_of_blocked ?_⟩
    · rw [attempt_of_error (Disk.createDirs_of_obstacle hl hp he), hverdict]
    · exact isSome_obstacle?_iff.1 (Option.isSome_of_mem he)

end Shell

end TreeShell
