import TreeShell.Proofs.Disk.Copy
import TreeShell.Proofs.Tree.Endings
import TreeShell.Proofs.Tree.Writing

/-!
# Copying one file

A file is copied over a file that is emptied first, so a copy must not go to the file
itself. Whatever links lie between the two paths, this is seen if their canonical paths
can be made out, and then nothing happens. Otherwise the file is emptied, and the copy
succeeds (`Tree.Overlooked`). In all other cases a file that was copied can be read under
its own path and under the path of the copy, and its own bytes are not touched
(`copy_file_reads_back`). A copy that fails changes nothing.

A short path can lead through a link to a file whose canonical path is too long to be
made out, and such a file is always emptied (`exists_emptied_of_long`). A path that is too
long itself can have its canonical path made out. So a file can be copied onto itself
under a name that it cannot be read by. Both happens in `copied_onto_itself_at_limits`.
-/

namespace TreeShell

namespace Tree

variable {t : Tree} {a : Address} {p q source target : Path} {bytes : List UInt8}

/-- The target leads to the file at `a` as the source does, but for one of the two this
cannot be made out. -/
structure Overlooked (t : Tree) (source target : Path) (a : Address) : Prop where
  leadsTo : t.LeadsTo target a
  untraceable : ¬ (t.Traceable source ∧ t.Traceable target)

/-- That the target is the source itself is seen or overlooked. -/
theorem sameEntry_or_overlooked (hsource : t.LeadsTo source a) (htarget : t.LeadsTo target a) :
    t.sameEntry source target = true ∨ t.Overlooked source target a := by
  by_cases h : t.Traceable source ∧ t.Traceable target
  · exact Or.inl (sameEntry_iff.2 ⟨⟨a, hsource, htarget⟩, h⟩)
  · exact Or.inr ⟨htarget, h⟩

theorem Overlooked.sameEntry_eq_false (h : t.Overlooked source target a) :
    t.sameEntry source target = false := by
  rw [Bool.eq_false_iff]
  exact fun hsame => h.untraceable (sameEntry_iff.1 hsame).2

/-- A file with a canonical path that is too long is overlooked by every path. -/
theorem overlooked_of_long (htarget : t.LeadsTo target a) (hfile : t.entry? a = some (.file bytes))
    (hlong : Path.maxBytes < a.path.text.utf8ByteSize) : t.Overlooked source target a :=
  ⟨htarget, fun h => Nat.not_le.2 hlong (h.2.size_le htarget hfile)⟩

end Tree

namespace Disk

open TreeShell.Tree

variable {h h' : Host} {source target : Path} {a : Address} {bytes : List UInt8} {e : FsError}

theorem copy_eq_copyFile (hfind : h.tree.find source = .ok (a, .file bytes)) (target : Path) :
    copy source target h = copyFile source target h := by
  rw [copy, tree_bind, bind_of_ok (liftCall_of_ok hfind)]

theorem copyFile_of_sameEntry (hsame : h.tree.sameEntry source target = true) :
    ∃ message, copyFile source target h = .ok () (h.note .debug message) := by
  rw [copyFile, tree_bind, if_pos hsame]
  exact ⟨_, rfl⟩

theorem copyFile_of_apart (hfind : h.tree.find source = .ok (a, .file bytes))
    (hapart : h.tree.sameEntry source target = false) :
    copyFile source target h =
      commit target (fun t => t.modifyFile target fun _ => bytesLeft h.tree a target bytes) h := by
  rw [copyFile_eq hapart, bind_of_ok (liftCall_of_ok hfind)]

/-- What is opened to be written is what the target leads to. -/
theorem locate_output_iff (hfile : h.tree.entry? a = some (.file bytes))
    (hsize : target.text.utf8ByteSize ≤ Path.maxBytes) :
    h.tree.locate .output target = .ok a ↔ h.tree.LeadsTo target a := by
  constructor
  · intro hlocate
    exact leadsTo_of_find (find_of_locate (locate_target_of_output hlocate) hfile)
  · intro hleads
    exact locate_output_of_find (hleads.find hfile hsize)

theorem tree_of_copyFile_eq_error (hfind : h.tree.find source = .ok (a, .file bytes))
    (herror : copyFile source target h = .error e h') : h'.tree = h.tree := by
  cases hsame : h.tree.sameEntry source target with
  | true =>
    obtain ⟨message, hok⟩ := copyFile_of_sameEntry hsame
    rw [hok] at herror
    cases herror
  | false =>
    rw [copyFile_of_apart hfind hsame] at herror
    cases hm : h.tree.modifyFile target fun _ => bytesLeft h.tree a target bytes with
    | ok u =>
      rw [commit_of_ok hm] at herror
      cases herror
    | error e' =>
      rw [commit_of_error hm] at herror
      cases herror
      rfl

/-- A copy of a file that succeeded leaves the tree as it is, if both paths are seen to
lead to the file; it has emptied the file, if this was overlooked; and otherwise it has
written another file. -/
theorem copyFile_cases (hfind : h.tree.find source = .ok (a, .file bytes))
    (hok : copyFile source target h = .ok () h') :
    h.tree.LeadsTo target a ∧ ¬ h.tree.Overlooked source target a ∧ h'.tree = h.tree ∨
      h.tree.Overlooked source target a ∧ h.tree.locate .output target = .ok a ∧
        h.tree.Written a [] h'.tree ∨
      ¬ h.tree.LeadsTo target a ∧
        ∃ b, b ≠ a ∧ h.tree.locate .output target = .ok b ∧ h.tree.Written b bytes h'.tree := by
  have hsource := leadsTo_of_find hfind
  have hfile := (locate_of_find hfind).2
  cases hsame : h.tree.sameEntry source target with
  | true =>
    obtain ⟨message, hnote⟩ := copyFile_of_sameEntry hsame
    rw [hnote] at hok
    cases hok
    obtain ⟨⟨b, hb, htarget⟩, htraceable⟩ := sameEntry_iff.1 hsame
    obtain rfl := hb.unique hsource
    exact Or.inl ⟨htarget, fun hover => hover.untraceable htraceable, rfl⟩
  | false =>
    rw [copyFile_of_apart hfind hsame] at hok
    obtain ⟨u, hm, rfl⟩ := commit_eq_ok hok
    obtain ⟨b, hlocate, hwritten⟩ := exists_written_of_modifyFile hm
    have hsize := ((Path.refusal?_eq_none_iff target).1 (refusal?_of_locate hlocate)).2.1
    by_cases hb : b = a
    · subst hb
      have htarget := (locate_output_iff hfile hsize).1 hlocate
      have hover := (sameEntry_or_overlooked hsource htarget).resolve_left (by simp [hsame])
      have hempty : bytesLeft h.tree b target bytes = [] := by simp [bytesLeft, hlocate]
      rw [hempty] at hwritten
      exact Or.inr (Or.inl ⟨hover, hlocate, hwritten⟩)
    · have hother : bytesLeft h.tree a target bytes = bytes :=
        bytesLeft_of_ne fun c hc => Except.ok.inj (hlocate.symm.trans hc) ▸ hb
      rw [hother] at hwritten
      refine Or.inr (Or.inr ⟨fun htarget => hb ?_, b, hb, hlocate, hwritten⟩)
      exact Except.ok.inj (hlocate.symm.trans ((locate_output_iff hfile hsize).2 htarget))

/-- A copy of a file to itself succeeds if that is overlooked, and has emptied the file. -/
theorem exists_copyFile_of_overlooked (hfind : h.tree.find source = .ok (a, .file bytes))
    (hover : h.tree.Overlooked source target a)
    (hsize : target.text.utf8ByteSize ≤ Path.maxBytes) :
    ∃ h', copyFile source target h = .ok () h' ∧ h.tree.Written a [] h'.tree ∧
      requireFile target h' = .ok [] h' := by
  have hfile := (locate_of_find hfind).2
  obtain ⟨u, hu, -⟩ := modifyFile_of_locate ((locate_output_iff hfile hsize).2 hover.leadsTo)
    (free_of_file hfile) fun _ => bytesLeft h.tree a target bytes
  have hok := (copyFile_of_apart hfind hover.sameEntry_eq_false).trans (commit_of_ok hu)
  rcases copyFile_cases hfind hok with ⟨-, hseen, -⟩ | ⟨-, hlocate, hwritten⟩ | ⟨hother, -⟩
  · exact absurd hover hseen
  · exact ⟨_, hok, hwritten, requireFile_of_find (hwritten.find_of_locate_output hlocate)⟩
  · exact absurd hover.leadsTo hother

/-- A copy of a file that succeeds leaves the file to be read by its own path and,
unless it is too long to be read at all, by the path it was copied to. One other
file may have been made or have changed, and none if both paths led to the file. The
exception is a file that is copied to itself where this cannot be made out: the copy
succeeds, and the file is empty then. A copy that fails leaves the tree as it is. -/
theorem copy_file_reads_back (hfind : h.tree.find source = .ok (a, .file bytes))
    (target : Path) :
    (∀ h', copy source target h = .ok () h' → ¬ h.tree.Overlooked source target a →
      requireFile source h' = .ok bytes h' ∧
      (target.text.utf8ByteSize ≤ Path.maxBytes → requireFile target h' = .ok bytes h') ∧
      (h'.tree = h.tree ∨ ∃ b, b ≠ a ∧ h.tree.Written b bytes h'.tree) ∧
      (h.tree.LeadsTo target a → h'.tree = h.tree)) ∧
    (h.tree.Overlooked source target a → target.text.utf8ByteSize ≤ Path.maxBytes →
      ∃ h', copy source target h = .ok () h' ∧ h.tree.Written a [] h'.tree ∧
        requireFile source h' = .ok [] h' ∧ requireFile target h' = .ok [] h') ∧
    ∀ e h', copy source target h = .error e h' → h'.tree = h.tree := by
  rw [copy_eq_copyFile hfind]
  obtain ⟨hl, hfile⟩ := locate_of_find hfind
  refine ⟨fun h' hok hseen => ?_, fun hover hsize => ?_, fun e h' => tree_of_copyFile_eq_error hfind⟩
  · rcases copyFile_cases hfind hok with ⟨htarget, -, htree⟩ | ⟨hover, -⟩ |
      ⟨hother, b, hb, hlocate, hwritten⟩
    · refine ⟨requireFile_of_find (by rw [htree, hfind]), fun hsize => ?_, Or.inl htree,
        fun _ => htree⟩
      exact requireFile_of_find (by rw [htree, htarget.find hfile hsize])
    · exact absurd hover hseen
    · have hsource : h'.tree.find source = .ok (a, .file bytes) :=
        find_of_locate (locate_of_extends hwritten.extends hl)
          ((hwritten.entry_of_ne hb.symm).trans hfile)
      exact ⟨requireFile_of_find hsource,
        fun _ => requireFile_of_find (hwritten.find_of_locate_output hlocate),
        Or.inr ⟨b, hb, hwritten⟩, fun htarget => absurd htarget hother⟩
  · obtain ⟨h', hok, hwritten, htarget⟩ := exists_copyFile_of_overlooked hfind hover hsize
    have hsource : h'.tree.find source = .ok (a, .file []) :=
      find_of_locate (locate_of_extends hwritten.extends hl) hwritten.self
    exact ⟨h', hok, hwritten, requireFile_of_find hsource, htarget⟩

/-- A tree with the file `/f` and the link `/l`, whose target `g` does not exist. -/
def dangling : Host where
  tree := Tree.empty.plantAll
    [(Path.ofText "/f", .file [120]), (Path.ofText "/l", .link (Path.ofText "g"))]

/-- The tree after `/f` was copied to `/l`: the target is there now. -/
def dangledNoMore : Host where
  tree := Tree.empty.plantAll [(Path.ofText "/f", .file [120]),
    (Path.ofText "/l", .link (Path.ofText "g")), (Path.ofText "/g", .file [120])]

theorem isFileName_f : IsFileName "f" := by
  decide

/-- The name `f`. -/
def nameF : FileName :=
  ⟨"f", isFileName_f⟩

theorem copy_file_reads_back_dangling :
    dangling.tree.find (Path.ofText "/f") = .ok ([nameF], .file [120]) ∧
      requireFile (Path.ofText "/f") dangledNoMore = .ok [120] dangledNoMore ∧
      requireFile (Path.ofText "/l") dangledNoMore = .ok [120] dangledNoMore ∧
      ∃ b, b ≠ [nameF] ∧ dangling.tree.Written b [120] dangledNoMore.tree := by
  have hfind : dangling.tree.find (Path.ofText "/f") = .ok ([nameF], .file [120]) := by decide
  have hcopy : copy (Path.ofText "/f") (Path.ofText "/l") dangling = .ok () dangledNoMore := by
    decide
  have hseen : ¬ dangling.tree.Overlooked (Path.ofText "/f") (Path.ofText "/l") [nameF] := by
    rintro ⟨hleads, -⟩
    have hmissing : dangling.tree.identify? (Path.ofText "/l") = none := by decide
    rw [identify?_eq_some_iff.2 ⟨hleads, by decide⟩] at hmissing
    cases hmissing
  obtain ⟨hsource, htarget, hone, -⟩ :=
    (copy_file_reads_back hfind (Path.ofText "/l")).1 dangledNoMore hcopy hseen
  have hgrown : dangledNoMore.tree ≠ dangling.tree := by decide
  exact ⟨hfind, hsource, htarget (by decide), hone.resolve_left hgrown⟩

section Limits

variable {t : Tree} {p : Path} {ps idles : List Piece} {n : FileName}

/-- A file whose canonical path is too long is emptied by every copy to itself. -/
theorem exists_emptied_of_long (hfind : h.tree.find source = .ok (a, .file bytes))
    (htarget : h.tree.find target = .ok (a, .file bytes))
    (hlong : Path.maxBytes < a.path.text.utf8ByteSize) :
    ∃ h', copy source target h = .ok () h' ∧ requireFile target h' = .ok [] h' := by
  have hover : h.tree.Overlooked source target a :=
    overlooked_of_long (leadsTo_of_find htarget) (locate_of_find htarget).2 hlong
  have hsize := ((Path.refusal?_eq_none_iff target).1 (refusal?_of_find htarget)).2.1
  obtain ⟨h', hok, -, hempty⟩ := exists_copyFile_of_overlooked hfind hover hsize
  exact ⟨h', (copy_eq_copyFile hfind target).trans hok, hempty⟩

theorem utf8ByteSize_replicate (k : Nat) :
    (String.ofList (List.replicate k 'n')).utf8ByteSize = k := by
  induction k with
  | zero => rfl
  | succ k ih =>
    have hn : (String.singleton 'n').utf8ByteSize = 1 := by decide
    rw [List.replicate_succ, String.ofList_cons, String.utf8ByteSize_append, ih, hn, Nat.add_comm]

theorem isFileName_replicate {k : Nat} (hk : k ≠ 0) (hsize : k ≤ 255) :
    IsFileName (String.ofList (List.replicate k 'n')) := by
  have hmem : 'n' ∈ (String.ofList (List.replicate k 'n')).toList := by simp [hk]
  have hne (text : String) (htext : 'n' ∉ text.toList) :
      String.ofList (List.replicate k 'n') ≠ text := by
    rintro rfl
    exact htext hmem
  have hchars : ∀ c ∈ (String.ofList (List.replicate k 'n')).toList, c = 'n' := by simp
  refine ⟨hne _ (by decide), hne _ (by decide), hne _ (by decide), ?_, ?_, ?_⟩
  · exact fun hslash => absurd (hchars _ hslash) (by decide)
  · exact fun hnul => absurd (hchars _ hnul) (by decide)
  · rwa [utf8ByteSize_replicate]

/-- A name as long as a name may be. -/
def nameLong : FileName :=
  ⟨String.ofList (List.replicate 255 'n'), isFileName_replicate (by decide) (by decide)⟩

theorem isFileName_l : IsFileName "l" := by
  decide

/-- The name of a link. -/
def nameL : FileName :=
  ⟨"l", isFileName_l⟩

/-- The address at the depth `k`, with long names only. -/
def deep (k : Nat) : Address :=
  List.replicate k nameLong

theorem nameBytes_deep (k : Nat) : nameBytes (deep k) = 256 * k := by
  have hname : nameLong.piece.text.utf8ByteSize = 255 := utf8ByteSize_replicate 255
  induction k with
  | zero => rfl
  | succ k ih =>
    have hstep : nameBytes (deep (k + 1)) =
        nameLong.piece.text.utf8ByteSize + 1 + nameBytes (deep k) := rfl
    omega

/-- The tree of directories with long names, each in the one before. -/
def shaft : Nat → Tree
  | 0 => Tree.empty
  | k + 1 => (shaft k).insert nameLong (deep k) .dir

theorem deep_injective : Function.Injective deep := by
  intro k m h
  simpa [deep] using congrArg List.length h

theorem entry?_of_deeper {k m : Nat} (hall : ∀ b e, t.entry? b = some e → ∃ i ≤ k, b = deep i)
    (hkm : k < m) : t.entry? (deep m) = none := by
  rw [Option.eq_none_iff_forall_ne_some]
  intro e he
  obtain ⟨i, hi, heq⟩ := hall _ e he
  obtain rfl := deep_injective heq
  omega

theorem shaft_entries (k : Nat) : (shaft k).HasDir (deep k) ∧
    ∀ b e, Tree.entry? (shaft k) b = some e → ∃ m ≤ k, b = deep m := by
  induction k with
  | zero =>
    refine ⟨rfl, fun b e he => ?_⟩
    cases b with
    | nil => exact ⟨0, Nat.le_refl 0, rfl⟩
    | cons m b => cases he
  | succ k ih =>
    obtain ⟨hdir, hall⟩ := ih
    have hentry := (shaft k).entry?_insert hdir (entry?_of_deeper hall k.lt_succ_self) .dir
    refine ⟨(hentry _).trans (if_pos rfl), fun b e he => ?_⟩
    rw [shaft, hentry] at he
    split at he
    · next hb => exact ⟨k + 1, Nat.le_refl _, hb⟩
    · obtain ⟨m, hm, hb⟩ := hall b e he
      exact ⟨m, Nat.le_succ_of_le hm, hb⟩

/-- A shaft with a file in the last directory, and the link `/l` to this directory. -/
def buried (k : Nat) : Host where
  tree := ((shaft (k + 1)).insert nameL [] (.link (Address.path (deep (k + 1))))).insert nameLong
    (deep (k + 1)) (.file [120])

/-- The way to the file through the link. -/
def shortcut : Path :=
  ⟨[Piece.empty, nameL.piece, nameLong.piece], by simp⟩

theorem deep_ne_nameL (k : Nat) : deep k ≠ [nameL] := by
  intro heq
  cases k with
  | zero => cases heq
  | succ k =>
    have hsize := congrArg (fun n : FileName => n.text.utf8ByteSize) (List.cons.inj heq).1
    have hl : nameL.text.utf8ByteSize = 1 := by decide
    have hlong : nameLong.text.utf8ByteSize = 255 := utf8ByteSize_replicate 255
    simp only [hl, hlong] at hsize
    omega

theorem buried_entries (k : Nat) : (buried k).tree.HasDir (deep (k + 1)) ∧
    (buried k).tree.entry? [nameL] = some (.link (Address.path (deep (k + 1)))) ∧
    (buried k).tree.entry? (nameLong :: deep (k + 1)) = some (.file [120]) := by
  obtain ⟨hdir, hall⟩ := shaft_entries (k + 1)
  have hnone : Tree.entry? (shaft (k + 1)) [nameL] = none := by
    rw [Option.eq_none_iff_forall_ne_some]
    intro e he
    obtain ⟨m, -, heq⟩ := hall _ e he
    exact deep_ne_nameL m heq.symm
  have hlinked := (shaft (k + 1)).entry?_insert (shaft (k + 1)).hasDir_nil hnone
    (.link (Address.path (deep (k + 1))))
  have hdir' := (hlinked _).trans ((if_neg (deep_ne_nameL (k + 1))).trans hdir)
  have hfree := (hlinked (nameLong :: deep (k + 1))).trans
    ((if_neg (deep_ne_nameL (k + 2))).trans (entry?_of_deeper hall (k + 1).lt_succ_self))
  have hfilled := Tree.entry?_insert _ hdir' hfree (.file [120])
  have hne : deep (k + 1) ≠ nameLong :: deep (k + 1) := (List.cons_ne_self _ _).symm
  exact ⟨(hfilled _).trans ((if_neg hne).trans hdir'),
    (hfilled _).trans ((if_neg (deep_ne_nameL (k + 2)).symm).trans ((hlinked _).trans (if_pos rfl))),
    (hfilled _).trans (if_pos rfl)⟩

theorem refusal?_shortcut : shortcut.refusal? = none := by
  have hempty : Piece.empty.text.utf8ByteSize = 0 := by decide
  have hl : nameL.piece.text.utf8ByteSize = 1 := by decide
  have hlong : nameLong.piece.text.utf8ByteSize = 255 := utf8ByteSize_replicate 255
  refine Path.refusal?_of_slashedSize ?_ ?_ ?_
  · intro s hs
    simp only [shortcut, List.mem_cons, List.not_mem_nil, or_false] at hs
    rcases hs with rfl | rfl | rfl
    · decide
    · exact nameL.valid.2.2.2.2.1
    · exact nameLong.valid.2.2.2.2.1
  · simp only [shortcut, Path.slashedSize, hempty, hl, hlong]
    decide
  · intro heq
    cases congrArg (fun p => p.pieces.length) heq

theorem find_shortcut (k : Nat) :
    (buried k).tree.find shortcut = .ok (nameLong :: deep (k + 1), .file [120]) := by
  obtain ⟨hdir, hlink, hfile⟩ := buried_entries k
  have hlast : (buried k).tree.follow .target 39 (deep (k + 1)) [nameLong.piece] =
      .ok (nameLong :: deep (k + 1)) := by
    obtain ⟨jump, hj⟩ := (buried k).tree.exists_follow_eq_walk .target 39
    rw [hj, walk_cons_of_entry (Ending.suits_of_not_refusesSlash rfl _) hdir
      (Step.ofPiece_piece nameLong) hfile (by simp [Entry.kind]), walk_nil]
  have hjumped : (buried k).tree.follow .target 39 []
      ((Address.path (deep (k + 1))).pieces ++ [nameLong.piece]) =
        .ok (nameLong :: deep (k + 1)) := by
    rw [← hlast, ← follow_names_append 39 hdir]
    exact walk_cons_idle _ _ _ (buried k).tree.hasDir_nil rfl _
  refine find_of_locate ?_ hfile
  rw [locate, refusal?_shortcut]
  change (buried k).tree.walk .target ((buried k).tree.follow .target 39) [] shortcut.pieces = _
  rw [shortcut, walk_cons_idle _ _ _ (buried k).tree.hasDir_nil rfl,
    walk_cons_of_link (Ending.suits_of_not_refusesSlash rfl _).not_refuses
      (buried k).tree.hasDir_nil (Step.ofPiece_piece nameL) hlink fun _ => rfl, ite_self]
  exact hjumped

theorem nul_not_mem_of_idle (hidle : ∀ s ∈ idles, s.isIdle = true)
    (hp : p.pieces = idles ++ [n.piece]) : '\x00' ∉ p.text.toList := by
  rw [Path.mem_text_iff (by decide)]
  rintro ⟨s, hs, hnul⟩
  rw [hp, List.mem_append, List.mem_singleton] at hs
  rcases hs with hs | rfl
  · exact Path.nul_not_mem_of_isIdle (hidle s hs) hnul
  · exact n.valid.2.2.2.2.1 hnul

/-- Behind any pieces that name nothing a file in the root is found. -/
theorem leadsTo_of_idle (hidle : ∀ s ∈ idles, s.isIdle = true)
    (hp : p.pieces = idles ++ [n.piece]) (hn : t.entry? [n] = some (.file bytes)) :
    t.LeadsTo p [n] := by
  refine ⟨nul_not_mem_of_idle hidle hp, fun hempty => ?_, ?_, by rw [hn]; rfl⟩
  · have hlast : [Piece.empty].getLast? = some n.piece := by
      change Path.empty.pieces.getLast? = _
      rw [← hempty, hp, List.getLast?_concat]
    exact Path.text_piece_ne n (congrArg Piece.text (Option.some.inj hlast)).symm
  · have htrail : t.Trail [] idles [] := (trail_idle hidle).2 ⟨t.hasDir_nil, rfl⟩
    obtain ⟨jump, hj⟩ := t.exists_follow_eq_walk .target maxLinks
    rw [hj, hp, walk_append_of_trail (Ending.suits_of_not_refusesSlash rfl _) htrail,
      walk_cons_of_entry (Ending.suits_of_not_refusesSlash rfl _) t.hasDir_nil
        (Step.ofPiece_piece n) hn (by simp [Entry.kind]), walk_nil]

/-- No other name is looked up then. -/
theorem traceable_of_idle (hidle : ∀ s ∈ idles, s.isIdle = true)
    (hp : p.pieces = idles ++ [n.piece]) (hn : t.entry? [n] = some (.file bytes)) :
    t.Traceable p := by
  obtain ⟨jump, hj⟩ := t.exists_passages_eq_lookups maxLinks
  intro l hl
  rw [hj, hp, lookups_append_of_idle _ hidle, lookups, Step.ofPiece_piece] at hl
  simp only [hn, lookups, List.mem_singleton] at hl
  have hname := n.valid.2.2.2.2.2
  have hbytes : nameBytes [n] = n.text.utf8ByteSize + 1 := rfl
  rw [hl, Lookup.size, utf8ByteSize_path, hbytes, Path.maxBytes]
  simp only [asksDir, List.dropWhile_nil, List.isEmpty_nil, Bool.not_true, Bool.false_and,
    Bool.toNat_false]
  omega

/-- A way to `/f` with `k` single dots before the name. -/
def roundabout (k : Nat) : Path :=
  ⟨(Piece.empty :: List.replicate k Piece.dot) ++ [nameF.piece], by simp⟩

theorem slashedSize_roundabout (k : Nat) : Path.slashedSize (roundabout k).pieces = 2 * k + 3 := by
  have hname : nameF.piece.text.utf8ByteSize = 1 := by decide
  change Path.slashedSize ((Path.dotted k).pieces ++ [nameF.piece]) = _
  rw [Path.slashedSize_append, Path.slashedSize_dotted, Path.slashedSize_cons, hname]
  rfl

theorem refusal?_roundabout {k : Nat} (hk : 2048 ≤ k) :
    (roundabout k).refusal? = some .nameTooLong := by
  have hsize := Path.utf8ByteSize_text (roundabout k)
  rw [slashedSize_roundabout] at hsize
  have hlong : Path.maxBytes < (roundabout k).text.utf8ByteSize := by
    rw [Path.maxBytes]
    omega
  rw [Path.refusal?, if_neg (nul_not_mem_of_idle (Path.isIdle_dotted k) rfl), if_pos hlong]

/-- By a way that is too long a file is copied to itself, and cannot be read. -/
theorem exists_copied_roundabout {k : Nat} (hk : 2048 ≤ k) :
    ∃ h', copy (Path.ofText "/f") (roundabout k) dangling = .ok () h' ∧
      requireFile (roundabout k) h' = .error (.io (roundabout k) .nameTooLong) h' := by
  have hfind : dangling.tree.find (Path.ofText "/f") = .ok ([nameF], .file [120]) := by decide
  have hfile := (locate_of_find hfind).2
  have hidle := Path.isIdle_dotted k
  have hsame : dangling.tree.sameEntry (Path.ofText "/f") (roundabout k) = true :=
    sameEntry_iff.2 ⟨⟨[nameF], leadsTo_of_find hfind, leadsTo_of_idle hidle rfl hfile⟩, by decide,
      traceable_of_idle hidle rfl hfile⟩
  obtain ⟨message, hok⟩ := copyFile_of_sameEntry hsame
  have hlocate : (dangling.note .debug message).tree.find (roundabout k) =
      .error .nameTooLong := find_of_refusal (refusal?_roundabout hk)
  exact ⟨_, (copy_eq_copyFile hfind _).trans hok, requireFile_of_error hlocate⟩

/-- A file with one byte is copied to itself by one short path, and is empty then. Another
is copied to a path that leads to it, and cannot be read by this path. -/
theorem copied_onto_itself_at_limits :
    ((buried 14).tree.find shortcut = .ok (nameLong :: deep 15, .file [120]) ∧
      ∃ h', copy shortcut shortcut (buried 14) = .ok () h' ∧
        requireFile shortcut h' = .ok [] h') ∧
    dangling.tree.find (Path.ofText "/f") = .ok ([nameF], .file [120]) ∧
      ∃ h', copy (Path.ofText "/f") (roundabout 2150) dangling = .ok () h' ∧
        requireFile (roundabout 2150) h' = .error (.io (roundabout 2150) .nameTooLong) h' := by
  have hfind := find_shortcut 14
  have hlong : Path.maxBytes < (Address.path (nameLong :: deep 15)).text.utf8ByteSize := by
    have hbytes : nameBytes (nameLong :: deep 15) = 256 * 16 := nameBytes_deep 16
    rw [utf8ByteSize_path, hbytes]
    decide
  exact ⟨⟨hfind, exists_emptied_of_long hfind hfind hlong⟩, by decide,
    exists_copied_roundabout (by decide)⟩

end Limits

end Disk

end TreeShell
