import Mathlib.Data.List.DropRight
import TreeShell.Proofs.Tree.Canonical
import TreeShell.Proofs.Tree.Lookup

/-!
# Plain paths

A plain path starts at the root and has neither `.` nor `..`; slashes may be
doubled and may stand at its end. Nothing else is asked of it, so its pieces
need not be names, and the system may refuse it. But where a call on a plain path
succeeds in a tree without links, its pieces are the names of an address, and it
is that address the call was about (`names_of_locate`, `names_of_leadsTo`).

A plain path that ends in slashes does not spell its address. The path without
these slashes does, and the system makes no difference between the two when it
makes a directory or asks for one (`mkdir_unslashed`,
`isDir_unslashed`).
-/

namespace TreeShell

namespace Path

/-- The path starts at the root and has neither `.` nor `..`. -/
structure Plain (p : Path) : Prop where
  absolute : p.isAbsolute = true
  undotted : ∀ s ∈ p.pieces, s.text ≠ "." ∧ s.text ≠ ".."

variable {p q : Path} {a b : Address}

theorem piece_injective : Function.Injective FileName.piece := by
  rintro ⟨s, hs⟩ ⟨t, ht⟩ h
  cases congrArg Piece.text h
  rfl

theorem eq_of_names_of_names {ps : List Piece} (h : Names ps a) (h' : Names ps b) : a = b :=
  List.reverse_injective (List.map_injective_iff.2 piece_injective (h.symm.trans h'))

/-- The components are the names, from the root on. -/
theorem components_of_names (habs : p.isAbsolute = true) (h : Names p.pieces a) :
    p.components = (.root, a.reverse.map FileName.piece) := by
  have hidle (s : Piece) (hs : s ∈ p.pieces) : (!s.isIdle) = decide (s.text ≠ "") := by
    by_cases htext : s.text = ""
    · simp [Piece.isIdle, htext]
    · have hnot : ¬ s.isIdle = true := fun hidle => htext (eq_of_names h hs hidle)
      simp [hnot, htext]
  have hfilter : (p.pieces.filter fun s => !s.isIdle) = a.reverse.map FileName.piece := by
    rw [List.filter_congr hidle]
    exact h
  rw [pieces_of_isAbsolute habs, List.filter_cons_of_neg (by simp)] at hfilter
  rw [components, start_of_isAbsolute habs, hfilter]

/-- An address is at or below another when the components of its path start with
those of the other path. -/
theorem components_prefix_iff (hp : p.isAbsolute = true) (ha : Names p.pieces a)
    (hq : q.isAbsolute = true) (hb : Names q.pieces b) :
    p.components.2 <+: q.components.2 ↔ a <:+ b := by
  rw [components_of_names hp ha, components_of_names hq hb,
    List.prefix_map_iff_of_injective piece_injective, List.reverse_prefix]

/-- The pieces without the slashes at the end have the same names. -/
theorem names_trimmed : Names p.trimmed a ↔ Names p.pieces a := by
  have hdrop (rev : List Piece) : ((rev.dropWhile fun s => s.text = "").reverse.filter fun s =>
      s.text ≠ "") = rev.reverse.filter fun s => s.text ≠ "" := by
    induction rev with
    | nil => rfl
    | cons s rev ih =>
      rw [List.dropWhile_cons]
      split
      · next hs =>
        rw [ih, List.reverse_cons, List.filter_append, List.filter_cons_of_neg (by simpa using hs),
          List.filter_nil, List.append_nil]
      · rfl
  rw [Names, Names, trimmed, hdrop, List.reverse_reverse]

theorem text_ne_of_getLast?_trimmed {s : Piece} (hs : p.trimmed.getLast? = some s) :
    s.text ≠ "" := by
  have hhead := List.head?_dropWhile_not (fun s : Piece => decide (s.text = "")) p.pieces.reverse
  rw [trimmed, List.getLast?_reverse] at hs
  rw [hs] at hhead
  simpa using hhead

theorem aboveOf_append (start : Start) {idles : List Piece} (h : ∀ s ∈ idles, s.isIdle = true)
    (rev : List Piece) : aboveOf start (idles ++ rev) = aboveOf start rev := by
  induction idles with
  | nil => rfl
  | cons s idles ih =>
    rw [List.cons_append, aboveOf, if_pos (h s List.mem_cons_self)]
    exact ih fun r hr => h r (List.mem_cons_of_mem _ hr)

/-- The path without the slashes at its end. The root keeps them. -/
def unslashed (p : Path) : Path :=
  if h : p.trimmed = [] then p else ⟨p.trimmed, h⟩

theorem pieces_unslashed (h : p.trimmed ≠ []) : p.unslashed.pieces = p.trimmed := by
  rw [unslashed, dif_neg h]

theorem trimmed_unslashed (p : Path) : p.unslashed.trimmed = p.trimmed := by
  by_cases h : p.trimmed = []
  · rw [unslashed, dif_pos h]
  · rw [trimmed, pieces_unslashed h, trimmed, List.reverse_reverse, List.dropWhile_idempotent]

theorem trimmed_eq_cons_cons (habs : p.isAbsolute = true) (h : p.trimmed ≠ []) :
    ∃ s rest, p.trimmed = Piece.empty :: s :: rest := by
  obtain ⟨slashes, hp, -⟩ := Tree.exists_pieces_eq_trimmed_append p
  obtain ⟨first, rest, hcons⟩ := List.exists_cons_of_ne_nil h
  rw [pieces_of_isAbsolute habs, hcons, List.cons_append, List.cons.injEq] at hp
  obtain ⟨rfl, -⟩ := hp
  cases rest with
  | nil =>
    have hlast : p.trimmed.getLast? = some Piece.empty := by rw [hcons]; rfl
    exact absurd rfl (text_ne_of_getLast?_trimmed hlast)
  | cons s rest => exact ⟨s, rest, hcons⟩

theorem isAbsolute_unslashed (habs : p.isAbsolute = true) : p.unslashed.isAbsolute = true := by
  by_cases h : p.trimmed = []
  · rwa [unslashed, dif_pos h]
  · rw [isAbsolute_iff, pieces_unslashed h]
    exact trimmed_eq_cons_cons habs h

/-- Without the slashes at its end a path spells the address of its names. -/
theorem spells_unslashed (habs : p.isAbsolute = true) (h : Names p.pieces a) :
    p.unslashed.Spells a := by
  refine ⟨isAbsolute_unslashed habs, ?_, fun hslash => ?_⟩
  · rwa [← names_trimmed, trimmed_unslashed, names_trimmed]
  · have hnil : p.trimmed = [] := by
      by_contra hne
      have hlast : p.trimmed.getLast? = some Piece.empty := by
        rw [← pieces_unslashed hne, List.getLast?_eq_some_getLast (ne_nil _)]
        exact congrArg some (of_decide_eq_true hslash)
      exact text_ne_of_getLast?_trimmed hlast rfl
    have hnames := names_trimmed.2 h
    rw [hnil] at hnames
    simpa [Names] using hnames

/-- The slashes at the end have nothing to do with the paths above. -/
theorem above_unslashed (habs : p.isAbsolute = true) : p.unslashed.above = p.above := by
  by_cases h : p.trimmed = []
  · rw [unslashed, dif_pos h]
  · obtain ⟨slashes, hp, hidle⟩ := Tree.exists_pieces_eq_trimmed_append p
    have hbody : Piece.empty :: p.body = Piece.empty :: (p.unslashed.body ++ slashes) := by
      rw [← pieces_of_isAbsolute habs, hp, ← pieces_unslashed h, ← List.cons_append,
        ← pieces_of_isAbsolute (isAbsolute_unslashed habs)]
    rw [above, above, start_of_isAbsolute habs, start_of_isAbsolute (isAbsolute_unslashed habs),
      (List.cons.inj hbody).2, List.reverse_append]
    exact (aboveOf_append _ (fun s hs => hidle s (List.mem_reverse.1 hs)) _).symm

theorem refusal?_unslashed (habs : p.isAbsolute = true) (hr : p.refusal? = none) :
    p.unslashed.refusal? = none := by
  by_cases h : p.trimmed = []
  · rwa [unslashed, dif_pos h]
  · obtain ⟨slashes, hp, -⟩ := Tree.exists_pieces_eq_trimmed_append p
    rw [refusal?_eq_none_iff] at hr ⊢
    obtain ⟨hnul, hsize, -⟩ := hr
    refine ⟨?_, ?_, ne_empty_of_isAbsolute (isAbsolute_unslashed habs)⟩
    · intro s hs
      rw [pieces_unslashed h] at hs
      exact hnul s (by rw [hp]; exact List.mem_append_left _ hs)
    · have h₁ := utf8ByteSize_text p
      have h₂ := utf8ByteSize_text p.unslashed
      rw [hp, slashedSize_append] at h₁
      rw [pieces_unslashed h] at h₂
      omega

theorem Plain.undotted_trimmed (h : p.Plain) : ∀ s ∈ p.trimmed, s.text ≠ "." ∧ s.text ≠ ".." := by
  obtain ⟨slashes, hp, -⟩ := Tree.exists_pieces_eq_trimmed_append p
  intro s hs
  exact h.undotted s (by rw [hp]; exact List.mem_append_left _ hs)

theorem plain_of_names (habs : p.isAbsolute = true) (h : Names p.pieces a) : p.Plain := by
  refine ⟨habs, fun s hs => ?_⟩
  rcases empty_or_piece_of_names h hs with hempty | ⟨n, rfl⟩
  · simp [hempty]
  · exact ⟨n.valid.2.1, n.valid.2.2.1⟩

theorem nul_not_mem_of_names (h : Names p.pieces a) : '\x00' ∉ p.text.toList := by
  rw [mem_text_iff (by decide)]
  rintro ⟨s, hs, hnul⟩
  rcases empty_or_piece_of_names h hs with hempty | ⟨n, rfl⟩
  · rw [hempty] at hnul
    cases hnul
  · exact n.valid.2.2.2.2.1 hnul

end Path

namespace Tree

open TreeShell.Path (Names Plain)

variable {t u : Tree} {a b : Address} {p q : Path} {ending : Ending} {ps : List Piece}

/-- A piece without dots that the system does not refuse is a slash or a name. -/
theorem empty_or_piece_or_refused {s : Piece} (hdot : s.text ≠ ".") (hdots : s.text ≠ "..") :
    s.text = "" ∨ (∃ n : FileName, s = n.piece) ∨ ∃ e, Step.ofPiece s = .refuse e := by
  unfold Step.ofPiece
  by_cases hidle : s.isIdle = true
  · left
    simpa [Piece.isIdle, hdot] using hidle
  · rw [if_neg hidle, if_neg hdots]
    right
    split
    · next hname => exact Or.inl ⟨⟨s.text, hname⟩, rfl⟩
    · split
      · exact Or.inr ⟨_, rfl⟩
      · exact Or.inr ⟨_, rfl⟩

/-- A piece that is not dots leads down along its name, if it has one. -/
theorem exists_names_of_step {s : Piece} {c : Address} (hdot : s.text ≠ ".")
    (hdots : s.text ≠ "..") (hstep : (Step.ofPiece s).from? a = some c) :
    ∃ rel, Names [s] rel ∧ c = rel ++ a := by
  rcases empty_or_piece_or_refused hdot hdots with hempty | ⟨n, rfl⟩ | ⟨e, hrefuse⟩
  · rw [Step.ofPiece_of_isIdle (by simp [Piece.isIdle, hempty])] at hstep
    cases hstep
    exact ⟨[], (Path.names_cons_empty hempty).2 rfl, rfl⟩
  · rw [Step.ofPiece_piece] at hstep
    cases hstep
    exact ⟨[n], Path.names_map_piece [n], rfl⟩
  · rw [hrefuse] at hstep
    cases hstep

/-- Without links and dots a walk goes down along the names of its pieces. -/
theorem exists_names_of_walk {jump : Address → List Piece → Except IoError Address}
    (hl : t.Linkless) (hps : ∀ s ∈ ps, s.text ≠ "." ∧ s.text ≠ "..")
    (h : t.walk ending jump a ps = .ok b) : ∃ rel, Names ps rel ∧ b = rel ++ a := by
  induction ps generalizing a with
  | nil =>
    cases h
    exact ⟨[], rfl, rfl⟩
  | cons s ps ih =>
    obtain ⟨hdot, hdots⟩ := hps s List.mem_cons_self
    obtain ⟨-, -, hgets⟩ := walk_cons_eq_ok_iff.1 h
    cases hgets with
    | passes c e hstep he hkind hrest =>
      obtain ⟨first, hfirst, rfl⟩ := exists_names_of_step hdot hdots hstep
      obtain ⟨rel, hrel, rfl⟩ := ih (fun r hr => hps r (List.mem_cons_of_mem _ hr)) hrest
      exact ⟨rel ++ first, Path.names_append hfirst hrel, (List.append_assoc rel first a).symm⟩
    | ends n hp hn hnil hb =>
      have hstep : (Step.ofPiece s).from? a = some (n :: a) := by
        rw [hp]
        rfl
      obtain ⟨first, hfirst, hc⟩ := exists_names_of_step hdot hdots hstep
      exact ⟨first, by rwa [hnil], hb.trans hc⟩
    | stops n target hp hn => exact absurd hn (hl _ target)
    | jumps n target hp hn => exact absurd hn (hl _ target)

/-- What a plain path leads to lies at the address of its names. -/
theorem names_of_locate (hl : t.Linkless) (hp : p.Plain) (h : t.locate ending p = .ok a) :
    Names p.pieces a := by
  have hr := refusal?_of_locate h
  obtain ⟨jump, hj⟩ := t.exists_locate_eq_walk ending hr
  rw [hj] at h
  split at h
  · obtain ⟨rel, hrel, rfl⟩ := exists_names_of_walk hl hp.undotted_trimmed h
    rwa [List.append_nil, ← Path.names_trimmed]
  · obtain ⟨rel, hrel, rfl⟩ := exists_names_of_walk hl hp.undotted h
    rwa [List.append_nil]

theorem names_of_find {e : Entry} (hl : t.Linkless) (hp : p.Plain) (h : t.find p = .ok (a, e)) :
    Names p.pieces a :=
  names_of_locate hl hp (locate_of_find h).1

theorem names_of_leadsTo (hl : t.Linkless) (hp : p.Plain) (h : t.LeadsTo p a) :
    Names p.pieces a := by
  obtain ⟨jump, hj⟩ := t.exists_follow_eq_walk .target maxLinks
  have hwalk := h.followed
  rw [hj] at hwalk
  obtain ⟨rel, hrel, rfl⟩ := exists_names_of_walk hl hp.undotted hwalk
  rwa [List.append_nil]

theorem leadsTo_of_hasDir (habs : p.isAbsolute = true) (hp : Names p.pieces a)
    (ha : t.HasDir a) : t.LeadsTo p a := by
  have htrail : t.Trail [] p.pieces a :=
    (trail_of_names hp).2 (by rw [List.append_nil]; exact ⟨ha, rfl⟩)
  obtain ⟨jump, hj⟩ := t.exists_follow_eq_walk .target maxLinks
  have hwalk : t.walk .target jump [] p.pieces = .ok a :=
    walk_of_trail (Ending.suits_of_not_refusesSlash rfl _) htrail
  refine ⟨Path.nul_not_mem_of_names hp, Path.ne_empty_of_isAbsolute habs, by rw [hj, hwalk], ?_⟩
  rw [HasDir] at ha
  rw [ha]
  rfl

/-- Plain paths lead to the same entry only if they have the same names. -/
theorem exists_names_of_sameEntry (hl : t.Linkless) (hp : p.Plain) (hq : q.Plain)
    (h : t.sameEntry p q = true) : ∃ a, Names p.pieces a ∧ Names q.pieces a := by
  obtain ⟨⟨a, hpa, hqa⟩, -, -⟩ := sameEntry_iff.1 h
  exact ⟨a, names_of_leadsTo hl hp hpa, names_of_leadsTo hl hq hqa⟩

/-- Paths with the same names are seen to lead to the same directory. -/
theorem sameEntry_of_hasDir (hl : t.Linkless) (hp : p.isAbsolute = true) (hpr : p.refusal? = none)
    (hpa : Names p.pieces a) (hq : q.isAbsolute = true) (hqr : q.refusal? = none)
    (hqa : Names q.pieces a) (ha : t.HasDir a) : t.sameEntry p q = true :=
  sameEntry_iff.2 ⟨⟨a, leadsTo_of_hasDir hp hpa ha, leadsTo_of_hasDir hq hqa ha⟩,
    traceable_of_linkless hl hp hpr, traceable_of_linkless hl hq hqr⟩

/-- Slashes at the end are no matter to a call that makes a directory. -/
theorem mkdir_unslashed (t : Tree) (habs : p.isAbsolute = true) (hr : p.refusal? = none) :
    t.mkdir p.unslashed = t.mkdir p := by
  rw [mkdir, mkdir, locate, locate, hr, Path.refusal?_unslashed habs hr]
  simp only [if_true, Path.trimmed_unslashed]

theorem isDir_unslashed (hl : t.Linkless) (habs : p.isAbsolute = true) (hp : Names p.pieces a)
    (hr : p.refusal? = none) : t.isDir p.unslashed = t.isDir p := by
  have hspells := Path.spells_unslashed habs hp
  have hr' := Path.refusal?_unslashed habs hr
  rw [Bool.eq_iff_iff, isDir_iff hl, isDir_iff hl]
  simp only [hr, hr', trail_of_names hp, trail_of_names hspells.names]

end Tree

end TreeShell
