import Mathlib.Data.List.TakeWhile
import TreeShell.Tree.Resolve

/-!
# The paths above an absolute path

A path above an absolute one is made of a first part of its pieces, so it is
absolute, and the system takes it if it takes the path (`refusal?_of_mem_above`).
The last one is the root, unless the path itself has only idle pieces
(`root_mem_above`).

The steps of a path are its pieces without the idle ones. Joining puts steps after one
another (`steps_join`), and the path above has all of them but the last
(`exists_parent?_of_steps`).
-/

namespace TreeShell.Path

theorem text_cons_cons (s t : Piece) (rest : List Piece) :
    text ⟨s :: t :: rest, by simp⟩ = s.text ++ "/" ++ text ⟨t :: rest, by simp⟩ := by
  simp [text, String.intercalate_cons_cons]

/-- How many bytes the pieces take, each with one slash. -/
def slashedSize : List Piece → Nat
  | [] => 0
  | s :: rest => s.text.utf8ByteSize + 1 + slashedSize rest

theorem slashedSize_cons (s : Piece) (rest : List Piece) :
    slashedSize (s :: rest) = s.text.utf8ByteSize + 1 + slashedSize rest :=
  rfl

theorem slashedSize_append (ps qs : List Piece) :
    slashedSize (ps ++ qs) = slashedSize ps + slashedSize qs := by
  induction ps with
  | nil => rw [List.nil_append, slashedSize, Nat.zero_add]
  | cons s ps ih =>
    rw [List.cons_append, slashedSize_cons, slashedSize_cons, ih]
    omega

theorem slashedSize_replicate_dot (k : Nat) :
    slashedSize (List.replicate k Piece.dot) = 2 * k := by
  induction k with
  | zero => rfl
  | succ k ih =>
    have hdot : Piece.dot.text.utf8ByteSize = 1 := by decide
    rw [List.replicate_succ, slashedSize_cons, ih, hdot]
    omega

/-- The text has one slash less than it has pieces. -/
theorem utf8ByteSize_text (p : Path) : p.text.utf8ByteSize + 1 = slashedSize p.pieces := by
  obtain ⟨pieces, hne⟩ := p
  induction pieces with
  | nil => exact absurd rfl hne
  | cons s rest ih =>
    cases rest with
    | nil => simp [text, slashedSize]
    | cons t rest =>
      have hslash : "/".utf8ByteSize = 1 := rfl
      have htail := ih (List.cons_ne_nil t rest)
      rw [text_cons_cons, String.utf8ByteSize_append, String.utf8ByteSize_append, hslash,
        slashedSize_cons, ← htail]
      omega

/-- The root with `k` dots after it. -/
def dotted (k : Nat) : Path :=
  ⟨Piece.empty :: List.replicate k Piece.dot, by simp⟩

theorem isIdle_dotted (k : Nat) : ∀ piece ∈ (dotted k).pieces, piece.isIdle = true := by
  intro piece hpiece
  rcases List.mem_cons.1 hpiece with rfl | hpiece
  · rfl
  · rw [List.eq_of_mem_replicate hpiece]
    rfl

theorem slashedSize_dotted (k : Nat) : slashedSize (dotted k).pieces = 2 * k + 1 := by
  have hempty : Piece.empty.text.utf8ByteSize = 0 := by decide
  rw [dotted, slashedSize_cons, slashedSize_replicate_dot, hempty]
  omega

/-- A character other than the slash is in the text when it is in a piece. -/
theorem mem_text_iff {c : Char} (hc : c ≠ '/') (p : Path) :
    c ∈ p.text.toList ↔ ∃ s ∈ p.pieces, c ∈ s.text.toList := by
  obtain ⟨pieces, hne⟩ := p
  induction pieces with
  | nil => exact absurd rfl hne
  | cons s rest ih =>
    cases rest with
    | nil => simp [text]
    | cons t rest =>
      have hslash : "/".toList = ['/'] := rfl
      rw [text_cons_cons, String.toList_append, String.toList_append, List.mem_append,
        List.mem_append, ih (List.cons_ne_nil t rest), hslash]
      simp [hc]

theorem nul_not_mem_of_isIdle {s : Piece} (h : s.isIdle = true) : '\x00' ∉ s.text.toList := by
  have htext : s.text = "" ∨ s.text = "." := by simpa [Piece.isIdle] using h
  rcases htext with htext | htext
  · simp [htext]
  · simp [htext]

theorem refusal?_eq_none_iff (p : Path) :
    p.refusal? = none ↔ (∀ s ∈ p.pieces, '\x00' ∉ s.text.toList) ∧
      p.text.utf8ByteSize ≤ maxBytes ∧ p ≠ empty := by
  have hnul := mem_text_iff (c := '\x00') (by decide) p
  unfold refusal? isEmpty
  split
  · next h =>
    obtain ⟨s, hs, hc⟩ := hnul.1 h
    simp only [reduceCtorEq, false_iff, not_and]
    intro hall
    exact absurd hc (hall s hs)
  · next h =>
    have hall : ∀ s ∈ p.pieces, '\x00' ∉ s.text.toList := by
      intro s hs hc
      exact h (hnul.2 ⟨s, hs, hc⟩)
    split
    · simp only [reduceCtorEq, false_iff, not_and]
      intro _ hle
      omega
    · split
      · simp_all
      · simp_all

theorem refusal?_of_slashedSize {p : Path} (hnul : ∀ s ∈ p.pieces, '\x00' ∉ s.text.toList)
    (hsize : slashedSize p.pieces ≤ maxBytes + 1) (hne : p ≠ empty) : p.refusal? = none := by
  have htext := utf8ByteSize_text p
  exact (refusal?_eq_none_iff p).2 ⟨hnul, by omega, hne⟩

theorem refusal?_root : root.refusal? = none := by decide

theorem isAbsolute_iff (p : Path) :
    p.isAbsolute = true ↔ ∃ t rest, p.pieces = Piece.empty :: t :: rest := by
  obtain ⟨pieces, hne⟩ := p
  match pieces with
  | [] => exact absurd rfl hne
  | [s] => simp [isAbsolute]
  | ⟨text, hs⟩ :: t :: rest => simp [isAbsolute, Piece.empty]

theorem ne_empty_of_isAbsolute {p : Path} (h : p.isAbsolute = true) : p ≠ empty := by
  rintro rfl
  revert h
  decide

theorem start_of_isAbsolute {p : Path} (h : p.isAbsolute = true) : p.start = .root := by
  obtain ⟨t, rest, hp⟩ := (isAbsolute_iff p).1 h
  simp [start, hp, Piece.empty]

theorem pieces_of_isAbsolute {p : Path} (h : p.isAbsolute = true) :
    p.pieces = Piece.empty :: p.body := by
  obtain ⟨t, rest, hp⟩ := (isAbsolute_iff p).1 h
  simp [body, start_of_isAbsolute h, hp]

@[simp] theorem isAbsolute_build_root (pieces : List Piece) :
    (build .root pieces).isAbsolute = true := by
  cases pieces <;> rfl

/-- The pieces of a path built at the root, up to an idle one. -/
theorem pieces_build_root (pieces : List Piece) :
    (build .root pieces).pieces = Piece.empty :: if pieces = [] then [Piece.empty] else pieces := by
  cases pieces <;> rfl

/-- The piece that the start of a path takes in its text. -/
def lead : Start → List Piece
  | .root => [Piece.empty]
  | .here => [Piece.dot]
  | .bare => []

theorem isIdle_of_mem_lead {s : Start} {piece : Piece} (h : piece ∈ lead s) :
    piece.isIdle = true := by
  cases s with
  | root =>
    rw [List.mem_singleton.1 h]
    exact Piece.isIdle_empty
  | here =>
    rw [List.mem_singleton.1 h]
    exact Piece.isIdle_dot
  | bare => cases h

theorem pieces_eq_lead_append (p : Path) : p.pieces = lead p.start ++ p.body := by
  obtain ⟨pieces, hne⟩ := p
  obtain ⟨⟨text, hslash⟩, rest, rfl⟩ := List.exists_cons_of_ne_nil hne
  by_cases hroot : text = "" ∧ rest ≠ []
  · have hstart : start ⟨⟨text, hslash⟩ :: rest, hne⟩ = .root := if_pos hroot
    rw [body, hstart]
    obtain ⟨rfl, -⟩ := hroot
    rfl
  · by_cases hdot : text = "."
    · have hstart : start ⟨⟨text, hslash⟩ :: rest, hne⟩ = .here := by
        simp [start, hdot]
      rw [body, hstart]
      subst hdot
      rfl
    · have hstart : start ⟨⟨text, hslash⟩ :: rest, hne⟩ = .bare := by
        simp [start, hroot, hdot]
      rw [body, hstart]
      rfl

theorem pieces_build {s : Start} {pieces : List Piece} (h : pieces ≠ []) :
    (build s pieces).pieces = lead s ++ pieces := by
  obtain ⟨piece, rest, rfl⟩ := List.exists_cons_of_ne_nil h
  cases s <;> rfl

theorem isAbsolute_join {base : Path} (h : base.isAbsolute = true) (rel : Path) :
    (base.join rel).isAbsolute = true := by
  unfold join
  split
  · assumption
  · obtain ⟨t, rest, hp⟩ := (isAbsolute_iff base).1 h
    obtain ⟨s, more, hrel⟩ := List.exists_cons_of_ne_nil rel.ne_nil
    rw [isAbsolute_iff]
    have hstem : ∃ tail, base.stem = Piece.empty :: tail := by
      unfold stem
      split
      · exact ⟨(t :: rest).dropLast, by simp [hp]⟩
      · exact ⟨t :: rest, hp⟩
    obtain ⟨tail, htail⟩ := hstem
    cases tail with
    | nil => exact ⟨s, more, by simp [htail, hrel]⟩
    | cons u tail => exact ⟨u, tail ++ s :: more, by simp [htail, hrel]⟩

/-- The system takes a path whose pieces come first in one that it takes. -/
theorem refusal?_of_prefix {p q : Path} (hr : p.refusal? = none) (hpq : q.pieces <+: p.pieces)
    (hq : q ≠ empty) : q.refusal? = none := by
  obtain ⟨hnul, hsize, -⟩ := (refusal?_eq_none_iff p).1 hr
  obtain ⟨more, hmore⟩ := hpq
  rw [refusal?_eq_none_iff]
  refine ⟨?_, ?_, hq⟩
  · intro s hs
    apply hnul
    rw [← hmore]
    exact List.mem_append_left _ hs
  · have hp := utf8ByteSize_text p
    have hq := utf8ByteSize_text q
    rw [← hmore, slashedSize_append] at hp
    omega

theorem refusal?_build {p : Path} {pieces more : List Piece} (hr : p.refusal? = none)
    (hbody : p.body = pieces ++ more) (hne : build p.start pieces ≠ empty) :
    (build p.start pieces).refusal? = none := by
  by_cases hnil : pieces = []
  · subst hnil
    cases hs : p.start with
    | root => exact refusal?_root
    | here => decide
    | bare =>
      rw [hs] at hne
      exact absurd rfl hne
  · apply refusal?_of_prefix hr _ hne
    rw [pieces_build hnil, pieces_eq_lead_append, hbody, ← List.append_assoc]
    exact List.prefix_append _ _

section Above

/-- A path above is what comes before a piece that is not idle. -/
theorem mem_aboveOf_root {rev : List Piece} {q : Path} (h : q ∈ aboveOf .root rev) :
    ∃ after piece before, rev = after ++ piece :: before ∧ piece.isIdle = false ∧
      q = build .root (before.dropWhile Piece.isIdle).reverse := by
  induction rev with
  | nil => cases h
  | cons piece before ih =>
    have hrest (hq : q ∈ aboveOf .root before) :
        ∃ after s r, piece :: before = after ++ s :: r ∧ s.isIdle = false ∧
          q = build .root (r.dropWhile Piece.isIdle).reverse := by
      obtain ⟨after, s, r, hr, hs, hq⟩ := ih hq
      exact ⟨piece :: after, s, r, by rw [hr, List.cons_append], hs, hq⟩
    rw [aboveOf] at h
    split at h
    · exact hrest h
    · next hidle =>
      rcases List.mem_cons.1 h with rfl | h
      · exact ⟨[], piece, before, rfl, by simpa using hidle, rfl⟩
      · exact hrest h

/-- The pieces of a path above come first among those of the path. -/
theorem exists_body_eq_of_mem_above {p q : Path} (hp : p.isAbsolute = true) (hq : q ∈ p.above) :
    ∃ pieces idles piece rest, p.body = pieces ++ idles ++ piece :: rest ∧
      q = build .root pieces ∧ piece.isIdle = false := by
  rw [above, start_of_isAbsolute hp] at hq
  obtain ⟨after, piece, before, hrev, hpiece, rfl⟩ := mem_aboveOf_root hq
  refine ⟨(before.dropWhile Piece.isIdle).reverse, (before.takeWhile Piece.isIdle).reverse, piece,
    after.reverse, ?_, rfl, hpiece⟩
  rw [← List.reverse_append, List.takeWhile_append_dropWhile, List.reverse_eq_iff.1 hrev]
  simp

theorem isAbsolute_of_mem_above {p q : Path} (hp : p.isAbsolute = true) (hq : q ∈ p.above) :
    q.isAbsolute = true := by
  obtain ⟨pieces, idles, piece, rest, -, rfl, -⟩ := exists_body_eq_of_mem_above hp hq
  exact isAbsolute_build_root pieces

theorem refusal?_of_mem_above {p q : Path} (hp : p.isAbsolute = true) (hr : p.refusal? = none)
    (hq : q ∈ p.above) : q.refusal? = none := by
  have habs := isAbsolute_of_mem_above hp hq
  obtain ⟨pieces, idles, piece, rest, hbody, rfl, -⟩ := exists_body_eq_of_mem_above hp hq
  rw [List.append_assoc] at hbody
  rw [← start_of_isAbsolute hp] at habs ⊢
  exact refusal?_build hr hbody (ne_empty_of_isAbsolute habs)

/-- A path built from the first pieces after the start of another one has that start. -/
theorem start_build {p : Path} {pieces more : List Piece} (hbody : p.body = pieces ++ more) :
    (build p.start pieces).start = p.start := by
  cases pieces with
  | nil => cases p.start <;> rfl
  | cons piece rest =>
    cases hs : p.start with
    | root => exact start_of_isAbsolute (isAbsolute_build_root (piece :: rest))
    | here => simp [build, start, Piece.dot]
    | bare =>
      -- the first piece is the first one of `p`, where it is neither the root nor a dot
      have hpieces := pieces_eq_lead_append p
      rw [hs, hbody] at hpieces
      rw [start, hpieces] at hs
      simp only [lead, List.nil_append, List.cons_append] at hs
      have hdot : piece.text ≠ "." := by
        intro hdot
        simp [hdot] at hs
      have hroot : ¬ (piece.text = "" ∧ rest ≠ []) := by
        rintro ⟨hempty, hrest⟩
        simp [hempty, hrest] at hs
      simp only [build, start, if_neg hroot, if_neg hdot]

/-- The pieces after its start are the given ones, up to an idle one if there are none. -/
theorem body_build {p : Path} {pieces more : List Piece} (hbody : p.body = pieces ++ more) :
    (build p.start pieces).body = pieces ∨
      pieces = [] ∧ (build p.start pieces).body = [Piece.empty] := by
  have hstart := start_build hbody
  cases pieces with
  | nil =>
    cases p.start with
    | root => exact Or.inr ⟨rfl, rfl⟩
    | here => exact Or.inl rfl
    | bare => exact Or.inr ⟨rfl, rfl⟩
  | cons piece rest =>
    have hpieces := pieces_eq_lead_append (build p.start (piece :: rest))
    rw [hstart, pieces_build (List.cons_ne_nil piece rest)] at hpieces
    exact Or.inl (List.append_cancel_left hpieces).symm

theorem components_build {p : Path} {pieces more : List Piece} (hbody : p.body = pieces ++ more) :
    (build p.start pieces).components = (p.start, pieces.filter fun piece => !piece.isIdle) := by
  rw [components, start_build hbody]
  rcases body_build hbody with hsame | ⟨rfl, hidle⟩
  · rw [hsame]
  · rw [hidle]
    rfl

theorem aboveOf_dropWhile (s : Start) (rev : List Piece) :
    aboveOf s (rev.dropWhile Piece.isIdle) = aboveOf s rev := by
  induction rev with
  | nil => rfl
  | cons piece before ih =>
    rw [List.dropWhile_cons]
    split
    · next h => rw [ih, aboveOf, if_pos h]
    · rfl

/-- The root is above every absolute path that names something. -/
theorem root_mem_above {p : Path} (hp : p.isAbsolute = true)
    (h : ∃ piece ∈ p.body, piece.isIdle = false) : root ∈ p.above := by
  have key (rev : List Piece) (h : ∃ piece ∈ rev, piece.isIdle = false) :
      root ∈ aboveOf .root rev := by
    induction rev with
    | nil =>
      obtain ⟨piece, hmem, -⟩ := h
      cases hmem
    | cons s before ih =>
      rw [aboveOf]
      by_cases hbefore : ∃ piece ∈ before, piece.isIdle = false
      · split
        · exact ih hbefore
        · exact List.mem_cons_of_mem _ (ih hbefore)
      · have hall : ∀ piece ∈ before, piece.isIdle = true := by
          intro piece hmem
          by_contra hp
          exact hbefore ⟨piece, hmem, by simpa using hp⟩
        obtain ⟨piece, hmem, hpiece⟩ := h
        rcases List.mem_cons.1 hmem with rfl | hmem
        · rw [if_neg (by simp [hpiece]), List.dropWhile_eq_nil_iff.2 hall]
          exact List.mem_cons_self
        · rw [hall piece hmem] at hpiece
          cases hpiece
  rw [above, start_of_isAbsolute hp]
  apply key
  obtain ⟨piece, hmem, hpiece⟩ := h
  exact ⟨piece, List.mem_reverse.2 hmem, hpiece⟩

theorem aboveOf_eq_nil_iff (s : Start) (rev : List Piece) :
    aboveOf s rev = [] ↔ s ≠ .here ∧ ∀ piece ∈ rev, piece.isIdle = true := by
  induction rev with
  | nil => cases s <;> simp [aboveOf]
  | cons piece before ih =>
    rw [aboveOf]
    by_cases hidle : piece.isIdle = true
    · rw [if_pos hidle, ih, List.forall_mem_cons]
      simp [hidle]
    · rw [if_neg hidle, List.forall_mem_cons]
      simp [hidle]

/-- Only the empty path and the root have no path above, the root in any
spelling without a name and without `..`. -/
theorem parent?_eq_none_iff {p : Path} (hne : p ≠ empty) :
    p.parent? = none ↔ p.isAbsolute = true ∧ ∀ piece ∈ p.pieces, piece.isIdle = true := by
  rw [parent?, List.head?_eq_none_iff, above, aboveOf_eq_nil_iff]
  by_cases habs : p.isAbsolute = true
  · rw [start_of_isAbsolute habs, pieces_of_isAbsolute habs, List.forall_mem_cons]
    simp [habs]
  · obtain ⟨pieces, hpieces⟩ := p
    cases pieces with
    | nil => exact absurd rfl hpieces
    | cons first rest =>
      constructor
      · rintro ⟨hhere, hall⟩
        exfalso
        by_cases hdot : first.text = "."
        · apply hhere
          simp [start, hdot]
        · have hroot : ¬ (first.text = "" ∧ rest ≠ []) := by
            rintro ⟨hempty, hrest⟩
            apply habs
            cases rest with
            | nil => exact absurd rfl hrest
            | cons second rest => simp [isAbsolute, hempty]
          have hstart : start ⟨first :: rest, hpieces⟩ = .bare := by
            simp [start, hdot, hroot]
          have hbody : body ⟨first :: rest, hpieces⟩ = first :: rest := by
            rw [body, hstart]
          rw [hbody] at hall
          have hempty : first.text = "" := by
            have := hall first (by simp)
            simpa [Piece.isIdle, hdot] using this
          obtain ⟨text, hslash⟩ := first
          cases hempty
          apply hne
          have hrest : rest = [] := by simpa using hroot
          subst hrest
          rfl
      · rintro ⟨h, -⟩
        exact absurd h habs

theorem filter_idle {ps : List Piece} (h : ∀ s ∈ ps, s.isIdle = true) :
    (ps.filter fun s => !s.isIdle) = [] := by
  rw [List.filter_eq_nil_iff]
  intro s hs
  simp [h s hs]

/-- Cutting off the last piece that is not idle. -/
theorem parent?_eq (p : Path) :
    p.parent? = match p.body.reverse.dropWhile Piece.isIdle with
      | [] => match p.start with
        | .here => some empty
        | _ => none
      | _ :: before => some (build p.start (before.dropWhile Piece.isIdle).reverse) := by
  rw [parent?, above, ← aboveOf_dropWhile]
  cases h : p.body.reverse.dropWhile Piece.isIdle with
  | nil => cases p.start <;> rfl
  | cons piece before =>
    have hpiece : piece.isIdle = false := by
      have hhead := List.head?_dropWhile_not Piece.isIdle p.body.reverse
      rw [h] at hhead
      simpa using hhead
    rw [aboveOf, if_neg (by simp [hpiece])]
    rfl

/-- The nearest path above is what comes before the last piece that is not idle and before
the idle ones next to that. Only `.` in any spelling has no such piece, and above it is the
empty path. -/
theorem body_cases_of_parent? {p q : Path} (h : p.parent? = some q) :
    (p.start = .here ∧ q = empty ∧ ∀ s ∈ p.body, s.isIdle = true) ∨
      ∃ pieces idles piece rest, p.body = pieces ++ (idles ++ piece :: rest) ∧
        q = build p.start pieces ∧ piece.isIdle = false ∧ (∀ s ∈ idles, s.isIdle = true) ∧
        ∀ s ∈ rest, s.isIdle = true := by
  rw [parent?_eq] at h
  cases hrev : p.body.reverse.dropWhile Piece.isIdle with
  | nil =>
    rw [hrev] at h
    have hidle : ∀ s ∈ p.body, s.isIdle = true := by simpa using hrev
    cases hs : p.start with
    | here =>
      rw [hs] at h
      cases h
      exact Or.inl ⟨rfl, rfl, hidle⟩
    | root =>
      rw [hs] at h
      cases h
    | bare =>
      rw [hs] at h
      cases h
  | cons piece before =>
    rw [hrev] at h
    cases h
    have hpiece : piece.isIdle = false := by
      have hhead := List.head?_dropWhile_not Piece.isIdle p.body.reverse
      rw [hrev] at hhead
      simpa using hhead
    have hidle {l : List Piece} : ∀ s ∈ (l.takeWhile Piece.isIdle).reverse, s.isIdle = true :=
      fun s hs => List.mem_takeWhile_imp (List.mem_reverse.1 hs)
    have hbody : p.body = (before.dropWhile Piece.isIdle).reverse ++
        ((before.takeWhile Piece.isIdle).reverse ++
          piece :: (p.body.reverse.takeWhile Piece.isIdle).reverse) := by
      rw [← List.append_assoc, ← List.reverse_append, List.takeWhile_append_dropWhile]
      have hsplit := congrArg List.reverse
        (List.takeWhile_append_dropWhile (p := Piece.isIdle) (l := p.body.reverse))
      rw [hrev, List.reverse_reverse] at hsplit
      simpa using hsplit.symm
    exact Or.inr ⟨_, _, piece, _, hbody, rfl, hpiece, hidle, hidle⟩

theorem exists_body_eq_of_parent? {p q : Path} (h : p.parent? = some q) (hq : q ≠ empty) :
    ∃ pieces idles piece rest, p.body = pieces ++ (idles ++ piece :: rest) ∧
      q = build p.start pieces ∧ p.components.2.getLast? = some piece ∧
      (∀ s ∈ idles, s.isIdle = true) ∧ ∀ s ∈ rest, s.isIdle = true := by
  rcases body_cases_of_parent? h with
    ⟨-, hempty, -⟩ | ⟨pieces, idles, piece, rest, hbody, hbuild, hpiece, hidles, hrest⟩
  · exact absurd hempty hq
  · refine ⟨pieces, idles, piece, rest, hbody, hbuild, ?_, hidles, hrest⟩
    rw [components, hbody, ← List.append_assoc, List.filter_append, List.filter_cons,
      filter_idle hrest]
    simp [hpiece]

end Above

section Components

variable {p : Path}

/-- The pieces of a path that name something, `..` included. -/
def steps (p : Path) : List Piece :=
  p.pieces.filter fun piece => !piece.isIdle

theorem components_of_isAbsolute (h : p.isAbsolute = true) : p.components = (.root, p.steps) := by
  rw [components, start_of_isAbsolute h, steps, pieces_of_isAbsolute h]
  rfl

/-- A relative path puts its steps after those of the base. -/
theorem steps_join (base : Path) {rel : Path} (h : rel.isAbsolute = false) :
    (base.join rel).steps = base.steps ++ rel.steps := by
  rw [steps, pieces_join base h, List.filter_append]
  congr 1
  rw [stem]
  split
  · next hlast =>
    have hpieces := List.dropLast_concat_getLast base.ne_nil
    rw [hlast] at hpieces
    rw [steps, ← hpieces]
    simp
  · rfl

/-- An absolute path with a last step has a path above it, with the steps before that one. -/
theorem exists_parent?_of_steps (habs : p.isAbsolute = true) {before : List Piece} {last : Piece}
    (h : p.steps = before ++ [last]) :
    ∃ q, p.parent? = some q ∧ q.isAbsolute = true ∧ q.steps = before := by
  cases hparent : p.parent? with
  | none =>
    obtain ⟨-, hidle⟩ := (parent?_eq_none_iff (ne_empty_of_isAbsolute habs)).1 hparent
    rw [steps, filter_idle hidle] at h
    simp at h
  | some q =>
    have hq : q.isAbsolute = true := isAbsolute_of_mem_above habs (List.mem_of_mem_head? hparent)
    refine ⟨q, rfl, hq, ?_⟩
    obtain ⟨pieces, idles, piece, rest, hbody, hbuild, hlast, hidles, hrest⟩ :=
      exists_body_eq_of_parent? hparent (ne_empty_of_isAbsolute hq)
    have hpiece : piece.isIdle = false := by
      have hmem := List.mem_of_getLast? hlast
      simpa using (List.mem_filter.1 hmem).2
    have hcut : q.steps = pieces.filter fun s => !s.isIdle := by
      have hcomponents := components_of_isAbsolute hq
      rw [hbuild, components_build hbody] at hcomponents
      rw [hbuild]
      exact (congrArg Prod.snd hcomponents).symm
    have hall : p.steps = p.body.filter fun s => !s.isIdle :=
      (congrArg Prod.snd (components_of_isAbsolute habs)).symm
    rw [hbody, List.filter_append, List.filter_append, List.filter_cons, filter_idle hidles,
      filter_idle hrest, ← hcut, h] at hall
    simp only [hpiece, Bool.not_false, if_true, List.nil_append] at hall
    exact (List.append_inj' hall rfl).1.symm

end Components

end TreeShell.Path
