import Mathlib.Data.List.Infix
import TreeShell.Tree.Calls

/-!
# What the operations do to the entries

One equation for each operation on a tree: what is at an address afterwards, in
terms of what was there before. Everything else about the operations follows
from these, so nothing after this module looks at the list of entries again.

That every entry lies in directories all the way up to the root is
`hasDir_of_suffix`.
-/

namespace TreeShell

/-- What an entry is, apart from its bytes or its target. -/
inductive Kind where
  | dir
  | file
  | link
deriving DecidableEq

/-- The kind of an entry. -/
def Entry.kind : Entry → Kind
  | .dir => .dir
  | .file _ => .file
  | .link _ => .link

@[simp] theorem Entry.kind_withBytes (bytes : List UInt8) (e : Entry) :
    (e.withBytes bytes).kind = e.kind := by
  cases e <;> rfl

theorem Entry.kind_eq_dir_iff {e : Entry} : e.kind = .dir ↔ e = .dir := by
  cases e <;> simp [Entry.kind]

theorem Entry.kind_eq_link_iff {e : Entry} : e.kind = .link ↔ ∃ target, e = .link target := by
  cases e <;> simp [Entry.kind]

namespace Tree

/-- No entry of the tree is a symbolic link. -/
def Linkless (t : Tree) : Prop :=
  ∀ a target, t.entry? a ≠ some (.link target)

theorem Linkless.kind_ne {t : Tree} (hl : t.Linkless) {a : Address} {e : Entry}
    (he : t.entry? a = some e) : e.kind ≠ .link := by
  intro hk
  obtain ⟨target, rfl⟩ := Entry.kind_eq_link_iff.1 hk
  exact hl a target he

variable (t : Tree)

theorem linkless_iff : t.Linkless ↔ ∀ x ∈ t.entries, x.2.kind ≠ .link := by
  constructor
  · rintro h ⟨a, e⟩ hx hk
    obtain ⟨target, rfl⟩ := Entry.kind_eq_link_iff.1 hk
    cases a with
    | nil => exact t.rootless _ hx
    | cons n a => exact h _ target (t.entry?_cons_eq_some_iff.2 hx)
  · intro h a target ha
    cases a with
    | nil => cases ha
    | cons n a => exact h _ (t.entry?_cons_eq_some_iff.1 ha) rfl

instance : Decidable t.Linkless :=
  decidable_of_iff _ t.linkless_iff.symm

theorem hasDir_nil : t.HasDir [] := rfl

variable {t} in
theorem HasDir.eq_dir {a : Address} {e : Entry} (h : t.HasDir a) (he : t.entry? a = some e) :
    e = .dir :=
  Option.some.inj (he.symm.trans h)

variable {t} in
theorem HasDir.ne_none {a : Address} (h : t.HasDir a) : t.entry? a ≠ none := by
  rw [h]
  exact Option.some_ne_none Entry.dir

/-- An address below another one is at or below an entry of it. -/
theorem exists_cons_suffix {a b : Address} (h : a <:+ b) (hne : a ≠ b) : ∃ n, n :: a <:+ b := by
  obtain ⟨d, rfl⟩ := h
  rcases List.eq_nil_or_concat' d with rfl | ⟨d, n, rfl⟩
  · exact absurd rfl hne
  · exact ⟨n, d, by simp⟩

theorem isBelow_iff_exists_cons {a b : Address} :
    isBelow a b = true ↔ ∃ n, n :: a <:+ b := by
  rw [isBelow_iff]
  constructor
  · rintro ⟨hab, hne⟩
    exact exists_cons_suffix hab hne
  · rintro ⟨n, hn⟩
    refine ⟨(List.suffix_cons n a).trans hn, ?_⟩
    rintro rfl
    exact absurd hn.length_le (by simp)

/-- Everything above an entry is a directory. -/
theorem hasDir_of_suffix {a b : Address} {e : Entry} (h : t.entry? b = some e) (hab : a <:+ b)
    (hne : a ≠ b) : t.HasDir a := by
  induction b generalizing e with
  | nil =>
    exact absurd (List.eq_nil_of_suffix_nil hab) hne
  | cons n b ih =>
    have hb : t.HasDir b := t.hasDir_of_entry? h
    rcases List.suffix_cons_iff.1 hab with rfl | hab
    · exact absurd rfl hne
    · by_cases hq : a = b
      · rw [hq]
        exact hb
      · exact ih hb hab hq

variable {t} in
/-- Nothing is below an address where nothing is. -/
theorem entry?_eq_none_of_suffix {a b : Address} (h : t.entry? a = none) (hab : a <:+ b) :
    t.entry? b = none := by
  by_contra hb
  obtain ⟨e, he⟩ := Option.ne_none_iff_exists'.1 hb
  by_cases hne : a = b
  · exact hb (hne ▸ h)
  · exact (t.hasDir_of_suffix he hab hne).ne_none h

theorem hasDir_of_hasDir_suffix {a b : Address} (h : t.HasDir b) (hab : a <:+ b) : t.HasDir a := by
  by_cases hne : a = b
  · rw [hne]
    exact h
  · exact t.hasDir_of_suffix h hab hne

theorem hasDir_tail {a : Address} (h : t.HasDir a) : t.HasDir a.tail :=
  t.hasDir_of_hasDir_suffix h (List.tail_suffix a)

theorem entry?_ext_cons {u : Tree} {b : Address}
    (h : ∀ n c, b = n :: c → ∀ e, (n :: c, e) ∈ t.entries ↔ (n :: c, e) ∈ u.entries) :
    t.entry? b = u.entry? b := by
  cases b with
  | nil => rfl
  | cons n c =>
    apply Option.ext
    intro e
    rw [entry?_cons_eq_some_iff, entry?_cons_eq_some_iff]
    exact h n c rfl e

theorem entry?_insert {n : FileName} {a : Address} (hd : t.HasDir a) (hn : t.entry? (n :: a) = none)
    (e : Entry) (b : Address) :
    entry? (t.insert n a e) b = if b = n :: a then some e else t.entry? b := by
  have hentries : (t.insert n a e).entries = t.entries ++ [(n :: a, e)] := by
    simp [insert, hd, hn]
  by_cases hb : b = n :: a
  · subst hb
    rw [if_pos rfl, entry?_cons_eq_some_iff, hentries]
    simp
  · rw [if_neg hb]
    apply entry?_ext_cons
    rintro m c rfl f
    rw [hentries]
    simp only [List.mem_append, List.mem_singleton, Prod.mk.injEq]
    constructor
    · rintro (h | ⟨h, -⟩)
      · exact h
      · exact absurd h hb
    · exact Or.inl

theorem entry?_setBytes (a : Address) (bytes : List UInt8) (b : Address) :
    entry? (t.setBytes a bytes) b =
      if b = a then (t.entry? b).map (Entry.withBytes bytes) else t.entry? b := by
  cases b with
  | nil =>
    split <;> rfl
  | cons n c =>
    apply Option.ext
    intro f
    rw [entry?_cons_eq_some_iff]
    have hmem : (n :: c, f) ∈ (t.setBytes a bytes).entries ↔
        ∃ e, t.entry? (n :: c) = some e ∧ (if n :: c = a then e.withBytes bytes else e) = f := by
      simp only [setBytes, List.mem_map, Prod.mk.injEq, Prod.exists]
      constructor
      · rintro ⟨b, e, h, rfl, rfl⟩
        exact ⟨e, t.entry?_cons_eq_some_iff.2 h, rfl⟩
      · rintro ⟨e, h, rfl⟩
        exact ⟨n :: c, e, t.entry?_cons_eq_some_iff.1 h, rfl, rfl⟩
    rw [hmem]
    by_cases hb : n :: c = a
    · simp [hb]
    · simp [hb]

theorem entry?_without (drop : Address → Bool)
    (below : ∀ n a, drop a = true → drop (n :: a) = true) {b : Address} (hb : b ≠ []) :
    entry? (t.without drop below) b = if drop b = true then none else t.entry? b := by
  cases b with
  | nil => exact absurd rfl hb
  | cons n c =>
    apply Option.ext
    intro f
    rw [entry?_cons_eq_some_iff]
    simp only [without, List.mem_filter, ← entry?_cons_eq_some_iff]
    cases drop (n :: c) <;> simp

/-- Without an entry everything below it is gone, too. The root stays. -/
theorem entry?_erase (a : Address) {b : Address} (hb : b ≠ []) :
    entry? (t.erase a) b = if a <:+ b then none else t.entry? b := by
  rw [erase, entry?_without _ _ _ hb]
  simp only [isAtOrBelow_iff]

theorem entry?_clear (a b : Address) :
    entry? (t.clear a) b = if a <:+ b ∧ a ≠ b then none else t.entry? b := by
  cases b with
  | nil =>
    rw [if_neg]
    · rfl
    · rintro ⟨h, hne⟩
      exact hne (List.eq_nil_of_suffix_nil h)
  | cons n b =>
    refine (t.entry?_without (isBelow a) _ (List.cons_ne_nil n b)).trans ?_
    simp only [isBelow_iff]

theorem mem_children {a : Address} {n : FileName} :
    n ∈ t.children a ↔ ∃ e, t.entry? (n :: a) = some e := by
  simp only [children, List.mem_filterMap, entry?_cons_eq_some_iff]
  constructor
  · rintro ⟨⟨b, e⟩, hb, h⟩
    cases b with
    | nil => cases h
    | cons m b =>
      simp only [Option.ite_none_right_eq_some, Option.some.injEq] at h
      obtain ⟨rfl, rfl⟩ := h
      exact ⟨e, hb⟩
  · rintro ⟨e, h⟩
    exact ⟨(n :: a, e), h, by simp⟩

/-- The entries below `a`, by their addresses relative to `a`. -/
theorem mem_below {a rel : Address} {e : Entry} :
    (rel, e) ∈ t.below a ↔ rel ≠ [] ∧ t.entry? (rel ++ a) = some e := by
  simp only [below, List.mem_filterMap, Option.ite_none_right_eq_some, Option.some.injEq,
    Prod.mk.injEq, isBelow_iff, Prod.exists]
  constructor
  · rintro ⟨b, f, hb, ⟨⟨rel', rfl⟩, hne⟩, rfl, rfl⟩
    have htake : (rel' ++ a).take ((rel' ++ a).length - a.length) = rel' := by simp
    rw [htake]
    cases rel' with
    | nil => exact absurd rfl hne
    | cons n rel' => exact ⟨List.cons_ne_nil _ _, t.entry?_cons_eq_some_iff.2 hb⟩
  · rintro ⟨hne, h⟩
    cases rel with
    | nil => exact absurd rfl hne
    | cons n rel =>
      have hlen : (n :: rel ++ a).length - a.length = (n :: rel).length := by
        rw [List.length_append, Nat.add_sub_cancel]
      refine ⟨n :: rel ++ a, e, t.entry?_cons_eq_some_iff.1 h, ⟨⟨n :: rel, rfl⟩, ?_⟩, ?_, rfl⟩
      · intro heq
        exact hne (List.append_left_eq_self.1 heq.symm)
      · rw [hlen, List.take_left]

theorem nodup_below (a : Address) : ((t.below a).map Prod.fst).Nodup := by
  have h := t.nodup
  rw [below]
  generalize t.entries = l at h
  induction l with
  | nil => simp
  | cons x l ih =>
    simp only [List.map_cons, List.nodup_cons] at h
    rw [List.filterMap_cons]
    split
    · exact ih h.2
    · next y hy =>
      rw [Option.ite_none_right_eq_some, Option.some.injEq] at hy
      obtain ⟨hx, rfl⟩ := hy
      rw [List.map_cons, List.nodup_cons]
      refine ⟨?_, ih h.2⟩
      intro hmem
      obtain ⟨y, hy, hrel⟩ := List.mem_map.1 hmem
      obtain ⟨z, hz, hzy⟩ := List.mem_filterMap.1 hy
      rw [Option.ite_none_right_eq_some, Option.some.injEq] at hzy
      obtain ⟨hz', rfl⟩ := hzy
      obtain ⟨⟨r₁, hr₁⟩, -⟩ := isBelow_iff.1 hx
      obtain ⟨⟨r₂, hr₂⟩, -⟩ := isBelow_iff.1 hz'
      apply h.1
      rw [List.mem_map]
      refine ⟨z, hz, ?_⟩
      rw [← hr₁, ← hr₂] at hrel ⊢
      simpa using hrel

end Tree

end TreeShell
