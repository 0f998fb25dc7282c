import TreeShell.Tree.Name

/-!
# Trees

A tree of directories, files and symbolic links is a finite map from addresses
to entries. The root is always a directory and is not listed; every other
entry lies in a listed directory, and no address is listed twice. These three
facts are fields of the type, so every operation keeps them.

`Tree.entry?` is the view through which the operations are described: what is
at an address. The order of the list is the order of creation and shows in no
answer.
-/

namespace TreeShell

/-- What can be at an address. -/
inductive Entry where
  | dir
  | file (bytes : List UInt8)
  | link (target : Path)
deriving DecidableEq

/-- The entry with the bytes replaced, if it is a file. -/
def Entry.withBytes (bytes : List UInt8) : Entry → Entry
  | .file _ => .file bytes
  | e => e

/-- A tree below the root directory. -/
structure Tree where
  entries : List (Address × Entry)
  rootless : ∀ e, ([], e) ∉ entries
  nodup : (entries.map Prod.fst).Nodup
  closed : ∀ n a e, (n :: a, e) ∈ entries → a = [] ∨ (a, .dir) ∈ entries
deriving DecidableEq

namespace Tree

/-- What is at the address. -/
def entry? (t : Tree) : Address → Option Entry
  | [] => some .dir
  | n :: a => t.entries.lookup (n :: a)

/-- Whether there is a directory at the address. -/
def HasDir (t : Tree) (a : Address) : Prop :=
  t.entry? a = some .dir

instance (t : Tree) (a : Address) : Decidable (t.HasDir a) := by
  unfold HasDir; infer_instance

/-- The tree with nothing below the root. -/
def empty : Tree where
  entries := []
  rootless := by simp
  nodup := by simp
  closed := by simp

theorem lookup_eq_some_iff {α β : Type} [BEq α] [LawfulBEq α] {l : List (α × β)}
    (h : (l.map Prod.fst).Nodup) {a : α} {b : β} : l.lookup a = some b ↔ (a, b) ∈ l := by
  induction l with
  | nil => simp
  | cons x l ih =>
    obtain ⟨a', b'⟩ := x
    simp only [List.map_cons, List.nodup_cons, List.mem_map, not_exists, not_and] at h
    rw [List.lookup_cons]
    cases hab : a == a' with
    | true =>
      have hab := eq_of_beq hab
      subst hab
      constructor
      · rintro ⟨rfl⟩
        exact List.mem_cons_self
      · intro hm
        rcases List.mem_cons.1 hm with hm | hm
        · cases hm; rfl
        · exact absurd rfl (h.1 (a, b) hm)
    | false =>
      have hne : a ≠ a' := ne_of_beq_false hab
      simp only [List.mem_cons, Prod.mk.injEq, hne, false_and, false_or]
      exact ih h.2

theorem entry?_cons_eq_some_iff (t : Tree) {n : FileName} {a : Address} {e : Entry} :
    t.entry? (n :: a) = some e ↔ (n :: a, e) ∈ t.entries :=
  lookup_eq_some_iff t.nodup

@[simp] theorem entry?_nil (t : Tree) : t.entry? [] = some .dir := rfl

@[simp] theorem entry?_empty_cons (n : FileName) (a : Address) : empty.entry? (n :: a) = none := rfl

/-- The parent of an entry is a directory. -/
theorem hasDir_of_entry? (t : Tree) {n : FileName} {a : Address} {e : Entry}
    (h : t.entry? (n :: a) = some e) : t.HasDir a := by
  cases a with
  | nil => rfl
  | cons m b =>
    rcases t.closed _ _ _ (t.entry?_cons_eq_some_iff.1 h) with h | h
    · cases h
    · exact t.entry?_cons_eq_some_iff.2 h

theorem fst_ne_of_entry?_eq_none (t : Tree) {n : FileName} {a : Address}
    (h : t.entry? (n :: a) = none) : n :: a ∉ t.entries.map Prod.fst := by
  intro hm
  obtain ⟨⟨b, e⟩, hb, rfl⟩ := List.mem_map.1 hm
  exact absurd (t.entry?_cons_eq_some_iff.2 hb) (by simp [h])

/-- Adds an entry named `n` to the directory at `a`. Nothing happens if there
is no such directory, or if it has an entry of that name. -/
def insert (t : Tree) (n : FileName) (a : Address) (e : Entry) : Tree :=
  if h : t.HasDir a ∧ t.entry? (n :: a) = none then
    { entries := t.entries ++ [(n :: a, e)]
      rootless := by simpa using t.rootless
      nodup := by
        rw [List.map_append, List.nodup_append]
        refine ⟨t.nodup, by simp, ?_⟩
        intro b hb c hc
        simp only [List.map_cons, List.map_nil, List.mem_singleton] at hc
        subst hc
        intro hbc
        exact t.fst_ne_of_entry?_eq_none h.2 (hbc ▸ hb)
      closed := by
        intro m b f hm
        rcases List.mem_append.1 hm with hm | hm
        · exact (t.closed m b f hm).imp_right fun hd => List.mem_append_left _ hd
        · simp only [List.mem_singleton, Prod.mk.injEq, List.cons.injEq] at hm
          obtain ⟨⟨rfl, rfl⟩, rfl⟩ := hm
          cases b with
          | nil => exact Or.inl rfl
          | cons k b =>
            exact Or.inr (List.mem_append_left _ (t.entry?_cons_eq_some_iff.1 h.1)) }
  else t

/-- Replaces the bytes of the file at `a`. Nothing happens if there is none. -/
def setBytes (t : Tree) (a : Address) (bytes : List UInt8) : Tree where
  entries := t.entries.map fun x => (x.1, if x.1 = a then x.2.withBytes bytes else x.2)
  rootless := by
    intro e he
    obtain ⟨⟨b, f⟩, hb, hbe⟩ := List.mem_map.1 he
    cases hbe
    exact t.rootless _ hb
  nodup := by simpa [Function.comp_def] using t.nodup
  closed := by
    intro n b e he
    obtain ⟨⟨c, f⟩, hc, hce⟩ := List.mem_map.1 he
    cases hce
    refine (t.closed _ _ _ hc).imp_right fun hd => List.mem_map.2 ⟨(b, .dir), hd, ?_⟩
    split <;> rfl

/-- The tree without the entries that `drop` selects, where everything below a
selected entry is selected too. -/
def without (t : Tree) (drop : Address → Bool)
    (below : ∀ n a, drop a = true → drop (n :: a) = true) : Tree where
  entries := t.entries.filter fun x => !drop x.1
  rootless := by
    intro e he
    exact t.rootless e (List.mem_filter.1 he).1
  nodup := by
    rw [show (t.entries.filter fun x => !drop x.1).map Prod.fst
      = (t.entries.map Prod.fst).filter fun a => !drop a by rw [List.filter_map]; rfl]
    exact t.nodup.filter _
  closed := by
    intro n a e he
    obtain ⟨hm, hk⟩ := List.mem_filter.1 he
    refine (t.closed n a e hm).imp_right fun hd => List.mem_filter.2 ⟨hd, ?_⟩
    cases hda : drop a with
    | false => simp
    | true => simp [below n a hda] at hk

/-- Whether `b` lies at `a` or below it. -/
def isAtOrBelow (a b : Address) : Bool :=
  a.isSuffixOf b

/-- Whether `b` lies below `a`. -/
def isBelow (a : Address) : Address → Bool
  | [] => false
  | _ :: b => isAtOrBelow a b

theorem isAtOrBelow_iff {a b : Address} : isAtOrBelow a b = true ↔ a <:+ b := by
  simp [isAtOrBelow]

theorem isBelow_iff {a b : Address} : isBelow a b = true ↔ a <:+ b ∧ a ≠ b := by
  cases b with
  | nil => simp [isBelow]
  | cons n b =>
    rw [isBelow, isAtOrBelow_iff, List.suffix_cons_iff]
    constructor
    · intro h
      refine ⟨Or.inr h, ?_⟩
      rintro rfl
      exact absurd h.length_le (by simp)
    · rintro ⟨rfl | h, hne⟩
      · exact absurd rfl hne
      · exact h

/-- Removes the entry at `a` with everything below it. -/
def erase (t : Tree) (a : Address) : Tree :=
  t.without (isAtOrBelow a) fun n b h =>
    isAtOrBelow_iff.2 ((isAtOrBelow_iff.1 h).trans (List.suffix_cons n b))

/-- Removes everything below `a`. -/
def clear (t : Tree) (a : Address) : Tree :=
  t.without (isBelow a) fun _ _ h =>
    isAtOrBelow_iff.2 (isBelow_iff.1 h).1

/-- The names of the entries of the directory at `a`, in no particular order. -/
def children (t : Tree) (a : Address) : List FileName :=
  t.entries.filterMap fun x =>
    match x.1 with
    | n :: b => if b = a then some n else none
    | [] => none

/-- The entries below `a`, by their addresses relative to `a`. -/
def below (t : Tree) (a : Address) : List (Address × Entry) :=
  t.entries.filterMap fun x =>
    if isBelow a x.1 then some (x.1.take (x.1.length - a.length), x.2) else none

/-- Two trees are the same when they have the same entries, in whatever order
these were made. -/
def Same (t u : Tree) : Prop :=
  ∀ a, t.entry? a = u.entry? a

end Tree

end TreeShell
