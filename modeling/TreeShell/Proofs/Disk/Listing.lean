import Mathlib.Data.List.Sort
import TreeShell.Disk.Directories
import TreeShell.Proofs.Disk.Calls
import TreeShell.Proofs.Text.ByteOrder
import TreeShell.Proofs.Tree.Entries

/-!
# What is in a directory

The listing of a directory has the name of each entry once, and the names are in the order
of their bytes. There is only one such list (`Tree.Lists.eq_of_entries`), so neither the
order in which the entries were made nor the one in which they are found can be told from
the listing.
-/

namespace TreeShell

variable {names names' enumerated : List String}

/-- Names that are all different stand in strictly increasing order when they are sorted. -/
theorem Text.pairwise_mergeSort (h : names.Nodup) :
    (names.mergeSort fun n m => decide (n ≤ m)).Pairwise fun n m =>
      Text.encode n < Text.encode m := by
  have hsorted : (names.mergeSort fun n m => decide (n ≤ m)).Pairwise fun n m =>
      decide (n ≤ m) = true :=
    List.pairwise_mergeSort (fun _ _ _ => by simpa using String.le_trans)
      (fun n m => by simpa using String.le_total n m) names
  have hnodup := (List.mergeSort_perm names fun n m => decide (n ≤ m)).nodup_iff.2 h
  refine hsorted.imp₂ (fun n m hle hne => Text.encode_lt_encode ?_) hnodup
  exact String.not_le.1 fun hge => hne (String.le_antisymm (of_decide_eq_true hle) hge)

/-- There is only one list of given texts that is in the order of the bytes. -/
theorem Text.eq_of_pairwise (h : names.Pairwise fun n m => Text.encode n < Text.encode m)
    (h' : names'.Pairwise fun n m => Text.encode n < Text.encode m)
    (hmem : ∀ text, text ∈ names ↔ text ∈ names') : names = names' :=
  List.Pairwise.eq_of_mem_iff (h.imp Text.encode_lt_encode_iff.1)
    (h'.imp Text.encode_lt_encode_iff.1) hmem

theorem FileName.text_injective : Function.Injective FileName.text := by
  rintro ⟨_, _⟩ ⟨_, _⟩ rfl
  rfl

namespace Tree

variable {t t' : Tree} {a a' : Address}

/-- The names of the entries of the directory at `a`, each of them once, in the order of
their bytes. -/
structure Lists (t : Tree) (a : Address) (names : List String) : Prop where
  sorted : names.Pairwise fun n m => Text.encode n < Text.encode m
  mem (text : String) : text ∈ names ↔ ∃ n : FileName, n.text = text ∧ t.entry? (n :: a) ≠ none

theorem nodup_children (t : Tree) (a : Address) : (t.children a).Nodup := by
  rw [children, List.Nodup, List.pairwise_filterMap]
  refine (List.pairwise_map.1 t.nodup).imp ?_
  rintro ⟨b, e⟩ ⟨b', e'⟩ hne n hn m hm rfl
  apply hne
  cases b with
  | nil => cases hn
  | cons k b =>
    cases b' with
    | nil => cases hm
    | cons k' b' =>
      simp only [Option.ite_none_right_eq_some, Option.some.injEq] at hn hm
      rw [hn.1, hn.2, hm.1, hm.2]

theorem nodup_map_text_children (t : Tree) (a : Address) :
    ((t.children a).map FileName.text).Nodup :=
  (t.nodup_children a).map FileName.text_injective

theorem lists_of_perm (hsorted : names.Pairwise fun n m => Text.encode n < Text.encode m)
    (hperm : names.Perm ((t.children a).map FileName.text)) : t.Lists a names := by
  refine ⟨hsorted, fun text => ?_⟩
  rw [hperm.mem_iff, List.mem_map]
  simp only [mem_children, Option.ne_none_iff_exists', and_comm]

theorem lists_mergeSort (t : Tree) (a : Address) :
    t.Lists a (((t.children a).map FileName.text).mergeSort fun n m => decide (n ≤ m)) :=
  lists_of_perm (Text.pairwise_mergeSort (t.nodup_map_text_children a)) (List.mergeSort_perm _ _)

theorem Lists.mem_text_iff (h : t.Lists a names) (n : FileName) :
    n.text ∈ names ↔ t.entry? (n :: a) ≠ none := by
  rw [h.mem]
  constructor
  · rintro ⟨m, hm, hentry⟩
    rwa [← FileName.text_injective hm]
  · intro hentry
    exact ⟨n, rfl, hentry⟩

/-- Directories with entries of the same names have the same listing. -/
theorem Lists.eq_of_entries (h : t.Lists a names) (h' : t'.Lists a' names')
    (hsame : ∀ n, t.entry? (n :: a) ≠ none ↔ t'.entry? (n :: a') ≠ none) : names = names' := by
  refine Text.eq_of_pairwise h.sorted h'.sorted fun text => ?_
  simp only [h.mem, h'.mem, hsame]

/-- In whatever order the names are found, sorting them gives the same list. -/
theorem Lists.mergeSort_eq (h : t.Lists a names) (hperm : enumerated.Perm names) :
    (enumerated.mergeSort fun n m => decide (n ≤ m)) = names := by
  have hnodup : enumerated.Nodup :=
    hperm.nodup_iff.2 (h.sorted.imp fun hlt => String.ne_of_lt (Text.encode_lt_encode_iff.1 hlt))
  refine Text.eq_of_pairwise (Text.pairwise_mergeSort hnodup) h.sorted fun text => ?_
  rw [List.mem_mergeSort, hperm.mem_iff]

end Tree

namespace Disk

variable {h : Host} {p : Path} {a : Address}

theorem listDir_of_find (hfind : h.tree.find p = .ok (a, .dir)) :
    ∃ names, h.tree.Lists a names ∧ listDir p h = .ok names h := by
  refine ⟨_, h.tree.lists_mergeSort a, ?_⟩
  rw [listDir, bind_of_ok (requireDir_of_find hfind)]
  rfl

end Disk

end TreeShell
