import Mathlib.Data.List.Lex
import TreeShell.Text.Utf8

/-!
# The order of the bytes

Texts are ordered by the numbers of their characters. The bytes of UTF-8 are ordered in the
same way (`encode_lt_encode_iff`): a longer character begins with a larger byte, and of two
characters of the same length the first byte in which they differ decides, since the bytes
are the digits of their numbers. In both cases this byte is there in both, so that it does
not matter what follows (`branchesBelow_encodeChar`).
-/

namespace TreeShell.Text

/-- The bytes are as the others up to one that is smaller than the other in its place. -/
def BranchesBelow (bs cs : List UInt8) : Prop :=
  ∃ common b c before after, bs = common ++ b :: before ∧ cs = common ++ c :: after ∧ b < c

variable {bs cs : List UInt8} {x y : Nat}

/-- The first bytes decide, or they are the same and the others do. -/
theorem branchesBelow_cons (hx : x < 256) (hy : y < 256) (hle : x ≤ y)
    (h : x = y → BranchesBelow bs cs) :
    BranchesBelow (UInt8.ofNat x :: bs) (UInt8.ofNat y :: cs) := by
  rcases Nat.lt_or_eq_of_le hle with hlt | rfl
  · refine ⟨[], _, _, bs, cs, rfl, rfl, ?_⟩
    rw [UInt8.lt_iff_toNat_lt, UInt8.toNat_ofNat_of_lt' hx, UInt8.toNat_ofNat_of_lt' hy]
    exact hlt
  · obtain ⟨common, b, c, before, after, rfl, rfl, hlt⟩ := h rfl
    exact ⟨UInt8.ofNat x :: common, b, c, before, after, rfl, rfl, hlt⟩

theorem branchesBelow_of_lt (hy : y < 256) (hlt : x < y) :
    BranchesBelow (UInt8.ofNat x :: bs) (UInt8.ofNat y :: cs) :=
  branchesBelow_cons (hlt.trans hy) hy hlt.le fun heq => absurd heq hlt.ne

/-- What follows a byte in which two texts differ does not matter. -/
theorem BranchesBelow.append_lt (h : BranchesBelow bs cs) (more more' : List UInt8) :
    bs ++ more < cs ++ more' := by
  obtain ⟨common, b, c, before, after, rfl, rfl, hlt⟩ := h
  rw [List.append_assoc, List.append_assoc]
  exact List.Lex.append_left _ (List.Lex.rel hlt) common

/-- A character with a smaller number has smaller bytes. -/
theorem branchesBelow_encodeChar {c d : Char} (h : c < d) :
    BranchesBelow (String.utf8EncodeChar c) (String.utf8EncodeChar d) := by
  have hlt : c.val.toNat < d.val.toNat := h
  have hd : d.val.toNat < 0x110000 := by
    have hvalid : d.val.toNat < 0xD800 ∨ 0xDFFF < d.val.toNat ∧ d.val.toNat < 0x110000 := d.valid
    omega
  rw [String.utf8EncodeChar, String.utf8EncodeChar]
  generalize c.val.toNat = v at hlt
  generalize d.val.toNat = w at hlt hd
  by_cases h1 : w ≤ 127
  · rw [if_pos (hlt.le.trans h1), if_pos h1]
    exact branchesBelow_of_lt (by omega) hlt
  rw [if_neg h1]
  -- a character with fewer bytes has a smaller first byte; with as many the digits decide
  by_cases h2 : w ≤ 2047
  · rw [if_pos h2]
    split
    · exact branchesBelow_of_lt (by omega) (by omega)
    · rw [if_pos (hlt.le.trans h2)]
      exact branchesBelow_cons (by omega) (by omega) (by omega) fun _ =>
        branchesBelow_of_lt (by omega) (by omega)
  rw [if_neg h2]
  by_cases h3 : w ≤ 65535
  · rw [if_pos h3]
    split
    · exact branchesBelow_of_lt (by omega) (by omega)
    split
    · exact branchesBelow_of_lt (by omega) (by omega)
    · rw [if_pos (hlt.le.trans h3)]
      exact branchesBelow_cons (by omega) (by omega) (by omega) fun _ =>
        branchesBelow_cons (by omega) (by omega) (by omega) fun _ =>
          branchesBelow_of_lt (by omega) (by omega)
  rw [if_neg h3]
  split
  · exact branchesBelow_of_lt (by omega) (by omega)
  split
  · exact branchesBelow_of_lt (by omega) (by omega)
  split
  · exact branchesBelow_of_lt (by omega) (by omega)
  · exact branchesBelow_cons (by omega) (by omega) (by omega) fun _ =>
      branchesBelow_cons (by omega) (by omega) (by omega) fun _ =>
        branchesBelow_cons (by omega) (by omega) (by omega) fun _ =>
          branchesBelow_of_lt (by omega) (by omega)

theorem encode_lt_encode {s t : String} (h : s < t) : encode s < encode t := by
  change s.toList < t.toList at h
  rw [encode, encode]
  generalize s.toList = cs at h
  generalize t.toList = ds at h
  induction h with
  | @nil d ds =>
    rw [List.flatMap_cons, List.flatMap_nil]
    obtain ⟨b, bs, hd⟩ := List.exists_cons_of_ne_nil (String.utf8EncodeChar_ne_nil (c := d))
    rw [hd]
    exact List.Lex.nil
  | @cons c cs ds hlt ih =>
    rw [List.flatMap_cons, List.flatMap_cons]
    exact List.Lex.append_left _ ih _
  | @rel c cs d ds hlt =>
    rw [List.flatMap_cons, List.flatMap_cons]
    exact (branchesBelow_encodeChar hlt).append_lt _ _

/-- The bytes of texts are ordered as the texts are. -/
theorem encode_lt_encode_iff {s t : String} : encode s < encode t ↔ s < t := by
  refine ⟨fun h => ?_, encode_lt_encode⟩
  by_contra hnot
  rcases Classical.em (t < s) with hlt | hlt
  · exact List.lt_asymm h (encode_lt_encode hlt)
  · rw [String.le_antisymm (String.not_lt.1 hlt) (String.not_lt.1 hnot)] at h
    exact List.lt_irrefl _ h

end TreeShell.Text
