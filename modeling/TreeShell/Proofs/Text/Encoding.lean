import Mathlib.Data.List.Basic
import TreeShell.Text.Utf8

/-!
# Reading what was written

The bytes of a text are read back as the text (`decode?_encode`). The reader takes
the bytes of a character for that character, whatever follows them
(`decodeFrom_encodeChar`): the first byte says how many are to come, and the bounds
that it sets for the second one hold because no character is written longer than
it has to be, and none has a number between `0xD800` and `0xDFFF`.
-/

namespace TreeShell.Text

variable {m bits : Nat} {low high : UInt8} {p : Pending} {bs : List UInt8}

section Bytes

/-- What the number of a byte says that stands between characters. -/
theorem readLead_eq (b : UInt8) : readLead b =
    if b.toNat < 0x80 then ([some (Char.ofNat b.toNat)], none)
    else if b.toNat < 0xC2 then ([none], none)
    else if b.toNat < 0xE0 then ([], some ⟨0x80, 0xBF, 0, b.toNat - 0xC0⟩)
    else if b.toNat < 0xF0 then
      ([], some ⟨if b.toNat = 0xE0 then 0xA0 else 0x80, if b.toNat = 0xED then 0x9F else 0xBF, 1,
        b.toNat - 0xE0⟩)
    else if b.toNat < 0xF5 then
      ([], some ⟨if b.toNat = 0xF0 then 0x90 else 0x80, if b.toNat = 0xF4 then 0x8F else 0xBF, 2,
        b.toNat - 0xF0⟩)
    else ([none], none) := by
  simp only [readLead, UInt8.lt_iff_toNat_lt, ← UInt8.toNat_inj, UInt8.reduceToNat]

/-- A byte within the bounds carries six bits. -/
theorem readByte_of_bounds (hm : m < 64) (hlow : p.low.toNat ≤ m + 0x80)
    (hhigh : m + 0x80 ≤ p.high.toNat) :
    readByte (some p) (UInt8.ofNat (m + 0x80)) = match p.more with
      | 0 => ([some (Char.ofNat (p.bits * 64 + m))], none)
      | more + 1 => ([], some ⟨0x80, 0xBF, more, p.bits * 64 + m⟩) := by
  have htoNat : (UInt8.ofNat (m + 0x80)).toNat = m + 0x80 := by
    apply UInt8.toNat_ofNat_of_lt'
    change m + 0x80 < 256
    omega
  have hbounds : p.low ≤ UInt8.ofNat (m + 0x80) ∧ UInt8.ofNat (m + 0x80) ≤ p.high := by
    rw [UInt8.le_iff_toNat_le, UInt8.le_iff_toNat_le, htoNat]
    exact ⟨hlow, hhigh⟩
  rw [readByte, if_pos hbounds]
  cases hmore : p.more with
  | zero => simp only [readNext, hmore, htoNat, Nat.add_sub_cancel]
  | succ more => simp only [readNext, hmore, htoNat, Nat.add_sub_cancel]

theorem decodeFrom_of_last (hm : m < 64) (hlow : low.toNat ≤ m + 0x80)
    (hhigh : m + 0x80 ≤ high.toNat) :
    decodeFrom (some ⟨low, high, 0, bits⟩) (UInt8.ofNat (m + 0x80) :: bs) =
      some (Char.ofNat (bits * 64 + m)) :: decodeFrom none bs := by
  rw [decodeFrom_cons, readByte_of_bounds hm hlow hhigh]
  rfl

theorem decodeFrom_of_more {k : Nat} (hm : m < 64) (hlow : low.toNat ≤ m + 0x80)
    (hhigh : m + 0x80 ≤ high.toNat) :
    decodeFrom (some ⟨low, high, k + 1, bits⟩) (UInt8.ofNat (m + 0x80) :: bs) =
      decodeFrom (some ⟨0x80, 0xBF, k, bits * 64 + m⟩) bs := by
  rw [decodeFrom_cons, readByte_of_bounds hm hlow hhigh]
  rfl

theorem decodeFrom_of_lead {b : UInt8} {place : Option Pending}
    (hlead : readLead b = ([], place)) : decodeFrom none (b :: bs) = decodeFrom place bs := by
  rw [decodeFrom_cons, readByte, hlead]
  rfl

end Bytes

section Characters

variable {x y z w : Nat}

theorem toNat_ofNat_byte (hx : x < 256) : (UInt8.ofNat x).toNat = x :=
  UInt8.toNat_ofNat_of_lt' hx

theorem decodeFrom_one (hx : x < 0x80) :
    decodeFrom none (UInt8.ofNat x :: bs) = some (Char.ofNat x) :: decodeFrom none bs := by
  have hlead : readLead (UInt8.ofNat x) = ([some (Char.ofNat x)], none) := by
    rw [readLead_eq, toNat_ofNat_byte (by omega), if_pos hx]
  rw [decodeFrom_cons, readByte, hlead]
  rfl

theorem decodeFrom_two (hx : x < 32) (hlong : 2 ≤ x) (hy : y < 64) :
    decodeFrom none (UInt8.ofNat (x + 0xC0) :: UInt8.ofNat (y + 0x80) :: bs) =
      some (Char.ofNat (x * 64 + y)) :: decodeFrom none bs := by
  have hlead : readLead (UInt8.ofNat (x + 0xC0)) = ([], some ⟨0x80, 0xBF, 0, x⟩) := by
    rw [readLead_eq, toNat_ofNat_byte (by omega), if_neg (by omega), if_neg (by omega),
      if_pos (by omega), Nat.add_sub_cancel]
  rw [decodeFrom_of_lead hlead]
  exact decodeFrom_of_last hy (by simp) (by simp; omega)

theorem decodeFrom_three (hx : x < 16) (hy : y < 64) (hz : z < 64) (hlong : x = 0 → 32 ≤ y)
    (hvalid : x = 13 → y < 32) :
    decodeFrom none (UInt8.ofNat (x + 0xE0) :: UInt8.ofNat (y + 0x80) :: UInt8.ofNat (z + 0x80) ::
      bs) = some (Char.ofNat ((x * 64 + y) * 64 + z)) :: decodeFrom none bs := by
  have hlead : readLead (UInt8.ofNat (x + 0xE0)) = ([], some ⟨if x + 0xE0 = 0xE0 then 0xA0 else 0x80,
      if x + 0xE0 = 0xED then 0x9F else 0xBF, 1, x⟩) := by
    rw [readLead_eq, toNat_ofNat_byte (by omega), if_neg (by omega), if_neg (by omega),
      if_neg (by omega), if_pos (by omega), Nat.add_sub_cancel]
  have hlow : (if x + 0xE0 = 0xE0 then 0xA0 else 0x80 : UInt8).toNat ≤ y + 0x80 := by
    rw [apply_ite UInt8.toNat]
    simp only [UInt8.reduceToNat]
    split <;> omega
  have hhigh : y + 0x80 ≤ (if x + 0xE0 = 0xED then 0x9F else 0xBF : UInt8).toNat := by
    rw [apply_ite UInt8.toNat]
    simp only [UInt8.reduceToNat]
    split <;> omega
  rw [decodeFrom_of_lead hlead]
  refine (decodeFrom_of_more hy hlow hhigh).trans ?_
  exact decodeFrom_of_last hz (by simp) (by simp; omega)

theorem decodeFrom_four (hx : x < 5) (hy : y < 64) (hz : z < 64) (hw : w < 64)
    (hlong : x = 0 → 16 ≤ y) (hvalid : x = 4 → y < 16) :
    decodeFrom none (UInt8.ofNat (x + 0xF0) :: UInt8.ofNat (y + 0x80) :: UInt8.ofNat (z + 0x80) ::
      UInt8.ofNat (w + 0x80) :: bs) =
      some (Char.ofNat (((x * 64 + y) * 64 + z) * 64 + w)) :: decodeFrom none bs := by
  have hlead : readLead (UInt8.ofNat (x + 0xF0)) = ([], some ⟨if x + 0xF0 = 0xF0 then 0x90 else 0x80,
      if x + 0xF0 = 0xF4 then 0x8F else 0xBF, 2, x⟩) := by
    rw [readLead_eq, toNat_ofNat_byte (by omega), if_neg (by omega), if_neg (by omega),
      if_neg (by omega), if_neg (by omega), if_pos (by omega), Nat.add_sub_cancel]
  have hlow : (if x + 0xF0 = 0xF0 then 0x90 else 0x80 : UInt8).toNat ≤ y + 0x80 := by
    rw [apply_ite UInt8.toNat]
    simp only [UInt8.reduceToNat]
    split <;> omega
  have hhigh : y + 0x80 ≤ (if x + 0xF0 = 0xF4 then 0x8F else 0xBF : UInt8).toNat := by
    rw [apply_ite UInt8.toNat]
    simp only [UInt8.reduceToNat]
    split <;> omega
  rw [decodeFrom_of_lead hlead]
  refine (decodeFrom_of_more hy hlow hhigh).trans ?_
  refine (decodeFrom_of_more hz (by simp) (by simp; omega)).trans ?_
  exact decodeFrom_of_last hw (by simp) (by simp; omega)

/-- The bytes of a character are read as the character. -/
theorem decodeFrom_encodeChar (c : Char) (bs : List UInt8) :
    decodeFrom none (String.utf8EncodeChar c ++ bs) = some c :: decodeFrom none bs := by
  have hvalid : c.val.toNat < 0xD800 ∨ 0xDFFF < c.val.toNat ∧ c.val.toNat < 0x110000 := c.valid
  have hc : Char.ofNat c.val.toNat = c := Char.ofNat_toNat c
  rw [String.utf8EncodeChar]
  generalize c.val.toNat = v at hvalid hc
  rw [← hc]
  by_cases hone : v ≤ 0x7F
  · simp only [if_pos hone, List.cons_append, List.nil_append]
    exact decodeFrom_one (by omega)
  by_cases htwo : v ≤ 0x7FF
  · simp only [if_neg hone, if_pos htwo, List.cons_append, List.nil_append]
    rw [decodeFrom_two (by omega) (by omega) (by omega)]
    congr
    omega
  by_cases hthree : v ≤ 0xFFFF
  · simp only [if_neg hone, if_neg htwo, if_pos hthree, List.cons_append, List.nil_append]
    rw [decodeFrom_three (by omega) (by omega) (by omega) (by omega) (by omega)]
    congr
    omega
  · simp only [if_neg hone, if_neg htwo, if_neg hthree, List.cons_append, List.nil_append]
    have hx : v / 262144 % 8 < 5 := by omega
    rw [decodeFrom_four hx (by omega) (by omega) (by omega) (by omega) (by omega)]
    congr
    omega

end Characters

theorem decodeFrom_encode (text : String) :
    decodeFrom none (encode text) = text.toList.map some := by
  rw [encode]
  induction text.toList with
  | nil => rfl
  | cons c cs ih => rw [List.flatMap_cons, decodeFrom_encodeChar, ih, List.map_cons]

/-- The bytes of a text spell the text. -/
theorem decode?_encode (text : String) : decode? (encode text) = some text := by
  have hall (cs : List Char) : (cs.map some).mapM id = some cs := by
    induction cs with
    | nil => rfl
    | cons c cs ih => simp [ih]
  rw [decode?, decodeFrom_encode, hall, Option.map_some, String.ofList_toList]

end TreeShell.Text
