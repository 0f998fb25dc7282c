import TreeShell.Proofs.Text.Encoding
import TreeShell.Text.Lines

/-!
# Bytes and their lines

A byte below `0x80` stands for itself wherever it is read: it ends a character that was
begun before it, and leaves the reader between characters (`readByte_of_lt`). No other
byte completes a character below `0x80`, since no character is written longer than it has
to be (`readsWide_of_le`). So a line feed among the bytes is a line feed in what they are
read as, and nothing else is (`mem_lossy_iff`), the bytes before it and the bytes after it
are read on their own (`lossy_append_cons`), and the lines of the bytes, each read by
itself, are the lines of what all of them are read as (`map_decodeLossy_lines`). For the
same reason bytes are UTF-8 exactly when each of their lines is (`isUtf8_iff_lines`).
-/

namespace TreeShell.Text

/-- The reader is inside a character that will not be below `0x80`, whatever bytes may
follow. -/
structure Pending.Wide (p : Pending) : Prop where
  low : 0x80 ≤ p.low.toNat
  bits : 2 ≤ p.bits ∨ p.more ≠ 0 ∧ 2 ≤ p.bits * 64 + (p.low.toNat - 0x80)

/-- Something was read, but no character below `0x80` and no beginning of one. The null
character counts for nothing, since it is also what a number stands for that is no
character. -/
structure ReadsWide (r : Reading) : Prop where
  chars : ∀ c, some c ∈ r.1 → c.toNat = 0 ∨ 0x80 ≤ c.toNat
  place : ∀ p ∈ r.2, p.Wide
  something : r.1 ≠ [] ∨ r.2 ≠ none

variable {b : UInt8} {bs : List UInt8} {c : Char} {p : Pending} {place : Option Pending}

section Reader

theorem readsWide_none : ReadsWide ([none], none) :=
  ⟨by simp, by simp, by simp⟩

theorem readsWide_some (hp : p.Wide) : ReadsWide ([], some p) :=
  ⟨by simp, by simpa using hp, by simp⟩

theorem readsWide_ofNat {n : Nat} (h : 0x80 ≤ n) : ReadsWide ([some (Char.ofNat n)], none) := by
  refine ⟨fun c hc => ?_, by simp, by simp⟩
  rw [List.mem_singleton, Option.some.injEq] at hc
  rw [hc]
  by_cases hvalid : n.isValidChar
  · exact Or.inr (by rwa [Char.ofNat, dif_pos hvalid])
  · exact Or.inl (by rw [Char.ofNat, dif_neg hvalid]; rfl)

theorem readLead_of_lt (h : b.toNat < 0x80) : readLead b = ([some (Char.ofNat b.toNat)], none) := by
  rw [readLead_eq, if_pos h]

theorem readsWide_readLead (h : 0x80 ≤ b.toNat) : ReadsWide (readLead b) := by
  have hmany {low high : UInt8} {more bits : Nat} (hlow : 0x80 ≤ low.toNat)
      (hbits : low = 0x80 → bits ≠ 0) (hzero : low ≠ 0x80 → 0x82 ≤ low.toNat) :
      ReadsWide ([], some ⟨low, high, more + 1, bits⟩) := by
    refine readsWide_some ⟨hlow, Or.inr ⟨by simp, ?_⟩⟩
    by_cases hl : low = 0x80
    · have := hbits hl
      dsimp only
      omega
    · have := hzero hl
      dsimp only
      omega
  rw [readLead_eq, if_neg (by omega)]
  split
  · exact readsWide_none
  split
  · exact readsWide_some ⟨by simp, Or.inl (by dsimp only; omega)⟩
  split
  · apply hmany
    · split <;> simp
    · split
      · simp
      · omega
    · split <;> simp
  split
  · apply hmany
    · split <;> simp
    · split
      · simp
      · omega
    · split <;> simp
  · exact readsWide_none

theorem readsWide_readNext (hp : p.Wide) (hb : p.low.toNat ≤ b.toNat) :
    ReadsWide (readNext p b) := by
  obtain ⟨hlow, hbits⟩ := hp
  cases hmore : p.more with
  | zero =>
    simp only [readNext, hmore]
    exact readsWide_ofNat (by omega)
  | succ more =>
    simp only [readNext, hmore]
    exact readsWide_some ⟨by simp, Or.inl (by dsimp only; omega)⟩

/-- A byte below `0x80` ends what was begun and stands for itself. -/
theorem readByte_of_lt (hplace : ∀ p ∈ place, p.Wide) (h : b.toNat < 0x80) :
    readByte place b = (decodeFrom place [] ++ [some (Char.ofNat b.toNat)], none) := by
  cases place with
  | none => exact readLead_of_lt h
  | some p =>
    have hout : ¬ (p.low ≤ b ∧ b ≤ p.high) := by
      rintro ⟨hlow, -⟩
      have hwide := (hplace p rfl).low
      rw [UInt8.le_iff_toNat_le] at hlow
      omega
    rw [readByte, if_neg hout, readLead_of_lt h]
    rfl

/-- Any other byte completes no character below `0x80`, and begins none. -/
theorem readsWide_of_le (hplace : ∀ p ∈ place, p.Wide) (h : 0x80 ≤ b.toNat) :
    ReadsWide (readByte place b) := by
  have hlead := readsWide_readLead h
  cases place with
  | none => exact hlead
  | some p =>
    rw [readByte]
    split
    · next hin => exact readsWide_readNext (hplace p rfl) (UInt8.le_iff_toNat_le.1 hin.1)
    · exact ⟨fun c hc => hlead.chars c (by simpa using hc), hlead.place, Or.inl (by simp)⟩

theorem wide_readByte (hplace : ∀ p ∈ place, p.Wide) (b : UInt8) :
    ∀ p ∈ (readByte place b).2, p.Wide := by
  by_cases h : b.toNat < 0x80
  · rw [readByte_of_lt hplace h]
    simp
  · exact (readsWide_of_le hplace (by omega)).place

/-- A character below `0x80` is completed by its own byte. -/
theorem eq_of_mem_readByte (hplace : ∀ p ∈ place, p.Wide) (hmem : some c ∈ (readByte place b).1)
    (hpos : 0 < c.toNat) (hlt : c.toNat < 0x80) : c = Char.ofNat b.toNat := by
  by_cases h : b.toNat < 0x80
  · rw [readByte_of_lt hplace h] at hmem
    rcases List.mem_append.1 hmem with hmem | hmem
    · cases place <;> simp at hmem
    · simpa using hmem
  · have := (readsWide_of_le hplace (by omega)).chars c hmem
    omega

end Reader

section Bytes

theorem decodeFrom_append_cons (hplace : ∀ p ∈ place, p.Wide) (h : b.toNat < 0x80)
    (before after : List UInt8) : decodeFrom place (before ++ b :: after) =
      decodeFrom place before ++ some (Char.ofNat b.toNat) :: decodeFrom none after := by
  induction before generalizing place with
  | nil =>
    rw [List.nil_append, decodeFrom_cons, readByte_of_lt hplace h, List.append_assoc]
    rfl
  | cons first before ih =>
    rw [List.cons_append, decodeFrom_cons, decodeFrom_cons, ih (wide_readByte hplace first),
      List.append_assoc]

/-- Bytes are read as at least one character. -/
theorem decodeFrom_ne_nil (hplace : ∀ p ∈ place, p.Wide) (h : bs ≠ []) :
    decodeFrom place bs ≠ [] := by
  obtain ⟨b, bs, rfl⟩ := List.exists_cons_of_ne_nil h
  induction bs generalizing place b with
  | cons next bs ih =>
    rw [decodeFrom_cons]
    exact List.append_ne_nil_of_right_ne_nil _ (ih (wide_readByte hplace b) next (by simp))
  | nil =>
    rw [decodeFrom_cons]
    by_cases hb : b.toNat < 0x80
    · rw [readByte_of_lt hplace hb]
      simp
    · have hwide : ReadsWide (readByte place b) := readsWide_of_le hplace (by omega)
      rcases hwide.something with hchars | hnext
      · exact List.append_ne_nil_of_left_ne_nil hchars _
      · obtain ⟨p, hp⟩ := Option.ne_none_iff_exists'.1 hnext
        rw [hp]
        simp

theorem eq_of_mem_decodeFrom (hplace : ∀ p ∈ place, p.Wide) (hmem : some c ∈ decodeFrom place bs)
    (hpos : 0 < c.toNat) (hlt : c.toNat < 0x80) : ∃ b ∈ bs, c = Char.ofNat b.toNat := by
  induction bs generalizing place with
  | nil => cases place <;> simp at hmem
  | cons first bs ih =>
    rw [decodeFrom_cons] at hmem
    rcases List.mem_append.1 hmem with hmem | hmem
    · exact ⟨first, List.mem_cons_self, eq_of_mem_readByte hplace hmem hpos hlt⟩
    · obtain ⟨b, hb, hc⟩ := ih (wide_readByte hplace first) hmem
      exact ⟨b, List.mem_cons_of_mem _ hb, hc⟩

theorem eq_of_getLast?_decodeFrom (hplace : ∀ p ∈ place, p.Wide)
    (hlast : (decodeFrom place bs).getLast? = some (some c)) (hpos : 0 < c.toNat)
    (hlt : c.toNat < 0x80) : ∃ b, bs.getLast? = some b ∧ c = Char.ofNat b.toNat := by
  induction bs generalizing place with
  | nil => cases place <;> simp at hlast
  | cons first bs ih =>
    rw [decodeFrom_cons] at hlast
    cases bs with
    | nil =>
      cases hnext : (readByte place first).2 with
      | none =>
        rw [hnext, decodeFrom_none_nil, List.append_nil] at hlast
        exact ⟨first, rfl, eq_of_mem_readByte hplace (List.mem_of_getLast? hlast) hpos hlt⟩
      | some p =>
        rw [hnext, decodeFrom_some_nil, List.getLast?_concat] at hlast
        cases hlast
    | cons next bs =>
      have hplace' := wide_readByte hplace first
      rw [List.getLast?_append_of_ne_nil _ (decodeFrom_ne_nil hplace' (by simp))] at hlast
      obtain ⟨b, hb, hc⟩ := ih hplace' hlast
      exact ⟨b, by rw [List.getLast?_cons_cons, hb], hc⟩

end Bytes

section Lossy

/-- The characters of the bytes, with U+FFFD for each malformed stretch. -/
def lossy (bs : List UInt8) : List Char :=
  (decodeFrom none bs).map fun c => c.getD '\uFFFD'

theorem toList_decodeLossy (bs : List UInt8) : (decodeLossy bs).toList = lossy bs := by
  rw [decodeLossy, String.toList_ofList, lossy]

/-- What is before and after a byte below `0x80` is read on its own. -/
theorem lossy_append_cons (h : b.toNat < 0x80) (before after : List UInt8) :
    lossy (before ++ b :: after) = lossy before ++ Char.ofNat b.toNat :: lossy after := by
  rw [lossy, decodeFrom_append_cons (by simp) h, List.map_append, List.map_cons]
  rfl

/-- The bytes of a text are read as the text. -/
theorem lossy_encode_append (text : String) (bs : List UInt8) :
    lossy (encode text ++ bs) = text.toList ++ lossy bs := by
  rw [encode]
  induction text.toList with
  | nil => rfl
  | cons c cs ih =>
    rw [lossy] at ih
    rw [List.flatMap_cons, List.append_assoc, lossy, decodeFrom_encodeChar, List.map_cons, ih]
    rfl

theorem lossy_eq_nil_iff : lossy bs = [] ↔ bs = [] := by
  rw [lossy, List.map_eq_nil_iff]
  constructor
  · intro hnil
    by_contra hne
    exact decodeFrom_ne_nil (by simp) hne hnil
  · rintro rfl
    rfl

theorem toNat_ofNat_toNat (b : UInt8) : (Char.ofNat b.toNat).toNat = b.toNat := by
  have hvalid : b.toNat.isValidChar := Or.inl (by have := b.toNat_lt; omega)
  rw [Char.ofNat, dif_pos hvalid]
  rfl

theorem eq_of_ofNat_eq {b b' : UInt8} (h : Char.ofNat b.toNat = Char.ofNat b'.toNat) : b = b' := by
  rw [← UInt8.toNat_inj, ← toNat_ofNat_toNat b, h, toNat_ofNat_toNat]

/-- What is shown as a character below `0x80` is that character. -/
theorem eq_some_of_getD {d : Option Char} (hlt : c.toNat < 0x80) (h : d.getD '\uFFFD' = c) :
    d = some c := by
  cases d with
  | some c' => rw [← h, Option.getD_some]
  | none =>
    rw [← h] at hlt
    exact absurd hlt (by decide)

/-- A character below `0x80` is there exactly where its byte is. -/
theorem mem_lossy_iff (hpos : 0 < b.toNat) (hlt : b.toNat < 0x80) :
    Char.ofNat b.toNat ∈ lossy bs ↔ b ∈ bs := by
  constructor
  · intro hmem
    obtain ⟨d, hd, hc⟩ := List.mem_map.1 hmem
    rw [eq_some_of_getD (by rwa [toNat_ofNat_toNat]) hc] at hd
    obtain ⟨b', hb', heq⟩ := eq_of_mem_decodeFrom (by simp) hd (by rwa [toNat_ofNat_toNat])
      (by rwa [toNat_ofNat_toNat])
    rwa [eq_of_ofNat_eq heq]
  · intro hmem
    obtain ⟨before, after, rfl⟩ := List.append_of_mem hmem
    rw [lossy_append_cons hlt]
    simp

theorem getLast?_lossy_iff (hpos : 0 < b.toNat) (hlt : b.toNat < 0x80) :
    (lossy bs).getLast? = some (Char.ofNat b.toNat) ↔ bs.getLast? = some b := by
  constructor
  · intro hlast
    rw [lossy, List.getLast?_map, Option.map_eq_some_iff] at hlast
    obtain ⟨d, hd, hc⟩ := hlast
    rw [eq_some_of_getD (by rwa [toNat_ofNat_toNat]) hc] at hd
    obtain ⟨b', hb', heq⟩ := eq_of_getLast?_decodeFrom (by simp) hd
      (by rwa [toNat_ofNat_toNat]) (by rwa [toNat_ofNat_toNat])
    rw [hb', eq_of_ofNat_eq heq]
  · intro hlast
    obtain ⟨before, rfl⟩ := List.getLast?_eq_some_iff.1 hlast
    rw [lossy_append_cons hlt]
    simp [lossy]

end Lossy

section Lines

/-- The carriage return at the end of a line is the same before and after reading. -/
theorem lossy_dropReturn (line : List UInt8) :
    lossy (dropReturn 13 line) = dropReturn '\r' (lossy line) := by
  have hlast : (lossy line).getLast? = some '\r' ↔ line.getLast? = some 13 :=
    getLast?_lossy_iff (b := 13) (by decide) (by decide)
  by_cases hreturn : line.getLast? = some 13
  · obtain ⟨before, rfl⟩ := List.getLast?_eq_some_iff.1 hreturn
    have hread : lossy (before ++ [13]) = lossy before ++ ['\r'] :=
      lossy_append_cons (b := 13) (by decide) before []
    rw [hread, dropReturn_concat, dropReturn_concat]
  · rw [dropReturn, dropReturn, if_neg hreturn, if_neg fun h => hreturn (hlast.1 h)]

/-- Reading the lines one by one gives the lines of what is read. -/
theorem map_lossy_lines (bs : List UInt8) :
    (lines 10 13 bs).map lossy = lines '\n' '\r' (lossy bs) := by
  have hfeed (line : List UInt8) : '\n' ∈ lossy line ↔ 10 ∈ line :=
    mem_lossy_iff (b := 10) (by decide) (by decide)
  induction bs using line_induction (10 : UInt8) with
  | cons line rest hline ih =>
    have hread : lossy (line ++ 10 :: rest) = lossy line ++ '\n' :: lossy rest :=
      lossy_append_cons (b := 10) (by decide) line rest
    rw [lines_append_cons 13 rest hline, hread,
      lines_append_cons '\r' (lossy rest) (mt (hfeed line).1 hline), List.map_cons,
      lossy_dropReturn, ih]
  | last bs h =>
    rw [lines_of_not_mem 13 h, lines_of_not_mem '\r' (mt (hfeed bs).1 h)]
    simp only [List.isEmpty_iff, lossy_eq_nil_iff]
    split
    · rfl
    · rfl

theorem map_decodeLossy_lines (bs : List UInt8) :
    (lines 10 13 bs).map decodeLossy = linesOf (decodeLossy bs) := by
  rw [linesOf, toList_decodeLossy, ← map_lossy_lines, List.map_map]
  rfl

end Lines

section Valid

variable {text : String}

/-- The bytes have no malformed stretch. -/
def IsUtf8 (bs : List UInt8) : Prop :=
  none ∉ decodeFrom none bs

theorem mapM_id_eq_some_iff {α : Type} {l : List (Option α)} {as : List α} :
    l.mapM id = some as ↔ l = as.map some := by
  induction l generalizing as with
  | nil => cases as <;> simp
  | cons o l ih =>
    cases as with
    | nil => simp [Option.bind_eq_some_iff]
    | cons a as => simp [Option.bind_eq_some_iff, ih]

theorem decode?_eq_some_iff : decode? bs = some text ↔
    decodeFrom none bs = text.toList.map some := by
  rw [decode?, Option.map_eq_some_iff]
  constructor
  · rintro ⟨cs, hcs, rfl⟩
    rw [String.toList_ofList]
    exact mapM_id_eq_some_iff.1 hcs
  · intro h
    exact ⟨text.toList, mapM_id_eq_some_iff.2 h, String.ofList_toList⟩

/-- Where there is nothing to replace, both ways of reading give the same. -/
theorem decodeLossy_of_decode? (h : decode? bs = some text) : decodeLossy bs = text := by
  rw [decodeLossy, decode?_eq_some_iff.1 h, List.map_map]
  exact (congrArg String.ofList (List.map_id _)).trans String.ofList_toList

theorem isUtf8_iff : IsUtf8 bs ↔ ∃ text, decode? bs = some text := by
  constructor
  · intro h
    refine ⟨decodeLossy bs, decode?_eq_some_iff.2 ?_⟩
    rw [toList_decodeLossy, lossy, List.map_map]
    refine (List.map_id _).symm.trans (List.map_congr_left fun d hd => ?_)
    cases d with
    | none => exact absurd hd h
    | some c => rfl
  · rintro ⟨text, htext⟩
    rw [IsUtf8, decode?_eq_some_iff.1 htext]
    simp

theorem isUtf8_append_cons {b : UInt8} (h : b.toNat < 0x80) (before after : List UInt8) :
    IsUtf8 (before ++ b :: after) ↔ IsUtf8 before ∧ IsUtf8 after := by
  rw [IsUtf8, decodeFrom_append_cons (by simp) h]
  simp [IsUtf8]

theorem isUtf8_dropReturn {line : List UInt8} : IsUtf8 (dropReturn 13 line) ↔ IsUtf8 line := by
  by_cases hreturn : line.getLast? = some 13
  · obtain ⟨before, rfl⟩ := List.getLast?_eq_some_iff.1 hreturn
    have hnil : IsUtf8 [] := by simp [IsUtf8]
    rw [dropReturn_concat, isUtf8_append_cons (by decide), and_iff_left hnil]
  · rw [dropReturn, if_neg hreturn]

/-- Bytes are UTF-8 if every line of them is. -/
theorem isUtf8_iff_lines (bs : List UInt8) :
    IsUtf8 bs ↔ ∀ line ∈ lines 10 13 bs, IsUtf8 line := by
  induction bs using line_induction (10 : UInt8) with
  | cons line rest hline ih =>
    rw [isUtf8_append_cons (by decide), lines_append_cons 13 rest hline, List.forall_mem_cons,
      isUtf8_dropReturn, ih]
  | last bs h =>
    rw [lines_of_not_mem 13 h]
    split
    · next hnil => simp [List.isEmpty_iff.1 hnil, IsUtf8]
    · simp

end Valid

end TreeShell.Text
