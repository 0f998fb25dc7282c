import TreeShell.Program.Run
import TreeShell.Proofs.Interpreter.ByteInput
import TreeShell.Proofs.Interpreter.Counting

/-!
# The two readers of lines

The plain reader and the line editor, over the same bytes, answer with as many lines and
then with nothing. The line editor is given by what its calls return, so what it does with
the bytes is assumed of it (`ReadsAll`): it ends its lines where the plain reader does, it
returns a line of UTF-8 as it is, and it reports a line that is not UTF-8. Only of a line
with a backspace nothing more is assumed than that it comes back as some line, since an
editor may take a backspace as a key (`line_sources_differ_at_backspace`). An editor without
keys reads every input so (`readsAll_keyless`).

So the two answer alike for every line of UTF-8 without a backspace, whatever is around it.
Over bytes that are UTF-8 and have no backspace the two are the same source
(`ofEditor_eq_ofBytes`), and a session over one of them is a session over the other
(`line_sources_agree`).
-/

namespace TreeShell

/-- The character that takes back the one before it. -/
def backspace : Char := '\x08'

/-- What a line editor may return for a line of the input, without its end. -/
inductive ReadsLine (raw : List UInt8) : EditorRead → Prop
  | plain {text : String} : Text.decode? raw = some text → backspace ∉ text.toList →
      ReadsLine raw (.line text)
  | edited {text : String} (line : String) : Text.decode? raw = some text →
      backspace ∈ text.toList → ReadsLine raw (.line line)
  | malformed (reason : String) : Text.decode? raw = none → ReadsLine raw (.malformed reason)

/-- What the calls of a line editor may return for an input that is no terminal, before the
input ends. A line ends at a line feed, one carriage return before it is dropped, and the
last line may lack its end. -/
inductive ReadsAll : List UInt8 → List EditorRead → Prop
  | nil : ReadsAll [] []
  | line {raw rest : List UInt8} {read : EditorRead} {reads : List EditorRead} : 10 ∉ raw →
      ReadsLine (Text.dropReturn 13 raw) read → ReadsAll rest reads →
        ReadsAll (raw ++ 10 :: rest) (read :: reads)
  | last {raw : List UInt8} {read : EditorRead} : raw ≠ [] → 10 ∉ raw → ReadsLine raw read →
      ReadsAll raw [read]

/-- The line that a call of the line editor comes to. -/
def EditorRead.line? (read : EditorRead) : Option String :=
  read.reply?.bind Reply.line?

variable {bytes raw : List UInt8} {read : EditorRead} {reads : List EditorRead}

/-- The calls of the line editor return one after the other for the lines that the plain
reader cuts. -/
theorem ReadsAll.forall₂ (h : ReadsAll bytes reads) :
    List.Forall₂ ReadsLine (Text.lines 10 13 bytes) reads := by
  induction h with
  | nil =>
    rw [Text.lines_nil]
    exact .nil
  | line hraw hread _ ih =>
    rw [Text.lines_append_cons 13 _ hraw]
    exact .cons hread ih
  | last hne hraw hread =>
    rw [Text.lines_of_not_mem 13 hraw, if_neg (by simpa using hne)]
    exact .cons hread .nil

theorem readsLine_ofLine (raw : List UInt8) : ReadsLine raw (.ofLine raw) := by
  rw [EditorRead.ofLine]
  cases htext : Text.decode? raw with
  | none => exact .malformed _ htext
  | some text =>
    by_cases hmem : backspace ∈ text.toList
    · exact .edited text htext hmem
    · exact .plain htext hmem

/-- A line editor that takes each line as it is reads any input so, backspaces and all. -/
theorem readsAll_keyless (bytes : List UInt8) : ReadsAll bytes (Editor.keyless bytes) := by
  induction bytes using Text.line_induction (10 : UInt8) with
  | cons raw rest hraw ih =>
    rw [Editor.keyless, Text.lines_append_cons 13 rest hraw, List.map_cons]
    exact .line hraw (readsLine_ofLine _) ih
  | last raw hraw =>
    rw [Editor.keyless, Text.lines_of_not_mem 13 hraw]
    by_cases hne : raw = []
    · subst hne
      exact .nil
    · rw [if_neg (by simpa using hne)]
      exact .last hne hraw (readsLine_ofLine raw)

/-- What a call of the line editor returns for a line is answered with a line, which is the
line itself if this is UTF-8 without a backspace. -/
theorem ReadsLine.reply (h : ReadsLine raw read) : ∃ reply line, read.reply? = some reply ∧
    reply.fault? = none ∧ reply.line? = some line ∧
    ∀ text, Text.decode? raw = some text → backspace ∉ text.toList →
      reply = .line text ∧ line = text := by
  cases h with
  | @plain text htext _ =>
    refine ⟨.line text, text, rfl, rfl, rfl, fun text' htext' _ => ?_⟩
    obtain rfl : text = text' := Option.some.inj (htext.symm.trans htext')
    exact ⟨rfl, rfl⟩
  | @edited text line htext hmem =>
    refine ⟨.line line, line, rfl, rfl, rfl, fun text' htext' hplain => ?_⟩
    obtain rfl : text = text' := Option.some.inj (htext.symm.trans htext')
    exact absurd hmem hplain
  | malformed reason hnone =>
    refine ⟨.undecodable reason, _, rfl, rfl, rfl, fun text htext _ => ?_⟩
    rw [hnone] at htext
    cases htext

/-- The replies of the line editor are no failures and come to a line each, one for each line
of the input, in order. -/
theorem replies_ofEditor {raws : List (List UInt8)} (h : List.Forall₂ ReadsLine raws reads) :
    (∀ reply ∈ (Source.ofEditor reads).replies, reply.fault? = none) ∧
    (∀ i : Nat, (Source.ofEditor reads).replies[i]?.bind Reply.line? =
      (reads.filterMap EditorRead.line?)[i]?) ∧
    List.Forall₂ (fun raw line => ∀ text, Text.decode? raw = some text →
      backspace ∉ text.toList → line = text) raws (reads.filterMap EditorRead.line?) := by
  rw [Source.ofEditor]
  induction h with
  | nil => exact ⟨by simp, fun i => rfl, .nil⟩
  | @cons raw read _ _ hread _ ih =>
    obtain ⟨hfine, hlines, hsame⟩ := ih
    obtain ⟨reply, line, hreply, hfault, hline, htext⟩ := hread.reply
    have hshown : read.line? = some line := by
      rw [EditorRead.line?, hreply, Option.bind_some, hline]
    rw [List.filterMap_cons_some hreply, List.filterMap_cons_some hshown]
    refine ⟨List.forall_mem_cons.2 ⟨hfault, hfine⟩, fun i => ?_, .cons ?_ hsame⟩
    · cases i with
      | zero => exact hline
      | succ i => exact hlines i
    · exact fun text hutf8 hplain => (htext text hutf8 hplain).2

namespace Text

section Raw

variable {α : Type} [DecidableEq α] {nl cr : α} {line text : List α}

theorem subset_of_mem_lines (h : line ∈ lines nl cr text) : line ⊆ text := by
  induction text using line_induction nl with
  | cons first rest hfirst ih =>
    rw [lines_append_cons cr rest hfirst] at h
    rcases List.mem_cons.1 h with rfl | h
    · exact List.Subset.trans subset_of_dropReturn (List.subset_append_left _ _)
    · intro x hx
      exact List.mem_append_right first (List.mem_cons_of_mem nl (ih h hx))
  | last text hlast =>
    rw [lines_of_not_mem cr hlast] at h
    split at h
    · cases h
    · rw [List.mem_singleton.1 h]
      exact List.Subset.refl text

/-- UTF-8 without a character is UTF-8 without it on every line. -/
theorem decode?_of_mem_lines {c : Char} {whole : String} (hwhole : decode? bytes = some whole)
    (hfree : c ∉ whole.toList) (hraw : raw ∈ lines 10 13 bytes) :
    ∃ text, decode? raw = some text ∧ c ∉ text.toList := by
  have hutf8 : IsUtf8 raw := (isUtf8_iff_lines bytes).1 (isUtf8_iff.2 ⟨whole, hwhole⟩) raw hraw
  obtain ⟨text, htext⟩ := isUtf8_iff.1 hutf8
  refine ⟨text, htext, fun hmem => hfree ?_⟩
  have hline : lossy raw ∈ lines '\n' '\r' (lossy bytes) := by
    rw [← map_lossy_lines]
    exact List.mem_map_of_mem hraw
  rw [← toList_decodeLossy, ← toList_decodeLossy, decodeLossy_of_decode? htext,
    decodeLossy_of_decode? hwhole] at hline
  exact subset_of_mem_lines hline hmem

end Raw

end Text

/-- Over UTF-8 without a backspace there is only one source of lines. -/
theorem Source.ofEditor_eq_ofBytes {whole : String} (hreads : ReadsAll bytes reads)
    (hwhole : Text.decode? bytes = some whole) (hplain : backspace ∉ whole.toList) :
    Source.ofEditor reads = Source.ofBytes bytes none false := by
  have hlines : ∀ raw ∈ Text.lines 10 13 bytes,
      ∃ text, Text.decode? raw = some text ∧ backspace ∉ text.toList := fun raw hraw =>
    Text.decode?_of_mem_lines hwhole hplain hraw
  have hcalls := hreads.forall₂
  rw [ofEditor, ofBytes, Source.mk.injEq, rawLines]
  refine ⟨?_, rfl, rfl, rfl, rfl⟩
  generalize Text.lines 10 13 bytes = raws at hlines hcalls
  clear hreads
  induction hcalls with
  | nil => rfl
  | cons hread _ ih =>
    obtain ⟨⟨text, htext, hfree⟩, hrest⟩ := List.forall_mem_cons.1 hlines
    obtain ⟨reply, _, hreply, -, -, hsame⟩ := hread.reply
    rw [List.filterMap_cons_some hreply, List.map_cons, ih hrest,
      (hsame text htext hfree).1, Text.decodeLossy_of_decode? htext]

namespace Console

/-- The line editor over bytes answers with the lines that its calls come to. -/
theorem exists_askAll_ofEditor {c : Console} (hreads : ReadsAll bytes reads)
    (prompts : List String) (hsource : c.source = Source.ofEditor reads) :
    ∃ d, askAll prompts c = .ok ((List.range prompts.length).map fun i =>
      (reads.filterMap EditorRead.line?)[i]?) d := by
  obtain ⟨hfine, hlines, -⟩ := replies_ofEditor hreads.forall₂
  rw [← hsource] at hfine hlines
  obtain ⟨d, hall⟩ := exists_askAll_of_fine prompts hfine (by rw [hsource, Source.ofEditor])
    (by simp [hsource, Source.ofEditor])
  refine ⟨d, hall.trans ?_⟩
  simp only [hlines]

/-- Over the same bytes the line editor and the plain reader answer with a line for each
raw line, and then with nothing. For a raw line that is UTF-8 without a backspace the two
lines are the same. Over UTF-8 without a backspace a session does the same with the one and
the other, if the plain reader does not show its prompts. -/
theorem line_sources_agree (hreads : ReadsAll bytes reads) :
    (reads.filterMap EditorRead.line?).length = (Text.lines 10 13 bytes).length ∧
    (∀ (c : Console) (prompts : List String), c.source = Source.ofEditor reads →
      ∃ d, askAll prompts c = .ok ((List.range prompts.length).map fun i =>
        (reads.filterMap EditorRead.line?)[i]?) d) ∧
    (∀ (c : Console) (echo : Bool) (prompts : List String),
      c.source = Source.ofBytes bytes none echo → (echo = true → c.shell.out.room? = none) →
        ∃ d, askAll prompts c = .ok ((List.range prompts.length).map fun i =>
          (Text.lines 10 13 bytes)[i]?.map Text.decodeLossy) d) ∧
    (∀ (i : Nat) (raw : List UInt8) (text : String), (Text.lines 10 13 bytes)[i]? = some raw →
      Text.decode? raw = some text → backspace ∉ text.toList → (reads.filterMap EditorRead.line?)[i]? = some text ∧
        Text.decodeLossy raw = text) ∧
    ∀ text, Text.decode? bytes = some text → backspace ∉ text.toList →
      ∀ (r : Registry) (shell : Shell), repl r ⟨shell, Source.ofEditor reads⟩ =
        repl r ⟨shell, Source.ofBytes bytes none false⟩ := by
  obtain ⟨-, -, hsame⟩ := replies_ofEditor hreads.forall₂
  refine ⟨hsame.length_eq.symm, fun c prompts => exists_askAll_ofEditor hreads prompts, ?_, ?_, ?_⟩
  · intro c echo prompts hsource hout
    have hreplies : c.source.replies =
        ((Text.lines 10 13 bytes).map Text.decodeLossy).map .line := by
      rw [hsource, List.map_map]
      rfl
    obtain ⟨d, hall⟩ :=
      exists_askAll prompts hreplies (by rw [hsource]; rfl) (by rw [hsource]; exact hout)
    refine ⟨d, hall.trans ?_⟩
    simp only [List.getElem?_map]
  · intro i raw text hraw htext hplain
    refine ⟨?_, Text.decodeLossy_of_decode? htext⟩
    obtain ⟨hi, rfl⟩ := List.getElem?_eq_some_iff.1 hraw
    have hi' : i < (reads.filterMap EditorRead.line?).length := hsame.length_eq ▸ hi
    rw [List.getElem?_eq_getElem hi']
    exact congrArg some (hsame.get hi hi' text htext hplain)
  · intro text htext hplain r shell
    rw [Source.ofEditor_eq_ofBytes hreads htext hplain]

/-- A line with a backspace, one that is not UTF-8, and one without its end. -/
def backspacedBytes : List UInt8 :=
  [97, 8, 98, 10, 0xFF, 13, 10, 0xC3, 0xA9]

/-- What an editor returns for them that takes a backspace as a key. -/
def backspacedReads : List EditorRead :=
  [.line "b", .malformed "stream did not contain valid UTF-8", .line "é"]

theorem readsLine_backspaced : ReadsLine [97, 8, 98] (.line "b") :=
  @ReadsLine.edited _ "a\x08b" "b" (by decide) (by decide)

theorem readsAll_backspaced : ReadsAll backspacedBytes backspacedReads :=
  @ReadsAll.line [97, 8, 98] _ _ _ (by decide) readsLine_backspaced
    (@ReadsAll.line [0xFF, 13] _ _ _ (by decide) (.malformed _ (by decide))
      (.last (by decide) (by decide) (.plain (by decide) (by decide))))

theorem line_sources_agree_backspaced :
    ReadsAll backspacedBytes backspacedReads ∧
    (∃ d, askAll [">", "", ">", ">"] ⟨(onTree [] "/").shell, .ofEditor backspacedReads⟩ =
      .ok [some "b", some "\uFFFD", some "é", none] d) ∧
    (∃ d, askAll [">", "", ">", ">"] ⟨(onTree [] "/").shell, .ofBytes backspacedBytes none true⟩ =
      .ok [some "a\x08b", some "\uFFFD", some "é", none] d) ∧
    repl .builtins ⟨(onTree [] "/").shell, .ofEditor [.line "é"]⟩ =
      repl .builtins ⟨(onTree [] "/").shell, .ofBytes [0xC3, 0xA9] none false⟩ := by
  have heditor : ((List.range 4).map fun i => (backspacedReads.filterMap EditorRead.line?)[i]?) =
      [some "b", some "\uFFFD", some "é", none] := by
    decide
  have hplain : ((List.range 4).map fun i =>
      (Text.lines 10 13 backspacedBytes)[i]?.map Text.decodeLossy) =
        [some "a\x08b", some "\uFFFD", some "é", none] := by
    decide
  have hreads : ReadsAll [0xC3, 0xA9] [.line "é"] :=
    .last (by decide) (by decide) (.plain (by decide) (by decide))
  rw [← heditor, ← hplain]
  exact ⟨readsAll_backspaced,
    (line_sources_agree readsAll_backspaced).2.1 _ [">", "", ">", ">"] rfl,
    (line_sources_agree readsAll_backspaced).2.2.1 _ true [">", "", ">", ">"] rfl fun _ => rfl,
    (line_sources_agree hreads).2.2.2.2 "é" (by decide) (by decide) _ _⟩

/-- A line that is UTF-8 and has a backspace is not the same line for the two readers, if the
line editor takes the backspace as a key. -/
theorem line_sources_differ_at_backspace :
    ReadsAll [97, 8, 98, 10] [.line "b"] ∧
      Text.lines 10 13 [97, 8, 98, 10] = [[97, 8, 98]] ∧
      Text.decode? [97, 8, 98] = some "a\x08b" ∧
      (∃ d, askAll [""] ⟨(onTree [] "/").shell, .ofEditor [.line "b"]⟩ = .ok [some "b"] d) ∧
      ∃ d, askAll [""] ⟨(onTree [] "/").shell, .ofBytes [97, 8, 98, 10] none false⟩ =
        .ok [some "a\x08b"] d := by
  have hreads : ReadsAll [97, 8, 98, 10] [.line "b"] :=
    @ReadsAll.line [97, 8, 98] _ _ _ (by decide) readsLine_backspaced .nil
  have hplain : (Source.ofBytes [97, 8, 98, 10] none false).replies =
      ["a\x08b"].map Reply.line := by
    decide
  refine ⟨hreads, by decide, by decide, ?_, ?_⟩
  · exact exists_askAll_ofEditor hreads [""] rfl
  · exact exists_askAll (c := ⟨_, .ofBytes [97, 8, 98, 10] none false⟩) [""] hplain rfl fun _ => rfl

end Console

end TreeShell
