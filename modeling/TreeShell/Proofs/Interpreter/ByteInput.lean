import TreeShell.Proofs.Interpreter.Turns
import TreeShell.Proofs.Text.Decoding

/-!
# Lines from bytes

A plain reader over bytes answers the requests for a line one after the other
(`askAll`): with the lines of the whole input, each in its turn, and then with nothing
however often it is asked (`askAll_ofBytes`). It cuts the bytes into lines before it reads
any of them as text; the lines come out as if all of the input had been read as text
first. Lines that were written are read back, with either line end.
-/

namespace TreeShell

namespace Text

/-- A line with the line end that it is written with. -/
structure Written where
  line : String
  returned : Bool
  newline_free : '\n' ∉ line.toList
  unreturned : line.toList.getLast? ≠ some '\r'

namespace Written

/-- A line feed, with a carriage return before it or without. -/
def lineEnd (w : Written) : String :=
  if w.returned then "\r\n" else "\n"

/-- The bytes of the lines, each followed by its line end. -/
def bytes (written : List Written) : List UInt8 :=
  written.flatMap fun w => encode (w.line ++ w.lineEnd)

theorem lines_append (w : Written) (rest : List Char) :
    lines '\n' '\r' (w.line.toList ++ (w.lineEnd.toList ++ rest)) =
      w.line.toList :: lines '\n' '\r' rest := by
  rw [lineEnd]
  split
  · have hfree : '\n' ∉ w.line.toList ++ ['\r'] := by simp [w.newline_free]
    have hcut := lines_append_cons '\r' rest hfree
    rwa [dropReturn_concat, List.append_assoc] at hcut
  · have hcut := lines_append_cons '\r' rest w.newline_free
    rwa [dropReturn, if_neg w.unreturned] at hcut

/-- Lines that were written are read back. -/
theorem linesOf_bytes (written : List Written) :
    linesOf (decodeLossy (bytes written)) = written.map Written.line := by
  rw [linesOf, toList_decodeLossy]
  induction written with
  | nil => rfl
  | cons w written ih =>
    rw [bytes, List.flatMap_cons, lossy_encode_append, String.toList_append, List.append_assoc,
      lines_append, List.map_cons, List.map_cons, String.ofList_toList]
    exact congrArg _ ih

end Written

end Text

/-- A source without failures gives the next of its replies, and nothing when there is none
left. -/
theorem Source.next_of_fine {s : Source} (hfine : ∀ reply ∈ s.replies, reply.fault? = none)
    (hfault : s.fault? = none) :
    s.next.1.fault? = none ∧ s.next.1.line? = s.replies[0]?.bind Reply.line? ∧
      s.next.2 = { s with replies := s.replies.tail } := by
  obtain ⟨replies, fault?, echo, asked, remembered⟩ := s
  obtain rfl : fault? = none := hfault
  cases replies with
  | nil => exact ⟨rfl, rfl, rfl⟩
  | cons reply replies => exact ⟨hfine reply List.mem_cons_self, rfl, rfl⟩

namespace Console

variable {c : Console}

/-- Asks for one line with each of the prompts. -/
def askAll : List String → ConsoleM (List (Option String))
  | [] => pure []
  | prompt :: prompts => do
    let answer ← readLine prompt
    return answer :: (← askAll prompts)

/-- Such a source answers with the lines of its replies, one after the other, and then with
nothing. -/
theorem exists_askAll_of_fine (prompts : List String)
    (hfine : ∀ reply ∈ c.source.replies, reply.fault? = none) (hfault : c.source.fault? = none)
    (hout : c.source.echo = true → c.shell.out.room? = none) :
    ∃ d, askAll prompts c = .ok ((List.range prompts.length).map fun i =>
      c.source.replies[i]?.bind Reply.line?) d := by
  induction prompts generalizing c with
  | nil => exact ⟨c, rfl⟩
  | cons prompt prompts ih =>
    have hfits : c.shell.out.Fits (Text.encode (c.source.shownPrompt prompt)) := by
      cases hecho : c.source.echo with
      | true => exact Shell.fits_of_unlimited (hout hecho) _
      | false =>
        rw [c.source.shownPrompt_of_silent hecho]
        exact Sink.fits_nil _
    obtain ⟨d, hread, hsource, hwithin, -⟩ := exists_readLine_of_fits hfits
    obtain ⟨hnone, hline, hnext⟩ := Source.next_of_fine hfine hfault
    rw [hnone, hline] at hread
    rw [hnext] at hsource
    have hreplies : d.source.replies = c.source.replies.tail := by
      rw [hsource]
      rfl
    have hfine' : ∀ reply ∈ d.source.replies, reply.fault? = none := by
      rw [hreplies]
      exact fun reply hreply => hfine reply (List.mem_of_mem_tail hreply)
    have hfault' : d.source.fault? = none := by
      rw [hsource]
      exact hfault
    have hd : d.source.echo = true → d.shell.out.room? = none := by
      rw [hsource]
      exact fun hecho => hwithin.unlimited (hout hecho)
    obtain ⟨e, hrest⟩ := ih hfine' hfault' hd
    refine ⟨e, ?_⟩
    rw [askAll, bind_of_ok hread, bind_of_ok hrest, List.length_cons, List.range_succ_eq_map,
      List.map_cons, List.map_map, hreplies]
    simp [Function.comp_def, EStateM.pure, pure]

/-- A source that holds lines only answers with these. -/
theorem exists_askAll {texts : List String} (prompts : List String)
    (hreplies : c.source.replies = texts.map .line) (hfault : c.source.fault? = none)
    (hout : c.source.echo = true → c.shell.out.room? = none) :
    ∃ d, askAll prompts c = .ok ((List.range prompts.length).map fun i => texts[i]?) d := by
  have hfine : ∀ reply ∈ c.source.replies, reply.fault? = none := by
    rw [hreplies]
    simp [Reply.fault?]
  obtain ⟨d, hall⟩ := exists_askAll_of_fine prompts hfine hfault hout
  refine ⟨d, hall.trans ?_⟩
  simp [hreplies, Option.bind_map, Function.comp_def, Reply.line?]

/-- A plain reader over bytes answers with the lines of the text that the bytes are read
as, a malformed stretch shown as U+FFFD, and then with nothing. The bytes are cut into
lines before they are read, which comes to the same: what is answered for a line has to
do with the bytes of this line only. Lines that were written come back. -/
theorem askAll_ofBytes (bytes : List UInt8) :
    (∀ (c : Console) (echo : Bool) (prompts : List String),
      c.source = Source.ofBytes bytes none echo → (echo = true → c.shell.out.room? = none) →
        ∃ d, askAll prompts c = .ok ((List.range prompts.length).map fun i =>
          (Text.linesOf (Text.decodeLossy bytes))[i]?) d) ∧
    Text.linesOf (Text.decodeLossy bytes) = (Text.lines 10 13 bytes).map Text.decodeLossy ∧
    ∀ written : List Text.Written, bytes = Text.Written.bytes written →
      Text.linesOf (Text.decodeLossy bytes) = written.map Text.Written.line := by
  refine ⟨?_, (Text.map_decodeLossy_lines bytes).symm, ?_⟩
  · intro c echo prompts hsource hout
    have hreplies : c.source.replies =
        (Text.linesOf (Text.decodeLossy bytes)).map .line := by
      rw [hsource, ← Text.map_decodeLossy_lines, List.map_map]
      rfl
    exact exists_askAll prompts hreplies (by rw [hsource]; rfl) (by rw [hsource]; exact hout)
  · rintro written rfl
    exact Text.Written.linesOf_bytes written

/-- A session over a line that breaks off inside a character, an empty line, and a line
without its end. -/
def overBrokenBytes : Console :=
  { onTree [] "/" with source := .ofBytes [97, 0xE2, 0x82, 10, 13, 10, 98, 13] none true }

/-- Two lines with the two line ends. -/
def writtenLines : List Text.Written :=
  [⟨"a b", true, by decide, by decide⟩, ⟨"é", false, by decide, by decide⟩]

theorem askAll_ofBytes_broken :
    (∃ d, askAll [">", "", ">", ">"] overBrokenBytes =
      .ok [some "a\uFFFD", some "", some "b\r", none] d) ∧
    Text.linesOf (Text.decodeLossy (Text.Written.bytes writtenLines)) = ["a b", "é"] := by
  constructor
  · have hanswers : ((List.range 4).map fun i => (Text.linesOf (Text.decodeLossy
        [97, 0xE2, 0x82, 10, 13, 10, 98, 13]))[i]?) =
          [some "a\uFFFD", some "", some "b\r", none] := by
      decide
    rw [← hanswers]
    exact (askAll_ofBytes _).1 overBrokenBytes true [">", "", ">", ">"] rfl fun _ => rfl
  · exact (askAll_ofBytes _).2.2 writtenLines rfl

end Console

end TreeShell
