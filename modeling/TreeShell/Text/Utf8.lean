/-!
# UTF-8

`encode` writes a text as bytes. Reading goes byte by byte: between two bytes
the reader stands either between characters or inside a multi-byte character,
and then knows which bytes may come next. A byte that may not come next closes
the character begun so far as malformed and is itself read from between
characters, so one malformed stretch is as long as a valid beginning can be.

`decode?` refuses a text with a malformed stretch, `decodeLossy` shows each
such stretch as one replacement character U+FFFD. Both take their characters
from the one reader `decodeFrom`.
-/

namespace TreeShell.Text

/-- Inside a multi-byte character: the bounds of the next byte, how many bytes
follow that one, and the bits read so far. -/
structure Pending where
  low : UInt8
  high : UInt8
  more : Nat
  bits : Nat
deriving DecidableEq

/-- What reading one byte gives: the characters completed by it, in order, with
`none` for a malformed stretch, and where the reader stands after it. -/
abbrev Reading := List (Option Char) × Option Pending

/-- Reads a byte that stands between characters. -/
def readLead (b : UInt8) : Reading :=
  if b < 0x80 then ([some (Char.ofNat b.toNat)], none)
  else if b < 0xC2 then ([none], none)
  else if b < 0xE0 then ([], some ⟨0x80, 0xBF, 0, b.toNat - 0xC0⟩)
  else if b < 0xF0 then
    ([], some ⟨if b = 0xE0 then 0xA0 else 0x80, if b = 0xED then 0x9F else 0xBF, 1, b.toNat - 0xE0⟩)
  else if b < 0xF5 then
    ([], some ⟨if b = 0xF0 then 0x90 else 0x80, if b = 0xF4 then 0x8F else 0xBF, 2, b.toNat - 0xF0⟩)
  else ([none], none)

/-- Reads a byte of the allowed range inside a character. -/
def readNext (p : Pending) (b : UInt8) : Reading :=
  let bits := p.bits * 64 + (b.toNat - 0x80)
  match p.more with
  | 0 => ([some (Char.ofNat bits)], none)
  | more + 1 => ([], some ⟨0x80, 0xBF, more, bits⟩)

/-- Reads one byte from where the reader stands. -/
def readByte : Option Pending → UInt8 → Reading
  | none, b => readLead b
  | some p, b =>
    if p.low ≤ b ∧ b ≤ p.high then readNext p b
    else (none :: (readLead b).1, (readLead b).2)

/-- The characters of the bytes, with `none` for each malformed stretch, read
from where the reader stands. -/
def decodeFrom : Option Pending → List UInt8 → List (Option Char)
  | none, [] => []
  | some _, [] => [none]
  | place, b :: bs => (readByte place b).1 ++ decodeFrom (readByte place b).2 bs

/-- The text that the bytes spell, if they are UTF-8 throughout. -/
def decode? (bytes : List UInt8) : Option String :=
  ((decodeFrom none bytes).mapM id).map String.ofList

/-- The text that the bytes spell, with U+FFFD for each malformed stretch. -/
def decodeLossy (bytes : List UInt8) : String :=
  String.ofList ((decodeFrom none bytes).map fun c => c.getD '\uFFFD')

/-- The bytes of a text. -/
def encode (text : String) : List UInt8 :=
  text.toList.flatMap String.utf8EncodeChar

@[simp] theorem decodeFrom_none_nil : decodeFrom none [] = [] := rfl

@[simp] theorem decodeFrom_some_nil (p : Pending) : decodeFrom (some p) [] = [none] := rfl

theorem decodeFrom_cons (place : Option Pending) (b : UInt8) (bs : List UInt8) :
    decodeFrom place (b :: bs) = (readByte place b).1 ++ decodeFrom (readByte place b).2 bs := by
  cases place <;> rfl

@[simp] theorem encode_empty : encode "" = [] := rfl

@[simp] theorem encode_append (s t : String) : encode (s ++ t) = encode s ++ encode t := by
  simp [encode]

end TreeShell.Text
