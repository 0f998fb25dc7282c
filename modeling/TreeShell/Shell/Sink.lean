import TreeShell.Text.Utf8

/-!
# The output stream

A sink takes bytes, either without end or up to a limit. A write that does not
fit is taken as far as it fits and then refused; a write of nothing is never
refused.
-/

namespace TreeShell

/-- An output stream: how many bytes it still takes, where `none` is no limit,
what it has taken, and whether it has refused a write. -/
structure Sink where
  room? : Option Nat := none
  written : List UInt8 := []
  refused : Bool := false
deriving DecidableEq

namespace Sink

/-- Whether the bytes fit. -/
def Fits (k : Sink) (bytes : List UInt8) : Prop :=
  ∀ room, k.room? = some room → bytes.length ≤ room

instance (k : Sink) (bytes : List UInt8) : Decidable (k.Fits bytes) :=
  match h : k.room? with
  | none => isTrue (by simp [Fits, h])
  | some room =>
    if hb : bytes.length ≤ room then isTrue (by simp [Fits, h, hb])
    else isFalse (by simpa [Fits, h] using hb)

/-- The sink after the bytes are written to it, all of them or as many as it
takes. -/
def write (k : Sink) (bytes : List UInt8) : Sink :=
  match k.room? with
  | none => { k with written := k.written ++ bytes }
  | some room =>
    { room? := some (room - bytes.length)
      written := k.written ++ bytes.take room
      refused := k.refused || decide (room < bytes.length) }

/-- What the sink has taken, as text. -/
def text (k : Sink) : String :=
  Text.decodeLossy k.written

@[simp] theorem fits_nil (k : Sink) : k.Fits [] := by simp [Fits]

theorem written_write_of_fits {k : Sink} {bytes : List UInt8} (h : k.Fits bytes) :
    (k.write bytes).written = k.written ++ bytes := by
  unfold write
  split
  · rfl
  · next room hr => simp [List.take_of_length_le (h room hr)]

/-- A sink refuses a write exactly when it does not fit. -/
theorem refused_write (k : Sink) (bytes : List UInt8) :
    (k.write bytes).refused = (k.refused || !decide (k.Fits bytes)) := by
  unfold write
  split
  · next hr =>
    have : k.Fits bytes := by simp [Fits, hr]
    simp [this]
  · next room hr =>
    have : k.Fits bytes ↔ bytes.length ≤ room := by simp [Fits, hr]
    by_cases h : bytes.length ≤ room
    · simp [this, h, Nat.not_lt.2 h]
    · simp [this, h, Nat.lt_of_not_le h]

end Sink

end TreeShell
