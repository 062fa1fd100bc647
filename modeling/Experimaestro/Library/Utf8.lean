/-
Module: Experimaestro.Library.Utf8
Layer: Library
Purpose: Well-formed UTF-8 as the language of an automaton that reads one byte at a time. A byte below 128 leads
  from the start back to it, and well-formed sequences can be put together.
Imports: Mathlib.Tactic.Common
Trusted boundary: human-reviewed transcription of the table of well-formed byte sequences
Main exports: Utf8.State, Utf8.step, Utf8.run, Utf8.Valid, Utf8.step_ascii
Open obligations: none
-/
import Mathlib.Tactic.Common

namespace Utf8

/-- What the automaton expects: a character, one to three continuation bytes, or the second byte after one
    of the leading bytes that restrict it. -/
inductive State where
  | start
  | need1
  | need2
  | need3
  | underE0
  | underED
  | underF0
  | underF4
deriving DecidableEq, Repr

/-- Continue after a byte within bounds. -/
def nextInRange (low high byte : UInt8) (next : State) : Option State :=
  if low ≤ byte ∧ byte ≤ high then some next else none

/-- The state after the leading byte of a character. -/
def leading (byte : UInt8) : Option State :=
  if byte < 0x80 then some .start
  else if byte < 0xC2 then none
  else if byte < 0xE0 then some .need1
  else if byte = 0xE0 then some .underE0
  else if byte = 0xED then some .underED
  else if byte < 0xF0 then some .need2
  else if byte = 0xF0 then some .underF0
  else if byte < 0xF4 then some .need3
  else if byte = 0xF4 then some .underF4
  else none

/-- The state after a byte, unless the byte is ill-formed. -/
def step : State → UInt8 → Option State
  | .start, byte => leading byte
  | .need1, byte => nextInRange 0x80 0xBF byte .start
  | .need2, byte => nextInRange 0x80 0xBF byte .need1
  | .need3, byte => nextInRange 0x80 0xBF byte .need2
  | .underE0, byte => nextInRange 0xA0 0xBF byte .need1
  | .underED, byte => nextInRange 0x80 0x9F byte .need1
  | .underF0, byte => nextInRange 0x90 0xBF byte .need2
  | .underF4, byte => nextInRange 0x80 0x8F byte .need2

/-- The state after a sequence of bytes. -/
def run : State → List UInt8 → Option State
  | state, [] => some state
  | state, byte :: rest =>
      match step state byte with
      | some next => run next rest
      | none => none

/-- A well-formed sequence of bytes. -/
def Valid (bytes : List UInt8) : Prop := run .start bytes = some .start

instance (bytes : List UInt8) : Decidable (Valid bytes) :=
  inferInstanceAs (Decidable (run .start bytes = some .start))

theorem step_ascii {byte : UInt8} (ascii : byte < 0x80) : step .start byte = some .start := by
  rw [step, leading, if_pos ascii]

end Utf8
