import Lockbox.Bytes
/-!
# Lockbox — where bytes stop being text

The first place at which a byte string is not UTF-8: either a sequence
that no continuation could mend, with the length of its longest
acceptable start, or the beginning of a sequence that the end of the
bytes cuts off.
-/

namespace Lockbox

namespace Utf8

/-- The first ill-formed place of a byte string. -/
inductive Fault where
  /-- `length` bytes from `index` on are no start of a character. -/
  | invalid (index length : Nat)
  /-- The bytes end inside the character that starts at `index`. -/
  | incomplete (index : Nat)
  deriving DecidableEq, Repr

/-- The wording of a fault. -/
def Fault.message : Fault → String
  | .invalid i n => s!"invalid utf-8 sequence of {n} bytes from index {i}"
  | .incomplete i => s!"incomplete utf-8 byte sequence from index {i}"

/-- The least and greatest second byte after each first byte of a longer
sequence, and how many more bytes follow the second. -/
def lead? (b : UInt8) : Option (UInt8 × UInt8 × Nat) :=
  if 0xC2 ≤ b ∧ b ≤ 0xDF then some (0x80, 0xBF, 0)
  else if b = 0xE0 then some (0xA0, 0xBF, 1)
  else if b = 0xED then some (0x80, 0x9F, 1)
  else if 0xE1 ≤ b ∧ b ≤ 0xEF then some (0x80, 0xBF, 1)
  else if b = 0xF0 then some (0x90, 0xBF, 2)
  else if 0xF1 ≤ b ∧ b ≤ 0xF3 then some (0x80, 0xBF, 2)
  else if b = 0xF4 then some (0x80, 0x8F, 2)
  else none

/-- Looks for the first fault. The state is what is still missing of the
character that began at `start`: the range of the next byte and how many
follow it. -/
def scan : (index : Nat) → (pending : Option (Nat × UInt8 × UInt8 × Nat)) → Bytes → Option Fault
  | _, none, [] => none
  | _, some (start, _), [] => some (.incomplete start)
  | i, none, b :: rest =>
    if b < 0x80 then scan (i + 1) none rest
    else match lead? b with
      | none => some (.invalid i 1)
      | some (low, high, more) => scan (i + 1) (some (i, low, high, more)) rest
  | i, some (start, low, high, more), b :: rest =>
    if low ≤ b ∧ b ≤ high then
      match more with
      | 0 => scan (i + 1) none rest
      | more + 1 => scan (i + 1) (some (start, 0x80, 0xBF, more)) rest
    else some (.invalid start (i - start))

/-- The first ill-formed place, if there is one. -/
def fault? (b : Bytes) : Option Fault := scan 0 none b

end Utf8

end Lockbox
