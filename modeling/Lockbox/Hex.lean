import Lockbox.Bytes
/-!
# Lockbox — hexadecimal

Two digits for each byte. Writing uses lower case, reading takes both
cases and nothing else: no sign, no blank, no odd digit.
-/

namespace Lockbox

namespace Hex

/-- The digit for a number below sixteen. -/
def digit (n : Nat) : Char := Char.ofNat (if n < 10 then n + 48 else n + 87)

/-- The value of a hexadecimal digit of either case. -/
def value? (c : Char) : Option Nat :=
  let n := c.toNat
  if 48 ≤ n ∧ n ≤ 57 then some (n - 48)
  else if 97 ≤ n ∧ n ≤ 102 then some (n - 87)
  else if 65 ≤ n ∧ n ≤ 70 then some (n - 55)
  else none

/-- The two digits of a byte. -/
def ofByte (b : UInt8) : List Char := [digit (b.toNat / 16), digit (b.toNat % 16)]

/-- The byte with these two digits. -/
def byte? (high low : Char) : Option UInt8 := do
  let h ← value? high
  let l ← value? low
  return (h * 16 + l).toUInt8

/-- The hexadecimal form of a byte string. -/
def encode (b : Bytes) : String := String.ofList (b.flatMap ofByte)

/-- Reads digits in pairs, with the bytes read so far in `done`, newest first. -/
def decodeFrom (done : Bytes) : List Char → Option Bytes
  | [] => some done.reverse
  | [_] => none
  | h :: l :: rest =>
    match byte? h l with
    | some b => decodeFrom (b :: done) rest
    | none => none

/-- The byte string with this hexadecimal form. -/
def decode? (s : String) : Option Bytes := decodeFrom [] s.toList

end Hex

end Lockbox
