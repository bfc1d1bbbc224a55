import Lockbox.Bytes
/-!
# Lockbox — JSON values

A value keeps its numbers and strings as they are written: digits for a
number, the bytes between the quotes for a string. So a member that
nobody looks at needs only its grammar to be right, and what a string or
a number stands for is decided where it is used. `Json.render` is the
compact written form.
-/

namespace Lockbox

/-- A number as written: sign, digits before and after the point, and the
exponent with its sign. -/
structure Numeral where
  negative : Bool
  whole : Bytes
  fraction : Option Bytes
  exponent : Option (Option UInt8 × Bytes)
  deriving DecidableEq, Repr

/-- A JSON value as written, without its blanks. -/
inductive Json where
  | null
  | bool (b : Bool)
  | number (n : Numeral)
  | string (body : Bytes)
  | array (items : List Json)
  | object (members : List (Bytes × Json))
  deriving Repr, Inhabited

namespace Numeral

/-- The written form of a natural number. -/
def ofNat (n : Nat) : Numeral :=
  ⟨false, (Nat.toDigits 10 n).map fun c => c.toNat.toUInt8, none, none⟩

/-- The number that decimal digits stand for. -/
def ofDigits (digits : Bytes) : Nat := digits.foldl (fun n d => n * 10 + (d.toNat - 48)) 0

/-- The natural number written, if it is written as one and is at most
`limit`. -/
def nat? (limit : Nat) (n : Numeral) : Option Nat :=
  if n.negative ∨ n.fraction.isSome ∨ n.exponent.isSome ∨ n.whole.length > 20 then none
  else
    let value := ofDigits n.whole
    if value ≤ limit then some value else none

/-! ## Finite numbers

A number that is not a small integer is rounded to a significand of 53
bits. It counts as finite unless the rounded product of its digits and
its power of ten reaches `2 ^ 1024`. Of the digits only as many count as
fit into 64 bits. -/

/-- The nearest multiple of a power of two with 53 significant bits, ties
going to the even one. -/
def round53 (n : Nat) : Nat :=
  if n < 1 <<< 53 then n
  else
    let unit := 1 <<< (n.log2 - 52)
    let q := n / unit
    let r := n % unit
    if 2 * r < unit ∨ (2 * r = unit ∧ q % 2 = 0) then q * unit else (q + 1) * unit

/-- The digits that fit into 64 bits, and how many there were of them. -/
def significant (value : Nat) : (taken : Nat) → Bytes → Nat × Nat
  | taken, [] => (value, taken)
  | taken, d :: rest =>
    let next := value * 10 + (d.toNat - 48)
    if next < UInt64.size then significant next (taken + 1) rest else (value, taken)

/-- The number does not exceed what a binary floating point number of 64
bits can hold. -/
def isFinite (n : Numeral) : Bool :=
  let (value, taken) := significant 0 0 n.whole
  let fraction := n.fraction.getD []
  let (value, after) := significant value 0 fraction
  let written : Int :=
    match n.exponent with
    | none => 0
    | some (sign, digits) => if sign = some 45 then -(ofDigits digits : Int) else ofDigits digits
  let e : Int := written + (n.whole.length - taken : Nat) - after
  if value = 0 ∨ e < 0 then true
  else if e > 308 then false
  else round53 (round53 value * round53 (Nat.pow 10 e.toNat)) < 1 <<< 1024

end Numeral

namespace Json

/-! ## Writing -/

/-- The digit for a number below sixteen. -/
def hexDigit (n : Nat) : UInt8 := (if n < 10 then n + 48 else n + 87).toUInt8

/-- The written form of one byte of a string. -/
def escapeByte (c : UInt8) : Bytes :=
  if c = 0x22 then [0x5C, 0x22]
  else if c = 0x5C then [0x5C, 0x5C]
  else if c = 0x08 then [0x5C, 0x62]
  else if c = 0x0C then [0x5C, 0x66]
  else if c = 0x0A then [0x5C, 0x6E]
  else if c = 0x0D then [0x5C, 0x72]
  else if c = 0x09 then [0x5C, 0x74]
  else if c < 0x20 then [0x5C, 0x75, 0x30, 0x30, hexDigit (c.toNat / 16), hexDigit (c.toNat % 16)]
  else [c]

/-- The string value of a text. -/
def ofText (s : String) : Json := .string ((Bytes.ofText s).flatMap escapeByte)

/-- The number value of a natural number. -/
def ofNat (n : Nat) : Json := .number (Numeral.ofNat n)

/-- An object with these members. -/
def record (members : List (String × Json)) : Json :=
  .object (members.map fun m => ((Bytes.ofText m.1).flatMap escapeByte, m.2))

/-- The written form of a number. -/
def renderNumeral (n : Numeral) : Bytes :=
  (if n.negative then [0x2D] else []) ++ n.whole ++
    (match n.fraction with
      | none => []
      | some f => 0x2E :: f) ++
    (match n.exponent with
      | none => []
      | some (sign, digits) => 0x65 :: sign.toList ++ digits)

/-- A string between quotes. -/
def quote (body : Bytes) : Bytes := 0x22 :: body ++ [0x22]

mutual

/-- The compact written form of a value. -/
def render : Json → Bytes
  | .null => [0x6E, 0x75, 0x6C, 0x6C]
  | .bool true => [0x74, 0x72, 0x75, 0x65]
  | .bool false => [0x66, 0x61, 0x6C, 0x73, 0x65]
  | .number n => renderNumeral n
  | .string body => quote body
  | .array items => 0x5B :: renderItems items ++ [0x5D]
  | .object members => 0x7B :: renderMembers members ++ [0x7D]

/-- Items with commas between them. -/
def renderItems : List Json → Bytes
  | [] => []
  | [j] => render j
  | j :: rest => render j ++ 0x2C :: renderItems rest

/-- Members with commas between them. -/
def renderMembers : List (Bytes × Json) → Bytes
  | [] => []
  | [(k, j)] => quote k ++ 0x3A :: render j
  | (k, j) :: rest => quote k ++ 0x3A :: render j ++ 0x2C :: renderMembers rest

end

end Json

end Lockbox
