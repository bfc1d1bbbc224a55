import Lockbox.Bytes
/-!
# Lockbox — base 64

Three bytes in four characters, the last group filled up with `=`. Only
the one canonical form is read: the padding must be there, and the bits
that it leaves unused must be zero. `decode?_encode` says that reading
undoes writing.
-/

namespace Lockbox

namespace Base64

/-- The character for a number below 64. -/
def digit (n : Nat) : UInt8 :=
  (if n < 26 then n + 65 else if n < 52 then n + 71 else if n < 62 then n - 4
    else if n = 62 then 43 else 47).toUInt8

/-- The number that a character stands for. -/
def value? (c : UInt8) : Option Nat :=
  let n := c.toNat
  if 65 ≤ n ∧ n ≤ 90 then some (n - 65)
  else if 97 ≤ n ∧ n ≤ 122 then some (n - 71)
  else if 48 ≤ n ∧ n ≤ 57 then some (n + 4)
  else if n = 43 then some 62
  else if n = 47 then some 63
  else none

/-- The padding character. -/
def filler : UInt8 := 61

/-- The characters of a byte string. -/
def encode : Bytes → Bytes
  | [] => []
  | [a] => [digit (a.toNat / 4), digit (a.toNat % 4 * 16), filler, filler]
  | [a, b] =>
    [digit (a.toNat / 4), digit (a.toNat % 4 * 16 + b.toNat / 16), digit (b.toNat % 16 * 4), filler]
  | a :: b :: c :: rest =>
    digit (a.toNat / 4) :: digit (a.toNat % 4 * 16 + b.toNat / 16) ::
      digit (b.toNat % 16 * 4 + c.toNat / 64) :: digit (c.toNat % 64) :: encode rest

/-- One byte from its two characters; the bits left over must be zero. -/
def oneByte? (w x : UInt8) : Option Bytes := do
  let w ← value? w
  let x ← value? x
  if x % 16 = 0 then some [(w * 4 + x / 16).toUInt8] else none

/-- Two bytes from their three characters; the bits left over must be
zero. -/
def twoBytes? (w x y : UInt8) : Option Bytes := do
  let w ← value? w
  let x ← value? x
  let y ← value? y
  if y % 4 = 0 then some [(w * 4 + x / 16).toUInt8, (x % 16 * 16 + y / 4).toUInt8] else none

/-- Three bytes from their four characters. -/
def threeBytes? (w x y z : UInt8) : Option Bytes := do
  let w ← value? w
  let x ← value? x
  let y ← value? y
  let z ← value? z
  some [(w * 4 + x / 16).toUInt8, (x % 16 * 16 + y / 4).toUInt8, (y % 4 * 64 + z).toUInt8]

/-- The byte string of a canonical form. -/
def decode? : Bytes → Option Bytes
  | [] => some []
  | w :: x :: y :: z :: rest =>
    if rest = [] ∧ z = filler then
      if y = filler then oneByte? w x else twoBytes? w x y
    else do
      let group ← threeBytes? w x y z
      let more ← decode? rest
      return group ++ more
  | _ => none

theorem value?_digit : ∀ n : Fin 64, value? (digit n.val) = some n.val := by decide

theorem digit_ne_filler : ∀ n : Fin 64, digit n.val ≠ filler := by decide

private theorem byte_lt (b : UInt8) : b.toNat < 256 := b.toNat_lt

private theorem value?_digit' {n : Nat} (h : n < 64) : value? (digit n) = some n :=
  value?_digit ⟨n, h⟩

private theorem digit_ne_filler' {n : Nat} (h : n < 64) : digit n ≠ filler :=
  digit_ne_filler ⟨n, h⟩

private theorem toUInt8_eq {n : Nat} {b : UInt8} (h : n % 256 = b.toNat) : n.toUInt8 = b := by
  apply UInt8.toNat_inj.mp
  simpa using h

/-- **Reading undoes writing.** -/
theorem decode?_encode (b : Bytes) : decode? (encode b) = some b := by
  fun_induction encode b with
  | case1 => rfl
  | case2 a =>
    have := byte_lt a
    simp only [decode?, and_self, if_true, oneByte?, value?_digit' (n := a.toNat / 4) (by omega),
      value?_digit' (n := a.toNat % 4 * 16) (by omega), Option.bind_eq_bind, Option.bind_some]
    rw [if_pos (by omega)]
    congr 2
    exact toUInt8_eq (by omega)
  | case3 a b =>
    have := byte_lt a
    have := byte_lt b
    simp only [decode?, and_self, if_true,
      if_neg (digit_ne_filler' (n := b.toNat % 16 * 4) (by omega)), twoBytes?,
      value?_digit' (n := a.toNat / 4) (by omega),
      value?_digit' (n := a.toNat % 4 * 16 + b.toNat / 16) (by omega),
      value?_digit' (n := b.toNat % 16 * 4) (by omega), Option.bind_eq_bind, Option.bind_some]
    rw [if_pos (by omega)]
    congr 2
    · exact toUInt8_eq (by omega)
    · congr 1
      exact toUInt8_eq (by omega)
  | case4 a b c rest ih =>
    have := byte_lt a
    have := byte_lt b
    have := byte_lt c
    have hz := digit_ne_filler' (n := c.toNat % 64) (by omega)
    simp only [decode?, hz, and_false, if_false, threeBytes?, ih,
      value?_digit' (n := a.toNat / 4) (by omega),
      value?_digit' (n := a.toNat % 4 * 16 + b.toNat / 16) (by omega),
      value?_digit' (n := b.toNat % 16 * 4 + c.toNat / 64) (by omega),
      value?_digit' (n := c.toNat % 64) (by omega), Option.bind_eq_bind, Option.bind_some]
    simp only [List.cons_append, List.nil_append, pure]
    congr 2
    · exact toUInt8_eq (by omega)
    · congr 1
      · exact toUInt8_eq (by omega)
      · congr 1
        exact toUInt8_eq (by omega)

/-- The characters of a byte string are four for every three bytes begun. -/
theorem length_encode (b : Bytes) : (encode b).length = (b.length + 2) / 3 * 4 := by
  fun_induction encode b with
  | case1 => rfl
  | case2 a => simp
  | case3 a b => simp
  | case4 a b c rest ih => simp only [List.length_cons, ih]; omega

end Base64

end Lockbox
