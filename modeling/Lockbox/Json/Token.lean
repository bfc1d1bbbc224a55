import Lockbox.Json.Basic
/-!
# Lockbox — the tokens of a JSON text

A text is cut into punctuation, strings, numbers and the three words,
with blanks between them. Inside a string only the grammar is checked: no
control character, and escapes of the right shape.
-/

namespace Lockbox

namespace Json

/-- The smallest meaningful parts of a JSON text. -/
inductive Token where
  | openArray
  | closeArray
  | openObject
  | closeObject
  | comma
  | colon
  | text (body : Bytes)
  | scalar (value : Json)

/-- A decimal digit. -/
def isDigit (c : UInt8) : Bool := 0x30 ≤ c && c ≤ 0x39

/-- A hexadecimal digit of either case. -/
def isHexDigit (c : UInt8) : Bool :=
  isDigit c || (0x61 ≤ c && c ≤ 0x66) || (0x41 ≤ c && c ≤ 0x46)

/-- The characters that may follow a backslash alone. -/
def isEscape (c : UInt8) : Bool :=
  c == 0x22 || c == 0x5C || c == 0x2F || c == 0x62 || c == 0x66 || c == 0x6E || c == 0x72 || c == 0x74

/-- The body of a string up to its closing quote, and what follows. -/
def scanText (done : Bytes) : Bytes → Option (Bytes × Bytes)
  | [] => none
  | c :: rest =>
    if c = 0x22 then some (done.reverse, rest)
    else if c = 0x5C then
      match rest with
      | [] => none
      | e :: rest =>
        if e = 0x75 then
          match rest with
          | h₁ :: h₂ :: h₃ :: h₄ :: rest =>
            if isHexDigit h₁ && isHexDigit h₂ && isHexDigit h₃ && isHexDigit h₄ then
              scanText (h₄ :: h₃ :: h₂ :: h₁ :: e :: c :: done) rest
            else none
          | _ => none
        else if isEscape e then scanText (e :: c :: done) rest
        else none
    else if c < 0x20 then none
    else scanText (c :: done) rest

/-- At least one digit, and what follows. -/
def scanDigits (b : Bytes) : Option (Bytes × Bytes) :=
  if b.takeWhile isDigit = [] then none else some (b.takeWhile isDigit, b.dropWhile isDigit)

/-- The digits after a point, if there is one. -/
def scanFraction : Bytes → Option (Option Bytes × Bytes)
  | 0x2E :: rest => (scanDigits rest).map fun p => (some p.1, p.2)
  | b => some (none, b)

/-- The sign of an exponent, if there is one. -/
def scanSign : Bytes → Option UInt8 × Bytes
  | 0x2B :: rest => (some 0x2B, rest)
  | 0x2D :: rest => (some 0x2D, rest)
  | b => (none, b)

/-- The sign and the digits of an exponent, if there is one. -/
def scanExponent : Bytes → Option (Option (Option UInt8 × Bytes) × Bytes)
  | [] => some (none, [])
  | c :: rest =>
    if c = 0x65 ∨ c = 0x45 then
      (scanDigits (scanSign rest).2).map fun p => (some ((scanSign rest).1, p.1), p.2)
    else some (none, c :: rest)

/-- A number without its sign, and what follows. No zero goes before
other digits. -/
def scanNumeral (negative : Bool) (b : Bytes) : Option (Numeral × Bytes) := do
  let (whole, b) ← scanDigits b
  if whole.head? = some 0x30 ∧ whole.length ≠ 1 then none
  else
    let (fraction, b) ← scanFraction b
    let (exponent, b) ← scanExponent b
    return (⟨negative, whole, fraction, exponent⟩, b)

/-- What follows a word that has to come next. -/
def dropWord : (word : Bytes) → Bytes → Option Bytes
  | [], b => some b
  | w :: word, c :: b => if w = c then dropWord word b else none
  | _ :: _, [] => none

/-- The tokens of one byte. -/
def punctuation? (c : UInt8) : Option Token :=
  if c = 0x5B then some .openArray
  else if c = 0x5D then some .closeArray
  else if c = 0x7B then some .openObject
  else if c = 0x7D then some .closeObject
  else if c = 0x2C then some .comma
  else if c = 0x3A then some .colon
  else none

/-- The word that begins with `c`, without `c`, and its value. -/
def word? (c : UInt8) : Option (Bytes × Json) :=
  if c = 0x6E then some ([0x75, 0x6C, 0x6C], .null)
  else if c = 0x74 then some ([0x72, 0x75, 0x65], .bool true)
  else if c = 0x66 then some ([0x61, 0x6C, 0x73, 0x65], .bool false)
  else none

/-- A number that begins with `c`. -/
def numeral? (c : UInt8) (rest : Bytes) : Option (Numeral × Bytes) :=
  if c = 0x2D then scanNumeral true rest
  else if isDigit c then scanNumeral false (c :: rest)
  else none

/-- The token that begins with the byte `c`, and what follows it. -/
def token? (c : UInt8) (rest : Bytes) : Option (Token × Bytes) :=
  match punctuation? c with
  | some t => some (t, rest)
  | none =>
    if c = 0x22 then (scanText [] rest).map fun p => (.text p.1, p.2)
    else match word? c with
      | some (word, value) => (dropWord word rest).map fun b => (.scalar value, b)
      | none => (numeral? c rest).map fun p => (.scalar (.number p.1), p.2)

/-! ## A token leaves less to read -/

/-- Scanning a text leaves less behind: its quote is gone. This and what
follows is why reading a value ends. -/
theorem scanText_length {b done body rest : Bytes} (h : scanText done b = some (body, rest)) :
    rest.length < b.length := by
  fun_induction scanText done b <;> simp_all <;> omega

/-- Digits are one at least. -/
theorem scanDigits_length {b digits rest : Bytes} (h : scanDigits b = some (digits, rest)) :
    rest.length < b.length := by
  unfold scanDigits at h
  split at h
  · exact absurd h (by simp)
  · rename_i hne
    obtain ⟨rfl, rfl⟩ := Prod.mk.inj (Option.some.inj h)
    have := congrArg List.length (List.takeWhile_append_dropWhile (p := isDigit) (l := b))
    have := List.length_pos_iff.mpr hne
    simp only [List.length_append] at *
    omega

private theorem length_of_map_scanDigits {α : Type} {g : Bytes → α} {b rest : Bytes} {e : α}
    (h : (scanDigits b).map (fun p => (g p.1, p.2)) = some (e, rest)) : rest.length < b.length := by
  obtain ⟨p, hp, he⟩ := Option.map_eq_some_iff.mp h
  obtain ⟨-, rfl⟩ := Prod.mk.inj he
  exact scanDigits_length hp

theorem scanFraction_length {b rest : Bytes} {f : Option Bytes}
    (h : scanFraction b = some (f, rest)) : rest.length ≤ b.length := by
  unfold scanFraction at h
  split at h
  · have := length_of_map_scanDigits (g := some) h
    simp only [List.length_cons]
    omega
  · obtain ⟨-, rfl⟩ := Prod.mk.inj (Option.some.inj h)
    exact Nat.le_refl _

theorem scanSign_length (b : Bytes) : (scanSign b).2.length ≤ b.length := by
  unfold scanSign
  split <;> simp

theorem scanExponent_length {b rest : Bytes} {e : Option (Option UInt8 × Bytes)}
    (h : scanExponent b = some (e, rest)) : rest.length ≤ b.length := by
  unfold scanExponent at h
  split at h
  · obtain ⟨-, rfl⟩ := Prod.mk.inj (Option.some.inj h)
    exact Nat.le_refl _
  · rename_i c b
    split at h
    · have h₁ := length_of_map_scanDigits (g := fun d => some ((scanSign b).1, d)) h
      have h₂ := scanSign_length b
      simp only [List.length_cons]
      omega
    · obtain ⟨-, rfl⟩ := Prod.mk.inj (Option.some.inj h)
      exact Nat.le_refl _

/-- So a numeral is not nothing, though sign, fraction and exponent may be
missing. -/
theorem scanNumeral_length {negative : Bool} {b rest : Bytes} {n : Numeral}
    (h : scanNumeral negative b = some (n, rest)) : rest.length < b.length := by
  simp only [scanNumeral, Option.bind_eq_bind, Option.bind_eq_some_iff] at h
  obtain ⟨⟨whole, b₁⟩, h₁, h⟩ := h
  split at h
  · exact absurd h (by simp)
  · simp only [Option.bind_eq_some_iff] at h
    obtain ⟨⟨f, b₂⟩, h₂, ⟨e, b₃⟩, h₃, h⟩ := h
    obtain ⟨-, rfl⟩ := Prod.mk.inj (Option.some.inj h)
    have h₁ := scanDigits_length h₁
    have h₂ : b₂.length ≤ b₁.length := scanFraction_length h₂
    have h₃ : b₃.length ≤ b₂.length := scanExponent_length h₃
    show b₃.length < b.length
    omega

theorem dropWord_length {word b rest : Bytes} (h : dropWord word b = some rest) :
    rest.length ≤ b.length := by
  fun_induction dropWord word b <;> simp_all
  omega

theorem numeral?_length {c : UInt8} {b rest : Bytes} {n : Numeral}
    (h : numeral? c b = some (n, rest)) : rest.length ≤ b.length := by
  unfold numeral? at h
  split at h
  · exact Nat.le_of_lt (scanNumeral_length h)
  · split at h
    · have := scanNumeral_length h
      simp only [List.length_cons] at this
      omega
    · exact absurd h (by simp)

/-- Behind its first byte a token may have nothing more. -/
theorem token?_length {c : UInt8} {b rest : Bytes} {t : Token}
    (h : token? c b = some (t, rest)) : rest.length ≤ b.length := by
  unfold token? at h
  split at h
  · obtain ⟨-, rfl⟩ := Prod.mk.inj (Option.some.inj h)
    exact Nat.le_refl _
  · split at h
    · obtain ⟨p, hp, he⟩ := Option.map_eq_some_iff.mp h
      obtain ⟨-, rfl⟩ := Prod.mk.inj he
      exact Nat.le_of_lt (scanText_length hp)
    · split at h
      · obtain ⟨p, hp, he⟩ := Option.map_eq_some_iff.mp h
        obtain ⟨-, rfl⟩ := Prod.mk.inj he
        exact dropWord_length hp
      · obtain ⟨p, hp, he⟩ := Option.map_eq_some_iff.mp h
        obtain ⟨-, rfl⟩ := Prod.mk.inj he
        exact numeral?_length hp

/-- A blank between tokens. -/
def isBlank (c : UInt8) : Bool := c == 0x20 || c == 0x09 || c == 0x0A || c == 0x0D

/-- The tokens of a text, those read so far in `done`, newest first. -/
def tokensFrom (done : List Token) (b : Bytes) : Option (List Token) :=
  match b with
  | [] => some done.reverse
  | c :: rest =>
    if isBlank c then tokensFrom done rest
    else match h : token? c rest with
      | none => none
      | some (t, rest') =>
        have := token?_length h
        tokensFrom (t :: done) rest'
termination_by b.length
decreasing_by all_goals simp only [List.length_cons]; omega

/-- The tokens of a text. -/
def tokens? (b : Bytes) : Option (List Token) := tokensFrom [] b

end Json

end Lockbox
