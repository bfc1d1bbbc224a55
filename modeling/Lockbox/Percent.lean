import Lockbox.Hex
/-!
# Lockbox — percent escapes

Letters, digits and the four marks `-`, `_`, `.`, `~` stand for
themselves; every other byte of a text's UTF-8 form is a percent sign and
two upper-case digits. Reading takes digits of either case and leaves
every other character as it is. `unescape?_escape` says that reading
undoes writing.
-/

namespace Lockbox

namespace Percent

/-- The byte stands for itself. -/
def isPlain (b : UInt8) : Bool :=
  (48 ≤ b && b ≤ 57) || (65 ≤ b && b ≤ 90) || (97 ≤ b && b ≤ 122) ||
    b == 45 || b == 46 || b == 95 || b == 126

/-- The upper-case digit for a number below sixteen. -/
def digit (n : Nat) : Char := Char.ofNat (if n < 10 then n + 48 else n + 55)

/-- The written form of a byte. -/
def escapeByte (b : UInt8) : List Char :=
  if isPlain b then [Char.ofNat b.toNat]
  else ['%', digit (b.toNat / 16), digit (b.toNat % 16)]

/-- The written form of a text. -/
def escape (s : String) : List Char := (Bytes.ofText s).flatMap escapeByte

/-- Reads a written form, with the bytes read so far in `done`, newest
first; nothing if a percent sign starts no escape. -/
def unescapeFrom (done : Bytes) : List Char → Option Bytes
  | [] => some done.reverse
  | c :: rest =>
    if c = '%' then
      match rest with
      | h :: l :: rest =>
        match Hex.byte? h l with
        | some b => unescapeFrom (b :: done) rest
        | none => none
      | _ => none
    else unescapeFrom ((String.utf8EncodeChar c).reverse ++ done) rest

/-- The bytes that a written form stands for. -/
def unescape? (cs : List Char) : Option Bytes := unescapeFrom [] cs

/-- Every byte is read back from its written form, whatever follows. -/
theorem unescapeFrom_escapeByte : ∀ (b : UInt8) (done : Bytes) (rest : List Char),
    unescapeFrom done (escapeByte b ++ rest) = unescapeFrom (b :: done) rest := by
  intro b done rest
  have plain : ∀ n : Fin 256, isPlain n.val.toUInt8 = true →
      Char.ofNat n.val ≠ '%' ∧ String.utf8EncodeChar (Char.ofNat n.val) = [n.val.toUInt8] := by
    decide +kernel
  have other : ∀ n : Fin 256,
      Hex.byte? (digit (n.val / 16)) (digit (n.val % 16)) = some n.val.toUInt8 := by
    decide +kernel
  have hb : b.toNat.toUInt8 = b := by simp
  unfold escapeByte
  split
  · rename_i h
    obtain ⟨h₁, h₂⟩ := plain ⟨b.toNat, b.toNat_lt⟩ (by simpa [hb] using h)
    simp only [hb] at h₂
    have h₁ : Char.ofNat b.toNat ≠ '%' := h₁
    rw [List.singleton_append]
    conv => lhs; unfold unescapeFrom
    rw [if_neg h₁, h₂]
    rfl
  · have h := other ⟨b.toNat, b.toNat_lt⟩
    simp only [hb] at h
    simp [unescapeFrom, h]

/-- Bytes that were escaped are read back, behind those that were read before.
-/
theorem unescapeFrom_flatMap (b done : Bytes) :
    unescapeFrom done (b.flatMap escapeByte) = some (done.reverse ++ b) := by
  induction b generalizing done with
  | nil => simp [unescapeFrom]
  | cons c b ih => rw [List.flatMap_cons, unescapeFrom_escapeByte, ih]; simp

/-- **Reading undoes writing.** -/
theorem unescape?_escape (s : String) : unescape? (escape s) = some (Bytes.ofText s) := by
  simp [unescape?, escape, unescapeFrom_flatMap]

end Percent

end Lockbox
