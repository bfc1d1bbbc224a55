/-!
# Lockbox — byte strings

A byte string is a list of bytes, so that every layer above it is plain
recursion on data. `Octets n` carries its length in its type: keys,
nonces and salts have one length each and nothing has to be checked
twice. Numbers are written most or least significant byte first, and a
text is its UTF-8 form: `text?_ofText` and `ofText_of_text?` say that the
two directions undo each other.
-/

namespace Lockbox

/-- A byte string. -/
abbrev Bytes := List UInt8

/-- A byte string of a known length. -/
abbrev Octets (n : Nat) := { bytes : Bytes // bytes.length = n }

namespace Octets

variable {n : Nat}

/-- The first `n` bytes, followed by zeros where there are fewer. -/
def fit (n : Nat) (b : Bytes) : Octets n :=
  ⟨(b ++ List.replicate (n - b.length) 0).take n, by simp; omega⟩

/-- The byte string itself, if it has the wanted length. -/
def ofBytes? (n : Nat) (b : Bytes) : Option (Octets n) :=
  if h : b.length = n then some ⟨b, h⟩ else none

/-- All bytes zero. -/
def zero (n : Nat) : Octets n := ⟨List.replicate n 0, by simp⟩

@[simp] theorem ofBytes?_val (o : Octets n) : ofBytes? n o.val = some o := by
  simp [ofBytes?, o.property]

/-- Bytes of a fixed number are those bytes, if they are as many. -/
theorem ofBytes?_eq_some_iff {b : Bytes} {o : Octets n} :
    ofBytes? n b = some o ↔ o.val = b := by
  constructor
  · intro h
    unfold ofBytes? at h
    split at h
    · exact (Option.some.inj h) ▸ rfl
    · exact absurd h (by simp)
  · rintro rfl
    exact ofBytes?_val o

theorem fit_val (o : Octets n) : fit n o.val = o := by
  apply Subtype.ext
  have := o.property
  simp [fit, this, List.take_of_length_le]

end Octets

namespace Bytes

/-! ## Texts -/

/-- The UTF-8 form of a text. -/
def ofText (s : String) : Bytes := s.toUTF8.data.toList

/-- The text with this UTF-8 form, if there is one. -/
def text? (b : Bytes) : Option String := String.fromUTF8? b.toByteArray

theorem toByteArray_ofText (s : String) : (ofText s).toByteArray = s.toUTF8 := by
  apply ByteArray.ext
  simp [ofText, List.data_toByteArray]

/-- Text is read back from its bytes. -/
@[simp] theorem text?_ofText (s : String) : text? (ofText s) = some s := by
  have h : s.toUTF8.IsValidUTF8 := s.isValidUTF8
  rw [text?, toByteArray_ofText, String.fromUTF8?, dif_pos h]
  rfl

/-- Bytes that are read as a text are the bytes of that text. -/
theorem ofText_of_text? {b : Bytes} {s : String} (h : text? b = some s) : ofText s = b := by
  rw [text?, String.fromUTF8?] at h
  split at h
  · cases h
    simp [ofText, String.fromUTF8, List.data_toByteArray]
  · exact absurd h (by simp)

/-- So bytes and texts correspond, as far as bytes are texts. -/
theorem text?_eq_some_iff {b : Bytes} {s : String} : text? b = some s ↔ ofText s = b :=
  ⟨ofText_of_text?, fun h => h ▸ text?_ofText s⟩

theorem ofText_injective {s t : String} (h : ofText s = ofText t) : s = t := by
  have := text?_ofText s
  rw [h, text?_ofText] at this
  exact (Option.some.inj this).symm

/-- The size of a text is the number of its bytes. -/
@[simp] theorem length_ofText (s : String) : (ofText s).length = s.utf8ByteSize := by
  simp [ofText]

/-! ## Numbers -/

/-- The lowest `width` base-256 digits of `n`, least significant first. -/
def ofNatLow : (width n : Nat) → Bytes
  | 0, _ => []
  | w + 1, n => n.toUInt8 :: ofNatLow w (n / 256)

/-- The number whose base-256 digits these are, least significant first. -/
def toNatLow (b : Bytes) : Nat := b.foldr (fun c n => n * 256 + c.toNat) 0

/-- The lowest `width` base-256 digits of `n`, most significant first. -/
def ofNat (width n : Nat) : Bytes := (ofNatLow width n).reverse

/-- The number whose base-256 digits these are, most significant first. -/
def toNat (b : Bytes) : Nat := toNatLow b.reverse

@[simp] theorem length_ofNatLow (w n : Nat) : (ofNatLow w n).length = w := by
  induction w generalizing n with
  | zero => rfl
  | succ w ih => simp [ofNatLow, ih]

@[simp] theorem length_ofNat (w n : Nat) : (ofNat w n).length = w := by
  simp [ofNat]

/-- A number is read back from its bytes as far as they can hold it. -/
theorem toNatLow_ofNatLow (w n : Nat) : toNatLow (ofNatLow w n) = n % Nat.pow 256 w := by
  induction w generalizing n with
  | zero => simp [ofNatLow, toNatLow, Nat.pow_eq, Nat.mod_one]
  | succ w ih =>
    have := ih (n / 256)
    rw [toNatLow, Nat.pow_eq] at this
    rw [ofNatLow, toNatLow, List.foldr_cons, this, Nat.pow_eq, Nat.pow_succ,
      Nat.mul_comm (256 ^ w) 256, Nat.mod_mul]
    have : n.toUInt8.toNat = n % 256 := by simp
    omega

theorem toNatLow_lt (b : Bytes) : toNatLow b < Nat.pow 256 b.length := by
  induction b with
  | nil => simp [toNatLow, Nat.pow_eq]
  | cons c b ih =>
    rw [toNatLow, Nat.pow_eq] at ih
    rw [toNatLow, List.foldr_cons, List.length_cons, Nat.pow_eq, Nat.pow_succ]
    have := c.toNat_lt
    omega

/-- Bytes are read back from their number. -/
theorem ofNatLow_toNatLow (b : Bytes) : ofNatLow b.length (toNatLow b) = b := by
  induction b with
  | nil => rfl
  | cons c b ih =>
    rw [toNatLow] at ih
    have hc := c.toNat_lt
    rw [toNatLow, List.foldr_cons, List.length_cons, ofNatLow]
    congr 1
    · apply UInt8.toNat_inj.mp
      simp
    · rw [show ∀ m : Nat, (m * 256 + c.toNat) / 256 = m by omega, ih]

/-- Writing a number and reading it back keeps it, up to the width. -/
theorem toNat_ofNat (w n : Nat) : toNat (ofNat w n) = n % Nat.pow 256 w := by
  rw [toNat, ofNat, List.reverse_reverse, toNatLow_ofNatLow]

/-- The same with the highest byte first. -/
theorem toNat_ofNat_of_lt {w n : Nat} (h : n < Nat.pow 256 w) : toNat (ofNat w n) = n := by
  rw [toNat_ofNat, Nat.mod_eq_of_lt h]

theorem toNat_lt (b : Bytes) : toNat b < Nat.pow 256 b.length := by
  simpa [toNat] using toNatLow_lt b.reverse

/-- Reading a number and writing it back keeps its digits. -/
theorem ofNat_toNat (b : Bytes) : ofNat b.length (toNat b) = b := by
  have := ofNatLow_toNatLow b.reverse
  rw [List.length_reverse] at this
  rw [ofNat, toNat, this, List.reverse_reverse]

/-! ## Bytewise operations -/

/-- Bytewise exclusive or, as long as the shorter of the two. -/
def xor (a b : Bytes) : Bytes := List.zipWith (· ^^^ ·) a b

@[simp] theorem length_xor (a b : Bytes) : (xor a b).length = min a.length b.length := by
  simp [xor]

/-- Adding the same bytes twice leaves what there was. -/
theorem xor_xor_cancel {a b : Bytes} (h : a.length ≤ b.length) : xor (xor a b) b = a := by
  induction a generalizing b with
  | nil => simp [xor]
  | cons x a ih =>
    cases b with
    | nil => simp at h
    | cons y b =>
      have := ih (b := b) (by simpa using h)
      have hx : x ^^^ y ^^^ y = x := by rw [UInt8.xor_assoc, UInt8.xor_self, UInt8.xor_zero]
      simp only [xor] at this
      simp only [xor, List.zipWith_cons_cons, this, hx]

end Bytes

end Lockbox
