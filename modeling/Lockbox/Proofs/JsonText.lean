import Lockbox.Json.Binary
/-!
# Lockbox — reading JSON texts that were written

The bodies of strings are put together piece by piece, and so are the
facts about them: a piece is `Plain` if scanning goes through it, and it
`Means` the bytes that decoding makes of it. Digits are digits, so a
number ends where they end. From there on a value is its tokens
(`tokensOf`), a text of tokens is cut where it was joined
(`tokensFrom_render`), and the tokens build the value they came from
(`run_tokensOf`). `parse?_render` puts the two together.
-/

namespace Lockbox

namespace Json

/-! ## The bodies of strings -/

/-- Scanning a string goes through these bytes and keeps them. -/
def Plain (body : Bytes) : Prop :=
  ∀ done rest, scanText done (body ++ rest) = scanText (body.reverse ++ done) rest

/-- These bytes of a body stand for `value`. -/
def Means (body value : Bytes) : Prop :=
  ∀ done rest, unescapeFrom done (body ++ rest) = unescapeFrom (value.reverse ++ done) rest

theorem plain_nil : Plain [] := fun _ _ => rfl

/-- It goes through one piece and then through the other. -/
theorem Plain.append {a b : Bytes} (ha : Plain a) (hb : Plain b) : Plain (a ++ b) := by
  intro done rest
  rw [List.append_assoc, ha, hb, List.reverse_append, List.append_assoc]

theorem means_nil : Means [] [] := fun _ _ => rfl

/-- Two pieces stand for what each of them stands for. -/
theorem Means.append {a b x y : Bytes} (ha : Means a x) (hb : Means b y) :
    Means (a ++ b) (x ++ y) := by
  intro done rest
  rw [List.append_assoc, ha, hb, List.reverse_append, List.append_assoc]

/-- A closing quote ends a body. -/
theorem Plain.scanText {body : Bytes} (h : Plain body) (rest : Bytes) :
    scanText [] (body ++ 0x22 :: rest) = some (body, rest) := by
  rw [h, Json.scanText.eq_def]
  simp

/-- A body that stands for the bytes of a text is that text. -/
theorem Means.textOf? {body : Bytes} {s : String} (h : Means body (Bytes.ofText s)) :
    textOf? body = some s := by
  have hbytes : unescapeFrom [] body = some (Bytes.ofText s) := by
    have := h [] []
    rw [List.append_nil, List.append_nil] at this
    rw [this, unescapeFrom, List.reverse_reverse]
  rw [Json.textOf?, hbytes, Option.bind_some, Bytes.text?_ofText]

/-- A byte that needs no escape. -/
def isLiteral (c : UInt8) : Bool := c ≠ 0x22 ∧ c ≠ 0x5C ∧ ¬ c < 0x20

/-- A byte that needs no escape is scanned as it is. -/
theorem plain_of_isLiteral {c : UInt8} (h : isLiteral c) : Plain [c] := by
  simp only [isLiteral, decide_eq_true_eq] at h
  intro done rest
  rw [List.singleton_append, scanText.eq_def]
  simp [h]

/-- And it stands for itself. -/
theorem means_of_isLiteral {c : UInt8} (h : isLiteral c) : Means [c] [c] := by
  simp only [isLiteral, decide_eq_true_eq] at h
  intro done rest
  rw [List.singleton_append, unescapeFrom.eq_def]
  simp [h]

/-- A backslash and a letter are scanned together; the letter `u` has digits
behind it. -/
theorem plain_shortEscape {e : UInt8} (h : isEscape e) (hu : e ≠ 0x75) : Plain [0x5C, e] := by
  intro done rest
  rw [scanText.eq_def]
  simp [hu, h]

/-- They stand for one byte. -/
theorem means_shortEscape {e : UInt8} (hu : e ≠ 0x75) : Means [0x5C, e] [shortEscape e] := by
  intro done rest
  rw [unescapeFrom.eq_def]
  simp [hu]

/-- What there is to check of the escape of a control character. -/
theorem hexDigit_spec : ∀ n : Fin 32,
    isHexDigit (hexDigit (n.val / 16)) ∧ isHexDigit (hexDigit (n.val % 16)) ∧
      hexNumber 0x30 0x30 (hexDigit (n.val / 16)) (hexDigit (n.val % 16)) = n.val ∧
      String.utf8EncodeChar (Char.ofNat n.val) = [n.val.toUInt8] := by
  decide

/-- There are 32 control characters. -/
theorem toNat_lt_of_control {c : UInt8} (h : c < 0x20) : c.toNat < 32 := UInt8.lt_iff_toNat_lt.mp h

/-- The escape of a control character has four digits, which the scan checks.
-/
theorem plain_control {c : UInt8} (h : c < 0x20) :
    Plain [0x5C, 0x75, 0x30, 0x30, hexDigit (c.toNat / 16), hexDigit (c.toNat % 16)] := by
  obtain ⟨h₁, h₂, -, -⟩ := hexDigit_spec ⟨c.toNat, toNat_lt_of_control h⟩
  intro done rest
  have h₀ : isHexDigit 0x30 := by decide
  simp [scanText, h₀, h₁, h₂]

/-- It stands for that character. -/
theorem means_control {c : UInt8} (h : c < 0x20) :
    Means [0x5C, 0x75, 0x30, 0x30, hexDigit (c.toNat / 16), hexDigit (c.toNat % 16)] [c] := by
  have hlt := toNat_lt_of_control h
  obtain ⟨-, -, hnumber, hchar⟩ := hexDigit_spec ⟨c.toNat, hlt⟩
  have hc : c.toNat.toUInt8 = c := by simp
  rw [hc] at hchar
  intro done rest
  -- the number is below the surrogates, so one escape is one character
  simp only [List.cons_append, List.nil_append]
  rw [unescapeFrom, if_pos rfl]
  simp only [if_true, hnumber, hchar]
  rw [if_neg (by omega), if_neg (by omega)]

/-- Whatever the byte, scanning goes through its escaped form. -/
theorem plain_escapeByte (c : UInt8) : Plain (escapeByte c) := by
  unfold escapeByte
  -- short escapes, then control characters, and what needs no escape is left
  repeat' split
  all_goals first
    | exact plain_shortEscape (by decide) (by decide)
    | (rename_i h; exact plain_control h)
    | skip
  rename_i h₁ h₂ _ _ _ _ _ h₃
  exact plain_of_isLiteral (by simp [isLiteral, h₁, h₂, h₃])

/-- And that stands for the byte. -/
theorem means_escapeByte (c : UInt8) : Means (escapeByte c) [c] := by
  unfold escapeByte
  repeat' split
  all_goals first
    | (subst_vars; exact means_shortEscape (by decide))
    | (rename_i h; exact means_control h)
    | skip
  rename_i h₁ h₂ _ _ _ _ _ h₃
  exact means_of_isLiteral (by simp [isLiteral, h₁, h₂, h₃])

/-- So it goes through the escaped form of any bytes, byte by byte. -/
theorem plain_escaped (b : Bytes) : Plain (b.flatMap escapeByte) := by
  induction b with
  | nil => exact plain_nil
  | cons c b ih => exact (plain_escapeByte c).append ih

/-- Which stands for them. -/
theorem means_escaped (b : Bytes) : Means (b.flatMap escapeByte) b := by
  induction b with
  | nil => exact means_nil
  | cons c b ih => exact (means_escapeByte c).append ih

/-- **A text is read back from its escaped form.** -/
theorem textOf?_escaped (s : String) : textOf? ((Bytes.ofText s).flatMap escapeByte) = some s :=
  (means_escaped _).textOf?

/-- A string that is written is read as its text. -/
@[simp] theorem text?_ofText (s : String) : (ofText s).text? = some s := textOf?_escaped s

/-- Base 64 consists of its digits and the filler. -/
theorem mem_encode {c : UInt8} {b : Bytes} (h : c ∈ Base64.encode b) :
    c = Base64.filler ∨ ∃ n : Fin 64, c = Base64.digit n.val := by
  have hdigit : ∀ n, n < 64 →
      Base64.digit n = Base64.filler ∨ ∃ m : Fin 64, Base64.digit n = Base64.digit m.val :=
    fun n hn => .inr ⟨⟨n, hn⟩, rfl⟩
  fun_induction Base64.encode b with
  | case1 => exact absurd h (by simp)
  | case2 x =>
    have := x.toNat_lt
    simp only [List.mem_cons, List.not_mem_nil, or_false] at h
    rcases h with rfl | rfl | rfl | rfl
    · exact hdigit _ (by omega)
    · exact hdigit _ (by omega)
    · exact .inl rfl
    · exact .inl rfl
  | case3 x y =>
    have := x.toNat_lt
    have := y.toNat_lt
    simp only [List.mem_cons, List.not_mem_nil, or_false] at h
    rcases h with rfl | rfl | rfl | rfl
    · exact hdigit _ (by omega)
    · exact hdigit _ (by omega)
    · exact hdigit _ (by omega)
    · exact .inl rfl
  | case4 x y z rest ih =>
    have := x.toNat_lt
    have := y.toNat_lt
    have := z.toNat_lt
    simp only [List.mem_cons] at h
    rcases h with rfl | rfl | rfl | rfl | h
    · exact hdigit _ (by omega)
    · exact hdigit _ (by omega)
    · exact hdigit _ (by omega)
    · exact hdigit _ (by omega)
    · exact ih h

/-- The 64 digits of base 64, looked at one after the other. -/
theorem isLiteral_digit : ∀ n : Fin 64, isLiteral (Base64.digit n.val) ∧
    String.utf8EncodeChar (Char.ofNat (Base64.digit n.val).toNat) = [Base64.digit n.val] := by
  decide

/-- The characters of base 64 need no escape and are characters of one
byte. -/
theorem isLiteral_of_mem_encode {c : UInt8} {b : Bytes} (h : c ∈ Base64.encode b) :
    isLiteral c ∧ String.utf8EncodeChar (Char.ofNat c.toNat) = [c] := by
  rcases mem_encode h with rfl | ⟨n, rfl⟩
  · decide
  · exact isLiteral_digit n

/-- Bytes that need no escape are scanned as they are. -/
theorem plain_of_literals {b : Bytes} (h : ∀ c ∈ b, isLiteral c) : Plain b := by
  induction b with
  | nil => exact plain_nil
  | cons c b ih =>
    exact (plain_of_isLiteral (h c List.mem_cons_self)).append
      (ih fun d hd => h d (List.mem_cons_of_mem _ hd))

/-- And they stand for themselves. -/
theorem means_of_literals {b : Bytes} (h : ∀ c ∈ b, isLiteral c) : Means b b := by
  induction b with
  | nil => exact means_nil
  | cons c b ih =>
    exact (means_of_isLiteral (h c List.mem_cons_self)).append
      (ih fun d hd => h d (List.mem_cons_of_mem _ hd))

/-- Bytes that are characters each are a text. -/
theorem exists_ofText {b : Bytes}
    (h : ∀ c ∈ b, String.utf8EncodeChar (Char.ofNat c.toNat) = [c]) :
    ∃ s, Bytes.ofText s = b := by
  refine ⟨String.ofList (b.map fun c => Char.ofNat c.toNat), ?_⟩
  have hflat : (b.map fun c => Char.ofNat c.toNat).flatMap String.utf8EncodeChar = b := by
    induction b with
    | nil => rfl
    | cons c b ih =>
      rw [List.map_cons, List.flatMap_cons, h c List.mem_cons_self,
        ih fun d hd => h d (List.mem_cons_of_mem _ hd)]
      rfl
  simp [Bytes.ofText, List.utf8Encode, hflat]

/-- So the base 64 of any bytes can be scanned. -/
theorem plain_encode (b : Bytes) : Plain (Base64.encode b) :=
  plain_of_literals fun _ hc => (isLiteral_of_mem_encode hc).1

/-- **Bytes are read back from base 64 in a string.** -/
@[simp] theorem bytes?_ofBytes (b : Bytes) : (ofBytes b).bytes? = some b := by
  obtain ⟨s, hs⟩ := exists_ofText fun c (hc : c ∈ Base64.encode b) =>
    (isLiteral_of_mem_encode hc).2
  have hmeans := means_of_literals fun c (hc : c ∈ Base64.encode b) =>
    (isLiteral_of_mem_encode hc).1
  rw [← hs] at hmeans
  have htext : (ofBytes b).text? = some s := by
    rw [ofBytes, ← hs]
    exact hmeans.textOf?
  simp [bytes?, htext, hs, Base64.decode?_encode]

/-- Bytes of a fixed number are read back as so many. -/
@[simp] theorem octets?_ofBytes {n : Nat} (o : Octets n) : (ofBytes o.val).octets? n = some o := by
  simp [octets?]

/-! ## Numbers

Only whole numbers are written. Reading one back is reading its digits, and
rounding to a double does not touch it below 2 to the 53. -/

/-- The byte of a decimal digit. -/
def digitByte (n : Nat) : UInt8 := n.digitChar.toNat.toUInt8

/-- What there is to know of a decimal digit: its value, and that it is the
byte of nothing else. -/
theorem digitByte_spec : ∀ n : Fin 10, isDigit (digitByte n.val) ∧
    (digitByte n.val).toNat = n.val + 48 ∧ punctuation? (digitByte n.val) = none ∧
    word? (digitByte n.val) = none ∧ digitByte n.val ≠ 0x22 ∧ digitByte n.val ≠ 0x2D ∧
    isBlank (digitByte n.val) = false := by
  simp only [punctuation?, word?]
  decide

/-- A number below ten is its digit. -/
theorem whole_of_lt {n : Nat} (h : n < 10) : (Numeral.ofNat n).whole = [digitByte n] := by
  simp [Numeral.ofNat, Nat.toDigits_of_lt_base h, digitByte]

/-- Any other is its tenth part, with one digit behind. -/
theorem whole_of_le {n : Nat} (h : 10 ≤ n) :
    (Numeral.ofNat n).whole = (Numeral.ofNat (n / 10)).whole ++ [digitByte (n % 10)] := by
  simp [Numeral.ofNat, Nat.toDigits_of_base_le (by decide) h, digitByte]

/-- Numbers are written digit by digit: what holds of one digit and still
holds with one more holds of them all. -/
theorem whole_induction {P : Nat → Bytes → Prop} (one : ∀ n, n < 10 → P n [digitByte n])
    (more : ∀ n, 10 ≤ n → P (n / 10) (Numeral.ofNat (n / 10)).whole →
      P n ((Numeral.ofNat (n / 10)).whole ++ [digitByte (n % 10)]))
    (n : Nat) : P n (Numeral.ofNat n).whole := by
  induction n using Nat.strongRecOn with
  | ind n ih =>
    by_cases h : n < 10
    · rw [whole_of_lt h]
      exact one n h
    · rw [whole_of_le (by omega)]
      exact more n (by omega) (ih (n / 10) (by omega))

/-- A number is written in digits. -/
theorem isDigit_of_mem_whole (n : Nat) : ∀ c ∈ (Numeral.ofNat n).whole, isDigit c := by
  refine whole_induction (P := fun _ w => ∀ c ∈ w, isDigit c) ?_ ?_ n
  · intro n hn c hc
    obtain rfl := List.mem_singleton.mp hc
    exact (digitByte_spec ⟨n, hn⟩).1
  · intro n _ ih c hc
    rcases List.mem_append.mp hc with hc | hc
    · exact ih c hc
    · obtain rfl := List.mem_singleton.mp hc
      exact (digitByte_spec ⟨n % 10, Nat.mod_lt _ (by decide)⟩).1

/-- A number begins with a digit, which is zero only for zero. -/
theorem head_whole (n : Nat) :
    ∃ d rest, (Numeral.ofNat n).whole = digitByte d :: rest ∧ d < 10 ∧
      (d = 0 → rest = []) := by
  -- that the number is zero has to be carried along, or else zero might have digits behind it
  have hstrong : ∃ d rest, (Numeral.ofNat n).whole = digitByte d :: rest ∧ d < 10 ∧
      (d = 0 → rest = [] ∧ n = 0) := by
    refine whole_induction (P := fun n w => ∃ d rest, w = digitByte d :: rest ∧ d < 10 ∧
      (d = 0 → rest = [] ∧ n = 0)) ?_ ?_ n
    · intro n hn
      exact ⟨n, [], rfl, hn, fun h => ⟨rfl, h⟩⟩
    · rintro n hn ⟨d, rest, hw, hd, hzero⟩
      refine ⟨d, rest ++ [digitByte (n % 10)], by rw [hw]; rfl, hd, fun h => ?_⟩
      have := (hzero h).2
      omega
  obtain ⟨d, rest, hw, hd, hzero⟩ := hstrong
  exact ⟨d, rest, hw, hd, fun h => (hzero h).1⟩

/-- One digit more takes the value ten times and adds its own. -/
theorem ofDigits_concat (a : Bytes) (d : UInt8) :
    Numeral.ofDigits (a ++ [d]) = Numeral.ofDigits a * 10 + (d.toNat - 48) := by
  simp [Numeral.ofDigits]

/-- The digits of a number have its value. -/
theorem ofDigits_whole (n : Nat) : Numeral.ofDigits (Numeral.ofNat n).whole = n := by
  refine whole_induction (P := fun n w => Numeral.ofDigits w = n) ?_ ?_ n
  · intro n hn
    have hvalue := (digitByte_spec ⟨n, hn⟩).2.1
    simp [Numeral.ofDigits, hvalue]
  · intro n hn ih
    have hvalue := (digitByte_spec ⟨n % 10, Nat.mod_lt _ (by decide)⟩).2.1
    rw [ofDigits_concat, ih, hvalue]
    show n / 10 * 10 + (n % 10 + 48 - 48) = n
    omega

/-- They are as few as the number is small. -/
theorem length_whole_le {n k : Nat} (hk : 0 < k) (h : n < Nat.pow 10 k) :
    (Numeral.ofNat n).whole.length ≤ k := by
  rw [Numeral.ofNat, List.length_map]
  exact (Nat.length_toDigits_le_iff (by decide) hk).mpr h

/-- **A number is read back from its digits.** -/
theorem nat?_ofNat {limit n : Nat} (hn : n ≤ limit) (hlimit : limit < Nat.pow 10 20) :
    (ofNat n).nat? limit = some n := by
  have hlen : (Numeral.ofNat n).whole.length ≤ 20 :=
    length_whole_le (by decide) (Nat.lt_of_le_of_lt hn hlimit)
  have hnat : (Numeral.ofNat n).nat? limit = some n := by
    rw [Numeral.nat?, ofDigits_whole, if_neg]
    · exact if_pos hn
    · rintro (h | h | h | h)
      · exact absurd h (by simp [Numeral.ofNat])
      · exact absurd h (by simp [Numeral.ofNat])
      · exact absurd h (by simp [Numeral.ofNat])
      · exact Nat.not_lt.mpr hlen h
  exact hnat

/-- Digits whose number fits 64 bits all count. -/
theorem significant_of_lt {digits : Bytes} {value : Nat} (taken : Nat)
    (h : digits.foldl (fun n d => n * 10 + (d.toNat - 48)) value < UInt64.size) :
    Numeral.significant value taken digits
      = (digits.foldl (fun n d => n * 10 + (d.toNat - 48)) value, taken + digits.length) := by
  -- the number only grows, so if all of it fits, every beginning does
  have hle : ∀ (ds : Bytes) (v : Nat), v ≤ ds.foldl (fun n d => n * 10 + (d.toNat - 48)) v := by
    intro ds
    induction ds with
    | nil => exact fun v => Nat.le_refl v
    | cons d ds ih =>
      intro v
      exact Nat.le_trans (by omega) (ih (v * 10 + (d.toNat - 48)))
  induction digits generalizing value taken with
  | nil => rfl
  | cons d ds ih =>
    rw [List.foldl_cons] at h ⊢
    have := hle ds (value * 10 + (d.toNat - 48))
    rw [Numeral.significant, if_pos (by omega), ih _ h, List.length_cons, Nat.add_assoc,
      Nat.add_comm 1]

/-- A number of at most 53 bits is not rounded. -/
theorem round53_of_lt {n : Nat} (h : n < 1 <<< 53) : Numeral.round53 n = n := if_pos h

/-- A number of at most 53 bits is finite. -/
theorem isFinite_ofNat {n : Nat} (h : n < 1 <<< 53) : (Numeral.ofNat n).isFinite := by
  have hfold : (Numeral.ofNat n).whole.foldl (fun n d => n * 10 + (d.toNat - 48)) 0 = n :=
    ofDigits_whole n
  have hwhole : Numeral.significant 0 0 (Numeral.ofNat n).whole
      = (n, (Numeral.ofNat n).whole.length) := by
    rw [significant_of_lt 0 (by rw [hfold]; exact Nat.lt_trans h (by decide)), hfold, Nat.zero_add]
  have hfraction : (Numeral.ofNat n).fraction.getD [] = [] := rfl
  have hexponent : (Numeral.ofNat n).exponent = none := rfl
  have hone : Numeral.round53 (Nat.pow 10 0) = 1 := by decide
  have hpow : ∀ k, 53 ≤ k → n < 1 <<< k := by
    intro k hk
    rw [Nat.one_shiftLeft] at h ⊢
    exact Nat.lt_of_lt_of_le h (Nat.pow_le_pow_right (by decide) hk)
  simp only [Numeral.isFinite, hwhole, hfraction, hexponent, Numeral.significant, Nat.sub_self]
  -- all digits count and the power of ten is the zeroth, so nothing is rounded
  split
  · rfl
  · rw [if_neg (by decide), Int.toNat_eq_zero.mpr (by decide), hone, Nat.mul_one,
      round53_of_lt h, round53_of_lt h]
    exact decide_eq_true (hpow 1024 (by decide))

/-! ## Tokens

A text is cut into tokens without knowing what they mean. Numbers are the
one kind of token that does not say where it ends, so what follows one must
not look like more of it. -/

/-- What follows cannot be taken for a part of a number. -/
def Delimited (rest : Bytes) : Prop :=
  ∀ c ∈ rest.head?, isDigit c = false ∧ c ≠ 0x2E ∧ c ≠ 0x65 ∧ c ≠ 0x45

/-- A comma or a closing bracket is no part of a number. -/
theorem delimited_cons {c : UInt8} (rest : Bytes) (h : c = 0x2C ∨ c = 0x5D ∨ c = 0x7D) :
    Delimited (c :: rest) := by
  intro d hd
  obtain rfl : c = d := by simpa using hd
  rcases h with rfl | rfl | rfl <;> decide

/-- Nor is the end of the text. -/
theorem delimited_nil : Delimited [] := fun _ hc => absurd hc (by simp)

/-- Digits are scanned up to where something else follows. -/
theorem scanDigits_append {digits rest : Bytes} (hne : digits ≠ [])
    (hdigits : ∀ c ∈ digits, isDigit c) (hrest : Delimited rest) :
    scanDigits (digits ++ rest) = some (digits, rest) := by
  have htake : rest.takeWhile isDigit = [] := by
    cases rest with
    | nil => rfl
    | cons c rest => rw [List.takeWhile_cons_of_neg (by simp [(hrest c rfl).1])]
  have hdrop : rest.dropWhile isDigit = rest := by
    cases rest with
    | nil => rfl
    | cons c rest => rw [List.dropWhile_cons_of_neg (by simp [(hrest c rfl).1])]
  rw [scanDigits, List.takeWhile_append_of_pos hdigits, List.dropWhile_append_of_pos hdigits,
    htake, hdrop, List.append_nil, if_neg hne]

/-- If no point follows, there is no fraction. -/
theorem scanFraction_of_delimited {rest : Bytes} (h : Delimited rest) :
    scanFraction rest = some (none, rest) := by
  unfold scanFraction
  split
  · exact absurd rfl (h 0x2E rfl).2.1
  · rfl

/-- And without the letter for it there is no exponent. -/
theorem scanExponent_of_delimited {rest : Bytes} (h : Delimited rest) :
    scanExponent rest = some (none, rest) := by
  cases rest with
  | nil => rfl
  | cons c rest =>
    obtain ⟨-, -, h₁, h₂⟩ := h c rfl
    rw [scanExponent, if_neg (by simp [h₁, h₂])]

/-- **A number is scanned from its digits,** which begin with a zero only if
that is all of it. -/
theorem scanNumeral_whole (n : Nat) {rest : Bytes} (h : Delimited rest) :
    scanNumeral false ((Numeral.ofNat n).whole ++ rest) = some (Numeral.ofNat n, rest) := by
  obtain ⟨d, more, hw, hd, hzero⟩ := head_whole n
  have hne : (Numeral.ofNat n).whole ≠ [] := by simp [hw]
  -- a leading zero is the only digit
  have hlead : ¬ ((Numeral.ofNat n).whole.head? = some 0x30 ∧ (Numeral.ofNat n).whole.length ≠ 1) := by
    rintro ⟨hhead, hlen⟩
    rw [hw] at hhead hlen
    have hbyte : digitByte d = 0x30 := by simpa using hhead
    have hvalue := (digitByte_spec ⟨d, hd⟩).2.1
    simp only [hbyte] at hvalue
    have hd0 : d = 0 := by
      have : (0x30 : UInt8).toNat = 48 := rfl
      omega
    exact hlen (by rw [hzero hd0]; rfl)
  simp only [scanNumeral, scanDigits_append hne (isDigit_of_mem_whole n) h, Option.bind_eq_bind,
    Option.bind_some, if_neg hlead, scanFraction_of_delimited h, scanExponent_of_delimited h]
  rfl

mutual

/-- A value of the kinds that are written here: its numbers are natural and
its strings can be scanned. -/
def Written : Json → Prop
  | .null => True
  | .bool _ => True
  | .number n => ∃ k, n = Numeral.ofNat k
  | .string body => Plain body
  | .array items => WrittenItems items
  | .object members => WrittenMembers members

/-- All items are of these kinds. -/
def WrittenItems : List Json → Prop
  | [] => True
  | j :: rest => Written j ∧ WrittenItems rest

/-- All members are of these kinds. -/
def WrittenMembers : List (Bytes × Json) → Prop
  | [] => True
  | (k, j) :: rest => Plain k ∧ Written j ∧ WrittenMembers rest

end

mutual

/-- The tokens of a value. -/
def tokensOf : Json → List Token
  | .null => [.scalar .null]
  | .bool b => [.scalar (.bool b)]
  | .number n => [.scalar (.number n)]
  | .string body => [.text body]
  | .array items => .openArray :: tokensOfItems items ++ [.closeArray]
  | .object members => .openObject :: tokensOfMembers members ++ [.closeObject]

/-- The tokens of items with commas between them. -/
def tokensOfItems : List Json → List Token
  | [] => []
  | [j] => tokensOf j
  | j :: rest => tokensOf j ++ .comma :: tokensOfItems rest

/-- The tokens of members with commas between them. -/
def tokensOfMembers : List (Bytes × Json) → List Token
  | [] => []
  | [(k, j)] => .text k :: .colon :: tokensOf j
  | (k, j) :: rest => .text k :: .colon :: tokensOf j ++ .comma :: tokensOfMembers rest

end

/-- One token more. -/
theorem tokensFrom_cons {c : UInt8} {b rest : Bytes} {t : Token} (hc : isBlank c = false)
    (ht : token? c b = some (t, rest)) (done : List Token) :
    tokensFrom done (c :: b) = tokensFrom (t :: done) rest := by
  rw [tokensFrom.eq_def]
  simp only [hc, Bool.false_eq_true, if_false]
  split
  · rename_i h
    rw [ht] at h
    cases h
  · rename_i h
    rw [ht] at h
    cases h
    rfl

/-- A mark is a token. -/
theorem tokensFrom_punctuation {c : UInt8} {t : Token} (h : punctuation? c = some t)
    (hc : isBlank c = false) (done : List Token) (rest : Bytes) :
    tokensFrom done (c :: rest) = tokensFrom (t :: done) rest :=
  tokensFrom_cons hc (by rw [token?, h]) done

/-- A string is a token, from its first quote to the one behind its body. -/
theorem tokensFrom_quote {body : Bytes} (h : Plain body) (done : List Token) (rest : Bytes) :
    tokensFrom done (quote body ++ rest) = tokensFrom (.text body :: done) rest := by
  have hscan := h.scanText rest
  rw [quote, List.cons_append, List.cons_append, List.append_assoc, List.singleton_append]
  refine tokensFrom_cons (by decide) ?_ done
  rw [token?, show punctuation? 0x22 = none from rfl, if_pos rfl, hscan]
  rfl

/-- A number is a token, if nothing behind it can be taken for a part of it. -/
theorem tokensFrom_numeral (n : Nat) (done : List Token) {rest : Bytes} (h : Delimited rest) :
    tokensFrom done (renderNumeral (Numeral.ofNat n) ++ rest)
      = tokensFrom (.scalar (.number (Numeral.ofNat n)) :: done) rest := by
  have hrender : renderNumeral (Numeral.ofNat n) = (Numeral.ofNat n).whole := by
    simp [renderNumeral, Numeral.ofNat]
  have hscan := scanNumeral_whole n h
  obtain ⟨d, more, hw, hd, -⟩ := head_whole n
  obtain ⟨hdigit, -, hpunct, hword, hquote, hminus, hblank⟩ := digitByte_spec ⟨d, hd⟩
  rw [hrender]
  rw [hw, List.cons_append] at hscan ⊢
  refine tokensFrom_cons hblank ?_ done
  rw [token?, hpunct]
  simp only [if_neg hquote, hword]
  rw [numeral?, if_neg hminus, if_pos hdigit, hscan]
  rfl

mutual

/-- **A written value is cut into its tokens.** -/
theorem tokensFrom_render : ∀ (j : Json) (done : List Token) (rest : Bytes), Written j →
    Delimited rest →
    tokensFrom done (render j ++ rest) = tokensFrom ((tokensOf j).reverse ++ done) rest
  | .null, done, rest, _, _ => tokensFrom_cons (by decide) rfl done
  | .bool true, done, rest, _, _ => tokensFrom_cons (by decide) rfl done
  | .bool false, done, rest, _, _ => tokensFrom_cons (by decide) rfl done
  | .number n, done, rest, hj, hrest => by
    obtain ⟨k, rfl⟩ := hj
    exact tokensFrom_numeral k done hrest
  | .string body, done, rest, hj, _ => tokensFrom_quote hj done rest
  | .array items, done, rest, hj, _ => by
    rw [render, List.cons_append, List.cons_append, List.append_assoc,
      tokensFrom_punctuation rfl (by decide), List.singleton_append,
      tokensFrom_renderItems items _ _ hj (delimited_cons rest (.inr (.inl rfl))),
      tokensFrom_punctuation rfl (by decide)]
    simp [tokensOf]
  | .object members, done, rest, hj, _ => by
    rw [render, List.cons_append, List.cons_append, List.append_assoc,
      tokensFrom_punctuation rfl (by decide), List.singleton_append,
      tokensFrom_renderMembers members _ _ hj (delimited_cons rest (.inr (.inr rfl))),
      tokensFrom_punctuation rfl (by decide)]
    simp [tokensOf]

/-- The items of an array are cut at the commas between them, and the last at
the bracket. -/
theorem tokensFrom_renderItems : ∀ (items : List Json) (done : List Token) (rest : Bytes),
    WrittenItems items → Delimited rest →
    tokensFrom done (renderItems items ++ rest)
      = tokensFrom ((tokensOfItems items).reverse ++ done) rest
  | [], _, _, _, _ => rfl
  | [j], done, rest, hj, hrest => tokensFrom_render j done rest hj.1 hrest
  -- a comma follows, so what stands before it ends there
  | j :: i :: more, done, rest, hj, hrest => by
    rw [renderItems, List.append_assoc, List.cons_append,
      tokensFrom_render j _ _ hj.1 (delimited_cons _ (.inl rfl)),
      tokensFrom_punctuation rfl (by decide), tokensFrom_renderItems (i :: more) _ _ hj.2 hrest]
    · simp [tokensOfItems]
    · simp

/-- The members of an object are cut in the same way, each into its key, the
colon and its value. -/
theorem tokensFrom_renderMembers : ∀ (members : List (Bytes × Json)) (done : List Token)
    (rest : Bytes), WrittenMembers members → Delimited rest →
    tokensFrom done (renderMembers members ++ rest)
      = tokensFrom ((tokensOfMembers members).reverse ++ done) rest
  | [], _, _, _, _ => rfl
  | [(k, j)], done, rest, hj, hrest => by
    rw [renderMembers, List.append_assoc, tokensFrom_quote hj.1, List.cons_append,
      tokensFrom_punctuation rfl (by decide), tokensFrom_render j _ _ hj.2.1 hrest]
    simp [tokensOfMembers]
  | (k, j) :: m :: more, done, rest, hj, hrest => by
    rw [renderMembers, List.append_assoc, List.append_assoc, tokensFrom_quote hj.1, List.cons_append,
      tokensFrom_punctuation rfl (by decide), List.cons_append,
      tokensFrom_render j _ _ hj.2.1 (delimited_cons _ (.inl rfl)),
      tokensFrom_punctuation rfl (by decide), tokensFrom_renderMembers (m :: more) _ _ hj.2.2 hrest]
    · simp [tokensOfMembers]
    · simp

end

/-! ## Values

The reader keeps a stack of what is open. The induction is on the value,
with the stack and the tokens behind it left open. -/

/-- A token that leads on is read before the others. -/
theorem run_cons {r s : Reading} {t : Token} (h : r.step t = some s) (ts : List Token) :
    r.run (t :: ts) = s.run ts := by
  rw [Reading.run, h]

/-- The tokens of items begin with those of the first. -/
theorem tokensOfItems_cons (j : Json) (items : List Json) :
    ∃ more, tokensOfItems (j :: items) = tokensOf j ++ more := by
  cases items with
  | nil => exact ⟨[], by simp [tokensOfItems]⟩
  | cons i items => exact ⟨.comma :: tokensOfItems (i :: items), by simp [tokensOfItems]⟩

/-- The first item of an array begins like any other value. -/
theorem run_firstItem (j : Json) (items : List Json) (outer : List Frame) (ts : List Token) :
    Reading.run (.firstItem outer) (tokensOfItems (j :: items) ++ ts)
      = Reading.run (.value (.array [] :: outer)) (tokensOfItems (j :: items) ++ ts) := by
  obtain ⟨more, hmore⟩ := tokensOfItems_cons j items
  rw [hmore]
  cases j <;> simp [tokensOf, Reading.run, Reading.step]

/-- The first key of an object is read like any other. -/
theorem run_firstKey (m : Bytes × Json) (members : List (Bytes × Json)) (outer : List Frame)
    (ts : List Token) :
    Reading.run (.firstKey outer) (tokensOfMembers (m :: members) ++ ts)
      = Reading.run (.key [] outer) (tokensOfMembers (m :: members) ++ ts) := by
  cases members <;> simp [tokensOfMembers, Reading.run, Reading.step]

mutual

/-- **The tokens of a value build it.** -/
theorem run_tokensOf : ∀ (j : Json) (outer : List Frame) (ts : List Token),
    Reading.run (.value outer) (tokensOf j ++ ts) = Reading.run (.after j outer) ts
  | .null, outer, ts => run_cons rfl ts
  | .bool _, outer, ts => run_cons rfl ts
  | .number _, outer, ts => run_cons rfl ts
  | .string _, outer, ts => run_cons rfl ts
  | .array [], outer, ts => (run_cons rfl _).trans (run_cons rfl ts)
  | .array (j :: items), outer, ts => by
    rw [tokensOf, List.cons_append, List.cons_append, run_cons rfl, List.append_assoc,
      List.singleton_append]
    exact (run_firstItem j items outer _).trans
      (run_tokensOfItems (j :: items) [] outer ts (List.cons_ne_nil _ _))
  | .object [], outer, ts => (run_cons rfl _).trans (run_cons rfl ts)
  | .object (m :: members), outer, ts => by
    rw [tokensOf, List.cons_append, List.cons_append, run_cons rfl, List.append_assoc,
      List.singleton_append]
    exact (run_firstKey m members outer _).trans
      (run_tokensOfMembers (m :: members) [] outer ts (List.cons_ne_nil _ _))

/-- Items, after those that are done. -/
theorem run_tokensOfItems : ∀ (items done : List Json) (outer : List Frame) (ts : List Token),
    items ≠ [] →
    Reading.run (.value (.array done :: outer)) (tokensOfItems items ++ .closeArray :: ts)
      = Reading.run (.after (.array (done.reverse ++ items)) outer) ts
  | [], _, _, _, hne => absurd rfl hne
  | [j], done, outer, ts, _ => by
    rw [tokensOfItems, run_tokensOf j, run_cons rfl, List.reverse_cons]
  | j :: i :: more, done, outer, ts, _ => by
    rw [tokensOfItems, List.append_assoc, run_tokensOf j, List.cons_append, run_cons rfl,
      run_tokensOfItems (i :: more) _ _ _ (List.cons_ne_nil _ _)]
    · simp
    · simp

/-- Members, after those that are done. -/
theorem run_tokensOfMembers : ∀ (members done : List (Bytes × Json)) (outer : List Frame)
    (ts : List Token), members ≠ [] →
    Reading.run (.key done outer) (tokensOfMembers members ++ .closeObject :: ts)
      = Reading.run (.after (.object (done.reverse ++ members)) outer) ts
  | [], _, _, _, hne => absurd rfl hne
  | [(k, j)], done, outer, ts, _ => by
    rw [tokensOfMembers, List.cons_append, run_cons rfl, List.cons_append, run_cons rfl,
      run_tokensOf j, run_cons rfl, List.reverse_cons]
  | (k, j) :: m :: more, done, outer, ts, _ => by
    rw [tokensOfMembers, List.append_assoc, List.cons_append, run_cons rfl, List.cons_append,
      run_cons rfl, run_tokensOf j, List.cons_append, run_cons rfl,
      run_tokensOfMembers (m :: more) _ _ _ (List.cons_ne_nil _ _)]
    · simp
    · simp

end

/-- **A text that was written is read as the value it was written of.** -/
theorem parse?_render {j : Json} (h : Written j) : parse? (render j) = some j := by
  have htokens : tokens? (render j) = some (tokensOf j) := by
    have := tokensFrom_render j [] [] h delimited_nil
    rw [List.append_nil, List.append_nil] at this
    rw [tokens?, this, tokensFrom.eq_def, List.reverse_reverse]
  have hrun := run_tokensOf j [] []
  rw [List.append_nil] at hrun
  -- the tokens are all of the text, and reading them leaves the value alone
  rw [parse?, htokens]
  simp only [hrun, Reading.run]

end Json

end Lockbox
