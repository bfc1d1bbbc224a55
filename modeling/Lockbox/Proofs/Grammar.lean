import Lockbox.Proofs.Labels
import Lockbox.Proofs.Unlocking
import Mathlib.Data.List.Forall2
/-!
# Lockbox — the grammar of labels

Which texts are labels, said without the reader. A label is `data:` and then
components between ampersands, or nothing; a component is an escaped key and an
escaped value around the one equals sign that it has; in an escaped text every
percent sign starts an escape, and what the text stands for is UTF-8
(`Label.Spelled`). `label_grammar` says that these are the texts that are read,
and as what: components are told apart before anything is unescaped, and keys
are compared after it.
-/

namespace Lockbox

/-! ## Escaped texts -/

namespace Percent

/-- The character is a hexadecimal digit of either case. -/
def IsDigit (c : Char) : Prop :=
  '0' ≤ c ∧ c ≤ '9' ∨ 'A' ≤ c ∧ c ≤ 'F' ∨ 'a' ≤ c ∧ c ≤ 'f'

/-- Every percent sign of the text starts an escape: two digits follow it. -/
def WellEscaped (cs : List Char) : Prop :=
  ∀ before after, cs = before ++ '%' :: after →
    ∃ h l rest, after = h :: l :: rest ∧ IsDigit h ∧ IsDigit l

/-- The bytes that a text stands for: of an escape, its byte, and of any other
character its UTF-8 form. -/
def decoded : List Char → Bytes
  | [] => []
  | '%' :: h :: l :: rest =>
    match Hex.byte? h l with
    | some b => b :: decoded rest
    | none => String.utf8EncodeChar '%' ++ decoded (h :: l :: rest)
  | c :: rest => String.utf8EncodeChar c ++ decoded rest

variable {cs rest : List Char} {h l c : Char}

theorem isDigit_iff (c : Char) : IsDigit c ↔ ∃ n, Hex.value? c = some n := by
  have hbounds : IsDigit c ↔ 48 ≤ c.toNat ∧ c.toNat ≤ 57 ∨ 65 ≤ c.toNat ∧ c.toNat ≤ 70 ∨
      97 ≤ c.toNat ∧ c.toNat ≤ 102 := Iff.rfl
  rw [hbounds]
  simp only [Hex.value?]
  split
  · simp_all
  · split
    · simp_all
    · split
      · simp_all
      · constructor
        · intro hc
          omega
        · rintro ⟨n, hn⟩
          exact absurd hn (by simp)

/-- Two digits are a byte, and nothing else is. -/
theorem byte?_eq_some (h l : Char) :
    (IsDigit h ∧ IsDigit l) ↔ ∃ b, Hex.byte? h l = some b := by
  rw [isDigit_iff, isDigit_iff]
  cases hh : Hex.value? h <;> cases hl : Hex.value? l <;> simp [Hex.byte?, hh, hl]

theorem wellEscaped_nil : WellEscaped [] := by
  intro before after h
  exact absurd h.symm (by simp)

/-- Whether a text is well escaped is not decided by other characters. -/
theorem wellEscaped_cons (hc : c ≠ '%') : WellEscaped (c :: rest) ↔ WellEscaped rest := by
  constructor
  · intro h before after heq
    exact h (c :: before) after (by rw [heq, List.cons_append])
  · intro h before after heq
    cases before with
    | nil => exact absurd (List.cons.inj heq).1 hc
    | cons d before => exact h before after (List.cons.inj heq).2

/-- An escape takes its two digits with it: neither of them is a percent sign. -/
theorem wellEscaped_percent : WellEscaped ('%' :: rest) ↔
    ∃ h l more, rest = h :: l :: more ∧ IsDigit h ∧ IsDigit l ∧ WellEscaped more := by
  have hother : ∀ {d : Char}, IsDigit d → d ≠ '%' := by
    rintro d hd rfl
    revert hd
    simp only [IsDigit]
    decide
  constructor
  · intro hall
    obtain ⟨h, l, more, rfl, hh, hl⟩ := hall [] rest rfl
    refine ⟨h, l, more, rfl, hh, hl, ?_⟩
    intro before after heq
    exact hall ('%' :: h :: l :: before) after (by rw [heq]; rfl)
  · rintro ⟨h, l, more, rfl, hh, hl, hmore⟩
    intro before after heq
    cases before with
    | nil => exact ⟨h, l, more, (List.cons.inj heq).2.symm, hh, hl⟩
    | cons d before =>
      have hrest : WellEscaped (h :: l :: more) :=
        (wellEscaped_cons (hother hh)).mpr ((wellEscaped_cons (hother hl)).mpr hmore)
      exact hrest before after (List.cons.inj heq).2

/-- **A text is read exactly if it is well escaped,** and as the bytes that it
stands for. -/
theorem unescapeFrom_eq_some_iff {done b : Bytes} :
    unescapeFrom done cs = some b ↔ WellEscaped cs ∧ b = done.reverse ++ decoded cs := by
  fun_induction unescapeFrom done cs with
  | case1 done => simp [decoded, wellEscaped_nil, eq_comm]
  | case2 done h l rest c hbyte ih =>
    have hdigits := (byte?_eq_some h l).mpr ⟨c, hbyte⟩
    rw [ih, wellEscaped_percent]
    simp [decoded, hbyte, hdigits]
  | case3 done h l rest hbyte =>
    have hdigits : ¬ (IsDigit h ∧ IsDigit l) := by
      rw [byte?_eq_some, hbyte]
      simp
    rw [wellEscaped_percent]
    simp only [reduceCtorEq, false_iff, not_and]
    rintro ⟨h', l', more, heq, hh, hl, -⟩
    cases heq
    exact absurd ⟨hh, hl⟩ hdigits
  | case4 done rest hshort =>
    rw [wellEscaped_percent]
    simp only [reduceCtorEq, false_iff, not_and]
    rintro ⟨h, l, more, rfl, -⟩
    exact absurd rfl (hshort h l more)
  | case5 done c rest hc ih =>
    rw [ih, wellEscaped_cons hc]
    simp [decoded, hc]

theorem unescape?_eq_some_iff {b : Bytes} :
    unescape? cs = some b ↔ WellEscaped cs ∧ b = decoded cs :=
  unescapeFrom_eq_some_iff

end Percent

namespace Label

variable {pairs : List (String × String)}

/-- An escaped text stands for this text. -/
structure Spells (cs : List Char) (s : String) : Prop where
  escaped : Percent.WellEscaped cs
  text : Percent.decoded cs = Bytes.ofText s

/-- The text is an escaped key and an escaped value, with the one equals sign
that it has between them. -/
def IsComponent (part : List Char) (p : String × String) : Prop :=
  ∃ key value, part = key ++ '=' :: value ∧ '=' ∉ key ∧ '=' ∉ value ∧
    Spells key p.1 ∧ Spells value p.2

/-- **The grammar of labels**: the text is `data:` and components of these pairs
between ampersands, if there are any, and no key is empty or occurs twice. -/
def Spelled (s : String) (pairs : List (String × String)) : Prop :=
  ∃ parts, s.toList = start ++ ['&'].intercalate parts ∧ (∀ part ∈ parts, '&' ∉ part) ∧
    List.Forall₂ IsComponent parts pairs ∧ (∀ p ∈ pairs, p.1 ≠ "") ∧ (pairs.map Prod.fst).Nodup

/-- A key or value is read exactly if it stands for a text, and as that text. -/
theorem unescape_eq_ok_iff {raw : List Char} {s : String} :
    unescape raw = .ok s ↔ Spells raw s := by
  have hspells : Spells raw s ↔
      Percent.WellEscaped raw ∧ Bytes.text? (Percent.decoded raw) = some s := by
    rw [Bytes.text?_eq_some_iff]
    exact ⟨fun h => ⟨h.escaped, h.text.symm⟩, fun h => ⟨h.1, h.2.symm⟩⟩
  rw [hspells]
  unfold unescape
  cases hread : Percent.unescape? raw with
  | none =>
    have hbroken : ¬ Percent.WellEscaped raw := by
      intro h
      have hsome := Percent.unescape?_eq_some_iff.mpr ⟨h, rfl⟩
      exact absurd (hread.symm.trans hsome) (by simp)
    simp [hbroken]
  | some b =>
    obtain ⟨hescaped, rfl⟩ := Percent.unescape?_eq_some_iff.mp hread
    cases htext : Bytes.text? (Percent.decoded raw) <;> simp [hescaped, htext]

/-- **A component is read exactly if it is one,** unless its key is empty or was
there before. -/
theorem readComponent_eq_ok_iff {seen : List String} {part : List Char} {p : String × String} :
    readComponent seen part = .ok p ↔ IsComponent part p ∧ p.1 ≠ "" ∧ p.1 ∉ seen := by
  unfold readComponent
  constructor
  · intro h
    split at h
    · exact absurd h (by simp)
    · rename_i key value hcut
      obtain ⟨hkey, rfl⟩ := Text.cut?_eq_some_iff.mp hcut
      split at h
      · exact absurd h (by simp)
      · rename_i hvalue
        obtain ⟨k, hk, h⟩ := Except.bind_ok h
        split at h
        · exact absurd h (by simp)
        · rename_i hempty
          split at h
          · exact absurd h (by simp)
          · rename_i hseen
            obtain ⟨v, hv, h⟩ := Except.bind_ok h
            cases h
            exact ⟨⟨key, value, rfl, hkey, hvalue, unescape_eq_ok_iff.mp hk,
              unescape_eq_ok_iff.mp hv⟩, hempty, hseen⟩
  · rintro ⟨⟨key, value, rfl, hkey, hvalue, hk, hv⟩, hempty, hseen⟩
    rw [Text.cut?_append_cons hkey]
    simp only [if_neg hvalue, unescape_eq_ok_iff.mpr hk, unescape_eq_ok_iff.mpr hv, bind,
      Except.bind, pure, Except.pure, if_neg hempty, if_neg hseen]

/-- Components are read exactly if they are components, with keys that are
accepted behind those read before. -/
theorem readComponents_eq_ok_iff {done : List (String × String)} {parts : List (List Char)}
    {read : List (String × String)} :
    readComponents done parts = .ok read ↔ ∃ pairs, read = done.reverse ++ pairs ∧
      List.Forall₂ IsComponent parts pairs ∧
      checkKeys (done.map Prod.fst) (pairs.map Prod.fst) = .ok () := by
  induction parts generalizing done with
  | nil =>
    simp only [readComponents, Except.ok.injEq, List.forall₂_nil_left_iff]
    constructor
    · rintro rfl
      exact ⟨[], by simp, rfl, rfl⟩
    · rintro ⟨pairs, rfl, rfl, -⟩
      simp
  | cons part parts ih =>
    rw [readComponents]
    constructor
    · intro h
      obtain ⟨p, hp, hrest⟩ := Except.bind_ok h
      obtain ⟨hpart, hempty, hseen⟩ := readComponent_eq_ok_iff.mp hp
      obtain ⟨pairs, rfl, hparts, hkeys⟩ := ih.mp hrest
      refine ⟨p :: pairs, by simp, .cons hpart hparts, ?_⟩
      rw [List.map_cons, checkKeys, if_neg hempty, if_neg hseen]
      exact hkeys
    · rintro ⟨pairs, rfl, hparts, hkeys⟩
      cases hparts with
      | @cons _ p _ pairs hpart hparts =>
        rw [List.map_cons, checkKeys] at hkeys
        by_cases hempty : p.1 = ""
        · simp [hempty] at hkeys
        by_cases hseen : p.1 ∈ done.map Prod.fst
        · rw [if_neg hempty, if_pos hseen] at hkeys
          cases hkeys
        rw [if_neg hempty, if_neg hseen] at hkeys
        have hrest : readComponents (p :: done) parts = .ok (done.reverse ++ p :: pairs) :=
          ih.mpr ⟨pairs, by simp, hparts, hkeys⟩
        rw [readComponent_eq_ok_iff.mpr ⟨hpart, hempty, hseen⟩]
        exact hrest

/-- The keys of a label, as the grammar has them and as they are checked. -/
theorem checkKeys_iff : checkKeys [] (pairs.map Prod.fst) = .ok () ↔
    (∀ p ∈ pairs, p.1 ≠ "") ∧ (pairs.map Prod.fst).Nodup := by
  rw [checkKeys_eq_ok_iff]
  simp only [List.mem_map, not_exists, not_and, List.not_mem_nil, not_false_eq_true, implies_true,
    and_true]

/-- A body that is empty has no components in it. -/
theorem parts_eq_nil {parts : List (List Char)} (h : List.Forall₂ IsComponent parts pairs)
    (hbody : ['&'].intercalate parts = []) : parts = [] := by
  cases h with
  | nil => rfl
  | @cons part p parts pairs hpart hparts =>
    obtain ⟨key, value, rfl, -⟩ := hpart
    cases parts with
    | nil => simp at hbody
    | cons next parts => simp [List.intercalate_cons_cons] at hbody

/-- **A text is read as these pairs exactly if it spells them.** -/
theorem parse_eq_ok_iff {s : String} : parse s = .ok pairs ↔ Spelled s pairs := by
  constructor
  · intro h
    simp only [parse] at h
    split at h
    · rename_i hstart
      have htext := List.take_append_drop start.length s.toList
      rw [hstart] at htext
      split at h
      · rename_i hnil
        cases h
        exact ⟨[], by rw [← htext, hnil]; rfl, by simp, .nil, by simp, by simp⟩
      · obtain ⟨read, rfl, hparts, hkeys⟩ := readComponents_eq_ok_iff.mp h
        refine ⟨components (s.toList.drop start.length), ?_, ?_, hparts, checkKeys_iff.mp hkeys⟩
        · rw [components, Text.intercalate_split, htext]
        · intro part hpart hmem
          have hother := (Text.of_mem_split hpart '&' hmem).2
          simp at hother
    · exact absurd h (by simp)
  · rintro ⟨parts, htext, hfree, hparts, hkeys⟩
    have htake : s.toList.take start.length = start := by
      rw [htext]
      exact List.take_left' rfl
    have hdrop : s.toList.drop start.length = ['&'].intercalate parts := by
      rw [htext]
      exact List.drop_left' rfl
    simp only [parse, htake, if_true, hdrop]
    split
    · rename_i hnil
      obtain rfl := parts_eq_nil hparts hnil
      cases hparts
      rfl
    · rename_i hbody
      have hne : parts ≠ [] := by
        rintro rfl
        exact hbody rfl
      rw [components, Text.split_intercalate hne hfree]
      exact readComponents_eq_ok_iff.mpr ⟨pairs, rfl, hparts, checkKeys_iff.mpr hkeys⟩

end Label

/-- **The texts that are labels.** A text is read as a list of pairs exactly if
it spells this list, whichever way: `data:`, then between ampersands components
with one equals sign each, every percent sign of which starts an escape, and
which stand for these keys and values, no key being empty or occurring twice.
Every other text is a failure of format. What was read can be written, and is
read back from what is written. -/
theorem label_grammar (s : String) :
    (∀ pairs, Label.parse s = .ok pairs ↔ Label.Spelled s pairs) ∧
    ((¬ ∃ pairs, Label.Spelled s pairs) →
      ∃ f, (Label.parse s).mapError Error.format = .error (.format f)) ∧
    ∀ pairs, Label.parse s = .ok pairs →
      ∃ t, Label.build pairs = .ok t ∧ Label.parse t = .ok pairs := by
  refine ⟨fun pairs => Label.parse_eq_ok_iff, fun hnone => ?_, fun pairs hparse => ?_⟩
  · cases hparse : Label.parse s with
    | ok pairs => exact absurd ⟨pairs, Label.parse_eq_ok_iff.mp hparse⟩ hnone
    | error f => exact ⟨f, rfl⟩
  · obtain ⟨-, -, -, -, hkeys⟩ := Label.parse_eq_ok_iff.mp hparse
    have hbuild : Label.build pairs = .ok (Label.render pairs) :=
      Label.build_eq_ok_iff.mpr ⟨Label.checkKeys_iff.mpr hkeys, rfl⟩
    exact ⟨_, hbuild, Label.parse_of_build hbuild⟩

/-- A key and a value that are spelled with escapes, and two spellings of one
key. -/
theorem label_grammar_spellings :
    Label.Spelled "data:%6B=v%3d&n=é" [("k", "v="), ("n", "é")] ∧
    (∃ t, Label.build [("k", "v="), ("n", "é")] = .ok t ∧
      Label.parse t = .ok [("k", "v="), ("n", "é")]) ∧
    (¬ ∃ pairs, Label.Spelled "data:k=1&%6b=2" pairs) ∧
    ∃ f, (Label.parse "data:k=1&%6b=2").mapError Error.format = .error (.format f) := by
  have hread : Label.parse "data:%6B=v%3d&n=é" = .ok [("k", "v="), ("n", "é")] := by
    decide +kernel
  have hrefused : Label.parse "data:k=1&%6b=2" = .error (.duplicateKey "k") := by
    decide +kernel
  obtain ⟨hspelled, -, hback⟩ := label_grammar "data:%6B=v%3d&n=é"
  obtain ⟨htwice, hformat, -⟩ := label_grammar "data:k=1&%6b=2"
  have hnone : ¬ ∃ pairs, Label.Spelled "data:k=1&%6b=2" pairs := by
    rintro ⟨pairs, h⟩
    exact absurd (hrefused.symm.trans ((htwice pairs).mpr h)) (by simp)
  exact ⟨(hspelled _).mp hread, hback _ hread, hnone, hformat hnone⟩

end Lockbox
