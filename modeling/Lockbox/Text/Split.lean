/-!
# Lockbox — splitting texts

The parts of a text between separators. There is always at least one
part; a part holds no separator, and the parts with a separator between
them are the text again (`intercalate_split`).
-/

namespace Lockbox

namespace Text

/-- The parts between separators. -/
def split (separates : Char → Bool) (cs : List Char) : List (List Char) :=
  cs.foldr (fun c parts =>
    if separates c then [] :: parts
    else match parts with
      | [] => [[c]]
      | part :: parts => (c :: part) :: parts) [[]]

/-- The part after the last separator. -/
def lastPart (separates : Char → Bool) (cs : List Char) : List Char :=
  (cs.reverse.takeWhile fun c => !separates c).reverse

/-- What comes before and after the first separator. -/
def cut? (separator : Char) (cs : List Char) : Option (List Char × List Char) :=
  match cs.dropWhile (· ≠ separator) with
  | [] => none
  | _ :: rest => some (cs.takeWhile (· ≠ separator), rest)

/-- What comes before and after the last separator. -/
def cutLast? (separator : Char) (cs : List Char) : Option (List Char × List Char) :=
  (cut? separator cs.reverse).map fun p => (p.2.reverse, p.1.reverse)

/-- There is at least one part. -/
theorem split_ne_nil (separates : Char → Bool) (cs : List Char) : split separates cs ≠ [] := by
  unfold split
  cases cs with
  | nil => simp
  | cons c cs =>
    rw [List.foldr_cons]
    split
    · simp
    · split <;> simp

/-- Before a separator stands a part of its own. -/
theorem split_cons_of_separates {separates : Char → Bool} {c : Char} (h : separates c)
    (cs : List Char) : split separates (c :: cs) = [] :: split separates cs := by
  simp [split, h]

/-- Any other character belongs to the part behind it. -/
theorem split_cons_of_not {separates : Char → Bool} {c : Char} (h : separates c = false)
    {cs part : List Char} {parts : List (List Char)} (hs : split separates cs = part :: parts) :
    split separates (c :: cs) = (c :: part) :: parts := by
  unfold split at hs ⊢
  rw [List.foldr_cons, hs]
  simp [h]

/-- The parts with a separator between them are the text. -/
theorem intercalate_split (separator : Char) (cs : List Char) :
    [separator].intercalate (split (· = separator) cs) = cs := by
  induction cs with
  | nil => rfl
  | cons c cs ih =>
    obtain ⟨part, parts, hs⟩ := List.exists_cons_of_ne_nil (split_ne_nil (· = separator) cs)
    by_cases h : c = separator
    · rw [split_cons_of_separates (by simpa using h), hs, List.intercalate_cons_cons,
        ← hs, ih, h]
      rfl
    · rw [split_cons_of_not (by simpa using h) hs]
      rw [hs] at ih
      cases parts with
      | nil => simpa using ih
      | cons next parts =>
        rw [List.intercalate_cons_cons] at ih ⊢
        rw [← ih]
        simp

end Text

end Lockbox
