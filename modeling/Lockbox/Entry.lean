import Lockbox.Json.Record
/-!
# Lockbox — entries

What a container holds is a list of entries, each announced by a name and
a size. A name that may be stored is not empty and its UTF-8 form fits a
16-bit length; `EntryName` is the type of such names. An announcement as
such may carry any name: whether it can be stored is checked where it is
stored.
-/

namespace Lockbox

/-- The longest name in bytes. -/
def maxNameLength : Nat := 65535

/-- Why a text is no entry name. -/
inductive NameFault where
  | empty
  | tooLong (length : Nat)
  deriving DecidableEq, Repr

/-- The wording of a fault. -/
def NameFault.message : NameFault → String
  | .empty => "name is empty"
  | .tooLong n => s!"name is {n} bytes, limit is {maxNameLength}"

/-- A name under which an entry can be stored. -/
abbrev EntryName := { name : String // name ≠ "" ∧ name.utf8ByteSize ≤ maxNameLength }

namespace EntryName

/-- The name that a text is, or what is wrong with it. -/
def ofText (name : String) : Except NameFault EntryName :=
  if h₁ : name = "" then .error .empty
  else if h₂ : name.utf8ByteSize ≤ maxNameLength then .ok ⟨name, h₁, h₂⟩
  else .error (.tooLong name.utf8ByteSize)

@[simp] theorem ofText_val (n : EntryName) : ofText n.val = .ok n := by
  rw [ofText, dif_neg n.property.1, dif_pos n.property.2]

/-- And no other name is stored as it. -/
theorem ofText_eq_ok_iff {name : String} {n : EntryName} : ofText name = .ok n ↔ n.val = name := by
  constructor
  · intro h
    unfold ofText at h
    split at h
    · exact absurd h (by simp)
    · split at h
      · exact (Except.ok.inj h) ▸ rfl
      · exact absurd h (by simp)
  · rintro rfl
    exact ofText_val n

end EntryName

/-- The announcement of an entry. -/
structure FileInfo where
  name : String
  size : UInt64
  deriving DecidableEq, Repr

namespace FileInfo

/-- An announcement under a name that can be stored. -/
def create (name : String) (size : UInt64) : Except NameFault FileInfo := do
  let n ← EntryName.ofText name
  return ⟨n.val, size⟩

/-- The written form of an announcement. -/
def toJson (info : FileInfo) : Json :=
  Json.record [("name", Json.ofText info.name), ("size", Json.ofNat info.size.toNat)]

/-- The announcement with this written form; its name may be any text. -/
def ofJson? (j : Json) : Option FileInfo := do
  match ← Json.fields? ["name", "size"] j with
  | [some name, some size] => return ⟨← name.text?, (← size.nat? (UInt64.size - 1)).toUInt64⟩
  | _ => none

end FileInfo

end Lockbox
