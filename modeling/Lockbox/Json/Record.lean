import Lockbox.Json.Parse
/-!
# Lockbox — records in JSON

A record is an object with known members, or an array of their values in
order. Members nobody asked for are passed over, and a known one that
occurs twice is an error. `Json.settle` is for values that are looked at
before it is known what they are: then everything inside must be sound,
and of two members with the same name the last one counts.
-/

namespace Lockbox

namespace Json

/-- How many containers may be nested in each other. -/
def maxNesting : Nat := 127

/-- The members of an object under their decoded names. -/
def namedMembers (members : List (Bytes × Json)) : Option (List (String × Json)) :=
  members.mapM fun m => (textOf? m.1).map (·, m.2)

/-- The value of a name that may occur once. -/
def single? (members : List (String × Json)) (name : String) : Option (Option Json) :=
  match members.filter (·.1 = name) with
  | [] => some none
  | [m] => some (some m.2)
  | _ => none

/-- The values of the fields of a record, in the order of their names,
each missing or present. -/
def fields? (names : List String) : Json → Option (List (Option Json))
  | .object members => do
    let members ← namedMembers members
    names.mapM (single? members)
  | .array items =>
    if items.length ≤ names.length then
      some (items.map some ++ List.replicate (names.length - items.length) none)
    else none
  | _ => none

/-- The last of the members with each name. -/
def lastOfEach (members : List (String × Bytes × Json)) : List (String × Bytes × Json) :=
  members.foldr (fun m later => if later.any (·.1 = m.1) then later else m :: later) []

/-- A sound value with at most `room` containers nested in each other: its
strings are texts, its numbers are finite, and of members with the same
name only the last is left. -/
def settle : (room : Nat) → Json → Option Json
  | _, .null => some .null
  | _, .bool b => some (.bool b)
  | _, .number n => if n.isFinite then some (.number n) else none
  | _, .string body => (textOf? body).map fun _ => .string body
  | 0, .array _ => none
  | 0, .object _ => none
  | room + 1, .array items => (items.mapM (settle room)).map .array
  | room + 1, .object members => do
    let members ← members.mapM fun m => do
      let name ← textOf? m.1
      let value ← settle room m.2
      return (name, m.1, value)
    return .object ((lastOfEach members).map Prod.snd)

/-- The tag of a tagged record and the record without it. In an array the
tag comes first. -/
def tagged? (tag : String) : Json → Option (String × Json)
  | .object members => do
    let named ← namedMembers members
    let value ← (← single? named tag)
    let rest := (members.zip named).filter fun m => m.2.1 ≠ tag
    return (← value.text?, .object (rest.map Prod.fst))
  | .array (value :: rest) => do return (← value.text?, .array rest)
  | _ => none

end Json

end Lockbox
