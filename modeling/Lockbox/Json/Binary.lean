import Lockbox.Base64
import Lockbox.Json.Record
/-!
# Lockbox — bytes in JSON

A byte string is a JSON string in base 64. A byte string of a known
length must have it.
-/

namespace Lockbox

namespace Json

/-- The string value of a byte string. -/
def ofBytes (b : Bytes) : Json := .string (Base64.encode b)

/-- The byte string of a string value. -/
def bytes? (j : Json) : Option Bytes := do Base64.decode? (Bytes.ofText (← j.text?))

/-- The byte string of a known length of a string value. -/
def octets? (n : Nat) (j : Json) : Option (Octets n) := do Octets.ofBytes? n (← j.bytes?)

/-- The values of the fields of a record that lacks none of them. -/
def allFields? (names : List String) (j : Json) : Option (List Json) := do
  (← j.fields? names).mapM id

end Json

end Lockbox
