import Lockbox.Lock
import Lockbox.Text.Quoted
/-!
# Lockbox — recipients

Who is to be able to open a container. A recipient with a shared secret
may leave it out; the provider of secrets is then asked for it.
-/

namespace Lockbox

/-- A recipient of a container to be written. -/
inductive Recipient where
  | password (label : String) (password : Option Bytes) (iterations : Option UInt32)
  | symmetricKey (label : String) (key : Option Bytes)
  | publicKey (label : String) (key : Octets 32)
  | certificate (label : String) (certificate : Bytes) (key : Octets 32)
  | server (label : String) (key : Octets 32) (serverId : Option String)

namespace Recipient

/-- The label of the recipient's lock. -/
def label : Recipient → String
  | .password l _ _ | .symmetricKey l _ | .publicKey l _ | .certificate l _ _ | .server l _ _ => l

/-- The kind of the recipient's lock. -/
def type : Recipient → LockType
  | .password .. => .password
  | .symmetricKey .. => .symmetricKey
  | .publicKey .. => .publicKey
  | .certificate .. => .certificate
  | .server .. => .server

/-- Sets the number of iterations of a password recipient. -/
def withIterations (n : UInt32) : Recipient → Recipient
  | .password l pw _ => .password l pw (some n)
  | r => r

/-- The number of iterations set for a password recipient. -/
def iterations? : Recipient → Option UInt32
  | .password _ _ n => n
  | _ => none

/-- A line about a recipient without its secret. -/
def summary (r : Recipient) : String :=
  "Recipient \x7b type: " ++ r.type.title ++ ", label: " ++ Text.quoted r.label ++ ", .. \x7d"

end Recipient

end Lockbox
