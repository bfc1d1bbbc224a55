import Lockbox.Error
import Lockbox.Suite
/-!
# Lockbox — keys

Every container has one master key, which only ever serves to derive
other keys: one for its payload and one for the authentication of its
header. A lock wraps the master key under a key of its own, which is
derived from a secret, or agreed on between an ephemeral key of the
writer and the key of a recipient.
-/

namespace Lockbox

/-- The master key of a container. -/
structure Fmk where
  key : Octets 32
  deriving DecidableEq

/-- A master key does not show itself. -/
instance : ToString Fmk := ⟨fun _ => "Fmk(..)"⟩

namespace Fmk

/-- The master key with these bytes. -/
def ofBytes (b : Bytes) : Except CryptoFault Fmk :=
  match Octets.ofBytes? 32 b with
  | some key => .ok ⟨key⟩
  | none => .error (.masterKeyLength b.length)

/-- The key derived for a purpose. -/
def derive (S : Suite) (fmk : Fmk) (purpose : Bytes) : Octets 32 := S.derive fmk.key.val none purpose

/-- The key of the payload. -/
def contentKey (S : Suite) (fmk : Fmk) : Octets 32 := fmk.derive S (Bytes.ofText "CDOC20cek")

/-- The key that authenticates the header. -/
def headerKey (S : Suite) (fmk : Fmk) : Octets 32 := fmk.derive S (Bytes.ofText "CDOC20hmac")

@[simp] theorem ofBytes_val (fmk : Fmk) : ofBytes fmk.key.val = .ok fmk := by
  simp [ofBytes]

end Fmk

namespace WrapKey

/-- What a wrapping key is derived for: the purpose and what it is bound
to. -/
def info (bound : Bytes) : Bytes := Bytes.ofText "CDOC20kek" ++ bound

/-- A stretched password; at least one iteration is needed. -/
def stretch (S : Suite) (password salt : Bytes) (iterations : Nat) :
    Except CryptoFault (Octets 32) :=
  if iterations = 0 then .error .noIterations else .ok (S.stretch password salt iterations)

/-- The wrapping key of a symmetric key. -/
def ofKey (S : Suite) (key : Bytes) (salt : Octets 32) (label : String) : Octets 32 :=
  S.derive key (some salt.val) (info (Bytes.ofText label))

/-- The wrapping key of a password. -/
def ofPassword (S : Suite) (password : Bytes) (salt pwSalt : Octets 32) (iterations : UInt32)
    (label : String) : Except CryptoFault (Octets 32) := do
  let stretched ← stretch S password pwSalt.val iterations.toNat
  return ofKey S stretched.val salt label

/-- The wrapping key of what two sides agreed on. Nothing was agreed on if
all of it is zero. -/
def ofShared? (S : Suite) (shared recipient sender : Octets 32) : Option (Octets 32) :=
  if shared = Octets.zero 32 then none
  else some (S.derive shared.val (some sender.val) (info recipient.val))

/-- The public key and the wrapping key of a sender who has drawn
`ephemeral`. -/
def ofEphemeral (S : Suite) (ephemeral recipient : Octets 32) :
    Except CryptoFault (Octets 32 × Octets 32) :=
  let sender := S.publicKey ephemeral
  match ofShared? S (S.agree ephemeral recipient) recipient sender with
  | some key => .ok (sender, key)
  | none => .error .lowOrderPoint

/-- The wrapping key of the recipient, if `secret` is the private key of
`recipient` and something was agreed on. -/
def ofPrivate? (S : Suite) (secret : Bytes) (recipient sender : Octets 32) :
    Option (Octets 32) := do
  let secret ← Octets.ofBytes? 32 secret
  if S.publicKey secret = recipient then
    ofShared? S (S.agree secret sender) recipient sender
  else none

end WrapKey

end Lockbox
