import Lockbox.Crypto.Aead
import Lockbox.Crypto.Hmac
import Lockbox.Crypto.X25519
import Lockbox.Deflate.Encode
import Lockbox.Deflate.Inflate
/-!
# Lockbox — the algorithm suite

Everything that containers need of cryptography and compression, as one
record of functions. The rest of the library takes the record as an
argument and knows nothing of its insides, so that what holds of a
container under assumptions on the suite is stated with exactly these
assumptions. `Suite.standard` is the suite that containers name.
-/

namespace Lockbox

/-- The primitives of containers. -/
structure Suite where
  /-- The digest of a byte string. -/
  hash : Bytes → Octets 32
  /-- The authentication code of a message. -/
  mac : (key msg : Bytes) → Octets 32
  /-- A key from key material for one purpose. -/
  derive : (material : Bytes) → (salt : Option Bytes) → (info : Bytes) → Octets 32
  /-- A key from a password. -/
  stretch : (password salt : Bytes) → (iterations : Nat) → Octets 32
  /-- The public key of a private key. -/
  publicKey : (secret : Octets 32) → Octets 32
  /-- What a private key and a public key agree on. -/
  agree : (secret point : Octets 32) → Octets 32
  /-- Encrypts a message and authenticates it with its context. -/
  encrypt : (key : Octets 32) → (nonce : Octets 24) → (aad msg : Bytes) → Bytes
  /-- The message, if it and its context are authentic. -/
  decrypt? : (key : Octets 32) → (nonce : Octets 24) → (aad sealed : Bytes) → Option Bytes
  /-- A compressed form. -/
  deflate : Bytes → Bytes
  /-- What a compressed form stands for, if it is not longer than a limit. -/
  inflate : (limit : Nat) → Bytes → Except InflateFault Bytes

namespace Suite

/-- The name of the suite in headers. -/
def name : String := "X25519+HKDF-SHA256+PBKDF2-SHA256+XChaCha20Poly1305"

/-- The suite of that name. -/
def standard : Suite where
  hash := Sha256.hash
  mac := Hmac.mac
  derive := hkdf
  stretch := Pbkdf2.derive
  publicKey := X25519.publicKey
  agree := X25519.agree
  encrypt := Aead.encrypt
  decrypt? := Aead.decrypt?
  deflate := Lockbox.deflate
  inflate := Lockbox.inflate

end Suite

end Lockbox
