import Lockbox.Crypto.ChaCha20
import Lockbox.Crypto.Poly1305
/-!
# Lockbox — authenticated encryption

The stream cipher with a 24-byte nonce and the one-time authenticator
over associated data and ciphertext. `decrypt?_encrypt` says that opening
undoes sealing, and `length_encrypt` that the tag is all that is added.
-/

namespace Lockbox

namespace Aead

/-- The length of the tag. -/
def tagLength : Nat := 16

/-- Zeros up to the next multiple of 16. -/
def padding (n : Nat) : Bytes := List.replicate ((16 - n % 16) % 16) 0

/-- What the tag covers: associated data and ciphertext, each padded, and
their lengths. -/
def covered (aad ct : Bytes) : Bytes :=
  aad ++ padding aad.length ++ ct ++ padding ct.length ++
    Bytes.ofNatLow 8 aad.length ++ Bytes.ofNatLow 8 ct.length

/-- The key and the short nonce that a 24-byte nonce stands for. -/
def narrow (key : Octets 32) (nonce : Octets 24) : Bytes × Bytes :=
  (ChaCha20.subkey key.val (nonce.val.take 16), [0, 0, 0, 0] ++ nonce.val.drop 16)

/-- The tag of a ciphertext: the first half of block 0 is its one-time key. -/
def tagOf (key : Octets 32) (nonce : Octets 24) (aad ct : Bytes) : Octets 16 :=
  let (k, n) := narrow key nonce
  Poly1305.tag ((ChaCha20.keyStream k n 0 1).take 32) (covered aad ct)

/-- The message under the key stream of a 24-byte nonce. -/
def crypt (key : Octets 32) (nonce : Octets 24) (msg : Bytes) : Bytes :=
  ChaCha20.apply (narrow key nonce).1 (narrow key nonce).2 msg

/-- The ciphertext followed by its tag. -/
def encrypt (key : Octets 32) (nonce : Octets 24) (aad msg : Bytes) : Bytes :=
  crypt key nonce msg ++ (tagOf key nonce aad (crypt key nonce msg)).val

/-- The message, if the tag is the right one. -/
def decrypt? (key : Octets 32) (nonce : Octets 24) (aad sealed : Bytes) : Option Bytes :=
  if sealed.length < tagLength then none
  else
    let ct := sealed.take (sealed.length - tagLength)
    if (tagOf key nonce aad ct).val = sealed.drop (sealed.length - tagLength) then
      some (crypt key nonce ct)
    else none

@[simp] theorem length_encrypt (key : Octets 32) (nonce : Octets 24) (aad msg : Bytes) :
    (encrypt key nonce aad msg).length = msg.length + tagLength := by
  have := (tagOf key nonce aad (crypt key nonce msg)).property
  simp only [encrypt, List.length_append, this, tagLength]
  simp [crypt]

/-- **Opening undoes sealing.** -/
theorem decrypt?_encrypt (key : Octets 32) (nonce : Octets 24) (aad msg : Bytes) :
    decrypt? key nonce aad (encrypt key nonce aad msg) = some msg := by
  have hlen := length_encrypt key nonce aad msg
  have hct : (crypt key nonce msg).length = msg.length := by simp [crypt]
  have htag := (tagOf key nonce aad (crypt key nonce msg)).property
  rw [decrypt?, if_neg (by omega), hlen, Nat.add_sub_cancel]
  have htake : (encrypt key nonce aad msg).take msg.length = crypt key nonce msg := by
    rw [encrypt, ← hct, List.take_left]
  have hdrop : (encrypt key nonce aad msg).drop msg.length
      = (tagOf key nonce aad (crypt key nonce msg)).val := by
    rw [encrypt, ← hct, List.drop_left]
  simp only [htake, hdrop, if_true]
  rw [crypt, crypt, ChaCha20.apply_apply]

end Aead

end Lockbox
