import Lockbox.Bytes
/-!
# Lockbox — Poly1305

The one-time authenticator: the message, cut into 16-byte blocks with a
one above each, is a polynomial evaluated at a clamped point modulo
2^130 - 5, and the second half of the key is added to the value.
-/

namespace Lockbox

namespace Poly1305

/-- The modulus. -/
def modulus : Nat := (1 <<< 130) - 5

/-- The evaluation point with the bits cleared that the construction
clears. -/
def clamp (r : Nat) : Nat := r &&& 0x0ffffffc0ffffffc0ffffffc0fffffff

/-- Horner's rule over the blocks that are left. -/
def evaluate (r acc : Nat) (msg : Bytes) : Nat :=
  match msg with
  | [] => acc
  | c :: rest =>
    let block := (c :: rest).take 16
    let n := Bytes.toNatLow block + 1 <<< (8 * block.length)
    evaluate r ((acc + n) * r % modulus) ((c :: rest).drop 16)
termination_by msg.length
decreasing_by simp only [List.length_drop, List.length_cons]; omega

/-- The tag of a message under a 32-byte one-time key. -/
def tag (key msg : Bytes) : Octets 16 :=
  let r := clamp (Bytes.toNatLow (key.take 16))
  let s := Bytes.toNatLow (key.drop 16)
  ⟨Bytes.ofNatLow 16 (evaluate r 0 msg + s), by simp⟩

end Poly1305

end Lockbox
