import Lockbox.Bytes
/-!
# Lockbox — key agreement on Curve25519

The function X25519: a private scalar, clamped, times the point with a
given coordinate, by the Montgomery ladder over the integers modulo
2^255 - 19. A result of zero means that the point had low order and that
nothing was agreed.
-/

namespace Lockbox

namespace X25519

/-- The prime of the field. -/
def prime : Nat := (1 <<< 255) - 19

/-- Subtraction in the field. -/
def sub (a b : Nat) : Nat := (a + (prime - b)) % prime

/-- `base` to the power `e` in the field. -/
def power (base e : Nat) : Nat :=
  if e = 0 then 1
  else
    let half := power base (e / 2)
    let square := half * half % prime
    if e % 2 = 1 then square * base % prime else square
termination_by e
decreasing_by omega

/-- The scalar a private key stands for: three low bits cleared, the top
bit cleared and the one below it set. -/
def clamp (key : Bytes) : Nat :=
  let n := Bytes.toNatLow key
  (1 <<< 254) + n % (1 <<< 254) / 8 * 8

/-- The coordinate a public key stands for: its top bit is ignored. -/
def coordinate (key : Bytes) : Nat := Bytes.toNatLow key % (1 <<< 255) % prime

/-- A point and its successor on the ladder, each as a fraction. -/
structure Rung where
  (x₂ z₂ x₃ z₃ : Nat)

/-- One step: double the first point, add the two, their difference
being the point with coordinate `u`. -/
def Rung.step (u : Nat) (r : Rung) : Rung :=
  let a := r.x₂ + r.z₂
  let aa := a * a % prime
  let b := sub r.x₂ r.z₂
  let bb := b * b % prime
  let e := sub aa bb
  let da := sub r.x₃ r.z₃ * a % prime
  let cb := (r.x₃ + r.z₃) * b % prime
  let plus := da + cb
  let minus := sub da cb
  ⟨aa * bb % prime, e * (aa + 121665 * e) % prime, plus * plus % prime, u * (minus * minus) % prime⟩

/-- The two points exchanged. -/
def Rung.swap (r : Rung) : Rung := ⟨r.x₃, r.z₃, r.x₂, r.z₂⟩

/-- The `n` lowest bits of the scalar that are left, highest first. -/
def ladder (u scalar : Nat) : (n : Nat) → Rung → Rung
  | 0, r => r
  | n + 1, r =>
    let r := if scalar.testBit n then (r.swap.step u).swap else r.step u
    ladder u scalar n r

/-- The coordinate of `scalar` times the point with coordinate `u`. -/
def scale (scalar u : Nat) : Nat :=
  let r := ladder u scalar 255 ⟨1, 0, u, 1⟩
  r.x₂ * power r.z₂ (prime - 2) % prime

/-- A private key times a public key. -/
def agree (secret point : Octets 32) : Octets 32 :=
  ⟨Bytes.ofNatLow 32 (scale (clamp secret.val) (coordinate point.val)), by simp⟩

/-- The public key of a private key: its multiple of the base point 9. -/
def publicKey (secret : Octets 32) : Octets 32 :=
  ⟨Bytes.ofNatLow 32 (scale (clamp secret.val) 9), by simp⟩

end X25519

end Lockbox
