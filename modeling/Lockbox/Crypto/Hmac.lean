import Lockbox.Crypto.Sha256
/-!
# Lockbox — keyed hashing and key derivation

HMAC over SHA-256, the extract-and-expand derivation of one 32-byte key,
and the iterated derivation of a key from a password. A key is turned
into the two chaining values it starts from once, which is what makes a
long iteration affordable.
-/

namespace Lockbox

namespace Hmac

open Sha256 (State)

/-- The chaining values after the inner and the outer key block. -/
structure Keyed where
  (inner outer : State)

/-- A key of more than one block is replaced by its hash. -/
def Keyed.ofKey (key : Bytes) : Keyed :=
  let short := if key.length > 64 then (Sha256.hash key).val else key
  let block := (Octets.fit 64 short).val
  let start (mask : UInt8) := State.initial.absorb (Sha256.words (block.map (· ^^^ mask)) #[])
  ⟨start 0x36, start 0x5c⟩

/-- The chaining value of the whole keyed hash of `msg`. -/
def Keyed.run (k : Keyed) (msg : Bytes) : State :=
  Sha256.finish k.outer 64 (Sha256.finish k.inner 64 msg).digest.val

/-- The keyed hash of a message. -/
def mac (key msg : Bytes) : Octets 32 := ((Keyed.ofKey key).run msg).digest

/-- The keyed hash of a 32-byte message that is itself a digest. -/
def Keyed.next (k : Keyed) (u : State) : State :=
  let block (s : State) : Array UInt32 :=
    #[s.a, s.b, s.c, s.d, s.e, s.f, s.g, s.h, 0x80000000, 0, 0, 0, 0, 0, 0, 768]
  k.outer.compress (block (k.inner.compress (block u)))

end Hmac

/-- Extract a key from `material` under `salt`, then expand it for the
purpose `info`. No salt is the same as 32 zero bytes. -/
def hkdf (material : Bytes) (salt : Option Bytes) (info : Bytes) : Octets 32 :=
  let extracted := Hmac.mac (salt.getD (Octets.zero 32).val) material
  Hmac.mac extracted.val (info ++ [1])

namespace Pbkdf2

open Sha256 (State)

/-- Wordwise exclusive or. -/
def mix (x y : State) : State :=
  ⟨x.a ^^^ y.a, x.b ^^^ y.b, x.c ^^^ y.c, x.d ^^^ y.d, x.e ^^^ y.e, x.f ^^^ y.f, x.g ^^^ y.g, x.h ^^^ y.h⟩

/-- `left` more iterations after the value `u`, mixed into `acc`. -/
def iterate (k : Hmac.Keyed) : (left : Nat) → (u acc : State) → State
  | 0, _, acc => acc
  | left + 1, u, acc =>
    let next := k.next u
    iterate k left next (mix acc next)

/-- A 32-byte key from a password after `iterations` keyed hashes. -/
def derive (password salt : Bytes) (iterations : Nat) : Octets 32 :=
  let k := Hmac.Keyed.ofKey password
  let first := k.run (salt ++ [0, 0, 0, 1])
  (iterate k (iterations - 1) first first).digest

end Pbkdf2

end Lockbox
