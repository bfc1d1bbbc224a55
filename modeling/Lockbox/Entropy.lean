import Lockbox.Bytes
/-!
# Lockbox — random bytes

Randomness is a tape of bytes and how far it has been read. Every
operation that draws takes the tape and hands it back, so two runs on the
same tape draw the same bytes, and what is proved of an arbitrary tape
holds of every source of randomness. `Entropy.splitMix` is the tape of
one 64-bit counter generator.
-/

namespace Lockbox

/-- A tape of random bytes, read up to `drawn`. -/
structure Entropy where
  tape : Nat → UInt8
  drawn : Nat

namespace Entropy

/-- The next `n` bytes of the tape. -/
def draw (e : Entropy) (n : Nat) : Octets n × Entropy :=
  (⟨(List.range n).map fun k => e.tape (e.drawn + k), by simp⟩, { e with drawn := e.drawn + n })

/-- The finaliser of the counter generator: one word from one counter value. -/
def scramble (s : UInt64) : UInt64 :=
  let z := (s ^^^ (s >>> 30)) * 0xBF58476D1CE4E5B9
  let z := (z ^^^ (z >>> 27)) * 0x94D049BB133111EB
  z ^^^ (z >>> 31)

/-- Byte `k` is the top byte of the scrambled counter `seed + (k + 1) · γ`. -/
def splitMix (seed : UInt64) : Entropy where
  tape k := (scramble (seed + (k + 1).toUInt64 * 0x9E3779B97F4A7C15) >>> 56).toUInt8
  drawn := 0

/-- The tape that holds these bytes and then zeros. -/
def ofBytes (b : ByteArray) : Entropy where
  tape k := if h : k < b.size then b[k] else 0
  drawn := 0

end Entropy

end Lockbox
