import Lockbox.Bytes
/-!
# Lockbox — SHA-256

The hash function over 32-bit words: a message schedule of 64 words for
each 16-word block, 64 rounds on eight chaining words, and padding that
ends with the length in bits. `State.absorb` and `finish` are kept apart
so that a keyed hash can resume from a chaining value.
-/

namespace Lockbox

namespace Sha256

/-- The eight chaining words. -/
structure State where
  (a b c d e f g h : UInt32)

/-- The chaining value a hash starts from. -/
def State.initial : State :=
  ⟨0x6a09e667, 0xbb67ae85, 0x3c6ef372, 0xa54ff53a, 0x510e527f, 0x9b05688c, 0x1f83d9ab, 0x5be0cd19⟩

/-- The round constants. -/
def roundConstants : Array UInt32 := #[
  0x428a2f98, 0x71374491, 0xb5c0fbcf, 0xe9b5dba5, 0x3956c25b, 0x59f111f1, 0x923f82a4, 0xab1c5ed5,
  0xd807aa98, 0x12835b01, 0x243185be, 0x550c7dc3, 0x72be5d74, 0x80deb1fe, 0x9bdc06a7, 0xc19bf174,
  0xe49b69c1, 0xefbe4786, 0x0fc19dc6, 0x240ca1cc, 0x2de92c6f, 0x4a7484aa, 0x5cb0a9dc, 0x76f988da,
  0x983e5152, 0xa831c66d, 0xb00327c8, 0xbf597fc7, 0xc6e00bf3, 0xd5a79147, 0x06ca6351, 0x14292967,
  0x27b70a85, 0x2e1b2138, 0x4d2c6dfc, 0x53380d13, 0x650a7354, 0x766a0abb, 0x81c2c92e, 0x92722c85,
  0xa2bfe8a1, 0xa81a664b, 0xc24b8b70, 0xc76c51a3, 0xd192e819, 0xd6990624, 0xf40e3585, 0x106aa070,
  0x19a4c116, 0x1e376c08, 0x2748774c, 0x34b0bcb5, 0x391c0cb3, 0x4ed8aa4a, 0x5b9cca4f, 0x682e6ff3,
  0x748f82ee, 0x78a5636f, 0x84c87814, 0x8cc70208, 0x90befffa, 0xa4506ceb, 0xbef9a3f7, 0xc67178f2]

/-- Rotation to the right. -/
@[inline] def rotateRight (x n : UInt32) : UInt32 := (x >>> n) ||| (x <<< (32 - n))

/-- Extends a block to the message schedule, `left` words still missing. -/
def schedule : (left : Nat) → Array UInt32 → Array UInt32
  | 0, w => w
  | left + 1, w =>
    let t := w.size
    let x := w.getD (t - 15) 0
    let y := w.getD (t - 2) 0
    let s0 := rotateRight x 7 ^^^ rotateRight x 18 ^^^ (x >>> 3)
    let s1 := rotateRight y 17 ^^^ rotateRight y 19 ^^^ (y >>> 10)
    schedule left (w.push (w.getD (t - 16) 0 + s0 + w.getD (t - 7) 0 + s1))

/-- The rounds on the working words, `left` rounds still to go. -/
def rounds (w : Array UInt32) : (left : Nat) → (a b c d e f g h : UInt32) → State
  | 0, a, b, c, d, e, f, g, h => ⟨a, b, c, d, e, f, g, h⟩
  | left + 1, a, b, c, d, e, f, g, h =>
    let t := 63 - left
    let s1 := rotateRight e 6 ^^^ rotateRight e 11 ^^^ rotateRight e 25
    let choice := (e &&& f) ^^^ ((~~~ e) &&& g)
    let t1 := h + s1 + choice + roundConstants.getD t 0 + w.getD t 0
    let s0 := rotateRight a 2 ^^^ rotateRight a 13 ^^^ rotateRight a 22
    let majority := (a &&& b) ^^^ (a &&& c) ^^^ (b &&& c)
    rounds w left (t1 + (s0 + majority)) a b c (d + t1) e f g

/-- One block of sixteen words. -/
def State.compress (s : State) (block : Array UInt32) : State :=
  let r := rounds (schedule 48 block) 64 s.a s.b s.c s.d s.e s.f s.g s.h
  ⟨s.a + r.a, s.b + r.b, s.c + r.c, s.d + r.d, s.e + r.e, s.f + r.f, s.g + r.g, s.h + r.h⟩

/-- The words of a byte string, most significant byte first. -/
def words : Bytes → Array UInt32 → Array UInt32
  | a :: b :: c :: d :: rest, ws =>
    words rest (ws.push
      ((a.toUInt32 <<< 24) ||| (b.toUInt32 <<< 16) ||| (c.toUInt32 <<< 8) ||| d.toUInt32))
  | _, ws => ws

/-- Every whole block of a word sequence, in order. -/
def State.absorb (s : State) (ws : Array UInt32) : State :=
  (List.range (ws.size / 16)).foldl (fun s i => s.compress (ws.extract (16 * i) (16 * i + 16))) s

/-- The rest of a message that began `before` bytes earlier, padded to a
whole number of blocks. -/
def pad (before : Nat) (msg : Bytes) : Bytes :=
  let total := before + msg.length
  msg ++ 0x80 :: List.replicate ((119 - total % 64) % 64) 0 ++ Bytes.ofNat 8 (8 * total)

/-- The state after the rest of a message that began `before` bytes
earlier, a multiple of 64. -/
def finish (s : State) (before : Nat) (msg : Bytes) : State :=
  s.absorb (words (pad before msg) #[])

/-- The four bytes of a word, most significant first. -/
def wordBytes (w : UInt32) : Bytes :=
  [(w >>> 24).toUInt8, (w >>> 16).toUInt8, (w >>> 8).toUInt8, w.toUInt8]

/-- The chaining words as bytes. -/
def State.digest (s : State) : Octets 32 :=
  ⟨[s.a, s.b, s.c, s.d, s.e, s.f, s.g, s.h].flatMap wordBytes, by simp [wordBytes]⟩

/-- The hash of a message. -/
def hash (msg : Bytes) : Octets 32 := (finish State.initial 0 msg).digest

end Sha256

end Lockbox
