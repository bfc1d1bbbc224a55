import Lockbox.Deflate.Code
/-!
# Lockbox — writing compressed data

Repetitions of three bytes or more are found through the last place each
triple of bytes was seen, and everything is written in the fixed code.
Where that is no gain the bytes are stored as they are, which adds five
bytes to each stretch of 65,535.
-/

namespace Lockbox

namespace Deflate

/-- Bits waiting to fill a byte, lowest first, and the bytes before them. -/
structure BitWriter where
  out : ByteArray
  held : Nat
  count : Nat

/-- Writes out the whole bytes among the bits held. -/
def BitWriter.settle : (fuel : Nat) → BitWriter → BitWriter
  | 0, w => w
  | fuel + 1, w =>
    if w.count < 8 then w
    else settle fuel ⟨w.out.push w.held.toUInt8, w.held / 256, w.count - 8⟩

/-- The lowest `n` bits of a number, lowest first. -/
def BitWriter.put (w : BitWriter) (n value : Nat) : BitWriter :=
  BitWriter.settle 4 ⟨w.out, w.held + value <<< w.count, w.count + n⟩

/-- The `n` bits of a number in the opposite order. -/
def reversed : (n value : Nat) → Nat
  | 0, _ => 0
  | n + 1, value => (value % 2) <<< n + reversed n (value / 2)

/-- A code word of `n` bits, highest first. -/
def BitWriter.putWord (w : BitWriter) (n word : Nat) : BitWriter := w.put n (reversed n word)

/-- A symbol in the fixed code for literals and lengths. -/
def BitWriter.putLiteral (w : BitWriter) (s : Nat) : BitWriter :=
  if s < 144 then w.putWord 8 (0x30 + s)
  else if s < 256 then w.putWord 9 (0x190 + (s - 144))
  else if s < 280 then w.putWord 7 (s - 256)
  else w.putWord 8 (0xC0 + (s - 280))

/-- The last row of a table whose base does not exceed `n`. -/
def rowOf (table : Array (Nat × Nat)) (n : Nat) : Nat :=
  ((List.range table.size).filter fun i => (table.getD i (0, 0)).1 ≤ n).getLastD 0

/-- A repetition of `length` bytes from `distance` back. -/
def BitWriter.putCopy (w : BitWriter) (length distance : Nat) : BitWriter :=
  let i := rowOf lengthTable length
  let (base, bits) := lengthTable.getD i (0, 0)
  let j := rowOf distanceTable distance
  let (base', bits') := distanceTable.getD j (0, 0)
  (((w.putLiteral (257 + i)).put bits (length - base)).putWord 5 j).put bits' (distance - base')

/-- The byte at a place, zero past the end. -/
@[inline] def byteAt (data : ByteArray) (i : Nat) : UInt8 := if h : i < data.size then data[i] else 0

/-- How many of at most `most` bytes from `i` repeat those from `j`. -/
def repeatLength (data : ByteArray) (i j : Nat) : (most : Nat) → Nat → Nat
  | 0, n => n
  | most + 1, n =>
    if i + n < data.size ∧ byteAt data (i + n) = byteAt data (j + n) then
      repeatLength data i j most (n + 1)
    else n

/-- The number of places kept for the triples seen. -/
def tableSize : Nat := 4096

/-- The place of the triple of bytes at `i`. -/
def slotAt (data : ByteArray) (i : Nat) : Nat :=
  ((byteAt data i).toNat * 625 + (byteAt data (i + 1)).toNat * 25 + (byteAt data (i + 2)).toNat * 3)
    % tableSize

/-- Writes the bytes from `i` on; `seen` holds one more than the last
position of each triple. -/
def encodeFrom (data : ByteArray) : (fuel : Nat) → (i : Nat) → Array Nat → BitWriter → BitWriter
  | 0, _, _, w => w
  | fuel + 1, i, seen, w =>
    if i < data.size then
      let slot := slotAt data i
      let last := seen.getD slot 0
      let seen := seen.setIfInBounds slot (i + 1)
      let n := if last = 0 ∨ i + 1 - last > windowSize then 0 else repeatLength data i (last - 1) 258 0
      if n < 3 then encodeFrom data fuel (i + 1) seen (w.putLiteral (byteAt data i).toNat)
      else encodeFrom data fuel (i + n) seen (w.putCopy n (i + 1 - last))
    else w

/-- One last block in the fixed code. -/
def compressed (data : ByteArray) : Bytes :=
  let w := (BitWriter.mk ByteArray.empty 0 0).put 3 3
  let w := encodeFrom data data.size 0 (Array.replicate tableSize 0) w
  let w := (w.putLiteral 256).put 7 0
  w.out.data.toList

/-- The longest stretch that one block can store. -/
def maxStored : Nat := 65535

/-- Blocks that store the bytes as they are. -/
def stored (msg : Bytes) : Bytes :=
  let block (last : UInt8) (b : Bytes) : Bytes :=
    last :: Bytes.ofNatLow 2 b.length ++ Bytes.ofNatLow 2 (0xffff - b.length) ++ b
  if msg.length ≤ maxStored then block 1 msg
  else block 0 (msg.take maxStored) ++ stored (msg.drop maxStored)
termination_by msg.length
decreasing_by
  have h : ¬ msg.length ≤ maxStored := by assumption
  rw [List.length_drop]
  unfold maxStored at h ⊢
  omega

end Deflate

/-- Compressed data with these plain bytes. -/
def deflate (msg : Bytes) : Bytes :=
  let small := Deflate.compressed msg.toByteArray
  let plain := Deflate.stored msg
  if small.length < plain.length then small else plain

/-- Compression adds at most five bytes for each stored stretch. -/
theorem Deflate.length_stored (msg : Bytes) :
    (Deflate.stored msg).length ≤ msg.length + 5 * (msg.length / Deflate.maxStored + 1) := by
  fun_induction Deflate.stored msg with
  | case1 msg block h =>
    simp only [block, List.length_append, List.length_cons, Bytes.length_ofNatLow, maxStored]
    omega
  | case2 msg block h ih =>
    simp only [List.length_append, List.length_cons, Bytes.length_ofNatLow, block,
      List.length_take, List.length_drop, maxStored] at *
    omega

theorem length_deflate (msg : Bytes) :
    (deflate msg).length ≤ msg.length + 5 * (msg.length / Deflate.maxStored + 1) := by
  have := Deflate.length_stored msg
  simp only [deflate]
  split <;> omega

end Lockbox
