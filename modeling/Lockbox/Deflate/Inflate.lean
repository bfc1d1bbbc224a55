import Lockbox.Deflate.Code
/-!
# Lockbox — reading compressed data

Blocks are decoded bit by bit into a growing output. What follows the
last block is not looked at. The window behind the output starts out as
zeros, so a copy that reaches back before the start reads zeros.

Input is served by the window, and output is handed out when a window of
it is full and when nothing is left of the input that was served. Only
then does it matter how much output there is: what is found wrong before
the output was seen to pass the limit counts as corrupt, and so does an
input that ends too early.
-/

namespace Lockbox

/-- Why compressed data gives no plain bytes. -/
inductive InflateFault where
  | corrupt
  | tooLong
  deriving DecidableEq, Repr

namespace Deflate

/-- The input and how much of it has been served, the position of the next
bit, the output so far and how much of it has been handed out, and how
long it may become. -/
structure Cursor where
  input : ByteArray
  served : Nat
  bit : Nat
  out : ByteArray
  handed : Nat
  limit : Nat

/-- At the start of some input, with its first window served. -/
def Cursor.start (input : ByteArray) (limit : Nat) : Cursor :=
  ⟨input, windowSize, 0, ByteArray.empty, 0, limit⟩

/-- Some byte that was served has not been begun. -/
def Cursor.hasServed (c : Cursor) : Bool := (c.bit + 7) / 8 < min c.served c.input.size

/-- The end of the input was served, as one more window after its last. -/
def Cursor.hasEnded (c : Cursor) : Bool := c.input.size + windowSize ≤ c.served

/-- A step of decoding. -/
abbrev Decoder := EStateM InflateFault Cursor

/-- Hands out the output, unless it has become too long, and serves another
window if nothing is left of the last. -/
def handOut : Decoder Unit := fun c =>
  if c.limit < c.out.size then .error .tooLong c
  else
    .ok () { c with
      handed := c.out.size
      served := if c.hasServed then c.served else c.served + windowSize }

/-- Sees to it that a byte that has not been begun is served. -/
def demandByte : Decoder Unit := do
  let c ← get
  if ¬ c.hasServed then
    if c.hasEnded then throw .corrupt
    handOut
    if ¬ (← get).hasServed then throw .corrupt

/-- The next bit, lowest of each byte first. -/
def takeBit : Decoder Nat := do
  if (← get).bit % 8 = 0 then demandByte
  fun c =>
    if h : c.bit / 8 < c.input.size then
      .ok ((c.input[c.bit / 8].toNat >>> (c.bit % 8)) % 2) { c with bit := c.bit + 1 }
    else .error .corrupt c

/-- A number of `n` bits, lowest first. -/
def takeBits : (n : Nat) → Decoder Nat
  | 0 => pure 0
  | n + 1 => do
    let low ← takeBit
    let high ← takeBits n
    return low + 2 * high

/-- Sees to it that there is room for a byte of output. -/
def demandRoom : Decoder Unit := do
  let c ← get
  if c.out.size % windowSize = 0 ∧ c.handed < c.out.size then handOut

/-- One more byte of output. -/
def emit (b : UInt8) : Decoder Unit := do
  demandRoom
  modify fun c => { c with out := c.out.push b }

/-- Repeats `n` bytes from `distance` back, zeros before the start. -/
def copy (distance : Nat) : (n : Nat) → Decoder Unit
  | 0 => pure ()
  | n + 1 => do
    let c ← get
    let place := c.out.size - distance
    emit (if distance ≤ c.out.size then (if h : place < c.out.size then c.out[place] else 0) else 0)
    copy distance n

/-- Reads a code word bit by bit, of which `left` may come: `word` is read
so far, `first` the first code word of that length and `index` its place
in the order. -/
def Code.symbolFrom (c : Code) : (left word first index : Nat) → Decoder Nat
  | 0, _, _, _ => throw .corrupt
  | left + 1, word, first, index => do
    let b ← takeBit
    let word := 2 * word + b
    let count := c.counts.getD (c.counts.size - 1 - left) 0
    if word < first + count then return c.symbols.getD (index + (word - first)) 0
    else c.symbolFrom left word (2 * (first + count)) (index + count)

/-- The next symbol in a code. -/
def Code.symbol (c : Code) : Decoder Nat := c.symbolFrom (c.counts.size - 1) 0 0 0

/-- The number that a symbol with extra bits stands for. -/
def extended (table : Array (Nat × Nat)) (i : Nat) : Decoder Nat :=
  match table[i]? with
  | none => throw .corrupt
  | some (base, bits) => return base + (← takeBits bits)

/-- The symbols of one block up to its end, each at least one bit long. -/
def symbols (literals distances : Code) : (fuel : Nat) → Decoder Unit
  | 0 => throw .corrupt
  | fuel + 1 => do
    let s ← literals.symbol
    if s < 256 then
      emit s.toUInt8
      symbols literals distances fuel
    else if s = 256 then return ()
    else
      let length ← extended lengthTable (s - 257)
      let distance ← extended distanceTable (← distances.symbol)
      copy distance length
      symbols literals distances fuel

/-- The next `n` bytes of the input as they are. -/
def verbatim : (n : Nat) → Decoder Unit
  | 0 => pure ()
  | n + 1 => do
    demandRoom
    let b ← takeBits 8
    emit b.toUInt8
    verbatim n

/-- A block stored as it is, from the next whole byte on. -/
def storedBlock : Decoder Unit := do
  modify fun c => { c with bit := (c.bit + 7) / 8 * 8 }
  let length ← takeBits 16
  let check ← takeBits 16
  if length + check = 0xffff then verbatim length else throw .corrupt

/-- Code lengths up to `wanted`, those read so far newest first. -/
def codeLengths (code : Code) (wanted : Nat) : (fuel : Nat) → List Nat → Decoder (List Nat)
  | 0, _ => throw .corrupt
  | fuel + 1, done => do
    if done.length = wanted then return done.reverse
    else if done.length > wanted then throw .corrupt
    else
      let s ← code.symbol
      if s < 16 then codeLengths code wanted fuel (s :: done)
      else if s = 16 then
        match done with
        | [] => throw .corrupt
        | last :: _ =>
          let n ← takeBits 2
          codeLengths code wanted fuel (List.replicate (3 + n) last ++ done)
      else if s = 17 then
        let n ← takeBits 3
        codeLengths code wanted fuel (List.replicate (3 + n) 0 ++ done)
      else
        let n ← takeBits 7
        codeLengths code wanted fuel (List.replicate (11 + n) 0 ++ done)

/-- The code that lengths make, if they make one. -/
def demand (code : Option Code) : Decoder Code :=
  match code with
  | some c => pure c
  | none => throw .corrupt

/-- The two codes that a block brings along. -/
def ownCodes : Decoder (Code × Code) := do
  let literals := (← takeBits 5) + 257
  let distances := (← takeBits 5) + 1
  let given := (← takeBits 4) + 4
  if literals > 286 ∨ distances > 30 then throw .corrupt
  let lengths ← (List.range given).mapM fun _ => takeBits 3
  let placed := lengthOrder.zip lengths
  let code ← demand (Code.complete? ((List.range 19).map fun s => (placed.lookup s).getD 0))
  let all ← codeLengths code (literals + distances) (literals + distances + 1) []
  return (← demand (Code.ofLengths? (all.take literals)), ← demand (Code.ofLengths? (all.drop literals)))

/-- Blocks up to the one marked as the last. -/
def blocks : (fuel : Nat) → Decoder Unit
  | 0 => throw .corrupt
  | fuel + 1 => do
    let last ← takeBit
    let kind ← takeBits 2
    let budget := 8 * (← get).input.size + 1
    if kind = 0 then storedBlock
    else if kind = 1 then
      symbols (.ofLengths fixedLiteralLengths) (.ofLengths fixedDistanceLengths) budget
    else if kind = 2 then
      let (literals, distances) ← ownCodes
      symbols literals distances budget
    else throw .corrupt
    if last = 1 then return () else blocks fuel

end Deflate

/-- The plain bytes of compressed data, at most `limit` of them. -/
def inflate (limit : Nat) (body : Bytes) : Except InflateFault Bytes :=
  match Deflate.blocks (8 * body.length + 1) (.start body.toByteArray limit) with
  | .ok _ c => if c.out.size ≤ limit then .ok c.out.data.toList else .error .tooLong
  | .error f _ => .error f

end Lockbox
