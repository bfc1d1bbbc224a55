import Lockbox.Bytes
/-!
# Lockbox — ChaCha20

The stream cipher on sixteen 32-bit words, and the key derivation from
its rounds that stretches the nonce to 24 bytes. A message is encrypted
by exclusive or with the key stream, so decryption is the same function:
`apply_apply`.
-/

namespace Lockbox

namespace ChaCha20

/-- Rotation to the left. -/
@[inline] def rotateLeft (x n : UInt32) : UInt32 := (x <<< n) ||| (x >>> (32 - n))

/-- The quarter round on four words, handed on to `k`. -/
@[inline] def quarter {α : Type} (a b c d : UInt32)
    (k : UInt32 → UInt32 → UInt32 → UInt32 → α) : α :=
  let a := a + b
  let d := rotateLeft (d ^^^ a) 16
  let c := c + d
  let b := rotateLeft (b ^^^ c) 12
  let a := a + b
  let d := rotateLeft (d ^^^ a) 8
  let c := c + d
  let b := rotateLeft (b ^^^ c) 7
  k a b c d

/-- `n` double rounds: the four columns, then the four diagonals. -/
def doubleRounds : (n : Nat) → (a b c d e f g h i j k l m n o p : UInt32) → Array UInt32
  | 0, a, b, c, d, e, f, g, h, i, j, k, l, m, n, o, p =>
    #[a, b, c, d, e, f, g, h, i, j, k, l, m, n, o, p]
  | r + 1, a, b, c, d, e, f, g, h, i, j, k, l, m, n, o, p =>
    quarter a e i m fun a e i m =>
    quarter b f j n fun b f j n =>
    quarter c g k o fun c g k o =>
    quarter d h l p fun d h l p =>
    quarter a f k p fun a f k p =>
    quarter b g l m fun b g l m =>
    quarter c h i n fun c h i n =>
    quarter d e j o fun d e j o =>
    doubleRounds r a b c d e f g h i j k l m n o p

/-- The words of a byte string, least significant byte first. -/
def words : Bytes → Array UInt32 → Array UInt32
  | a :: b :: c :: d :: rest, ws =>
    words rest (ws.push
      (a.toUInt32 ||| (b.toUInt32 <<< 8) ||| (c.toUInt32 <<< 16) ||| (d.toUInt32 <<< 24)))
  | _, ws => ws

/-- The four bytes of a word, least significant first. -/
def wordBytes (w : UInt32) : Bytes :=
  [w.toUInt8, (w >>> 8).toUInt8, (w >>> 16).toUInt8, (w >>> 24).toUInt8]

/-- Twenty rounds on the constants, a key and four more words. -/
def permute (key : Array UInt32) (a b c d : UInt32) : Array UInt32 :=
  let w (i : Nat) := key.getD i 0
  doubleRounds 10 0x61707865 0x3320646e 0x79622d32 0x6b206574
    (w 0) (w 1) (w 2) (w 3) (w 4) (w 5) (w 6) (w 7) a b c d

/-- The state that the rounds start from, added to their result. -/
def blockWords (key : Array UInt32) (a b c d : UInt32) : List UInt32 :=
  let start := [0x61707865, 0x3320646e, 0x79622d32, 0x6b206574] ++ key.toList ++ [a, b, c, d]
  List.zipWith (· + ·) start (permute key a b c d).toList

/-- The key stream in `blocks` blocks of 64 bytes from block `first` on. -/
def keyStream (key nonce : Bytes) (first blocks : Nat) : Bytes :=
  let k := words key #[]
  let n := words nonce #[]
  (List.range blocks).flatMap fun i =>
    (blockWords k (first + i).toUInt32 (n.getD 0 0) (n.getD 1 0) (n.getD 2 0)).flatMap wordBytes

/-- The key that 16 bytes of nonce select from a key. -/
def subkey (key nonce : Bytes) : Bytes :=
  let n := words nonce #[]
  let s := permute (words key #[]) (n.getD 0 0) (n.getD 1 0) (n.getD 2 0) (n.getD 3 0)
  (s.extract 0 4 ++ s.extract 12 16).toList.flatMap wordBytes

/-- A message, exclusive or the key stream from block 1 on, made long
enough for it. -/
def apply (key nonce msg : Bytes) : Bytes :=
  let stream := keyStream key nonce 1 ((msg.length + 63) / 64)
  Bytes.xor msg (stream ++ List.replicate (msg.length - stream.length) 0)

@[simp] theorem length_apply (key nonce msg : Bytes) : (apply key nonce msg).length = msg.length := by
  simp [apply]
  omega

/-- Encrypting twice gives the message back. -/
theorem apply_apply (key nonce msg : Bytes) : apply key nonce (apply key nonce msg) = msg := by
  have h := length_apply key nonce msg
  conv => lhs; rw [apply]
  simp only [h]
  rw [apply]
  apply Bytes.xor_xor_cancel
  simp
  omega

end ChaCha20

end Lockbox
