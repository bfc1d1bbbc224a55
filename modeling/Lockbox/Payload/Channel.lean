import Lockbox.Keys
/-!
# Lockbox — the channel of a payload

What both ends of a payload share: the content key, the base nonce, and
the version and flags that every frame is bound to. Frame number `n` is
encrypted under the base nonce with `n` added into its last eight bytes
without carry, so that frames which are dropped, repeated or exchanged do
not authenticate. `openFrame_sealFrame` says that the two ends fit.
-/

namespace Lockbox

/-- The flags of a container. -/
structure Flags where
  compressed : Bool
  deriving DecidableEq, Repr

namespace Flags

/-- The byte in which flags are stored. -/
def toByte (f : Flags) : UInt8 := if f.compressed then 1 else 0

/-- The flags in a byte; the other bits are not looked at. -/
def ofByte (b : UInt8) : Flags := ⟨b &&& 1 ≠ 0⟩

/-- No bit is set that has no meaning. -/
def isKnown (b : UInt8) : Bool := b &&& 0xFE == 0

/-- Flags are read back from their byte. -/
@[simp] theorem ofByte_toByte (f : Flags) : ofByte f.toByte = f := by
  obtain ⟨c⟩ := f
  cases c <;> decide

theorem isKnown_toByte (f : Flags) : isKnown f.toByte := by
  obtain ⟨c⟩ := f
  cases c <;> decide

end Flags

/-- The longest encrypted frame: a frame, some room for compression that
does not pay, and the tag. -/
def maxSealedLength : Nat := Frame.maxLength + 1024 + Aead.tagLength

/-- What the two ends of a payload share. -/
structure Channel where
  key : Octets 32
  base : Octets 24
  version : UInt8
  flags : Flags
  deriving DecidableEq

namespace Channel

/-- What every frame is bound to. -/
def context (version : UInt8) (flags : Flags) : Bytes :=
  Bytes.ofText "CDOC20payload" ++ [version, flags.toByte]

/-- The nonce of frame `counter`. -/
def nonce (base : Octets 24) (counter : Nat) : Octets 24 :=
  ⟨base.val.take 16 ++ Bytes.xor (base.val.drop 16) (Bytes.ofNat 8 counter), by
    have := base.property
    simp only [List.length_append, List.length_take, Bytes.length_xor, List.length_drop,
      Bytes.length_ofNat]
    omega⟩

/-- A frame as it is encrypted. -/
def pack (S : Suite) (flags : Flags) (frame : Frame) : Bytes :=
  if flags.compressed then S.deflate frame.encode else frame.encode

/-- The frame that was packed. -/
def unpack (S : Suite) (flags : Flags) (body : Bytes) : Except IntegrityFault Frame :=
  let plain := if flags.compressed then S.inflate Frame.maxLength body else .ok body
  match plain with
  | .error f => .error (.inflate f)
  | .ok plain =>
    match Frame.decode plain with
    | .ok frame => .ok frame
    | .error f => .error (.frame f)

/-- Frame number `counter`, encrypted. -/
def sealFrame (S : Suite) (c : Channel) (counter : Nat) (frame : Frame) : Bytes :=
  S.encrypt c.key (nonce c.base counter) (context c.version c.flags) (pack S c.flags frame)

/-- Frame number `counter` from its encrypted form. -/
def openFrame (S : Suite) (c : Channel) (counter : Nat) (sealed : Bytes) :
    Except IntegrityFault Frame :=
  match S.decrypt? c.key (nonce c.base counter) (context c.version c.flags) sealed with
  | none => .error (.unauthentic counter)
  | some body => unpack S c.flags body

/-- Different frames have different nonces. -/
theorem nonce_injective {base : Octets 24} {m n : Nat} (hm : m < UInt64.size) (hn : n < UInt64.size)
    (h : nonce base m = nonce base n) : m = n := by
  have hb := base.property
  have h := congrArg Subtype.val h
  simp only [nonce] at h
  have h := List.append_cancel_left h
  have hx : ∀ k, Bytes.xor (Bytes.xor (base.val.drop 16) (Bytes.ofNat 8 k)) (base.val.drop 16)
      = Bytes.ofNat 8 k := by
    intro k
    have hc : Bytes.xor (base.val.drop 16) (Bytes.ofNat 8 k)
        = Bytes.xor (Bytes.ofNat 8 k) (base.val.drop 16) :=
      List.zipWith_comm_of_comm fun x y => UInt8.xor_comm x y
    rw [hc]
    exact Bytes.xor_xor_cancel (by simp [hb])
  have h := congrArg (Bytes.xor · (base.val.drop 16)) h
  simp only [hx] at h
  have h := congrArg Bytes.toNat h
  rwa [Bytes.toNat_ofNat_of_lt (by omega), Bytes.toNat_ofNat_of_lt (by omega)] at h

/-- **Opening a frame undoes sealing it,** if decryption undoes encryption
and inflating undoes deflating. -/
theorem openFrame_sealFrame {S : Suite}
    (hs : ∀ k n a m, S.decrypt? k n a (S.encrypt k n a m) = some m)
    (hz : ∀ limit m, m.length ≤ limit → S.inflate limit (S.deflate m) = .ok m)
    (c : Channel) (counter : Nat) (frame : Frame) :
    c.openFrame S counter (c.sealFrame S counter frame) = .ok frame := by
  simp only [openFrame, sealFrame, hs, unpack, pack]
  cases c.flags.compressed with
  | false => simp [Frame.decode_encode]
  | true => simp [hz _ _ (Frame.length_encode_le frame), Frame.decode_encode]

end Channel

end Lockbox
