import Lockbox.Payload.Channel
/-!
# Lockbox — what is asked of a suite

The facts about the primitives that containers rest on, each a property
of a suite by its own name: what the cipher sealed it opens again, both
sides of an agreement agree, and compression is undone and costs little.
None of them says that anything is hard to forge or to guess. What can be
said of the standard suite stands at the end, with a suite of which all of
them hold.
-/

namespace Lockbox

namespace Suite

variable (S : Suite)

/-- Decryption undoes encryption. -/
def OpensSealed : Prop :=
  ∀ key nonce aad msg, S.decrypt? key nonce aad (S.encrypt key nonce aad msg) = some msg

/-- What two private keys agree on with each other's public key is the
same from both sides. -/
def AgreesBothWays : Prop :=
  ∀ a b, S.agree a (S.publicKey b) = S.agree b (S.publicKey a)

/-- Inflating undoes deflating, within the limit. -/
def InflatesDeflated : Prop :=
  ∀ limit msg, msg.length ≤ limit → S.inflate limit (S.deflate msg) = .ok msg

/-- The length of an encrypted frame fits the four bytes that it is stored
in. -/
def CountsSealed : Prop :=
  ∀ (c : Channel) (counter : Nat) (frame : Frame),
    (c.sealFrame S counter frame).length < Nat.pow 256 4

/-- An encrypted frame has the room that readers give it: encryption adds
the tag, and compression that does not pay adds little. -/
structure FitsFrames : Prop where
  tag : ∀ key nonce aad msg, (S.encrypt key nonce aad msg).length = msg.length + Aead.tagLength
  growth : ∀ frame : Frame, (S.deflate frame.encode).length ≤ frame.encode.length + 1024

end Suite

theorem Frame.maxLength_eq : Frame.maxLength = 65546 := rfl

theorem maxSealedLength_eq : maxSealedLength = 66586 := rfl

namespace Channel

variable {S : Suite}

/-- A packed frame is little longer than the longest frame. -/
theorem length_pack_le (h : S.FitsFrames) (flags : Flags) (frame : Frame) :
    (pack S flags frame).length ≤ Frame.maxLength + 1024 := by
  have hlen := Frame.length_encode_le frame
  have hgrow := h.growth frame
  rw [Frame.maxLength_eq] at hlen ⊢
  unfold pack
  split <;> omega

/-- **A sealed frame is of a length that readers accept.** -/
theorem length_sealFrame (h : S.FitsFrames) (c : Channel) (counter : Nat) (frame : Frame) :
    Aead.tagLength ≤ (c.sealFrame S counter frame).length ∧
      (c.sealFrame S counter frame).length ≤ maxSealedLength := by
  have hpack := length_pack_le h c.flags frame
  rw [Frame.maxLength_eq] at hpack
  rw [sealFrame, h.tag, maxSealedLength_eq, Aead.tagLength]
  omega

end Channel

namespace Suite

/-- Frames that readers accept are short enough to have their length
stored. -/
theorem FitsFrames.countsSealed {S : Suite} (h : S.FitsFrames) : S.CountsSealed := by
  intro c counter frame
  have := (c.length_sealFrame h counter frame).2
  rw [maxSealedLength_eq] at this
  exact Nat.lt_of_le_of_lt this (by decide)

theorem standard_opensSealed : standard.OpensSealed := Aead.decrypt?_encrypt

/-- Frames of the standard suite fit: what does not pay to compress is stored
in blocks, and a frame takes two of them at most. -/
theorem standard_fitsFrames : standard.FitsFrames where
  tag := Aead.length_encrypt
  growth frame := by
    have hlen := Frame.length_encode_le frame
    have hdeflate := length_deflate frame.encode
    rw [Frame.maxLength_eq] at hlen
    rw [show Deflate.maxStored = 65535 from rfl] at hdeflate
    show (Lockbox.deflate frame.encode).length ≤ frame.encode.length + 1024
    omega

/-- The standard suite but for agreement and compression, which are of the
simplest kind that their laws allow. -/
def plain : Suite :=
  { standard with
    publicKey := id
    agree := fun a b => ⟨Bytes.xor a.val b.val, by simp [a.property, b.property]⟩
    deflate := id
    inflate := fun limit b => if b.length ≤ limit then .ok b else .error .tooLong }

theorem plain_opensSealed : plain.OpensSealed := standard_opensSealed

/-- Private keys of the plain suite are their own public keys, and adding two
of them is the same from both sides. -/
theorem plain_agreesBothWays : plain.AgreesBothWays := fun _ _ =>
  Subtype.ext (List.zipWith_comm_of_comm fun x y => UInt8.xor_comm x y)

theorem plain_inflatesDeflated : plain.InflatesDeflated := fun _ _ h => if_pos h

theorem plain_fitsFrames : plain.FitsFrames := ⟨standard_fitsFrames.tag, fun _ => Nat.le_add_right ..⟩

end Suite

end Lockbox
