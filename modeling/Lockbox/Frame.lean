import Lockbox.Entry
/-!
# Lockbox — payload frames

The payload is a sequence of frames: one that announces an entry, those
with its data, and one that ends the payload. The type holds exactly the
frames that may be written, so that `decode_eq_ok_iff` needs no side
condition: a byte string is read as a frame just if it is the written
form of that frame.
-/

namespace Lockbox

/-- The most data that one frame carries. -/
def chunkSize : Nat := 65536

/-- The data of one frame: not empty, and no more than fits. -/
abbrev Chunk := { bytes : Bytes // 0 < bytes.length ∧ bytes.length ≤ chunkSize }

/-- One frame of a payload. -/
inductive Frame where
  | file (name : EntryName) (size : UInt64)
  | data (chunk : Chunk)
  | finish

/-- Why a byte string is no frame. -/
inductive FrameFault where
  | empty
  | shortFile
  | nameLength
  | nameNotText
  | name (fault : NameFault)
  | dataSize
  | finishCarriesData
  | unknownKind (kind : UInt8)
  deriving DecidableEq, Repr

/-- The wording of a fault. -/
def FrameFault.message : FrameFault → String
  | .empty => "empty frame"
  | .shortFile => "short FILE frame"
  | .nameLength => "FILE frame length disagrees with name length"
  | .nameNotText => "entry name is not UTF-8"
  | .name f => s!"Invalid file name: {f.message}"
  | .dataSize => "DATA frame size out of range"
  | .finishCarriesData => "END frame carries data"
  | .unknownKind k => s!"unknown frame kind {k.toNat}"

namespace Frame

/-- The bytes of an announcement besides the name: kind, length of the
name and size. -/
def fileOverhead : Nat := 11

/-- The longest frame. -/
def maxLength : Nat := fileOverhead + maxNameLength

/-- The written form of a frame. -/
def encode : Frame → Bytes
  | .file name size =>
    1 :: Bytes.ofNat 2 name.val.utf8ByteSize ++ Bytes.ofText name.val ++ Bytes.ofNat 8 size.toNat
  | .data chunk => 2 :: chunk.val
  | .finish => [3]

/-- Reads an announcement after its first byte. -/
def decodeFile (rest : Bytes) : Except FrameFault Frame :=
  if rest.length + 1 < fileOverhead then .error .shortFile
  else
    let n := Bytes.toNat (rest.take 2)
    if rest.length + 1 ≠ fileOverhead + n then .error .nameLength
    else match Bytes.text? ((rest.drop 2).take n) with
      | none => .error .nameNotText
      | some text =>
        match EntryName.ofText text with
        | .error f => .error (.name f)
        | .ok name => .ok (.file name (Bytes.toNat ((rest.drop 2).drop n)).toUInt64)

/-- The frame with this written form. -/
def decode : Bytes → Except FrameFault Frame
  | [] => .error .empty
  | kind :: rest =>
    if kind = 1 then decodeFile rest
    else if kind = 2 then
      if h : 0 < rest.length ∧ rest.length ≤ chunkSize then .ok (.data ⟨rest, h⟩)
      else .error .dataSize
    else if kind = 3 then
      if rest = [] then .ok .finish else .error .finishCarriesData
    else .error (.unknownKind kind)

/-! ## Reading and writing undo each other -/

theorem length_encode_file (name : EntryName) (size : UInt64) :
    (encode (.file name size)).length = fileOverhead + name.val.utf8ByteSize := by
  simp only [encode, List.length_cons, List.length_append, Bytes.length_ofNat,
    Bytes.length_ofText, fileOverhead]
  omega

/-- No frame is longer than the limit. -/
theorem length_encode_le (f : Frame) : (encode f).length ≤ maxLength := by
  cases f with
  | file name size =>
    have := name.property.2
    rw [length_encode_file, maxLength]
    omega
  | data chunk =>
    have := chunk.property.2
    simp only [encode, List.length_cons, maxLength, fileOverhead, maxNameLength]
    simp only [chunkSize] at this
    omega
  | finish => decide

theorem decodeFile_encode (name : EntryName) (size : UInt64) :
    decodeFile (Bytes.ofNat 2 name.val.utf8ByteSize ++ Bytes.ofText name.val ++
      Bytes.ofNat 8 size.toNat) = .ok (.file name size) := by
  have hn : name.val.utf8ByteSize < 256 ^ 2 := by
    have := name.property.2
    simp only [maxNameLength] at this
    omega
  have hs : size.toNat < 256 ^ 8 := by
    have := size.toNat_lt
    omega
  have htake : (Bytes.ofNat 2 name.val.utf8ByteSize ++ Bytes.ofText name.val ++
      Bytes.ofNat 8 size.toNat).take 2 = Bytes.ofNat 2 name.val.utf8ByteSize := by
    rw [List.append_assoc]
    exact List.take_left' (by simp)
  have hdrop : (Bytes.ofNat 2 name.val.utf8ByteSize ++ Bytes.ofText name.val ++
      Bytes.ofNat 8 size.toNat).drop 2 = Bytes.ofText name.val ++ Bytes.ofNat 8 size.toNat := by
    rw [List.append_assoc]
    exact List.drop_left' (by simp)
  have hname : (Bytes.ofText name.val ++ Bytes.ofNat 8 size.toNat).take name.val.utf8ByteSize
      = Bytes.ofText name.val := List.take_left' (by simp)
  have hsize : (Bytes.ofText name.val ++ Bytes.ofNat 8 size.toNat).drop name.val.utf8ByteSize
      = Bytes.ofNat 8 size.toNat := List.drop_left' (by simp)
  rw [decodeFile, htake, hdrop, Bytes.toNat_ofNat_of_lt hn]
  simp only [List.length_append, Bytes.length_ofNat, Bytes.length_ofText, fileOverhead, hname, hsize,
    Bytes.text?_ofText, EntryName.ofText_val, Bytes.toNat_ofNat_of_lt hs]
  rw [if_neg (by omega), if_neg (by omega)]
  simp

theorem decode_encode (f : Frame) : decode (encode f) = .ok f := by
  cases f with
  | file name size => exact decodeFile_encode name size
  | data chunk =>
    have := chunk.property
    simp [encode, decode, this]
  | finish => rfl

theorem encode_of_decodeFile {rest : Bytes} {f : Frame} (h : decodeFile rest = .ok f) :
    encode f = 1 :: rest := by
  unfold decodeFile at h
  split at h
  · exact absurd h (by simp)
  · dsimp only at h
    split at h
    · exact absurd h (by simp)
    · rename_i hshort hlen
      split at h
      · exact absurd h (by simp)
      · rename_i text htext
        split at h
        · exact absurd h (by simp)
        · rename_i name hname
          cases h
          have hval := EntryName.ofText_eq_ok_iff.mp hname
          have hbytes := Bytes.ofText_of_text? htext
          have hsize := congrArg List.length hbytes
          simp only [Bytes.length_ofText, List.length_take, List.length_drop, fileOverhead] at hsize hshort hlen
          have h8 : ((rest.drop 2).drop (Bytes.toNat (rest.take 2))).length = 8 := by
            simp only [List.length_drop]
            omega
          have hlt := Bytes.toNat_lt ((rest.drop 2).drop (Bytes.toNat (rest.take 2)))
          rw [h8] at hlt
          have hword : ((Bytes.toNat ((rest.drop 2).drop (Bytes.toNat (rest.take 2)))).toUInt64).toNat
              = Bytes.toNat ((rest.drop 2).drop (Bytes.toNat (rest.take 2))) := by
            simp only [Nat.toUInt64, UInt64.toNat_ofNat']
            exact Nat.mod_eq_of_lt (by omega)
          have h2 : (rest.take 2).length = 2 := by
            simp only [List.length_take]
            omega
          have hn : text.utf8ByteSize = Bytes.toNat (rest.take 2) := by
            omega
          have e2 := Bytes.ofNat_toNat (rest.take 2)
          have e8 := Bytes.ofNat_toNat ((rest.drop 2).drop (Bytes.toNat (rest.take 2)))
          rw [h2] at e2
          rw [h8] at e8
          rw [encode, hval, hn, hbytes, hword, e2, e8, List.cons_append, List.cons_append,
            List.append_assoc, List.take_append_drop, List.take_append_drop]

/-- **A byte string is read as a frame just if it is that frame written.** -/
theorem decode_eq_ok_iff {b : Bytes} {f : Frame} : decode b = .ok f ↔ b = encode f := by
  constructor
  · intro h
    cases b with
    | nil => exact absurd h (by simp [decode])
    | cons kind rest =>
      rw [decode] at h
      split at h
      · rename_i hk
        rw [encode_of_decodeFile h, hk]
      · split at h
        · split at h
          · rename_i hk _
            cases h
            rw [encode, hk]
          · exact absurd h (by simp)
        · split at h
          · split at h
            · rename_i hk hr
              cases h
              rw [encode, hk, hr]
            · exact absurd h (by simp)
          · exact absurd h (by simp)
  · rintro rfl
    exact decode_encode f

end Frame

end Lockbox
