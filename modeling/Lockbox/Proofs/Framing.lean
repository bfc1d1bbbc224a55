import Lockbox.Proofs.Handed
/-!
# Lockbox — which byte strings are frames

The written form of a frame, told by its bytes and without the function that
writes it: what stands where in an announcement (`Frame.SpellsFile`), in a
frame of data and in the last one. A byte string is read as a frame just if it
is spelled so, and any other that was authentic is a failure of integrity
(`frames_as_spelled`). Since a name that may be declared is short enough for
its length to fit two bytes, nothing is lost when that is written, and every
plaintext that a payload writer hands to the cipher is read as the frame that
it is meant to be. That the lists of these plaintexts leave nothing out is
part of the statement: an operation cannot tell a cipher that agrees on them
from the one of its suite.
-/

namespace Lockbox

namespace Frame

variable {p b : Bytes} {name : String} {size : UInt64} {stored : EntryName}

/-- The bytes of an announcement: a one, the length of the name in two bytes,
the name, and the size in eight. The most significant byte of a number comes
first. -/
def SpellsFile (name : String) (size : UInt64) (p : Bytes) : Prop :=
  ∃ length number : Bytes, length.length = 2 ∧ Bytes.toNat length = name.utf8ByteSize ∧
    number.length = 8 ∧ Bytes.toNat number = size.toNat ∧
    p = 1 :: length ++ Bytes.ofText name ++ number

/-- **An announcement is written as it is spelled.** Its name is short enough
for two bytes to tell its length. -/
theorem eq_encode_file_iff : p = encode (.file stored size) ↔ SpellsFile stored.val size p := by
  have hname : stored.val.utf8ByteSize < 256 ^ 2 := by
    have hshort := stored.property.2
    simp only [maxNameLength] at hshort
    omega
  have hsize : size.toNat < 256 ^ 8 := by
    have hlt := size.toNat_lt
    omega
  constructor
  · intro hp
    exact ⟨Bytes.ofNat 2 stored.val.utf8ByteSize, Bytes.ofNat 8 size.toNat, Bytes.length_ofNat _ _,
      Bytes.toNat_ofNat_of_lt hname, Bytes.length_ofNat _ _, Bytes.toNat_ofNat_of_lt hsize, hp⟩
  · rintro ⟨length, number, htwo, hlength, height, hnumber, rfl⟩
    have hfirst := Bytes.ofNat_toNat length
    have hlast := Bytes.ofNat_toNat number
    rw [htwo, hlength] at hfirst
    rw [height, hnumber] at hlast
    rw [encode, hfirst, hlast]

/-- **What is read as an announcement** is spelled as one, under a name that
can be stored. -/
theorem decode_eq_file_iff :
    (∃ stored : EntryName, stored.val = name ∧ decode p = .ok (.file stored size)) ↔
      name ≠ "" ∧ name.utf8ByteSize ≤ maxNameLength ∧ SpellsFile name size p := by
  constructor
  · rintro ⟨stored, rfl, hdecode⟩
    exact ⟨stored.property.1, stored.property.2,
      eq_encode_file_iff.mp (decode_eq_ok_iff.mp hdecode)⟩
  · rintro ⟨hne, hshort, hspelled⟩
    obtain ⟨stored, rfl⟩ : ∃ stored : EntryName, stored.val = name := ⟨⟨name, hne, hshort⟩, rfl⟩
    exact ⟨stored, rfl, decode_eq_ok_iff.mpr (eq_encode_file_iff.mpr hspelled)⟩

/-- What is read as data is a two and the data, as many as fit a frame. -/
theorem decode_eq_data_iff :
    (∃ chunk : Chunk, chunk.val = b ∧ decode p = .ok (.data chunk)) ↔
      0 < b.length ∧ b.length ≤ chunkSize ∧ p = 2 :: b := by
  constructor
  · rintro ⟨chunk, rfl, hdecode⟩
    exact ⟨chunk.property.1, chunk.property.2, decode_eq_ok_iff.mp hdecode⟩
  · rintro ⟨hpos, hfits, hspelled⟩
    exact ⟨⟨b, hpos, hfits⟩, rfl, decode_eq_ok_iff.mpr hspelled⟩

/-- What is read as the last frame is a three. -/
theorem decode_eq_finish_iff : decode p = .ok .finish ↔ p = [3] := decode_eq_ok_iff

/-- There are no other frames. -/
theorem exists_decode_error
    (hfile : ∀ name size, name ≠ "" → name.utf8ByteSize ≤ maxNameLength → ¬ SpellsFile name size p)
    (hdata : ∀ b : Bytes, 0 < b.length → b.length ≤ chunkSize → p ≠ 2 :: b) (hfinish : p ≠ [3]) :
    ∃ fault, decode p = .error fault := by
  cases hdecode : decode p with
  | error fault => exact ⟨fault, rfl⟩
  | ok frame =>
    cases frame with
    | file stored size =>
      obtain ⟨hne, hshort, hspelled⟩ := decode_eq_file_iff.mp ⟨stored, rfl, hdecode⟩
      exact absurd hspelled (hfile stored.val size hne hshort)
    | data chunk =>
      obtain ⟨hpos, hfits, hspelled⟩ := decode_eq_data_iff.mp ⟨chunk, rfl, hdecode⟩
      exact absurd hspelled (hdata chunk.val hpos hfits)
    | finish => exact absurd (decode_eq_finish_iff.mp hdecode) hfinish

end Frame

namespace Channel

variable {S : Suite} {flags : Flags} {body p : Bytes}

/-- The plaintext of a frame is what a body inflates to, or the body itself if
nothing is compressed. -/
def Unfolds (S : Suite) (flags : Flags) (body p : Bytes) : Prop :=
  (if flags.compressed then S.inflate Frame.maxLength body else .ok body) = .ok p

/-- **A plaintext that is no frame is a failure of integrity.** -/
theorem unpack_of_unfolds (h : Unfolds S flags body p) :
    unpack S flags body = (Frame.decode p).mapError .frame := by
  unfold Unfolds at h
  simp only [unpack, h]
  cases Frame.decode p with
  | error fault => rfl
  | ok frame => rfl

end Channel

namespace Payload

variable {S : Suite}

/-- The plaintexts of encryptions, before they are compressed, are read as
these frames. -/
def Carry (S : Suite) (flags : Flags) (frames : List Frame) (handed : List Encryption) : Prop :=
  ∃ plains : List Bytes,
    handed.map Encryption.body = plains.map (fun p => if flags.compressed then S.deflate p else p) ∧
    plains.map Frame.decode = frames.map .ok

section

variable {flags : Flags} {frames frames' : List Frame} {handed handed' : List Encryption}

theorem carry_nil (S : Suite) (flags : Flags) : Carry S flags [] [] := ⟨[], rfl, rfl⟩

theorem Carry.append (h : Carry S flags frames handed) (h' : Carry S flags frames' handed') :
    Carry S flags (frames ++ frames') (handed ++ handed') := by
  obtain ⟨plains, hbodies, hframes⟩ := h
  obtain ⟨plains', hbodies', hframes'⟩ := h'
  refine ⟨plains ++ plains', ?_, ?_⟩
  · rw [List.map_append, List.map_append, hbodies, hbodies']
  · rw [List.map_append, List.map_append, hframes, hframes']

end

namespace Writer

variable {w w' : Writer}

/-- **A frame is handed over in a form that is read as that frame.** -/
theorem carry_encryption (S : Suite) (frame : Frame) (w : Writer) :
    Carry S w.channel.flags [frame] [w.encryption S frame] := by
  refine ⟨[frame.encode], rfl, ?_⟩
  rw [List.map_singleton, List.map_singleton, Frame.decode_encode]

/-- Handing over bytes fills chunks with what waited and what came, from the
first byte on; if all of them are written, the rest waits. -/
theorem carry_fill (input : Bytes) (w : Writer) :
    ∃ chunks : List Chunk, Carry S w.channel.flags (chunks.map .data) (w.handedByFill S input) ∧
      chunks.flatMap Subtype.val <+: w.held ++ input ∧
      ∀ w', w.fill S input = (.ok (), w') → w'.channel = w.channel ∧
        chunks.flatMap Subtype.val ++ w'.held = w.held ++ input := by
  fun_induction handedByFill S input w with
  | case1 input w hfit =>
    refine ⟨[], carry_nil S _, List.nil_prefix, ?_⟩
    intro w' hfill
    rw [fill_of_fit hfit] at hfill
    obtain ⟨-, rfl⟩ := Prod.mk.inj hfill
    exact ⟨rfl, by simp [held]⟩
  | case2 input w hfull ih =>
    have hfirst := carry_encryption S (.data (w.fullChunk input hfull)) w.emptied
    have hsplit : (w.fullChunk input hfull).val ++ input.drop w.room = w.held ++ input := by
      simp only [fullChunk, Gathering.toBytes_add, List.append_assoc, List.take_append_drop]
    rcases hemit : w.emptied.emit S (.data (w.fullChunk input hfull)) with ⟨e | u, w₁⟩
    · -- the chunk was handed over all the same
      refine ⟨[w.fullChunk input hfull], hfirst, ?_, ?_⟩
      · rw [List.flatMap_singleton, ← hsplit]
        exact List.prefix_append _ _
      · intro w' hfill
        rw [fill_of_full hfull, hemit] at hfill
        exact absurd (Prod.mk.inj hfill).1 (by simp)
    · obtain ⟨hwrote, -, hwaiting, -, -⟩ := emit_ok hemit
      have hheld : w₁.held = [] := by rw [held, hwaiting, Waiting.toBytes_none]
      have hflags : w₁.channel.flags = w.channel.flags := congrArg Channel.flags hwrote.channel
      obtain ⟨chunks, hcarry, hbegin, hall⟩ := ih w₁
      rw [hheld, List.nil_append] at hbegin hall
      rw [hflags] at hcarry
      refine ⟨w.fullChunk input hfull :: chunks, hfirst.append hcarry, ?_, ?_⟩
      · rw [List.flatMap_cons, ← hsplit]
        exact (List.prefix_append_right_inj _).mpr hbegin
      · intro w' hfill
        rw [fill_of_full hfull, hemit] at hfill
        obtain ⟨hchannel, hbytes⟩ := hall w' hfill
        refine ⟨hchannel.trans hwrote.channel, ?_⟩
        rw [List.flatMap_cons, List.append_assoc, hbytes, hsplit]

/-- What waits is handed over as one chunk, if anything does. -/
theorem carry_flush (w : Writer) :
    ∃ chunks : List Chunk, Carry S w.channel.flags (chunks.map .data) (w.handedByFlush S) ∧
      chunks.flatMap Subtype.val = w.held := by
  unfold handedByFlush
  by_cases hpos : 0 < w.waiting.val.size
  · rw [dif_pos hpos]
    refine ⟨[w.heldChunk hpos], carry_encryption S _ w.emptied, ?_⟩
    rw [List.flatMap_singleton, heldChunk]
  · rw [dif_neg hpos]
    have hnone : w.held = [] := by
      apply List.eq_nil_of_length_eq_zero
      rw [length_held]
      omega
    exact ⟨[], carry_nil S _, hnone.symm⟩

/-- **A declaration hands over the announcement of its entry,** or nothing. -/
theorem carry_declare (name : String) (size : UInt64) (w : Writer) :
    w.handedByDeclare S name size = [] ∨ ∃ stored : EntryName, stored.val = name ∧
      Carry S w.channel.flags [.file stored size] (w.handedByDeclare S name size) := by
  unfold handedByDeclare
  split
  · exact .inl rfl
  · rename_i stored hstored
    split
    · exact .inl rfl
    · split
      · exact .inl rfl
      · exact .inr ⟨stored, EntryName.ofText_eq_ok_iff.mp hstored, carry_encryption S _ w⟩

/-- **Bytes are handed over as chunks of data,** in their order and from the
first that waited on. -/
theorem carry_write (data : Bytes) (w : Writer) :
    ∃ chunks : List Chunk, Carry S w.channel.flags (chunks.map .data) (w.handedByWrite S data) ∧
      chunks.flatMap Subtype.val <+: w.held ++ data := by
  have hnothing : ∃ chunks : List Chunk, Carry S w.channel.flags (chunks.map .data) [] ∧
      chunks.flatMap Subtype.val <+: w.held ++ data := ⟨[], carry_nil S _, List.nil_prefix⟩
  unfold handedByWrite
  split
  · exact hnothing
  · rename_i f hf
    dsimp only
    split
    · exact hnothing
    · obtain ⟨chunks, hcarry, hbegin, hall⟩ := carry_fill (S := S) data w
      rcases hfill : w.fill S data with ⟨e | u, w₁⟩
      · exact ⟨chunks, by rwa [List.append_nil], hbegin⟩
      · obtain ⟨hchannel, hbytes⟩ := hall w₁ hfill
        dsimp only
        split
        · -- the last bytes of the entry leave at once
          obtain ⟨last, hlast, hheld⟩ := carry_flush (S := S) w₁
          rw [hchannel] at hlast
          refine ⟨chunks ++ last, ?_, ?_⟩
          · rw [List.map_append]
            exact hcarry.append hlast
          · have hall : (chunks ++ last).flatMap Subtype.val = w.held ++ data := by
              rw [List.flatMap_append, hheld, hbytes]
            exact ⟨[], by rw [List.append_nil, hall]⟩
        · exact ⟨chunks, by rwa [List.append_nil], hbegin⟩

/-- **The end of a payload is handed over as the last frame,** or nothing
is. -/
theorem carry_close (w : Writer) : w.handedByClose S = [] ∨
    Carry S w.channel.flags [.finish] (w.handedByClose S) := by
  unfold handedByClose
  split
  · exact .inl rfl
  · exact .inr (carry_encryption S _ w)

end Writer

end Payload

open Payload Writer in
/-- **Frames are what is spelled as one.** A byte string is read as an
announcement just if it is spelled as that, under a name that can be stored; as
data just if these follow a two, and are at least a byte and no more than fit a
frame; and as the last frame just if it is a three. Where it is none of these,
a frame with this plaintext is a failure of integrity. What was read as a frame
is the written form of that frame. And whatever a payload writer is asked to
do, the plaintexts that it hands to the cipher are read as the frames that are
meant: the announcement of the entry that is declared; data, from the first
byte that waited on; and the last frame. These are all: with a cipher that
answers them alike, the operation does the same. -/
theorem frames_as_spelled :
    (∀ p : Bytes,
      (∀ name size,
        (∃ stored : EntryName, stored.val = name ∧ Frame.decode p = .ok (.file stored size)) ↔
          name ≠ "" ∧ name.utf8ByteSize ≤ 65535 ∧ Frame.SpellsFile name size p) ∧
      (∀ b : Bytes, (∃ chunk : Chunk, chunk.val = b ∧ Frame.decode p = .ok (.data chunk)) ↔
        1 ≤ b.length ∧ b.length ≤ 65536 ∧ p = 2 :: b) ∧
      (Frame.decode p = .ok .finish ↔ p = [3]) ∧
      ((∀ name size, name ≠ "" → name.utf8ByteSize ≤ 65535 → ¬ Frame.SpellsFile name size p) →
        (∀ b : Bytes, 1 ≤ b.length → b.length ≤ 65536 → p ≠ 2 :: b) → p ≠ [3] →
        ∃ fault, Frame.decode p = .error fault ∧ ∀ (S : Suite) (flags : Flags) (body : Bytes),
          Channel.Unfolds S flags body p → Channel.unpack S flags body = .error (.frame fault)) ∧
      ∀ frame, Frame.decode p = .ok frame → frame.encode = p) ∧
    ∀ (S : Suite) (w : Writer),
      (∀ name size,
        (w.handedByDeclare S name size = [] ∨ ∃ stored : EntryName, stored.val = name ∧
          Carry S w.channel.flags [.file stored size] (w.handedByDeclare S name size)) ∧
        ∀ encrypt, Answers S encrypt (w.handedByDeclare S name size) →
          w.declare { S with encrypt } name size = w.declare S name size) ∧
      (∀ data,
        (∃ chunks : List Chunk,
          Carry S w.channel.flags (chunks.map .data) (w.handedByWrite S data) ∧
          chunks.flatMap Subtype.val <+: w.held ++ data) ∧
        ∀ encrypt, Answers S encrypt (w.handedByWrite S data) →
          w.write { S with encrypt } data = w.write S data) ∧
      (w.handedByClose S = [] ∨ Carry S w.channel.flags [.finish] (w.handedByClose S)) ∧
      ∀ encrypt, Answers S encrypt (w.handedByClose S) →
        w.close { S with encrypt } = w.close S := by
  constructor
  · intro p
    refine ⟨fun name size => Frame.decode_eq_file_iff, fun b => Frame.decode_eq_data_iff,
      Frame.decode_eq_finish_iff, fun hfile hdata hfinish => ?_, fun frame hframe => ?_⟩
    · obtain ⟨fault, hfault⟩ := Frame.exists_decode_error hfile hdata hfinish
      refine ⟨fault, hfault, fun S flags body hplain => ?_⟩
      rw [Channel.unpack_of_unfolds hplain, hfault]
      rfl
    · exact (Frame.decode_eq_ok_iff.mp hframe).symm
  · intro S w
    exact ⟨fun name size => ⟨w.carry_declare name size, fun _ => declare_congr⟩,
      fun data => ⟨w.carry_write data, fun _ => write_congr⟩, w.carry_close, fun _ => close_congr⟩

/-- A name of one letter that takes two bytes is announced with a size that
takes two; and a two without data is no frame. -/
theorem accented_frames_as_spelled :
    (∃ stored : EntryName, stored.val = "é" ∧
      Frame.decode [1, 0, 2, 0xc3, 0xa9, 0, 0, 0, 0, 0, 0, 1, 2] = .ok (.file stored 258)) ∧
    ∃ fault, Channel.unpack .plain ⟨false⟩ [2] = .error (.frame fault) := by
  constructor
  · have hspelled : Frame.SpellsFile "é" 258 [1, 0, 2, 0xc3, 0xa9, 0, 0, 0, 0, 0, 0, 1, 2] :=
      ⟨[0, 2], [0, 0, 0, 0, 0, 0, 1, 2], by decide⟩
    exact ((frames_as_spelled.1 _).1 "é" 258).mpr ⟨by decide, by decide, hspelled⟩
  · obtain ⟨-, -, -, hother, -⟩ := frames_as_spelled.1 [2]
    obtain ⟨fault, -, hunpack⟩ := hother
      (fun name size _ _ ⟨length, number, _, _, _, _, hp⟩ => by simp at hp)
      (fun b hpos _ hb => by
        obtain rfl : [] = b := List.tail_eq_of_cons_eq hb
        exact absurd hpos (by simp))
      (by decide)
    exact ⟨fault, hunpack .plain ⟨false⟩ [2] rfl⟩

end Lockbox
