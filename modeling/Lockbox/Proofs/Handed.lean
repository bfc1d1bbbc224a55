import Lockbox.Proofs.Writing
/-!
# Lockbox — what is handed to the cipher

Each operation of a payload writer hands plaintexts to the cipher, whether
it succeeds or not; an `Encryption` is one of them with the key, the nonce
and the context that go with it. The lists are complete: a cipher that
answers these encryptions as the suite does cannot be told from it
(`declare_congr`, `write_congr`, `close_congr`). What numbers they bear is
said once for each operation (`Tally`): a frame takes the next number, and
the last number is never left.
-/

namespace Lockbox

namespace Payload

/-- A plaintext that is handed to the cipher. -/
structure Encryption where
  key : Octets 32
  nonce : Octets 24
  context : Bytes
  body : Bytes
  deriving DecidableEq

/-- What the cipher of a suite makes of it. -/
def Encryption.sealed (S : Suite) (e : Encryption) : Bytes := S.encrypt e.key e.nonce e.context e.body

/-- A cipher answers encryptions as a suite does. -/
def Answers (S : Suite) (encrypt : Octets 32 → Octets 24 → Bytes → Bytes → Bytes)
    (handed : List Encryption) : Prop :=
  ∀ e ∈ handed, encrypt e.key e.nonce e.context e.body = e.sealed S

namespace Writer

/-! ## Chunks

The writer forms chunks from what waits and what comes. The lemmas give the
two branches of flushing and filling as equations, so that the lists below
can follow the same recursion. -/

/-- The writer with nothing that waits. -/
abbrev emptied (w : Writer) : Writer := { w with waiting := .none }

/-- What waits fits a frame, and if something waits it fills one with at least
a byte. -/
theorem held_fits (w : Writer) (h : 0 < w.waiting.val.size) :
    0 < w.waiting.val.toBytes.length ∧ w.waiting.val.toBytes.length ≤ chunkSize := by
  rw [Gathering.length_toBytes]
  exact ⟨h, Nat.le_of_lt w.waiting.property⟩

/-- What waits, as a chunk. -/
def heldChunk (w : Writer) (h : 0 < w.waiting.val.size) : Chunk :=
  ⟨w.waiting.val.toBytes, w.held_fits h⟩

/-- How many more bytes fill a chunk. -/
abbrev room (w : Writer) : Nat := chunkSize - w.waiting.val.size

/-- And so does what waits with the first bytes of an input that is too long to
wait with it. -/
theorem full_fits {input : Bytes} {w : Writer}
    (h : ¬ w.waiting.val.size + input.length < chunkSize) :
    0 < (w.waiting.val.add (input.take w.room)).toBytes.length ∧
      (w.waiting.val.add (input.take w.room)).toBytes.length ≤ chunkSize := by
  have hlt := w.waiting.property
  have hpos : 0 < chunkSize := by decide
  have hroom : w.room = chunkSize - w.waiting.val.size := rfl
  simp only [Gathering.length_toBytes, Gathering.size_add, List.length_take]
  omega

/-- What waits with the first bytes of an input, as a full chunk. -/
def fullChunk (input : Bytes) (w : Writer)
    (h : ¬ w.waiting.val.size + input.length < chunkSize) : Chunk :=
  ⟨(w.waiting.val.add (input.take w.room)).toBytes, full_fits h⟩

section

variable {S : Suite} {w : Writer} {input : Bytes}

/-- Bytes that wait are written as one frame. -/
theorem flush_of_pos (h : 0 < w.waiting.val.size) :
    w.flush S = w.emptied.emit S (.data (w.heldChunk h)) := by
  rw [flush, dif_pos h]
  rfl

/-- If none wait, nothing is written. -/
theorem flush_of_not_pos (h : ¬ 0 < w.waiting.val.size) : w.flush S = (.ok (), w) := by
  rw [flush, dif_neg h]

/-- Input that does not fill a chunk waits. -/
theorem fill_of_fit (h : w.waiting.val.size + input.length < chunkSize) :
    w.fill S input = (.ok (), { w with waiting := ⟨w.waiting.val.add input, h⟩ }) := by
  rw [fill, dif_pos h]

/-- Input that fills a chunk is written chunk by chunk. -/
theorem fill_of_full (h : ¬ w.waiting.val.size + input.length < chunkSize) :
    w.fill S input = match w.emptied.emit S (.data (w.fullChunk input h)) with
      | (.ok (), w') => w'.fill S (input.drop w.room)
      | (.error e, w') => (.error e, w') := by
  rw [fill, dif_neg h]
  rfl

end

/-! ## The plaintexts of each operation

The list of an operation depends on what its sink does: where a frame is not
written, the rest is not handed over. -/

/-- A frame as it is handed over. -/
def encryption (S : Suite) (frame : Frame) (w : Writer) : Encryption :=
  ⟨w.channel.key, Channel.nonce w.channel.base w.counter,
    Channel.context w.channel.version w.channel.flags, Channel.pack S w.channel.flags frame⟩

/-- The frame of what waits, if anything does. -/
def handedByFlush (S : Suite) (w : Writer) : List Encryption :=
  if h : 0 < w.waiting.val.size then [w.emptied.encryption S (.data (w.heldChunk h))] else []

/-- The frames that are filled, up to the first that cannot be written. -/
def handedByFill (S : Suite) (input : Bytes) (w : Writer) : List Encryption :=
  if h : w.waiting.val.size + input.length < chunkSize then []
  else
    w.emptied.encryption S (.data (w.fullChunk input h)) ::
      match w.emptied.emit S (.data (w.fullChunk input h)) with
      | (.ok (), w') => handedByFill S (input.drop w.room) w'
      | (.error _, _) => []
termination_by input.length
decreasing_by
  have hlt := w.waiting.property
  have hroom : w.room = chunkSize - w.waiting.val.size := rfl
  simp only [List.length_drop]
  omega

/-- The announcement of an entry, if it may be declared. -/
def handedByDeclare (S : Suite) (name : String) (size : UInt64) (w : Writer) : List Encryption :=
  match EntryName.ofText name with
  | .error _ => []
  | .ok stored =>
    match w.checkComplete with
    | .error _ => []
    | .ok () => if name ∈ w.names then [] else [w.encryption S (.file stored size)]

/-- The frames of data that are handed over. -/
def handedByWrite (S : Suite) (data : Bytes) (w : Writer) : List Encryption :=
  match w.current with
  | none => []
  | some f =>
    let after := f.written + data.length
    if f.declared.toNat < after then []
    else w.handedByFill S data ++
      match w.fill S data with
      | (.error _, _) => []
      | (.ok (), w) => if after = f.declared.toNat then w.handedByFlush S else []

/-- The last frame, if the last entry is complete. -/
def handedByClose (S : Suite) (w : Writer) : List Encryption :=
  match w.checkComplete with
  | .error _ => []
  | .ok () => [w.encryption S .finish]

/-! ## Nothing else is encrypted

For each operation: a cipher that agrees on its list gives the same outcome. -/

section

variable {S : Suite} {encrypt : Octets 32 → Octets 24 → Bytes → Bytes → Bytes} {w : Writer}

/-- A single frame depends on the cipher by its own encryption. -/
theorem emit_congr {frame : Frame} (h : Answers S encrypt [w.encryption S frame]) :
    w.emit { S with encrypt } frame = w.emit S frame := by
  have hsealed : w.channel.sealFrame { S with encrypt } w.counter frame
      = w.channel.sealFrame S w.counter frame := h _ List.mem_cons_self
  unfold emit
  rw [hsealed]

/-- What waits depends on it by the one frame that it makes, if any. -/
theorem flush_congr (h : Answers S encrypt (w.handedByFlush S)) :
    w.flush { S with encrypt } = w.flush S := by
  unfold handedByFlush at h
  by_cases hpos : 0 < w.waiting.val.size
  · rw [dif_pos hpos] at h
    rw [flush_of_pos hpos, flush_of_pos hpos, emit_congr h]
  · rw [flush_of_not_pos hpos, flush_of_not_pos hpos]

/-- Input depends on it by the chunks that it fills: they are handed over one
after the other, and only if all before were written. -/
theorem fill_congr {input : Bytes} (h : Answers S encrypt (w.handedByFill S input)) :
    w.fill { S with encrypt } input = w.fill S input := by
  -- chunk by chunk, as the input is cut
  fun_induction handedByFill S input w with
  | case1 input w hfit => rw [fill_of_fit hfit, fill_of_fit hfit]
  | case2 input w hfull ih =>
    have hfirst := emit_congr fun e he => h e (List.mem_cons.mpr (.inl (List.mem_singleton.mp he)))
    rw [fill_of_full hfull, fill_of_full hfull, hfirst]
    rcases hemit : w.emptied.emit S (.data (w.fullChunk input hfull)) with ⟨e | u, w'⟩
    · rfl
    · rw [hemit] at h
      exact ih w' fun e he => h e (List.mem_cons_of_mem _ he)

/-- **A declaration depends on the cipher by what it hands over.** -/
theorem declare_congr {name : String} {size : UInt64}
    (h : Answers S encrypt (w.handedByDeclare S name size)) :
    w.declare { S with encrypt } name size = w.declare S name size := by
  unfold handedByDeclare at h
  unfold declare
  split
  · rfl
  · rename_i stored hstored
    rw [hstored] at h
    split
    · rfl
    · rename_i hcomplete
      rw [hcomplete] at h
      dsimp only at h
      split
      · rfl
      · rename_i hnew
        rw [if_neg hnew] at h
        rw [emit_congr h]

/-- **To write depends on the cipher by what it hands over.** -/
theorem write_congr {data : Bytes} (h : Answers S encrypt (w.handedByWrite S data)) :
    w.write { S with encrypt } data = w.write S data := by
  unfold handedByWrite at h
  unfold write
  split
  · rfl
  · rename_i f hf
    rw [hf] at h
    dsimp only at h ⊢
    split
    · rfl
    · rename_i hle
      rw [if_neg hle] at h
      have hfill := fill_congr fun e he => h e (List.mem_append_left _ he)
      rw [hfill]
      split
      · rfl
      · rename_i w₁ hw₁
        rw [hw₁] at h
        dsimp only at h
        by_cases hend : f.written + data.length = f.declared.toNat
        · rw [if_pos hend] at h
          rw [flush_congr fun e he => h e (List.mem_append_right _ he)]
        · rw [if_neg hend, if_neg hend]

/-- **And so does the end of a payload.** -/
theorem close_congr (h : Answers S encrypt (w.handedByClose S)) :
    w.close { S with encrypt } = w.close S := by
  unfold handedByClose at h
  unfold Writer.close
  split
  · rfl
  · rename_i hcomplete
    rw [hcomplete] at h
    rw [emit_congr h]

end

/-! ## The numbers of frames

A tally says that the frames of a list bear consecutive numbers and where
that leaves the counter. The sink may fail at any of them. -/

/-- The number of a frame, by how many frames were handed over before: the
last number there is is given again and again. -/
def number (n : Nat) : Nat := min n (UInt64.size - 1)

/-- Encryptions under a key with the nonces of a base, the first of them
after `n` others. -/
def Numbered (key : Octets 32) (base : Octets 24) (n : Nat) : List Encryption → Prop
  | [] => True
  | e :: rest => (e.key = key ∧ e.nonce = Channel.nonce base (number n)) ∧
    Numbered key base (n + 1) rest

section

variable {key : Octets 32} {base : Octets 24}

/-- A list is numbered if its parts are, the second part on from where the
first ends. -/
theorem numbered_append {n : Nat} {es fs : List Encryption} :
    Numbered key base n (es ++ fs)
      ↔ Numbered key base n es ∧ Numbered key base (n + es.length) fs := by
  induction es generalizing n with
  | nil => simp [Numbered]
  | cons e es ih =>
    have hnext : n + (es.length + 1) = n + 1 + es.length := by omega
    rw [List.cons_append, Numbered, Numbered, ih, List.length_cons, hnext]
    exact and_assoc.symm

/-- Each encryption of a numbered list bears the number of its place. -/
theorem Numbered.getElem? {n k : Nat} {es : List Encryption} {e : Encryption}
    (h : Numbered key base n es) (he : es[k]? = some e) :
    e.key = key ∧ e.nonce = Channel.nonce base (number (n + k)) := by
  induction es generalizing n k with
  | nil => exact absurd he (by simp)
  | cons f es ih =>
    obtain ⟨hfirst, hrest⟩ := h
    cases k with
    | zero =>
      obtain rfl : f = e := by simpa using he
      exact hfirst
    | succ k =>
      have hk := ih hrest (by simpa using he)
      rwa [Nat.add_right_comm, Nat.add_assoc] at hk

end

/-- What an operation of a writer handed over after `n` other frames: the
next numbers, and the one that follows is next, unless a sink failed. -/
structure Tally (n : Nat) (w : Writer) (handed : List Encryption)
    (result : Except Error Unit × Writer) : Prop where
  numbered : Numbered w.channel.key w.channel.base n handed
  channel : result.2.channel = w.channel
  counter : (∀ x, result.1 ≠ .error (.io x)) → result.2.counter = number (n + handed.length)

section

variable {S : Suite} {w : Writer} {n : Nat}

/-- One operation, and another if it succeeds. -/
theorem Tally.trans {w₁ : Writer} {handed handed' : List Encryption}
    {result : Except Error Unit × Writer} (h : Tally n w handed (.ok (), w₁))
    (h' : Tally (n + handed.length) w₁ handed' result) : Tally n w (handed ++ handed') result where
  numbered := numbered_append.mpr ⟨h.numbered, h.channel ▸ h'.numbered⟩
  channel := h'.channel.trans h.channel
  counter hio := by
    rw [h'.counter hio, List.length_append, Nat.add_assoc]

/-- What follows the last frame of an operation touches neither its number
nor its channel. -/
theorem Tally.map {w₁ : Writer} {handed : List Encryption} (h : Tally n w handed (.ok (), w₁))
    {w₂ : Writer} (hcounter : w₂.counter = w₁.counter) (hchannel : w₂.channel = w₁.channel) :
    Tally n w handed (.ok (), w₂) where
  numbered := h.numbered
  channel := hchannel.trans h.channel
  counter hio := hcounter.trans (h.counter hio)

/-- An operation that hands nothing over counts nothing. -/
theorem tally_of_quiet (h : w.counter = number n) (r : Except Error Unit) : Tally n w [] (r, w) :=
  ⟨trivial, rfl, fun _ => h⟩

/-- **A frame takes the next number,** whether it can be written or not. It
counts unless the sink failed, and the last number stays. -/
theorem tally_emit (h : w.counter = number n) (frame : Frame) :
    Tally n w [w.encryption S frame] (w.emit S frame) := by
  have hfirst : Numbered w.channel.key w.channel.base n [w.encryption S frame] :=
    ⟨⟨rfl, by rw [← h]; rfl⟩, trivial⟩
  unfold emit
  dsimp only
  split
  · exact ⟨hfirst, rfl, fun hio => absurd rfl (hio _)⟩
  · split
    · rename_i hlt
      refine ⟨hfirst, rfl, fun _ => ?_⟩
      show w.counter + 1 = number (n + 1)
      unfold number at h ⊢
      omega
    · -- the last number stays
      rename_i hge
      refine ⟨hfirst, rfl, fun _ => ?_⟩
      show w.counter = number (n + 1)
      unfold number at h ⊢
      omega

/-- What waits takes one number, or none if nothing waits. -/
theorem tally_flush (h : w.counter = number n) :
    Tally n w (w.handedByFlush S) (w.flush S) := by
  unfold handedByFlush
  by_cases hpos : 0 < w.waiting.val.size
  · rw [dif_pos hpos, flush_of_pos hpos]
    obtain ⟨hnumbered, hchannel, hcounter⟩ :=
      tally_emit (S := S) (w := w.emptied) h (.data (w.heldChunk hpos))
    exact ⟨hnumbered, hchannel, hcounter⟩
  · rw [dif_neg hpos, flush_of_not_pos hpos]
    exact ⟨trivial, rfl, fun _ => h⟩

/-- The chunks that an input fills take the next numbers, one each. -/
theorem tally_fill (h : w.counter = number n) (input : Bytes) :
    Tally n w (w.handedByFill S input) (w.fill S input) := by
  fun_induction handedByFill S input w generalizing n with
  | case1 input w hfit =>
    rw [fill_of_fit hfit]
    exact ⟨trivial, rfl, fun _ => h⟩
  | case2 input w hfull ih =>
    rw [fill_of_full hfull]
    obtain ⟨hnumbered, hchannel, hcounter⟩ :=
      tally_emit (S := S) (w := w.emptied) h (.data (w.fullChunk input hfull))
    -- a chunk that could not be written ends the list, but it is in it
    rcases hemit : w.emptied.emit S (.data (w.fullChunk input hfull)) with ⟨e | u, w'⟩
    · rw [hemit] at hchannel hcounter
      exact ⟨hnumbered, hchannel, hcounter⟩
    · rw [hemit] at hchannel hcounter
      have hfirst : Tally n w [w.emptied.encryption S (.data (w.fullChunk input hfull))]
          (.ok (), w') := ⟨hnumbered, hchannel, hcounter⟩
      exact hfirst.trans (ih w' (hcounter (by simp)))

/-- A declaration takes one number for its announcement, or none if it is
refused. -/
theorem tally_declare (h : w.counter = number n) (name : String) (size : UInt64) :
    Tally n w (w.handedByDeclare S name size) (w.declare S name size) := by
  cases hstored : EntryName.ofText name with
  | error f =>
    simp only [handedByDeclare, declare, hstored]
    exact tally_of_quiet h _
  | ok stored =>
    cases hcomplete : w.checkComplete with
    | error e =>
      simp only [handedByDeclare, declare, hstored, hcomplete]
      exact tally_of_quiet h _
    | ok u =>
      by_cases hold : name ∈ w.names
      · simp only [handedByDeclare, declare, hstored, hcomplete, if_pos hold]
        exact tally_of_quiet h _
      · simp only [handedByDeclare, declare, hstored, hcomplete, if_neg hold]
        have hemitted := tally_emit (S := S) h (.file stored size)
        rcases hemit : w.emit S (.file stored size) with ⟨e | u, w'⟩
        · rw [hemit] at hemitted
          exact hemitted
        · rw [hemit] at hemitted
          exact hemitted.map rfl rfl

/-- Data take the numbers of the chunks that they fill, and one more if the
last bytes of the entry leave at once. -/
theorem tally_write (h : w.counter = number n) (data : Bytes) :
    Tally n w (w.handedByWrite S data) (w.write S data) := by
  cases hf : w.current with
  | none =>
    simp only [handedByWrite, write, hf]
    exact tally_of_quiet h _
  | some f =>
    by_cases hlong : f.declared.toNat < f.written + data.length
    · simp only [handedByWrite, write, hf, if_pos hlong]
      exact tally_of_quiet h _
    · simp only [handedByWrite, write, hf, if_neg hlong]
      have hfilled := tally_fill (S := S) h data
      rcases hfill : w.fill S data with ⟨e | u, w₁⟩
      · rw [hfill] at hfilled
        rw [List.append_nil]
        exact hfilled
      · rw [hfill] at hfilled
        have hnext := hfilled.counter (by simp)
        by_cases hend : f.written + data.length = f.declared.toNat
        · -- the last bytes of the entry leave at once
          have hboth := hfilled.trans (tally_flush (S := S) hnext)
          simp only [if_pos hend]
          rcases hflush : w₁.flush S with ⟨e | u, w₂⟩
          · rw [hflush] at hboth
            exact hboth
          · rw [hflush] at hboth
            exact hboth.map rfl rfl
        · simp only [if_neg hend, List.append_nil]
          exact hfilled.map rfl rfl

/-- The last frame takes the next number. -/
theorem numbered_close (h : w.counter = number n) :
    Numbered w.channel.key w.channel.base n (w.handedByClose S) := by
  unfold handedByClose
  split
  · trivial
  · exact (tally_emit (S := S) h .finish).numbered

end

end Writer

end Payload

end Lockbox
