import Lockbox.Payload.Channel
/-!
# Lockbox — reading a payload

The reading end goes through the frames once, forward only. Entries are
announced one after the other, and the data of an announced entry can be
had once. Nothing leaves the reader that did not come from an authentic
frame. Once the payload turned out not to be what was written, or its
source failed, the reader has failed and stays so.
-/

namespace Lockbox

namespace Payload

/-- Where a reader stands. -/
inductive Cursor where
  /-- Before the first entry. -/
  | start
  /-- In an entry of whose data so much is left. -/
  | pending (info : FileInfo) (remaining : Nat)
  /-- After the data of an entry. -/
  | consumed
  /-- After the last frame. -/
  | ended
  deriving DecidableEq

/-- The reading end of a payload. -/
structure Reader where
  source : Source
  channel : Channel
  counter : Nat
  cursor : Cursor
  allowTrailing : Bool
  failed : Bool

namespace Reader

/-- A reader before the first frame. -/
def create (source : Source) (channel : Channel) (allowTrailing : Bool) : Reader :=
  ⟨source, channel, 0, .start, allowTrailing, false⟩

/-- The last frame has been read. -/
def isFinished (r : Reader) : Bool :=
  match r.cursor with
  | .ended => true
  | _ => false

/-- Fails for good. -/
def fail {α : Type} (r : Reader) (e : Error) : Except Error α × Reader :=
  (.error e, { r with failed := true })

/-- The next `n` bytes of the source. -/
def take (n : Nat) (r : Reader) : Except Error Bytes × Reader :=
  match r.source.takeExactly n with
  | (.got b, source) => (.ok b, { r with source })
  | (.ended, source) => { r with source }.fail (.integrity .truncated)
  | (.failed e, source) => { r with source }.fail (.io e)

/-- The next frame. -/
def readFrame (S : Suite) (r : Reader) : Except Error Frame × Reader :=
  match r.take 4 with
  | (.error e, r) => (.error e, r)
  | (.ok written, r) =>
    let n := Bytes.toNat written
    if n < Aead.tagLength ∨ maxSealedLength < n then r.fail (.integrity (.frameLength n))
    else match r.take n with
      | (.error e, r) => (.error e, r)
      | (.ok sealed, r) =>
        match r.channel.openFrame S r.counter sealed with
        | .error f => r.fail (.integrity f)
        | .ok frame => (.ok frame, { r with counter := r.counter + 1 })

/-- Nothing may follow the last frame, unless that is allowed. -/
def checkTrailing (r : Reader) : Except Error Unit × Reader :=
  match r.source.read 1 with
  | (.ended, source) => (.ok (), { r with source })
  | (.failed e, source) => { r with source }.fail (.io e)
  | (.got _, source) =>
    if r.allowTrailing then (.ok (), { r with source })
    else { r with source }.fail (.integrity .trailing)

/-- Reads the frame after an entry: the next entry, or the end. -/
def advance (S : Suite) (r : Reader) : Except Error (Option FileInfo) × Reader :=
  match r.readFrame S with
  | (.error e, r) => (.error e, r)
  | (.ok (.file name size), r) =>
    (.ok (some ⟨name.val, size⟩), { r with cursor := .pending ⟨name.val, size⟩ size.toNat })
  | (.ok .finish, r) =>
    match r.checkTrailing with
    | (.error e, r) => (.error e, r)
    | (.ok (), r) => (.ok none, { r with cursor := .ended })
  | (.ok (.data _), r) => r.fail (.integrity .strayData)

/-- Goes on to the next entry; there is none after the last frame. -/
def next (S : Suite) (r : Reader) : Except Error (Option FileInfo) × Reader :=
  if r.failed then (.error (.integrity .alreadyFailed), r)
  else match r.cursor with
    | .ended => (.ok none, r)
    | .pending info (n + 1) => (.error (.sequence (.unread info.name (n + 1))), r)
    | .start | .pending _ 0 | .consumed => r.advance S

/-- Passes the data that is left of an entry on to a sink. A failure of the
sink is no failure of the reader. -/
def pour (S : Suite) (info : FileInfo) (remaining : Nat) (r : Reader) (sink : Sink) :
    Except Error Unit × Reader × Sink :=
  if remaining = 0 then (.ok (), r, sink)
  else match r.readFrame S with
    | (.error e, r) => (.error e, r, sink)
    | (.ok (.data chunk), r) =>
      if remaining < chunk.val.length then
        let (result, r) := r.fail (.integrity .excessData)
        (result, r, sink)
      else
        match sink.write chunk.val with
        | (.error e, sink) => (.error (.io e), r, sink)
        | (.ok (), sink) =>
          let left := remaining - chunk.val.length
          pour S info left { r with cursor := .pending info left } sink
    | (.ok _, r) =>
      let (result, r) := r.fail (.integrity .shortEntry)
      (result, r, sink)
termination_by remaining
decreasing_by
  have := chunk.property.1
  omega

/-- Passes the data of the current entry on to a sink and gives its size. -/
def readInto (S : Suite) (r : Reader) (sink : Sink) : Except Error UInt64 × Reader × Sink :=
  if r.failed then (.error (.integrity .alreadyFailed), r, sink)
  else match r.cursor with
    | .start => (.error (.sequence .noEntry), r, sink)
    | .consumed => (.error (.sequence .alreadyRead), r, sink)
    | .ended => (.error (.sequence .ended), r, sink)
    | .pending info remaining =>
      if remaining ≠ info.size.toNat then (.error (.sequence .alreadyRead), r, sink)
      else match pour S info remaining r sink with
        | (.error e, r, sink) => (.error e, r, sink)
        | (.ok (), r, sink) =>
          match sink.flush with
          | .error e => (.error (.io e), r, sink)
          | .ok () => (.ok info.size, { r with cursor := .consumed }, sink)

/-- An entry was read if its data came and its sink could then be flushed. -/
theorem flush_of_readInto {S : Suite} {r r' : Reader} {sink sink' : Sink} {size : UInt64}
    (h : r.readInto S sink = (.ok size, r', sink')) : sink'.flush = .ok () := by
  unfold readInto at h
  split at h
  · cases h
  · split at h
    · cases h
    · cases h
    · cases h
    · split at h
      · cases h
      · split at h
        · cases h
        · split at h
          · cases h
          · rename_i hflush
            cases h
            exact hflush

/-! ## Reading uses up the source -/

/-- Reading makes the source lighter, which is why reading on ends. -/
theorem weight_take_le (n : Nat) (r : Reader) : (r.take n).2.source.weight ≤ r.source.weight := by
  have h := Source.weight_takeInto_le .empty n r.source
  rw [← Source.takeExactly] at h
  unfold take
  split <;> simp_all [fail]

/-- What is taken is missing afterwards. -/
theorem weight_take_lt {n : Nat} {r r' : Reader} {b : Bytes} (hn : 0 < n)
    (h : r.take n = (.ok b, r')) : r'.source.weight < r.source.weight := by
  unfold take at h
  split at h
  · rename_i c source hc
    obtain ⟨-, rfl⟩ := Prod.mk.inj h
    exact Source.weight_takeInto_lt hn hc
  · exact absurd (Prod.mk.inj h).1 (by simp)
  · exact absurd (Prod.mk.inj h).1 (by simp)

/-- A frame that fails may have taken nothing. -/
theorem weight_readFrame_le (S : Suite) (r : Reader) :
    (r.readFrame S).2.source.weight ≤ r.source.weight := by
  have h₁ := weight_take_le 4 r
  unfold readFrame
  split
  · simp_all
  · rename_i written r₁ hr₁
    rw [hr₁] at h₁
    dsimp only
    split
    · exact h₁
    · have h₂ := weight_take_le (Bytes.toNat written) r₁
      split
      · rename_i hr₂
        rw [hr₂] at h₂
        exact Nat.le_trans h₂ h₁
      · rename_i sealed r₂ hr₂
        rw [hr₂] at h₂
        split <;> exact Nat.le_trans h₂ h₁

/-- A frame that was read has left less to read. -/
theorem weight_readFrame_lt {S : Suite} {r r' : Reader} {f : Frame}
    (h : r.readFrame S = (.ok f, r')) : r'.source.weight < r.source.weight := by
  unfold readFrame at h
  split at h
  · exact absurd (Prod.mk.inj h).1 (by simp)
  · rename_i written r₁ hr₁
    have h₁ := weight_take_lt (by decide) hr₁
    dsimp only at h
    split at h
    · exact absurd (Prod.mk.inj h).1 (by simp)
    · have h₂ := weight_take_le (Bytes.toNat written) r₁
      split at h
      · exact absurd (Prod.mk.inj h).1 (by simp)
      · rename_i sealed r₂ hr₂
        rw [hr₂] at h₂
        split at h
        · exact absurd (Prod.mk.inj h).1 (by simp)
        · obtain ⟨-, rfl⟩ := Prod.mk.inj h
          exact Nat.lt_of_le_of_lt h₂ h₁

/-- **An entry that is announced has taken its frame off the source.** -/
theorem weight_advance_lt {S : Suite} {r r' : Reader} {info : FileInfo}
    (h : r.advance S = (.ok (some info), r')) : r'.source.weight < r.source.weight := by
  unfold advance at h
  split at h
  · exact absurd (Prod.mk.inj h).1 (by simp)
  · rename_i hf
    have := weight_readFrame_lt hf
    obtain ⟨-, rfl⟩ := Prod.mk.inj h
    exact this
  · split at h <;> exact absurd (Prod.mk.inj h).1 (by simp)
  · exact absurd (Prod.mk.inj h).1 (by simp)

/-- An entry that was announced has left less to read. -/
theorem weight_next_lt {S : Suite} {r r' : Reader} {info : FileInfo}
    (h : r.next S = (.ok (some info), r')) : r'.source.weight < r.source.weight := by
  unfold next at h
  split at h
  · exact absurd (Prod.mk.inj h).1 (by simp)
  · split at h
    · exact absurd (Prod.mk.inj h).1 (by simp)
    · exact absurd (Prod.mk.inj h).1 (by simp)
    all_goals exact weight_advance_lt h

/-- Its data may be none. -/
theorem weight_pour_le (S : Suite) (info : FileInfo) (remaining : Nat) (r : Reader) (sink : Sink) :
    (pour S info remaining r sink).2.1.source.weight ≤ r.source.weight := by
  have hframe := fun r => weight_readFrame_le S r
  fun_induction pour S info remaining r sink with
  | case1 => exact Nat.le_refl _
  | case2 remaining r sink _ e r' hr => have := hframe r; rw [hr] at this; exact this
  | case3 remaining r sink _ chunk r' hr _ result r'' hfail =>
    have := hframe r
    rw [hr] at this
    obtain ⟨-, rfl⟩ := Prod.mk.inj hfail
    exact this
  | case4 remaining r sink _ chunk r' hr _ e sink' hw =>
    have := hframe r
    rw [hr] at this
    exact this
  | case5 remaining r sink _ chunk r' hr _ sink' hw left ih =>
    have := hframe r
    rw [hr] at this
    exact Nat.le_trans ih this
  | case6 remaining r sink _ f r' hne hr result r'' hfail =>
    have := hframe r
    rw [hr] at this
    obtain ⟨-, rfl⟩ := Prod.mk.inj hfail
    exact this

/-- So the source does not get heavier over an entry. -/
theorem weight_readInto_le (S : Suite) (r : Reader) (sink : Sink) :
    (r.readInto S sink).2.1.source.weight ≤ r.source.weight := by
  unfold readInto
  split
  · exact Nat.le_refl _
  · split
    · exact Nat.le_refl _
    · exact Nat.le_refl _
    · exact Nat.le_refl _
    · rename_i info remaining _
      split
      · exact Nat.le_refl _
      · have := weight_pour_le S info remaining r sink
        split
        · rename_i hp
          rw [hp] at this
          exact this
        · rename_i hp
          rw [hp] at this
          split <;> exact this

end Reader

end Payload

end Lockbox
