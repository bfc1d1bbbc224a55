import Lockbox.Proofs.Framing
import Lockbox.Proofs.Onward
import Lockbox.Proofs.RoundTrip
/-!
# Lockbox — reading within an allowance

A payload may come from anyone, and what it declares costs nothing to
declare. So what reading it costs is bounded by the bytes that are there and
not by what they say. The readers here pay for each frame that they try to
read, out of a number that they are given, and take bytes into a buffer of
limited size only; there is no outcome if the allowance is exceeded. With one
frame for every twenty bytes of the payload, and one more, they come to the
same outcome as those without limits (`Opening.decryptAllWithin_eq`): a frame
that can be read is twenty bytes long at least (`Reader.length_readFrame`), and
after one that cannot, no other is tried.
-/

namespace Lockbox

open Payload

/-- Nothing is inflated beyond the limit. -/
theorem length_inflate_le {limit : Nat} {body plain : Bytes}
    (h : Lockbox.inflate limit body = .ok plain) : plain.length ≤ limit := by
  unfold Lockbox.inflate at h
  split at h
  · split at h
    · rename_i hle
      cases h
      exact hle
    · cases h
  · cases h

/-- A frame that is opened was the authentic form of a plaintext that is its
written form. -/
theorem Channel.openFrame_ok {S : Suite} {channel : Channel} {counter : Nat} {sealed : Bytes}
    {frame : Frame} (h : channel.openFrame S counter sealed = .ok frame) :
    ∃ body plain, S.decrypt? channel.key (nonce channel.base counter)
        (context channel.version channel.flags) sealed = some body ∧
      Unfolds S channel.flags body plain ∧ Frame.decode plain = .ok frame := by
  unfold openFrame at h
  split at h
  · cases h
  · rename_i body hbody
    unfold unpack at h
    dsimp only at h
    split at h
    · cases h
    · rename_i plain hplain
      split at h
      · rename_i hframe
        cases h
        exact ⟨body, plain, hbody, hplain, hframe⟩
      · cases h

namespace Payload.Reader

variable {S : Suite} {r r' r₁ : Reader} {frame : Frame} {info : FileInfo} {sink : Sink}
  {buffer frames left : Nat}

/-! ## Frames

Twenty bytes are four for the length and sixteen for the tag. What is paid
for is told by `Covered`, what is still affordable by `Affords`: a frame
that was read keeps the second, because it adds to the first. -/

/-- Takes bytes into a buffer of this size, if they fit. -/
def takeWithin (buffer n : Nat) (r : Reader) : Option (Except Error Bytes × Reader) :=
  if n ≤ buffer then some (r.take n) else none

/-- Reads a frame by way of such a buffer. -/
def readFrameWithin (S : Suite) (buffer : Nat) (r : Reader) : Option (Except Error Frame × Reader) :=
  match r.takeWithin buffer 4 with
  | none => none
  | some (.error e, r) => some (.error e, r)
  | some (.ok written, r) =>
    let n := Bytes.toNat written
    if n < Aead.tagLength ∨ maxSealedLength < n then some (r.fail (.integrity (.frameLength n)))
    else match r.takeWithin buffer n with
      | none => none
      | some (.error e, r) => some (.error e, r)
      | some (.ok sealed, r) =>
        match r.channel.openFrame S r.counter sealed with
        | .error f => some (r.fail (.integrity f))
        | .ok frame => some (.ok frame, { r with counter := r.counter + 1 })

/-- **A buffer for the longest encrypted frame is enough.** -/
theorem readFrameWithin_eq (S : Suite) (r : Reader) :
    r.readFrameWithin S maxSealedLength = some (r.readFrame S) := by
  unfold readFrameWithin readFrame takeWithin
  rw [if_pos (by decide)]
  rcases r.take 4 with ⟨e | written, r₁⟩
  · rfl
  · dsimp only
    split
    · rfl
    · rw [if_pos (by omega)]
      rcases r₁.take (Bytes.toNat written) with ⟨e | sealed, r₂⟩
      · rfl
      · dsimp only
        cases r₂.channel.openFrame S r₂.counter sealed with
        | error f => rfl
        | ok frame => rfl

/-- **A frame that is read takes twenty bytes at least** from the source. -/
theorem length_readFrame (h : r.readFrame S = (.ok frame, r')) :
    r'.source.contents.length + 20 ≤ r.source.contents.length := by
  obtain ⟨length, sealed, hcontents, hfour, -, -, -, -, hlong, -⟩ := readFrame_taken h
  have htag : Aead.tagLength = 16 := rfl
  rw [hcontents, List.length_append, List.length_append]
  omega

/-- From the one reader to the other frames were paid for, and each with
twenty bytes of the source. -/
structure Covered (frames left : Nat) (r r' : Reader) : Prop where
  le : left ≤ frames
  bytes : r'.source.contents.length + 20 * frames ≤ r.source.contents.length + 20 * left

theorem Covered.refl (frames : Nat) (r : Reader) : Covered frames frames r r :=
  ⟨Nat.le_refl _, Nat.le_refl _⟩

/-- Two stretches are paid for one after the other. -/
theorem Covered.trans {n : Nat} (h : Covered frames n r r₁) (h' : Covered n left r₁ r') :
    Covered frames left r r' where
  le := Nat.le_trans h'.le h.le
  bytes := by
    have hfirst := h.bytes
    have hsecond := h'.bytes
    omega

/-- What is done without the source costs nothing. -/
theorem Covered.of_source_eq (h : Covered frames left r r₁) (hsource : r'.source = r₁.source) :
    Covered frames left r r' where
  le := h.le
  bytes := by
    rw [hsource]
    exact h.bytes

/-- **A frame pays for itself:** its length and its tag are 20 bytes of the
source. -/
theorem covered_readFrame (h : r.readFrame S = (.ok frame, r')) (left : Nat) :
    Covered (left + 1) left r r' where
  le := Nat.le_succ left
  bytes := by
    have hlength := length_readFrame h
    omega

/-- There are frames enough for the source: more than its bytes can be. -/
def Affords (frames : Nat) (r : Reader) : Prop := r.source.contents.length < 20 * frames

/-- A source pays for at least one attempt. -/
theorem Affords.pos (h : Affords frames r) : ∃ left, frames = left + 1 :=
  Nat.exists_eq_succ_of_ne_zero fun hzero => by
    rw [Affords, hzero] at h
    exact absurd h (by omega)

/-- What is left pays for the rest. -/
theorem Affords.covered (h : Affords frames r) (hcovered : Covered frames left r r') :
    Affords left r' := by
  have hbytes := hcovered.bytes
  unfold Affords at h ⊢
  omega

/-! ## The next entry

The readers with an allowance share the code that deals with a frame
(`heed`, `receive`) with the ones without, once that is split from the
reading of it. -/

/-- What is made of the frame after an entry. -/
def heed (frame : Frame) (r : Reader) : Except Error (Option FileInfo) × Reader :=
  match frame with
  | .file name size =>
    (.ok (some ⟨name.val, size⟩), { r with cursor := .pending ⟨name.val, size⟩ size.toNat })
  | .finish =>
    match r.checkTrailing with
    | (.error e, r) => (.error e, r)
    | (.ok (), r) => (.ok none, { r with cursor := .ended })
  | .data _ => r.fail (.integrity .strayData)

/-- To go on is to read a frame and to heed it. -/
theorem advance_eq (S : Suite) (r : Reader) :
    r.advance S = match r.readFrame S with
      | (.error e, r) => (.error e, r)
      | (.ok frame, r) => r.heed frame := by
  unfold advance
  rcases r.readFrame S with ⟨e | frame, r₁⟩
  · rfl
  · cases frame with
    | file name size => rfl
    | data chunk => rfl
    | finish => rfl

/-- Pays for a frame, and reads it as the one after an entry. -/
def advanceWithin (S : Suite) (buffer frames : Nat) (r : Reader) :
    Option ((Except Error (Option FileInfo) × Reader) × Nat) :=
  match frames with
  | 0 => none
  | left + 1 =>
    match r.readFrameWithin S buffer with
    | none => none
    | some (.error e, r) => some ((.error e, r), left)
    | some (.ok frame, r) => some (r.heed frame, left)

/-- Goes on to the next entry, and pays for the frame if one is read. -/
def nextWithin (S : Suite) (buffer frames : Nat) (r : Reader) :
    Option ((Except Error (Option FileInfo) × Reader) × Nat) :=
  if r.failed then some ((.error (.integrity .alreadyFailed), r), frames)
  else match r.cursor with
    | .ended => some ((.ok none, r), frames)
    | .pending info (n + 1) => some ((.error (.sequence (.unread info.name (n + 1))), r), frames)
    | .start | .pending _ 0 | .consumed => r.advanceWithin S buffer frames

theorem heed_announced (h : r.heed frame = (.ok (some info), r')) :
    r'.source = r.source := by
  unfold heed at h
  split at h
  · cases h
    rfl
  · split at h
    · cases h
    · cases h
  · cases h

/-- **Going on within what the source pays for** is going on: the allowance for
one frame is there, and if an entry was announced, the frame was paid for. -/
theorem advanceWithin_eq (h : Affords frames r) :
    ∃ left, r.advanceWithin S maxSealedLength frames = some (r.advance S, left) ∧
      ∀ info r', r.advance S = (.ok (some info), r') →
        Covered frames left r r' ∧ r'.source.contents.length + 20 ≤ r.source.contents.length := by
  obtain ⟨left, rfl⟩ := h.pos
  refine ⟨left, ?_⟩
  rw [advance_eq]
  simp only [advanceWithin, readFrameWithin_eq]
  rcases hread : r.readFrame S with ⟨e | frame, r₁⟩
  · exact ⟨rfl, fun info r' hnext => by cases hnext⟩
  · refine ⟨rfl, fun info r' hnext => ?_⟩
    have hsource := heed_announced hnext
    refine ⟨(covered_readFrame hread left).of_source_eq hsource, ?_⟩
    rw [hsource]
    exact length_readFrame hread

/-- **The next entry costs a frame at most,** and its frame has twenty bytes. -/
theorem nextWithin_eq (h : Affords frames r) :
    ∃ left, r.nextWithin S maxSealedLength frames = some (r.next S, left) ∧
      ∀ info r', r.next S = (.ok (some info), r') →
        Covered frames left r r' ∧ r'.source.contents.length + 20 ≤ r.source.contents.length := by
  have hadvance := advanceWithin_eq (S := S) h
  by_cases hf : r.failed = true
  · rw [nextWithin, next, if_pos hf, if_pos hf]
    exact ⟨frames, rfl, fun info r' hnext => by cases hnext⟩
  rw [nextWithin, next, if_neg hf, if_neg hf]
  cases r.cursor with
  | start => exact hadvance
  | consumed => exact hadvance
  | ended => exact ⟨frames, rfl, fun info r' hnext => by cases hnext⟩
  | pending info remaining =>
    cases remaining with
    | zero => exact hadvance
    | succ n => exact ⟨frames, rfl, fun info r' hnext => by cases hnext⟩

/-! ## The data of an entry

The recursion of `pourWithin` is on its allowance, that of `pour` on what is
left of the entry. The induction follows the first; as long as the source
affords a frame, the two take the same turns. -/

/-- What is made of a frame where data of an entry are due: there is an
outcome, or so much is left, and there is a next turn. -/
def receive (info : FileInfo) (remaining : Nat) (frame : Frame) (r : Reader) (sink : Sink) :
    (Except Error Unit × Reader × Sink) ⊕ (Nat × Reader × Sink) :=
  match frame with
  | .data chunk =>
    if remaining < chunk.val.length then
      let (result, r) := r.fail (.integrity .excessData)
      .inl (result, r, sink)
    else
      match sink.write chunk.val with
      | (.error e, sink) => .inl (.error (.io e), r, sink)
      | (.ok (), sink) =>
        let left := remaining - chunk.val.length
        .inr (left, { r with cursor := .pending info left }, sink)
  | _ =>
    let (result, r) := r.fail (.integrity .shortEntry)
    .inl (result, r, sink)

theorem pour_eq {remaining : Nat} (h : remaining ≠ 0) (S : Suite) (info : FileInfo) (r : Reader)
    (sink : Sink) :
    pour S info remaining r sink = match r.readFrame S with
      | (.error e, r) => (.error e, r, sink)
      | (.ok frame, r) =>
        match receive info remaining frame r sink with
        | .inl outcome => outcome
        | .inr (left, r, sink) => pour S info left r sink := by
  rw [pour, if_neg h]
  rcases r.readFrame S with ⟨e | frame, r₁⟩
  · rfl
  · cases frame with
    | file name size => rfl
    | finish => rfl
    | data chunk =>
      unfold receive
      dsimp only
      split
      · rfl
      · rcases sink.write chunk.val with ⟨e | u, sink₁⟩
        · rfl
        · rfl

/-- **A turn that goes on has less to go,** by the data that it passed on. -/
theorem receive_goes_on {remaining rest : Nat} {sink' : Sink}
    (h : receive info remaining frame r sink = .inr (rest, r', sink')) :
    rest < remaining ∧ r'.source = r.source ∧
      ∃ chunk, frame = .data chunk ∧ rest + chunk.val.length = remaining := by
  unfold receive at h
  split at h
  · rename_i chunk
    have hpos := chunk.property.1
    split at h
    · cases h
    · rename_i hfit
      split at h
      · cases h
      · cases h
        exact ⟨by omega, rfl, chunk, rfl, by omega⟩
  · cases h

/-- Passes the data that is left of an entry on to a sink, and pays for each
frame. -/
def pourWithin (S : Suite) (buffer : Nat) (info : FileInfo) :
    (frames remaining : Nat) → Reader → Sink →
      Option ((Except Error Unit × Reader × Sink) × Nat)
  | 0, remaining, r, sink => if remaining = 0 then some ((.ok (), r, sink), 0) else none
  | left + 1, remaining, r, sink =>
    if remaining = 0 then some ((.ok (), r, sink), left + 1)
    else match r.readFrameWithin S buffer with
      | none => none
      | some (.error e, r) => some ((.error e, r, sink), left)
      | some (.ok frame, r) =>
        match receive info remaining frame r sink with
        | .inl outcome => some (outcome, left)
        | .inr (rest, r, sink) => pourWithin S buffer info left rest r sink

/-- A frame that ends the pouring early has not brought the entry to its end.
-/
theorem receive_not_ok {remaining : Nat} {outcome : Except Error Unit × Reader × Sink}
    (h : receive info remaining frame r sink = .inl outcome) : outcome.1 ≠ .ok () := by
  unfold receive at h
  split at h
  · split at h
    · cases h
      simp
    · split at h
      · cases h
        simp
      · cases h
  · cases h
    simp

/-- **Data cost no more frames than the source has bytes for.** -/
theorem pourWithin_eq (h : Affords frames r) (info : FileInfo) (remaining : Nat) (sink : Sink) :
    ∃ left, pourWithin S maxSealedLength info frames remaining r sink
        = some (pour S info remaining r sink, left) ∧
      ((pour S info remaining r sink).1 = .ok () →
        Covered frames left r (pour S info remaining r sink).2.1) := by
  -- on the frames that are paid for
  induction frames generalizing remaining r sink with
  | zero =>
    obtain ⟨left, hleft⟩ := h.pos
    exact absurd hleft (by omega)
  | succ frames ih =>
    rw [pourWithin]
    by_cases hzero : remaining = 0
    · subst hzero
      refine ⟨frames + 1, ?_, fun _ => ?_⟩
      · rw [if_pos rfl, pour, if_pos rfl]
      · rw [pour, if_pos rfl]
        exact .refl _ _
    · rw [if_neg hzero, readFrameWithin_eq, pour_eq hzero]
      rcases hread : r.readFrame S with ⟨e | frame, r₁⟩
      · exact ⟨frames, rfl, fun hok => by cases hok⟩
      · dsimp only
        rcases hreceive : receive info remaining frame r₁ sink with outcome | ⟨rest, r₂, sink₂⟩
        · exact ⟨frames, rfl, fun hok => absurd hok (receive_not_ok hreceive)⟩
        · obtain ⟨-, hsource, -⟩ := receive_goes_on hreceive
          have hstep : Covered (frames + 1) frames r r₂ :=
            (covered_readFrame hread frames).of_source_eq hsource
          obtain ⟨left, hrest, hleft⟩ := ih (h.covered hstep) rest sink₂
          exact ⟨left, hrest, fun hok => hstep.trans (hleft hok)⟩

/-- Passes the data of the current entry on to a sink, and pays for each
frame. -/
def readIntoWithin (S : Suite) (buffer frames : Nat) (r : Reader) (sink : Sink) :
    Option ((Except Error UInt64 × Reader × Sink) × Nat) :=
  if r.failed then some ((.error (.integrity .alreadyFailed), r, sink), frames)
  else match r.cursor with
    | .start => some ((.error (.sequence .noEntry), r, sink), frames)
    | .consumed => some ((.error (.sequence .alreadyRead), r, sink), frames)
    | .ended => some ((.error (.sequence .ended), r, sink), frames)
    | .pending info remaining =>
      if remaining ≠ info.size.toNat then
        some ((.error (.sequence .alreadyRead), r, sink), frames)
      else match pourWithin S buffer info frames remaining r sink with
        | none => none
        | some ((.error e, r, sink), left) => some ((.error e, r, sink), left)
        | some ((.ok (), r, sink), left) =>
          match sink.flush with
          | .error e => some ((.error (.io e), r, sink), left)
          | .ok () => some ((.ok info.size, { r with cursor := .consumed }, sink), left)

/-- **Reading an entry within what the source pays for** is reading it. -/
theorem readIntoWithin_eq (h : Affords frames r) (sink : Sink) :
    ∃ left, r.readIntoWithin S maxSealedLength frames sink = some (r.readInto S sink, left) ∧
      ∀ size r' sink', r.readInto S sink = (.ok size, r', sink') → Covered frames left r r' := by
  have hrefused : ∀ e : Error, ∃ left,
      some (((.error e, r, sink) : Except Error UInt64 × Reader × Sink), frames)
          = some ((.error e, r, sink), left) ∧
        ∀ size r' sink', ((.error e, r, sink) : Except Error UInt64 × Reader × Sink)
          = (.ok size, r', sink') → Covered frames left r r' :=
    fun e => ⟨frames, rfl, fun size r' sink' hread => by cases hread⟩
  by_cases hf : r.failed = true
  · rw [readIntoWithin, readInto, if_pos hf, if_pos hf]
    exact hrefused _
  rw [readIntoWithin, readInto, if_neg hf, if_neg hf]
  cases r.cursor with
  | start => exact hrefused _
  | consumed => exact hrefused _
  | ended => exact hrefused _
  | pending info remaining =>
    dsimp only
    by_cases hfirst : remaining = info.size.toNat
    · rw [if_neg (not_not_intro hfirst), if_neg (not_not_intro hfirst)]
      obtain ⟨left, hpour, hcovered⟩ := pourWithin_eq (S := S) h info remaining sink
      rw [hpour]
      generalize pour S info remaining r sink = poured at hcovered ⊢
      obtain ⟨e | u, r₁, sink₁⟩ := poured
      · exact ⟨left, rfl, fun size r' sink' hread => by cases hread⟩
      · dsimp only
        cases sink₁.flush with
        | error e => exact ⟨left, rfl, fun size r' sink' hread => by cases hread⟩
        | ok u =>
          refine ⟨left, rfl, fun size r' sink' hread => ?_⟩
          cases hread
          exact (hcovered rfl).of_source_eq rfl
    · rw [if_pos hfirst, if_pos hfirst]
      exact hrefused _

end Payload.Reader

namespace Opening

variable {σ γ : Type} {S : Suite} {k : Consumer γ}

/-! ## All entries

Each entry is announced by a frame, so there are no more entries than
frames, and the same number bounds both. -/

/-- Passes all entries that are left on to a consumer, so many of them at most,
and pays for each frame. -/
def drainWithin (S : Suite) (consumer : Consumer γ) (buffer : Nat) :
    (entries frames count : Nat) → Reader → γ → Option (Except Error Nat × Reader × γ)
  | 0, _, _, _, _ => none
  | entries + 1, frames, count, r, c =>
    match r.nextWithin S buffer frames with
    | none => none
    | some ((.error e, r), _) => some (.error e, r, c)
    | some ((.ok none, r), _) => some (.ok count, r, c)
    | some ((.ok (some info), r), frames) =>
      match consumer.openEntry info c with
      | (.error e, c) => some (.error (.io e), r, c)
      | (.ok sink, c) =>
        match r.readIntoWithin S buffer frames sink with
        | none => none
        | some ((.error e, r, sink), _) => some (.error e, r, consumer.abortEntry info sink c)
        | some ((.ok _, r, sink), frames) =>
          match consumer.closeEntry info sink c with
          | (.error e, c) => some (.error (.io e), r, c)
          | (.ok (), c) => drainWithin S consumer buffer entries frames (count + 1) r c

/-- **Entries cost no more frames than the source has bytes for,** and there
are no more of them than frames. -/
theorem drainWithin_eq {entries frames : Nat} {r : Reader} (hentries : r.Affords entries)
    (hframes : r.Affords frames) (count : Nat) (c : γ) :
    drainWithin S k maxSealedLength entries frames count r c = some (drain S k count r c) := by
  induction entries generalizing frames count r c with
  | zero =>
    obtain ⟨left, hleft⟩ := hentries.pos
    exact absurd hleft (by omega)
  | succ entries ih =>
    obtain ⟨left, hnext, hcovered⟩ := Reader.nextWithin_eq (S := S) hframes
    rw [drainWithin, hnext]
    rcases hread : r.next S with ⟨e | announced, r₁⟩
    · rw [drain_error count hread]
    cases announced with
    | none => rw [drain_none count hread]
    | some info =>
      obtain ⟨hpaid, hlength⟩ := hcovered info r₁ hread
      dsimp only
      rcases hopen : k.openEntry info c with ⟨e | sink, c₁⟩
      · rw [drain_unopened count hread hopen]
      obtain ⟨left', hinto, hcovered'⟩ :=
        Reader.readIntoWithin_eq (S := S) (hframes.covered hpaid) sink
      rw [drain_some count hread hopen]
      dsimp only
      rw [hinto]
      rcases hdata : r₁.readInto S sink with ⟨e | size, r₂, filled⟩
      · rfl
      dsimp only
      rcases k.closeEntry info filled c₁ with ⟨e | u, c₂⟩
      · rfl
      -- the announcement alone had twenty bytes, so one entry less is enough for the rest
      have hmore := (hframes.covered hpaid).covered (hcovered' size r₂ filled hdata)
      have hless := (r₁.onward_readInto S sink).1.contents.length_le
      rw [hdata] at hless
      have hfewer : r₂.Affords entries := by
        unfold Reader.Affords at hentries ⊢
        dsimp only at hless
        omega
      exact ih hfewer hmore (count + 1) c₂

/-- Passes all entries on to a consumer and ends the session, within an
allowance of frames, which limits the entries too, and of a buffer for each. -/
def decryptAllWithin (buffer frames : Nat) (fmk : Fmk) (consumer : Consumer γ) (s : Opening σ)
    (c : γ) : Option (Except Error Nat × Opening σ × γ) :=
  match s.begin fmk with
  | (.error e, s) => some (.error e, s, c)
  | (.ok (), s) =>
    match s.stage with
    | .decrypting key payload =>
      match drainWithin s.smith.suite consumer buffer frames frames 0 payload c with
      | none => none
      | some (drained, payload, c) =>
        let (finished, s) := { s with stage := .decrypting key payload }.finish
        some (drained.bind fun count => finished.map fun () => count, s, c)
    | _ => some (.error (s.refuse .nextFile), s, c)

/-- **A frame for every twenty bytes of the payload, and one more, are enough**
to decrypt everything. -/
theorem decryptAllWithin_eq {s : Opening σ} {source : Source}
    (hstage : s.stage.untouched? = some source) (fmk : Fmk) (c : γ) :
    s.decryptAllWithin maxSealedLength (source.contents.length / 20 + 1) fmk k c
      = some (s.decryptAll fmk k c) := by
  unfold decryptAllWithin decryptAll
  rcases hbegin : s.begin fmk with ⟨e | u, s₁⟩
  · rfl
  obtain ⟨source', hstage', -, rfl⟩ := begin_ok hbegin
  obtain rfl : source' = source := Option.some.inj (hstage'.symm.trans hstage)
  have haffords : (Reader.create source' (s.channel fmk) s.lenient).Affords
      (source'.contents.length / 20 + 1) := by
    show source'.contents.length < 20 * (source'.contents.length / 20 + 1)
    omega
  dsimp only
  rw [drainWithin_eq haffords haffords]

end Opening

/-- **Decrypting comes to an end within its allowance,** whatever the payload is.
For every session in front of a payload, whatever bytes its source delivers,
whatever they declare and however often the source is interrupted, and for
every consumer:

* decrypting everything with a frame for every twenty bytes of the payload and
  one more, and with a buffer of 66586 bytes for each, comes to the same as
  decrypting it without limits;
* no frame is taken into a larger buffer;
* a frame that is read takes twenty bytes at least from the source, and is the
  written form of a plaintext of 65546 bytes at most, as authenticated and, if
  the payload is compressed, inflated;
* a turn of reading data that goes on has less to go, and just by the data that
  it passed on;
* inflating gives 65546 bytes at most. -/
theorem hostile_payload_within_allowance {σ γ : Type} {s : Opening σ} {source : Source}
    (hstage : s.stage.untouched? = some source) (fmk : Fmk) (k : Consumer γ) (c : γ) :
    s.decryptAllWithin 66586 (source.contents.length / 20 + 1) fmk k c
      = some (s.decryptAll fmk k c) ∧
    (∀ (S : Suite) (r : Reader), r.readFrameWithin S 66586 = some (r.readFrame S)) ∧
    (∀ (S : Suite) (r r' : Reader) (frame : Frame), r.readFrame S = (.ok frame, r') →
      r'.source.contents.length + 20 ≤ r.source.contents.length ∧
      ∃ length sealed body plain, r.source.contents = length ++ sealed ++ r'.source.contents ∧
        sealed.length ≤ 66586 ∧
        S.decrypt? r.channel.key (Channel.nonce r.channel.base r.counter)
          (Channel.context r.channel.version r.channel.flags) sealed = some body ∧
        Channel.Unfolds S r.channel.flags body plain ∧ Frame.decode plain = .ok frame ∧
        plain.length ≤ 65546) ∧
    (∀ (S : Suite) (info : FileInfo) (remaining : Nat) (r r₁ r₂ : Reader) (sink sink₂ : Sink)
        (frame : Frame) (rest : Nat), remaining ≠ 0 → r.readFrame S = (.ok frame, r₁) →
      Reader.receive info remaining frame r₁ sink = .inr (rest, r₂, sink₂) →
      Reader.pour S info remaining r sink = Reader.pour S info rest r₂ sink₂ ∧
        rest < remaining ∧ ∃ chunk, frame = .data chunk ∧ rest + chunk.val.length = remaining) ∧
    ∀ body plain, Suite.standard.inflate Frame.maxLength body = .ok plain → plain.length ≤ 65546 := by
  refine ⟨Opening.decryptAllWithin_eq hstage fmk c, Reader.readFrameWithin_eq,
    fun S r r' frame hread => ⟨Reader.length_readFrame hread, ?_⟩, ?_, fun body plain =>
    length_inflate_le⟩
  · obtain ⟨length, sealed, hcontents, -, -, hopen, -, -, -, hshort⟩ := Reader.readFrame_taken hread
    obtain ⟨body, plain, hbody, hplain, hdecode⟩ := Channel.openFrame_ok hopen
    have hlength := Frame.length_encode_le frame
    rw [← Frame.decode_eq_ok_iff.mp hdecode] at hlength
    exact ⟨length, sealed, body, plain, hcontents, hshort, hbody, hplain, hdecode, hlength⟩
  · intro S info remaining r r₁ r₂ sink sink₂ frame rest hne hread hreceive
    obtain ⟨hless, -, hchunk⟩ := Reader.receive_goes_on hreceive
    refine ⟨?_, hless, hchunk⟩
    rw [Reader.pour_eq hne, hread]
    dsimp only
    rw [hreceive]

/-- Two sealed entries are decrypted within the allowance of their payload. -/
theorem twoEntries_within_allowance :
    ∃ (run : SealedRun Unit) (s s' : Opening Unit) (source : Source), run.entries = twoEntries ∧
      Opening.create (.plain [1]) false (.ofBytes run.container) = .ok s ∧
      s.stage.untouched? = some source ∧
      s.decryptAllWithin 66586 (source.contents.length / 20 + 1) run.fmk .memory []
        = some (.ok 2, s', twoEntries) := by
  obtain ⟨run, s, source, r, hentries, hcreate, hstage, -, hwhole⟩ :=
    SealedRun.exists_twoEntries_decrypted
  obtain ⟨hwithin, -⟩ := hostile_payload_within_allowance hstage run.fmk .memory []
  rw [hwhole] at hwithin
  exact ⟨run, s, _, source, hentries, hcreate, hstage, hwithin⟩

end Lockbox
