import Lockbox.Proofs.Delivery
import Lockbox.Proofs.Extraction
import Lockbox.Proofs.Forward
/-!
# Lockbox — a reader that failed has stopped

Reading a payload can go wrong by what the frames are and by what the source
does. Whichever it is and wherever it happens, the reader takes note of it
in the same call (`Reader.Stops`): from then on it answers every call that it
has failed, looks at its source no more and writes to no sink, and the
session around it does not end as fully decrypted.

Up to there, what a sink is offered are the data of frames that were
authentic each in its place (`Reader.Along`), and of no more of them than
were declared.

Nothing is assumed of the source: it may deliver any bytes, and fail at any
point and more than once.
-/

namespace Lockbox

namespace Source

/-- The failures that a source has still to deliver. -/
def failures : Source → List IoError
  | [] => []
  | .failure e :: rest => e :: failures rest
  | .bytes _ :: rest | .interrupted :: rest => failures rest

/-- To take bytes delivers one failure if it fails by one, and else none. -/
theorem failures_takeInto (g : Gathering) (n : Nat) (s : Source) :
    match takeInto g n s with
    | (.failed e, rest) => s.failures = e :: rest.failures
    | (_, rest) => rest.failures = s.failures := by
  -- along the events of the source, of which one that fails ends the taking
  fun_induction takeInto g n s with
  | case1 g n =>
    split
    · rename_i h
      split at h <;> cases h
    · rename_i h
      cases h
      rfl
  | case2 g d rest => rfl
  | case3 g n rest hn ih => exact ih
  | case4 g n rest hn e => rfl
  | case5 g n rest hn b now hlt ih => exact ih
  | case6 g n rest hn b now hlt => rfl

/-- A single read uses up a failure of the source only if it fails by it. -/
theorem failures_read (n : Nat) (s : Source) :
    match read n s with
    | (.failed e, rest) => s.failures = e :: rest.failures
    | (_, rest) => rest.failures = s.failures := by
  fun_induction read n s with
  | case1 => rfl
  | case2 rest ih => exact ih
  | case3 e rest => rfl
  | case4 rest ih => exact ih
  | case5 c b rest => rfl

end Source

namespace Payload

namespace Reader

variable {S : Suite} {r r' r₁ : Reader} {α : Type}

/-! ## Operations that stop the reader

An operation either keeps the reader sound and its source without a failure,
or it fails and the reader takes note of that. The predicate is kept by
steps one after the other, so each operation is followed once from its
parts. -/

/-- The reader has not failed meanwhile, and nor has its source. -/
structure Kept (r r' : Reader) : Prop where
  failed : r'.failed = r.failed
  source : r'.source.failures = r.source.failures

/-- Nothing happened, so nothing failed. -/
theorem Kept.refl (r : Reader) : Kept r r := ⟨rfl, rfl⟩

/-- One operation without a failure after the other. -/
theorem Kept.trans (h : Kept r r₁) (h' : Kept r₁ r') : Kept r r' :=
  ⟨h'.failed.trans h.failed, h'.source.trans h.source⟩

/-- The reader has failed, by what its frames are or by what its source
did. -/
inductive Broke (r : Reader) : Error → Reader → Prop where
  | integrity {r' : Reader} (f : IntegrityFault) (hfailed : r'.failed = true)
      (hsource : r'.source.failures = r.source.failures) : Broke r (.integrity f) r'
  | source {r' : Reader} (e : IoError) (hfailed : r'.failed = true)
      (hsource : r.source.failures = e :: r'.source.failures) : Broke r (.io e) r'

/-- Whichever way it broke, the reader took note of it. -/
theorem Broke.failed {e : Error} (h : Broke r e r') : r'.failed = true := by
  cases h with
  | integrity f hfailed => exact hfailed
  | source e hfailed => exact hfailed

/-- It makes no difference to a failure that the operations before it went
well. -/
theorem Broke.after {e : Error} (h : Broke r₁ e r') (hkept : Kept r r₁) : Broke r e r' := by
  cases h with
  | integrity f hfailed hsource => exact .integrity f hfailed (hsource.trans hkept.source)
  | source e hfailed hsource => exact .source e hfailed (hkept.source.symm.trans hsource)

/-- The outcome of an operation whose every failure stops the reader. -/
def Stops (r : Reader) : Except Error α × Reader → Prop
  | (.ok _, r') => Kept r r'
  | (.error e, r') => Broke r e r'

/-- An operation that stops the reader does so after others that went well. -/
theorem Stops.after {x : Except Error α × Reader} (h : Stops r₁ x) (hkept : Kept r r₁) :
    Stops r x := by
  obtain ⟨e | a, r'⟩ := x
  · exact Broke.after h hkept
  · exact hkept.trans h

/-- The answer of an operation that stops the reader on failure is no failure.
-/
theorem Stops.kept {a : α} (h : Stops r (.ok a, r')) : Kept r r' := h

/-- And a failure of it is one that the reader took note of. -/
theorem Stops.broke {e : Error} (h : Stops (α := α) r (.error e, r')) : Broke r e r' := h

/-- What an operation answers tells whether the reader has failed. -/
theorem Stops.failed {x : Except Error α × Reader} {e : Error} (h : Stops r x) (he : x.1 = .error e) :
    x.2.failed = true := by
  obtain ⟨result, r'⟩ := x
  subst he
  exact h.broke.failed

/-- A reader fails by a fault of integrity without touching its source. -/
theorem stops_fail (f : IntegrityFault) (hkept : Kept r r₁) :
    Stops (α := α) r (r₁.fail (.integrity f)) :=
  .integrity f rfl hkept.source

/-- Bytes are missing, or the source fails instead of delivering them; the
reader takes note of both. -/
theorem stops_take (n : Nat) (r : Reader) : Stops r (r.take n) := by
  have hfailures := Source.failures_takeInto .empty n r.source
  rw [← Source.takeExactly] at hfailures
  unfold take
  rcases htaken : r.source.takeExactly n with ⟨taken, source⟩
  rw [htaken] at hfailures
  cases taken with
  | got b => exact ⟨rfl, hfailures⟩
  | ended => exact .integrity _ rfl hfailures
  | failed e => exact .source e rfl hfailures

/-- A frame is two amounts of bytes and what they open to, and each of the
three may fail. -/
theorem stops_readFrame (S : Suite) (r : Reader) : Stops r (r.readFrame S) := by
  have hfirst := stops_take 4 r
  unfold readFrame
  generalize r.take 4 = first at hfirst ⊢
  obtain ⟨e | written, r₁⟩ := first
  · exact hfirst
  · dsimp only
    split
    · exact stops_fail _ hfirst.kept
    · have hsecond := (stops_take (Bytes.toNat written) r₁).after hfirst.kept
      generalize r₁.take (Bytes.toNat written) = second at hsecond ⊢
      obtain ⟨e | sealed, r₂⟩ := second
      · exact hsecond
      · dsimp only
        cases r₂.channel.openFrame S r₂.counter sealed with
        | error f => exact stops_fail f hsecond.kept
        | ok frame => exact ⟨hsecond.kept.failed, hsecond.kept.source⟩

/-- The same of an outcome that has a name. -/
theorem stops_of_readFrame {x : Except Error Frame × Reader} (h : r.readFrame S = x) :
    Stops r x :=
  h ▸ stops_readFrame S r

/-- One more read after the last frame finds the end, and else it stops the
reader. -/
theorem stops_checkTrailing (r : Reader) : Stops r r.checkTrailing := by
  have hfailures := Source.failures_read 1 r.source
  unfold checkTrailing
  rcases hread : r.source.read 1 with ⟨single, source⟩
  rw [hread] at hfailures
  cases single with
  | got b =>
    dsimp only
    split
    · exact ⟨rfl, hfailures⟩
    · exact .integrity _ rfl hfailures
  | ended => exact ⟨rfl, hfailures⟩
  | failed e => exact .source e rfl hfailures

/-- To go from one entry to the next takes a frame, which may be the wrong one,
and the last one is followed by a check of what trails. -/
theorem stops_advance (S : Suite) (r : Reader) : Stops r (r.advance S) := by
  have hframe := stops_readFrame S r
  unfold advance
  generalize r.readFrame S = read at hframe ⊢
  obtain ⟨e | frame, r₁⟩ := read
  · exact hframe
  · have hkept := hframe.kept
    cases frame with
    | file name size => exact ⟨hkept.failed, hkept.source⟩
    | data chunk => exact stops_fail _ hkept
    -- after the last frame the source is looked at once more
    | finish =>
      have htrailing := (stops_checkTrailing r₁).after hkept
      dsimp only
      generalize r₁.checkTrailing = checked at htrailing ⊢
      obtain ⟨e | u, r₂⟩ := checked
      · exact htrailing
      · exact ⟨htrailing.kept.failed, htrailing.kept.source⟩

/-- To go on to the next entry stops the reader or comes out of turn. -/
theorem stops_next (S : Suite) (r : Reader) :
    Stops r (r.next S) ∨ ∃ f, r.next S = (.error (.sequence f), r) := by
  unfold next
  split
  · rename_i hfailed
    exact .inl (.integrity _ hfailed rfl)
  · split
    · exact .inl (.refl r)
    · exact .inr ⟨_, rfl⟩
    all_goals exact .inl (stops_advance S r)

/-- To pour data out stops the reader, or it was the sink that failed. -/
theorem stops_pour (S : Suite) (info : FileInfo) (remaining : Nat) (r : Reader) (sink : Sink) :
    Stops r ((pour S info remaining r sink).1, (pour S info remaining r sink).2.1) ∨
      (∃ e, (pour S info remaining r sink).1 = .error (.io e)) ∧
        Kept r (pour S info remaining r sink).2.1 := by
  -- along the frames that are read; only the sink can fail without the reader taking
  -- note
  fun_induction pour S info remaining r sink with
  | case1 r sink => exact .inl (.refl r)
  | case2 remaining r sink _ e r₁ hread => exact .inl (stops_of_readFrame hread)
  | case3 remaining r sink _ chunk r₁ hread _ result r₂ hfail =>
    cases hfail
    exact .inl (stops_fail _ (stops_of_readFrame hread).kept)
  | case4 remaining r sink _ chunk r₁ hread _ e sink₁ hwrite =>
    exact .inr ⟨⟨e, rfl⟩, (stops_of_readFrame hread).kept⟩
  | case5 remaining r sink _ chunk r₁ hread _ sink₁ hwrite left ih =>
    have hkept := (stops_of_readFrame hread).kept
    have hmoved : Kept r { r₁ with cursor := .pending info left } := ⟨hkept.failed, hkept.source⟩
    obtain hstops | ⟨hsink, hrest⟩ := ih
    · exact .inl (hstops.after hmoved)
    · exact .inr ⟨hsink, hmoved.trans hrest⟩
  | case6 remaining r sink _ f r₁ hne hread result r₂ hfail =>
    cases hfail
    exact .inl (stops_fail _ (stops_of_readFrame hread).kept)

/-- To read an entry stops the reader, comes out of turn, or it was the sink
that failed. -/
theorem stops_readInto (S : Suite) (r : Reader) (sink : Sink) :
    Stops r ((r.readInto S sink).1, (r.readInto S sink).2.1) ∨
      (∃ e, (r.readInto S sink).1 = .error e ∧ ∀ f, e ≠ .integrity f) ∧
        Kept r (r.readInto S sink).2.1 := by
  unfold readInto
  split
  · rename_i hfailed
    exact .inl (.integrity _ hfailed rfl)
  · split
    · exact .inr ⟨⟨_, rfl, by simp⟩, .refl r⟩
    · exact .inr ⟨⟨_, rfl, by simp⟩, .refl r⟩
    · exact .inr ⟨⟨_, rfl, by simp⟩, .refl r⟩
    · rename_i info remaining _
      split
      · exact .inr ⟨⟨_, rfl, by simp⟩, .refl r⟩
      · have hpour := stops_pour S info remaining r sink
        generalize pour S info remaining r sink = poured at hpour ⊢
        obtain ⟨e | u, r₁, sink₁⟩ := poured
        · obtain hbroke | ⟨⟨e', he⟩, hkept⟩ := hpour
          · exact .inl hbroke
          · cases he
            exact .inr ⟨⟨_, rfl, by simp⟩, hkept⟩
        · have hkept : Kept r r₁ := hpour.elim Stops.kept fun ⟨_, hkept⟩ => hkept
          dsimp only
          cases sink₁.flush with
          | error e => exact .inr ⟨⟨_, rfl, by simp⟩, hkept⟩
          | ok u => exact .inl ⟨hkept.failed, hkept.source⟩

/-! ## A reader that failed

The failed reader refuses everything, which makes the failure absorbing.
That it does not count as finished either needs an invariant: it failed
before it came to the end. -/

/-- A reader that failed does not look for another entry. -/
theorem next_of_failed (h : r.failed = true) (S : Suite) :
    r.next S = (.error (.integrity .alreadyFailed), r) := if_pos h

/-- And it does not touch the sink that it is given. -/
theorem readInto_of_failed (h : r.failed = true) (S : Suite) (sink : Sink) :
    r.readInto S sink = (.error (.integrity .alreadyFailed), r, sink) := if_pos h

/-- A reader that failed is not after the last frame. -/
def Halted (r : Reader) : Prop := r.failed = true → r.cursor ≠ .ended

/-- A reader that has not begun has not failed. -/
theorem halted_create (source : Source) (channel : Channel) (allowTrailing : Bool) :
    (create source channel allowTrailing).Halted := fun _ => by simp [create]

/-- So a reader that failed never counts as finished. -/
theorem Halted.isFinished (h : r.Halted) (hfailed : r.failed = true) : r.isFinished = false := by
  unfold Reader.isFinished
  split
  · exact absurd ‹_› (h hfailed)
  · rfl

/-- The end is not reached by a request that fails: who comes there had an
answer. -/
theorem Halted.next (h : r.Halted) (S : Suite) : (r.next S).2.Halted := by
  intro hfailed hended
  by_cases hf : r.failed = true
  · rw [next_of_failed hf] at hended
    exact h hf hended
  by_cases hc : r.cursor = .ended
  · have hsame : r.next S = (.ok none, r) := by rw [Reader.next, if_neg hf, hc]
    rw [hsame] at hfailed
    exact hf hfailed
  · -- who comes to the end there has an answer, and has not failed
    obtain ⟨hnone, -⟩ := next_ended hended hc
    obtain hstops | ⟨f, he⟩ := stops_next S r
    · have hkept : Kept r (r.next S).2 := by
        rw [← Prod.eta (r.next S), hnone] at hstops
        exact hstops.kept
      exact hf (hkept.failed.symm.trans hfailed)
    · rw [he] at hnone
      cases hnone

/-- The data of an entry never lead to the end, so a failure among them does
not either. -/
theorem Halted.readInto (h : r.Halted) (S : Suite) (sink : Sink) :
    (r.readInto S sink).2.1.Halted := by
  intro hfailed hended
  have hc := (r.onward_readInto S sink).2 hended
  by_cases hf : r.failed = true
  · exact h hf hc
  · have hsame : r.readInto S sink = (.error (.sequence .ended), r, sink) := by
      rw [Reader.readInto, if_neg hf, hc]
    rw [hsame] at hfailed
    exact hf hfailed

/-- The answer to a request is this error. -/
def Request.FailsWith (S : Suite) (r : Reader) (e : Error) : Request → Prop
  | .next => (r.next S).1 = .error e
  | .read sink => (r.readInto S sink).1 = .error e

/-- A request is answered that the payload is not what was written, or by a
failure that the source delivers meanwhile. -/
def Request.Breaks (S : Suite) (r : Reader) (request : Request) : Prop :=
  (∃ f, request.FailsWith S r (.integrity f)) ∨
    ∃ e, request.FailsWith S r (.io e) ∧
      r.source.failures = e :: (request.apply S r).source.failures

/-- A source that has delivered no failure cannot have delivered this one. -/
theorem Kept.source_ne (h : Kept r r') (e : IoError) :
    r.source.failures ≠ e :: r'.source.failures := by
  rw [h.source]
  exact fun heq => absurd (congrArg List.length heq) (by simp)

/-- **With such an answer the reader has failed.** -/
theorem Request.Breaks.failed {request : Request} (h : request.Breaks S r) :
    (request.apply S r).failed = true := by
  cases request with
  | next =>
    obtain hstops | ⟨f, hsame⟩ := stops_next S r
    · obtain ⟨f, he⟩ | ⟨e, he, -⟩ := h
      · exact hstops.failed he
      · exact hstops.failed he
    · simp [Breaks, FailsWith, hsame] at h
  | read sink =>
    obtain hstops | ⟨⟨e', he', hno⟩, hkept⟩ := stops_readInto S r sink
    · obtain ⟨f, he⟩ | ⟨e, he, -⟩ := h
      · exact hstops.failed he
      · exact hstops.failed he
    · obtain ⟨f, he⟩ | ⟨e, -, hsource⟩ := h
      · exact absurd (Except.error.inj (he'.symm.trans he)) (hno f)
      · exact absurd hsource (hkept.source_ne e)

/-- No request moves a reader that failed. -/
theorem Request.apply_of_failed (h : r.failed = true) (request : Request) :
    request.apply S r = r := by
  cases request with
  | next => rw [apply, next_of_failed h]
  | read sink => rw [apply, readInto_of_failed h]

/-- **A reader that failed stays as it is.** -/
theorem after_of_failed (h : r.failed = true) (requests : List Request) :
    after S requests r = r := by
  induction requests with
  | nil => rfl
  | cons request requests ih => rw [after, request.apply_of_failed h, ih]

/-- Any requests leave a halted reader halted. -/
theorem Halted.after (h : r.Halted) (S : Suite) (requests : List Request) :
    (after S requests r).Halted := by
  induction requests generalizing r with
  | nil => exact h
  | cons request requests ih =>
    cases request with
    | next => exact ih (h.next S)
    | read sink => exact ih (h.readInto S sink)

/-! ## What sinks are offered

A reader is followed along the frames that it has read. Data go into a sink
only as frames of the entry that was announced last. -/

/-- The last of these frames that announces an entry announces this one. -/
def Announces (info : FileInfo) (frames : List Frame) : Prop :=
  ∃ (before : List Frame) (name : EntryName) (data : List Chunk),
    info.name = name.val ∧ frames = before ++ .file name info.size :: data.map .data

/-- Data do not change which entry was announced last. -/
theorem Announces.append {info : FileInfo} {frames : List Frame} (h : Announces info frames)
    (chunks : List Chunk) : Announces info (frames ++ chunks.map .data) := by
  obtain ⟨before, name, data, hname, rfl⟩ := h
  exact ⟨before, name, data ++ chunks, hname, by simp⟩

/-- A reader that began as `start` has read frames one after the other since,
unless it has failed or is through; and if it is in an entry, that is the one
they announce. -/
def Along (S : Suite) (start r : Reader) : Prop :=
  r.failed = true ∨ r.cursor = .ended ∨ ∃ frames, start.Read S frames r ∧
    ∀ info left, r.cursor = .pending info left → Announces info frames

variable {start : Reader}

/-- The next entry adds the frame that announces it, and nothing stands between
that and the data. -/
theorem Along.next (h : Along S start r) : Along S start (r.next S).2 := by
  obtain ⟨hsame, -⟩ | ⟨hsame, -⟩ | ⟨hadvance, hf, hc⟩ :=
    Supply.next_cases (Prod.eta (r.next S)).symm
  · rwa [hsame]
  · rwa [hsame]
  · obtain hfailed | hended | ⟨frames, hread, -⟩ := h
    · exact absurd hfailed (by simp [hf])
    · exact absurd hended hc
    generalize (r.next S).1 = result, (r.next S).2 = r' at hadvance ⊢
    have hstops := stops_advance S r
    rw [hadvance] at hstops
    cases result with
    | error e => exact .inl hstops.broke.failed
    | ok announced =>
      unfold advance at hadvance
      split at hadvance
      · cases hadvance
      · rename_i name size r₁ hframe
        cases hadvance
        refine .inr (.inr ⟨_, (hread.trans (read_of_readFrame hframe)).withCursor _, ?_⟩)
        rintro info left hcursor
        cases hcursor
        exact ⟨frames, name, [], rfl, rfl⟩
      · split at hadvance
        · cases hadvance
        · cases hadvance
          exact .inr (.inl rfl)
      · cases hadvance

/-- **Pouring offers the sink the data of frames that are read,** no more
than were left. -/
theorem pour_offers (S : Suite) (info : FileInfo) (remaining : Nat) (r : Reader) (sink : Sink) :
    ∃ (chunks : List Chunk) (r₁ : Reader), r.Read S (chunks.map .data) r₁ ∧
      (pour S info remaining r sink).2.2 = (sink.writeEach (chunks.map Subtype.val)).2 ∧
      (chunks.flatMap Subtype.val).length ≤ remaining ∧
      ((pour S info remaining r sink).2.1.failed = true ∨
        r.Read S (chunks.map .data) (pour S info remaining r sink).2.1 ∧
          ((pour S info remaining r sink).2.1.cursor = r.cursor ∨
            ∃ left, (pour S info remaining r sink).2.1.cursor = .pending info left)) := by
  fun_induction pour S info remaining r sink with
  | case1 r sink => exact ⟨[], r, .refl r, rfl, Nat.le_refl 0, .inr ⟨.refl r, .inl rfl⟩⟩
  | case2 remaining r sink _ e r₁ hread =>
    exact ⟨[], r, .refl r, rfl, Nat.zero_le _, .inl (stops_of_readFrame hread).broke.failed⟩
  | case3 remaining r sink _ chunk r₁ hread _ result r₂ hfail =>
    cases hfail
    exact ⟨[], r, .refl r, rfl, Nat.zero_le _, .inl rfl⟩
  -- the sink failed on this chunk: the frame was read all the same
  | case4 remaining r sink _ chunk r₁ hread hfit e sink₁ hwrite =>
    have hcursor := (r.onward_readFrame S).2
    rw [hread] at hcursor
    have hread' := read_of_readFrame hread
    refine ⟨[chunk], r₁, hread', ?_, ?_, .inr ⟨hread', .inl hcursor⟩⟩
    · rw [List.map_singleton, Sink.writeEach, hwrite]
    · simpa using hfit
  | case5 remaining r sink _ chunk r₁ hread hfit sink₁ hwrite left ih =>
    obtain ⟨chunks, r₂, hrest, hsink, hlength, hend⟩ := ih
    have hfirst := (read_of_readFrame hread).withCursor (.pending info left)
    refine ⟨chunk :: chunks, r₂, hfirst.trans hrest, ?_, ?_, ?_⟩
    · rw [hsink, List.map_cons, Sink.writeEach, hwrite]
    · rw [List.flatMap_cons, List.length_append]
      omega
    · obtain hfailed | ⟨hwhole, hcursor⟩ := hend
      · exact .inl hfailed
      · exact .inr ⟨hfirst.trans hwhole, .inr (hcursor.elim (fun h => ⟨left, h⟩) id)⟩
  | case6 remaining r sink _ f r₁ hne hread result r₂ hfail =>
    cases hfail
    exact ⟨[], r, .refl r, rfl, Nat.zero_le _, .inl rfl⟩

/-- **To read an entry offers the sink the data of frames that are read,** and
no more than were declared. -/
theorem Along.readInto (h : Along S start r) (sink : Sink) :
    Along S start (r.readInto S sink).2.1 ∧ ∃ chunks : List Chunk,
      (r.readInto S sink).2.2 = (sink.writeEach (chunks.map Subtype.val)).2 ∧
      (chunks = [] ∨ ∃ frames info rest, Announces info frames ∧
        Shows S start.channel start.counter start.source.contents (frames ++ chunks.map .data) rest ∧
        (chunks.flatMap Subtype.val).length ≤ info.size.toNat) := by
  have hnone : Along S start r ∧ ∃ chunks : List Chunk,
      sink = (sink.writeEach (chunks.map Subtype.val)).2 ∧ (chunks = [] ∨ ∃ frames info rest,
        Announces info frames ∧ Shows S start.channel start.counter start.source.contents
          (frames ++ chunks.map .data) rest ∧
        (chunks.flatMap Subtype.val).length ≤ info.size.toNat) := ⟨h, [], rfl, .inl rfl⟩
  unfold Reader.readInto
  split
  · exact hnone
  rename_i hf
  split
  · exact hnone
  · exact hnone
  · exact hnone
  rename_i info remaining hcursor
  split
  · exact hnone
  rename_i hfirst
  obtain hfailed | hended | ⟨frames, hread, hannounces⟩ := h
  · exact absurd hfailed hf
  · exact absurd (hcursor.symm.trans hended) (by simp)
  have hinfo := hannounces info remaining hcursor
  obtain ⟨chunks, r₁, hshown, hsink, hlength, hend⟩ := pour_offers S info remaining r sink
  have hoffered : chunks = [] ∨ ∃ frames info rest, Announces info frames ∧
      Shows S start.channel start.counter start.source.contents (frames ++ chunks.map .data) rest ∧
      (chunks.flatMap Subtype.val).length ≤ info.size.toNat :=
    .inr ⟨frames, info, _, hinfo, (hread.trans hshown).shows, by omega⟩
  have halong : Along S start (pour S info remaining r sink).2.1 := by
    refine hend.imp id fun ⟨hwhole, hcursor'⟩ => .inr ⟨_, hread.trans hwhole, ?_⟩
    intro info' left' hpending
    obtain hsame | ⟨left, hsame⟩ := hcursor'
    · cases hcursor.symm.trans (hsame.symm.trans hpending)
      exact hinfo.append chunks
    · cases hsame.symm.trans hpending
      exact hinfo.append chunks
  -- what is left is the flush of the sink, which moves no frame
  generalize pour S info remaining r sink = poured at hsink hend halong
  obtain ⟨e | u, r₂, sink₂⟩ := poured
  · exact ⟨halong, chunks, hsink, hoffered⟩
  · dsimp only
    cases sink₂.flush with
    | error e => exact ⟨halong, chunks, hsink, hoffered⟩
    | ok u =>
      exact ⟨hend.imp id fun ⟨hwhole, _⟩ => .inr ⟨_, (hread.trans hwhole).withCursor _,
        fun info left h => by cases h⟩, chunks, hsink, hoffered⟩

/-- A reader has read nothing before it begins. -/
theorem along_create (S : Suite) (source : Source) (channel : Channel) (allowTrailing : Bool) :
    Along S (create source channel allowTrailing) (create source channel allowTrailing) :=
  .inr (.inr ⟨[], .refl _, fun info left h => by cases h⟩)

/-- **Along the frames of its source** is where a reader stands after any
requests. -/
theorem Along.after (h : Along S start r) (requests : List Request) :
    Along S start (after S requests r) := by
  induction requests generalizing r with
  | nil => exact h
  | cons request requests ih =>
    cases request with
    | next => exact ih h.next
    | read sink => exact ih (h.readInto sink).1

end Reader

end Payload

/-! ## The session around it

A session has a reader while it decrypts, and asks it for what it is asked
itself. -/

namespace Opening

open Payload

variable {σ : Type} {s : Opening σ}

/-- What a request to the session asks of its reader. -/
def Request.reading? : Request → Option Reader.Request
  | .nextFile => some .next
  | .readContent sink => some (.read sink)
  | _ => none

/-- A request is answered that the payload is not what was written, or by a
failure of its source. -/
def Request.Breaks (s : Opening σ) (request : Request) : Prop :=
  ∃ fmk r reading, s.stage = .decrypting fmk r ∧ request.reading? = some reading ∧
    reading.Breaks s.smith.suite r

/-- The reader of a session has halted if it failed. -/
def Stage.Halted : Stage → Prop
  | .decrypting _ r => r.Halted
  | _ => True

/-- The payload has not been read to its end, and never will be. -/
def Stage.Stopped : Stage → Prop
  | .decrypting _ r => r.failed = true ∧ r.cursor ≠ .ended
  | .finished complete => complete = false
  | _ => False

/-- A request keeps the reader of a session halted, by what it does to the
reader. -/
theorem halted_next (h : s.stage.Halted) (request : Request) (w : World σ) :
    (request.next s w).1.stage.Halted := by
  have hmoves := request.moves s w
  generalize (request.next s w).1 = s' at hmoves
  cases hmoves with
  | stays => exact h
  | obtains => exact trivial
  | begins => exact Reader.halted_create _ _ _
  | advances hstage =>
    rw [hstage] at h
    exact Reader.Halted.next h _
  | pours hstage =>
    rw [hstage] at h
    exact Reader.Halted.readInto h _ _
  | ends => exact trivial

/-- And so do all requests of a run. -/
theorem halted_played (h : s.stage.Halted) (requests : List Request) (w : World σ) :
    (played requests s w).1.stage.Halted := by
  induction requests generalizing s w with
  | nil => exact h
  | cons request requests ih => exact ih (halted_next h request w) (request.next s w).2

/-- **A request that breaks the payload stops the session's reader.** -/
theorem stopped_of_breaks (h : s.stage.Halted) {request : Request} (hbreaks : request.Breaks s)
    (w : World σ) : (request.next s w).1.stage.Stopped := by
  obtain ⟨fmk, r, reading, hstage, hreading, hbreaks⟩ := hbreaks
  rw [hstage] at h
  cases request with
  | nextFile =>
    cases hreading
    rw [Request.next_nextFile hstage rfl]
    exact ⟨hbreaks.failed, Reader.Halted.next h _ hbreaks.failed⟩
  | readContent sink =>
    cases hreading
    rw [Request.next_readContent hstage rfl]
    exact ⟨hbreaks.failed, Reader.Halted.readInto h _ _ hbreaks.failed⟩
  | getFmk => cases hreading
  | begin => cases hreading
  | finish => cases hreading

/-- **And nothing gets it going again.** -/
theorem stopped_next (h : s.stage.Stopped) (request : Request) (w : World σ) :
    (request.next s w).1.stage.Stopped := by
  have hmoves := request.moves s w
  generalize (request.next s w).1 = s' at hmoves
  cases hmoves with
  | stays => exact h
  -- a stopped session has begun its payload, so it serves neither of the two
  | obtains hstage | begins hstage =>
    obtain hs | hs := untouched?_eq_some_iff.mp hstage
    · rw [hs] at h
      exact h.elim
    · rw [hs] at h
      exact h.elim
  | @advances fmk r hstage =>
    rw [hstage] at h
    rw [Reader.next_of_failed h.1]
    exact h
  | @pours fmk r sink hstage =>
    rw [hstage] at h
    rw [Reader.readInto_of_failed h.1]
    exact h
  | ends hstage =>
    rw [hstage] at h
    exact Reader.Halted.isFinished (fun _ => h.2) h.1

/-- A stopped session stays stopped through any requests. -/
theorem stopped_played (h : s.stage.Stopped) (requests : List Request) (w : World σ) :
    (played requests s w).1.stage.Stopped := by
  induction requests generalizing s w with
  | nil => exact h
  | cons request requests ih => exact ih (stopped_next h request w) (request.next s w).2

/-- A stopped session is not fully decrypted. -/
theorem isFullyDecrypted_of_stopped (h : s.stage.Stopped) : s.isFullyDecrypted = false := by
  unfold isFullyDecrypted
  split
  · rename_i complete hstage
    rw [hstage] at h
    exact h
  · rfl

end Opening

open Payload

/-- **A reader that failed has stopped.** Whatever the source delivers, and
whatever is asked of a reader and in whatever order: once a call was answered
that the payload is not what was written, or by a failure of the source, then
after any more calls the reader and its source are where this one left them,
it is not at the end, and each call is answered that it failed before and
leaves its sink as it is. A session one of whose requests was answered so is
not fully decrypted, whatever it is told then. And whatever sink is given to a
reader, it is offered, piece by piece up to where it fails, the data of frames
that stood next in the source and were authentic each under its number, from
the first frame on; and they are no more than the last announcement among
these frames declared. -/
theorem failed_reader_stops :
    (∀ (S : Suite) (source : Source) (channel : Channel) (allowTrailing : Bool)
      (before : List Reader.Request) (r : Reader),
      Reader.after S before (.create source channel allowTrailing) = r →
      (∀ request : Reader.Request, request.Breaks S r → ∀ (later : List Reader.Request) (r' : Reader),
        Reader.after S (request :: later) r = r' →
          r' = request.apply S r ∧ r'.isFinished = false ∧
          r'.next S = (.error (.integrity .alreadyFailed), r') ∧
          ∀ sink, r'.readInto S sink = (.error (.integrity .alreadyFailed), r', sink)) ∧
      ∀ sink, ∃ chunks : List Chunk,
        (r.readInto S sink).2.2 = (sink.writeEach (chunks.map Subtype.val)).2 ∧
        (chunks = [] ∨ ∃ frames info rest, Reader.Announces info frames ∧
          Shows S channel 0 source.contents (frames ++ chunks.map .data) rest ∧
          (chunks.flatMap Subtype.val).length ≤ info.size.toNat)) ∧
    ∀ {σ : Type} (smith : Locksmith σ) (lenient : Bool) (source : Source) (start : Opening σ),
      Opening.create smith lenient source = .ok start →
      ∀ (acts : List Opening.Act) (w : World σ) (before later : List Opening.Request)
        (request : Opening.Request),
        Opening.spelled acts start w = before ++ request :: later →
        request.Breaks (Opening.played before start w).1 →
          (Opening.acted acts start w).1.isFullyDecrypted = false := by
  refine ⟨fun S source channel allowTrailing before r hr => ⟨fun request hbreaks later r' hr' => ?_,
    fun sink => ?_⟩, fun smith lenient source start hcreate acts w before later request hspelled
      hbreaks => ?_⟩
  · have hhalted := ((Reader.halted_create source channel allowTrailing).after S before)
    rw [hr] at hhalted
    have hhalted' := hhalted.after S [request]
    rw [Reader.after, Reader.after_of_failed hbreaks.failed] at hr'
    subst hr'
    exact ⟨rfl, hhalted'.isFinished hbreaks.failed, Reader.next_of_failed hbreaks.failed S,
      Reader.readInto_of_failed hbreaks.failed S⟩
  · -- what the sink was offered is told by the frames that were read before
    have halong := (Reader.along_create S source channel allowTrailing).after before
    rw [hr] at halong
    exact (halong.readInto sink).2
  · rw [← Opening.played_spelled, hspelled, Opening.played_append, Opening.played_cons]
    obtain ⟨rest, -, -, -, hstart⟩ := Opening.create_ok hcreate
    have hhalted := Opening.halted_played (s := start) (by rw [hstart]; exact trivial) before w
    exact Opening.isFullyDecrypted_of_stopped
      (Opening.stopped_played (Opening.stopped_of_breaks hhalted hbreaks _) later _)

/-- Behind a failure of the source there is a byte more, which is never read. -/
theorem brokenSource_reader_stops : ∃ r r' : Reader,
    Reader.create [.failure (.other "gone"), .bytes [1]] ⟨.zero 32, .zero 24, 2, ⟨false⟩⟩ false = r ∧
      (r.next .plain).1 = .error (.io (.other "gone")) ∧
      Reader.after .plain [.next, .read .unlimited, .next] r = r' ∧ r'.source = [.bytes [1]] ∧
      r'.isFinished = false ∧ (r'.next .plain).1 = .error (.integrity .alreadyFailed) ∧
      ∀ sink, (r'.readInto .plain sink).2.2 = sink := by
  let r : Reader := .create [.failure (.other "gone"), .bytes [1]]
    ⟨.zero 32, .zero 24, 2, ⟨false⟩⟩ false
  have hbreaks : Reader.Request.next.Breaks .plain r := .inr ⟨.other "gone", rfl, rfl⟩
  obtain ⟨hsame, hfinished, hnext, hread⟩ := (failed_reader_stops.1 .plain
    [.failure (.other "gone"), .bytes [1]] ⟨.zero 32, .zero 24, 2, ⟨false⟩⟩ false [] r rfl).1
    .next hbreaks [.read .unlimited, .next] _ rfl
  refine ⟨r, _, rfl, rfl, rfl, ?_, hfinished, by rw [hnext], fun sink => by rw [hread]⟩
  rw [hsame]
  rfl

end Lockbox
