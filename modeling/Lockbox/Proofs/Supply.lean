import Lockbox.Payload.Reader
import Lockbox.Proofs.Script
import Lockbox.Proofs.Stream
/-!
# Lockbox — what a reader can be supplied with

A reader takes frame after frame from its source. A `Supply` of a list of
frames is a property of sources, one for each place in the list, under
which a frame that is read is the frame of that place; whether there is
one to read is left open. The stored frames are one, also where their end
is lost (`Supply.stored`).
-/

namespace Lockbox

namespace Payload

namespace Reader

variable {S : Suite} {r r' : Reader}

/-! ## Single frames -/

/-- A source that has enough gives it. -/
theorem take_of_le (h : r.source.Steady) {n : Nat} (hn : n ≤ r.source.contents.length) :
    ∃ source, r.take n = (.ok (r.source.contents.take n), { r with source }) ∧ source.Steady ∧
      source.contents = r.source.contents.drop n := by
  obtain ⟨source, hs, hsteady, hcontents⟩ := Source.takeExactly_of_le h hn
  exact ⟨source, by rw [take, hs], hsteady, hcontents⟩

/-- One that has too little fails the reader for good. -/
theorem take_of_lt (h : r.source.Steady) {n : Nat} (hn : r.source.contents.length < n) :
    r.take n = (.error (.integrity .truncated), { r with source := [], failed := true }) := by
  rw [take, Source.takeExactly_of_lt h hn]
  rfl

/-- What was taken stood first. -/
theorem take_ok {n : Nat} {b : Bytes} (h : r.take n = (.ok b, r')) :
    b.length = n ∧ r.source.contents = b ++ r'.source.contents ∧
      (r.source.Steady → r'.source.Steady) ∧ r' = { r with source := r'.source } := by
  unfold take at h
  split at h
  · rename_i c source hgot
    obtain ⟨hb, rfl⟩ := Prod.mk.inj h
    cases hb
    obtain ⟨hlength, hcontents, hsteady⟩ := Source.takeExactly_got hgot
    exact ⟨hlength, hcontents, hsteady, rfl⟩
  · exact absurd (Prod.mk.inj h).1 (by simp)
  · exact absurd (Prod.mk.inj h).1 (by simp)

/-- What a source holds when a frame can be read from it, and what it holds
then. The encrypted frame is as long as the bytes before it say, and that is
neither too short nor too long. -/
theorem readFrame_taken {f : Frame} (hr : r.readFrame S = (.ok f, r')) :
    ∃ length sealed, r.source.contents = length ++ sealed ++ r'.source.contents ∧
      length.length = 4 ∧ Bytes.toNat length = sealed.length ∧
      r.channel.openFrame S r.counter sealed = .ok f ∧
      (r.source.Steady → r'.source.Steady) ∧
      r' = { r with source := r'.source, counter := r.counter + 1 } ∧
      Aead.tagLength ≤ sealed.length ∧ sealed.length ≤ maxSealedLength := by
  unfold readFrame at hr
  split at hr
  · exact absurd (Prod.mk.inj hr).1 (by simp)
  · rename_i length r₁ htake
    dsimp only at hr
    split at hr
    · exact absurd (Prod.mk.inj hr).1 (by simp)
    · rename_i hrange
      split at hr
      · exact absurd (Prod.mk.inj hr).1 (by simp)
      · rename_i sealed r₂ htake'
        split at hr
        · exact absurd (Prod.mk.inj hr).1 (by simp)
        · rename_i frame hopen
          obtain ⟨hf, rfl⟩ := Prod.mk.inj hr
          cases hf
          obtain ⟨hfour, hcontents, hsteady, hr₁⟩ := take_ok htake
          obtain ⟨hlength, hcontents', hsteady', hr₂⟩ := take_ok htake'
          -- only the source has moved since
          rw [hr₁] at hr₂
          rw [hr₂] at hopen
          refine ⟨length, sealed, ?_, hfour, hlength.symm, hopen, fun hs => hsteady' (hsteady hs), ?_,
            by omega, by omega⟩
          · rw [hcontents, hcontents', List.append_assoc]
          · rw [hr₂]

/-- **What was read as a frame** stood in the source behind its length, and was
opened under the number that the reader had come to. -/
theorem readFrame_ok {f : Frame} (hr : r.readFrame S = (.ok f, r')) :
    ∃ length sealed, r.source.contents = length ++ sealed ++ r'.source.contents ∧
      length.length = 4 ∧ Bytes.toNat length = sealed.length ∧
      r.channel.openFrame S r.counter sealed = .ok f ∧
      (r.source.Steady → r'.source.Steady) ∧
      r' = { r with source := r'.source, counter := r.counter + 1 } := by
  obtain ⟨length, sealed, hcontents, hfour, hlength, hopen, hsteady, hmoved, -⟩ := readFrame_taken hr
  exact ⟨length, sealed, hcontents, hfour, hlength, hopen, hsteady, hmoved⟩

/-- A frame that cannot be read is a failure of integrity, and the reader
has failed. -/
theorem readFrame_error {e : Error} (h : r.source.Steady) (hr : r.readFrame S = (.error e, r')) :
    (∃ f, e = .integrity f) ∧ r'.failed = true ∧ r'.cursor = r.cursor := by
  unfold readFrame at hr
  by_cases h₁ : 4 ≤ r.source.contents.length
  · obtain ⟨s₁, ht₁, hs₁, -⟩ := take_of_le h h₁
    rw [ht₁] at hr
    dsimp only at hr
    split at hr
    · obtain ⟨he, rfl⟩ := Prod.mk.inj hr
      cases he
      exact ⟨⟨_, rfl⟩, rfl, rfl⟩
    · by_cases h₂ : Bytes.toNat (r.source.contents.take 4) ≤ s₁.contents.length
      · obtain ⟨s₂, ht₂, -, -⟩ := take_of_le (r := { r with source := s₁ }) hs₁ h₂
        rw [ht₂] at hr
        dsimp only at hr
        split at hr
        · obtain ⟨he, rfl⟩ := Prod.mk.inj hr
          cases he
          exact ⟨⟨_, rfl⟩, rfl, rfl⟩
        · exact absurd (Prod.mk.inj hr).1 (by simp)
      · rw [take_of_lt (r := { r with source := s₁ }) hs₁ (Nat.lt_of_not_le h₂)] at hr
        obtain ⟨he, rfl⟩ := Prod.mk.inj hr
        cases he
        exact ⟨⟨_, rfl⟩, rfl, rfl⟩
  · rw [take_of_lt h (Nat.lt_of_not_le h₁)] at hr
    obtain ⟨he, rfl⟩ := Prod.mk.inj hr
    cases he
    exact ⟨⟨_, rfl⟩, rfl, rfl⟩

/-- **A stored frame is read.** -/
theorem readFrame_store (hs : S.OpensSealed) (hz : S.InflatesDeflated) (hf : S.FitsFrames)
    {f : Frame} {rest : Bytes} (h : r.source.Steady)
    (hc : r.source.contents = r.channel.store S r.counter f ++ rest) :
    ∃ source, r.readFrame S = (.ok f, { r with source, counter := r.counter + 1 }) ∧
      source.Steady ∧ source.contents = rest := by
  obtain ⟨hmin, hmax⟩ := Channel.length_sealFrame hf r.channel r.counter f
  rw [Channel.store, List.append_assoc] at hc
  obtain ⟨s₁, ht₁, hs₁, hc₁⟩ := take_of_le (n := 4) h (by rw [hc]; simp)
  rw [hc, List.take_left' (Bytes.length_ofNat ..)] at ht₁
  rw [hc, List.drop_left' (Bytes.length_ofNat ..)] at hc₁
  have hlen : Bytes.toNat (Bytes.ofNat 4 (r.channel.sealFrame S r.counter f).length)
      = (r.channel.sealFrame S r.counter f).length :=
    Bytes.toNat_ofNat_of_lt (hf.countsSealed _ _ _)
  obtain ⟨s₂, ht₂, hs₂, hc₂⟩ := take_of_le (r := { r with source := s₁ })
    (n := (r.channel.sealFrame S r.counter f).length) hs₁ (by rw [hc₁]; simp)
  rw [hc₁, List.take_left] at ht₂
  rw [hc₁, List.drop_left] at hc₂
  have hopen := Channel.openFrame_sealFrame hs hz r.channel r.counter f
  refine ⟨s₂, ?_, hs₂, hc₂⟩
  rw [readFrame, ht₁]
  simp only [hlen]
  rw [if_neg (by omega), ht₂]
  simp only [hopen]

/-! ## The end of the source -/

/-- Nothing may follow the last frame, unless that is allowed. -/
theorem checkTrailing_ok_iff (h : r.source.Steady) :
    r.checkTrailing.1 = .ok () ↔ r.allowTrailing = true ∨ r.source.contents = [] := by
  have hended := Source.read_ended_iff h 1
  unfold checkTrailing
  split
  · rename_i source hread
    rw [hread] at hended
    simp [hended.mp rfl]
  · rename_i e source hread
    exact absurd (congrArg Prod.fst hread) (Source.read_ne_failed h 1 e)
  · rename_i b source hread
    rw [hread] at hended
    have hne : r.source.contents ≠ [] := fun hc => absurd (hended.mpr hc) (by simp)
    split
    · rename_i hallow
      simp [hallow]
    · rename_i hallow
      simp [hallow, hne, fail]

/-- Looking for what follows changes nothing but the source. -/
theorem checkTrailing_ok (hr : r.checkTrailing = (.ok (), r')) :
    r' = { r with source := r'.source } := by
  unfold checkTrailing at hr
  split at hr
  · obtain ⟨-, rfl⟩ := Prod.mk.inj hr
    rfl
  · exact absurd (Prod.mk.inj hr).1 (by simp)
  · split at hr
    · obtain ⟨-, rfl⟩ := Prod.mk.inj hr
      rfl
    · exact absurd (Prod.mk.inj hr).1 (by simp)

/-- If the look behind the last frame fails, that is for the integrity of the
payload, and the reader has failed for good. -/
theorem checkTrailing_error {e : Error} (h : r.source.Steady)
    (hr : r.checkTrailing = (.error e, r')) :
    (∃ f, e = .integrity f) ∧ r'.failed = true ∧ r'.cursor = r.cursor := by
  unfold checkTrailing at hr
  split at hr
  · exact absurd (Prod.mk.inj hr).1 (by simp)
  · rename_i e source hread
    exact absurd (congrArg Prod.fst hread) (Source.read_ne_failed h 1 e)
  · split at hr
    · exact absurd (Prod.mk.inj hr).1 (by simp)
    · obtain ⟨he, rfl⟩ := Prod.mk.inj hr
      cases he
      exact ⟨⟨_, rfl⟩, rfl, rfl⟩

end Reader

/-! ## Supplies

A supply is what the later modules know of a source: that the frame of each
place is read there or nothing is. It abstracts from how the source holds
its bytes, and from whether they are complete. -/

/-- Sources from which nothing but `frames` is read over a channel: `At n`
are those that stand before frame `n`. -/
structure Supply (S : Suite) (channel : Channel) (frames : List Frame) where
  At : Nat → Source → Prop
  steady : ∀ {n s}, At n s → s.Steady
  frame : ∀ {r r' : Reader} {f}, r.channel = channel → At r.counter r.source →
    r.readFrame S = (.ok f, r') → frames[r.counter]? = some f ∧ At (r.counter + 1) r'.source

namespace Supply

variable {S : Suite} {channel : Channel} {frames : List Frame}

/-- What is read from a beginning of stored frames is the first of them. -/
theorem frame_of_stream (hs : S.OpensSealed) (hz : S.InflatesDeflated) (hl : S.CountsSealed)
    {r r' : Reader} {f : Frame} {lost : Bytes} (hsteady : r.source.Steady)
    (hc : r.source.contents ++ lost = r.channel.stream S r.counter (frames.drop r.counter))
    (hr : r.readFrame S = (.ok f, r')) :
    frames[r.counter]? = some f ∧ r'.source.Steady ∧
      r'.source.contents ++ lost
        = r.channel.stream S (r.counter + 1) (frames.drop (r.counter + 1)) := by
  obtain ⟨length, sealed, hcontents, hfour, hlength, hopen, hsteady', -⟩ :=
    Reader.readFrame_ok hr
  rw [hcontents] at hc
  by_cases h : r.counter < frames.length
  -- the length that was read is the one that was stored, and so are the bytes behind it
  · rw [Channel.stream_drop _ _ h, Channel.store] at hc
    simp only [List.append_assoc] at hc
    obtain ⟨hfield, hc⟩ := List.append_inj hc (by rw [hfour, Bytes.length_ofNat])
    rw [hfield, Bytes.toNat_ofNat_of_lt (hl _ _ _)] at hlength
    obtain ⟨hsealed, hc⟩ := List.append_inj hc hlength.symm
    rw [hsealed, Channel.openFrame_sealFrame hs hz] at hopen
    cases hopen
    exact ⟨List.getElem?_eq_getElem h, hsteady' hsteady, hc⟩
  -- there was a length to read, but nothing is stored any more
  · rw [List.drop_eq_nil_of_le (Nat.le_of_not_lt h), Channel.stream_nil] at hc
    have := congrArg List.length hc
    simp only [List.length_append, hfour, List.length_nil] at this
    omega

/-- **Stored frames supply a reader,** also if bytes at their end are
lost. -/
def stored (hs : S.OpensSealed) (hz : S.InflatesDeflated) (hl : S.CountsSealed)
    (channel : Channel) (frames : List Frame) (lost : Bytes) : Supply S channel frames where
  At n s := s.Steady ∧ s.contents ++ lost = channel.stream S n (frames.drop n)
  steady h := h.1
  frame := by
    rintro r r' f rfl ⟨hsteady, hc⟩ hr
    exact frame_of_stream hs hz hl hsteady hc hr

variable (p : Supply S channel frames)

/-- The reader stands where all frames before its number were read from a
supply. -/
structure Feeds (r : Reader) : Prop where
  channel : r.channel = channel
  source : p.At r.counter r.source
  sound : r.failed = false

variable {p}

/-- The supply does not depend on where the reader stands in an entry. -/
theorem Feeds.withCursor {r : Reader} (h : p.Feeds r) (cursor : Cursor) :
    p.Feeds { r with cursor } := ⟨h.channel, h.source, h.sound⟩

/-- **The frame that is read is the next one of those that were written.** -/
theorem Feeds.readFrame_ok {r r' : Reader} {f : Frame} (h : p.Feeds r)
    (hr : r.readFrame S = (.ok f, r')) :
    frames[r.counter]? = some f ∧ p.Feeds r' ∧ r'.counter = r.counter + 1 ∧
      r'.cursor = r.cursor ∧ r'.allowTrailing = r.allowTrailing := by
  obtain ⟨hframe, hat⟩ := p.frame h.channel h.source hr
  obtain ⟨-, -, -, -, -, -, -, hr'⟩ := Reader.readFrame_ok hr
  refine ⟨hframe, ⟨?_, ?_, ?_⟩, ?_, ?_, ?_⟩
  · rw [hr']
    exact h.channel
  · have hcounter : r'.counter = r.counter + 1 := by rw [hr']
    rw [hcounter]
    exact hat
  · rw [hr']
    exact h.sound
  · rw [hr']
  · rw [hr']
  · rw [hr']

/-- The failure stems from a frame that could not be read, or from what
follows the last one. -/
def Blames (p : Supply S channel frames) (e : Error) : Prop :=
  ∃ r, p.Feeds r ∧ ((r.counter < frames.length ∧ (r.readFrame S).1 = .error e) ∨
    (r.counter = frames.length ∧ r.checkTrailing.1 = .error e))

/-- The last frame was read, and nothing follows that is not allowed. -/
def Concluded (p : Supply S channel frames) (allowTrailing : Bool) : Prop :=
  ∃ r, p.Feeds r ∧ r.counter = frames.length ∧ r.allowTrailing = allowTrailing ∧
    r.checkTrailing.1 = .ok ()

/-- Such a failure is one of integrity. -/
theorem Blames.integrity {e : Error} (h : p.Blames e) : ∃ f, e = .integrity f := by
  obtain ⟨r, hr, ⟨-, he⟩ | ⟨-, he⟩⟩ := h
  · exact (Reader.readFrame_error (p.steady hr.source) (Prod.ext he rfl)).1
  · exact (Reader.checkTrailing_error (p.steady hr.source) (Prod.ext he rfl)).1

/-- What becomes of the next frame, if one is left: it is read, or that it
could not be read is to blame. -/
theorem Feeds.step {r : Reader} {f : Frame} {more : List Frame} (h : p.Feeds r)
    (hf : frames.drop r.counter = f :: more) :
    (∃ r', r.readFrame S = (.ok f, r') ∧ p.Feeds r' ∧ frames.drop r'.counter = more ∧
      r'.cursor = r.cursor ∧ r'.allowTrailing = r.allowTrailing) ∨
    (∃ e r', r.readFrame S = (.error e, r') ∧ p.Blames e ∧ r'.cursor = r.cursor) := by
  have hlt : r.counter < frames.length := by
    have := congrArg List.length hf
    rw [List.length_drop, List.length_cons] at this
    omega
  cases hr : r.readFrame S with
  | mk result r' =>
    cases result with
    | ok g =>
      obtain ⟨hframe, hfeeds, hcounter, hcursor, htrailing⟩ := h.readFrame_ok hr
      have hhead : frames[r.counter]? = some f := by
        rw [← List.head?_drop, hf]
        rfl
      rw [hhead] at hframe
      cases hframe
      refine .inl ⟨r', rfl, hfeeds, ?_, hcursor, htrailing⟩
      rw [hcounter, ← List.drop_drop, hf]
      rfl
    | error e =>
      have hcursor := (Reader.readFrame_error (p.steady h.source) hr).2.2
      exact .inr ⟨e, r', rfl, ⟨r, h, .inl ⟨hlt, by rw [hr]⟩⟩, hcursor⟩

end Supply

end Payload

end Lockbox
