import Lockbox.Opening
import Lockbox.Proofs.Supply
/-!
# Lockbox — readers go onward

What holds of a reader whatever its source delivers or fails to deliver:
it keeps its channel, and it never reads a byte twice (`Onward`). It comes
to stand after the last frame in one way only, by being asked for the next
entry and answering that there is none, and then its source showed the
last frame (`ShowsEnd`), authentic under the channel.
-/

namespace Lockbox

namespace Payload

/-- What comes first of these bytes is the last frame of a payload, stored
with its length and authentic under this number of the channel. -/
def ShowsEnd (S : Suite) (c : Channel) (counter : Nat) (b : Bytes) : Prop :=
  ∃ length sealed after, b = length ++ sealed ++ after ∧ length.length = 4 ∧
    Bytes.toNat length = sealed.length ∧ c.openFrame S counter sealed = .ok .finish

namespace Reader

variable {S : Suite} {r r' r'' : Reader}

/-- What becomes of a reader: the channel stays, and what is left of its
source was left before. -/
structure Onward (r r' : Reader) : Prop where
  channel : r'.channel = r.channel
  contents : r'.source.contents <:+ r.source.contents

/-- A reader that does nothing keeps its channel and its source. -/
theorem Onward.refl (r : Reader) : Onward r r := ⟨rfl, List.suffix_refl _⟩

/-- What is left after two operations was left before the first. -/
theorem Onward.trans (h : Onward r r') (h' : Onward r' r'') : Onward r r'' :=
  ⟨h'.channel.trans h.channel, h'.contents.trans h.contents⟩

/-- Where a reader stands, and whether it failed, does not matter. -/
theorem Onward.stand (h : Onward r r') (hchannel : r''.channel = r'.channel)
    (hsource : r''.source = r'.source) : Onward r r'' where
  channel := hchannel.trans h.channel
  contents := by
    rw [hsource]
    exact h.contents

/-! ## Frames

A reader consumes its source from the front, whatever comes of an operation. -/

/-- To take bytes leaves what follows them, also where too few are there or the
source fails; and it does not move the reader to another place. -/
theorem onward_take (n : Nat) (r : Reader) :
    Onward r (r.take n).2 ∧ (r.take n).2.cursor = r.cursor := by
  have hsuffix : (r.source.takeExactly n).2.contents <:+ r.source.contents :=
    Source.contents_takeInto_suffix .empty n r.source
  unfold take
  split
  · rename_i hgot
    rw [hgot] at hsuffix
    exact ⟨⟨rfl, hsuffix⟩, rfl⟩
  · rename_i hended
    rw [hended] at hsuffix
    exact ⟨⟨rfl, hsuffix⟩, rfl⟩
  · rename_i hfailed
    rw [hfailed] at hsuffix
    exact ⟨⟨rfl, hsuffix⟩, rfl⟩

/-- Nor does a frame, whether it opens or not. -/
theorem onward_readFrame (S : Suite) (r : Reader) :
    Onward r (r.readFrame S).2 ∧ (r.readFrame S).2.cursor = r.cursor := by
  obtain ⟨hfirst, hcursor⟩ := onward_take 4 r
  unfold readFrame
  split
  · rename_i htake
    rw [htake] at hfirst hcursor
    exact ⟨hfirst, hcursor⟩
  · rename_i written r₁ htake
    rw [htake] at hfirst hcursor
    have hcursor : r₁.cursor = r.cursor := hcursor
    dsimp only
    split
    · exact ⟨hfirst.stand rfl rfl, hcursor⟩
    · -- the length was allowed, and the frame itself is taken behind it
      obtain ⟨hsecond, hcursor'⟩ := onward_take (Bytes.toNat written) r₁
      have hboth := hfirst.trans hsecond
      split
      · rename_i htake'
        rw [htake'] at hboth hcursor'
        exact ⟨hboth, hcursor'.trans hcursor⟩
      · rename_i sealed r₂ htake'
        rw [htake'] at hboth hcursor'
        split
        · exact ⟨hboth.stand rfl rfl, hcursor'.trans hcursor⟩
        · exact ⟨hboth.stand rfl rfl, hcursor'.trans hcursor⟩

/-- Looking behind the last frame takes a byte at most. -/
theorem onward_checkTrailing (r : Reader) :
    Onward r r.checkTrailing.2 ∧ r.checkTrailing.2.cursor = r.cursor := by
  have hsuffix := Source.contents_read_suffix 1 r.source
  unfold checkTrailing
  split
  · rename_i hread
    rw [hread] at hsuffix
    exact ⟨⟨rfl, hsuffix⟩, rfl⟩
  · rename_i hread
    rw [hread] at hsuffix
    exact ⟨⟨rfl, hsuffix⟩, rfl⟩
  · rename_i hread
    rw [hread] at hsuffix
    split
    · exact ⟨⟨rfl, hsuffix⟩, rfl⟩
    · exact ⟨⟨rfl, hsuffix⟩, rfl⟩

/-! ## Entries

The cursor says that the payload has ended only after its last frame was
read and opened. -/

/-- So to advance goes onward, whatever frame comes next. -/
theorem onward_advance (S : Suite) (r : Reader) : Onward r (r.advance S).2 := by
  obtain ⟨hframe, -⟩ := onward_readFrame S r
  unfold advance
  split
  · rename_i hread
    rw [hread] at hframe
    exact hframe
  · rename_i hread
    rw [hread] at hframe
    exact hframe.stand rfl rfl
  · rename_i r₁ hread
    rw [hread] at hframe
    obtain ⟨htrailing, -⟩ := onward_checkTrailing r₁
    have hboth := hframe.trans htrailing
    split
    · rename_i hcheck
      rw [hcheck] at hboth
      exact hboth
    · rename_i hcheck
      rw [hcheck] at hboth
      exact hboth.stand rfl rfl
  · rename_i hread
    rw [hread] at hframe
    exact hframe.stand rfl rfl

/-- And so does the request for the next entry. -/
theorem onward_next (S : Suite) (r : Reader) : Onward r (r.next S).2 := by
  unfold next
  split
  · exact .refl r
  · split
    · exact .refl r
    · exact .refl r
    all_goals exact onward_advance S r

/-- A frame that says so is the end, authentic and in its place. -/
theorem showsEnd_of_readFrame (h : r.readFrame S = (.ok .finish, r')) :
    ShowsEnd S r.channel r.counter r.source.contents := by
  obtain ⟨length, sealed, hcontents, hfour, hlength, hopen, -⟩ := readFrame_ok h
  exact ⟨length, sealed, r'.source.contents, hcontents, hfour, hlength, hopen⟩

/-- **The end is reached by reading the last frame,** and then there is no
next entry. -/
theorem advance_ended (h : (r.advance S).2.cursor = .ended) (hc : r.cursor ≠ .ended) :
    (r.advance S).1 = .ok none ∧ ShowsEnd S r.channel r.counter r.source.contents := by
  obtain ⟨-, hcursor⟩ := onward_readFrame S r
  -- only the branch of the last frame can leave the reader at the end; every other
  -- contradicts `h`
  unfold advance at h ⊢
  split
  · rename_i hread
    rw [hread] at h hcursor
    exact absurd (hcursor.symm.trans h) hc
  · rename_i hread
    rw [hread] at h
    exact absurd h (by simp)
  · rename_i r₁ hread
    rw [hread] at h hcursor
    obtain ⟨-, hcursor'⟩ := onward_checkTrailing r₁
    dsimp only at h
    split
    · rename_i hcheck
      rw [hcheck] at h hcursor'
      exact absurd ((hcursor'.trans hcursor).symm.trans h) hc
    · exact ⟨rfl, showsEnd_of_readFrame hread⟩
  · rename_i hread
    rw [hread] at h hcursor
    exact absurd (hcursor.symm.trans h) hc

/-- **So the end is reached in one way only:** the request for the next entry
answers that there is none, and the last frame was what came next. -/
theorem next_ended (h : (r.next S).2.cursor = .ended) (hc : r.cursor ≠ .ended) :
    (r.next S).1 = .ok none ∧ ShowsEnd S r.channel r.counter r.source.contents := by
  unfold next at h ⊢
  split
  · rename_i hfailed
    rw [if_pos hfailed] at h
    exact absurd h hc
  · rename_i hfailed
    rw [if_neg hfailed] at h
    split
    · rename_i hended
      exact absurd hended hc
    · rename_i hpending
      rw [hpending] at h
      exact absurd (hpending.symm.trans h) (by simp)
    all_goals
      rename_i hcursor
      rw [hcursor] at h
      exact advance_ended h hc

/-! ## Data -/

/-- Data take frames from the source, and however far they come, the end is not
reached by them. -/
theorem onward_pour (S : Suite) (info : FileInfo) (remaining : Nat) (r : Reader) (sink : Sink)
    (hc : r.cursor ≠ .ended) :
    Onward r (pour S info remaining r sink).2.1 ∧
      (pour S info remaining r sink).2.1.cursor ≠ .ended := by
  -- along the frames of data: each leaves the reader in the entry, or stops it there
  fun_induction pour S info remaining r sink with
  | case1 r sink => exact ⟨.refl r, hc⟩
  | case2 remaining r sink _ e r₁ hread =>
    obtain ⟨hframe, hcursor⟩ := onward_readFrame S r
    rw [hread] at hframe hcursor
    exact ⟨hframe, by rwa [hcursor]⟩
  | case3 remaining r sink _ chunk r₁ hread _ result r₂ hfail =>
    obtain ⟨hframe, hcursor⟩ := onward_readFrame S r
    rw [hread] at hframe hcursor
    obtain ⟨-, rfl⟩ := Prod.mk.inj hfail
    exact ⟨hframe.stand rfl rfl, fun hended => hc (hcursor.symm.trans hended)⟩
  | case4 remaining r sink _ chunk r₁ hread _ e sink₁ hwrite =>
    obtain ⟨hframe, hcursor⟩ := onward_readFrame S r
    rw [hread] at hframe hcursor
    exact ⟨hframe, fun hended => hc (hcursor.symm.trans hended)⟩
  | case5 remaining r sink _ chunk r₁ hread _ sink₁ hwrite left ih =>
    obtain ⟨hframe, -⟩ := onward_readFrame S r
    rw [hread] at hframe
    obtain ⟨hrest, hcursor⟩ := ih (by simp)
    have hmoved : Onward r { r₁ with cursor := .pending info left } := hframe.stand rfl rfl
    exact ⟨hmoved.trans hrest, hcursor⟩
  | case6 remaining r sink _ f r₁ hne hread result r₂ hfail =>
    obtain ⟨hframe, hcursor⟩ := onward_readFrame S r
    rw [hread] at hframe hcursor
    obtain ⟨-, rfl⟩ := Prod.mk.inj hfail
    exact ⟨hframe.stand rfl rfl, fun hended => hc (hcursor.symm.trans hended)⟩

/-- **Reading data does not lead to the end.** -/
theorem onward_readInto (S : Suite) (r : Reader) (sink : Sink) :
    Onward r (r.readInto S sink).2.1 ∧
      ((r.readInto S sink).2.1.cursor = .ended → r.cursor = .ended) := by
  unfold readInto
  split
  · exact ⟨.refl r, id⟩
  · split
    · exact ⟨.refl r, id⟩
    · exact ⟨.refl r, id⟩
    · exact ⟨.refl r, id⟩
    · rename_i info remaining hcursor
      split
      · exact ⟨.refl r, id⟩
      · have hc : r.cursor ≠ .ended := by simp [hcursor]
        obtain ⟨honward, hne⟩ := onward_pour S info remaining r sink hc
        split
        · rename_i hpour
          rw [hpour] at honward hne
          exact ⟨honward, fun hended => absurd hended hne⟩
        · rename_i hpour
          rw [hpour] at honward hne
          split
          · exact ⟨honward, fun hended => absurd hended hne⟩
          · exact ⟨honward.stand rfl rfl, fun hended => absurd hended (by simp)⟩

/-! ## Steady sources -/

/-- A source that does not fail is none that fails later. -/
theorem steady_take (h : r.source.Steady) (n : Nat) : (r.take n).2.source.Steady := by
  have hsteady : (r.source.takeExactly n).2.Steady := h.takeInto .empty n
  unfold take
  rcases htaken : r.source.takeExactly n with ⟨taken, source⟩
  rw [htaken] at hsteady
  cases taken <;> exact hsteady

/-- Nor does it fail after a frame was read from it. -/
theorem steady_readFrame (S : Suite) (h : r.source.Steady) :
    (r.readFrame S).2.source.Steady := by
  have hfirst := steady_take h 4
  unfold readFrame
  rcases htake : r.take 4 with ⟨e | written, r₁⟩
  · rw [htake] at hfirst
    exact hfirst
  · rw [htake] at hfirst
    dsimp only
    split
    · exact hfirst
    · have hsecond := steady_take hfirst (Bytes.toNat written)
      rcases htake' : r₁.take (Bytes.toNat written) with ⟨e | sealed, r₂⟩
      · rw [htake'] at hsecond
        exact hsecond
      · rw [htake'] at hsecond
        dsimp only
        split <;> exact hsecond

/-- Nor after the look behind the last frame. -/
theorem steady_checkTrailing (h : r.source.Steady) : r.checkTrailing.2.source.Steady := by
  have hsteady : (r.source.read 1).2.Steady := h.read 1
  unfold checkTrailing
  rcases hread : r.source.read 1 with ⟨single, source⟩
  rw [hread] at hsteady
  cases single with
  | got b =>
    dsimp only
    split <;> exact hsteady
  | ended => exact hsteady
  | failed e => exact hsteady

/-- Nor after the step to the next entry. -/
theorem steady_advance (S : Suite) (h : r.source.Steady) : (r.advance S).2.source.Steady := by
  have hframe := steady_readFrame S h
  unfold advance
  split
  · rename_i hread
    rw [hread] at hframe
    exact hframe
  · rename_i hread
    rw [hread] at hframe
    exact hframe
  · rename_i r₁ hread
    rw [hread] at hframe
    have htrailing := steady_checkTrailing (r := r₁) hframe
    split
    · rename_i hcheck
      rw [hcheck] at htrailing
      exact htrailing
    · rename_i hcheck
      rw [hcheck] at htrailing
      exact htrailing
  · rename_i hread
    rw [hread] at hframe
    exact hframe

/-- Nor after a request for it. -/
theorem steady_next (S : Suite) (h : r.source.Steady) : (r.next S).2.source.Steady := by
  unfold next
  split
  · exact h
  · split
    · exact h
    · exact h
    all_goals exact steady_advance S h

/-- Nor after frames of data, whatever became of the sink. -/
theorem steady_pour (S : Suite) (info : FileInfo) (remaining : Nat) (sink : Sink)
    (h : r.source.Steady) : (pour S info remaining r sink).2.1.source.Steady := by
  have hframe := fun r => steady_readFrame (r := r) S
  fun_induction pour S info remaining r sink with
  | case1 => exact h
  | case2 remaining r sink _ e r₁ hread =>
    have hsteady := hframe r h
    rw [hread] at hsteady
    exact hsteady
  | case3 remaining r sink _ chunk r₁ hread _ result r₂ hfail =>
    have hsteady := hframe r h
    rw [hread] at hsteady
    obtain ⟨-, rfl⟩ := Prod.mk.inj hfail
    exact hsteady
  | case4 remaining r sink _ chunk r₁ hread _ e sink₁ hwrite =>
    have hsteady := hframe r h
    rw [hread] at hsteady
    exact hsteady
  | case5 remaining r sink _ chunk r₁ hread _ sink₁ hwrite left ih =>
    have hsteady := hframe r h
    rw [hread] at hsteady
    exact ih hsteady
  | case6 remaining r sink _ f r₁ hne hread result r₂ hfail =>
    have hsteady := hframe r h
    rw [hread] at hsteady
    obtain ⟨-, rfl⟩ := Prod.mk.inj hfail
    exact hsteady

/-- And so a steady source stays steady through every operation of the reader.
-/
theorem steady_readInto (S : Suite) (sink : Sink) (h : r.source.Steady) :
    (r.readInto S sink).2.1.source.Steady := by
  unfold readInto
  split
  · exact h
  · split
    · exact h
    · exact h
    · exact h
    · rename_i info remaining _
      split
      · exact h
      · have hpour := steady_pour S info remaining sink h
        split
        · rename_i hp
          rw [hp] at hpour
          exact hpour
        · rename_i hp
          rw [hp] at hpour
          split <;> exact hpour

end Reader

end Payload

end Lockbox
