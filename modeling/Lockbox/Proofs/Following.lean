import Lockbox.Opening
import Lockbox.Proofs.Supply
/-!
# Lockbox — what a reader tells

Whoever reads a payload is told its entries and their bytes, item by item.
A supply of frames that ends with the last frame lets a reader tell only
what the frames show, in their order and from the start: `Stands` is what
every call keeps, whatever its sink does with the bytes, and `Tells` adds
what was told if the sinks take everything. Neither asks whether the calls
come in a sensible order.
-/

namespace Lockbox

namespace Payload

namespace Supply

variable {S : Suite} {channel : Channel} {frames : List Frame} {p : Supply S channel frames}
  {r r' : Reader}

/-- Only the last of the frames is the last frame. -/
def Ends (frames : List Frame) : Prop := ∀ k, frames[k]? = some .finish → k + 1 = frames.length

/-- **A script ends with its END frame,** and has no other. -/
theorem ends_script (entries : List (FileInfo × Bytes)) : Ends (Frame.script entries) := by
  intro k hk
  have hnot := Frame.finish_notMem_ofEntries entries
  rw [Frame.script, List.getElem?_append] at hk
  split at hk
  · exact absurd (List.mem_of_getElem? hk) hnot
  · have hlt := (List.getElem?_eq_some_iff.mp hk).1
    rw [Frame.script, List.length_append]
    rw [List.length_singleton] at hlt ⊢
    omega

/-- Where a reader with a supply stands: among the frames, after the last
one, or nowhere any more. -/
inductive Stands (p : Supply S channel frames) (allowTrailing : Bool) (r : Reader) : Prop where
  | reading (h : p.Feeds r) (hc : r.cursor ≠ .ended) (ht : r.allowTrailing = allowTrailing)
  | ended (hf : r.failed = false) (hc : r.cursor = .ended) (h : p.Concluded allowTrailing)
  | failed (h : r.failed = true)

/-- What becomes of reading on after an entry: the next one is announced,
the payload ends, or the reader fails. -/
theorem Feeds.advance_cases (h : p.Feeds r) (hends : Ends frames)
    {result : Except Error (Option FileInfo)} (hr : r.advance S = (result, r')) :
    (∃ name size, result = .ok (some ⟨name.val, size⟩) ∧
      frames[r.counter]? = some (.file name size) ∧ p.Feeds r' ∧ r'.counter = r.counter + 1 ∧
      r'.cursor = .pending ⟨name.val, size⟩ size.toNat ∧ r'.allowTrailing = r.allowTrailing) ∨
    (result = .ok none ∧ r.counter + 1 = frames.length ∧ frames[r.counter]? = some .finish ∧
      r'.failed = false ∧ r'.cursor = .ended ∧ p.Concluded r.allowTrailing) ∨
    ∃ e, result = .error e ∧ r'.failed = true := by
  unfold Reader.advance at hr
  split at hr
  · rename_i e r₁ hframe
    obtain ⟨hresult, rfl⟩ := Prod.mk.inj hr
    exact .inr (.inr ⟨e, hresult.symm, (Reader.readFrame_error (p.steady h.source) hframe).2.1⟩)
  · rename_i name size r₁ hframe
    obtain ⟨hresult, rfl⟩ := Prod.mk.inj hr
    obtain ⟨hget, hfeeds, hcounter, -, htr⟩ := h.readFrame_ok hframe
    exact .inl ⟨name, size, hresult.symm, hget, hfeeds.withCursor _, hcounter, rfl, htr⟩
  · rename_i r₁ hframe
    obtain ⟨hget, hfeeds, hcounter, -, htr⟩ := h.readFrame_ok hframe
    -- the frame that says so is indeed the last
    have hlast := hends _ hget
    split at hr
    · rename_i e r₂ hcheck
      obtain ⟨hresult, rfl⟩ := Prod.mk.inj hr
      exact .inr (.inr ⟨e, hresult.symm,
        (Reader.checkTrailing_error (p.steady hfeeds.source) hcheck).2.1⟩)
    · rename_i r₂ hcheck
      obtain ⟨hresult, rfl⟩ := Prod.mk.inj hr
      have hsame := Reader.checkTrailing_ok hcheck
      refine .inr (.inl ⟨hresult.symm, hlast, hget, ?_, rfl, r₁, hfeeds, ?_, htr, by rw [hcheck]⟩)
      · rw [hsame]
        exact hfeeds.sound
      · rw [hcounter, hlast]
  · rename_i chunk r₁ hframe
    obtain ⟨hresult, rfl⟩ := Prod.mk.inj hr
    exact .inr (.inr ⟨_, hresult.symm, rfl⟩)

/-- To ask for the next entry is to be refused, to be told again that there
is none, or to read on. -/
theorem next_cases {result : Except Error (Option FileInfo)} (hr : r.next S = (result, r')) :
    (r' = r ∧ ∃ e, result = .error e) ∨
    (r' = r ∧ result = .ok none ∧ r.failed = false ∧ r.cursor = .ended) ∨
    (r.advance S = (result, r') ∧ r.failed = false ∧ r.cursor ≠ .ended) := by
  unfold Reader.next at hr
  split at hr
  · obtain ⟨hresult, rfl⟩ := Prod.mk.inj hr
    exact .inl ⟨rfl, _, hresult.symm⟩
  · rename_i hsound
    have hsound : r.failed = false := by simpa using hsound
    split at hr
    · rename_i hcursor
      obtain ⟨hresult, rfl⟩ := Prod.mk.inj hr
      exact .inr (.inl ⟨rfl, hresult.symm, hsound, hcursor⟩)
    · obtain ⟨hresult, rfl⟩ := Prod.mk.inj hr
      exact .inl ⟨rfl, _, hresult.symm⟩
    all_goals
      rename_i hcursor
      exact .inr (.inr ⟨hr, hsound, by simp [hcursor]⟩)

/-! ## Whatever the sinks do

A sink that fails leaves an entry unread, and the reader does not get to the
next one. Where the reader stands is kept all the same, so the end is
reached behind all frames only. -/

variable {allowTrailing : Bool}

/-- Asking for the next entry keeps the reader where it may stand, and only
at the end there is none. -/
theorem Stands.next (h : p.Stands allowTrailing r) (hends : Ends frames)
    {result : Except Error (Option FileInfo)} (hr : r.next S = (result, r')) :
    p.Stands allowTrailing r' ∧ (result = .ok none → p.Concluded allowTrailing) := by
  rcases next_cases hr with ⟨rfl, e, rfl⟩ | ⟨rfl, rfl, hsound, hcursor⟩ | ⟨hadvance, hsound, hcursor⟩
  · exact ⟨h, fun hnone => absurd hnone (by simp)⟩
  · cases h with
    | reading _ hc => exact absurd hcursor hc
    | ended hf hc hend => exact ⟨.ended hf hc hend, fun _ => hend⟩
    | failed hf => exact absurd (hsound.symm.trans hf) (by simp)
  · cases h with
    | reading hfeeds hc ht =>
      obtain ⟨name, size, rfl, -, hfeeds', -, hcursor', ht'⟩ | ⟨rfl, -, -, hf, hc', hend⟩ |
        ⟨e, rfl, hf⟩ := hfeeds.advance_cases hends hadvance
      · exact ⟨.reading hfeeds' (by simp [hcursor']) (ht'.trans ht), fun hnone => absurd hnone (by simp)⟩
      · rw [ht] at hend
        exact ⟨.ended hf hc' hend, fun _ => hend⟩
      · exact ⟨.failed hf, fun hnone => absurd hnone (by simp)⟩
    | ended _ hc _ => exact absurd hc hcursor
    | failed hf => exact absurd (hsound.symm.trans hf) (by simp)

/-- Pouring out data leaves the reader among the frames, or it has failed. -/
theorem Feeds.pour_stands {info : FileInfo} {remaining : Nat} {sink : Sink} (h : p.Feeds r)
    (hc : r.cursor ≠ .ended) (ht : r.allowTrailing = allowTrailing)
    (hr : (Reader.pour S info remaining r sink).2.1 = r') :
    p.Feeds r' ∧ r'.cursor ≠ .ended ∧ r'.allowTrailing = allowTrailing ∨ r'.failed = true := by
  fun_induction Reader.pour S info remaining r sink with
  | case1 => exact .inl (hr ▸ ⟨h, hc, ht⟩)
  | case2 remaining r sink _ e r₁ hframe =>
    exact .inr (hr ▸ (Reader.readFrame_error (p.steady h.source) hframe).2.1)
  | case3 remaining r sink _ chunk r₁ hframe _ result r₂ hfail =>
    obtain ⟨-, rfl⟩ := Prod.mk.inj hfail
    exact .inr (hr ▸ rfl)
  | case4 remaining r sink _ chunk r₁ hframe _ e sink₁ hwrite =>
    obtain ⟨-, hfeeds, -, hcursor, htr⟩ := h.readFrame_ok hframe
    exact .inl (hr ▸ ⟨hfeeds, by rwa [hcursor], htr.trans ht⟩)
  | case5 remaining r sink _ chunk r₁ hframe _ sink₁ hwrite left ih =>
    obtain ⟨-, hfeeds, -, -, htr⟩ := h.readFrame_ok hframe
    exact ih (hfeeds.withCursor _) (by simp) (htr.trans ht) hr
  | case6 remaining r sink _ f r₁ hne hframe result r₂ hfail =>
    obtain ⟨-, rfl⟩ := Prod.mk.inj hfail
    exact .inr (hr ▸ rfl)

/-- To ask for data is to be refused, or to have them poured out. -/
theorem readInto_cases {sink sink' : Sink} {result : Except Error UInt64}
    (hr : r.readInto S sink = (result, r', sink')) :
    (r' = r ∧ sink' = sink) ∨
    ∃ info remaining r₁, r.failed = false ∧ r.cursor = .pending info remaining ∧
      (Reader.pour S info remaining r sink).2 = (r₁, sink') ∧
      (r' = r₁ ∨ r' = { r₁ with cursor := .consumed } ∧
        (Reader.pour S info remaining r sink).1 = .ok ()) := by
  unfold Reader.readInto at hr
  split at hr
  · obtain ⟨-, hr'⟩ := Prod.mk.inj hr
    obtain ⟨rfl, rfl⟩ := Prod.mk.inj hr'
    exact .inl ⟨rfl, rfl⟩
  · rename_i hsound
    split at hr
    · obtain ⟨-, hr'⟩ := Prod.mk.inj hr
      obtain ⟨rfl, rfl⟩ := Prod.mk.inj hr'
      exact .inl ⟨rfl, rfl⟩
    · obtain ⟨-, hr'⟩ := Prod.mk.inj hr
      obtain ⟨rfl, rfl⟩ := Prod.mk.inj hr'
      exact .inl ⟨rfl, rfl⟩
    · obtain ⟨-, hr'⟩ := Prod.mk.inj hr
      obtain ⟨rfl, rfl⟩ := Prod.mk.inj hr'
      exact .inl ⟨rfl, rfl⟩
    · rename_i info remaining hcursor
      split at hr
      · obtain ⟨-, hr'⟩ := Prod.mk.inj hr
        obtain ⟨rfl, rfl⟩ := Prod.mk.inj hr'
        exact .inl ⟨rfl, rfl⟩
      · refine .inr ⟨info, remaining, ?_⟩
        have hsound : r.failed = false := by simpa using hsound
        split at hr
        · rename_i e r₁ sink₁ hpour
          obtain ⟨-, hr'⟩ := Prod.mk.inj hr
          obtain ⟨rfl, rfl⟩ := Prod.mk.inj hr'
          exact ⟨r₁, hsound, hcursor, by rw [hpour], .inl rfl⟩
        · rename_i r₁ sink₁ hpour
          refine ⟨r₁, hsound, hcursor, ?_⟩
          split at hr
          · obtain ⟨-, hr'⟩ := Prod.mk.inj hr
            obtain ⟨rfl, rfl⟩ := Prod.mk.inj hr'
            exact ⟨by rw [hpour], .inl rfl⟩
          · obtain ⟨-, hr'⟩ := Prod.mk.inj hr
            obtain ⟨rfl, rfl⟩ := Prod.mk.inj hr'
            exact ⟨by rw [hpour], .inr ⟨rfl, by rw [hpour]⟩⟩

/-- Asking for data keeps the reader where it may stand. -/
theorem Stands.readInto (h : p.Stands allowTrailing r) {sink sink' : Sink}
    {result : Except Error UInt64} (hr : r.readInto S sink = (result, r', sink')) :
    p.Stands allowTrailing r' := by
  rcases readInto_cases hr with ⟨rfl, -⟩ | ⟨info, remaining, r₁, hsound, hcursor, hpour, hr'⟩
  · exact h
  · cases h with
    | reading hfeeds hc ht =>
      rcases hfeeds.pour_stands hc ht (congrArg Prod.fst hpour) with ⟨hfeeds₁, hc₁, ht₁⟩ | hfailed
      · rcases hr' with rfl | ⟨rfl, -⟩
        · exact .reading hfeeds₁ hc₁ ht₁
        · exact .reading (hfeeds₁.withCursor _) (by simp) ht₁
      · rcases hr' with rfl | ⟨rfl, -⟩
        · exact .failed hfailed
        · exact .failed hfailed
    | ended _ hended _ => exact absurd (hcursor.symm.trans hended) (by simp)
    | failed hf => exact absurd (hsound.symm.trans hf) (by simp)

/-- **What could be drained has ended,** whatever the consumer does. -/
theorem Stands.drain {γ : Type} {k : Consumer γ} {c c' : γ} {count n : Nat}
    (h : p.Stands allowTrailing r) (hends : Ends frames)
    (hr : Opening.drain S k count r c = (.ok n, r', c')) : p.Concluded allowTrailing := by
  fun_induction Opening.drain S k count r c with
  | case1 => exact absurd (Prod.mk.inj hr).1 (by simp)
  | case2 count r c r₁ hnext => exact (h.next hends hnext).2 rfl
  | case3 => exact absurd (Prod.mk.inj hr).1 (by simp)
  | case4 => exact absurd (Prod.mk.inj hr).1 (by simp)
  | case5 => exact absurd (Prod.mk.inj hr).1 (by simp)
  | case6 count r c info r₁ hnext sink c₁ hopen size r₂ sink₂ hread _ c₂ hclose ih =>
    exact ih ((h.next hends hnext).1.readInto hread) hr

/-! ## Where the sinks take everything

What is told is compared with the items of the frames, up to the place that
the reader has come to. -/

/-- What was told so far, `t`, is what the frames show that were read, all
of it after the last one, and a beginning of it in any case. -/
inductive Tells (p : Supply S channel frames) (t : List Item) (r : Reader) : Prop where
  | reading (h : p.Feeds r) (hc : r.cursor ≠ .ended)
      (ht : t = Item.ofFrames (frames.take r.counter))
  | ended (hf : r.failed = false) (hc : r.cursor = .ended) (ht : t = Item.ofFrames frames)
  | failed (hf : r.failed = true) (ht : t <+: Item.ofFrames frames)

theorem ofFrames_take_le (n : Nat) :
    Item.ofFrames (frames.take n) <+: Item.ofFrames frames := by
  obtain ⟨rest, hrest⟩ := List.take_prefix n frames
  exact ⟨Item.ofFrames rest, by rw [← Item.ofFrames_append, hrest]⟩

/-- One frame more is its item more. -/
theorem ofFrames_take_succ {n : Nat} {f : Frame} (h : frames[n]? = some f) :
    Item.ofFrames (frames.take (n + 1)) = Item.ofFrames (frames.take n) ++ Item.ofFrame f := by
  obtain ⟨hlt, rfl⟩ := List.getElem?_eq_some_iff.mp h
  rw [List.take_succ_eq_append_getElem hlt, Item.ofFrames_append, Item.ofFrames_cons,
    Item.ofFrames_nil, List.append_nil]

/-- What was told is a beginning of what the frames say. -/
theorem Tells.beginning {t : List Item} (h : p.Tells t r) : t <+: Item.ofFrames frames := by
  cases h with
  | reading _ _ ht => exact ht ▸ ofFrames_take_le _
  | ended _ _ ht => exact ht ▸ List.prefix_refl _
  | failed _ ht => exact ht

/-- What the answer to a question for the next entry tells. -/
def told : Except Error (Option FileInfo) → List Item
  | .ok (some info) => [.entry info]
  | .ok none => []
  | .error _ => []

/-- **The entries that are announced are those of the frames,** and there
are none only after all of them. -/
theorem Tells.next {t : List Item} (h : p.Tells t r) (hends : Ends frames)
    {result : Except Error (Option FileInfo)} (hr : r.next S = (result, r')) :
    p.Tells (t ++ told result) r' ∧ (result = .ok none → t = Item.ofFrames frames) := by
  rcases next_cases hr with ⟨rfl, e, rfl⟩ | ⟨rfl, rfl, hsound, hcursor⟩ | ⟨hadvance, hsound, hcursor⟩
  · rw [told, List.append_nil]
    exact ⟨h, fun hnone => absurd hnone (by simp)⟩
  · rw [told, List.append_nil]
    cases h with
    | reading _ hc _ => exact absurd hcursor hc
    | ended hf hc ht => exact ⟨.ended hf hc ht, fun _ => ht⟩
    | failed hf _ => exact absurd (hsound.symm.trans hf) (by simp)
  · cases h with
    | reading hfeeds hc ht =>
      obtain ⟨name, size, rfl, hget, hfeeds', hcounter, hcursor', -⟩ |
        ⟨rfl, hlast, hget, hf, hc', -⟩ | ⟨e, rfl, hf⟩ := hfeeds.advance_cases hends hadvance
      · refine ⟨.reading hfeeds' (by simp [hcursor']) ?_, fun hnone => absurd hnone (by simp)⟩
        rw [hcounter, ofFrames_take_succ hget, ht]
        rfl
      · -- the last frame shows nothing, so all was told before it
        have hall : t = Item.ofFrames frames := by
          have htake := ofFrames_take_succ hget
          rw [hlast, List.take_length, Item.ofFrame, List.append_nil] at htake
          rw [ht, htake]
        rw [told, List.append_nil]
        exact ⟨.ended hf hc' hall, fun _ => hall⟩
      · rw [told, List.append_nil, ht]
        exact ⟨.failed hf (ofFrames_take_le _), fun hnone => absurd hnone (by simp)⟩
    | ended _ hc _ => exact absurd hc hcursor
    | failed hf _ => exact absurd (hsound.symm.trans hf) (by simp)

/-- What is poured out is what the frames show. -/
theorem Feeds.pour_told {info : FileInfo} {remaining : Nat} {sink sink' : Sink} (h : p.Feeds r)
    (hsink : sink.Unbounded) (hr : (Reader.pour S info remaining r sink).2 = (r', sink')) :
    ∃ data, sink'.accepted = sink.accepted ++ data ∧
      Item.ofFrames (frames.take r.counter) ++ Item.ofData data <+: Item.ofFrames frames ∧
      (r'.failed = false →
        Item.ofFrames (frames.take r'.counter)
          = Item.ofFrames (frames.take r.counter) ++ Item.ofData data) := by
  fun_induction Reader.pour S info remaining r sink with
  | case1 r sink =>
    obtain ⟨rfl, rfl⟩ := Prod.mk.inj hr
    exact ⟨[], by simp, by simpa using ofFrames_take_le _, fun _ => by simp⟩
  | case2 remaining r sink _ e r₁ hframe =>
    obtain ⟨rfl, rfl⟩ := Prod.mk.inj hr
    have hf := (Reader.readFrame_error (p.steady h.source) hframe).2.1
    exact ⟨[], by simp, by simpa using ofFrames_take_le _,
      fun hsound => absurd (hsound.symm.trans hf) (by simp)⟩
  | case3 remaining r sink _ chunk r₁ hframe _ result r₂ hfail =>
    obtain ⟨rfl, rfl⟩ := Prod.mk.inj hr
    obtain ⟨-, rfl⟩ := Prod.mk.inj hfail
    exact ⟨[], by simp, by simpa using ofFrames_take_le _,
      fun hsound => absurd hsound (by simp)⟩
  | case4 remaining r sink _ chunk r₁ hframe _ e sink₁ hwrite =>
    -- the sink does not refuse
    obtain ⟨sink₂, hwrite₂, -⟩ := hsink.write chunk.val
    rw [hwrite] at hwrite₂
    exact absurd (Prod.mk.inj hwrite₂).1 (by simp)
  | case5 remaining r sink _ chunk r₁ hframe _ sink₁ hwrite left ih =>
    obtain ⟨sink₂, hwrite₂, hsink₂, haccepted⟩ := hsink.write chunk.val
    rw [hwrite] at hwrite₂
    obtain rfl := (Prod.mk.inj hwrite₂).2
    obtain ⟨hget, hfeeds, hcounter, -, -⟩ := h.readFrame_ok hframe
    obtain ⟨data, hdata, hbegins, hsame⟩ := ih (hfeeds.withCursor _) hsink₂ hr
    have htake : Item.ofFrames (frames.take r₁.counter)
        = Item.ofFrames (frames.take r.counter) ++ Item.ofData chunk.val := by
      rw [hcounter]
      exact ofFrames_take_succ hget
    refine ⟨chunk.val ++ data, by rw [hdata, haccepted, List.append_assoc], ?_, fun hsound => ?_⟩
    · rw [Item.ofData_append, ← List.append_assoc, ← htake]
      exact hbegins
    · rw [Item.ofData_append, ← List.append_assoc, ← htake]
      exact hsame hsound
  | case6 remaining r sink _ f r₁ hne hframe result r₂ hfail =>
    obtain ⟨rfl, rfl⟩ := Prod.mk.inj hr
    obtain ⟨-, rfl⟩ := Prod.mk.inj hfail
    exact ⟨[], by simp, by simpa using ofFrames_take_le _,
      fun hsound => absurd hsound (by simp)⟩

/-- **The bytes that are delivered are those of the frames.** -/
theorem Tells.readInto {t : List Item} (h : p.Tells t r) {sink sink' : Sink}
    (hsink : sink.Unbounded) {result : Except Error UInt64}
    (hr : r.readInto S sink = (result, r', sink')) :
    p.Tells (t ++ Item.ofData (sink'.accepted.drop sink.accepted.length)) r' := by
  rcases readInto_cases hr with ⟨rfl, rfl⟩ | ⟨info, remaining, r₁, hsound, hcursor, hpour, hr'⟩
  · rw [List.drop_length, Item.ofData_nil, List.append_nil]
    exact h
  · cases h with
    | reading hfeeds hc ht =>
      obtain ⟨data, hdata, hbegins, hsame⟩ := hfeeds.pour_told hsink hpour
      rw [hdata, List.drop_left, ht]
      rcases hfeeds.pour_stands hc rfl (congrArg Prod.fst hpour) with ⟨hfeeds₁, hc₁, -⟩ | hfailed
      · rcases hr' with rfl | ⟨rfl, -⟩
        · exact .reading hfeeds₁ hc₁ (hsame hfeeds₁.sound).symm
        · exact .reading (hfeeds₁.withCursor _) (by simp) (hsame hfeeds₁.sound).symm
      · rcases hr' with rfl | ⟨rfl, -⟩
        · exact .failed hfailed hbegins
        · exact .failed hfailed hbegins
    | ended _ hended _ => exact absurd (hcursor.symm.trans hended) (by simp)
    | failed hf _ => exact absurd (hsound.symm.trans hf) (by simp)

end Supply

end Payload

/-! ## Sessions -/

namespace Opening

variable {τ : Type}

/-- The calls that read entries. -/
inductive Call where
  | nextFile
  | readContent (sink : Sink)

/-- One call, with what was told before and what is told after it. -/
def Call.apply : Call → List Item × Opening τ → List Item × Opening τ
  | .nextFile, (t, s) => (t ++ Payload.Supply.told s.nextFile.1, s.nextFile.2)
  | .readContent sink, (t, s) =>
    (t ++ Item.ofData ((s.readContent sink).2.2.accepted.drop sink.accepted.length),
      (s.readContent sink).2.1)

/-- All calls, one after the other, with everything that is told. -/
def follow (calls : List Call) (s : Opening τ) : List Item × Opening τ :=
  calls.foldl (fun state call => call.apply state) ([], s)

/-- All sinks of the calls take everything. -/
def Unfailing (calls : List Call) : Prop := ∀ sink, Call.readContent sink ∈ calls → sink.Unbounded

/-- The reader of the session tells what a supply lets it. -/
def Tells {S : Suite} {channel : Channel} {frames : List Frame}
    (p : Payload.Supply S channel frames) (t : List Item) (s : Opening τ) : Prop :=
  s.smith.suite = S ∧ ∃ fmk r, s.stage = .decrypting fmk r ∧ p.Tells t r

section

variable {S : Suite} {channel : Channel} {frames : List Frame}
  {p : Payload.Supply S channel frames} {t : List Item} {s : Opening τ}

/-- What a call reports comes next in the frames. -/
theorem Tells.apply (h : Tells p t s) (hends : Payload.Supply.Ends frames) {call : Call}
    (hsink : ∀ sink, call = .readContent sink → sink.Unbounded) :
    Tells p (call.apply (t, s)).1 (call.apply (t, s)).2 := by
  obtain ⟨rfl, fmk, r, hstage, htells⟩ := h
  cases call with
  | nextFile =>
    simp only [Call.apply, nextFile, hstage]
    exact ⟨rfl, fmk, _, rfl, (htells.next hends rfl).1⟩
  | readContent sink =>
    simp only [Call.apply, readContent, hstage]
    exact ⟨rfl, fmk, _, rfl, htells.readInto (hsink sink rfl) rfl⟩

/-- **Whatever calls are made, in whatever order,** what is told is a
beginning of what the frames show, and all of it where there is no next
entry. -/
theorem Tells.follow (h : Tells p [] s) (hends : Payload.Supply.Ends frames) {calls : List Call}
    (hsinks : Unfailing calls) :
    (follow calls s).1 <+: Item.ofFrames frames ∧
      ((follow calls s).2.nextFile.1 = .ok none → (follow calls s).1 = Item.ofFrames frames) := by
  have hrun : ∀ (calls : List Call) (t : List Item) (s : Opening τ), Unfailing calls →
      Tells p t s → Tells p (calls.foldl (fun state call => call.apply state) (t, s)).1
        (calls.foldl (fun state call => call.apply state) (t, s)).2 := by
    intro calls
    induction calls with
    | nil => exact fun t s _ h => h
    | cons call calls ih =>
      intro t s hsinks h
      refine ih _ _ (fun sink hmem => hsinks sink (List.mem_cons_of_mem _ hmem)) ?_
      exact h.apply hends fun sink hcall => hsinks sink (hcall ▸ List.mem_cons_self)
  obtain ⟨hsuite, fmk, r, hstage, htells⟩ := hrun calls [] s hsinks h
  refine ⟨htells.beginning, fun hnone => ?_⟩
  have hnext : (Opening.follow calls s).2.nextFile.1 = (r.next S).1 := by
    have hstage : (Opening.follow calls s).2.stage = .decrypting fmk r := hstage
    have hsuite : (Opening.follow calls s).2.smith.suite = S := hsuite
    simp only [nextFile, hstage, hsuite]
  rw [hnext] at hnone
  exact (htells.next hends (Prod.ext hnone rfl)).2 rfl

end

end Opening

end Lockbox
