import Lockbox.Opening
import Lockbox.Proofs.Supply
/-!
# Lockbox — reading a payload that follows its script

A reader that is supplied with the frames of a script reads them as they
were meant: the data of an entry (`pour_script`), the announcement of the
next one or the end (`next_script`), all entries (`drain_script`). Each of
these may fail, but only for want of a frame or for what follows the last
one, and what was read until then is a beginning of the script.
-/

namespace Lockbox

/-- The consumer takes whatever comes; `view` shows the entries it was
given. -/
structure Consumer.Accepts {γ : Type} (k : Consumer γ) (view : γ → List (FileInfo × Bytes)) :
    Prop where
  opens : ∀ info c, ∃ sink c', k.openEntry info c = (.ok sink, c') ∧ sink.Unbounded ∧
    sink.accepted = [] ∧ view c' = view c
  closes : ∀ info sink c, ∃ c', k.closeEntry info sink c = (.ok (), c') ∧
    view c' = view c ++ [(info, sink.accepted)]
  aborts : ∀ info sink c, view (k.abortEntry info sink c) = view c

theorem Consumer.memory_accepts : Consumer.memory.Accepts id where
  opens _ c := ⟨.unlimited, c, rfl, Sink.unbounded_unlimited, rfl, rfl⟩
  closes _ _ _ := ⟨_, rfl, rfl⟩
  aborts _ _ _ := rfl

/-- The consumer takes these entries one after the other: while `P` tells of
what it has of them, the next one can be opened, and closed with its data
once its sink was flushed. -/
def Consumer.Takes {γ : Type} (k : Consumer γ) (P : List (FileInfo × Bytes) → γ → Prop)
    (entries : List (FileInfo × Bytes)) : Prop :=
  ∀ before e after c, entries = before ++ e :: after → P before c →
    ∃ sink c₁, k.openEntry e.1 c = (.ok sink, c₁) ∧ sink.Unbounded ∧ sink.accepted = [] ∧
      ∀ sink₁ : Sink, sink₁.accepted = e.2 → sink₁.flush = .ok () →
        ∃ c₂, k.closeEntry e.1 sink₁ c₁ = (.ok (), c₂) ∧ P (before ++ [e]) c₂

namespace Payload

namespace Supply

variable {S : Suite} {channel : Channel} {frames : List Frame} {p : Supply S channel frames}

/-- **The data of an entry are poured out as they are,** or a frame of them
could not be read. -/
theorem pour_script {info : FileInfo} {data : Bytes} {more : List Frame} {r : Reader}
    {sink : Sink} (h : p.Feeds r) (hf : frames.drop r.counter = Frame.ofData data ++ more)
    (hcursor : r.cursor = .pending info data.length) (hsink : sink.Unbounded) :
    (∃ r' sink', Reader.pour S info data.length r sink = (.ok (), r', sink') ∧ p.Feeds r' ∧
      frames.drop r'.counter = more ∧ r'.cursor = .pending info 0 ∧
      r'.allowTrailing = r.allowTrailing ∧ sink'.Unbounded ∧
      sink'.accepted = sink.accepted ++ data) ∨
    (∃ e r' sink', Reader.pour S info data.length r sink = (.error e, r', sink') ∧ p.Blames e ∧
      r'.isFinished = false) := by
  -- on the length of the data, since a frame takes a whole chunk of them
  induction hn : data.length using Nat.strongRecOn generalizing data r sink with
  | ind n ih =>
    subst hn
    by_cases hne : data = []
    · subst hne
      rw [Frame.ofData_nil, List.nil_append] at hf
      refine .inl ⟨r, sink, ?_, h, hf, hcursor, rfl, hsink, by simp⟩
      rw [Reader.pour, if_pos List.length_nil]
    · obtain ⟨chunk, hchunk, hdata⟩ := Frame.ofData_cons hne
      have hpos := List.length_pos_iff.mpr hne
      rw [hdata, List.cons_append] at hf
      rw [Reader.pour, if_neg (by omega)]
      obtain ⟨r₁, hr₁, hfeeds, hdrop, hcursor₁, htrailing⟩ | ⟨e, r₁, hr₁, hblame, hcursor₁⟩ :=
        h.step hf
      · have hfit : ¬ data.length < chunk.val.length := by
          rw [hchunk, List.length_take]
          omega
        obtain ⟨sink₁, hwrite, hsink₁, haccepted⟩ := hsink.write chunk.val
        have hleft : data.length - chunk.val.length = (data.drop chunkSize).length := by
          rw [hchunk, List.length_take, List.length_drop]
          omega
        have hless : (data.drop chunkSize).length < data.length := by
          have := chunk.property.1
          omega
        rw [hr₁]
        simp only [hfit, if_false, hwrite, hleft]
        obtain ⟨r', sink', hpour, hr', hmore, hcur', htr', hsink', hacc'⟩ | hfail :=
          ih (data.drop chunkSize).length hless
            (hfeeds.withCursor (.pending info (data.drop chunkSize).length)) hdrop rfl hsink₁ rfl
        · refine .inl ⟨r', sink', hpour, hr', hmore, hcur', htr'.trans htrailing, hsink', ?_⟩
          rw [hacc', haccepted, hchunk, List.append_assoc, List.take_append_drop]
        · exact .inr hfail
      · refine .inr ⟨e, r₁, sink, by rw [hr₁], hblame, ?_⟩
        rw [Reader.isFinished, hcursor₁, hcursor]

/-- The same for a whole entry whose data nobody has begun to read. -/
theorem readInto_script {info : FileInfo} {data : Bytes} {more : List Frame} {r : Reader}
    {sink : Sink} (h : p.Feeds r) (hf : frames.drop r.counter = Frame.ofData data ++ more)
    (hcursor : r.cursor = .pending info info.size.toNat) (hlen : data.length = info.size.toNat)
    (hsink : sink.Unbounded) :
    (∃ r' sink', r.readInto S sink = (.ok info.size, r', sink') ∧ p.Feeds r' ∧
      frames.drop r'.counter = more ∧ r'.cursor = .consumed ∧
      r'.allowTrailing = r.allowTrailing ∧ sink'.accepted = sink.accepted ++ data) ∨
    (∃ e r' sink', r.readInto S sink = (.error e, r', sink') ∧ p.Blames e ∧
      r'.isFinished = false) := by
  rw [← hlen] at hcursor
  rw [Reader.readInto, if_neg (by simp [h.sound]), hcursor]
  simp only [hlen, ne_eq, not_true, if_false]
  rw [← hlen]
  obtain ⟨r', sink', hpour, hr', hmore, -, htr', hsink', hacc'⟩ | ⟨e, r', sink', hpour, hblame, hfin⟩ :=
    pour_script h hf hcursor hsink
  · rw [hpour]
    simp only [hsink'.flush_eq]
    exact .inl ⟨_, _, rfl, hr'.withCursor _, hmore, rfl, htr', hacc'⟩
  · rw [hpour]
    exact .inr ⟨e, r', sink', rfl, hblame, hfin⟩

/-- **An announcement is told to whoever reads on.** -/
theorem advance_script {name : EntryName} {size : UInt64} {more : List Frame} {r : Reader}
    (h : p.Feeds r) (hf : frames.drop r.counter = .file name size :: more) :
    (∃ r', r.advance S = (.ok (some ⟨name.val, size⟩), r') ∧ p.Feeds r' ∧
      frames.drop r'.counter = more ∧ r'.cursor = .pending ⟨name.val, size⟩ size.toNat ∧
      r'.allowTrailing = r.allowTrailing) ∨
    (∃ e r', r.advance S = (.error e, r') ∧ p.Blames e ∧ r'.cursor = r.cursor) := by
  rw [Reader.advance]
  obtain ⟨r₁, hr₁, hfeeds, hdrop, -, htr⟩ | ⟨e, r₁, hr₁, hblame, hcursor⟩ := h.step hf
  · rw [hr₁]
    exact .inl ⟨_, rfl, hfeeds.withCursor _, hdrop, rfl, htr⟩
  · rw [hr₁]
    exact .inr ⟨e, r₁, rfl, hblame, hcursor⟩

/-- **Whoever reads on is told where the payload ends.** -/
theorem advance_finish {r : Reader} (h : p.Feeds r) (hf : frames.drop r.counter = [.finish]) :
    (∃ r', r.advance S = (.ok none, r') ∧ r'.failed = false ∧ r'.cursor = .ended ∧
      p.Concluded r.allowTrailing) ∨
    (∃ e r', r.advance S = (.error e, r') ∧ p.Blames e ∧ r'.cursor = r.cursor) := by
  rw [Reader.advance]
  obtain ⟨r₁, hr₁, hfeeds, hdrop, hcursor, htr⟩ | ⟨e, r₁, hr₁, hblame, hcursor⟩ := h.step hf
  · rw [hr₁]
    -- it was the last frame, so only what follows is left to be looked at
    have hend : r₁.counter = frames.length := by
      obtain ⟨-, -, hcounter, -⟩ := h.readFrame_ok hr₁
      have := congrArg List.length hf
      rw [List.length_drop, List.length_singleton] at this
      omega
    cases hcheck : r₁.checkTrailing with
    | mk result r₂ =>
      cases result with
      | ok u =>
        have hsound : r₂.failed = false := by
          rw [Reader.checkTrailing_ok hcheck]
          exact hfeeds.sound
        exact .inl ⟨{ r₂ with cursor := .ended }, by simp only [hcheck], hsound, rfl, r₁, hfeeds,
          hend, htr, by rw [hcheck]⟩
      | error e =>
        have hcursor₂ := (Reader.checkTrailing_error (p.steady hfeeds.source) hcheck).2.2
        exact .inr ⟨e, r₂, by simp only [hcheck], ⟨r₁, hfeeds, .inr ⟨hend, by rw [hcheck]⟩⟩,
          hcursor₂.trans hcursor⟩
  · rw [hr₁]
    exact .inr ⟨e, r₁, rfl, hblame, hcursor⟩

/-- The reader is between two entries, or before the first. -/
def Between (r : Reader) : Prop := r.cursor = .start ∨ r.cursor = .consumed

/-- Between two entries the reader goes straight on. -/
theorem Between.next_eq {r : Reader} (hb : Between r) (h : p.Feeds r) :
    r.next S = r.advance S := by
  rw [Reader.next, if_neg (by simp [h.sound])]
  rcases hb with hc | hc
  · rw [hc]
  · rw [hc]

/-- And it is not at the end. -/
theorem Between.not_finished {r r' : Reader} (hb : Between r) (hc : r'.cursor = r.cursor) :
    r'.isFinished = false := by
  rw [Reader.isFinished, hc]
  rcases hb with hc | hc
  · rw [hc]
  · rw [hc]

/-- **Between two entries the next one is announced.** -/
theorem next_script {name : EntryName} {size : UInt64} {more : List Frame} {r : Reader}
    (h : p.Feeds r) (hb : Between r) (hf : frames.drop r.counter = .file name size :: more) :
    (∃ r', r.next S = (.ok (some ⟨name.val, size⟩), r') ∧ p.Feeds r' ∧
      frames.drop r'.counter = more ∧ r'.cursor = .pending ⟨name.val, size⟩ size.toNat ∧
      r'.allowTrailing = r.allowTrailing) ∨
    (∃ e r', r.next S = (.error e, r') ∧ p.Blames e ∧ r'.isFinished = false) := by
  rw [hb.next_eq h]
  obtain hnext | ⟨e, r', hr', hblame, hcursor⟩ := advance_script h hf
  · exact .inl hnext
  · exact .inr ⟨e, r', hr', hblame, hb.not_finished hcursor⟩

/-- **After the last entry the payload ends.** -/
theorem next_finish {r : Reader} (h : p.Feeds r) (hb : Between r)
    (hf : frames.drop r.counter = [.finish]) :
    (∃ r', r.next S = (.ok none, r') ∧ r'.isFinished = true ∧ p.Concluded r.allowTrailing) ∨
    (∃ e r', r.next S = (.error e, r') ∧ p.Blames e ∧ r'.isFinished = false) := by
  rw [hb.next_eq h]
  obtain ⟨r', hr', -, hended, hconcluded⟩ | ⟨e, r', hr', hblame, hcursor⟩ := advance_finish h hf
  · exact .inl ⟨r', hr', by rw [Reader.isFinished, hended], hconcluded⟩
  · exact .inr ⟨e, r', hr', hblame, hb.not_finished hcursor⟩

/-- **All entries of a script are passed on,** or those before the failure
are, and that is to blame on a frame that could not be read or on what
follows the last one. -/
theorem drain_script {γ : Type} {k : Consumer γ} {view : γ → List (FileInfo × Bytes)}
    (hk : k.Accepts view) {todo : List (FileInfo × Bytes)} (hstorable : Storable todo)
    (hcomplete : Item.Complete todo) {r : Reader} (c : γ) (count : Nat) (h : p.Feeds r)
    (hb : Between r) (hf : frames.drop r.counter = Frame.script todo) :
    (∃ r' c', Opening.drain S k count r c = (.ok (count + todo.length), r', c') ∧
      r'.isFinished = true ∧ view c' = view c ++ todo ∧ p.Concluded r.allowTrailing) ∨
    (∃ e r' c' closed, Opening.drain S k count r c = (.error e, r', c') ∧ p.Blames e ∧
      r'.isFinished = false ∧ closed <+: todo ∧ view c' = view c ++ closed) := by
  induction todo generalizing r c count with
  | nil =>
    obtain ⟨r', hnext, hfin, hconcluded⟩ | ⟨e, r', hnext, hblame, hfin⟩ := next_finish h hb hf
    · exact .inl ⟨r', c, Opening.drain_none count hnext, hfin, by simp, hconcluded⟩
    · exact .inr ⟨e, r', c, [], Opening.drain_error count hnext, hblame, hfin, List.nil_prefix, by simp⟩
  | cons entry todo ih =>
    -- the entry is announced, its data are read, and the rest is the script of the others
    obtain ⟨⟨name, size⟩, data⟩ := entry
    obtain ⟨stored, hstored⟩ := hstorable _ List.mem_cons_self
    have hlen : data.length = size.toNat := hcomplete _ List.mem_cons_self
    have hname : stored.val = name := EntryName.ofText_eq_ok_iff.mp hstored
    have hf' : frames.drop r.counter = .file stored size :: (Frame.ofData data ++ Frame.script todo) := by
      rw [hf, Frame.script, Frame.ofEntries_cons, Frame.announce_of_ok hstored]
      simp [Frame.script]
    obtain ⟨r₁, hnext, hfeeds, hdrop, hcursor, htr⟩ | ⟨e, r₁, hnext, hblame, hfin⟩ :=
      next_script h hb hf'
    · rw [hname] at hnext hcursor
      obtain ⟨sink, c₁, hopen, hsink, hempty, hview₁⟩ := hk.opens ⟨name, size⟩ c
      obtain ⟨r₂, sink₂, hread, hfeeds₂, hdrop₂, hcursor₂, htr₂, haccepted⟩ |
        ⟨e, r₂, sink₂, hread, hblame, hfin⟩ := readInto_script hfeeds hdrop hcursor hlen hsink
      · rw [hempty, List.nil_append] at haccepted
        obtain ⟨c₂, hclose, hview₂⟩ := hk.closes ⟨name, size⟩ sink₂ c₁
        rw [haccepted, hview₁] at hview₂
        have hstorable' : Storable todo := fun e he => hstorable e (List.mem_cons_of_mem _ he)
        have hcomplete' : Item.Complete todo := fun e he => hcomplete e (List.mem_cons_of_mem _ he)
        rw [Opening.drain_entry count hnext hopen hread hclose]
        obtain ⟨r', c', hrest, hfin, hview, hconcluded⟩ |
          ⟨e, r', c', closed, hrest, hblame, hfin, hpre, hview⟩ :=
          ih hstorable' hcomplete' c₂ (count + 1) hfeeds₂ (.inr hcursor₂) hdrop₂
        · refine .inl ⟨r', c', ?_, hfin, ?_, ?_⟩
          · rw [hrest, List.length_cons]
            congr 2
            omega
          · rw [hview, hview₂, List.append_assoc]
            rfl
          · rw [← htr, ← htr₂]
            exact hconcluded
        · refine .inr ⟨e, r', c', (⟨name, size⟩, data) :: closed, hrest, hblame, hfin, ?_, ?_⟩
          · exact List.cons_prefix_cons.mpr ⟨rfl, hpre⟩
          · rw [hview, hview₂, List.append_assoc]
            rfl
      · -- its data fail, so it is aborted, and nothing of it is seen
        refine .inr ⟨e, r₂, _, [], Opening.drain_abort count hnext hopen hread, hblame, hfin,
          List.nil_prefix, ?_⟩
        rw [hk.aborts, hview₁, List.append_nil]
    · exact .inr ⟨e, r₁, c, [], Opening.drain_error count hnext, hblame, hfin, List.nil_prefix, by simp⟩

/-- **A consumer that takes the entries of a script gets them all,** if
there is nothing to blame. -/
theorem drain_takes {γ : Type} {k : Consumer γ} {P : List (FileInfo × Bytes) → γ → Prop}
    (done : List (FileInfo × Bytes)) {todo : List (FileInfo × Bytes)} (hno : ∀ e, ¬ p.Blames e)
    (hk : k.Takes P (done ++ todo))
    (hstorable : Storable todo) (hcomplete : Item.Complete todo) {r : Reader} {c : γ}
    (h : p.Feeds r) (hb : Between r) (hf : frames.drop r.counter = Frame.script todo)
    (hc : P done c) :
    ∃ r' c', Opening.drain S k done.length r c = (.ok (done ++ todo).length, r', c') ∧
      P (done ++ todo) c' := by
  induction todo generalizing done r c with
  | nil =>
    obtain ⟨r', hnext, -⟩ | ⟨e, r', hnext, hblame, -⟩ := next_finish h hb hf
    · rw [List.append_nil]
      exact ⟨r', c, Opening.drain_none _ hnext, hc⟩
    · exact absurd hblame (hno e)
  | cons entry todo ih =>
    obtain ⟨⟨name, size⟩, data⟩ := entry
    obtain ⟨stored, hstored⟩ := hstorable _ List.mem_cons_self
    have hlen : data.length = size.toNat := hcomplete _ List.mem_cons_self
    have hname : stored.val = name := EntryName.ofText_eq_ok_iff.mp hstored
    have hf' : frames.drop r.counter = .file stored size :: (Frame.ofData data ++ Frame.script todo) := by
      rw [hf, Frame.script, Frame.ofEntries_cons, Frame.announce_of_ok hstored]
      simp [Frame.script]
    obtain ⟨r₁, hnext, hfeeds, hdrop, hcursor, -⟩ | ⟨e, r₁, -, hblame, -⟩ := next_script h hb hf'
    · rw [hname] at hnext hcursor
      obtain ⟨sink, c₁, hopen, hsink, hempty, hclose⟩ := hk done _ todo c rfl hc
      obtain ⟨r₂, sink₂, hread, hfeeds₂, hdrop₂, hcursor₂, -, haccepted⟩ | ⟨e, -, -, -, hblame, -⟩ :=
        readInto_script hfeeds hdrop hcursor hlen hsink
      · rw [hempty, List.nil_append] at haccepted
        obtain ⟨c₂, hclosed, hc₂⟩ := hclose sink₂ haccepted (Reader.flush_of_readInto hread)
        have hlater := ih (done ++ [(⟨name, size⟩, data)])
          (by rw [List.append_assoc]; exact hk) (fun e he => hstorable e (List.mem_cons_of_mem _ he))
          (fun e he => hcomplete e (List.mem_cons_of_mem _ he)) hfeeds₂ (.inr hcursor₂) hdrop₂ hc₂
        rw [List.length_append, List.append_assoc] at hlater
        obtain ⟨r', c', hrest, hc'⟩ := hlater
        exact ⟨r', c', (Opening.drain_entry _ hnext hopen hread hclosed).trans hrest, hc'⟩
      · exact absurd hblame (hno e)
    · exact absurd hblame (hno e)

end Supply

end Payload

end Lockbox
