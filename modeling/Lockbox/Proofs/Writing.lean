import Lockbox.Payload.Writer
import Lockbox.Proofs.Script
import Lockbox.Proofs.Stream
/-!
# Lockbox — what a payload writer has written

Each operation of a writer adds frames to its sink or fails, and what it
adds is said once for each (`emit_ok`, `fill_ok`, `flush_ok`,
`declare_ok`, `write_ok`). Over them stands the invariant `Holds`: the
sink has the frames of the entries so far, but for the bytes that still
wait. A writer that has given away its last number is `Spent`; nothing is
said of its sink, and it writes no frame any more. `Holds.close` draws the
conclusion: a payload that could be closed is its script.
-/

namespace Lockbox

/-- More data of the last of some entries. -/
def handOver (data : Bytes) : List (FileInfo × Bytes) → List (FileInfo × Bytes)
  | [] => []
  | [e] => [(e.1, e.2 ++ data)]
  | e :: rest => e :: handOver data rest

/-- Only the last entry gets the data. -/
theorem handOver_concat (data : Bytes) (before : List (FileInfo × Bytes)) (e : FileInfo × Bytes) :
    handOver data (before ++ [e]) = before ++ [(e.1, e.2 ++ data)] := by
  induction before with
  | nil => rfl
  | cons b before ih =>
    have hne : before ++ [e] ≠ [] := by simp
    cases hb : before ++ [e] with
    -- there is always an entry behind the first, so the last case of the definition
    -- takes it
    | nil => exact absurd hb hne
    | cons c cs => rw [List.cons_append, hb, handOver, ← hb, ih, List.cons_append]; simp

/-- One more entry whose name can be stored. -/
theorem Storable.concat {entries : List (FileInfo × Bytes)} (h : Storable entries) {info : FileInfo}
    {data : Bytes} {stored : EntryName} (hstored : EntryName.ofText info.name = .ok stored) :
    Storable (entries ++ [(info, data)]) := by
  intro e he
  rcases List.mem_append.mp he with he | he
  · exact h e he
  · obtain rfl := List.mem_singleton.mp he
    exact ⟨stored, hstored⟩

/-- More data leave the names as they are, so they can still be stored. -/
theorem Storable.handOver {entries : List (FileInfo × Bytes)} (h : Storable entries)
    (data : Bytes) : Storable (handOver data entries) := by
  obtain rfl | ⟨before, e, rfl⟩ := List.eq_nil_or_concat entries
  · exact h
  · rw [List.concat_eq_append] at h ⊢
    obtain ⟨stored, hstored⟩ := h e (by simp)
    rw [handOver_concat]
    exact Storable.concat (fun e he => h e (List.mem_append_left _ he)) hstored

namespace Payload

theorem Waiting.toBytes_none : Waiting.none.val.toBytes = [] := rfl

namespace Writer

variable {S : Suite}

/-- The bytes that wait. -/
abbrev held (w : Writer) : Bytes := w.waiting.val.toBytes

/-- The writer counts what waits by its size, which is the number of its bytes.
-/
theorem length_held (w : Writer) : w.held.length = w.waiting.val.size :=
  w.waiting.val.length_toBytes

/-- `frames` were written between the two. -/
structure Wrote (S : Suite) (frames : List Frame) (w w' : Writer) : Prop where
  accepted : w'.sink.accepted = w.sink.accepted ++ w.channel.stream S w.counter frames
  counter : w'.counter = w.counter + frames.length
  channel : w'.channel = w.channel

theorem Wrote.refl (w : Writer) : Wrote S [] w w := ⟨by simp, rfl, rfl⟩

/-- Frames written one after the other are numbered on. -/
theorem Wrote.trans {fs gs : List Frame} {w₁ w₂ w₃ : Writer} (h₁ : Wrote S fs w₁ w₂)
    (h₂ : Wrote S gs w₂ w₃) : Wrote S (fs ++ gs) w₁ w₃ where
  accepted := by
    rw [h₂.accepted, h₁.accepted, h₁.channel, h₁.counter, Channel.stream_append, List.append_assoc]
  counter := by rw [h₂.counter, h₁.counter, List.length_append, Nat.add_assoc]
  channel := h₂.channel.trans h₁.channel

/-- Each number that was given away between the two was paid for with bytes
that the sink took. -/
structure Paid (w w' : Writer) : Prop where
  channel : w'.channel = w.channel
  counter : w.counter ≤ w'.counter
  bytes : w'.counter + w.sink.accepted.length ≤ w.counter + w'.sink.accepted.length

theorem Paid.refl (w : Writer) : Paid w w := ⟨rfl, Nat.le_refl _, Nat.le_refl _⟩

/-- What was paid for twice is paid for altogether. -/
theorem Paid.trans {w₁ w₂ w₃ : Writer} (h : Paid w₁ w₂) (h' : Paid w₂ w₃) : Paid w₁ w₃ where
  channel := h'.channel.trans h.channel
  counter := Nat.le_trans h.counter h'.counter
  bytes := by
    have hfirst := h.bytes
    have hsecond := h'.bytes
    omega

/-- Frames that were written are paid for: each takes at least one byte of the
sink, since it stands there with its length. -/
theorem Wrote.paid {frames : List Frame} {w w' : Writer} (h : Wrote S frames w w') :
    Paid w w' where
  channel := h.channel
  counter := by
    rw [h.counter]
    exact Nat.le_add_right _ _
  bytes := by
    have hstored := w.channel.length_le_stream (S := S) w.counter frames
    rw [h.counter, h.accepted, List.length_append]
    omega

/-- The last number was given away: no frame can be written any more. -/
def Spent (w : Writer) : Prop := UInt64.size ≤ w.counter + 1

/-- Failures that end the session of a writer. -/
def Fatal : Error → Prop
  | .io _ | .sizeMismatch _ => True
  | _ => False

/-! ## Single frames

All that a writer writes goes through `emit`. Whether a frame is written is
decided there, by the sink and by the counter. -/

/-- A frame that is written takes the next number, and there is still one left
behind it. It touches nothing but the sink and the counter. -/
theorem emit_ok {frame : Frame} {w w' : Writer} (h : w.emit S frame = (.ok (), w')) :
    Wrote S [frame] w w' ∧ w'.counter < UInt64.size ∧ w'.waiting = w.waiting ∧
      w'.current = w.current ∧ w'.names = w.names := by
  unfold emit at h
  dsimp only at h
  split at h
  · exact absurd (Prod.mk.inj h).1 (by simp)
  · rename_i sink hsink
    split at h
    · rename_i hlt
      obtain ⟨-, rfl⟩ := Prod.mk.inj h
      refine ⟨⟨?_, rfl, rfl⟩, hlt, rfl, rfl, rfl⟩
      rw [Sink.accepted_writeEach_of_ok hsink]
      simp [Channel.store]
    · exact absurd (Prod.mk.inj h).1 (by simp)

/-- A frame could not be written: a sink failed, or the last number was given
away. -/
def Unwritten (e : Error) (w : Writer) : Prop :=
  (∃ fault, e = .io fault) ∨ e = .crypto .framesExhausted ∧ w.Spent

/-- A writer that could not write has failed for good or has no number left. -/
theorem Unwritten.fatal_or_spent {e : Error} {w : Writer} (h : Unwritten e w) :
    Fatal e ∨ w.Spent := by
  obtain ⟨fault, rfl⟩ | ⟨-, hspent⟩ := h
  · exact .inl trivial
  · exact .inr hspent

/-- A frame fails only so: a full sink is the fault of the sink, and without a
number left the channel refuses. -/
theorem emit_error {frame : Frame} {w w' : Writer} {e : Error}
    (h : w.emit S frame = (.error e, w')) : Unwritten e w' := by
  unfold emit at h
  dsimp only at h
  split at h
  · obtain ⟨he, -⟩ := Prod.mk.inj h
    cases he
    exact .inl ⟨_, rfl⟩
  · split at h
    · exact absurd (Prod.mk.inj h).1 (by simp)
    · rename_i hge
      obtain ⟨he, rfl⟩ := Prod.mk.inj h
      cases he
      exact .inr ⟨rfl, Nat.le_of_not_lt hge⟩

/-- **A number is given away only for bytes that the sink took,** whether the
frame fails or not. -/
theorem paid_emit (frame : Frame) (w : Writer) : Paid w (w.emit S frame).2 := by
  rcases hemit : w.emit S frame with ⟨e | u, w'⟩
  · -- a frame that fails gives no number away, and the sink gives nothing back
    unfold emit at hemit
    dsimp only at hemit
    obtain ⟨taken, -, htaken⟩ := w.sink.accepted_writeEach
      [Bytes.ofNat 4 (w.channel.sealFrame S w.counter frame).length,
        w.channel.sealFrame S w.counter frame]
    have hmore := congrArg List.length htaken
    rw [List.length_append] at hmore
    split at hemit
    · rename_i sink hsink
      rw [hsink] at hmore
      obtain ⟨-, rfl⟩ := Prod.mk.inj hemit
      refine ⟨rfl, Nat.le_refl _, ?_⟩
      dsimp only at hmore ⊢
      omega
    · rename_i sink hsink
      rw [hsink] at hmore
      split at hemit
      · exact absurd (Prod.mk.inj hemit).1 (by simp)
      · obtain ⟨-, rfl⟩ := Prod.mk.inj hemit
        refine ⟨rfl, Nat.le_refl _, ?_⟩
        dsimp only at hmore ⊢
        omega
  · obtain ⟨hwrote, -⟩ := emit_ok hemit
    exact hwrote.paid

/-! ## Data

Bytes wait until they fill a chunk. The invariant of the recursion is that
what left and what waits are together what was handed over. -/

/-- Flushing writes what waits, if anything does, and nothing waits any more.
-/
theorem flush_ok {w w' : Writer} (h : w.flush S = (.ok (), w')) :
    Wrote S (Frame.ofData w.held) w w' ∧ w'.held = [] ∧ w'.current = w.current ∧
      w'.names = w.names := by
  unfold flush at h
  split at h
  · rename_i hpos
    -- what waits is less than a chunk, so it is one frame
    obtain ⟨⟨ha, hc, hch⟩, -, hw, hcur, hnames⟩ := emit_ok h
    have hlen := w.length_held
    have hlt := w.waiting.property
    have hfits : 0 < w.held.length ∧ w.held.length ≤ chunkSize := ⟨by omega, by omega⟩
    rw [Frame.ofData_of_le hfits]
    exact ⟨⟨ha, hc, hch⟩, by rw [held, hw, Waiting.toBytes_none], hcur, hnames⟩
  · rename_i hpos
    obtain ⟨-, rfl⟩ := Prod.mk.inj h
    have hnil : w.held = [] := by
      apply List.eq_nil_of_length_eq_zero
      rw [length_held]
      omega
    rw [hnil, Frame.ofData_nil]
    exact ⟨.refl w, rfl, rfl, rfl⟩

/-- Flushing fails only with the frame that it writes. -/
theorem flush_error {w w' : Writer} {e : Error} (h : w.flush S = (.error e, w')) :
    Unwritten e w' := by
  unfold flush at h
  split at h
  · exact emit_error h
  · exact absurd (Prod.mk.inj h).1 (by simp)

/-- What flushing takes in numbers is paid for. -/
theorem paid_flush (w : Writer) : Paid w (w.flush S).2 := by
  unfold flush
  split
  · obtain ⟨hchannel, hcounter, hbytes⟩ := paid_emit (S := S) _ { w with waiting := .none }
    exact ⟨hchannel, hcounter, hbytes⟩
  · exact .refl w

/-- Handing over bytes writes full frames: `more` is what left, of what
waited and what came. -/
theorem fill_ok {input : Bytes} {w w' : Writer} (h : w.fill S input = (.ok (), w')) :
    ∃ more, chunkSize ∣ more.length ∧ more ++ w'.held = w.held ++ input ∧
      Wrote S (Frame.ofData more) w w' ∧ w'.current = w.current ∧ w'.names = w.names := by
  fun_induction fill S input w with
  | case1 input w hlt hfit =>
    obtain ⟨-, rfl⟩ := Prod.mk.inj h
    refine ⟨[], Nat.dvd_zero _, by simp [held], ?_, rfl, rfl⟩
    rw [Frame.ofData_nil]
    exact ⟨by simp, rfl, rfl⟩
  | case2 input w hlt hfit room full hfull hpos w₁ hemit ih =>
    obtain ⟨hwrote, -, hw₁, hcur, hnames⟩ := emit_ok hemit
    obtain ⟨more, hdvd, hbytes, hmore, hcur', hnames'⟩ := ih h
    have hheld : w₁.held = [] := by rw [held, hw₁, Waiting.toBytes_none]
    rw [hheld, List.nil_append] at hbytes
    -- a full chunk goes out first, and behind a full chunk the cut begins anew
    refine ⟨full ++ more, ?_, ?_, ?_, hcur'.trans hcur, hnames'.trans hnames⟩
    · rw [List.length_append, hfull]
      exact Nat.dvd_add (Nat.dvd_refl _) hdvd
    · rw [List.append_assoc, hbytes]
      simp only [full, Gathering.toBytes_add, List.append_assoc, List.take_append_drop]
    · have hone : Frame.ofData full = [.data ⟨full, by omega, by omega⟩] :=
        Frame.ofData_of_le (by omega)
      rw [Frame.ofData_append (hfull ▸ Nat.dvd_refl _), hone]
      exact Wrote.trans ⟨hwrote.accepted, hwrote.counter, hwrote.channel⟩ hmore
  | case3 => exact absurd (Prod.mk.inj h).1 (by simp)

/-- Filling fails with the first of its frames that is not written. -/
theorem fill_error {input : Bytes} {w w' : Writer} {e : Error}
    (h : w.fill S input = (.error e, w')) : Unwritten e w' := by
  fun_induction fill S input w with
  | case1 => exact absurd (Prod.mk.inj h).1 (by simp)
  | case2 input w hlt hfit room full hfull hpos w₁ hemit ih => exact ih h
  | case3 input w hlt hfit room full hfull hpos e₁ w₁ hemit =>
    obtain ⟨he, rfl⟩ := Prod.mk.inj h
    cases he
    exact emit_error hemit

/-- What filling takes in numbers is paid for, frame by frame. -/
theorem paid_fill (input : Bytes) (w : Writer) : Paid w (w.fill S input).2 := by
  fun_induction fill S input w with
  | case1 => exact ⟨rfl, Nat.le_refl _, Nat.le_refl _⟩
  | case2 input w hlt hfit room full hfull hpos w₁ hemit ih =>
    have hpaid := paid_emit (S := S) (.data ⟨full, by omega, by omega⟩) { w with waiting := .none }
    rw [hemit] at hpaid
    exact Paid.trans ⟨hpaid.channel, hpaid.counter, hpaid.bytes⟩ ih
  | case3 input w hlt hfit room full hfull hpos e₁ w₁ hemit =>
    have hpaid := paid_emit (S := S) (.data ⟨full, by omega, by omega⟩) { w with waiting := .none }
    rw [hemit] at hpaid
    exact ⟨hpaid.channel, hpaid.counter, hpaid.bytes⟩

/-! ## Entries

A declaration and a call with data are refused before anything is written,
or they fail as their frames do. -/

/-- **A declaration that succeeds** found the last entry complete and the name
new and storable. It writes the frame of the entry, and no bytes of it are
there yet. -/
theorem declare_ok {name : String} {size : UInt64} {w w' : Writer}
    (h : w.declare S name size = (.ok (), w')) :
    ∃ stored, EntryName.ofText name = .ok stored ∧ w.checkComplete = .ok () ∧ name ∉ w.names ∧
      Wrote S [.file stored size] w w' ∧ w'.held = w.held ∧ w'.current = some ⟨name, size, 0⟩ ∧
      w'.names = name :: w.names := by
  unfold declare at h
  split at h
  · exact absurd (Prod.mk.inj h).1 (by simp)
  · rename_i stored hstored
    split at h
    · exact absurd (Prod.mk.inj h).1 (by simp)
    · rename_i hcomplete
      split at h
      · exact absurd (Prod.mk.inj h).1 (by simp)
      · rename_i hnew
        split at h
        · exact absurd (Prod.mk.inj h).1 (by simp)
        · rename_i w₁ hemit
          obtain ⟨-, rfl⟩ := Prod.mk.inj h
          obtain ⟨⟨ha, hc, hch⟩, -, hw, hcur, hnames⟩ := emit_ok hemit
          exact ⟨stored, hstored, hcomplete, hnew, ⟨ha, hc, hch⟩, by rw [held, hw], rfl,
            by rw [← hnames]⟩

/-- What is missing of an entry is a wrong size. -/
theorem checkComplete_error {w : Writer} {e : Error} (h : w.checkComplete = .error e) :
    ∃ m, e = .sizeMismatch m := by
  unfold checkComplete at h
  split at h
  · split at h
    · exact absurd h (by simp)
    · cases h
      exact ⟨_, rfl⟩
  · exact absurd h (by simp)

/-- Where a declaration fails: it is refused, which changes nothing, or its
frame is not written. -/
theorem declare_error_cases {name : String} {size : UInt64} {w w' : Writer} {e : Error}
    (h : w.declare S name size = (.error e, w')) :
    (w' = w ∧ ((∃ f, EntryName.ofText name = .error f ∧ e = .invalidName f) ∨
      (∃ m, w.checkComplete = .error (.sizeMismatch m) ∧ e = .sizeMismatch m) ∨
      name ∈ w.names ∧ e = .duplicateName name)) ∨
    ∃ stored, w.emit S (.file stored size) = (.error e, w') := by
  unfold declare at h
  split at h
  · rename_i f hname
    obtain ⟨he, rfl⟩ := Prod.mk.inj h
    cases he
    exact .inl ⟨rfl, .inl ⟨f, hname, rfl⟩⟩
  · rename_i stored hstored
    split at h
    · rename_i hcomplete
      obtain ⟨m, rfl⟩ := checkComplete_error hcomplete
      obtain ⟨he, rfl⟩ := Prod.mk.inj h
      cases he
      exact .inl ⟨rfl, .inr (.inl ⟨m, hcomplete, rfl⟩)⟩
    · split at h
      · rename_i hmem
        obtain ⟨he, rfl⟩ := Prod.mk.inj h
        cases he
        exact .inl ⟨rfl, .inr (.inr ⟨hmem, rfl⟩)⟩
      · split at h
        · rename_i hemit
          obtain ⟨he, rfl⟩ := Prod.mk.inj h
          cases he
          exact .inr ⟨stored, hemit⟩
        · exact absurd (Prod.mk.inj h).1 (by simp)

/-- A declaration that fails is refused, or its frame could not be written. -/
theorem declare_error {name : String} {size : UInt64} {w w' : Writer} {e : Error}
    (h : w.declare S name size = (.error e, w')) :
    (w' = w ∧ ((∃ f, EntryName.ofText name = .error f ∧ e = .invalidName f) ∨
      (∃ m, w.checkComplete = .error (.sizeMismatch m) ∧ e = .sizeMismatch m) ∨
      name ∈ w.names ∧ e = .duplicateName name)) ∨ Unwritten e w' :=
  (declare_error_cases h).imp_right fun ⟨_, hemit⟩ => emit_error hemit

/-- What a declaration takes in numbers is paid for. -/
theorem paid_declare (name : String) (size : UInt64) (w : Writer) :
    Paid w (w.declare S name size).2 := by
  rcases h : w.declare S name size with ⟨e | u, w'⟩
  · obtain ⟨rfl, -⟩ | ⟨stored, hemit⟩ := declare_error_cases h
    · exact .refl _
    · have hpaid := paid_emit (S := S) (.file stored size) w
      rwa [hemit] at hpaid
  · obtain ⟨_, -, -, -, hwrote, -⟩ := declare_ok h
    exact hwrote.paid

/-- **Bytes that are handed over** fit into the entry. Full frames leave at
once, and with the last byte of the entry the rest does. -/
theorem write_ok {data : Bytes} {w w' : Writer} (h : w.write S data = (.ok (), w')) :
    ∃ f more, w.current = some f ∧ f.written + data.length ≤ f.declared.toNat ∧
      more ++ w'.held = w.held ++ data ∧ Wrote S (Frame.ofData more) w w' ∧
      w'.current = some { f with written := f.written + data.length } ∧ w'.names = w.names ∧
      if f.written + data.length = f.declared.toNat then w'.held = []
      else chunkSize ∣ more.length := by
  unfold write at h
  split at h
  · exact absurd (Prod.mk.inj h).1 (by simp)
  · rename_i f hf
    dsimp only at h
    split at h
    · exact absurd (Prod.mk.inj h).1 (by simp)
    · rename_i hle
      split at h
      · exact absurd (Prod.mk.inj h).1 (by simp)
      · rename_i w₁ hfill
        obtain ⟨more, hdvd, hbytes, hwrote, hcur, hnames⟩ := fill_ok hfill
        refine ⟨f, ?_⟩
        split at h
        · exact absurd (Prod.mk.inj h).1 (by simp)
        · rename_i w₂ hlast
          obtain ⟨-, rfl⟩ := Prod.mk.inj h
          -- the last bytes of the entry leave at once
          split at hlast
          · rename_i hend
            obtain ⟨hflush, hheld, hcur₂, hnames₂⟩ := flush_ok hlast
            refine ⟨more ++ w₁.held, hf, by omega, ?_, ?_, rfl, hnames₂.trans hnames, ?_⟩
            · rw [show ({ w₂ with current := _ } : Writer).held = w₂.held from rfl, hheld,
                List.append_nil, hbytes]
            · rw [Frame.ofData_append hdvd]
              have := hwrote.trans hflush
              exact ⟨this.accepted, this.counter, this.channel⟩
            · rw [if_pos hend]
              exact hheld
          · rename_i hmid
            obtain ⟨-, rfl⟩ := Prod.mk.inj hlast
            refine ⟨more, hf, by omega, hbytes, ⟨hwrote.accepted, hwrote.counter, hwrote.channel⟩,
              rfl, hnames, ?_⟩
            rw [if_neg hmid]
            exact hdvd

/-- Where handing over bytes fails: they are refused, which changes nothing,
or a full frame is not written, or the last one of the entry. -/
theorem write_error_cases {data : Bytes} {w w' : Writer} {e : Error}
    (h : w.write S data = (.error e, w')) :
    (w' = w ∧ (w.current = none ∧ e = .sequence .undeclared ∨
      ∃ f, w.current = some f ∧ f.declared.toNat < f.written + data.length ∧
        e = .sizeMismatch ⟨f.name, f.declared.toNat, f.written + data.length⟩)) ∨
    w.fill S data = (.error e, w') ∨
    ∃ w₁, w.fill S data = (.ok (), w₁) ∧ w₁.flush S = (.error e, w') := by
  unfold write at h
  split at h
  · rename_i hnone
    obtain ⟨he, rfl⟩ := Prod.mk.inj h
    cases he
    exact .inl ⟨rfl, .inl ⟨hnone, rfl⟩⟩
  · rename_i f hf
    dsimp only at h
    split at h
    · rename_i hexcess
      obtain ⟨he, rfl⟩ := Prod.mk.inj h
      cases he
      exact .inl ⟨rfl, .inr ⟨f, hf, hexcess, rfl⟩⟩
    · split at h
      · rename_i hfill
        obtain ⟨he, rfl⟩ := Prod.mk.inj h
        cases he
        exact .inr (.inl hfill)
      · rename_i w₁ hfill
        split at h
        · rename_i hlast
          obtain ⟨he, rfl⟩ := Prod.mk.inj h
          cases he
          split at hlast
          · exact .inr (.inr ⟨w₁, hfill, hlast⟩)
          · exact absurd (Prod.mk.inj hlast).1 (by simp)
        · exact absurd (Prod.mk.inj h).1 (by simp)

/-- Bytes that could not be handed over are refused, or a frame could not be
written. -/
theorem write_error {data : Bytes} {w w' : Writer} {e : Error}
    (h : w.write S data = (.error e, w')) :
    (w' = w ∧ (w.current = none ∧ e = .sequence .undeclared ∨
      ∃ f, w.current = some f ∧ f.declared.toNat < f.written + data.length ∧
        e = .sizeMismatch ⟨f.name, f.declared.toNat, f.written + data.length⟩)) ∨
      Unwritten e w' :=
  (write_error_cases h).imp_right fun hframe =>
    hframe.elim fill_error fun ⟨_, _, hflush⟩ => flush_error hflush

/-- What handing over bytes takes in numbers is paid for. -/
theorem paid_write (data : Bytes) (w : Writer) : Paid w (w.write S data).2 := by
  rcases h : w.write S data with ⟨e | u, w'⟩
  · have hfilled := paid_fill (S := S) data w
    obtain ⟨rfl, -⟩ | hfill | ⟨w₁, hfill, hflush⟩ := write_error_cases h
    · exact .refl _
    · rwa [hfill] at hfilled
    · have hflushed := paid_flush (S := S) w₁
      rw [hfill] at hfilled
      rw [hflush] at hflushed
      exact hfilled.trans hflushed
  · obtain ⟨_, _, -, -, -, hwrote, -⟩ := write_ok h
    exact hwrote.paid

/-- A payload that could be closed was complete. -/
theorem complete_of_close {w : Writer} {sink : Sink} (h : w.close S = .ok sink) :
    w.checkComplete = .ok () := by
  unfold Writer.close at h
  split at h
  · exact absurd h (by simp)
  · assumption

/-! ## Everything so far

The frames in the sink are those of the entries, but for what waits of the
last one. `Laid` says so of frames, and `Holds` of the bytes that they are
stored as. -/

/-- How the bytes of the last entry divide: `out` went into frames and the
rest waits. Nothing waits once the entry is complete, and until then only
full frames are written. -/
structure Divided (f : OpenFile) (out held : Bytes) : Prop where
  length : out.length + held.length = f.written
  le : f.written ≤ f.declared.toNat
  whole : f.written = f.declared.toNat → held = []
  full : f.written ≠ f.declared.toNat → chunkSize ∣ out.length

/-- These frames were written of these entries: all of them, but for what
waits of the last one. -/
def Laid (w : Writer) (entries : List (FileInfo × Bytes)) (frames : List Frame) : Prop :=
  match w.current with
  | none => entries = [] ∧ frames = [] ∧ w.held = []
  | some f => ∃ before out,
      entries = before ++ [(⟨f.name, f.declared⟩, out ++ w.held)] ∧
      frames = Frame.ofEntries before ++ Frame.announce ⟨f.name, f.declared⟩ ++ Frame.ofData out ∧
      Item.Complete before ∧ Divided f out w.held

section

variable {entries : List (FileInfo × Bytes)} {frames : List Frame} {w w' : Writer}

/-- Once the last entry is complete, all frames of the entries are there. -/
theorem Laid.complete (h : w.Laid entries frames) (hc : w.checkComplete = .ok ()) :
    frames = Frame.ofEntries entries ∧ Item.Complete entries ∧ w.held = [] := by
  unfold Laid at h
  unfold checkComplete at hc
  split at h
  · obtain ⟨rfl, rfl, hheld⟩ := h
    exact ⟨rfl, fun _ he => absurd he (by simp), hheld⟩
  · rename_i f hf
    -- of a complete entry nothing waits, so its frames are those of all its data
    obtain ⟨before, out, rfl, rfl, hbefore, hdiv⟩ := h
    rw [hf] at hc
    dsimp only at hc
    split at hc
    · rename_i hwhole
      have hheld := hdiv.whole hwhole
      have hlen := hdiv.length
      refine ⟨?_, ?_, hheld⟩
      · rw [hheld, List.append_nil]
        simp
      · intro e he
        rcases List.mem_append.mp he with he | he
        · exact hbefore e he
        · obtain rfl := List.mem_singleton.mp he
          rw [List.length_append, hlen, hwhole]
    · exact absurd hc (by simp)

/-- Behind complete entries another one begins with its announcement. -/
theorem Laid.declare {name : String} {size : UInt64} {stored : EntryName}
    (h : w.Laid entries frames) (hstored : EntryName.ofText name = .ok stored)
    (hcomplete : w.checkComplete = .ok ()) (hheld : w'.held = w.held)
    (hcurrent : w'.current = some ⟨name, size, 0⟩) :
    w'.Laid (entries ++ [(⟨name, size⟩, [])]) (frames ++ [.file stored size]) := by
  obtain ⟨rfl, hentries, hempty⟩ := h.complete hcomplete
  have hann : Frame.announce ⟨name, size⟩ = [.file stored size] := Frame.announce_of_ok hstored
  have hnil : w'.held = [] := hheld.trans hempty
  simp only [Laid, hcurrent]
  refine ⟨entries, [], ?_, ?_, hentries, ?_⟩
  · rw [hnil]
    rfl
  · rw [hann, Frame.ofData_nil, List.append_nil]
  · exact ⟨by rw [hnil]; rfl, Nat.zero_le _, fun _ => hnil, fun _ => Nat.dvd_zero _⟩

/-- Bytes that are handed over belong to the last entry, and what leaves of
them goes behind its frames. -/
theorem Laid.write {data more : Bytes} {f : OpenFile} (h : w.Laid entries frames)
    (hf : w.current = some f) (hle : f.written + data.length ≤ f.declared.toNat)
    (hbytes : more ++ w'.held = w.held ++ data)
    (hcurrent : w'.current = some { f with written := f.written + data.length })
    (hlast : if f.written + data.length = f.declared.toNat then w'.held = []
      else chunkSize ∣ more.length) :
    w'.Laid (handOver data entries) (frames ++ Frame.ofData more) := by
  simp only [Laid, hf] at h
  obtain ⟨before, out, rfl, rfl, hbefore, hdiv⟩ := h
  have hlen := congrArg List.length hbytes
  have hdivlen := hdiv.length
  rw [List.length_append, List.length_append] at hlen
  -- a complete entry is handed nothing more, and before that only full frames went out
  have hcut : Frame.ofData (out ++ more) = Frame.ofData out ++ Frame.ofData more := by
    by_cases hwhole : f.written = f.declared.toNat
    · have hheld := hdiv.whole hwhole
      rw [hheld, List.length_nil] at hlen
      have : more = [] := List.eq_nil_of_length_eq_zero (by omega)
      rw [this, List.append_nil, Frame.ofData_nil, List.append_nil]
    · exact Frame.ofData_append (hdiv.full hwhole) more
  rw [handOver_concat]
  simp only [Laid, hcurrent]
  refine ⟨before, out ++ more, ?_, ?_, hbefore, ?_⟩
  · rw [List.append_assoc, List.append_assoc, hbytes]
  · rw [hcut, ← List.append_assoc]
  · refine ⟨?_, hle, ?_, ?_⟩
    · rw [List.length_append]
      show _ = f.written + data.length
      omega
    · intro hwhole
      rwa [if_pos hwhole] at hlast
    · intro hmid
      rw [if_neg hmid] at hlast
      have hmid : f.written + data.length ≠ f.declared.toNat := hmid
      have hmid' : f.written ≠ f.declared.toNat := by omega
      rw [List.length_append]
      exact Nat.dvd_add (hdiv.full hmid') hlast

end

/-- **What a writer has written is what it was given**, but for what waits. -/
def Holds (S : Suite) (entries : List (FileInfo × Bytes)) (w : Writer) : Prop :=
  Storable entries ∧ ∃ frames, w.sink.accepted = w.channel.stream S 0 frames ∧
    w.counter = frames.length ∧ w.Laid entries frames

/-- In the beginning nothing is written and nothing was given. -/
theorem holds_create {sink : Sink} (h : sink.accepted = []) (channel : Channel) :
    Holds S [] (create sink channel) :=
  ⟨fun _ he => absurd he (by simp), [], h, rfl, rfl, rfl, rfl⟩

/-- Behind a complete entry the sink has all frames of all entries. -/
theorem Holds.complete {entries : List (FileInfo × Bytes)} {w : Writer} (h : Holds S entries w)
    (hc : w.checkComplete = .ok ()) :
    w.sink.accepted = w.channel.stream S 0 (Frame.ofEntries entries) ∧
      w.counter = (Frame.ofEntries entries).length ∧ Item.Complete entries ∧ w.held = [] := by
  obtain ⟨-, frames, haccepted, hcounter, hlaid⟩ := h
  obtain ⟨rfl, hentries, hheld⟩ := hlaid.complete hc
  exact ⟨haccepted, hcounter, hentries, hheld⟩

/-- Declaring an entry begins it. -/
theorem Holds.declare {entries : List (FileInfo × Bytes)} {name : String} {size : UInt64}
    {w w' : Writer} (h : Holds S entries w) (hw : w.declare S name size = (.ok (), w')) :
    Holds S (entries ++ [(⟨name, size⟩, [])]) w' := by
  obtain ⟨stored, hstored, hcomplete, -, hwrote, hheld, hcurrent, -⟩ := declare_ok hw
  obtain ⟨hstorable, frames, haccepted, hcounter, hlaid⟩ := h
  refine ⟨hstorable.concat hstored, frames ++ [.file stored size], ?_, ?_,
    hlaid.declare hstored hcomplete hheld hcurrent⟩
  · rw [hwrote.accepted, haccepted, hwrote.channel, Channel.stream_append, hcounter, Nat.zero_add]
  · rw [hwrote.counter, hcounter, List.length_append]

/-- Handing over bytes gives them to the last entry. -/
theorem Holds.write {entries : List (FileInfo × Bytes)} {data : Bytes} {w w' : Writer}
    (h : Holds S entries w) (hw : w.write S data = (.ok (), w')) :
    Holds S (handOver data entries) w' := by
  obtain ⟨f, more, hf, hle, hbytes, hwrote, hcurrent, -, hlast⟩ := write_ok hw
  obtain ⟨hstorable, frames, haccepted, hcounter, hlaid⟩ := h
  refine ⟨hstorable.handOver data, frames ++ Frame.ofData more, ?_, ?_,
    hlaid.write hf hle hbytes hcurrent hlast⟩
  · rw [hwrote.accepted, haccepted, hwrote.channel, Channel.stream_append, hcounter, Nat.zero_add]
  · rw [hwrote.counter, hcounter, List.length_append]

/-- **A payload that could be closed is the script of its entries.** -/
theorem Holds.close {entries : List (FileInfo × Bytes)} {w : Writer} {sink : Sink}
    (h : Holds S entries w) (hw : w.close S = .ok sink) :
    sink.accepted = w.channel.stream S 0 (Frame.script entries) ∧
      (Frame.script entries).length < UInt64.size ∧ Item.Complete entries ∧ Storable entries := by
  unfold Writer.close at hw
  split at hw
  · exact absurd hw (by simp)
  · rename_i hcomplete
    obtain ⟨haccepted, hcounter, hentries, -⟩ := h.complete hcomplete
    split at hw
    · exact absurd hw (by simp)
    · rename_i w' hemit
      obtain ⟨hwrote, hlt, -⟩ := emit_ok hemit
      split at hw
      · exact absurd hw (by simp)
      · cases hw
        refine ⟨?_, ?_, hentries, h.1⟩
        · rw [hwrote.accepted, haccepted, hcounter, Frame.script, Channel.stream_append,
            Nat.zero_add]
        · rw [hwrote.counter, hcounter] at hlt
          rw [Frame.script, List.length_append]
          exact hlt

/-- A payload without a number left cannot be closed. -/
theorem Spent.close {w : Writer} (h : w.Spent) (sink : Sink) : w.close S ≠ .ok sink := by
  intro hw
  unfold Writer.close at hw
  split at hw
  · exact absurd hw (by simp)
  · split at hw
    · exact absurd hw (by simp)
    · rename_i w' hemit
      obtain ⟨hwrote, hlt, -⟩ := emit_ok hemit
      have hcounter := hwrote.counter
      rw [List.length_singleton] at hcounter
      unfold Spent at h
      omega

end Writer

end Payload

end Lockbox
