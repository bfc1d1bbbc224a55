import Lockbox.Proofs.Handed
import Lockbox.Proofs.Recovery
/-!
# Lockbox — the books of a payload writer

A writer keeps a number, the bytes that wait, the entry that they belong to
and the names declared so far, and all of it is tied to what its sink was
given. Over a sink that takes everything this holds between any two calls,
whether calls succeed or are refused (`Payload.Writer.Books`): a call that
is refused changes nothing, and one that succeeds enters what it adds.

Numbers cannot run out before very many bytes were handed over, since each
frame holds at least one of them (`Payload.Writer.Call.bytes`).

The bytes of a call are taken up in turns, each of which takes as many as
there is room for and writes the frame that it fills. Only inside a turn are
there as many bytes as a frame holds (`Payload.Writer.turn`). Every turn takes
a byte at least, and so the turns come to an end
(`Payload.Writer.loop_eq_fill`).
-/

namespace Lockbox

/-- The name that a frame announces. -/
def Frame.name? : Frame → Option String
  | .file name _ => some name.val
  | .data _ | .finish => none

theorem Frame.filterMap_name?_ofData (data : Bytes) : (ofData data).filterMap name? = [] := by
  rw [ofData, List.filterMap_map, List.filterMap_eq_nil_iff]
  exact fun _ _ => rfl

/-- Each frame of data holds a byte of them. -/
theorem Frame.length_ofData_le_length (data : Bytes) : (ofData data).length ≤ data.length := by
  rw [length_ofData]
  simp only [chunkSize]
  omega

theorem Chunk.fits_of_full {b : Bytes} (h : b.length = chunkSize) :
    0 < b.length ∧ b.length ≤ chunkSize := by
  have hpos : 0 < chunkSize := by decide
  omega

/-- A name that can be stored has a first byte. -/
theorem EntryName.utf8ByteSize_pos (name : EntryName) : 0 < name.val.utf8ByteSize :=
  Nat.pos_of_ne_zero fun h => name.property.1 (String.utf8ByteSize_eq_zero_iff.mp h)

namespace Payload.Writer

variable {S : Suite} {sink : Sink} {channel : Channel} {w w' : Writer} {call : Call}
  {entries entries' : List (FileInfo × Bytes)} {frames : List Frame} {n : Nat} {e : Error}

/-! ## The books

The invariant couples what stands in the sink, the counter, the names, the
current entry and what waits. Each call keeps it, whether it succeeds or
fails, and the number of bytes handed over so far bounds the frames. -/

/-- How many bytes a call hands over. -/
def Call.bytes : Call → Nat
  | .declare name _ => name.utf8ByteSize
  | .write data => data.length

/-- How many bytes some calls hand over. -/
def Call.total : List Call → Nat
  | [] => 0
  | call :: calls => call.bytes + total calls

/-- A writer that began over a sink, and what it has written since of which
entries, out of at most `n` bytes that were handed over. -/
structure Books (S : Suite) (sink : Sink) (channel : Channel) (n : Nat)
    (entries : List (FileInfo × Bytes)) (frames : List Frame) (w : Writer) : Prop where
  unbounded : w.sink.Unbounded
  wrote : Wrote S frames (create sink channel) w
  storable : Storable entries
  laid : w.Laid entries frames
  names : frames.filterMap Frame.name? = w.names.reverse
  nodup : w.names.Nodup
  bytes : w.counter + w.held.length ≤ n

/-- **The books are right in the beginning:** nothing is written, and nothing
waits. -/
theorem books_create (h : sink.Unbounded) (channel : Channel) :
    Books S sink channel 0 [] [] (create sink channel) where
  unbounded := h
  wrote := .refl _
  storable _ he := absurd he (by simp)
  laid := ⟨rfl, rfl, rfl⟩
  names := rfl
  nodup := List.nodup_nil
  bytes := Nat.le_refl 0

/-- A bound on the frames may be raised. -/
theorem Books.mono {m : Nat} (h : Books S sink channel n entries frames w) (hle : n ≤ m) :
    Books S sink channel m entries frames w :=
  { h with bytes := Nat.le_trans h.bytes hle }

/-- A sink that takes everything does so after every call. -/
theorem Call.unbounded_on (h : w.sink.Unbounded) (call : Call) :
    (call.on S w).2.sink.Unbounded := by
  cases call with
  | declare name size => exact unbounded_declare h name size
  | write data => exact unbounded_write h data

/-- **A call that succeeds enters what it adds.** -/
theorem Books.ok (h : Books S sink channel n entries frames w)
    (hcall : call.on S w = (.ok (), w')) :
    ∃ frames', Books S sink channel (n + call.bytes) (call.handedOver entries) frames' w' := by
  have hunbounded := call.unbounded_on (S := S) h.unbounded
  rw [hcall] at hunbounded
  have hbytes := h.bytes
  cases call with
  | declare name size =>
    obtain ⟨stored, hstored, hcomplete, hnew, hwrote, hheld, hcurrent, hnames⟩ := declare_ok hcall
    have hpos := stored.utf8ByteSize_pos
    rw [EntryName.ofText_eq_ok_iff.mp hstored] at hpos
    have hlaid := h.laid.declare hstored hcomplete hheld hcurrent
    refine ⟨frames ++ [Frame.file stored size], hunbounded, h.wrote.trans hwrote,
      h.storable.concat hstored, hlaid, ?_, ?_, ?_⟩
    · rw [List.filterMap_append, h.names, hnames, List.reverse_cons]
      simp only [List.filterMap_cons, Frame.name?, List.filterMap_nil,
        EntryName.ofText_eq_ok_iff.mp hstored]
    · rw [hnames]
      exact List.nodup_cons.mpr ⟨hnew, h.nodup⟩
    · rw [hwrote.counter, hheld, List.length_singleton]
      simp only [Call.bytes]
      omega
  | write data =>
    obtain ⟨f, more, hf, hle, hsplit, hwrote, hcurrent, hnames, hlast⟩ := write_ok hcall
    have hlength := congrArg List.length hsplit
    rw [List.length_append, List.length_append] at hlength
    refine ⟨frames ++ Frame.ofData more, hunbounded, h.wrote.trans hwrote,
      h.storable.handOver data, h.laid.write hf hle hsplit hcurrent hlast, ?_, ?_, ?_⟩
    · rw [List.filterMap_append, Frame.filterMap_name?_ofData, List.append_nil, h.names, hnames]
    · rw [hnames]
      exact h.nodup
    · have hframes := Frame.length_ofData_le_length more
      rw [hwrote.counter]
      simp only [Call.bytes]
      omega

/-- **A call that fails changes nothing,** as long as there are numbers for
the bytes that were handed over. -/
theorem Books.error (h : Books S sink channel n entries frames w)
    (hcall : call.on S w = (.error e, w')) (hlt : n + call.bytes < UInt64.size) : w' = w := by
  have hbytes := h.bytes
  cases call with
  | declare name size =>
    cases hname : EntryName.ofText name with
    | error f =>
      simp only [Call.on, Writer.declare, hname] at hcall
      exact (Prod.mk.inj hcall).2.symm
    | ok stored =>
      -- a name that can be stored has a byte, so there is a number for its frame
      have hpos := stored.utf8ByteSize_pos
      rw [EntryName.ofText_eq_ok_iff.mp hname] at hpos
      obtain ⟨hsame, -⟩ | ⟨stored', hemit⟩ := declare_error_cases hcall
      · exact hsame
      · obtain ⟨-, hspent⟩ := emit_exhausted h.unbounded hemit
        simp only [Call.bytes] at hlt
        omega
  | write data =>
    obtain ⟨hsame, -⟩ | hframe := write_error_cases hcall
    · exact hsame
    · cases hf : w.current with
      | none =>
        simp only [Call.on, Writer.write, hf] at hcall
        exact (Prod.mk.inj hcall).2.symm
      | some f =>
        by_cases hfits : f.written + data.length ≤ f.declared.toNat
        · obtain ⟨-, hspent⟩ := write_exhausted h.unbounded hf hfits hcall
          have hframes := Frame.length_ofData_le_length (w.held ++ data)
          rw [List.length_append] at hframes
          simp only [Call.bytes] at hlt
          omega
        · simp only [Call.on, Writer.write, hf, if_pos (Nat.not_le.mp hfits)] at hcall
          exact (Prod.mk.inj hcall).2.symm

/-- **The books are kept** through calls, whether they succeed or fail. -/
theorem Books.run {calls : List Call} (h : Books S sink channel n entries frames w)
    (hlt : n + Call.total calls < UInt64.size)
    (hrun : run S calls w entries = (w', entries')) :
    ∃ frames', Books S sink channel (n + Call.total calls) entries' frames' w' := by
  induction calls generalizing w entries frames n with
  | nil =>
    obtain ⟨rfl, rfl⟩ := Prod.mk.inj hrun
    exact ⟨frames, h⟩
  | cons call calls ih =>
    rw [Call.total, ← Nat.add_assoc] at hlt ⊢
    rw [Writer.run] at hrun
    rcases hcall : call.on S w with ⟨e | u, w₁⟩
    · rw [hcall] at hrun
      obtain rfl := h.error hcall (by omega)
      exact ih (h.mono (Nat.le_add_right _ _)) hlt hrun
    · rw [hcall] at hrun
      obtain ⟨frames₁, hmore⟩ := h.ok hcall
      exact ih hmore hlt hrun

/-- Before the first entry nothing was written. -/
theorem Books.idle (h : Books S sink channel n entries frames w) (hnone : w.current = none) :
    frames = [] ∧ entries = [] ∧ w.held = [] := by
  have hlaid := h.laid
  simp only [Laid, hnone] at hlaid
  obtain ⟨rfl, rfl, hheld⟩ := hlaid
  exact ⟨rfl, rfl, hheld⟩

/-- Of the last entry, what left since its announcement and what waits are
the data that were handed over. -/
theorem Books.busy {f : OpenFile} (h : Books S sink channel n entries frames w)
    (hf : w.current = some f) :
    ∃ (before : List Frame) (name : EntryName) (chunks : List Chunk)
        (past : List (FileInfo × Bytes)), name.val = f.name ∧
      frames = before ++ .file name f.declared :: chunks.map .data ∧
      entries = past ++ [(⟨f.name, f.declared⟩, chunks.flatMap Subtype.val ++ w.held)] ∧
      (chunks.flatMap Subtype.val ++ w.held).length = f.written ∧
      f.written ≤ f.declared.toNat ∧ (f.written = f.declared.toNat → w.held = []) := by
  have hlaid := h.laid
  simp only [Laid, hf] at hlaid
  obtain ⟨past, out, hentries, hframes, -, hdivided⟩ := hlaid
  obtain ⟨name, hname⟩ := h.storable (⟨f.name, f.declared⟩, out ++ w.held) (by simp [hentries])
  have hannounce : Frame.announce ⟨f.name, f.declared⟩ = [.file name f.declared] :=
    Frame.announce_of_ok hname
  refine ⟨Frame.ofEntries past, name, Chunk.cut out, past, EntryName.ofText_eq_ok_iff.mp hname,
    ?_, ?_, ?_, hdivided.le, hdivided.whole⟩
  · rw [hframes, hannounce, List.append_assoc]
    rfl
  · rw [Chunk.flatMap_cut, hentries]
  · rw [Chunk.flatMap_cut, List.length_append, hdivided.length]

/-- Where bytes wait, the payload cannot be closed. -/
theorem Books.close_of_held (h : Books S sink channel n entries frames w) (hheld : w.held ≠ []) :
    ∃ m, w.close S = .error (.sizeMismatch m) := by
  cases hcomplete : w.checkComplete with
  | ok u =>
    obtain ⟨-, -, hnone⟩ := h.laid.complete hcomplete
    exact absurd hnone hheld
  | error e =>
    obtain ⟨m, rfl⟩ := checkComplete_error hcomplete
    exact ⟨m, by simp only [close, hcomplete]⟩

/-- A payload that is closed ends behind all that was handed over. -/
theorem Books.close {closed : Sink} (h : Books S sink channel n entries frames w)
    (hclose : w.close S = .ok closed) :
    frames = Frame.ofEntries entries ∧ w.held = [] ∧ Item.Complete entries ∧
      closed.accepted = sink.accepted ++ channel.stream S 0 (frames ++ [.finish]) := by
  have hcomplete := complete_of_close hclose
  obtain ⟨hframes, hentries, hheld⟩ := h.laid.complete hcomplete
  refine ⟨hframes, hheld, hentries, ?_⟩
  simp only [Writer.close, hcomplete] at hclose
  split at hclose
  · cases hclose
  · rename_i w₁ hemit
    obtain ⟨hlast, -⟩ := emit_ok hemit
    split at hclose
    · cases hclose
    · cases hclose
      exact (h.wrote.trans hlast).accepted

/-! ## Turns

The writer takes up the bytes of a call in one recursion. Here it is taken
turn by turn, with an allowance of turns, to say how far each turn comes;
with enough of them the two are equal (`loop_eq_fill`). -/

/-- One turn of the loop that takes up the bytes of a call: as many as there
is room for join those that wait, and when they fill a frame, it is written.
What is left to wait comes with what is left to take up. -/
def turn (S : Suite) (waiting input : Bytes) (w : Writer) :
    Except Error Unit × Bytes × Bytes × Writer :=
  let n := chunkSize - waiting.length
  let joined := waiting ++ input.take n
  if h : joined.length = chunkSize then
    let (result, w) := w.emit S (.data ⟨joined, Chunk.fits_of_full h⟩)
    (result, [], input.drop n, w)
  else (.ok (), joined, input.drop n, w)

/-- The loop, for so many turns at most: there is no outcome if they are not
enough. -/
def loop (S : Suite) : Nat → Bytes → Bytes → Writer → Option (Except Error Unit × Bytes × Writer)
  | 0, waiting, input, w => if input = [] then some (.ok (), waiting, w) else none
  | turns + 1, waiting, input, w =>
    if input = [] then some (.ok (), waiting, w)
    else match turn S waiting input w with
      | (.error e, waiting, _, w) => some (.error e, waiting, w)
      | (.ok (), waiting, input, w) => loop S turns waiting input w

/-- **A turn takes a byte at least,** and leaves fewer than fill a frame. -/
theorem turn_takes {waiting input : Bytes} (hfew : waiting.length < chunkSize)
    (hne : input ≠ []) (S : Suite) (w : Writer) :
    (turn S waiting input w).2.2.1.length < input.length ∧
      (turn S waiting input w).2.1.length < chunkSize := by
  have hpos := List.length_pos_iff.mpr hne
  have hroom : 0 < chunkSize := by decide
  unfold turn
  dsimp only
  split
  · rename_i hfull
    refine ⟨?_, hroom⟩
    rw [List.length_drop]
    omega
  · rename_i hfull
    rw [List.length_append, List.length_take] at hfull ⊢
    rw [List.length_drop]
    omega

/-- Bytes that fit below a chunk wait, and the turn is the last one. -/
theorem turn_of_fit {input : Bytes} (h : w.waiting.val.size + input.length < chunkSize) :
    turn S w.held input w.emptied = (.ok (), w.held ++ input, [], w.emptied) := by
  have hlength := w.length_held
  have hall : input.length ≤ chunkSize - w.held.length := by omega
  have hshort : (w.held ++ input).length ≠ chunkSize := by
    rw [List.length_append]
    omega
  unfold turn
  simp only [List.take_of_length_le hall, List.drop_eq_nil_of_le hall, dif_neg hshort]

/-- What there is room for fills a frame. -/
theorem turn_of_full {input : Bytes} (h : ¬ w.waiting.val.size + input.length < chunkSize) :
    turn S w.held input w.emptied
      = ((w.emptied.emit S (.data (w.fullChunk input h))).1, [], input.drop w.room,
          (w.emptied.emit S (.data (w.fullChunk input h))).2) := by
  have hlt := w.waiting.property
  have hlength := w.length_held
  have hroom : chunkSize - w.held.length = w.room := by rw [hlength]
  have hchunk : w.held ++ input.take w.room = (w.fullChunk input h).val := by
    simp only [fullChunk, Gathering.toBytes_add]
  have hfull : (w.held ++ input.take w.room).length = chunkSize := by
    rw [List.length_append, List.length_take]
    simp only [room] at hroom ⊢
    omega
  unfold turn
  simp only [hroom, hchunk]
  rw [dif_pos (hchunk ▸ hfull)]

theorem loop_nil (turns : Nat) (waiting : Bytes) (w : Writer) :
    loop S turns waiting [] w = some (.ok (), waiting, w) := by
  cases turns with
  | zero => rfl
  | succ turns => rfl

/-- Without bytes there is no turn, and nothing changes. -/
theorem loop_nil_eq_fill (turns : Nat) (w : Writer) :
    loop S turns w.held [] w.emptied
      = some ((w.fill S []).1, (w.fill S []).2.held, (w.fill S []).2.emptied) := by
  have hfit : w.waiting.val.size + ([] : Bytes).length < chunkSize := w.waiting.property
  rw [loop_nil, fill_of_fit hfit]
  simp [held]

/-- **The turns come to an end, and do what the writer does.** As many are
enough as there are bytes. -/
theorem loop_eq_fill {turns : Nat} {input : Bytes} (hturns : input.length ≤ turns) (w : Writer) :
    loop S turns w.held input w.emptied
      = some ((w.fill S input).1, (w.fill S input).2.held, (w.fill S input).2.emptied) := by
  -- on the turns: each leaves a writer with nothing that waits, and fewer bytes to take up
  induction turns generalizing w input with
  | zero =>
    obtain rfl : input = [] := List.eq_nil_of_length_eq_zero (by omega)
    exact loop_nil_eq_fill 0 w
  | succ turns ih =>
    have hlt := w.waiting.property
    by_cases hne : input = []
    · subst hne
      exact loop_nil_eq_fill (turns + 1) w
    have hpos := List.length_pos_iff.mpr hne
    rw [loop, if_neg hne]
    by_cases hfit : w.waiting.val.size + input.length < chunkSize
    · rw [turn_of_fit hfit, fill_of_fit hfit]
      simp only [loop_nil, held, Gathering.toBytes_add]
    · have hroom : w.room = chunkSize - w.waiting.val.size := rfl
      rw [turn_of_full hfit, fill_of_full hfit]
      rcases hemit : w.emptied.emit S (.data (w.fullChunk input hfit)) with ⟨result, w₁⟩
      have hnone : w₁.waiting = .none := waiting_emit hemit
      have hheld : w₁.held = [] := by
        rw [held, hnone]
        exact Waiting.toBytes_none
      have hemptied : w₁.emptied = w₁ := by rw [emptied, ← hnone]
      rcases result with e | u
      · show _ = some (Except.error e, w₁.held, w₁.emptied)
        rw [hheld, hemptied]
      · have hless : (input.drop w.room).length ≤ turns := by
          rw [List.length_drop]
          omega
        have hrest := ih hless w₁
        rw [hheld, hemptied] at hrest
        exact hrest

end Payload.Writer

/-- **The books of a payload writer are right between calls.** Over a sink that
takes everything, after any calls, successful or refused, that hand over fewer
bytes than there are numbers:

* the sink was given frames, as many as the writer has counted, and the names
  that it keeps are those that they announce, each once;
* fewer bytes wait than fill a frame, and none before the first entry or once
  the last one is complete;
* the data of the frames behind the last announcement, and then the bytes that
  wait, are those that were accepted for the last entry, as many as are counted
  of it, and no more than were declared.

So every turn in which bytes are taken up takes one at least, and the turns come
to an end with what the writer does; and a payload is not closed while bytes
wait, but only where the frames are those of all the data. -/
theorem payload_books_kept {S : Suite} {sink : Sink} (hsink : sink.Unbounded) (channel : Channel)
    (calls : List Payload.Writer.Call)
    (hbytes : Payload.Writer.Call.total calls < UInt64.size) {w : Payload.Writer}
    {entries : List (FileInfo × Bytes)}
    (hrun : Payload.Writer.run S calls (.create sink channel) [] = (w, entries)) :
    ∃ frames : List Frame,
      w.sink.accepted = sink.accepted ++ channel.stream S 0 frames ∧ w.counter = frames.length ∧
      frames.filterMap Frame.name? = w.names.reverse ∧ w.names.Nodup ∧
      w.held.length < chunkSize ∧
      (w.current = none → frames = [] ∧ entries = [] ∧ w.held = []) ∧
      (∀ f, w.current = some f →
        ∃ (before : List Frame) (name : EntryName) (chunks : List Chunk)
          (past : List (FileInfo × Bytes)), name.val = f.name ∧
          frames = before ++ .file name f.declared :: chunks.map .data ∧
          entries = past ++ [(⟨f.name, f.declared⟩, chunks.flatMap Subtype.val ++ w.held)] ∧
          (chunks.flatMap Subtype.val ++ w.held).length = f.written ∧
          f.written ≤ f.declared.toNat ∧ (f.written = f.declared.toNat → w.held = [])) ∧
      (∀ (waiting input : Bytes) (w₁ : Payload.Writer), waiting.length < chunkSize → input ≠ [] →
        (Payload.Writer.turn S waiting input w₁).2.2.1.length < input.length ∧
          (Payload.Writer.turn S waiting input w₁).2.1.length < chunkSize) ∧
      (∀ data, Payload.Writer.loop S data.length w.held data w.emptied
        = some ((w.fill S data).1, (w.fill S data).2.held, (w.fill S data).2.emptied)) ∧
      (w.held ≠ [] → ∃ m, w.close S = .error (.sizeMismatch m)) ∧
      ∀ closed, w.close S = .ok closed → w.held = [] ∧ Item.Complete entries ∧
        frames = Frame.ofEntries entries ∧
        closed.accepted = sink.accepted ++ channel.stream S 0 (frames ++ [.finish]) := by
  rw [← Nat.zero_add (Payload.Writer.Call.total calls)] at hbytes
  obtain ⟨frames, hbooks⟩ := (Payload.Writer.books_create hsink channel).run hbytes hrun
  have hcounter := hbooks.wrote.counter
  have hshort : w.held.length < chunkSize := by
    rw [w.length_held]
    exact w.waiting.property
  refine ⟨frames, hbooks.wrote.accepted, hcounter.trans (Nat.zero_add _), hbooks.names, hbooks.nodup,
    hshort, hbooks.idle, fun f => hbooks.busy, fun waiting input w₁ hfew hne =>
    Payload.Writer.turn_takes hfew hne S w₁, fun data => Payload.Writer.loop_eq_fill (Nat.le_refl _) w,
    hbooks.close_of_held, fun closed hclose => ?_⟩
  obtain ⟨hframes, hheld, hcomplete, haccepted⟩ := hbooks.close hclose
  exact ⟨hheld, hcomplete, hframes, haccepted⟩

/-- An entry of three bytes of which two were handed over, with calls between
that are refused: the announcement was written and counted, two bytes wait, and
so the payload is not closed. -/
theorem twoOfThree_payload_books_kept :
    let calls : List Payload.Writer.Call :=
      [.declare "a" 3, .write [1], .write [1, 2, 3], .declare "b" 1, .write [2]]
    ∃ w frames,
      Payload.Writer.run .plain calls (.create .unlimited .sample) [] = (w, [(⟨"a", 3⟩, [1, 2])]) ∧
      w.sink.accepted = Channel.sample.stream .plain 0 frames ∧ frames.length = 1 ∧
      frames.filterMap Frame.name? = ["a"] ∧ w.held = [1, 2] ∧
      ∃ m, w.close .plain = .error (.sizeMismatch m) := by
  intro calls
  obtain ⟨w, hw⟩ : ∃ w, (Payload.Writer.run .plain calls (.create .unlimited .sample) []).1 = w :=
    ⟨_, rfl⟩
  have hrun : Payload.Writer.run .plain calls (.create .unlimited .sample) []
      = (w, [(⟨"a", 3⟩, [1, 2])]) := by
    refine Prod.ext hw ?_
    show (Payload.Writer.run .plain calls (.create .unlimited .sample) []).2 = [(⟨"a", 3⟩, [1, 2])]
    decide +kernel
  have hheld : w.held = [1, 2] := by
    rw [← hw]
    decide +kernel
  have hcounter : w.counter = 1 := by
    rw [← hw]
    decide +kernel
  have hnames : w.names = ["a"] := by
    rw [← hw]
    decide +kernel
  obtain ⟨frames, haccepted, hcount, hannounced, -, -, -, -, -, -, hwaits, -⟩ :=
    payload_books_kept Sink.unbounded_unlimited .sample calls (by decide +kernel) hrun
  rw [hnames] at hannounced
  exact ⟨w, frames, hrun, haccepted, hcount.symm.trans hcounter, hannounced, hheld,
    hwaits (by rw [hheld]; simp)⟩

end Lockbox
