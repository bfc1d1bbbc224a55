import Lockbox.Proofs.Writing
import Mathlib.Data.List.Nodup
/-!
# Lockbox — data in pieces

The data of an entry may be handed over in any pieces, and some of them may
be empty. Over a sink that takes everything this leaves no trace: an entry
becomes the frames of its data as a whole, unless the numbers of frames run
out before, and that too is decided by the frames and not by the pieces
(`entry_outcome`, `record_outcome`). So what a payload consists of is a
function of its entries (`payload_independent_of_pieces`).
-/

namespace Lockbox

/-- Entries whose data come in pieces, with their data as a whole. -/
def joined (entries : List (FileInfo × List Bytes)) : List (FileInfo × Bytes) :=
  entries.map fun e => (e.1, e.2.flatten)

/-! ## How many frames there are

Data are cut into chunks of one size, and the last one may be shorter. The
count is needed because the numbers of frames are limited. -/

namespace Chunk

/-- Data need as many chunks as hold them. -/
theorem length_cut (data : Bytes) :
    (cut data).length = (data.length + (chunkSize - 1)) / chunkSize := by
  fun_induction cut data with
  | case1 => rfl
  | case2 data h ih =>
    have hpos := List.length_pos_iff.mpr h
    rw [List.length_cons, ih, List.length_drop]
    simp only [chunkSize]
    omega

/-- All chunks but the last are full. -/
theorem full_of_mem_dropLast (data : Bytes) :
    ∀ c ∈ (cut data).dropLast, c.val.length = chunkSize := by
  fun_induction cut data with
  | case1 =>
    intro c hc
    exact absurd hc (by simp)
  | case2 data h ih =>
    intro c hc
    by_cases hlast : data.drop chunkSize = []
    · rw [hlast, cut_nil] at hc
      exact absurd hc (by simp)
    · have hmore : cut (data.drop chunkSize) ≠ [] := by
        rw [cut, dif_neg hlast]
        exact List.cons_ne_nil _ _
      rw [List.dropLast_cons_of_ne_nil hmore] at hc
      rcases List.mem_cons.mp hc with rfl | hc
      · have hpos := List.length_pos_iff.mpr hlast
        rw [List.length_drop] at hpos
        rw [List.length_take]
        omega
      · exact ih c hc

end Chunk

namespace Frame

/-- There are as many frames as chunks, the last one counted if it is only
begun. -/
theorem length_ofData (data : Bytes) :
    (ofData data).length = (data.length + (chunkSize - 1)) / chunkSize := by
  rw [ofData, List.length_map, Chunk.length_cut]

/-- A full chunk is one frame, and behind it the cut begins anew. -/
theorem length_ofData_full {full : Bytes} (h : full.length = chunkSize) (rest : Bytes) :
    (ofData (full ++ rest)).length = 1 + (ofData rest).length := by
  have hpos : 0 < chunkSize := by decide
  rw [ofData_append (h ▸ Nat.dvd_refl _), ofData_of_le (by omega), List.length_append,
    List.length_singleton]

/-- More data are no fewer frames. -/
theorem length_ofData_le {a b : Bytes} (h : a.length ≤ b.length) :
    (ofData a).length ≤ (ofData b).length := by
  rw [length_ofData, length_ofData]
  exact Nat.div_le_div_right (by omega)

end Frame

namespace Payload.Writer

variable {S : Suite} {w w' : Writer}

/-! ## A sink that takes everything goes on doing so -/

/-- A sink that takes everything goes on doing so, whether a frame comes out or
not. The same holds for all operations that write frames. -/
theorem unbounded_emit (h : w.sink.Unbounded) (frame : Frame) :
    (w.emit S frame).2.sink.Unbounded := by
  obtain ⟨sink, hsink, hu, -⟩ := h.writeEach
    [Bytes.ofNat 4 (w.channel.sealFrame S w.counter frame).length,
      w.channel.sealFrame S w.counter frame]
  simp only [emit, hsink]
  split
  · exact hu
  · exact hu

theorem unbounded_flush (h : w.sink.Unbounded) : (w.flush S).2.sink.Unbounded := by
  unfold flush
  split
  · exact unbounded_emit (w := { w with waiting := .none }) h _
  · exact h

theorem unbounded_fill (h : w.sink.Unbounded) (input : Bytes) :
    (w.fill S input).2.sink.Unbounded := by
  fun_induction fill S input w with
  | case1 => exact h
  | case2 input w hlt hfit room full hfull hpos w₁ hemit ih =>
    have hu := unbounded_emit (S := S) (w := { w with waiting := .none }) h
      (.data ⟨full, by omega, by omega⟩)
    rw [hemit] at hu
    exact ih hu
  | case3 input w hlt hfit room full hfull hpos e w₁ hemit =>
    have hu := unbounded_emit (S := S) (w := { w with waiting := .none }) h
      (.data ⟨full, by omega, by omega⟩)
    rwa [hemit] at hu

theorem unbounded_declare (h : w.sink.Unbounded) (name : String) (size : UInt64) :
    (w.declare S name size).2.sink.Unbounded := by
  unfold declare
  split
  · exact h
  · split
    · exact h
    · split
      · exact h
      · rename_i stored _ _ _ _
        have hu := unbounded_emit (S := S) h (.file stored size)
        split <;> simp_all

theorem unbounded_write (h : w.sink.Unbounded) (data : Bytes) :
    (w.write S data).2.sink.Unbounded := by
  unfold write
  split
  · exact h
  · dsimp only
    split
    · exact h
    · have hfill := unbounded_fill (S := S) h data
      split
      · rename_i hr
        rwa [hr] at hfill
      · rename_i w₁ hr
        rw [hr] at hfill
        have hflush := unbounded_flush (S := S) (w := w₁) hfill
        split
        · rename_i hlast
          split at hlast
          · rwa [hlast] at hflush
          · exact absurd (Prod.mk.inj hlast).1 (by simp)
        · rename_i hlast
          split at hlast
          · rwa [hlast] at hflush
          · obtain ⟨-, rfl⟩ := Prod.mk.inj hlast
            exact hfill

/-! ## What fails is for want of numbers

With a sink that takes everything, whether an operation fails is arithmetic:
it fails just if the frames that it is to write do not fit below the last
number. -/

/-- If its sink takes everything, a frame fails only for want of a number. -/
theorem emit_exhausted {frame : Frame} {e : Error} (h : w.sink.Unbounded)
    (he : w.emit S frame = (.error e, w')) :
    e = .crypto .framesExhausted ∧ UInt64.size ≤ w.counter + 1 := by
  obtain ⟨sink, hsink, -⟩ := h.writeEach
    [Bytes.ofNat 4 (w.channel.sealFrame S w.counter frame).length,
      w.channel.sealFrame S w.counter frame]
  simp only [emit, hsink] at he
  split at he
  · exact absurd (Prod.mk.inj he).1 (by simp)
  · rename_i hroom
    obtain ⟨he, -⟩ := Prod.mk.inj he
    cases he
    exact ⟨rfl, Nat.le_of_not_lt hroom⟩

/-- So does what waits, if it is anything. -/
theorem flush_exhausted {e : Error} (h : w.sink.Unbounded) (he : w.flush S = (.error e, w')) :
    e = .crypto .framesExhausted ∧ UInt64.size ≤ w.counter + (Frame.ofData w.held).length := by
  unfold flush at he
  split at he
  · rename_i hpos
    obtain ⟨rfl, hspent⟩ := emit_exhausted (w := { w with waiting := .none }) h he
    have hlen := w.length_held
    have hlt := w.waiting.property
    have hone : (Frame.ofData w.held).length = 1 := by
      rw [Frame.ofData_of_le ⟨by omega, by omega⟩, List.length_singleton]
    have hspent : UInt64.size ≤ w.counter + 1 := hspent
    exact ⟨rfl, by omega⟩
  · exact absurd (Prod.mk.inj he).1 (by simp)

/-- And so do bytes: the number is wanting for one of the frames that they make
together with what waits. -/
theorem fill_exhausted {input : Bytes} {e : Error} (h : w.sink.Unbounded)
    (he : w.fill S input = (.error e, w')) :
    e = .crypto .framesExhausted ∧
      UInt64.size ≤ w.counter + (Frame.ofData (w.held ++ input)).length := by
  fun_induction fill S input w with
  | case1 => exact absurd (Prod.mk.inj he).1 (by simp)
  | case2 input w hlt hfit room full hfull hpos w₁ hemit ih =>
    have hu := unbounded_emit (S := S) (w := { w with waiting := .none }) h
      (.data ⟨full, by omega, by omega⟩)
    rw [hemit] at hu
    obtain ⟨hwrote, -, hw₁, -⟩ := emit_ok hemit
    obtain ⟨rfl, hspent⟩ := ih hu he
    have hcounter : w₁.counter = w.counter + 1 := hwrote.counter
    have hheld : w₁.held = [] := by rw [held, hw₁, Waiting.toBytes_none]
    rw [hheld, List.nil_append] at hspent
    have hsplit : w.held ++ input = full ++ input.drop room := by
      simp only [full, Gathering.toBytes_add, List.append_assoc, List.take_append_drop]
    have hframes := Frame.length_ofData_full hfull (input.drop room)
    rw [← hsplit] at hframes
    exact ⟨rfl, by omega⟩
  | case3 input w hlt hfit room full hfull hpos e₁ w₁ hemit =>
    obtain ⟨he, -⟩ := Prod.mk.inj he
    cases he
    obtain ⟨rfl, hspent⟩ := emit_exhausted (w := { w with waiting := .none }) h hemit
    have hsplit : w.held ++ input = full ++ input.drop room := by
      simp only [full, Gathering.toBytes_add, List.append_assoc, List.take_append_drop]
    have hframes := Frame.length_ofData_full hfull (input.drop room)
    rw [← hsplit] at hframes
    have hspent : UInt64.size ≤ w.counter + 1 := hspent
    exact ⟨rfl, by omega⟩

/-- An entry that may be declared is, as long as there is a number for it. -/
theorem declare_exhausted {name : String} {size : UInt64} {stored : EntryName} {e : Error}
    (h : w.sink.Unbounded) (hstored : EntryName.ofText name = .ok stored)
    (hcomplete : w.checkComplete = .ok ()) (hnew : name ∉ w.names)
    (he : w.declare S name size = (.error e, w')) :
    e = .crypto .framesExhausted ∧ UInt64.size ≤ w.counter + 1 := by
  obtain ⟨-, ⟨f, hname, -⟩ | ⟨m, hsize, -⟩ | ⟨hold, -⟩⟩ | ⟨_, hemit⟩ := declare_error_cases he
  · exact absurd (hstored.symm.trans hname) (by simp)
  · exact absurd (hcomplete.symm.trans hsize) (by simp)
  · exact absurd hold hnew
  · exact emit_exhausted h hemit

/-- Data that fit the entry are written, as long as there are numbers for all
that waited and came. -/
theorem write_exhausted {data : Bytes} {f : OpenFile} {e : Error} (h : w.sink.Unbounded)
    (hf : w.current = some f) (hfits : f.written + data.length ≤ f.declared.toNat)
    (he : w.write S data = (.error e, w')) :
    e = .crypto .framesExhausted ∧
      UInt64.size ≤ w.counter + (Frame.ofData (w.held ++ data)).length := by
  obtain ⟨-, ⟨hnone, -⟩ | ⟨g, hg, hexcess, -⟩⟩ | hfill | ⟨w₁, hfill, hlast⟩ := write_error_cases he
  · exact absurd (hf.symm.trans hnone) (by simp)
  · obtain rfl : f = g := Option.some.inj (hf.symm.trans hg)
    omega
  · exact fill_exhausted h hfill
  · -- the full frames were written, and what was left of the entry was not
    obtain ⟨more, hdvd, hbytes, hwrote, -⟩ := fill_ok hfill
    have hu := unbounded_fill (S := S) h data
    rw [hfill] at hu
    obtain ⟨rfl, hspent⟩ := flush_exhausted hu hlast
    have hspent : UInt64.size ≤ w₁.counter + (Frame.ofData w₁.held).length := hspent
    have hcounter := hwrote.counter
    rw [← hbytes, Frame.ofData_append hdvd, List.length_append]
    exact ⟨rfl, by omega⟩

/-! ## Entries in pieces

Pieces are compared with the whole by what they leave in the sink and in the
buffer. The induction is on the pieces; what waits between two of them is
part of the next chunk. -/

/-- Hands over pieces, up to the first that fails. -/
def writeEach (S : Suite) : List Bytes → Writer → Except Error Unit × Writer
  | [], w => (.ok (), w)
  | piece :: rest, w =>
    match w.write S piece with
    | (.ok (), w) => writeEach S rest w
    | (.error e, w) => (.error e, w)

/-- Declares entries and hands over their pieces, up to the first call that
fails. -/
def record (S : Suite) : List (FileInfo × List Bytes) → Writer → Except Error Unit × Writer
  | [], w => (.ok (), w)
  | e :: rest, w =>
    match w.declare S e.1.name e.1.size with
    | (.error f, w) => (.error f, w)
    | (.ok (), w) =>
      match w.writeEach S e.2 with
      | (.ok (), w) => record S rest w
      | (.error f, w) => (.error f, w)

/-- **A payload of these entries**, handed over in these pieces. -/
def compose (S : Suite) (entries : List (FileInfo × List Bytes)) (w : Writer) :
    Except Error Sink :=
  match w.record S entries with
  | (.ok (), w) => w.close S
  | (.error e, _) => .error e

/-- The last entry is complete, and nothing waits. -/
structure Settled (w : Writer) : Prop where
  sink : w.sink.Unbounded
  complete : w.checkComplete = .ok ()
  held : w.held = []

/-- A writer that was created is settled. -/
theorem settled_create {sink : Sink} (h : sink.Unbounded) (channel : Channel) :
    (create sink channel).Settled := ⟨h, rfl, rfl⟩

/-- What comes of handing over data that are these frames: they are written,
and nothing waits, or else there are not numbers enough for them. -/
inductive Outcome (S : Suite) (frames : List Frame) (names : List String) (w : Writer) :
    Except Error Unit × Writer → Prop
  | wrote {w' : Writer} (h : Wrote S frames w w') (settled : w'.Settled)
    (hnames : w'.names = names) : Outcome S frames names w (.ok (), w')
  | exhausted {w' : Writer} (h : UInt64.size ≤ w.counter + frames.length) :
    Outcome S frames names w (.error (.crypto .framesExhausted), w')

/-- What comes of an operation comes of it behind others. -/
theorem Outcome.after {before frames : List Frame} {names : List String} {w₁ : Writer}
    {r : Except Error Unit × Writer} (h : Wrote S before w w₁) (hr : Outcome S frames names w₁ r) :
    Outcome S (before ++ frames) names w r := by
  cases hr with
  | wrote hwrote hsettled hnames => exact .wrote (h.trans hwrote) hsettled hnames
  | exhausted hspent =>
    have hcounter := h.counter
    exact .exhausted (by rw [List.length_append]; omega)

/-- Numbers that are not enough for some frames are not enough for more. -/
theorem Outcome.of_exhausted {frames : List Frame} {names : List String} {n : Nat}
    (h : UInt64.size ≤ w.counter + n) (hle : n ≤ frames.length) :
    Outcome S frames names w (.error (.crypto .framesExhausted), w') :=
  .exhausted (by omega)

/-- **The pieces of an entry leave no trace.** Whatever of the entry waits,
what comes of handing over the rest of it depends on the data that are left
and not on their pieces. -/
theorem entry_outcome {pieces : List Bytes} {f : OpenFile} (h : w.sink.Unbounded)
    (hf : w.current = some f) (hall : f.written + pieces.flatten.length = f.declared.toNat)
    (hend : f.written = f.declared.toNat → w.held = []) :
    Outcome S (Frame.ofData (w.held ++ pieces.flatten)) w.names w (w.writeEach S pieces) := by
  induction pieces generalizing w f with
  | nil =>
    have hwritten : f.written = f.declared.toNat := by simpa using hall
    have hheld := hend hwritten
    rw [hheld, List.flatten_nil, List.append_nil, Frame.ofData_nil]
    refine .wrote (.refl w) ⟨h, ?_, hheld⟩ rfl
    simp only [checkComplete, hf, if_pos hwritten]
  | cons piece rest ih =>
    rw [List.flatten_cons, List.length_append] at hall
    rw [writeEach, List.flatten_cons, ← List.append_assoc]
    have hu := unbounded_write (S := S) h piece
    split
    · rename_i w₁ hwrite
      rw [hwrite] at hu
      obtain ⟨g, more, hg, -, hbytes, hwrote, hcurrent, hnames, hlast⟩ := write_ok hwrite
      obtain rfl : f = g := Option.some.inj (hf.symm.trans hg)
      have hrest := ih hu hcurrent (by dsimp only; omega) fun hdone => by
        rwa [if_pos hdone] at hlast
      rw [hnames] at hrest
      -- what went out ends where a frame does, or else nothing follows
      have hcut : Frame.ofData (w.held ++ piece ++ rest.flatten)
          = Frame.ofData more ++ Frame.ofData (w₁.held ++ rest.flatten) := by
        rw [← hbytes, List.append_assoc]
        split at hlast
        · have hnone : rest.flatten = [] := List.eq_nil_of_length_eq_zero (by omega)
          rw [hlast, hnone, List.append_nil, List.append_nil, Frame.ofData_nil, List.append_nil]
        · exact Frame.ofData_append hlast _
      rw [hcut]
      exact hrest.after hwrote
    · rename_i e w₁ hwrite
      obtain ⟨rfl, hspent⟩ := write_exhausted h hf (by omega) hwrite
      exact .of_exhausted hspent (Frame.length_ofData_le (by simp))

/-- **Entries are written as their frames**, one after the other. -/
theorem record_outcome {entries : List (FileInfo × List Bytes)} (h : w.Settled)
    (hstorable : Storable (joined entries)) (hcomplete : Item.Complete (joined entries))
    (hnodup : (entries.map fun e => e.1.name).Nodup)
    (hnew : ∀ e ∈ entries, e.1.name ∉ w.names) :
    Outcome S (Frame.ofEntries (joined entries))
      ((entries.map fun e => e.1.name).reverse ++ w.names) w (w.record S entries) := by
  induction entries generalizing w with
  | nil => exact .wrote (.refl w) h rfl
  | cons e rest ih =>
    have hmem : (e.1, e.2.flatten) ∈ joined (e :: rest) := List.mem_cons_self
    obtain ⟨stored, hstored⟩ := hstorable _ hmem
    have hsize : e.2.flatten.length = e.1.size.toNat := hcomplete _ hmem
    have hfresh := hnew e List.mem_cons_self
    have hframes : Frame.ofEntries (joined (e :: rest))
        = [.file stored e.1.size] ++
          (Frame.ofData e.2.flatten ++ Frame.ofEntries (joined rest)) := by
      have hannounce : Frame.announce e.1 = [.file stored e.1.size] := Frame.announce_of_ok hstored
      rw [← hannounce, ← List.append_assoc]
      rfl
    rw [List.map_cons, List.nodup_cons] at hnodup
    rw [hframes, record]
    have hdeclared := unbounded_declare (S := S) h.sink e.1.name e.1.size
    split
    · rename_i f w₁ hdeclare
      obtain ⟨rfl, hspent⟩ := declare_exhausted h.sink hstored h.complete hfresh hdeclare
      exact .of_exhausted hspent (by simp)
    · rename_i w₁ hdeclare
      rw [hdeclare] at hdeclared
      obtain ⟨stored', hstored', -, -, hwrote, hheld, hcurrent, hnames⟩ := declare_ok hdeclare
      obtain rfl : stored = stored' := Except.ok.inj (hstored.symm.trans hstored')
      rw [h.held] at hheld
      refine Outcome.after hwrote ?_
      have hentry : Outcome S (Frame.ofData (w₁.held ++ e.2.flatten)) w₁.names w₁
          (w₁.writeEach S e.2) :=
        entry_outcome hdeclared hcurrent (by dsimp only; omega) fun _ => hheld
      rw [hheld, List.nil_append] at hentry
      split
      · rename_i w₂ hpieces
        rw [hpieces] at hentry
        cases hentry with
        | wrote hdata hsettled hnames₂ =>
          refine Outcome.after hdata ?_
          rw [List.map_cons, List.reverse_cons, List.append_assoc, List.singleton_append, ← hnames,
            ← hnames₂]
          refine ih hsettled (fun g hg => hstorable g (List.mem_cons_of_mem _ hg))
            (fun g hg => hcomplete g (List.mem_cons_of_mem _ hg)) hnodup.2 ?_
          intro g hg hused
          rw [hnames₂, hnames] at hused
          rcases List.mem_cons.mp hused with heq | hused
          · exact hnodup.1 (heq ▸ List.mem_map_of_mem hg)
          · exact hnew g (List.mem_cons_of_mem _ hg) hused
      · rename_i f w₂ hpieces
        rw [hpieces] at hentry
        cases hentry with
        | exhausted hspent => exact .of_exhausted hspent (by simp)

/-- A payload whose entries are complete is closed, if one number is left. -/
theorem close_settled (h : w.Settled) :
    (w.close S).map Sink.accepted =
      if w.counter + 1 < UInt64.size then
        .ok (w.sink.accepted ++ w.channel.stream S w.counter [.finish])
      else .error (.crypto .framesExhausted) := by
  have hu := unbounded_emit (S := S) h.sink .finish
  simp only [close, h.complete]
  split
  · rename_i e w₁ hemit
    obtain ⟨rfl, hspent⟩ := emit_exhausted h.sink hemit
    rw [if_neg (Nat.not_lt.mpr hspent)]
    rfl
  · rename_i w₁ hemit
    rw [hemit] at hu
    obtain ⟨hwrote, hlt, -⟩ := emit_ok hemit
    have hcounter : w₁.counter = w.counter + 1 := hwrote.counter
    rw [hu.flush_eq, if_pos (by omega), ← hwrote.accepted]
    rfl

/-- **What a payload consists of**, however its data were handed over. -/
theorem compose_eq {sink : Sink} {channel : Channel} {entries : List (FileInfo × List Bytes)}
    (h : sink.Unbounded) (hstorable : Storable (joined entries))
    (hcomplete : Item.Complete (joined entries))
    (hnodup : (entries.map fun e => e.1.name).Nodup) :
    ((create sink channel).compose S entries).map Sink.accepted =
      if (Frame.script (joined entries)).length < UInt64.size then
        .ok (sink.accepted ++ channel.stream S 0 (Frame.script (joined entries)))
      else .error (.crypto .framesExhausted) := by
  have hentries := record_outcome (S := S) (settled_create h channel) hstorable hcomplete hnodup
    (fun _ _ => List.not_mem_nil)
  have hlength : (Frame.script (joined entries)).length
      = (Frame.ofEntries (joined entries)).length + 1 := List.length_append
  unfold compose
  split
  · rename_i w hrecord
    rw [hrecord] at hentries
    cases hentries with
    | wrote hwrote hsettled _ =>
      have hcounter : w.counter = (Frame.ofEntries (joined entries)).length :=
        hwrote.counter.trans (Nat.zero_add _)
      have haccepted : w.sink.accepted
          = sink.accepted ++ channel.stream S 0 (Frame.ofEntries (joined entries)) :=
        hwrote.accepted
      have hchannel : w.channel = channel := hwrote.channel
      rw [close_settled hsettled, haccepted, hchannel, hcounter, hlength, Frame.script,
        Channel.stream_append, Nat.zero_add, List.append_assoc]
  · rename_i e w hrecord
    rw [hrecord] at hentries
    cases hentries with
    | exhausted hspent =>
      have hspent : UInt64.size ≤ 0 + (Frame.ofEntries (joined entries)).length := hspent
      rw [if_neg (by omega)]
      rfl

end Payload.Writer

/-- Entries need at most two frames each besides those that their data
fill. -/
theorem Frame.length_ofEntries_joined_le (parts : List (FileInfo × List Bytes)) :
    (ofEntries (joined parts)).length * chunkSize ≤
      parts.length * (2 * chunkSize) + (parts.flatMap fun e => e.2.flatten).length := by
  induction parts with
  | nil => exact Nat.zero_le _
  | cons e rest ih =>
    have hannounce : (announce e.1).length ≤ 1 := by
      unfold announce
      split <;> simp
    have hdata := length_ofData e.2.flatten
    have hframes : (ofEntries (joined (e :: rest))).length = (announce e.1).length +
        (ofData e.2.flatten).length + (ofEntries (joined rest)).length := by
      show (ofEntries ((e.1, e.2.flatten) :: joined rest)).length = _
      rw [ofEntries_cons, List.length_append, List.length_append]
    have hfill : (ofData e.2.flatten).length * chunkSize ≤ e.2.flatten.length + chunkSize := by
      have hle := Nat.div_mul_le_self (e.2.flatten.length + (chunkSize - 1)) chunkSize
      rw [← hdata] at hle
      omega
    have hannounce := Nat.mul_le_mul_right chunkSize hannounce
    rw [hframes, List.flatMap_cons, List.length_append, List.length_cons, Nat.add_mul,
      Nat.add_mul, Nat.add_mul]
    omega

/-- There are numbers enough for the frames, unless there are very many entries
or more data than can be counted. -/
theorem Frame.length_script_lt {parts : List (FileInfo × List Bytes)}
    (hfew : parts.length ≤ UInt64.size / 4)
    (hbytes : (parts.flatMap fun e => e.2.flatten).length < UInt64.size) :
    (script (joined parts)).length < UInt64.size := by
  have hlength : (script (joined parts)).length = (ofEntries (joined parts)).length + 1 :=
    List.length_append
  have hframes := length_ofEntries_joined_le parts
  simp only [chunkSize] at hframes
  simp only [UInt64.size] at hbytes hfew ⊢
  omega

/-- **The payload depends on the entries alone.** Entries whose names can be
stored and differ, each with as much data as declared, become over a sink that
takes everything the frames of the script, numbered from zero, in whatever
pieces the data are handed over; only if there are more frames than numbers,
which takes very many entries or more data than can be counted, the payload is
refused for that. In the script an entry is announced and its
data follow in frames, as many as hold them: all full but perhaps the last,
none empty, and together the data. -/
theorem payload_independent_of_pieces (S : Suite) (sink : Sink) (channel : Channel)
    (entries : List (FileInfo × List Bytes)) (hsink : sink.Unbounded)
    (hstorable : Storable (joined entries)) (hnodup : (entries.map fun e => e.1.name).Nodup)
    (hcomplete : Item.Complete (joined entries)) :
    ((Payload.Writer.create sink channel).compose S entries).map Sink.accepted =
      (if (Frame.script (joined entries)).length < UInt64.size then
        .ok (sink.accepted ++ channel.stream S 0 (Frame.script (joined entries)))
      else .error (.crypto .framesExhausted)) ∧
    (entries.length ≤ UInt64.size / 4 →
      (entries.flatMap fun e => e.2.flatten).length < UInt64.size →
      (Frame.script (joined entries)).length < UInt64.size) ∧
    Frame.script (joined entries) =
      (joined entries).flatMap (fun e => Frame.announce e.1 ++ (Chunk.cut e.2).map .data)
        ++ [.finish] ∧
    ∀ e ∈ joined entries,
      (∃ name : EntryName, name.val = e.1.name ∧ Frame.announce e.1 = [.file name e.1.size]) ∧
      (Chunk.cut e.2).length = (e.1.size.toNat + 65535) / 65536 ∧
      (Chunk.cut e.2).flatMap Subtype.val = e.2 ∧
      (∀ c ∈ (Chunk.cut e.2).dropLast, c.val.length = 65536) ∧
      ∀ c ∈ Chunk.cut e.2, c.val ≠ [] := by
  refine ⟨Payload.Writer.compose_eq hsink hstorable hcomplete hnodup, Frame.length_script_lt, rfl,
    ?_⟩
  intro e he
  obtain ⟨name, hname⟩ := hstorable e he
  refine ⟨⟨name, EntryName.ofText_eq_ok_iff.mp hname, Frame.announce_of_ok hname⟩, ?_,
    Chunk.flatMap_cut e.2, Chunk.full_of_mem_dropLast e.2, ?_⟩
  · rw [Chunk.length_cut, hcomplete e he]
    rfl
  · intro c _
    exact List.length_pos_iff.mp c.property.1

/-- Three bytes in two ways, the one with empty pieces, and an entry without
data. -/
theorem threeBytes_payload_independent_of_pieces :
    let channel : Channel :=
      ⟨⟨List.replicate 32 1, by decide⟩, ⟨List.replicate 24 2, by decide⟩, 2, ⟨false⟩⟩
    let payload : Except Error Bytes := .ok (channel.stream .plain 0
      [.file ⟨"a", by decide⟩ 3, .data ⟨[1, 2, 3], by decide⟩, .file ⟨"b", by decide⟩ 0, .finish])
    ((Payload.Writer.create .unlimited channel).compose .plain
      [(⟨"a", 3⟩, [[1], [], [2, 3], []]), (⟨"b", 0⟩, [])]).map Sink.accepted = payload ∧
    ((Payload.Writer.create .unlimited channel).compose .plain
      [(⟨"a", 3⟩, [[1, 2], [3]]), (⟨"b", 0⟩, [[]])]).map Sink.accepted = payload := by
  intro channel payload
  have hjoined : ∀ entries, joined entries = [(⟨"a", 3⟩, [1, 2, 3]), (⟨"b", 0⟩, [])] →
      (entries.map fun e => e.1.name) = ["a", "b"] →
      ((Payload.Writer.create .unlimited channel).compose .plain entries).map Sink.accepted
        = payload := by
    intro entries hentries hnames
    have hstorable : Storable (joined entries) := by
      rw [hentries]
      intro e he
      rcases List.mem_cons.mp he with rfl | he
      · exact ⟨⟨"a", by decide⟩, EntryName.ofText_eq_ok_iff.mpr rfl⟩
      · obtain rfl := List.mem_singleton.mp he
        exact ⟨⟨"b", by decide⟩, EntryName.ofText_eq_ok_iff.mpr rfl⟩
    have hcomplete : Item.Complete (joined entries) := by
      rw [hentries, Item.Complete]
      decide
    have hscript : Frame.script (joined entries) = [.file ⟨"a", by decide⟩ 3,
        .data ⟨[1, 2, 3], by decide⟩, .file ⟨"b", by decide⟩ 0, .finish] := by
      have hfirst : Frame.announce ⟨"a", 3⟩ = [.file ⟨"a", by decide⟩ 3] :=
        Frame.announce_of_ok (EntryName.ofText_eq_ok_iff.mpr rfl)
      have hsecond : Frame.announce ⟨"b", 0⟩ = [.file ⟨"b", by decide⟩ 0] :=
        Frame.announce_of_ok (EntryName.ofText_eq_ok_iff.mpr rfl)
      rw [hentries, Frame.script, Frame.ofEntries_cons, Frame.ofEntries_cons, hfirst, hsecond,
        Frame.ofData_of_le (by decide), Frame.ofData_nil]
      rfl
    obtain ⟨hpayload, -⟩ := payload_independent_of_pieces .plain .unlimited channel entries
      Sink.unbounded_unlimited hstorable (by rw [hnames]; decide) hcomplete
    have hempty : Sink.unlimited.accepted = [] := rfl
    rw [hpayload, hscript, if_pos (by decide), hempty, List.nil_append]
  exact ⟨hjoined _ rfl rfl, hjoined _ rfl rfl⟩

end Lockbox
