import Lockbox.Proofs.Counting
/-!
# Lockbox — the sizes that were declared

Entries are recorded one after the other, and none begins before the one
before it is complete; so entries that were recorded are complete but perhaps
the last (`Writer.record_complete`). Calls do to the payload of a session what
they do to a payload (`Sealing.played_feed`), and a call that fails for a wrong
size or for a frame dooms the session. Where sinks take everything, a frame
fails only for want of a number; a session can be finished just if every entry
was handed as much as was declared and there were numbers enough
(`size_contract`).
-/

namespace Lockbox

open Payload

namespace Payload.Writer

variable {S : Suite} {w w' : Writer} {e : Error}

/-! ## Entries that were recorded

To record entries is to declare each and to write its pieces. If all of it
succeeds, an entry is complete once the next was declared, so that the sizes
are in doubt for the last one only. -/

/-- A declaration of a new entry that can be stored fails for a wrong size or
for the frame. -/
theorem declare_failed {name : String} {size : UInt64} {stored : EntryName}
    (hstored : EntryName.ofText name = .ok stored) (hnew : name ∉ w.names)
    (h : w.declare S name size = (.error e, w')) : Fatal e ∨ w'.Spent := by
  obtain ⟨-, ⟨f, hname, -⟩ | ⟨m, -, rfl⟩ | ⟨hmem, -⟩⟩ | hunwritten := declare_error h
  · exact absurd (hstored.symm.trans hname) (by simp)
  · exact .inl trivial
  · exact absurd hmem hnew
  · exact hunwritten.fatal_or_spent

/-- Data of an entry are refused for a wrong size or for a frame. -/
theorem write_failed {data : Bytes} {f : OpenFile} (hf : w.current = some f)
    (h : w.write S data = (.error e, w')) : Fatal e ∨ w'.Spent := by
  obtain ⟨-, ⟨hnone, -⟩ | ⟨g, -, -, rfl⟩⟩ | hunwritten := write_error h
  · exact absurd (hf.symm.trans hnone) (by simp)
  · exact .inl trivial
  · exact hunwritten.fatal_or_spent

/-- Pieces that could not be written have ended the session, or no number is
left. -/
theorem writeEach_failed {pieces : List Bytes} {f : OpenFile} (hf : w.current = some f)
    (h : w.writeEach S pieces = (.error e, w')) : Fatal e ∨ w'.Spent := by
  induction pieces generalizing w f with
  | nil => exact absurd (Prod.mk.inj h).1 (by simp)
  | cons piece rest ih =>
    rw [writeEach] at h
    split at h
    · rename_i w₁ hwrite
      obtain ⟨g, -, -, -, -, -, hcurrent, -⟩ := write_ok hwrite
      exact ih hcurrent h
    · rename_i hwrite
      obtain ⟨he, rfl⟩ := Prod.mk.inj h
      cases he
      exact write_failed hf hwrite

/-- Pieces that were handed over are all counted. -/
theorem writeEach_ok {pieces : List Bytes} {f : OpenFile} (hf : w.current = some f)
    (h : w.writeEach S pieces = (.ok (), w')) :
    w'.current = some { f with written := f.written + pieces.flatten.length } ∧
      w'.names = w.names := by
  induction pieces generalizing w f with
  | nil =>
    obtain ⟨-, rfl⟩ := Prod.mk.inj h
    exact ⟨hf, rfl⟩
  | cons piece rest ih =>
    rw [writeEach] at h
    split at h
    · rename_i w₁ hwrite
      obtain ⟨g, -, hg, -, -, -, hcurrent, hnames, -⟩ := write_ok hwrite
      obtain rfl : f = g := Option.some.inj (hf.symm.trans hg)
      obtain ⟨hcurrent', hnames'⟩ := ih hcurrent h
      refine ⟨?_, hnames'.trans hnames⟩
      rw [hcurrent', List.flatten_cons, List.length_append, Nat.add_assoc]
    · exact absurd (Prod.mk.inj h).1 (by simp)

/-- New entries that can be stored fail for a wrong size or for a frame. -/
theorem record_failed {parts : List (FileInfo × List Bytes)} (hstorable : Storable (joined parts))
    (hnodup : (parts.map fun e => e.1.name).Nodup) (hnew : ∀ e ∈ parts, e.1.name ∉ w.names)
    (h : w.record S parts = (.error e, w')) : Fatal e ∨ w'.Spent := by
  induction parts generalizing w with
  | nil => exact absurd (Prod.mk.inj h).1 (by simp)
  | cons part rest ih =>
    obtain ⟨stored, hstored⟩ := hstorable (part.1, part.2.flatten) List.mem_cons_self
    rw [List.map_cons, List.nodup_cons] at hnodup
    rw [record] at h
    split at h
    · rename_i hdeclare
      obtain ⟨he, rfl⟩ := Prod.mk.inj h
      cases he
      exact declare_failed hstored (hnew part List.mem_cons_self) hdeclare
    · rename_i w₁ hdeclare
      obtain ⟨-, -, -, -, -, -, hcurrent, hnames⟩ := declare_ok hdeclare
      split at h
      · rename_i w₂ hpieces
        obtain ⟨-, hnames₂⟩ := writeEach_ok hcurrent hpieces
        refine ih (fun g hg => hstorable g (List.mem_cons_of_mem _ hg)) hnodup.2 ?_ h
        intro g hg hused
        rw [hnames₂, hnames] at hused
        rcases List.mem_cons.mp hused with heq | hused
        · exact hnodup.1 (heq ▸ List.mem_map_of_mem hg)
        · exact hnew g (List.mem_cons_of_mem _ hg) hused
      · rename_i hpieces
        obtain ⟨he, rfl⟩ := Prod.mk.inj h
        cases he
        exact writeEach_failed hcurrent hpieces

/-- **Entries that were recorded, the last of them being complete, are all
complete,** for none begins before the one before it is. -/
theorem record_complete {parts : List (FileInfo × List Bytes)}
    (h : w.record S parts = (.ok (), w')) (hlast : w'.checkComplete = .ok ()) :
    w.checkComplete = .ok () ∧ Item.Complete (joined parts) := by
  induction parts generalizing w with
  | nil =>
    obtain ⟨-, rfl⟩ := Prod.mk.inj h
    exact ⟨hlast, fun e he => absurd he (by simp [joined])⟩
  | cons part rest ih =>
    rw [record] at h
    split at h
    · exact absurd (Prod.mk.inj h).1 (by simp)
    · rename_i w₁ hdeclare
      obtain ⟨-, -, hcomplete, -, -, -, hcurrent, -⟩ := declare_ok hdeclare
      split at h
      · rename_i w₂ hpieces
        obtain ⟨hcurrent₂, -⟩ := writeEach_ok hcurrent hpieces
        obtain ⟨hcomplete₂, hrest⟩ := ih h
        have hsize := checkComplete_ok_iff.mp hcomplete₂ _ hcurrent₂
        refine ⟨hcomplete, ?_⟩
        intro e he
        rcases List.mem_cons.mp he with rfl | he
        · simpa using hsize
        · exact hrest e he
      · exact absurd (Prod.mk.inj h).1 (by simp)

end Payload.Writer

namespace Sealing

variable {σ : Type} {s : Sealing σ} {w : World σ} {draft draft' : Draft}

/-! ## Sessions that cannot be sealed any more

A session is doomed once it failed or its payload has no number left. It is
an absorbing state, which is why one failed call decides about all that
follow. -/

/-- The session failed, or its payload has no number left. -/
def Doomed (s : Sealing σ) : Prop :=
  (∃ cause, s.stage = .failed cause) ∨ ∃ draft, s.stage = .accepting draft ∧ draft.payload.Spent

/-- A session that is doomed cannot be finished. -/
theorem Doomed.finish (h : s.Doomed) : s.finish.1 ≠ .ok () := by
  intro hok
  have hfinish : s.finish = (.ok (), s.finish.2) := Prod.ext hok rfl
  obtain ⟨draft, spool, hstage, -, hclose, -⟩ := finish_ok hfinish
  obtain ⟨cause, hfailed⟩ | ⟨draft', hstage', hspent⟩ := h
  · rw [hstage] at hfailed
    exact absurd hfailed (by simp)
  · rw [hstage] at hstage'
    cases hstage'
    exact hspent.close spool hclose

/-- A payload operation takes no number back. -/
theorem Doomed.onPayload (h : s.Doomed) {op : Operation}
    {f : Writer → Except Error Unit × Writer} (hcounter : ∀ w, w.counter ≤ (f w).2.counter) :
    (s.onPayload op f).2.Doomed := by
  obtain ⟨cause, hfailed⟩ | ⟨draft, hstage, hspent⟩ := h
  · have hturn : s.stage.phase ≠ .accepting := by simp [hfailed, Stage.phase]
    rw [onPayload_of_ne hturn]
    exact .inl ⟨cause, hfailed⟩
  · have hspent' : (f draft.payload).2.Spent :=
      Nat.le_trans hspent (Nat.succ_le_succ (hcounter draft.payload))
    have hafter := stage_onPayload hstage op f
    obtain ⟨cause, hends⟩ | ⟨hlasts, -⟩ := Stage.after_cases
      { draft with payload := (f draft.payload).2 } (f draft.payload).1
    · exact .inl ⟨cause, hafter.trans hends⟩
    · exact .inr ⟨_, hafter.trans hlasts, hspent'⟩

/-- **What is doomed stays so.** -/
theorem Doomed.next (h : s.Doomed) (call : Call) (w : World σ) : (call.next s w).1.Doomed := by
  cases call with
  | begin =>
    have hturn : s.stage.phase ≠ Call.begin.phase := by
      obtain ⟨cause, hstage⟩ | ⟨draft, hstage, -⟩ := h <;> simp [hstage, Stage.phase, Call.phase]
    rw [Call.next_of_ne hturn]
    exact h
  | addRecipient r =>
    show (s.addRecipient r w).2.1.Doomed
    obtain ⟨cause, hfailed⟩ | ⟨draft, hstage, hspent⟩ := h
    · have hturn : s.stage.phase ≠ .accepting := by simp [hfailed, Stage.phase]
      rw [addRecipient_of_ne hturn]
      exact .inl ⟨cause, hfailed⟩
    · simp only [Sealing.addRecipient, hstage]
      split
      · exact .inr ⟨_, rfl, hspent⟩
      · exact .inr ⟨draft, hstage, hspent⟩
  | addFile name size => exact h.onPayload fun w => (Writer.paid_declare name size w).counter
  | writeData data => exact h.onPayload fun w => (Writer.paid_write data w).counter
  | finish =>
    show s.finish.2.Doomed
    have hfails := h.finish
    obtain ⟨cause, hfailed⟩ | ⟨draft, hstage, hspent⟩ := h
    · have hstill : s.finish.2 = s := congrArg Prod.fst ((over_of_failed hfailed).still .finish w)
      rw [hstill]
      exact .inl ⟨cause, hfailed⟩
    · rcases hanswer : s.finish.1 with e | u
      · exact .inl ⟨_, (finish_error hstage (Prod.ext hanswer rfl)).1⟩
      · exact absurd hanswer hfails

/-- No call takes that back. -/
theorem Doomed.played (h : s.Doomed) (calls : List Call) (w : World σ) :
    (played calls s w).1.Doomed := by
  induction calls generalizing s w with
  | nil => exact h
  | cons call calls ih => exact ih (h.next call w) _

/-! ## Runs on a payload

Recipients may come between the entries, and they do not touch the payload.
So the run is projected on the calls that do, and followed on the writer
alone. -/

/-- The call is one on the payload. -/
def Call.isPayload : Call → Bool
  | .addFile _ _ | .writeData _ => true
  | _ => false

/-- What a call does to a payload. -/
def Call.onWriter (S : Suite) : Call → Writer → Except Error Unit × Writer
  | .addFile name size, w => w.declare S name size
  | .writeData data, w => w.write S data
  | _, w => (.ok (), w)

/-- What calls do to a payload, up to the first that fails. -/
def feed (S : Suite) : List Call → Writer → Except Error Unit × Writer
  | [], w => (.ok (), w)
  | call :: rest, w =>
    match call.onWriter S w with
    | (.ok (), w) => feed S rest w
    | (.error e, w) => (.error e, w)

/-- The calls that declare entries and hand over their data in these pieces. -/
def callsOfEntries (entries : List (FileInfo × List Bytes)) : List Call :=
  entries.flatMap fun e => .addFile e.1.name e.1.size :: e.2.map .writeData

theorem isPayload_of_mem {parts : List (FileInfo × List Bytes)} {call : Call}
    (h : call ∈ callsOfEntries parts) : call.isPayload = true := by
  obtain ⟨e, -, hcall⟩ := List.mem_flatMap.mp h
  rcases List.mem_cons.mp hcall with rfl | hcall
  · rfl
  · obtain ⟨piece, -, rfl⟩ := List.mem_map.mp hcall
    rfl

/-- Only their names are declared. -/
theorem addFile_mem {parts : List (FileInfo × List Bytes)} {name : String} {size : UInt64}
    (h : .addFile name size ∈ callsOfEntries parts) : ∃ e ∈ parts, name = e.1.name := by
  obtain ⟨e, he, hcall⟩ := List.mem_flatMap.mp h
  rcases List.mem_cons.mp hcall with hcall | hcall
  · exact ⟨e, he, (Call.addFile.inj hcall).1⟩
  · obtain ⟨piece, -, hpiece⟩ := List.mem_map.mp hcall
    exact absurd hpiece (by simp)

/-- Only calls on the payload do anything to it. -/
theorem feed_filter (S : Suite) (calls : List Call) (w : Writer) :
    feed S (calls.filter Call.isPayload) w = feed S calls w := by
  induction calls generalizing w with
  | nil => rfl
  | cons call calls ih =>
    cases call with
    | addFile | writeData =>
      rw [List.filter_cons_of_pos rfl, feed, feed]
      simp only [ih]
    | _ =>
      rw [List.filter_cons_of_neg (by simp [Call.isPayload]), ih]
      rfl

/-- Calls are fed one after the other, until one fails. -/
theorem feed_append (S : Suite) (before later : List Call) (w : Writer) :
    feed S (before ++ later) w =
      match feed S before w with
      | (.ok (), w) => feed S later w
      | (.error e, w) => (.error e, w) := by
  induction before generalizing w with
  | nil => rfl
  | cons call before ih =>
    rw [List.cons_append, feed, feed]
    rcases call.onWriter S w with ⟨e | u, w₁⟩
    · rfl
    · exact ih w₁

theorem feed_map_writeData (S : Suite) (pieces : List Bytes) (w : Writer) :
    feed S (pieces.map .writeData) w = w.writeEach S pieces := by
  induction pieces generalizing w with
  | nil => rfl
  | cons piece rest ih =>
    rw [List.map_cons, feed, Writer.writeEach]
    simp only [ih]
    rfl

/-- **The calls of entries record them.** -/
theorem feed_callsOfEntries (S : Suite) (entries : List (FileInfo × List Bytes)) (w : Writer) :
    feed S (callsOfEntries entries) w = w.record S entries := by
  induction entries generalizing w with
  | nil => rfl
  | cons e rest ih =>
    have hcalls : callsOfEntries (e :: rest) =
        .addFile e.1.name e.1.size :: (e.2.map .writeData ++ callsOfEntries rest) := rfl
    have hfirst : Call.onWriter S (.addFile e.1.name e.1.size) w
        = w.declare S e.1.name e.1.size := rfl
    rw [hcalls, feed, Writer.record, hfirst]
    rcases w.declare S e.1.name e.1.size with ⟨f | u, w₁⟩
    · rfl
    · dsimp only
      rw [feed_append, feed_map_writeData]
      rcases w₁.writeEach S e.2 with ⟨f | u, w₂⟩
      · rfl
      · exact ih w₂

/-- No call changes the locksmith. -/
theorem smith_next (call : Call) (s : Sealing σ) (w : World σ) :
    (call.next s w).1.smith = s.smith := by
  cases call with
  | begin =>
    show (s.begin w).2.1.smith = s.smith
    unfold Sealing.begin
    split <;> rfl
  | addRecipient r =>
    show (s.addRecipient r w).2.1.smith = s.smith
    unfold Sealing.addRecipient
    split
    · dsimp only
      split <;> rfl
    · rfl
  | addFile name size =>
    show (s.onPayload _ _).2.smith = s.smith
    unfold Sealing.onPayload
    split <;> rfl
  | writeData data =>
    show (s.onPayload _ _).2.smith = s.smith
    unfold Sealing.onPayload
    split <;> rfl
  | finish => exact smith_finish s

/-- Until it is told to finish, a session does not write. -/
theorem dest_played {calls : List Call} (hlast : .finish ∉ calls) (s : Sealing σ) (w : World σ) :
    (played calls s w).1.dest = s.dest := by
  induction calls generalizing s w with
  | nil => rfl
  | cons call calls ih =>
    have hrest := ih (fun hmem => hlast (List.mem_cons_of_mem _ hmem)) (call.next s w).1
      (call.next s w).2
    obtain hdest | ⟨rfl, -⟩ := dest_next call s w
    · exact hrest.trans hdest
    · exact absurd List.mem_cons_self hlast

/-- A call does to the payload of a session what it does to a payload, and
dooms the session if that fails for a wrong size or for a frame. -/
theorem next_onWriter {call : Call} (hlast : call ≠ .finish) (hstage : s.stage = .accepting draft)
    (w : World σ) :
    match call.onWriter s.smith.suite draft.payload with
    | (.ok (), payload) => ∃ draft', (call.next s w).1.stage = .accepting draft' ∧
        draft'.payload = payload
    | (.error e, payload) => Writer.Fatal e ∨ payload.Spent → (call.next s w).1.Doomed := by
  have hpayload : ∀ (op : Operation) (f : Writer → Except Error Unit × Writer),
      match f draft.payload with
      | (.ok (), payload) => ∃ draft', (s.onPayload op f).2.stage = .accepting draft' ∧
          draft'.payload = payload
      | (.error e, payload) => Writer.Fatal e ∨ payload.Spent → (s.onPayload op f).2.Doomed := by
    intro op f
    have hafter := stage_onPayload hstage op f
    rcases hf : f draft.payload with ⟨e | u, payload⟩
    · rw [hf] at hafter
      intro hdooms
      obtain ⟨cause, hends⟩ | ⟨hlasts, hlasting⟩ := Stage.after_cases { draft with payload }
        (.error e)
      · exact .inl ⟨cause, hafter.trans hends⟩
      · exact .inr ⟨_, hafter.trans hlasts, hdooms.resolve_left (hlasting e rfl)⟩
    · rw [hf] at hafter
      exact ⟨_, hafter, rfl⟩
  cases call with
  | begin =>
    have hturn : s.stage.phase ≠ Call.begin.phase := by simp [hstage, Stage.phase, Call.phase]
    rw [Call.next_of_ne hturn]
    exact ⟨draft, hstage, rfl⟩
  | addRecipient r =>
    show ∃ draft', (s.addRecipient r w).2.1.stage = .accepting draft' ∧ _
    simp only [Sealing.addRecipient, hstage]
    split
    · exact ⟨_, rfl, rfl⟩
    · exact ⟨draft, hstage, rfl⟩
  | addFile name size => exact hpayload .addFile _
  | writeData data => exact hpayload .writeData _
  | finish => exact absurd rfl hlast

/-- **Calls do to the payload of a session what they do to a payload.** -/
theorem played_feed {calls : List Call} (hlast : .finish ∉ calls)
    (hstage : s.stage = .accepting draft) (w : World σ) :
    match feed s.smith.suite calls draft.payload with
    | (.ok (), payload) => ∃ draft', (played calls s w).1.stage = .accepting draft' ∧
        draft'.payload = payload
    | (.error e, payload) => Writer.Fatal e ∨ payload.Spent → (played calls s w).1.Doomed := by
  induction calls generalizing s draft w with
  | nil => exact ⟨draft, hstage, rfl⟩
  | cons call calls ih =>
    have hfirst : call ≠ .finish := fun hc => hlast (hc ▸ List.mem_cons_self)
    have hcall := next_onWriter hfirst hstage w
    rw [feed, played_cons]
    rcases hw : call.onWriter s.smith.suite draft.payload with ⟨e | u, payload⟩
    · rw [hw] at hcall
      exact fun hends => (hcall hends).played calls _
    · rw [hw] at hcall
      obtain ⟨draft', hstage', rfl⟩ := hcall
      have hrest := ih (fun hmem => hlast (List.mem_cons_of_mem _ hmem)) hstage' (call.next s w).2
      rw [smith_next] at hrest
      exact hrest

/-- **A session is finished if its entries are complete** and there are
numbers enough for their frames, and not otherwise. -/
theorem finish_ok_iff {parts : List (FileInfo × List Bytes)} {calls : List Call} {sink : Sink}
    {channel : Channel} (hstage : s.stage = .accepting draft)
    (hfresh : draft.payload = .create sink channel) (hsink : sink.Unbounded)
    (hdest : s.dest.Unbounded) (hcalls : calls.filter Call.isPayload = callsOfEntries parts)
    (hlast : .finish ∉ calls) (hstorable : Storable (joined parts))
    (hnodup : (parts.map fun e => e.1.name).Nodup)
    (hhead : ∀ d, (played calls s w).1.stage = .accepting d →
      d.locks ≠ [] ∧ d.header.toJson.render.length ≤ maxHeaderLength) :
    (played calls s w).1.finish.1 = .ok () ↔
      Item.Complete (joined parts) ∧ (Frame.script (joined parts)).length < UInt64.size := by
  have hlength : (Frame.script (joined parts)).length
      = (Frame.ofEntries (joined parts)).length + 1 := List.length_append
  have hrun := played_feed hlast hstage w
  rw [← feed_filter, hcalls, feed_callsOfEntries, hfresh] at hrun
  have hnew : ∀ e ∈ parts, e.1.name ∉ (Writer.create sink channel).names :=
    fun _ _ => List.not_mem_nil
  have houtcome : Item.Complete (joined parts) → Writer.Outcome s.smith.suite
      (Frame.ofEntries (joined parts)) _ _
      ((Writer.create sink channel).record s.smith.suite parts) :=
    fun hcomplete => Writer.record_outcome (Writer.settled_create hsink channel) hstorable hcomplete
      hnodup hnew
  rcases hrecord : (Writer.create sink channel).record s.smith.suite parts with ⟨e | u, payload⟩
  · rw [hrecord] at hrun houtcome
    have hdoomed := hrun (Writer.record_failed hstorable hnodup hnew hrecord)
    refine iff_of_false hdoomed.finish ?_
    rintro ⟨hcomplete, hroom⟩
    cases houtcome hcomplete with
    | exhausted hspent =>
      have hspent : UInt64.size ≤ 0 + (Frame.ofEntries (joined parts)).length := hspent
      omega
  · rw [hrecord] at hrun houtcome
    obtain ⟨draft', hstage', rfl⟩ := hrun
    obtain ⟨hlocks, hfit⟩ := hhead draft' hstage'
    -- of complete entries it is known how many numbers their frames have taken
    have hcounted : Item.Complete (joined parts) → draft'.payload.Settled ∧
        draft'.payload.counter = (Frame.ofEntries (joined parts)).length := by
      intro hcomplete
      cases houtcome hcomplete with
      | wrote hwrote hsettled _ => exact ⟨hsettled, hwrote.counter.trans (Nat.zero_add _)⟩
    constructor
    · intro hok
      have hfinish : (played calls s w).1.finish = (.ok (), (played calls s w).1.finish.2) :=
        Prod.ext hok rfl
      obtain ⟨d, spool, hd, -, hclose, -⟩ := finish_ok hfinish
      rw [hstage'] at hd
      cases hd
      obtain ⟨-, hcomplete⟩ := Writer.record_complete hrecord (Writer.complete_of_close hclose)
      obtain ⟨hsettled, hcounter⟩ := hcounted hcomplete
      have hclosed := Writer.close_settled (S := (played calls s w).1.smith.suite) hsettled
      rw [hclose] at hclosed
      refine ⟨hcomplete, ?_⟩
      by_contra hroom
      rw [if_neg (by omega)] at hclosed
      exact absurd hclosed (by simp [Except.map])
    · rintro ⟨hcomplete, hroom⟩
      obtain ⟨hsettled, hcounter⟩ := hcounted hcomplete
      have hwaiting : draft'.payload.waiting.val.size = 0 := by
        rw [← Writer.length_held, hsettled.held]
        rfl
      have hready : draft'.payload.Ready 1 :=
        ⟨hsettled.sink, hwaiting, hsettled.complete, by omega⟩
      refine finish_succeeds hstage' hlocks hready ?_ hfit
      rw [dest_played hlast]
      exact hdest

/-! ## Sessions that are prepared

The contract is about what is handed over, so it begins with a session that
has a lock and room for the head. One is made here, to show that there are
such sessions. -/

/-- Calls on the payload leave the head of a draft as it is. -/
theorem header_played {calls : List Call} (hcalls : ∀ call ∈ calls, call.isPayload = true)
    (hstage : s.stage = .accepting draft)
    (hend : (played calls s w).1.stage = .accepting draft') :
    draft'.locks = draft.locks ∧ draft'.header = draft.header := by
  induction calls generalizing s w draft with
  | nil =>
    rw [show (played [] s w).1 = s from rfl, hstage] at hend
    cases hend
    exact ⟨rfl, rfl⟩
  | cons call calls ih =>
    have hpayload : ∀ (op : Operation) (f : Writer → Except Error Unit × Writer),
        (∃ payload, (s.onPayload op f).2.stage = .accepting { draft with payload }) ∨
          ∃ cause, (s.onPayload op f).2.stage = .failed cause := by
      intro op f
      rw [stage_onPayload hstage]
      obtain hends | ⟨hlasts, -⟩ := Stage.after_cases
        { draft with payload := (f draft.payload).2 } (f draft.payload).1
      · exact .inr hends
      · exact .inl ⟨_, hlasts⟩
    have hcall : (∃ payload, (call.next s w).1.stage = .accepting { draft with payload }) ∨
        ∃ cause, (call.next s w).1.stage = .failed cause := by
      cases call with
      | addFile name size => exact hpayload .addFile _
      | writeData data => exact hpayload .writeData _
      | _ => exact absurd (hcalls _ List.mem_cons_self) (by simp [Call.isPayload])
    rw [played_cons] at hend
    obtain ⟨payload, hnext⟩ | ⟨cause, hfailed⟩ := hcall
    · -- the locks and the nonce of a draft are no matter of its payload
      have hrest := ih (fun c hc => hcalls c (List.mem_cons_of_mem _ hc)) hnext hend
      exact hrest
    · rw [(over_of_failed hfailed).played, hfailed] at hend
      exact absurd hend (by simp)

/-- The calls that begin a session and make a lock for a symmetric key. -/
def prepared : List Call := [.begin, .addRecipient (.symmetricKey "key" (some [1]))]

/-- A session of the plain suite can be prepared so, and a head with its lock
can be written. -/
theorem exists_prepared (world : World Unit) : ∃ (start : Sealing Unit) (draft : Draft)
    (channel : Channel) (w : World Unit),
    create (.plain [1]) containerVersion .unlimited .unlimited = .ok start ∧
    played prepared start world = ({ start with stage := .accepting draft }, w) ∧
    draft.payload = .create .unlimited channel ∧ draft.locks ≠ [] ∧
    draft.header.toJson.render.length ≤ maxHeaderLength := by
  let start : Sealing Unit := ⟨.plain [1], containerVersion,
    ⟨(Locksmith.plain [1]).config.compress⟩, .unlimited, .unlimited, .created⟩
  obtain ⟨fmk, nonce, channel, w₁, hbegin⟩ : ∃ fmk nonce channel w₁, start.begin world
      = (.ok (), { start with stage := .accepting ⟨fmk, nonce, .create .unlimited channel, []⟩ },
        w₁) := ⟨_, _, _, _, rfl⟩
  have hinline : (Locksmith.plain [1]).inlineOr ⟨0, .symmetricKey, "key"⟩ (some [1]) w₁
      = (.ok [1], w₁) := rfl
  obtain ⟨key, lockNonce, salt, w₂, hwrap⟩ :=
    (Locksmith.plain [1]).wrap_symmetricKey hinline (by simp) fmk
  have hsmith : start.smith = .plain [1] := rfl
  obtain ⟨lock, hlock⟩ : ∃ lock : Lock, lock = ⟨0, "key", lockNonce,
    (Locksmith.plain [1]).suite.encrypt key lockNonce (Lock.context .symmetricKey "key")
      fmk.key.val, .symmetricKey salt⟩ := ⟨_, rfl⟩
  rw [← hlock] at hwrap
  refine ⟨start, ⟨fmk, nonce, .create .unlimited channel, [lock]⟩, channel, w₂, if_pos rfl, ?_, rfl,
    by simp, ?_⟩
  · have hnext : Call.begin.next start world
        = ({ start with stage := .accepting ⟨fmk, nonce, .create .unlimited channel, []⟩ }, w₁) :=
      congrArg Prod.snd hbegin
    have hadd : ({ start with stage := .accepting ⟨fmk, nonce, .create .unlimited channel, []⟩ } :
        Sealing Unit).addRecipient (.symmetricKey "key" (some [1])) w₁
        = (.ok 0, { start with
            stage := .accepting ⟨fmk, nonce, .create .unlimited channel, [lock]⟩ }, w₂) := by
      simp only [addRecipient, List.length_nil, hsmith, hwrap, List.nil_append]
    rw [prepared, played_cons, hnext]
    exact congrArg Prod.snd hadd
  · have hlabel : lock.label = "key" := by rw [hlock]
    have hwrapped : lock.wrapped.length = 32 + Aead.tagLength := by
      have htag := Suite.plain_fitsFrames.tag key lockNonce (Lock.context .symmetricKey "key")
        fmk.key.val
      rw [fmk.key.property] at htag
      rw [hlock]
      exact htag
    exact Header.fits nonce (by simp) (List.forall_mem_singleton.mpr
      (Lock.length_render_symmetricKey_le (by rw [hlabel]; decide) hwrapped (by rw [hlock])))

end Sealing

open Sealing in
/-- **The size contract.** A session begins, entries with new names are
declared and data handed over in any pieces, locks are made in between, and
the session is told to finish; the sinks take everything. Up to the first
failure for a wrong size, a call fails so just if the last entry that was
accepted has less data than declared, when the next is declared or the session
told to finish, or would have more with the data of the call; and the failure
tells its name, its size and that count. The session is finished just if every
entry was handed as many bytes as were declared, whether the calls succeeded
or not, and there are numbers for all frames; of these there are enough, unless
there are very many entries. -/
theorem size_contract {σ : Type} {smith : Locksmith σ} {version : UInt8} {spool dest : Sink}
    {start : Sealing σ} (hcreate : create smith version spool dest = .ok start)
    (hspool : spool.Unbounded) (hdest : dest.Unbounded) (world : World σ) {calls : List Call}
    {entries : List (FileInfo × List Bytes)}
    (hcalls : calls.filter Call.isPayload = callsOfEntries entries) (hlast : .finish ∉ calls)
    (hstorable : Storable (joined entries)) (hnodup : (entries.map fun e => e.1.name).Nodup)
    (hbytes : (entries.flatMap fun e => e.2.flatten).length < UInt64.size)
    (hhead : ∀ draft, (played (.begin :: calls) start world).1.stage = .accepting draft →
      draft.locks ≠ [] ∧ draft.header.toJson.render.length ≤ maxHeaderLength) :
    (∀ before call later, .begin :: calls ++ [.finish] = before ++ call :: later →
      Matched before start world →
      ∀ m, call.answer (played before start world).1 (played before start world).2
          = .error (.sizeMismatch m) ↔
        call.mismatch? (run before start world).1.entries = some m) ∧
    (Call.finish.answer (played (.begin :: calls) start world).1
        (played (.begin :: calls) start world).2 = .ok () ↔
      (∀ e ∈ entries, e.2.flatten.length = e.1.size.toNat) ∧
        (Frame.script (joined entries)).length < UInt64.size) ∧
    (entries.length ≤ UInt64.size / 4 → (Frame.script (joined entries)).length < UInt64.size) := by
  have hstart := create_ok hcreate
  have hlast' : .finish ∉ .begin :: calls := by simpa using hlast
  have hcomplete : Item.Complete (joined entries) ↔
      ∀ e ∈ entries, e.2.flatten.length = e.1.size.toNat := by
    constructor
    · exact fun h e he => h _ (List.mem_map_of_mem he)
    · intro h e he
      obtain ⟨g, hg, rfl⟩ := List.mem_map.mp he
      exact h g hg
  refine ⟨fun before call later hsplit hmatched m => ?_, ?_, fun hfew => ?_⟩
  · have hbegin : Tracks Ledger.empty start :=
      ⟨by rw [hstart]; exact hspool, .inl ⟨by rw [hstart], rfl⟩⟩
    refine hbegin.answers hlast' (fun name size hmem => ?_) (fun d hd => (hhead d hd).1) hsplit
      hmatched m
    -- the entry is one of those whose names can be stored
    have hmem : .addFile name size ∈ calls.filter Call.isPayload :=
      List.mem_filter.mpr ⟨by simpa using hmem, rfl⟩
    rw [hcalls] at hmem
    obtain ⟨e, he, rfl⟩ := addFile_mem hmem
    exact hstorable _ (List.mem_map_of_mem he)
  · rw [← hcomplete]
    have hbegun : ∃ channel draft, (Call.begin.next start world).1.stage = .accepting draft ∧
        draft.payload = .create spool channel ∧ (Call.begin.next start world).1.dest = dest := by
      rw [hstart]
      exact ⟨_, _, rfl, rfl, rfl⟩
    obtain ⟨channel, draft, hstage, hfresh, hsame⟩ := hbegun
    have hbegin := played_cons .begin calls start world
    rw [hbegin] at hhead ⊢
    exact finish_ok_iff hstage hfresh hspool (by rw [hsame]; exact hdest) hcalls hlast hstorable
      hnodup hhead
  · exact Frame.length_script_lt hfew hbytes

open Sealing in
/-- An entry of one byte, handed over behind an empty piece; and an entry of
one byte that is handed two. -/
theorem oneByte_size_contract : ∃ start : Sealing Unit,
    create (.plain [1]) containerVersion .unlimited .unlimited = .ok start ∧
    (let world : World Unit := ⟨.splitMix 1, ()⟩
    let begun := prepared ++ [.addFile "one" 1]
    let within := played (begun ++ [.writeData [], .writeData [7]]) start world
    let beyond := played (begun ++ [.writeData [7, 8]]) start world
    Call.finish.answer within.1 within.2 = .ok () ∧
    (Call.writeData [7, 8]).answer (played begun start world).1 (played begun start world).2
      = .error (.sizeMismatch ⟨"one", 1, 2⟩) ∧
    Call.finish.answer beyond.1 beyond.2 ≠ .ok ()) := by
  obtain ⟨start, draft, channel, w, hcreate, hprepared, hpayload, hlocks, hfit⟩ :=
    exists_prepared ⟨.splitMix 1, ()⟩
  refine ⟨start, hcreate, ?_⟩
  intro world begun within beyond
  let calls : List Bytes → List Call := fun pieces =>
    .addRecipient (.symmetricKey "key" (some [1])) :: callsOfEntries [(⟨"one", 1⟩, pieces)]
  have hstored : EntryName.ofText "one" = .ok ⟨"one", by decide⟩ :=
    EntryName.ofText_eq_ok_iff.mpr rfl
  have hstorable : ∀ pieces : List Bytes, Storable (joined [(⟨"one", 1⟩, pieces)]) := by
    intro pieces e he
    obtain rfl := List.mem_singleton.mp he
    exact ⟨_, hstored⟩
  have hlast : ∀ pieces, .finish ∉ calls pieces := by
    intro pieces hmem
    rcases List.mem_cons.mp hmem with hmem | hmem
    · exact absurd hmem (by simp)
    · exact absurd (isPayload_of_mem hmem) (by simp [Call.isPayload])
  have hhead : ∀ pieces d, (played (.begin :: calls pieces) start world).1.stage = .accepting d →
      d.locks ≠ [] ∧ d.header.toJson.render.length ≤ maxHeaderLength := by
    intro pieces d hd
    have hsplit : played (.begin :: calls pieces) start world = _ :=
      played_append prepared (callsOfEntries [(⟨"one", 1⟩, pieces)]) start world
    rw [hsplit, hprepared] at hd
    obtain ⟨hsame, hheader⟩ := header_played (fun _ => isPayload_of_mem) rfl hd
    rw [hsame, hheader]
    exact ⟨hlocks, hfit⟩
  have hwithin : (calls [[], [7]]).filter Call.isPayload
      = callsOfEntries [(⟨"one", 1⟩, [[], [7]])] := rfl
  have hbeyond : (calls [[7, 8]]).filter Call.isPayload
      = callsOfEntries [(⟨"one", 1⟩, [[7, 8]])] := rfl
  have hsink := Sink.unbounded_unlimited
  obtain ⟨-, hin, hroom⟩ := size_contract hcreate hsink hsink world hwithin (hlast _) (hstorable _)
    (by simp) (by decide) (hhead _)
  obtain ⟨hcalls, hout, -⟩ := size_contract hcreate hsink hsink world hbeyond (hlast _)
    (hstorable _) (by simp) (by decide) (hhead _)
  -- up to the data no size is wrong, and the ledger has an entry without any
  have hnothing : Matched [] start world := fun before call later h => absurd h (by simp)
  have hbegin : Matched [.begin] start world := by
    refine hnothing.concat fun m hm => ?_
    have hmismatch := (hcalls [] .begin _ rfl hnothing m).mp hm
    exact absurd hmismatch (by simp [Call.mismatch?])
  have hlock : Matched prepared start world := by
    refine hbegin.concat fun m hm => ?_
    have hmismatch := (hcalls [.begin] (.addRecipient _) _ rfl hbegin m).mp hm
    exact absurd hmismatch (by simp [Call.mismatch?])
  have hnone : (run prepared start world).1.entries = [] := by
    show (Ledger.enroll _ _ _ _).entries = []
    unfold Ledger.enroll
    split <;> rfl
  have hfile : Matched begun start world := by
    refine hlock.concat fun m hm => ?_
    have hmismatch := (hcalls prepared (.addFile "one" 1) _ rfl hlock m).mp hm
    rw [hnone] at hmismatch
    exact absurd hmismatch (by simp [Call.mismatch?, shortfall?])
  have hready : draft.payload.Ready (0 + (1 + (1 : UInt64).toNat)) := by
    rw [hpayload]
    exact ⟨hsink, rfl, rfl, show 0 + (0 + (1 + 1)) < UInt64.size by decide⟩
  obtain ⟨payload, hdeclare, -⟩ := hready.declare (S := start.smith.suite) hstored
    (by rw [hpayload]; simp [Writer.create])
  have hadd : ((run prepared start world).2.1.addFile "one" 1).1 = .ok () := by
    rw [run_snd, hprepared]
    simp only [addFile, onPayload, hdeclare]
  have hledger : (run begun start world).1.entries = [(⟨"one", 1⟩, [])] := by
    show ((run prepared start world).1.update (· ++ [(⟨"one", 1⟩, [])])
      ((run prepared start world).2.1.addFile "one" 1).1).entries = _
    rw [hadd]
    show (run prepared start world).1.entries ++ _ = _
    rw [hnone]
    rfl
  refine ⟨hin.mpr ⟨?_, hroom (by decide)⟩, ?_, ?_⟩
  · intro e he
    obtain rfl := List.mem_singleton.mp he
    rfl
  · refine (hcalls begun (.writeData [7, 8]) [.finish] rfl hfile ⟨"one", 1, 2⟩).mpr ?_
    rw [hledger]
    rfl
  · intro hok
    have hsize := (hout.mp hok).1 _ List.mem_cons_self
    exact absurd hsize (by decide)

end Lockbox
