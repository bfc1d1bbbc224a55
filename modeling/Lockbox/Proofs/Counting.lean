import Lockbox.Proofs.Ending
import Lockbox.Proofs.Pieces
/-!
# Lockbox — what a session has counted

An entry is declared with a size, and its data are counted against it. What
counts is told by the ledger: the last entry of what was accepted, and how
much of its data (`Call.mismatch?`). The writer counts the same, whatever it
has buffered and written of them (`Writer.Follows`): a call that fails leaves
the count as it was, and one that succeeds counts what it was given. So up to
the first failure for a wrong size, the calls that fail so are those that the
ledger says (`Tracks.answer`).
-/

namespace Lockbox

open Payload

/-! ## What is missing and what is too much

Both are told by the entries that were accepted, without a look at the
writer. -/

/-- The last entry has less data than declared. -/
def shortfall? (entries : List (FileInfo × Bytes)) : Option Mismatch :=
  match entries.getLast? with
  | some e =>
    if e.2.length < e.1.size.toNat then some ⟨e.1.name, e.1.size.toNat, e.2.length⟩ else none
  | none => none

/-- So many more bytes would be more for the last entry than declared. -/
def excess? (entries : List (FileInfo × Bytes)) (more : Nat) : Option Mismatch :=
  match entries.getLast? with
  | some e =>
    if e.1.size.toNat < e.2.length + more then
      some ⟨e.1.name, e.1.size.toNat, e.2.length + more⟩
    else none
  | none => none

namespace Payload.Writer

variable {S : Suite} {w w' : Writer} {entries : List (FileInfo × Bytes)} {e : Error}

/-! ## The entry that is written stays the same

Frames are written for the entry, and not by it: to emit one, to flush and
to fill do not touch the count, so a call counts once, at its end. -/

theorem current_emit (frame : Frame) (w : Writer) : (w.emit S frame).2.current = w.current := by
  unfold emit
  dsimp only
  split
  · rfl
  · split <;> rfl

theorem current_flush (w : Writer) : (w.flush S).2.current = w.current := by
  unfold flush
  split
  · exact current_emit _ _
  · rfl

/-- The entry and its count are no matter of frames: they are kept by the
operations that write frames. -/
theorem current_fill (input : Bytes) (w : Writer) : (w.fill S input).2.current = w.current := by
  fun_induction fill S input w with
  | case1 => rfl
  | case2 input w hlt hfit room full hfull hpos w₁ hemit ih =>
    have hcurrent := current_emit (S := S) (.data ⟨full, by omega, by omega⟩)
      { w with waiting := .none }
    rw [hemit] at hcurrent
    exact ih.trans hcurrent
  | case3 input w hlt hfit room full hfull hpos e₁ w₁ hemit =>
    have hcurrent := current_emit (S := S) (.data ⟨full, by omega, by omega⟩)
      { w with waiting := .none }
    rwa [hemit] at hcurrent

/-- A declaration that fails begins no entry. -/
theorem current_declare_error {name : String} {size : UInt64}
    (h : w.declare S name size = (.error e, w')) : w'.current = w.current := by
  obtain ⟨rfl, -⟩ | ⟨stored, hemit⟩ := declare_error_cases h
  · rfl
  · have hcurrent := current_emit (S := S) (.file stored size) w
    rwa [hemit] at hcurrent

/-- Data that could not be handed over are not counted. -/
theorem current_write_error {data : Bytes} (h : w.write S data = (.error e, w')) :
    w'.current = w.current := by
  have hfilled := current_fill (S := S) data w
  obtain ⟨rfl, -⟩ | hfill | ⟨w₁, hfill, hflush⟩ := write_error_cases h
  · rfl
  · rwa [hfill] at hfilled
  · have hflushed := current_flush (S := S) w₁
    rw [hfill] at hfilled
    rw [hflush] at hflushed
    exact hflushed.trans hfilled

/-! ## A sink that takes everything does not fail -/

/-- A sink that takes everything fails no declaration. -/
theorem declare_ne_io (h : w.sink.Unbounded) (name : String) (size : UInt64) (fault : IoError) :
    (w.declare S name size).1 ≠ .error (.io fault) := by
  intro hio
  obtain ⟨-, ⟨f, -, hname⟩ | ⟨m, -, hsize⟩ | ⟨-, htwice⟩⟩ | ⟨stored, hemit⟩ :=
    declare_error_cases (Prod.ext hio rfl)
  · exact absurd hname (by simp)
  · exact absurd hsize (by simp)
  · exact absurd htwice (by simp)
  · exact absurd (emit_exhausted h hemit).1 (by simp)

theorem write_ne_io (h : w.sink.Unbounded) (data : Bytes) (fault : IoError) :
    (w.write S data).1 ≠ .error (.io fault) := by
  intro hio
  have hfails : w.write S data = (.error (.io fault), (w.write S data).2) := Prod.ext hio rfl
  cases hf : w.current with
  | none => simp only [write, hf] at hio; exact absurd hio (by simp)
  | some f =>
    by_cases hfits : f.written + data.length ≤ f.declared.toNat
    · exact absurd (write_exhausted h hf hfits hfails).1 (by simp)
    · simp only [write, hf, if_pos (Nat.not_le.mp hfits)] at hio
      exact absurd hio (by simp)

/-! ## Counting

The ledger and the writer are two books of the same entries. The ledger has
the data, the writer only their number. -/

/-- The writer counts what these entries have: it writes the last of them,
which has as much data as were counted and no more than declared. -/
structure Follows (w : Writer) (entries : List (FileInfo × Bytes)) : Prop where
  current : w.current = entries.getLast?.map fun e => ⟨e.1.name, e.1.size, e.2.length⟩
  fits : ∀ e, entries.getLast? = some e → e.2.length ≤ e.1.size.toNat

theorem Follows.of_current (h : w.Follows entries) (hw : w'.current = w.current) :
    w'.Follows entries := ⟨hw.trans h.current, h.fits⟩

/-- A declaration that succeeds begins an entry in both. -/
theorem Follows.declare {name : String} {size : UInt64}
    (h : w.declare S name size = (.ok (), w')) : w'.Follows (entries ++ [(⟨name, size⟩, [])]) := by
  obtain ⟨-, -, -, -, -, -, hcurrent, -⟩ := declare_ok h
  constructor
  · rw [hcurrent, List.getLast?_concat]
    rfl
  · intro e he
    rw [List.getLast?_concat] at he
    cases he
    exact Nat.zero_le _

/-- Bytes that are handed over are counted in both. -/
theorem Follows.write {data : Bytes} (hw : w.Follows entries)
    (h : w.write S data = (.ok (), w')) : w'.Follows (handOver data entries) := by
  obtain ⟨f, -, hf, hfits, -, -, hcurrent, -⟩ := write_ok h
  obtain rfl | ⟨before, e, rfl⟩ := List.eq_nil_or_concat entries
  · rw [hw.current] at hf
    exact absurd hf (by simp)
  · rw [hw.current, List.concat_eq_append, List.getLast?_concat] at hf
    cases hf
    rw [List.concat_eq_append, handOver_concat]
    constructor
    · rw [hcurrent, List.getLast?_concat, Option.map_some, List.length_append]
    · intro g hg
      rw [List.getLast?_concat] at hg
      cases hg
      rw [List.length_append]
      exact hfits

/-- **The last entry is complete just if nothing of it is missing.** -/
theorem Follows.checkComplete (h : w.Follows entries) : w.checkComplete =
    match shortfall? entries with
    | some m => .error (.sizeMismatch m)
    | none => .ok () := by
  unfold Writer.checkComplete shortfall?
  rw [h.current]
  cases hlast : entries.getLast? with
  | none => rfl
  | some e =>
    have hfits := h.fits e hlast
    by_cases hshort : e.2.length < e.1.size.toNat
    · have hne : e.2.length ≠ e.1.size.toNat := Nat.ne_of_lt hshort
      simp only [Option.map_some, if_pos hshort, if_neg hne]
    · have heq : e.2.length = e.1.size.toNat := by omega
      simp only [Option.map_some, if_neg hshort, if_pos heq]

/-- An entry whose name can be stored is refused for a wrong size just if
something of the one before is missing. -/
theorem Follows.declare_mismatch_iff (h : w.Follows entries) {name : String} {size : UInt64}
    {m : Mismatch} (hstored : ∃ stored, EntryName.ofText name = .ok stored) :
    (w.declare S name size).1 = .error (.sizeMismatch m) ↔ shortfall? entries = some m := by
  obtain ⟨stored, hstored⟩ := hstored
  unfold Writer.declare
  rw [hstored, h.checkComplete]
  cases hshort : shortfall? entries with
  | some m' => simp
  | none =>
    simp only [reduceCtorEq, iff_false]
    split
    · simp
    · split
      · rename_i hemit
        intro hm
        cases hm
        exact (emit_error hemit).fromFrames
      · simp

/-- Data are refused for a wrong size just if they would be too many. -/
theorem Follows.write_mismatch_iff (h : w.Follows entries) {data : Bytes} {m : Mismatch} :
    (w.write S data).1 = .error (.sizeMismatch m) ↔ excess? entries data.length = some m := by
  unfold Writer.write excess?
  rw [h.current]
  cases hlast : entries.getLast? with
  | none => simp
  | some e =>
    simp only [Option.map_some]
    split
    · simp
    · simp only [reduceCtorEq, iff_false]
      split
      · rename_i hfill
        intro hm
        cases hm
        exact (fill_error hfill).fromFrames
      · split
        · rename_i hflush
          intro hm
          cases hm
          split at hflush
          · exact (flush_error hflush).fromFrames
          · exact absurd (Prod.mk.inj hflush).1 (by simp)
        · simp

end Payload.Writer

namespace Sealing

variable {σ : Type} {s s' : Sealing σ} {w w' : World σ} {l : Ledger} {draft : Draft} {e : Error}

/-! ## What the calls answer

A session answers for its payload. The calls are taken up to the first that
fails for a wrong size, since that one ends the session. -/

/-- The wrong size that a call is to report, after what was accepted. -/
def Call.mismatch? (entries : List (FileInfo × Bytes)) : Call → Option Mismatch
  | .begin | .addRecipient _ => none
  | .addFile _ _ | .finish => shortfall? entries
  | .writeData data => excess? entries data.length

/-- A session that has not ended, and whose payload counts what the ledger
has, into a spool that takes everything. -/
structure Tracks (l : Ledger) (s : Sealing σ) : Prop where
  spool : s.spool.Unbounded
  stage : s.stage = .created ∧ l.entries = [] ∨
    ∃ draft, s.stage = .accepting draft ∧ draft.payload.sink.Unbounded ∧
      draft.payload.Follows l.entries

/-- A session that goes on accepting keeps track if its payload does. -/
theorem Tracks.goOn {l' : Ledger} (h : Tracks l s) (hsink : draft.payload.sink.Unbounded)
    (hfollows : draft.payload.Follows l'.entries) :
    Tracks l' { s with stage := .accepting draft } :=
  ⟨h.spool, .inr ⟨draft, rfl, hsink, hfollows⟩⟩

/-- A call on the payload that counts what it hands over, and that fails
neither for a wrong size nor for its sink. -/
theorem Tracks.onPayload (h : Tracks l s) {op : Operation}
    {f : Writer → Except Error Unit × Writer}
    {g : List (FileInfo × Bytes) → List (FileInfo × Bytes)}
    (hok : ∀ {w w'}, f w = (.ok (), w') → w.Follows l.entries → w'.Follows (g l.entries))
    (herror : ∀ {w w' e}, f w = (.error e, w') → w'.current = w.current)
    (hsink : ∀ {w}, w.sink.Unbounded → (f w).2.sink.Unbounded)
    (hio : ∀ {w}, w.sink.Unbounded → ∀ fault, (f w).1 ≠ .error (.io fault))
    (hsize : ∀ m, (s.onPayload op f).1 ≠ .error (.sizeMismatch m)) :
    Tracks (l.update g (s.onPayload op f).1) (s.onPayload op f).2 := by
  obtain ⟨hcreated, hnone⟩ | ⟨draft, hstage, hunbounded, hfollows⟩ := h.stage
  · have hturn : s.stage.phase ≠ .accepting := by simp [hcreated, Stage.phase]
    rw [onPayload_of_ne hturn]
    exact h
  · have hunbounded' := hsink hunbounded
    have hnoio := hio hunbounded
    simp only [Sealing.onPayload, hstage] at hsize ⊢
    rcases hf : f draft.payload with ⟨result, payload⟩
    rw [hf] at hunbounded' hnoio hsize
    cases result with
    | ok u => exact h.goOn hunbounded' (hok hf hfollows)
    | error e =>
      have hafter : Stage.after { draft with payload } (.error e)
          = .accepting { draft with payload } := by
        cases e with
        | sizeMismatch m => exact absurd rfl (hsize m)
        | io fault => exact absurd rfl (hnoio fault)
        | _ => rfl
      show Tracks l { s with stage := Stage.after { draft with payload } (.error e) }
      rw [hafter]
      exact h.goOn hunbounded' (hfollows.of_current (herror hf))

/-- **A call that is not the last goes on counting,** unless it fails for a
wrong size. -/
theorem Tracks.apply (h : Tracks l s) {call : Call} (hlast : call ≠ .finish)
    (hsize : ∀ m, call.answer s w ≠ .error (.sizeMismatch m)) :
    Tracks (call.apply (l, s, w)).1 (call.apply (l, s, w)).2.1 := by
  cases call with
  | begin =>
    show Tracks l (s.begin w).2.1
    unfold Sealing.begin
    split
    · rename_i hstage
      obtain ⟨-, hnone⟩ | ⟨draft, haccepting, -⟩ := h.stage
      · refine h.goOn h.spool ⟨?_, ?_⟩
        · rw [hnone]
          rfl
        · rw [hnone]
          intro e he
          exact absurd he (by simp)
      · rw [hstage] at haccepting
        exact absurd haccepting (by simp)
    · exact h
  | addRecipient r =>
    -- one lock more or not, the payload is the same
    show Tracks (l.enroll r (s.asked r w) (s.addRecipient r w).1) (s.addRecipient r w).2.1
    obtain hcreated | ⟨draft, hstage, hsink, hfollows⟩ := h.stage
    · have hturn : s.stage.phase ≠ .accepting := by simp [hcreated.1, Stage.phase]
      rw [addRecipient_of_ne hturn]
      exact h
    · simp only [Sealing.addRecipient, hstage]
      split
      · exact ⟨h.spool, .inr ⟨_, rfl, hsink, hfollows⟩⟩
      · exact ⟨h.spool, .inr ⟨draft, hstage, hsink, hfollows⟩⟩
  | addFile name size =>
    exact h.onPayload (g := (· ++ [(⟨name, size⟩, [])])) (fun hw _ => Writer.Follows.declare hw)
      Writer.current_declare_error
      (fun hsink => Writer.unbounded_declare hsink name size)
      (fun hsink => Writer.declare_ne_io hsink name size) hsize
  | writeData data =>
    exact h.onPayload (fun hw hfollows => hfollows.write hw) Writer.current_write_error
      (fun hsink => Writer.unbounded_write hsink data)
      (fun hsink => Writer.write_ne_io hsink data) hsize
  | finish => exact absurd rfl hlast

/-- **The calls that fail for a wrong size are those that the ledger says,**
and they report what it says. -/
theorem Tracks.answer (h : Tracks l s) {call : Call} {m : Mismatch}
    (hname : ∀ name size, call = .addFile name size → ∃ stored, EntryName.ofText name = .ok stored)
    (hlocks : call = .finish → ∀ draft, s.stage = .accepting draft → draft.locks ≠ []) :
    call.answer s w = .error (.sizeMismatch m) ↔ call.mismatch? l.entries = some m := by
  obtain ⟨hcreated, hnone⟩ | ⟨draft, hstage, -, hfollows⟩ := h.stage
  · -- before it began, a session refuses everything for its phase
    have hmismatch : call.mismatch? l.entries = none := by
      rw [hnone]
      cases call <;> rfl
    have hanswer : call.answer s w = .ok () ∨
        ∃ op phase, call.answer s w = .error (.state op phase) := by
      cases call with
      | begin =>
        refine .inl ?_
        show (s.begin w).1 = .ok ()
        simp only [Sealing.begin, hcreated]
      | _ =>
        refine .inr ⟨_, _, Call.answer_of_ne ?_ (fun _ m hm => ?_) w⟩
        · simp [hcreated, Stage.phase, Call.phase]
        · rw [hcreated] at hm
          exact absurd hm (by simp)
    rw [hmismatch]
    obtain hok | ⟨op, phase, hrefused⟩ := hanswer
    · simp [hok]
    · simp [hrefused]
  · cases call with
    | begin =>
      have hturn : s.stage.phase ≠ Call.begin.phase := by simp [hstage, Stage.phase, Call.phase]
      rw [Call.answer_of_ne hturn (fun hc => absurd hc (by simp))]
      simp [refuse, Call.mismatch?]
    | addRecipient r =>
      simp only [Call.mismatch?, reduceCtorEq, iff_false]
      show (s.addRecipient r w).1.map _ ≠ _
      simp only [Sealing.addRecipient, hstage]
      split
      · simp [Except.map]
      · rename_i hwrap
        intro hm
        cases hm
        exact s.smith.lasting_wrap _ r _ _ _ _ hwrap trivial
    | addFile name size =>
      show (s.onPayload _ _).1 = _ ↔ _
      simp only [Sealing.onPayload, hstage]
      exact hfollows.declare_mismatch_iff (hname name size rfl)
    | writeData data =>
      show (s.onPayload _ _).1 = _ ↔ _
      simp only [Sealing.onPayload, hstage]
      exact hfollows.write_mismatch_iff
    | finish =>
      show s.finish.1 = _ ↔ shortfall? l.entries = some m
      have hcheck := hfollows.checkComplete
      simp only [Sealing.finish, hstage, if_neg (hlocks rfl draft hstage)]
      cases hshort : shortfall? l.entries with
      | some m' =>
        rw [hshort] at hcheck
        rw [hcheck]
        simp
      | none =>
        rw [hshort] at hcheck
        rw [hcheck]
        simp only [reduceCtorEq, iff_false]
        split
        · rename_i hclose
          intro hm
          cases hm
          exact Writer.close_error_kind (Writer.checkComplete_ok_iff.mp hcheck) hclose
        · split
          · rename_i hdeliver
            intro hm
            cases hm
            exact absurd (deliver_error hdeliver).1 (by simp [Error.mismatch?])
          · simp

/-- None of the calls fails for a wrong size. -/
def Matched (calls : List Call) (s : Sealing σ) (w : World σ) : Prop :=
  ∀ before call later, calls = before ++ call :: later → ∀ m,
    call.answer (played before s w).1 (played before s w).2 ≠ .error (.sizeMismatch m)

/-- **A run goes on counting,** until a call fails for a wrong size. -/
theorem Tracks.run {calls : List Call} (h : Tracks l s) (hlast : .finish ∉ calls)
    (hsize : Matched calls s w) : Tracks (runFrom l calls s w).1 (runFrom l calls s w).2.1 := by
  induction calls generalizing l s w with
  | nil => exact h
  | cons call calls ih =>
    have hfirst : call ≠ .finish := fun hc => hlast (hc ▸ List.mem_cons_self)
    have hnext := h.apply (w := w) hfirst (hsize [] call calls rfl)
    rw [runFrom_cons]
    refine ih hnext (fun hmem => hlast (List.mem_cons_of_mem _ hmem)) ?_
    intro before call' later heq m
    rw [Call.apply_snd]
    exact hsize (call :: before) call' later (by rw [heq]; rfl) m

/-- Calls with a last one divide before that, or there. -/
theorem before_or_last {calls before later : List Call} {call last : Call}
    (h : calls ++ [last] = before ++ call :: later) :
    (∃ between, calls = before ++ call :: between) ∨ call = last ∧ before = calls := by
  obtain rfl | ⟨between, last', rfl⟩ := List.eq_nil_or_concat later
  · obtain ⟨hbefore, hcall⟩ := List.append_inj' h rfl
    exact .inr ⟨(List.cons.inj hcall).1.symm, hbefore.symm⟩
  · rw [List.concat_eq_append, ← List.cons_append, ← List.append_assoc] at h
    exact .inl ⟨between, (List.append_inj' h rfl).1⟩

/-- **Of a run and a last call to finish, those that fail for a wrong size are
those that the ledger says,** up to the first. -/
theorem Tracks.answers {calls : List Call} (h : Tracks .empty s) (hlast : .finish ∉ calls)
    (hnames : ∀ name size, .addFile name size ∈ calls →
      ∃ stored, EntryName.ofText name = .ok stored)
    (hlocks : ∀ draft, (played calls s w).1.stage = .accepting draft → draft.locks ≠ [])
    {before later : List Call} {call : Call} (hsplit : calls ++ [.finish] = before ++ call :: later)
    (hmatched : Matched before s w) (m : Mismatch) :
    call.answer (played before s w).1 (played before s w).2 = .error (.sizeMismatch m) ↔
      call.mismatch? (Sealing.run before s w).1.entries = some m := by
  have hplace : (call ∈ calls ∧ .finish ∉ before) ∨ call = .finish ∧ before = calls := by
    obtain ⟨between, hbetween⟩ | hend := before_or_last hsplit
    · rw [hbetween] at hlast ⊢
      exact .inl ⟨List.mem_append_right _ List.mem_cons_self,
        fun hmem => hlast (List.mem_append_left _ hmem)⟩
    · exact .inr hend
  have hbefore : .finish ∉ before := by
    obtain ⟨-, hbefore⟩ | ⟨-, rfl⟩ := hplace
    · exact hbefore
    · exact hlast
  have htracks := h.run (w := w) hbefore hmatched
  have hstate : (runFrom .empty before s w).2 = played before s w := run_snd before s w
  rw [hstate] at htracks
  refine htracks.answer (fun name size hcall => ?_) (fun hcall draft hstage => ?_)
  · obtain ⟨hmem, -⟩ | ⟨hfinish, -⟩ := hplace
    · exact hnames name size (hcall ▸ hmem)
    · exact absurd (hcall.symm.trans hfinish) (by simp)
  · obtain ⟨hmem, -⟩ | ⟨-, rfl⟩ := hplace
    · exact absurd (hcall ▸ hmem) hlast
    · exact hlocks draft hstage

/-- One more call, which does not fail for a wrong size. -/
theorem Matched.concat {calls : List Call} {call : Call} (h : Matched calls s w)
    (hcall : ∀ m, call.answer (played calls s w).1 (played calls s w).2
      ≠ .error (.sizeMismatch m)) : Matched (calls ++ [call]) s w := by
  intro before c later hsplit
  obtain ⟨between, hbetween⟩ | ⟨rfl, rfl⟩ := before_or_last hsplit
  · exact h before c between hbetween
  · exact hcall

end Sealing

end Lockbox
