import Lockbox.Proofs.Counting
import Lockbox.Proofs.Opened
/-!
# Lockbox — a payload whose sink failed

The sink of a payload may fail and take bytes again. A session ends there,
but a writer by itself keeps no mark of it, and the next call goes on behind
whatever the sink took. So it is the failures that decide whether the payload
is any good. One does no harm if the sink took nothing of the call, at a time
when no bytes waited (`Call.Harmless`): every number that a writer gives away
is paid for with bytes that the sink took (`Paid`), so after such a failure
the writer stands where it stood. If all failures were of this kind, a payload
that could be closed is the script of what the successful calls handed over
(`payload_sound_after_faults`). Otherwise it may be closed and yet be
unreadable.
-/

namespace Lockbox

open Payload

namespace Payload.Writer

variable {S : Suite} {w w' : Writer} {e : Error} {entries entries' : List (FileInfo × Bytes)}

/-! ## What a failure leaves

A number is given away only with a frame that the sink took. So a sink that
took nothing leaves the writer where it stood, but that what was to be
written no longer waits. -/

/-- If the sink took nothing, no number was given away. -/
theorem Paid.counter_eq (h : Paid w w') (hnothing : w'.sink.accepted = w.sink.accepted) :
    w'.counter = w.counter := by
  have hle := h.counter
  have hbytes := h.bytes
  rw [hnothing] at hbytes
  omega

/-- A frame does not look at what waits. -/
theorem waiting_emit {frame : Frame} {result : Except Error Unit}
    (h : w.emit S frame = (result, w')) : w'.waiting = w.waiting := by
  unfold emit at h
  dsimp only at h
  split at h
  · obtain ⟨-, rfl⟩ := Prod.mk.inj h
    rfl
  · split at h
    · obtain ⟨-, rfl⟩ := Prod.mk.inj h
      rfl
    · obtain ⟨-, rfl⟩ := Prod.mk.inj h
      rfl

/-- What could not be written does not wait any more. -/
theorem held_flush_error (h : w.flush S = (.error e, w')) : w'.held = [] := by
  unfold flush at h
  split at h
  · rw [held, waiting_emit h]
    exact Waiting.toBytes_none
  · exact absurd (Prod.mk.inj h).1 (by simp)

/-- Bytes leave the buffer before their frame is written, so none wait if that
fails. -/
theorem held_fill_error {input : Bytes} (h : w.fill S input = (.error e, w')) : w'.held = [] := by
  fun_induction fill S input w with
  | case1 => exact absurd (Prod.mk.inj h).1 (by simp)
  | case2 input w hlt hfit room full hfull hpos w₁ hemit ih => exact ih h
  | case3 input w hlt hfit room full hfull hpos e₁ w₁ hemit =>
    obtain ⟨-, rfl⟩ := Prod.mk.inj h
    rw [held, waiting_emit hemit]
    exact Waiting.toBytes_none

/-! ## Calls -/

/-- What can be asked of a payload that is being written. -/
inductive Call where
  | declare (name : String) (size : UInt64)
  | write (data : Bytes)
  deriving DecidableEq

namespace Call

variable {call : Call}

/-- What a writer does when it is asked. -/
def on (S : Suite) : Call → Writer → Except Error Unit × Writer
  | .declare name size => Writer.declare S name size
  | .write data => Writer.write S data

/-- What a call adds to the entries if it succeeds. -/
def handedOver : Call → List (FileInfo × Bytes) → List (FileInfo × Bytes)
  | .declare name size, entries => entries ++ [(⟨name, size⟩, [])]
  | .write data, entries => handOver data entries

/-- If the sink fails, it takes nothing of the call, and no bytes wait. -/
def Harmless (S : Suite) (call : Call) (w : Writer) : Prop :=
  ∀ fault, (call.on S w).1 = .error (.io fault) →
    (call.on S w).2.sink.accepted = w.sink.accepted ∧ w.held = []

/-- A call that succeeds does no harm. -/
theorem Harmless.of_ok (h : (call.on S w).1 = .ok ()) : call.Harmless S w :=
  fun _ hio => absurd (h.symm.trans hio) (by simp)

/-- A call that fails changes nothing, or a frame could not be written. -/
theorem error_cases (h : call.on S w = (.error e, w')) : w' = w ∨ Unwritten e w' := by
  cases call with
  | declare name size => exact (declare_error h).imp_left And.left
  | write data => exact (write_error h).imp_left And.left

/-- Whatever becomes of a call, its numbers are paid for. -/
theorem paid (call : Call) (w : Writer) : Paid w (call.on S w).2 := by
  cases call with
  | declare name size => exact paid_declare name size w
  | write data => exact paid_write data w

/-- A call that fails leaves the entry and its count as they are. -/
theorem current_of_error (h : call.on S w = (.error e, w')) : w'.current = w.current := by
  cases call with
  | declare name size => exact current_declare_error h
  | write data => exact current_write_error h

/-- A failure leaves waiting what waited, or nothing. -/
theorem held_of_error (h : call.on S w = (.error e, w')) : w'.held = w.held ∨ w'.held = [] := by
  cases call with
  | declare name size =>
    obtain ⟨rfl, -⟩ | ⟨stored, hemit⟩ := declare_error_cases h
    · exact .inl rfl
    · exact .inl (by rw [held, waiting_emit hemit])
  | write data =>
    obtain ⟨rfl, -⟩ | hfill | ⟨w₁, -, hflush⟩ := write_error_cases h
    · exact .inl rfl
    · exact .inr (held_fill_error hfill)
    · exact .inr (held_flush_error hflush)

/-- **A call that succeeds hands over what it was given.** -/
theorem holds_of_ok (hholds : Holds S entries w) (h : call.on S w = (.ok (), w')) :
    Holds S (call.handedOver entries) w' ∧ w'.channel = w.channel := by
  cases call with
  | declare name size =>
    obtain ⟨_, -, -, -, hwrote, -⟩ := declare_ok h
    exact ⟨hholds.declare h, hwrote.channel⟩
  | write data =>
    obtain ⟨_, _, -, -, -, hwrote, -⟩ := write_ok h
    exact ⟨hholds.write h, hwrote.channel⟩

/-- **A failure that does no harm leaves the writer where it stood.** -/
theorem holds_of_harmless (hholds : Holds S entries w) {fault : IoError}
    (h : call.on S w = (.error (.io fault), w')) (hharmless : call.Harmless S w) :
    Holds S entries w' ∧ w'.channel = w.channel := by
  obtain ⟨hnothing, hempty⟩ := hharmless fault (by rw [h])
  rw [h] at hnothing
  have hpaid := call.paid (S := S) w
  rw [h] at hpaid
  have hheld : w'.held = w.held := (held_of_error h).elim id fun hnone => hnone.trans hempty.symm
  obtain ⟨hstorable, frames, haccepted, hcounter, hlaid⟩ := hholds
  refine ⟨⟨hstorable, frames, ?_, ?_, ?_⟩, hpaid.channel⟩
  · rw [hnothing, haccepted, hpaid.channel]
  · rw [hpaid.counter_eq hnothing, hcounter]
  · rw [Laid, current_of_error h, hheld]
    exact hlaid

end Call

/-! ## Runs

The entries are collected from the calls that succeed. As long as no failure
does harm, the writer holds just these. -/

/-- The writer after calls, and what they handed over: the entries whose
declarations succeeded, each with the data of the calls that succeeded. -/
def run (S : Suite) : List Call → Writer → List (FileInfo × Bytes) →
    Writer × List (FileInfo × Bytes)
  | [], w, entries => (w, entries)
  | call :: calls, w, entries =>
    match call.on S w with
    | (.ok (), w) => run S calls w (call.handedOver entries)
    | (.error _, w) => run S calls w entries

/-- Whenever the sink fails, that does no harm. -/
def Unharmed (S : Suite) : List Call → Writer → Prop
  | [], _ => True
  | call :: calls, w => call.Harmless S w ∧ Unharmed S calls (call.on S w).2

/-- The writer holds what it was handed, or no number is left. -/
def Faithful (S : Suite) (channel : Channel) (entries : List (FileInfo × Bytes)) (w : Writer) :
    Prop :=
  w.Spent ∨ Holds S entries w ∧ w.channel = channel

/-- A writer without a number left gets none back. -/
theorem Spent.call (h : w.Spent) (call : Call) : (call.on S w).2.Spent :=
  Nat.le_trans h (Nat.add_le_add_right (call.paid w).counter 1)

/-- A call that succeeds is written. -/
theorem Faithful.ok {channel : Channel} {call : Call} (h : Faithful S channel entries w)
    (hcall : call.on S w = (.ok (), w')) : Faithful S channel (call.handedOver entries) w' := by
  obtain hspent | ⟨hholds, rfl⟩ := h
  · have hstill := hspent.call (S := S) call
    rw [hcall] at hstill
    exact .inl hstill
  · exact .inr (Call.holds_of_ok hholds hcall)

/-- A call that fails without harm is as if it had not been made. -/
theorem Faithful.error {channel : Channel} {call : Call} (h : Faithful S channel entries w)
    (hcall : call.on S w = (.error e, w')) (hharmless : call.Harmless S w) :
    Faithful S channel entries w' := by
  obtain hspent | ⟨hholds, rfl⟩ := h
  · have hstill := hspent.call (S := S) call
    rw [hcall] at hstill
    exact .inl hstill
  · obtain rfl | ⟨fault, rfl⟩ | ⟨-, hspent⟩ := Call.error_cases hcall
    · exact .inr ⟨hholds, rfl⟩
    · exact .inr (Call.holds_of_harmless hholds hcall hharmless)
    · exact .inl hspent

/-- **A run goes on holding what it was handed,** as long as no failure of the
sink does harm. -/
theorem Faithful.run {channel : Channel} {calls : List Call} (h : Faithful S channel entries w)
    (hunharmed : Unharmed S calls w) (hrun : run S calls w entries = (w', entries')) :
    Faithful S channel entries' w' := by
  induction calls generalizing w entries with
  | nil =>
    obtain ⟨rfl, rfl⟩ := Prod.mk.inj hrun
    exact h
  | cons call calls ih =>
    obtain ⟨hharmless, hlater⟩ := hunharmed
    rcases hcall : call.on S w with ⟨e | u, w₁⟩
    · rw [hcall] at hlater
      rw [Writer.run, hcall] at hrun
      exact ih (h.error hcall hharmless) hlater hrun
    · rw [hcall] at hlater
      rw [Writer.run, hcall] at hrun
      exact ih (h.ok hcall) hlater hrun

end Payload.Writer

/-! ## Reading what was closed -/

/-- A sink that takes everything, but of the writes that are listed only so
many bytes. -/
def Sink.faulty (faults : List (Nat × Nat)) : Sink :=
  { Sink.unlimited with quota := fun writes _ offered => (faults.lookup writes).getD offered }

/-- What calls hand over, and what can be read of the payload if it can be
closed then. -/
def Payload.Writer.reread (S : Suite) (channel : Channel) (sink : Sink) (calls : List Call) :
    List (FileInfo × Bytes) × Except Error (Except Error Nat × List (FileInfo × Bytes)) :=
  let (w, entries) := run S calls (.create sink channel) []
  (entries, (w.close S).map fun closed =>
    let (result, _, files) :=
      Opening.drain S .memory 0 (.create (.ofBytes closed.accepted) channel false) []
    (result, files))

/-- The channel of the runs below. -/
def Channel.sample : Channel :=
  ⟨⟨List.replicate 32 1, by decide⟩, ⟨List.replicate 24 2, by decide⟩, 2, ⟨false⟩⟩

/-- **A payload that could be closed is sound after faults that did no harm.**
Let the sink of a payload fail whenever it likes, and take bytes again. If it
took nothing of a call whenever it failed, and no bytes waited then, and if the
payload could be closed, then what the sink took is read to its end, and comes
out as the entries whose declarations succeeded, each with the data of the
calls that succeeded. -/
theorem payload_sound_after_faults {S : Suite} (hs : S.OpensSealed) (hz : S.InflatesDeflated)
    (hf : S.FitsFrames) {sink closed : Sink} (hempty : sink.accepted = []) (channel : Channel)
    (calls : List Payload.Writer.Call) {w : Payload.Writer} {entries : List (FileInfo × Bytes)}
    (hrun : Payload.Writer.run S calls (.create sink channel) [] = (w, entries))
    (hunharmed : Payload.Writer.Unharmed S calls (.create sink channel))
    (hclose : w.close S = .ok closed) {source : Source} (hsteady : source.Steady)
    (hcontents : source.contents = closed.accepted) (allowTrailing : Bool) :
    ∃ r, Opening.drain S .memory 0 (.create source channel allowTrailing) []
        = (.ok entries.length, r, entries) ∧ r.isFinished = true := by
  have hfaithful : w.Faithful S channel entries :=
    Payload.Writer.Faithful.run (.inr ⟨Payload.Writer.holds_create hempty channel, rfl⟩)
      hunharmed hrun
  obtain hspent | ⟨hholds, rfl⟩ := hfaithful
  · exact absurd hclose (hspent.close closed)
  · obtain ⟨haccepted, -, hcomplete, hstorable⟩ := hholds.close hclose
    obtain ⟨r, files, hdrain, hfinished, hfiles⟩ := Payload.Supply.drain_stored hs hz hf
      Consumer.memory_accepts hstorable hcomplete hsteady (hcontents.trans haccepted)
      allowTrailing []
    obtain rfl : files = entries := hfiles
    exact ⟨r, hdrain, hfinished⟩

/-- Twice the sink fails and takes nothing, at times when nothing waits; both
calls are made again, and the payload is sound. -/
theorem refusedTwice_payload_sound_after_faults :
    let sink := Sink.faulty [(0, 0), (3, 0)]
    let calls : List Payload.Writer.Call :=
      [.declare "a" 2, .declare "a" 2, .write [1, 2], .write [1, 2]]
    ∃ w closed r,
      Payload.Writer.run .plain calls (.create sink .sample) [] = (w, [(⟨"a", 2⟩, [1, 2])]) ∧
      Payload.Writer.Unharmed .plain calls (.create sink .sample) ∧
      w.close .plain = .ok closed ∧
      Opening.drain .plain .memory 0 (.create (.ofBytes closed.accepted) .sample false) []
        = (.ok 1, r, [(⟨"a", 2⟩, [1, 2])]) ∧ r.isFinished = true := by
  intro sink calls
  obtain ⟨w, hw⟩ : ∃ w, (Payload.Writer.run .plain calls (.create sink .sample) []).1 = w :=
    ⟨_, rfl⟩
  have hrun : Payload.Writer.run .plain calls (.create sink .sample) []
      = (w, [(⟨"a", 2⟩, [1, 2])]) := by
    refine Prod.ext hw ?_
    show (Payload.Writer.run .plain calls (.create sink .sample) []).2 = [(⟨"a", 2⟩, [1, 2])]
    decide +kernel
  have hunharmed : Payload.Writer.Unharmed .plain calls (.create sink .sample) := by
    refine ⟨fun _ _ => ⟨?_, ?_⟩, .of_ok ?_, fun _ _ => ⟨?_, ?_⟩, .of_ok ?_, trivial⟩
    all_goals decide +kernel
  have hcloses : (w.close .plain).toOption.isSome = true := by
    rw [← hw]
    decide +kernel
  cases hclose : w.close .plain with
  | error e =>
    rw [hclose] at hcloses
    exact absurd hcloses (by simp [Except.toOption])
  | ok closed =>
    obtain ⟨r, hread, hfinished⟩ := payload_sound_after_faults Suite.plain_opensSealed
      Suite.plain_inflatesDeflated Suite.plain_fitsFrames rfl .sample calls hrun hunharmed hclose
      (Source.steady_ofBytes closed.accepted) (Source.contents_ofBytes _) false
    exact ⟨w, closed, r, hrun, hunharmed, hclose, hread, hfinished⟩

/-- **A fault can leave a payload that is closed and cannot be read.** A sink
that took a byte of a frame takes the next frame behind it, and a sink that
took nothing while a byte waited never gets that byte. -/
theorem payload_unreadable_after_faults :
    Payload.Writer.reread .plain .sample (.faulty [(0, 1)]) [.declare "a" 0]
      = ([], .ok (.error (.integrity (.frameLength 0)), [])) ∧
    Payload.Writer.reread .plain .sample (.faulty [(2, 0)])
        [.declare "a" 2, .write [1], .write [2], .write [2]]
      = ([(⟨"a", 2⟩, [1, 2])], .ok (.error (.integrity .shortEntry), [])) := by
  constructor
  · decide +kernel
  · decide +kernel

end Lockbox
