import Lockbox.Proofs.FailStop
import Lockbox.Proofs.RoundTrip
/-!
# Lockbox — how entries are passed on

To decrypt everything is a conversation with two sides: the reader is asked
for the next entry and for its data, and the consumer is told to open, to
close and to abort entries. Either may fail at any point, and so may every
sink. What happens is written down here as events, one for each operation
and with its answer, in their order (`Opening.Event`).

A conversation has few forms, told apart by how it ends
(`Opening.Protocol`): entries that are opened, read and closed, and after
them one operation that fails, or the answer that there is no further
entry. All that can be said of the order of the calls is read off these
forms (`Opening.Orderly`).
-/

namespace Lockbox

open Payload

namespace Payload

namespace Reader

variable {S : Suite} {r r₁ r₂ : Reader} {info : FileInfo} {size : UInt64} {sink filled : Sink}

/-- To read an entry does nothing else to its sink than to write to it. -/
theorem readInto_writes (S : Suite) (r : Reader) (sink : Sink) :
    ∃ pieces, (r.readInto S sink).2.2 = (sink.writeEach pieces).2 := by
  have hnone : ∃ pieces, sink = (sink.writeEach pieces).2 := ⟨[], rfl⟩
  unfold readInto
  split
  · exact hnone
  split
  · exact hnone
  · exact hnone
  · exact hnone
  rename_i info remaining hcursor
  split
  · exact hnone
  obtain ⟨chunks, -, -, hsink, -⟩ := pour_offers S info remaining r sink
  generalize pour S info remaining r sink = poured at hsink ⊢
  obtain ⟨e | u, r₁, sink₁⟩ := poured
  · exact ⟨_, hsink⟩
  · dsimp only
    cases sink₁.flush with
    | error e => exact ⟨_, hsink⟩
    | ok u => exact ⟨_, hsink⟩

/-- An entry that was announced and then read gave its sink as many bytes as
were declared. -/
theorem accepted_of_next_readInto (hnext : r.next S = (.ok (some info), r₁))
    (hread : r₁.readInto S sink = (.ok size, r₂, filled)) :
    size = info.size ∧
      ∃ data, filled.accepted = sink.accepted ++ data ∧ data.length = info.size.toNat := by
  obtain ⟨name, declared, rfl, -, hcursor⟩ := read_of_next hnext
  obtain ⟨chunks, -, haccepted, hlength⟩ := read_of_readInto hcursor hread
  refine ⟨?_, _, haccepted, hlength⟩
  unfold readInto at hread
  rw [hcursor] at hread
  split at hread
  · cases hread
  · dsimp only at hread
    rw [if_neg (by simp)] at hread
    split at hread
    · cases hread
    · split at hread
      · cases hread
      · cases hread
        rfl

end Reader

end Payload

namespace Opening

variable {σ γ : Type}

/-! ## Events -/

/-- What happens while entries are passed on, with what is answered. -/
inductive Event where
  | next (answer : Except Error (Option FileInfo))
  | opened (info : FileInfo) (answer : Except IoError Sink)
  /-- Data are asked for with a sink, and leave it filled so far. -/
  | read (sink : Sink) (answer : Except Error UInt64) (filled : Sink)
  | closed (info : FileInfo) (sink : Sink) (answer : Except IoError Unit)
  | aborted (info : FileInfo) (sink : Sink)

namespace Event

/-- It is the consumer that is called. -/
def isCall : Event → Bool
  | .opened .. | .closed .. | .aborted .. => true
  | .next _ | .read .. => false

/-- The failure that is answered. -/
def failure? : Event → Option Error
  | .next (.error e) | .read _ (.error e) _ => some e
  | .opened _ (.error e) | .closed _ _ (.error e) => some (.io e)
  | _ => none

/-- The entry that is opened with success. -/
def opening? : Event → Option FileInfo
  | .opened info (.ok _) => some info
  | _ => none

/-- The entry that is closed with success. -/
def closing? : Event → Option FileInfo
  | .closed info _ (.ok _) => some info
  | _ => none

/-- The event takes a reader and the state of a consumer further. -/
inductive Happens (S : Suite) (k : Consumer γ) : Reader → γ → Event → Reader → γ → Prop where
  | next {r r' : Reader} {c : γ} {answer : Except Error (Option FileInfo)}
      (h : r.next S = (answer, r')) : Happens S k r c (.next answer) r' c
  | opened {r : Reader} {c c' : γ} {info : FileInfo} {answer : Except IoError Sink}
      (h : k.openEntry info c = (answer, c')) : Happens S k r c (.opened info answer) r c'
  | read {r r' : Reader} {c : γ} {sink filled : Sink} {answer : Except Error UInt64}
      (h : r.readInto S sink = (answer, r', filled)) : Happens S k r c (.read sink answer filled) r' c
  | closed {r : Reader} {c c' : γ} {info : FileInfo} {sink : Sink} {answer : Except IoError Unit}
      (h : k.closeEntry info sink c = (answer, c')) : Happens S k r c (.closed info sink answer) r c'
  | aborted {r : Reader} {c c' : γ} {info : FileInfo} {sink : Sink}
      (h : k.abortEntry info sink c = c') : Happens S k r c (.aborted info sink) r c'

/-- Events that happen one after the other. -/
inductive Run (S : Suite) (k : Consumer γ) : Reader → γ → List Event → Reader → γ → Prop where
  | nil (r : Reader) (c : γ) : Run S k r c [] r c
  | cons {r r₁ r' : Reader} {c c₁ c' : γ} {event : Event} {events : List Event}
      (hfirst : Happens S k r c event r₁ c₁) (hrest : Run S k r₁ c₁ events r' c') :
      Run S k r c (event :: events) r' c'

end Event

end Opening

/-- The consumer that also writes down how it is called and what it
answers. -/
def Consumer.noting {γ : Type} (k : Consumer γ) : Consumer (γ × List Opening.Event) where
  openEntry info := fun (c, calls) =>
    let (answer, c) := k.openEntry info c
    (answer, c, calls ++ [.opened info answer])
  closeEntry info sink := fun (c, calls) =>
    let (answer, c) := k.closeEntry info sink c
    (answer, c, calls ++ [.closed info sink answer])
  abortEntry info sink := fun (c, calls) =>
    (k.abortEntry info sink c, calls ++ [.aborted info sink])

section

variable {γ : Type} {k : Consumer γ} {c c' : γ} {info : FileInfo} {sink : Sink}

/-- To note how an entry is opened does not change how it is. -/
theorem Consumer.noting_openEntry {answer : Except IoError Sink}
    (h : k.openEntry info c = (answer, c')) (calls : List Opening.Event) :
    k.noting.openEntry info (c, calls) = (answer, c', calls ++ [.opened info answer]) := by
  simp only [noting, h]

/-- Nor does it for how an entry is closed. -/
theorem Consumer.noting_closeEntry {answer : Except IoError Unit}
    (h : k.closeEntry info sink c = (answer, c')) (calls : List Opening.Event) :
    k.noting.closeEntry info sink (c, calls) = (answer, c', calls ++ [.closed info sink answer]) := by
  simp only [noting, h]

end

namespace Opening

variable {σ γ : Type}

/-! ## The forms that a conversation can take

A conversation goes through entries that were passed on completely, and ends
in one of a few ways. Each constructor is a form of the last part of it. -/

/-- What happens while entries are passed on, `count` of them having gone
before, and what comes of it. -/
inductive Protocol : Nat → List Event → Except Error Nat → Prop where
  /-- There is no further entry. -/
  | ended (count : Nat) : Protocol count [.next (.ok none)] (.ok count)
  /-- The next entry cannot be had. -/
  | broken (count : Nat) (e : Error) : Protocol count [.next (.error e)] (.error e)
  /-- The consumer does not open an entry. -/
  | unopened (count : Nat) (info : FileInfo) (e : IoError) :
      Protocol count [.next (.ok (some info)), .opened info (.error e)] (.error (.io e))
  /-- The data of an entry cannot be had, and it is given up. -/
  | aborted (count : Nat) (info : FileInfo) (e : Error) {sink filled : Sink} {pieces : List Bytes}
      (hwritten : filled = (sink.writeEach pieces).2) :
      Protocol count [.next (.ok (some info)), .opened info (.ok sink), .read sink (.error e) filled,
        .aborted info filled] (.error e)
  /-- The consumer does not close an entry. -/
  | unclosed (count : Nat) (info : FileInfo) (e : IoError) {sink filled : Sink} {pieces : List Bytes}
      {data : Bytes} (hwritten : filled = (sink.writeEach pieces).2)
      (haccepted : filled.accepted = sink.accepted ++ data) (hlength : data.length = info.size.toNat) :
      Protocol count [.next (.ok (some info)), .opened info (.ok sink),
        .read sink (.ok info.size) filled, .closed info filled (.error e)] (.error (.io e))
  /-- An entry is passed on, and then more. -/
  | entry {count : Nat} {info : FileInfo} {sink filled : Sink} {pieces : List Bytes} {data : Bytes}
      {events : List Event} {result : Except Error Nat}
      (hwritten : filled = (sink.writeEach pieces).2)
      (haccepted : filled.accepted = sink.accepted ++ data) (hlength : data.length = info.size.toNat)
      (hrest : Protocol (count + 1) events result) :
      Protocol count (.next (.ok (some info)) :: .opened info (.ok sink) ::
        .read sink (.ok info.size) filled :: .closed info filled (.ok ()) :: events) result

/-- **To pass entries on follows the protocol.** The events happen one after
the other, and those that are calls of the consumer are the calls that it
gets. -/
theorem exists_protocol_drain (S : Suite) (k : Consumer γ) (count : Nat) (r : Reader) (c : γ) :
    ∃ events result r' c', drain S k count r c = (result, r', c') ∧
      Event.Run S k r c events r' c' ∧ Protocol count events result ∧
      ∀ calls, drain S k.noting count r (c, calls)
        = (result, r', c', calls ++ events.filter Event.isCall) := by
  -- on the entries: of the one that is next, everything is told by how far it gets
  fun_induction drain S k count r c with
  | case1 count r c e r₁ hnext =>
    refine ⟨[.next (.error e)], _, _, _, rfl, .cons (.next hnext) (.nil _ _), .broken count e,
      fun calls => ?_⟩
    rw [drain_error count hnext]
    simp [Event.isCall]
  | case2 count r c r₁ hnext =>
    refine ⟨[.next (.ok none)], _, _, _, rfl, .cons (.next hnext) (.nil _ _), .ended count,
      fun calls => ?_⟩
    rw [drain_none count hnext]
    simp [Event.isCall]
  | case3 count r c info r₁ hnext e c₁ hopen =>
    refine ⟨[.next (.ok (some info)), .opened info (.error e)], _, _, _, rfl,
      .cons (.next hnext) (.cons (.opened hopen) (.nil _ _)), .unopened count info e, fun calls => ?_⟩
    rw [drain_unopened count hnext (Consumer.noting_openEntry hopen calls)]
    simp [List.filter_cons, Event.isCall]
  | case4 count r c info r₁ hnext sink c₁ hopen e r₂ filled hread =>
    obtain ⟨pieces, hwritten⟩ := r₁.readInto_writes S sink
    rw [hread] at hwritten
    refine ⟨_, _, _, _, rfl, .cons (.next hnext) (.cons (.opened hopen) (.cons (.read hread)
      (.cons (.aborted rfl) (.nil _ _)))), .aborted count info e hwritten, fun calls => ?_⟩
    rw [drain_abort count hnext (Consumer.noting_openEntry hopen calls) hread]
    simp [List.filter_cons, Event.isCall, Consumer.noting]
  | case5 count r c info r₁ hnext sink c₁ hopen size r₂ filled hread _ e c₂ hclose =>
    obtain ⟨pieces, hwritten⟩ := r₁.readInto_writes S sink
    rw [hread] at hwritten
    obtain ⟨rfl, data, haccepted, hlength⟩ := Reader.accepted_of_next_readInto hnext hread
    refine ⟨_, _, _, _, rfl, .cons (.next hnext) (.cons (.opened hopen) (.cons (.read hread)
      (.cons (.closed hclose) (.nil _ _)))), .unclosed count info e hwritten haccepted hlength,
      fun calls => ?_⟩
    rw [drain_some count hnext (Consumer.noting_openEntry hopen calls), hread]
    simp [List.filter_cons, Event.isCall, Consumer.noting_closeEntry hclose]
  | case6 count r c info r₁ hnext sink c₁ hopen size r₂ filled hread _ c₂ hclose ih =>
    obtain ⟨pieces, hwritten⟩ := r₁.readInto_writes S sink
    rw [hread] at hwritten
    obtain ⟨rfl, data, haccepted, hlength⟩ := Reader.accepted_of_next_readInto hnext hread
    obtain ⟨events, result, r', c', hdrain, hrun, hprotocol, hnoted⟩ := ih
    refine ⟨_, result, r', c', hdrain, .cons (.next hnext) (.cons (.opened hopen)
      (.cons (.read hread) (.cons (.closed hclose) hrun))),
      .entry hwritten haccepted hlength hprotocol, fun calls => ?_⟩
    rw [drain_entry count hnext (Consumer.noting_openEntry hopen calls) hread
      (Consumer.noting_closeEntry hclose _), hnoted]
    simp [List.filter_cons, Event.isCall]

/-! ## What the forms have in common

What holds of all conversations is read off the forms, one by one. -/

/-- What happened, and what came of it, keeps to the order of the calls. -/
structure Orderly (events : List Event) (result : Except Error Nat) : Prop where
  /-- An entry that is opened is read into its sink, which the next call
  closes, or else aborts: it closes the sink if the data could be had. -/
  opened : ∀ i info sink, events[i]? = some (.opened info (.ok sink)) →
    ∃ answer filled pieces, events[i + 1]? = some (.read sink answer filled) ∧
      filled = (sink.writeEach pieces).2 ∧
      ((∃ size closing, answer = .ok size ∧ events[i + 2]? = some (.closed info filled closing)) ∨
        ∃ e, answer = .error e ∧ events[i + 2]? = some (.aborted info filled))
  /-- What is closed was opened two events before, and then its sink
  accepted as many bytes as the entry has. -/
  closed : ∀ i info filled answer, events[i]? = some (.closed info filled answer) →
    ∃ j sink data, i = j + 2 ∧ events[j]? = some (.opened info (.ok sink)) ∧
      events[j + 1]? = some (.read sink (.ok info.size) filled) ∧
      filled.accepted = sink.accepted ++ data ∧ data.length = info.size.toNat
  /-- What is aborted was opened two events before, and then its data could
  not be had; nothing happens any more, and this is the failure that is
  answered. -/
  aborted : ∀ i info filled, events[i]? = some (.aborted info filled) →
    ∃ j sink e, i = j + 2 ∧ events[j]? = some (.opened info (.ok sink)) ∧
      events[j + 1]? = some (.read sink (.error e) filled) ∧ i + 1 = events.length ∧
      result = .error e
  /-- The failure that is answered is the first one, and there is no other. -/
  failed : ∀ e, result = .error e → events.filterMap Event.failure? = [e]
  /-- Nothing failed if a number is answered. -/
  unfailed : ∀ n, result = .ok n → events.filterMap Event.failure? = []
  /-- A number is answered just if in the end there was no further entry, and
  then it is that of the entries that were opened, all of which were closed. -/
  answered : ∀ n, result = .ok n ↔ events.getLast? = some (.next (.ok none)) ∧
    n = (events.filterMap Event.opening?).length ∧
    events.filterMap Event.closing? = events.filterMap Event.opening?

section

variable {count i : Nat} {events : List Event} {result : Except Error Nat} {info : FileInfo}
  {sink filled : Sink}

/-- **An entry that is opened is read, and then closed or aborted,** by which
its data could be had or not. -/
theorem Protocol.opened (h : Protocol count events result)
    (hi : events[i]? = some (.opened info (.ok sink))) :
    ∃ answer filled pieces, events[i + 1]? = some (.read sink answer filled) ∧
      filled = (sink.writeEach pieces).2 ∧
      ((∃ size closing, answer = .ok size ∧ events[i + 2]? = some (.closed info filled closing)) ∨
        ∃ e, answer = .error e ∧ events[i + 2]? = some (.aborted info filled)) := by
  -- the second event of an entry is its opening, and there is no other
  induction h generalizing i with
  | ended | broken | unopened => rcases i with _ | _ | i <;> simp at hi
  | aborted count info e hwritten =>
    rcases i with _ | _ | _ | _ | i <;> simp at hi
    obtain ⟨rfl, rfl⟩ := hi
    exact ⟨_, _, _, rfl, hwritten, .inr ⟨e, rfl, rfl⟩⟩
  | unclosed count info e hwritten =>
    rcases i with _ | _ | _ | _ | i <;> simp at hi
    obtain ⟨rfl, rfl⟩ := hi
    exact ⟨_, _, _, rfl, hwritten, .inl ⟨_, _, rfl, rfl⟩⟩
  | entry hwritten haccepted hlength hrest ih =>
    rcases i with _ | _ | _ | _ | i <;> simp at hi
    · obtain ⟨rfl, rfl⟩ := hi
      exact ⟨_, _, _, rfl, hwritten, .inl ⟨_, _, rfl, rfl⟩⟩
    · exact ih hi

/-- **What is closed was opened before and is complete.** -/
theorem Protocol.closed {answer : Except IoError Unit} (h : Protocol count events result)
    (hi : events[i]? = some (.closed info filled answer)) :
    ∃ j sink data, i = j + 2 ∧ events[j]? = some (.opened info (.ok sink)) ∧
      events[j + 1]? = some (.read sink (.ok info.size) filled) ∧
      filled.accepted = sink.accepted ++ data ∧ data.length = info.size.toNat := by
  -- the fourth event of an entry
  induction h generalizing i with
  | ended | broken | unopened => rcases i with _ | _ | i <;> simp at hi
  | aborted => rcases i with _ | _ | _ | _ | i <;> simp at hi
  | unclosed count info e hwritten haccepted hlength =>
    rcases i with _ | _ | _ | _ | i <;> simp at hi
    obtain ⟨rfl, rfl, -⟩ := hi
    exact ⟨1, _, _, rfl, rfl, rfl, haccepted, hlength⟩
  | entry hwritten haccepted hlength hrest ih =>
    rcases i with _ | _ | _ | _ | i <;> simp at hi
    · obtain ⟨rfl, rfl, -⟩ := hi
      exact ⟨1, _, _, rfl, rfl, rfl, haccepted, hlength⟩
    · obtain ⟨j, sink, data, rfl, hopened, hread, hfilled⟩ := ih hi
      exact ⟨j + 4, sink, data, rfl, hopened, hread, hfilled⟩

/-- **What is aborted was opened before, and nothing happens after that.** -/
theorem Protocol.aborted_last (h : Protocol count events result)
    (hi : events[i]? = some (.aborted info filled)) :
    ∃ j sink e, i = j + 2 ∧ events[j]? = some (.opened info (.ok sink)) ∧
      events[j + 1]? = some (.read sink (.error e) filled) ∧ i + 1 = events.length ∧
      result = .error e := by
  induction h generalizing i with
  | ended | broken | unopened => rcases i with _ | _ | i <;> simp at hi
  | unclosed => rcases i with _ | _ | _ | _ | i <;> simp at hi
  | aborted count info e hwritten =>
    rcases i with _ | _ | _ | _ | i <;> simp at hi
    obtain ⟨rfl, rfl⟩ := hi
    exact ⟨1, _, e, rfl, rfl, rfl, rfl, rfl⟩
  | entry hwritten haccepted hlength hrest ih =>
    rcases i with _ | _ | _ | _ | i <;> simp at hi
    obtain ⟨j, sink, e, rfl, hopened, hread, hlast, hresult⟩ := ih hi
    refine ⟨j + 4, sink, e, rfl, hopened, hread, ?_, hresult⟩
    simp only [List.length_cons]
    omega

/-- One failure is answered, or none is, and no other is passed over in
silence. -/
theorem Protocol.failures (h : Protocol count events result) :
    (∀ e, result = .error e → events.filterMap Event.failure? = [e]) ∧
      ∀ n, result = .ok n → events.filterMap Event.failure? = [] := by
  induction h with
  | entry _ _ _ _ ih => exact ih
  | _ => exact ⟨by simp [List.filterMap_cons, Event.failure?],
      by simp [List.filterMap_cons, Event.failure?]⟩

/-- A number is answered just if the entries ended, and then each that was
opened has been closed. -/
theorem Protocol.answered (h : Protocol count events result) (n : Nat) :
    result = .ok n ↔ events.getLast? = some (.next (.ok none)) ∧
      n = count + (events.filterMap Event.opening?).length ∧
      events.filterMap Event.closing? = events.filterMap Event.opening? := by
  induction h with
  | ended count =>
    simp [List.filterMap_cons, Event.opening?, Event.closing?, eq_comm]
  | broken | unopened | aborted | unclosed => simp
  | @entry count _ _ _ _ _ events _ _ _ _ hrest ih =>
    rw [ih]
    cases events with
    | nil => cases hrest
    | cons event events =>
      simp only [List.getLast?_cons_cons, List.filterMap_cons, Event.opening?, Event.closing?,
        List.length_cons, List.cons.injEq, true_and]
      refine and_congr_right fun _ => and_congr_left fun _ => ?_
      omega

/-- A conversation from the first entry on keeps to the order of the calls. -/
theorem Protocol.orderly (h : Protocol 0 events result) : Orderly events result where
  opened _ _ _ hi := h.opened hi
  closed _ _ _ _ hi := h.closed hi
  aborted _ _ _ hi := h.aborted_last hi
  failed := h.failures.1
  unfailed := h.failures.2
  answered n := by simpa using h.answered n

end

/-- A session that could not begin is the same as before. -/
theorem begin_error {s s' : Opening σ} {fmk : Fmk} {e : Error} (h : s.begin fmk = (.error e, s')) :
    s' = s := by
  cases hstage : s.stage.untouched? with
  | none =>
    rw [Opening.begin, hstage] at h
    exact (Prod.mk.inj h).2.symm
  | some source =>
    rw [begin_eq hstage] at h
    cases hverify : s.header.verify s.smith.suite fmk with
    | error f =>
      rw [hverify] at h
      exact (Prod.mk.inj h).2.symm
    | ok u =>
      rw [hverify] at h
      exact absurd (Prod.mk.inj h).1 (by simp)

end Opening

/-- **Entries are passed on in good order.** For every session, whatever its
source delivers, for every master key and every consumer, each of whose
operations and sinks may fail at any point:

* if the reading cannot begin, the consumer is not called, and session and
  consumer are as they were;
* else the session ends finished, and what happened, down to the calls that
  the consumer notes, is a run of events that keeps to the order of the
  calls. Each entry that is opened is read, and the next call closes or
  aborts it, with the same sink. It is closed only if the sink accepted as
  many bytes as the entry has, and aborted only if it is the last and its
  data could not be had. The first failure is the one that is answered, and
  a number is answered just if in the end there was no further entry. -/
theorem entries_passed_on {σ γ : Type} (s : Opening σ) (fmk : Fmk) (k : Consumer γ) (c : γ) :
    (∀ e s₁, s.begin fmk = (.error e, s₁) → s₁ = s ∧
      s.decryptAll fmk k c = (.error e, s, c) ∧
      s.decryptAll fmk k.noting (c, []) = (.error e, s, c, [])) ∧
    ∀ s₁, s.begin fmk = (.ok (), s₁) → ∃ source events result r' c',
      s.stage.untouched? = some source ∧
      Opening.Event.Run s.smith.suite k (.create source (s.channel fmk) s.lenient) c events r' c' ∧
      s.decryptAll fmk k c = (result, { s with stage := .finished r'.isFinished }, c') ∧
      s.decryptAll fmk k.noting (c, [])
        = (result, { s with stage := .finished r'.isFinished }, c',
            events.filter Opening.Event.isCall) ∧
      Opening.Orderly events result := by
  constructor
  · intro e s₁ hbegin
    obtain rfl := Opening.begin_error hbegin
    refine ⟨rfl, ?_, ?_⟩
    · rw [Opening.decryptAll, hbegin]
    · rw [Opening.decryptAll, hbegin]
  · intro s₁ hbegin
    obtain ⟨source, hstage, -, rfl⟩ := Opening.begin_ok hbegin
    obtain ⟨events, result, r', c', hdrain, hrun, hprotocol, hnoted⟩ :=
      Opening.exists_protocol_drain s.smith.suite k 0 (.create source (s.channel fmk) s.lenient) c
    have hall := Opening.decryptAll_eq hbegin rfl hdrain
    have hcalls := Opening.decryptAll_eq hbegin rfl (hnoted [])
    exact ⟨source, events, result, r', c', hstage, hrun, hall, hcalls, hprotocol.orderly⟩

/-- Two sealed entries are passed on whole: two are opened, the same two are
closed, and nothing fails. -/
theorem twoEntries_passed_on :
    ∃ (run : SealedRun Unit) (s s' : Opening Unit) (events : List Opening.Event),
      run.entries = twoEntries ∧
      Opening.create (.plain [1]) false (.ofBytes run.container) = .ok s ∧
      s.decryptAll run.fmk Consumer.memory.noting ([], [])
        = (.ok 2, s', twoEntries, events.filter Opening.Event.isCall) ∧
      s'.stage.phase = .finished ∧ (events.filterMap Opening.Event.opening?).length = 2 ∧
      events.filterMap Opening.Event.closing? = events.filterMap Opening.Event.opening? ∧
      events.filterMap Opening.Event.failure? = [] := by
  obtain ⟨run, s, source, r, hentries, hcreate, -, hbegin, hwhole⟩ :=
    SealedRun.exists_twoEntries_decrypted
  obtain ⟨-, hpassed⟩ := entries_passed_on s run.fmk .memory []
  obtain ⟨_, events, result, r', c', -, -, hall, hcalls, horderly⟩ := hpassed _ hbegin
  obtain ⟨rfl, hrest⟩ := Prod.mk.inj (hall.symm.trans hwhole)
  obtain ⟨-, rfl⟩ := Prod.mk.inj hrest
  obtain ⟨-, hcount, hclosed⟩ := (horderly.answered 2).mp rfl
  exact ⟨run, s, _, events, hentries, hcreate, hcalls, rfl, hcount.symm, hclosed,
    horderly.unfailed 2 rfl⟩

end Lockbox
