import Lockbox.Proofs.Opened
import Lockbox.Proofs.Progress
/-!
# Lockbox — an entry is delivered once

What becomes of the data of an entry if sinks may fail. `Placed` is where a
reader of a payload that was written stands between two calls: which entries
it has announced, and whether the last of them is untouched or has been
begun. An untouched entry is delivered from its start, one that was begun is
not delivered again (`entry_delivered_once`).

A reader takes an entry for untouched as long as nothing of it is counted,
and it counts a frame only once a sink has taken it. So a first frame that
its sink refuses is lost, and the entry is delivered again without it
(`refused_entry_resumed`); runs in which this does not happen are
`Unspoilt`.
-/

namespace Lockbox

/-- A sink does not take more than it has room for. -/
theorem Sink.write_limited {n : Nat} {b : Bytes} (h : n < b.length) :
    ∃ s, (limited n).write b = (.error (.other "sink full"), s) := by
  have hne : b ≠ [] := fun hb => by simp [hb] at h
  have htaken : (b.take (n - 0)).length < b.length := by
    rw [List.length_take]
    omega
  refine ⟨((limited n).write b).2, Prod.ext ?_ rfl⟩
  rw [write, if_neg hne]
  exact if_pos htaken

/-- A script does not begin with data. -/
theorem Frame.script_cons {entries : List (FileInfo × Bytes)} (h : Storable entries) :
    ∃ f more, script entries = f :: more ∧ ∀ chunk, f ≠ .data chunk := by
  cases entries with
  | nil => exact ⟨.finish, [], rfl, by simp⟩
  | cons e rest =>
    obtain ⟨name, hname⟩ := h e List.mem_cons_self
    rw [script, ofEntries_cons, announce_of_ok hname]
    exact ⟨.file name e.1.size, _, rfl, by simp⟩

namespace Payload

namespace Writer

variable {S : Suite} {channel : Channel}

/-- A writer that was created over the channel and given these entries, their
data in pieces of any size. -/
inductive Written (S : Suite) (channel : Channel) : List (FileInfo × Bytes) → Writer → Prop where
  | create {sink : Sink} (h : sink.accepted = []) : Written S channel [] (create sink channel)
  | declare {entries : List (FileInfo × Bytes)} {w w' : Writer} {name : String} {size : UInt64}
      (h : Written S channel entries w) (hw : w.declare S name size = (.ok (), w')) :
      Written S channel (entries ++ [(⟨name, size⟩, [])]) w'
  | write {entries : List (FileInfo × Bytes)} {w w' : Writer} {data : Bytes}
      (h : Written S channel entries w) (hw : w.write S data = (.ok (), w')) :
      Written S channel (handOver data entries) w'

/-- What was written without a failure is what the writer was given. -/
theorem Written.holds {entries : List (FileInfo × Bytes)} {w : Writer}
    (h : Written S channel entries w) : Holds S entries w ∧ w.channel = channel := by
  induction h with
  | create h => exact ⟨holds_create h channel, rfl⟩
  | declare h hw ih =>
    obtain ⟨_, -, -, -, hwrote, -⟩ := declare_ok hw
    exact ⟨ih.1.declare hw, hwrote.channel.trans ih.2⟩
  | write h hw ih =>
    obtain ⟨_, _, -, -, -, hwrote, -⟩ := write_ok hw
    exact ⟨ih.1.write hw, hwrote.channel.trans ih.2⟩

/-- Any data can be written as the one entry of a payload. -/
theorem exists_written (S : Suite) (channel : Channel) {name : String} {stored : EntryName}
    (hstored : EntryName.ofText name = .ok stored) {size : UInt64} {data : Bytes}
    (hsize : data.length = size.toNat) (hroom : data.length + 2 < UInt64.size) :
    ∃ w dest, Written S channel [(⟨name, size⟩, data)] w ∧ w.close S = .ok dest := by
  have hready : (create .unlimited channel).Ready (1 + (1 + size.toNat)) :=
    ⟨Sink.unbounded_unlimited, rfl, rfl, by show 0 + _ < _; omega⟩
  obtain ⟨w₁, hw₁, hamid₁, -⟩ := hready.declare (S := S) hstored (by simp [create])
  obtain ⟨w₂, hw₂, hamid₂, -⟩ := hamid₁.write (S := S) (Nat.le_of_eq hsize)
  rw [hsize, Nat.sub_self] at hamid₂
  obtain ⟨dest, hclose, -⟩ := hamid₂.ready.close (S := S)
  exact ⟨w₂, dest, ((Written.create rfl).declare hw₁).write hw₂, hclose⟩

end Writer

namespace Reader

variable {S : Suite} {r r' : Reader}

/-! ## Runs

A run asks for entries and for their data in any order, with any sink for
each call. What it announces is told apart from where it leads, so that both
can be followed call by call. -/

/-- What can be asked of a reader. -/
inductive Request where
  | next
  | read (sink : Sink)

/-- The reader after a request. -/
def Request.apply (S : Suite) (r : Reader) : Request → Reader
  | .next => (r.next S).2
  | .read sink => (r.readInto S sink).2.1

/-- The entry that the answer to a request announces, if any. -/
def Request.announced (S : Suite) (r : Reader) : Request → List FileInfo
  | .next =>
    match (r.next S).1 with
    | .ok (some info) => [info]
    | _ => []
  | .read _ => []

/-- The reader after requests, one after the other. -/
def after (S : Suite) : List Request → Reader → Reader
  | [], r => r
  | request :: requests, r => after S requests (request.apply S r)

/-- The entries that are announced on the way. -/
def announced (S : Suite) : List Request → Reader → List FileInfo
  | [], _ => []
  | request :: requests, r => request.announced S r ++ announced S requests (request.apply S r)

/-- Nothing of the announced entry is counted as read. -/
def Untouched (r : Reader) : Prop := ∃ info, r.cursor = .pending info info.size.toNat

/-- The sink fails on the first frame of an entry. -/
def Spoils (S : Suite) (sink : Sink) (r : Reader) : Prop :=
  r.Untouched ∧ ∃ chunk r₁ e sink₁, r.readFrame S = (.ok (.data chunk), r₁) ∧
    sink.write chunk.val = (.error e, sink₁)

/-- In this run, no sink fails on the first frame of an entry. -/
def Unspoilt (S : Suite) : List Request → Reader → Prop
  | [], _ => True
  | request :: requests, r =>
    (∀ sink, request = .read sink → ¬ Spoils S sink r) ∧ Unspoilt S requests (request.apply S r)

theorem not_spoils_of_unbounded {sink : Sink} (h : sink.Unbounded) : ¬ Spoils S sink r := by
  rintro ⟨-, chunk, r₁, e, sink₁, -, hwrite⟩
  obtain ⟨sink₂, hwrite₂, -⟩ := h.write chunk.val
  exact absurd (Prod.mk.inj (hwrite.symm.trans hwrite₂)).1 (by simp)

/-! ## What is refused

What a reader answers depends on its cursor first. A call at the wrong time
is refused before anything is read; these lemmas are the branches, and the
rest of the module goes by them. -/

/-- **An entry that is not untouched is not delivered:** the call comes at
the wrong time, and neither the reader nor the sink is changed. -/
theorem readInto_of_touched (h : ¬ r.Untouched) (hsound : r.failed = false) (sink : Sink) :
    ∃ f, r.readInto S sink = (.error (.sequence f), r, sink) := by
  rw [readInto, if_neg (by simp [hsound])]
  cases hcursor : r.cursor with
  | start => exact ⟨_, rfl⟩
  | consumed => exact ⟨_, rfl⟩
  | ended => exact ⟨_, rfl⟩
  | pending info remaining =>
    have hne : remaining ≠ info.size.toNat := fun heq => h ⟨info, heq ▸ hcursor⟩
    exact ⟨.alreadyRead, by simp only [ne_eq, hne, not_false_eq_true, if_true]⟩

/-- **An untouched entry is poured out,** and then the sink is flushed. -/
theorem readInto_of_untouched {info : FileInfo} (hsound : r.failed = false)
    (hcursor : r.cursor = .pending info info.size.toNat) {sink sink' : Sink}
    {result : Except Error Unit}
    (hpour : pour S info info.size.toNat r sink = (result, r', sink')) :
    r.readInto S sink =
      match result with
      | .error e => (.error e, r', sink')
      | .ok () =>
        match sink'.flush with
        | .error e => (.error (.io e), r', sink')
        | .ok () => (.ok info.size, { r' with cursor := .consumed }, sink') := by
  rw [readInto, if_neg (by simp [hsound]), hcursor]
  simp only [ne_eq, not_true, if_false, hpour]
  cases result with
  | error e => rfl
  | ok u => rfl

/-- An entry of which less is left than its size has been read from. -/
theorem touched_of_lt {info : FileInfo} {n : Nat} (hcursor : r.cursor = .pending info n)
    (hlt : n < info.size.toNat) : ¬ r.Untouched := by
  rintro ⟨info', huntouched⟩
  obtain ⟨rfl, rfl⟩ := Cursor.pending.inj (huntouched.symm.trans hcursor)
  exact Nat.lt_irrefl _ hlt

/-- Between two entries, and where nothing of the last one is left, the next
frame is read. -/
theorem next_eq_advance (hsound : r.failed = false)
    (h : r.cursor = .start ∨ r.cursor = .consumed ∨ ∃ info, r.cursor = .pending info 0) :
    r.next S = r.advance S := by
  rw [next, if_neg (by simp [hsound])]
  obtain hc | hc | ⟨info, hc⟩ := h
  · rw [hc]
  · rw [hc]
  · rw [hc]

/-- Where something of an entry is left, there is no way to the next. -/
theorem next_of_unread {info : FileInfo} {n : Nat} (hsound : r.failed = false)
    (hcursor : r.cursor = .pending info n) (hn : 0 < n) :
    r.next S = (.error (.sequence (.unread info.name n)), r) := by
  obtain ⟨m, rfl⟩ := Nat.exists_eq_add_one.mpr hn
  rw [next, if_neg (by simp [hsound]), hcursor]

end Reader

namespace Supply

open Reader (pour readInto_of_touched readInto_of_untouched touched_of_lt next_eq_advance
  next_of_unread)

variable {S : Suite} {channel : Channel} {frames : List Frame} {p : Supply S channel frames}
  {past todo : List (FileInfo × Bytes)} {r r' : Reader}

/-! ## Pouring into a sink that may fail

Data are poured frame by frame, and a sink may give up at any of them. The
induction is on the pouring itself: each turn has read one frame and lowered
the count of what is left, or it was the last. -/

/-- A frame of data is offered to the sink, and the rest only if it takes
all of it. -/
theorem pour_of_data (info : FileInfo) {remaining : Nat} {chunk : Chunk}
    (hr : r.readFrame S = (.ok (.data chunk), r')) (hfit : chunk.val.length ≤ remaining)
    (sink : Sink) :
    pour S info remaining r sink =
      match sink.write chunk.val with
      | (.error e, sink) => (.error (.io e), r', sink)
      | (.ok (), sink) => pour S info (remaining - chunk.val.length)
          { r' with cursor := .pending info (remaining - chunk.val.length) } sink := by
  have hpos := chunk.property.1
  rw [pour, if_neg (by omega), hr]
  rcases hwrite : sink.write chunk.val with ⟨e | u, sink₁⟩ <;>
    simp only [if_neg (Nat.not_lt.mpr hfit), hwrite]

/-- **What a sink gets of an entry is a beginning of its data.** Either it
takes all, or it fails, and then something is still counted as unread; as
much as before only if it failed at once. -/
theorem Feeds.pour_any (hno : ∀ e, ¬ p.Blames e) {info : FileInfo} {data : Bytes}
    {more : List Frame} (sink : Sink) (h : p.Feeds r)
    (hf : frames.drop r.counter = Frame.ofData data ++ more)
    (hcursor : r.cursor = .pending info data.length) :
    ∃ result r' sink' got, pour S info data.length r sink = (result, r', sink') ∧
      sink'.accepted = sink.accepted ++ got ∧ got <+: data ∧ p.Feeds r' ∧
      ((result = .ok () ∧ got = data ∧ frames.drop r'.counter = more ∧
          r'.cursor = .pending info 0) ∨
        ∃ e left remaining, result = .error (.io e) ∧
          frames.drop r'.counter = Frame.ofData left ++ more ∧
          r'.cursor = .pending info remaining ∧ 0 < remaining ∧ remaining ≤ data.length ∧
          (remaining = data.length → ∃ chunk r₁ sink₁,
            r.readFrame S = (.ok (.data chunk), r₁) ∧
            sink.write chunk.val = (.error e, sink₁))) := by
  -- on the length of the data, since a frame takes a whole chunk of them
  induction hn : data.length using Nat.strongRecOn generalizing data r sink with
  | ind n ih =>
    subst hn
    by_cases hne : data = []
    · subst hne
      rw [Frame.ofData_nil, List.nil_append] at hf
      refine ⟨.ok (), r, sink, [], ?_, by simp, List.nil_prefix, h, .inl ⟨rfl, rfl, hf, hcursor⟩⟩
      rw [pour, if_pos List.length_nil]
    obtain ⟨chunk, hchunk, hdata⟩ := Frame.ofData_cons hne
    have hpos := List.length_pos_iff.mpr hne
    have htotal : chunk.val ++ data.drop chunkSize = data := by
      rw [hchunk, List.take_append_drop]
    rw [hdata, List.cons_append] at hf
    obtain ⟨r₁, hr₁, hfeeds, hdrop, hcursor₁, -⟩ | ⟨e, -, -, hblame, -⟩ := h.step hf
    · have hlength := congrArg List.length htotal
      rw [List.length_append] at hlength
      have hfit : chunk.val.length ≤ data.length := by omega
      have hpour := pour_of_data info hr₁ hfit sink
      cases hwrite : sink.write chunk.val with
      | mk result sink₁ =>
        rw [hwrite] at hpour
        cases result with
        | error e =>
          -- the frame was read, but the sink did not take all of it
          obtain ⟨n, hn⟩ := Sink.accepted_write sink chunk.val
          rw [hwrite] at hn
          refine ⟨_, r₁, sink₁, chunk.val.take n, hpour, hn, ?_, hfeeds, .inr ⟨e, _, data.length, rfl,
            hdrop, hcursor₁.trans hcursor, hpos, Nat.le_refl _, fun _ => ⟨chunk, r₁, sink₁, hr₁, hwrite⟩⟩⟩
          exact (List.take_prefix _ _).trans ⟨_, htotal⟩
        | ok u =>
          have hless : (data.drop chunkSize).length < data.length := Chunk.length_drop_lt hne
          have hleft : data.length - chunk.val.length = (data.drop chunkSize).length := by omega
          simp only [hleft] at hpour
          obtain ⟨result, r', sink', got, hrest, hgot, hprefix, hfeeds', hend⟩ :=
            ih _ hless sink₁
              (hfeeds.withCursor (.pending info (data.drop chunkSize).length)) hdrop rfl rfl
          refine ⟨result, r', sink', chunk.val ++ got, hpour.trans hrest, ?_, ?_, hfeeds', ?_⟩
          · rw [hgot, Sink.accepted_write_of_ok hwrite, List.append_assoc]
          · exact htotal ▸ (List.prefix_append_right_inj _).mpr hprefix
          · obtain ⟨hok, hall, hmore, hcur⟩ | ⟨e, left, remaining, he, hleft, hcur, hsome, hle, -⟩ := hend
            · exact .inl ⟨hok, by rw [hall, htotal], hmore, hcur⟩
            · exact .inr ⟨e, left, remaining, he, hleft, hcur, hsome, by omega, fun heq => by omega⟩
    · exact absurd hblame (hno e)

/-! ## Where a reader stands

The script is divided where the reader stands in it: `past` was announced
and `todo` comes next. Of the entries in `past` only the last one can be
untouched, since the next is announced only when nothing of it is
left. -/

/-- Where a reader stands that has announced the entries `past` of a script,
and has `todo` before it. -/
inductive Placed (p : Supply S channel frames) :
    (past todo : List (FileInfo × Bytes)) → (r : Reader) → Prop where
  | start {todo : List (FileInfo × Bytes)} {r : Reader} (h : p.Feeds r) (hc : r.cursor = .start)
      (hf : frames.drop r.counter = Frame.script todo) : Placed p [] todo r
  | untouched {past todo : List (FileInfo × Bytes)} {r : Reader} {info : FileInfo} {data : Bytes}
      (h : p.Feeds r) (hc : r.cursor = .pending info info.size.toNat)
      (hlen : data.length = info.size.toNat)
      (hf : frames.drop r.counter = Frame.ofData data ++ Frame.script todo) :
      Placed p (past ++ [(info, data)]) todo r
  | begun {past todo : List (FileInfo × Bytes)} {r : Reader} {info : FileInfo} {remaining : Nat}
      {left : Bytes} (h : p.Feeds r) (hc : r.cursor = .pending info remaining)
      (hlt : remaining < info.size.toNat) (hleft : remaining = 0 → left = [])
      (hf : frames.drop r.counter = Frame.ofData left ++ Frame.script todo) : Placed p past todo r
  | consumed {past todo : List (FileInfo × Bytes)} {r : Reader} (h : p.Feeds r)
      (hc : r.cursor = .consumed) (hf : frames.drop r.counter = Frame.script todo) :
      Placed p past todo r
  | ended {past : List (FileInfo × Bytes)} {r : Reader} (hsound : r.failed = false)
      (hc : r.cursor = .ended) : Placed p past [] r

/-- A reader that stands in its place has not failed. -/
theorem Placed.sound (h : Placed p past todo r) : r.failed = false := by
  cases h with
  | start h | untouched h | begun h | consumed h => exact h.sound
  | ended hsound => exact hsound

/-- An entry can be untouched only if it is the last that was announced. -/
theorem Placed.of_untouched (h : Placed p past todo r) (hr : r.Untouched) :
    ∃ before info data, past = before ++ [(info, data)] ∧ p.Feeds r ∧
      r.cursor = .pending info data.length ∧ data.length = info.size.toNat ∧
      frames.drop r.counter = Frame.ofData data ++ Frame.script todo := by
  cases h with
  | @untouched before _ _ info data h hc hlen hf =>
    exact ⟨before, info, data, rfl, h, by rw [hlen, hc], hlen, hf⟩
  | start _ hc | consumed _ hc | ended _ hc =>
    obtain ⟨info, hcursor⟩ := hr
    exact absurd (hcursor.symm.trans hc) (by simp)
  | begun _ hc hlt => exact absurd hr (touched_of_lt hc hlt)

/-- What becomes of asking for the next entry: it is announced, or the reader
stays with the entries it has announced, integrity is not in doubt, and
nothing becomes untouched that was not. -/
inductive Moved (p : Supply S channel frames) (past todo : List (FileInfo × Bytes)) (r : Reader) :
    Except Error (Option FileInfo) → Reader → Prop where
  | announced {e : FileInfo × Bytes} {rest : List (FileInfo × Bytes)} {r' : Reader}
      (htodo : todo = e :: rest) (h : Placed p (past ++ [e]) rest r') :
      Moved p past todo r (.ok (some e.1)) r'
  | stayed {result : Except Error (Option FileInfo)} {r' : Reader}
      (hnone : ∀ info, result ≠ .ok (some info)) (hintegrity : ∀ f, result ≠ .error (.integrity f))
      (h : Placed p past todo r') (huntouched : r'.Untouched → r.Untouched) :
      Moved p past todo r result r'

/-- Reading on where the next entries are `todo`. -/
theorem Feeds.advance_moved (hno : ∀ e, ¬ p.Blames e) (hstorable : Storable todo)
    (hcomplete : Item.Complete todo) (h : p.Feeds r)
    (hf : frames.drop r.counter = Frame.script todo) :
    Moved p past todo r (r.advance S).1 (r.advance S).2 := by
  cases todo with
  | nil =>
    obtain ⟨r', hr', hsound, hcursor, -⟩ | ⟨e, -, -, hblame, -⟩ := advance_finish h hf
    · rw [hr']
      refine .stayed (by simp) (by simp) (.ended hsound hcursor) ?_
      rintro ⟨info, huntouched⟩
      exact absurd (huntouched.symm.trans hcursor) (by simp)
    · exact absurd hblame (hno e)
  | cons e rest =>
    obtain ⟨⟨name, size⟩, data⟩ := e
    obtain ⟨stored, hstored⟩ := hstorable _ List.mem_cons_self
    have hname : stored.val = name := EntryName.ofText_eq_ok_iff.mp hstored
    have hf' : frames.drop r.counter
        = .file stored size :: (Frame.ofData data ++ Frame.script rest) := by
      rw [hf, Frame.script, Frame.ofEntries_cons, Frame.announce_of_ok hstored]
      simp [Frame.script]
    obtain ⟨r', hr', hfeeds, hdrop, hcursor, -⟩ | ⟨e, -, -, hblame, -⟩ := advance_script h hf'
    · rw [hname] at hr' hcursor
      rw [hr']
      exact .announced rfl (.untouched hfeeds hcursor (hcomplete _ List.mem_cons_self) hdrop)
    · exact absurd hblame (hno e)

/-- **What a call for the next entry keeps.** -/
theorem Placed.next (hno : ∀ e, ¬ p.Blames e) (hstorable : Storable todo)
    (hcomplete : Item.Complete todo) (h : Placed p past todo r) :
    Moved p past todo r (r.next S).1 (r.next S).2 := by
  have hsound := h.sound
  -- as long as something is left of an entry, the reader stays
  have hunread : ∀ (info : FileInfo) (n : Nat), r.cursor = .pending info (n + 1) →
      Moved p past todo r (r.next S).1 (r.next S).2 := fun info n hcursor => by
    rw [next_of_unread hsound hcursor (Nat.succ_pos n)]
    exact .stayed (by simp) (by simp) h id
  cases h with
  | start h hc hf =>
    rw [next_eq_advance hsound (.inl hc)]
    exact h.advance_moved hno hstorable hcomplete hf
  | consumed h hc hf =>
    rw [next_eq_advance hsound (.inr (.inl hc))]
    exact h.advance_moved hno hstorable hcomplete hf
  | @untouched past _ _ info data h hc hlen hf =>
    cases hsize : info.size.toNat with
    | zero =>
      rw [hsize] at hc hlen
      rw [List.eq_nil_of_length_eq_zero hlen, Frame.ofData_nil, List.nil_append] at hf
      rw [next_eq_advance hsound (.inr (.inr ⟨info, hc⟩))]
      exact h.advance_moved hno hstorable hcomplete hf
    | succ n => exact hunread info n (hsize ▸ hc)
  | @begun past _ _ info remaining left h hc hlt hleft hf =>
    cases remaining with
    | zero =>
      rw [hleft rfl, Frame.ofData_nil, List.nil_append] at hf
      rw [next_eq_advance hsound (.inr (.inr ⟨info, hc⟩))]
      exact h.advance_moved hno hstorable hcomplete hf
    | succ n => exact hunread info n hc
  | ended _ hc =>
    rw [Reader.next, if_neg (by simp [hsound]), hc]
    exact .stayed (by simp) (by simp) (.ended hsound hc) id

/-- **What a call for data keeps, and what it delivers.** The sink gets a
beginning of the data of the last entry that was announced, and integrity is
not in doubt. If the sink does not fail on a first frame, the reader stays
placed, and once a frame was read nothing is untouched. -/
theorem Placed.readInto (hno : ∀ e, ¬ p.Blames e) (h : Placed p past todo r) (sink : Sink) :
    ∃ result r' sink' got, r.readInto S sink = (result, r', sink') ∧
      sink'.accepted = sink.accepted ++ got ∧ got <+: (past.getLast?.map Prod.snd).getD [] ∧
      (∀ f, result ≠ .error (.integrity f)) ∧
      (¬ Reader.Spoils S sink r →
        Placed p past todo r' ∧ (r.counter < r'.counter → ¬ r'.Untouched)) := by
  by_cases huntouched : r.Untouched
  · obtain ⟨before, info, data, rfl, hfeeds, hcursor, hlen, hf⟩ := h.of_untouched huntouched
    have hlast : (((before ++ [(info, data)]).getLast?.map Prod.snd).getD []) = data := by simp
    obtain ⟨result, r₁, sink₁, got, hpour, hgot, hprefix, hfeeds₁, hend⟩ :=
      hfeeds.pour_any hno sink hf hcursor
    rw [hlen] at hpour hcursor
    have hread := readInto_of_untouched hfeeds.sound hcursor hpour
    rw [hlast]
    obtain ⟨rfl, -, hmore, hcur⟩ | ⟨e, left, remaining, rfl, hrest, hcur, hsome, hle, hfirst⟩ := hend
    · cases hflush : sink₁.flush with
      | ok u =>
        simp only [hflush] at hread
        refine ⟨_, _, _, got, hread, hgot, hprefix, by simp, fun _ =>
          ⟨.consumed (hfeeds₁.withCursor _) rfl hmore, fun _ => ?_⟩⟩
        rintro ⟨info, hcur'⟩
        exact absurd hcur' (by simp)
      | error e =>
        simp only [hflush] at hread
        refine ⟨_, _, _, got, hread, hgot, hprefix, by simp, fun _ => ?_⟩
        by_cases hempty : data = []
        -- there was nothing to deliver, so no frame was read either
        · subst hempty
          have hzero : info.size.toNat = 0 := hlen.symm
          rw [Frame.ofData_nil, List.nil_append] at hf
          have hsame := congrArg List.length (hf.trans hmore.symm)
          have hscript := congrArg List.length hmore
          have hpos : 0 < (Frame.script todo).length := by simp [Frame.script]
          rw [List.length_drop, List.length_drop] at hsame
          rw [List.length_drop] at hscript
          exact ⟨.untouched hfeeds₁ (hzero ▸ hcur) hlen (by simpa using hmore), fun hlt => by omega⟩
        · have hpos := List.length_pos_iff.mpr hempty
          have hlt : 0 < info.size.toNat := by omega
          exact ⟨.begun hfeeds₁ hcur hlt (fun _ => rfl) (by simpa using hmore),
            fun _ => touched_of_lt hcur hlt⟩
    · refine ⟨_, _, _, got, hread, hgot, hprefix, by simp, fun hspoils => ?_⟩
      have hne : remaining ≠ data.length := fun heq => by
        obtain ⟨chunk, r₂, sink₂, hr₂, hwrite⟩ := hfirst heq
        exact hspoils ⟨huntouched, chunk, r₂, e, sink₂, hr₂, hwrite⟩
      have hlt : remaining < info.size.toNat := by omega
      exact ⟨.begun hfeeds₁ hcur hlt (fun heq => by omega) hrest, fun _ => touched_of_lt hcur hlt⟩
  · obtain ⟨f, hread⟩ := readInto_of_touched huntouched h.sound sink
    exact ⟨_, _, _, [], hread, by simp, List.nil_prefix, by simp,
      fun _ => ⟨h, fun hlt => absurd hlt (Nat.lt_irrefl _)⟩⟩

/-! ## Runs -/

/-- **What a run keeps.** It announces the next entries in their order. -/
theorem Placed.after (hno : ∀ e, ¬ p.Blames e) (hstorable : Storable todo)
    (hcomplete : Item.Complete todo) (h : Placed p past todo r) {requests : List Reader.Request}
    (hrun : Reader.Unspoilt S requests r) :
    ∃ new rest, todo = new ++ rest ∧ Reader.announced S requests r = new.map Prod.fst ∧
      Placed p (past ++ new) rest (Reader.after S requests r) := by
  induction requests generalizing past todo r with
  | nil => exact ⟨[], todo, rfl, rfl, by rwa [List.append_nil]⟩
  | cons request requests ih =>
    obtain ⟨hfirst, hlater⟩ := hrun
    rw [Reader.announced, Reader.after]
    cases request with
    | next =>
      have hmoved := h.next hno hstorable hcomplete
      rw [Reader.Request.apply] at hlater ⊢
      rw [Reader.Request.announced]
      generalize (r.next S).1 = result, (r.next S).2 = r' at hmoved hlater ⊢
      cases hmoved with
      | @announced e rest _ htodo hplaced =>
        subst htodo
        obtain ⟨new, rest', rfl, hannounced, hplaced'⟩ :=
          ih (fun g hg => hstorable g (List.mem_cons_of_mem _ hg))
            (fun g hg => hcomplete g (List.mem_cons_of_mem _ hg)) hplaced hlater
        rw [List.append_assoc] at hplaced'
        exact ⟨e :: new, rest', rfl, by rw [hannounced]; rfl, hplaced'⟩
      | stayed hnone _ hplaced _ =>
        obtain ⟨new, rest, htodo, hannounced, hplaced'⟩ := ih hstorable hcomplete hplaced hlater
        refine ⟨new, rest, htodo, ?_, hplaced'⟩
        split
        · exact absurd rfl (hnone _)
        · exact hannounced
    | read sink =>
      obtain ⟨result, r', sink', got, hread, -, -, -, hkeeps⟩ := h.readInto hno sink
      rw [Reader.Request.apply, hread] at hlater ⊢
      exact ih hstorable hcomplete (hkeeps (hfirst sink rfl)).1 hlater

/-- **Where nothing is untouched, nothing becomes so** until the next entry
is announced, whatever the sinks do. -/
theorem Placed.after_touched (hno : ∀ e, ¬ p.Blames e) (hstorable : Storable todo)
    (hcomplete : Item.Complete todo) (h : Placed p past todo r) (htouched : ¬ r.Untouched)
    {requests : List Reader.Request} (hnone : Reader.announced S requests r = []) :
    Placed p past todo (Reader.after S requests r) ∧
      ¬ (Reader.after S requests r).Untouched := by
  induction requests generalizing r with
  | nil => exact ⟨h, htouched⟩
  | cons request requests ih =>
    rw [Reader.announced, List.append_eq_nil_iff] at hnone
    obtain ⟨hsilent, hlater⟩ := hnone
    rw [Reader.after]
    cases request with
    | next =>
      have hmoved := h.next hno hstorable hcomplete
      rw [Reader.Request.apply] at hlater ⊢
      rw [Reader.Request.announced] at hsilent
      generalize (r.next S).1 = result, (r.next S).2 = r' at hmoved hlater hsilent ⊢
      cases hmoved with
      | announced => exact absurd hsilent (by simp)
      | stayed _ _ hplaced huntouched => exact ih hplaced (fun hr => htouched (huntouched hr)) hlater
    | read sink =>
      obtain ⟨f, hread⟩ := readInto_of_touched htouched h.sound (S := S) sink
      rw [Reader.Request.apply, hread] at hlater ⊢
      exact ih h htouched hlater

/-! ## What becomes of a first frame that is lost

A frame that its sink refuses has been read, but it is not counted: the
reader has fewer data before it than it counts. -/

/-- **Data that are fewer than counted end too soon.** The sink gets them
all, and then another frame comes than one of data. -/
theorem Feeds.pour_short (hno : ∀ e, ¬ p.Blames e) (info : FileInfo) {remaining : Nat}
    {left : Bytes} {f : Frame} {more : List Frame} {sink : Sink} (h : p.Feeds r)
    (hf : frames.drop r.counter = Frame.ofData left ++ f :: more) (hother : ∀ chunk, f ≠ .data chunk)
    (hlt : left.length < remaining) (hsink : sink.Unbounded) :
    ∃ r' sink', pour S info remaining r sink = (.error (.integrity .shortEntry), r', sink') ∧
      sink'.accepted = sink.accepted ++ left := by
  induction hn : left.length using Nat.strongRecOn generalizing left remaining r sink with
  | ind n ih =>
    subst hn
    by_cases hne : left = []
    · subst hne
      rw [Frame.ofData_nil, List.nil_append] at hf
      obtain ⟨r₁, hr₁, -⟩ | ⟨e, -, -, hblame, -⟩ := h.step hf
      · refine ⟨{ r₁ with failed := true }, sink, ?_, by simp⟩
        rw [pour, if_neg (by omega), hr₁]
        cases f with
        | data chunk => exact absurd rfl (hother chunk)
        | file name size => rfl
        | finish => rfl
      · exact absurd hblame (hno e)
    obtain ⟨chunk, hchunk, hdata⟩ := Frame.ofData_cons hne
    have htotal : chunk.val ++ left.drop chunkSize = left := by
      rw [hchunk, List.take_append_drop]
    have hlength := congrArg List.length htotal
    rw [List.length_append] at hlength
    rw [hdata, List.cons_append] at hf
    obtain ⟨r₁, hr₁, hfeeds, hdrop, -⟩ | ⟨e, -, -, hblame, -⟩ := h.step hf
    · obtain ⟨sink₁, hwrite, hsink₁, haccepted⟩ := hsink.write chunk.val
      have hfit : chunk.val.length ≤ remaining := by omega
      have hpour := pour_of_data info hr₁ hfit sink
      rw [hwrite] at hpour
      obtain ⟨r', sink', hrest, haccepted'⟩ := ih _ (Chunk.length_drop_lt hne)
        (hfeeds.withCursor (.pending info (remaining - chunk.val.length))) hdrop
        (show (left.drop chunkSize).length < remaining - chunk.val.length by omega) hsink₁ rfl
      exact ⟨r', sink', hpour.trans hrest, by
        rw [haccepted', haccepted, List.append_assoc, htotal]⟩
    · exact absurd hblame (hno e)

end Supply

/-! ## Payloads that were written

What was said of a supply of frames holds of every payload that a writer
closed, because its frames are those of a script. -/

section

variable {S : Suite} {channel : Channel} {entries : List (FileInfo × Bytes)} {w : Writer} {dest : Sink}
  {source : Source}

/-- A reader in front of a payload that was written is supplied with its
script, and there is nothing that it could blame. -/
theorem Writer.Written.feeds (hs : S.OpensSealed) (hz : S.InflatesDeflated) (hf : S.FitsFrames)
    (hwritten : Writer.Written S channel entries w) (hclose : w.close S = .ok dest)
    (hsteady : source.Steady) (hcontents : source.contents = dest.accepted) (allowTrailing : Bool) :
    ∃ p : Supply S channel (Frame.script entries), (∀ e, ¬ p.Blames e) ∧ Storable entries ∧
      Item.Complete entries ∧ p.Feeds (.create source channel allowTrailing) := by
  obtain ⟨hholds, rfl⟩ := hwritten.holds
  obtain ⟨haccepted, -, hcomplete, hstorable⟩ := hholds.close hclose
  let p := Supply.stored hs hz hf.countsSealed w.channel (Frame.script entries) []
  have hat : p.At 0 source := ⟨hsteady, by rw [List.append_nil, hcontents, haccepted]; rfl⟩
  exact ⟨p, Supply.not_blames_stored hs hz hf, hstorable, hcomplete,
    p.feeds_create hat allowTrailing⟩

end

end Payload

open Payload

section

variable {S : Suite} {channel : Channel} {entries : List (FileInfo × Bytes)} {w : Writer} {dest : Sink}
  {source : Source}

/-- **An entry is delivered at most once, and from its start.** For every
payload that was written, and every run of a reader over it in which no sink
fails on the first frame of an entry: the entries `past` were announced, in
their order, and whatever is called next,

* a call for the next entry or for data does not put integrity in doubt;
* whatever the sink of a call for data does, it gets a beginning of the data
  of the entry that was announced last, and nothing if there is none;
* once a call has read a frame of an entry, the first of which its sink did
  not fail on, every later call for data of this entry is out of turn, and
  neither the reader nor the sink is changed by it. -/
theorem entry_delivered_once (hs : S.OpensSealed) (hz : S.InflatesDeflated) (hf : S.FitsFrames)
    (hwritten : Writer.Written S channel entries w) (hclose : w.close S = .ok dest)
    (hsteady : source.Steady) (hcontents : source.contents = dest.accepted) (allowTrailing : Bool)
    {requests : List Reader.Request}
    (hrun : Reader.Unspoilt S requests (.create source channel allowTrailing)) {r : Reader}
    (hr : Reader.after S requests (.create source channel allowTrailing) = r) :
    ∃ past todo, entries = past ++ todo ∧
      Reader.announced S requests (.create source channel allowTrailing) = past.map Prod.fst ∧
      (∀ f, (r.next S).1 ≠ .error (.integrity f)) ∧
      ∀ sink, ∃ result r' sink' got, r.readInto S sink = (result, r', sink') ∧
        (∀ f, result ≠ .error (.integrity f)) ∧
        sink'.accepted = sink.accepted ++ got ∧ got <+: (past.getLast?.map Prod.snd).getD [] ∧
        (r.counter < r'.counter → ¬ Reader.Spoils S sink r →
          ∀ later, Reader.announced S later r' = [] → ∀ last,
            ∃ f, (Reader.after S later r').readInto S last
              = (.error (.sequence f), Reader.after S later r', last)) := by
  obtain ⟨p, hno, hstorable, hcomplete, hfeeds⟩ :=
    hwritten.feeds hs hz hf hclose hsteady hcontents allowTrailing
  have hstart : p.Placed [] entries _ := .start hfeeds rfl rfl
  obtain ⟨past, todo, rfl, hannounced, hplaced⟩ := hstart.after hno hstorable hcomplete hrun
  rw [hr, List.nil_append] at hplaced
  have hstorable' : Storable todo := fun e he => hstorable e (List.mem_append_right _ he)
  have hcomplete' : Item.Complete todo := fun e he => hcomplete e (List.mem_append_right _ he)
  refine ⟨past, todo, rfl, hannounced, fun f => ?_, fun sink => ?_⟩
  · have hmoved := hplaced.next hno hstorable' hcomplete'
    generalize (r.next S).1 = result, (r.next S).2 = r' at hmoved ⊢
    cases hmoved with
    | announced => simp
    | stayed _ hintegrity => exact hintegrity f
  · obtain ⟨result, r', sink', got, hread, hgot, hprefix, hintegrity, hkeeps⟩ :=
      hplaced.readInto hno sink
    refine ⟨result, r', sink', got, hread, hintegrity, hgot, hprefix,
      fun hcounter hspoils later hnone last => ?_⟩
    obtain ⟨hplaced', htouched⟩ := hkeeps hspoils
    obtain ⟨hlater, htouched'⟩ :=
      hplaced'.after_touched hno hstorable' hcomplete' (htouched hcounter) hnone
    exact Reader.readInto_of_touched htouched' hlater.sound last

/-- What any sink gets of an entry of one byte, once it was announced and
read, is a beginning of that byte. -/
theorem oneByte_delivered_once :
    ∃ (w : Writer) (dest : Sink) (r : Reader),
      Writer.Written .plain ⟨.zero 32, .zero 24, 2, ⟨false⟩⟩ [(⟨"one", 1⟩, [7])] w ∧
      w.close .plain = .ok dest ∧
      Reader.after .plain [.next, .read .unlimited]
        (.create (.ofBytes dest.accepted) ⟨.zero 32, .zero 24, 2, ⟨false⟩⟩ false) = r ∧
      (∀ f, (r.next .plain).1 ≠ .error (.integrity f)) ∧
      ∀ sink, ∃ result r' sink' got, r.readInto .plain sink = (result, r', sink') ∧
        (∀ f, result ≠ .error (.integrity f)) ∧
        sink'.accepted = sink.accepted ++ got ∧ got <+: [7] := by
  obtain ⟨w, dest, hwritten, hclose⟩ := Writer.exists_written .plain ⟨.zero 32, .zero 24, 2, ⟨false⟩⟩
    (show EntryName.ofText "one" = .ok ⟨"one", by decide, by decide⟩ from rfl)
    (show [(7 : UInt8)].length = (1 : UInt64).toNat from rfl) (by decide)
  have hrun : Reader.Unspoilt .plain [.next, .read .unlimited]
      (.create (.ofBytes dest.accepted) ⟨.zero 32, .zero 24, 2, ⟨false⟩⟩ false) := by
    refine ⟨by simp, fun sink hsink => ?_, trivial⟩
    cases hsink
    exact Reader.not_spoils_of_unbounded Sink.unbounded_unlimited
  obtain ⟨past, todo, hentries, -, hnext, hread⟩ := entry_delivered_once Suite.plain_opensSealed
    Suite.plain_inflatesDeflated Suite.plain_fitsFrames hwritten hclose
    (Source.steady_ofBytes _) (Source.contents_ofBytes _) false hrun rfl
  refine ⟨w, dest, _, hwritten, hclose, rfl, hnext, fun sink => ?_⟩
  obtain ⟨result, r', sink', got, hsink, hintegrity, hgot, hprefix, -⟩ := hread sink
  refine ⟨result, r', sink', got, hsink, hintegrity, hgot, hprefix.trans ?_⟩
  cases past with
  | nil => exact List.nil_prefix
  | cons e past =>
    obtain ⟨rfl, hrest⟩ := List.cons.inj hentries
    obtain ⟨rfl, -⟩ := List.append_eq_nil_iff.mp hrest.symm
    exact List.prefix_refl _

/-- **A first frame that its sink fails on is lost, and nothing tells.** In
such a run, let the entry that was announced last be untouched and have some
data. A call for its data with a sink that fails on the first frame reads the
frame and leaves the entry untouched, so that the data can be asked for
again; a sink that takes everything then gets what comes after the first
frame, and the reader finds the entry too short. -/
theorem refused_entry_resumed (hs : S.OpensSealed) (hz : S.InflatesDeflated) (hf : S.FitsFrames)
    (hwritten : Writer.Written S channel entries w) (hclose : w.close S = .ok dest)
    (hsteady : source.Steady) (hcontents : source.contents = dest.accepted) (allowTrailing : Bool)
    {requests : List Reader.Request}
    (hrun : Reader.Unspoilt S requests (.create source channel allowTrailing)) {r : Reader}
    (hr : Reader.after S requests (.create source channel allowTrailing) = r)
    (huntouched : r.Untouched) :
    ∃ before info data todo, entries = before ++ (info, data) :: todo ∧
      ∀ sink e sink₁, sink.write (data.take chunkSize) = (.error e, sink₁) →
        ∃ r₁, r.readInto S sink = (.error (.io e), r₁, sink₁) ∧ r₁.counter = r.counter + 1 ∧
          ∀ second : Sink, second.Unbounded →
            ∃ r₂ second', r₁.readInto S second = (.error (.integrity .shortEntry), r₂, second') ∧
              second'.accepted = second.accepted ++ data.drop chunkSize := by
  obtain ⟨p, hno, hstorable, hcomplete, hfeeds⟩ :=
    hwritten.feeds hs hz hf hclose hsteady hcontents allowTrailing
  have hstart : p.Placed [] entries _ := .start hfeeds rfl rfl
  obtain ⟨past, todo, rfl, hannounced, hplaced⟩ := hstart.after hno hstorable hcomplete hrun
  rw [hr, List.nil_append] at hplaced
  obtain ⟨before, info, data, rfl, hfeeds, hcursor, hlen, hscript⟩ := hplaced.of_untouched huntouched
  refine ⟨before, info, data, todo, by simp, fun sink e sink₁ hwrite => ?_⟩
  have hne : data ≠ [] := by
    rintro rfl
    exact absurd (congrArg Prod.fst hwrite) (by simp [Sink.write])
  obtain ⟨chunk, hchunk, hdata⟩ := Frame.ofData_cons hne
  have hfirst := hscript
  rw [hdata, List.cons_append] at hfirst
  obtain ⟨r₁, hr₁, hfeeds₁, hrest, hcursor₁, -⟩ | ⟨e, -, -, hblame, -⟩ := hfeeds.step hfirst
  · have hcounter : r₁.counter = r.counter + 1 := (hfeeds.readFrame_ok hr₁).2.2.1
    rw [← hchunk] at hwrite
    have hfit : chunk.val.length ≤ info.size.toNat := by
      rw [hchunk, List.length_take]
      omega
    have hpour := Supply.pour_of_data info hr₁ hfit sink
    rw [hwrite] at hpour
    rw [hlen] at hcursor
    refine ⟨r₁, Reader.readInto_of_untouched hfeeds.sound hcursor hpour, hcounter,
      fun second hsecond => ?_⟩
    -- the frames that are left begin behind the first, and as much is expected as before
    have hstorable' : Storable todo := fun e he => hstorable e (List.mem_append_right _ he)
    obtain ⟨f, more, hmore, hother⟩ := Frame.script_cons hstorable'
    rw [hmore] at hrest
    have hless := Chunk.length_drop_lt hne
    obtain ⟨r₂, second', hpour₂, haccepted⟩ := hfeeds₁.pour_short hno info hrest hother
      (show _ < info.size.toNat by omega) hsecond
    exact ⟨r₂, second', Reader.readInto_of_untouched hfeeds₁.sound (hcursor₁.trans hcursor) hpour₂,
      haccepted⟩
  · exact absurd hblame (hno e)

end

/-- Data that fill a frame, and three bytes more. -/
def overfull : Bytes := List.replicate chunkSize 0 ++ [120, 121, 122]

theorem length_overfull : overfull.length = (65539 : UInt64).toNat := by
  rw [overfull, List.length_append, List.length_replicate]
  rfl

theorem take_overfull : overfull.take chunkSize = List.replicate chunkSize 0 := by
  rw [overfull, List.take_left' List.length_replicate]

theorem drop_overfull : overfull.drop chunkSize = [120, 121, 122] := by
  rw [overfull, List.drop_left' List.length_replicate]

theorem not_prefix_overfull : ¬ [120, 121, 122] <+: overfull := by
  rintro ⟨more, hmore⟩
  have hzero : overfull[0]? = some 0 := by
    rw [overfull, List.getElem?_append_left (by rw [List.length_replicate]; decide),
      List.getElem?_replicate_of_lt (by decide)]
  rw [← hmore] at hzero
  exact absurd hzero (by simp)

/-- **An entry can be delivered twice, and not from its start.** Of an entry
of more than one frame, whose first call for data had a sink that took one
byte, the next call delivers the bytes behind the first frame, which are no
beginning of the data, and finds the entry too short. -/
theorem overfull_resumed :
    ∃ (w : Writer) (dest : Sink) (start r r₁ r₂ : Reader) (sink₁ second : Sink),
      Writer.Written .plain ⟨.zero 32, .zero 24, 2, ⟨false⟩⟩ [(⟨"a", 65539⟩, overfull)] w ∧
      w.close .plain = .ok dest ∧
      Reader.create (.ofBytes dest.accepted) ⟨.zero 32, .zero 24, 2, ⟨false⟩⟩ false = start ∧
      start.next .plain = (.ok (some ⟨"a", 65539⟩), r) ∧
      r.readInto .plain (.limited 1) = (.error (.io (.other "sink full")), r₁, sink₁) ∧
      r.counter < r₁.counter ∧
      r₁.readInto .plain .unlimited = (.error (.integrity .shortEntry), r₂, second) ∧
      second.accepted = [120, 121, 122] ∧ ¬ second.accepted <+: overfull := by
  have hname : EntryName.ofText "a" = .ok ⟨"a", by decide, by decide⟩ := rfl
  obtain ⟨w, dest, hwritten, hclose⟩ := Writer.exists_written .plain
    ⟨.zero 32, .zero 24, 2, ⟨false⟩⟩ hname length_overfull
    (by rw [length_overfull]; decide)
  have hsteady := Source.steady_ofBytes dest.accepted
  have hcontents := Source.contents_ofBytes dest.accepted
  obtain ⟨p, hno, -, -, hfeeds⟩ := hwritten.feeds Suite.plain_opensSealed Suite.plain_inflatesDeflated
    Suite.plain_fitsFrames hclose hsteady hcontents false
  have hscript : Frame.script [(⟨"a", 65539⟩, overfull)]
      = .file ⟨"a", by decide, by decide⟩ 65539 :: (Frame.ofData overfull ++ [.finish]) := by
    rw [Frame.script, Frame.ofEntries_cons, Frame.announce_of_ok hname, Frame.ofEntries_nil,
      List.append_nil, List.append_assoc, List.singleton_append]
  obtain ⟨r, hnext, -, -, hcursor, -⟩ | ⟨e, -, -, hblame, -⟩ :=
    Supply.next_script hfeeds (.inl rfl) hscript
  · obtain ⟨before, info, data, todo, hentries, hrefused⟩ := refused_entry_resumed
      Suite.plain_opensSealed Suite.plain_inflatesDeflated Suite.plain_fitsFrames hwritten hclose
      hsteady hcontents false (show Reader.Unspoilt .plain [.next] _ from ⟨by simp, trivial⟩)
      (congrArg Prod.snd hnext) ⟨_, hcursor⟩
    obtain rfl : data = overfull := by
      have hmem : (info, data) ∈ [((⟨"a", 65539⟩ : FileInfo), overfull)] := hentries ▸ by simp
      exact congrArg Prod.snd (List.mem_singleton.mp hmem)
    obtain ⟨sink₁, hwrite⟩ := Sink.write_limited (n := 1) (b := overfull.take chunkSize)
      (by rw [take_overfull, List.length_replicate]; decide)
    obtain ⟨r₁, hread, hcounter, hsecond⟩ := hrefused _ _ _ hwrite
    obtain ⟨r₂, second, hshort, haccepted⟩ := hsecond _ Sink.unbounded_unlimited
    have hbytes : second.accepted = [120, 121, 122] := by
      rw [haccepted, drop_overfull]
      rfl
    refine ⟨w, dest, _, r, r₁, r₂, sink₁, second, hwritten, hclose, rfl, hnext, hread, ?_, hshort,
      hbytes, ?_⟩
    · rw [hcounter]
      exact Nat.lt_succ_self _
    rw [hbytes]
    exact not_prefix_overfull
  · exact absurd hblame (hno e)

end Lockbox
