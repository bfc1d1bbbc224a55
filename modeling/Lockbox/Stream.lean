import Lockbox.Gathering
/-!
# Lockbox — sources and sinks

A source is what its reads are going to answer: pieces of bytes,
interruptions and failures, then the end. Reading through it is a
function on that list, and `Source.contents` is the byte string that it
delivers if nothing fails. A sink has accepted some bytes and has a rule
for how many more it takes of each write; to take fewer than offered is
to fail, after which it may well accept bytes again.
-/

namespace Lockbox

/-- What kind of thing went wrong outside. -/
inductive IoKind where
  | other
  | notFound
  | alreadyExists
  | invalidInput
  | invalidFilename
  | notADirectory
  | isADirectory
  | directoryNotEmpty
  | invalidData
  deriving DecidableEq, Repr

/-- Who words a failure: this library, or the system with or without a
number of its own. -/
inductive IoWording where
  | own (text : String)
  | library (text : String)
  | system
  deriving DecidableEq, Repr

/-- A failure of a source, a sink or the file system. -/
structure IoError where
  kind : IoKind
  wording : IoWording
  deriving DecidableEq, Repr

namespace IoError

/-- A failure that the system words. -/
def system (kind : IoKind) : IoError := ⟨kind, .system⟩

/-- A failure of no particular kind. -/
def other (text : String) : IoError := ⟨.other, .own text⟩

/-- What can be said of a failure; the system's own words are left out. -/
def message (e : IoError) : String :=
  match e.wording with
  | .own text | .library text => s!"I/O error: {text}"
  | .system => "I/O error"

end IoError

/-! ## Sources -/

/-- What a read may answer. -/
inductive Delivery where
  | bytes (b : Bytes)
  | interrupted
  | failure (e : IoError)
  deriving DecidableEq, Repr

/-- What the reads to come will answer, and then the end. -/
abbrev Source := List Delivery

namespace Source

/-- The source that delivers a byte string as one piece. -/
def ofBytes (b : Bytes) : Source := [.bytes b]

/-- A byte string cut into pieces of `n + 1` bytes. -/
def pieces (n : Nat) (b : Bytes) : List Bytes :=
  match b with
  | [] => []
  | c :: rest => (c :: rest.take n) :: pieces n (rest.drop n)
termination_by b.length
decreasing_by simp only [List.length_cons, List.length_drop]; omega

/-- A source that delivers a byte string in pieces of at most `pace` bytes
if a pace is set, with an interruption before each piece if asked for,
and that fails where `failAt` bytes have been delivered. At a pace of
zero it gets nowhere. -/
def paced (b : Bytes) (pace : Option Nat) (interrupting : Bool) (failAt : Option (Nat × IoError)) :
    Source :=
  let within := if pace = some 0 then [] else b
  let kept := match failAt with
    | some (n, _) => within.take n
    | none => within
  let parts := match pace with
    | some n => pieces (n - 1) kept
    | none => [kept]
  let gap : Source := if interrupting then [.interrupted] else []
  let delivered := parts.flatMap fun p => gap ++ [.bytes p]
  match failAt with
  | some (n, e) => if n ≤ within.length then delivered ++ gap ++ [.failure e] else delivered ++ gap
  | none => delivered ++ gap

/-- All bytes that are delivered if no read fails. -/
def contents : Source → Bytes
  | [] => []
  | .bytes b :: rest => b ++ contents rest
  | _ :: rest => contents rest

/-- What came of reading an exact number of bytes. -/
inductive Taken where
  | got (b : Bytes)
  | ended
  | failed (e : IoError)

/-- Reads until `n` more bytes are there, after those in `g`.
Interruptions are waited out. -/
def takeInto (g : Gathering) (n : Nat) : Source → Taken × Source
  | [] => (if n = 0 then .got g.toBytes else .ended, [])
  | d :: rest =>
    if n = 0 then (.got g.toBytes, d :: rest)
    else match d with
      | .interrupted => takeInto g n rest
      | .failure e => (.failed e, rest)
      | .bytes b =>
        let now := b.take n
        if now.length < n then takeInto (g.add now) (n - now.length) rest
        else (.got (g.add now).toBytes, .bytes (b.drop n) :: rest)

/-- Reads exactly `n` bytes. -/
def takeExactly (n : Nat) (s : Source) : Taken × Source := takeInto .empty n s

/-- What a single read answers. -/
inductive Single where
  | got (b : Bytes)
  | ended
  | failed (e : IoError)

/-- One read of at most `most` bytes. Interruptions are waited out. -/
def read (most : Nat) : Source → Single × Source
  | [] => (.ended, [])
  | .interrupted :: rest => read most rest
  | .failure e :: rest => (.failed e, rest)
  | .bytes [] :: rest => read most rest
  | .bytes (c :: b) :: rest => (.got ((c :: b).take most), .bytes ((c :: b).drop most) :: rest)

/-- How much there is left to read: every delivery counts one and every
byte one. -/
def weight : Source → Nat
  | [] => 0
  | .bytes b :: rest => 1 + b.length + weight rest
  | _ :: rest => 1 + weight rest

theorem weight_takeInto_le (g : Gathering) (n : Nat) (s : Source) :
    (takeInto g n s).2.weight ≤ s.weight := by
  fun_induction takeInto g n s with
  | case1 => simp
  | case2 => simp
  | case3 g n rest hn ih => simp only [weight]; omega
  | case4 g n rest hn e => simp only [weight]; omega
  | case5 g n rest hn b now h ih => simp only [weight]; omega
  | case6 g n rest hn b now h =>
    simp only [weight, List.length_drop]
    omega

/-- To take bytes leaves less to read. -/
theorem weight_takeInto_lt {g : Gathering} {n : Nat} {s s' : Source} {b : Bytes}
    (hn : 0 < n) (h : takeInto g n s = (.got b, s')) : s'.weight < s.weight := by
  fun_induction takeInto g n s with
  | case1 g n => simp [show n ≠ 0 by omega] at h
  | case2 => omega
  | case3 g n rest hn' ih => have := ih hn h; simp only [weight]; omega
  | case4 => simp at h
  | case5 g n rest hn' c now hlt ih =>
    have := weight_takeInto_le (g.add now) (n - now.length) rest
    rw [h] at this
    simp only [weight] at this ⊢
    omega
  | case6 g n rest hn' c now hlt =>
    obtain ⟨-, rfl⟩ := Prod.mk.inj h
    have hlen : now.length ≤ c.length := by simp only [now, List.length_take]; omega
    simp only [weight, List.length_drop]
    omega

/-- A read that answers anything but the end leaves less to read. -/
theorem weight_read {most : Nat} (h : 0 < most) {s s' : Source} {r : Single}
    (hr : read most s = (r, s')) (hne : r ≠ .ended) : s'.weight < s.weight := by
  fun_induction read most s with
  | case1 => simp_all
  | case2 rest ih => have := ih hr; simp only [weight]; omega
  | case3 e rest => simp_all [weight]
  | case4 rest ih => have := ih hr; simp only [weight]; omega
  | case5 c b rest =>
    obtain ⟨-, rfl⟩ := Prod.mk.inj hr
    simp only [weight, List.length_drop, List.length_cons]
    omega

end Source

/-! ## Sinks -/

/-- What may go wrong where the bytes that a sink accepted are to be had
again: it cannot go back to the first of them, or reading fails after so
many. -/
inductive RecallFault where
  | rewind (e : IoError)
  | read (n : Nat) (e : IoError)
  deriving DecidableEq

/-- The bytes a sink has accepted, how many of each coming write it takes
(by the number of writes before, the bytes accepted before and the bytes
offered), whether it can be flushed, and whether what it accepted can be had
again. What can be flushed once can be flushed again. -/
structure Sink where
  stored : Gathering
  writes : Nat
  quota : (writes accepted offered : Nat) → Nat
  flushFault : Option IoError
  writeFault : IoError
  recallFault : Option RecallFault

namespace Sink

/-- A sink that accepts everything. -/
def unlimited : Sink := ⟨.empty, 0, fun _ _ offered => offered, none, .other "sink full", none⟩

/-- A sink that accepts `n` bytes in all. -/
def limited (n : Nat) : Sink := { unlimited with quota := fun _ accepted _ => n - accepted }

instance : Inhabited Sink := ⟨unlimited⟩

/-- The bytes accepted so far. -/
def accepted (s : Sink) : Bytes := s.stored.toBytes

/-- Offers bytes; those that are taken stay even if the write fails. -/
def write (s : Sink) (b : Bytes) : Except IoError Unit × Sink :=
  if b = [] then (.ok (), s)
  else
    let taken := b.take (s.quota s.writes s.stored.size b.length)
    let s' := { s with stored := s.stored.add taken, writes := s.writes + 1 }
    (if taken.length < b.length then .error s.writeFault else .ok (), s')

/-- Offers several byte strings, up to the first that is not taken whole. -/
def writeEach (s : Sink) : List Bytes → Except IoError Unit × Sink
  | [] => (.ok (), s)
  | b :: rest =>
    match s.write b with
    | (.ok (), s) => writeEach s rest
    | (.error e, s) => (.error e, s)

/-- Asks the sink to finish what it accepted. -/
def flush (s : Sink) : Except IoError Unit :=
  match s.flushFault with
  | some e => .error e
  | none => .ok ()

/-- Goes back to the first byte that was accepted. -/
def rewind (s : Sink) : Except IoError Unit :=
  match s.recallFault with
  | some (.rewind e) => .error e
  | _ => .ok ()

/-- The accepted bytes as they are read again, and what reading them ends
with. -/
def readBack (s : Sink) : Bytes × Option IoError :=
  match s.recallFault with
  | some (.read n e) => (s.accepted.take n, some e)
  | _ => (s.accepted, none)

/-- No more is read again than was accepted. -/
theorem readBack_prefix (s : Sink) : s.readBack.1 <+: s.accepted := by
  unfold readBack
  split
  · exact List.take_prefix _ _
  · exact List.prefix_refl _

/-- Where reading again does not fail, all of it is there. -/
theorem readBack_of_none {s : Sink} (h : s.readBack.2 = none) : s.readBack.1 = s.accepted := by
  unfold readBack at h ⊢
  split
  · rename_i hfault
    rw [hfault] at h
    cases h
  · rfl

/-- A write that succeeds appends the bytes offered. -/
theorem accepted_write_of_ok {s s' : Sink} {b : Bytes} (h : s.write b = (.ok (), s')) :
    s'.accepted = s.accepted ++ b := by
  unfold write at h
  split at h
  · rename_i hb
    obtain ⟨-, rfl⟩ := Prod.mk.inj h
    simp [hb]
  · obtain ⟨h₁, rfl⟩ := Prod.mk.inj h
    split at h₁
    · exact absurd h₁ (by simp)
    · rename_i hlen
      have : b.take (s.quota s.writes s.stored.size b.length) = b := by
        apply List.take_of_length_le
        simp only [List.length_take] at hlen
        omega
      simp [accepted, this]

/-- Writes that all succeed append everything offered. -/
theorem accepted_writeEach_of_ok {s s' : Sink} {parts : List Bytes}
    (h : s.writeEach parts = (.ok (), s')) : s'.accepted = s.accepted ++ parts.flatten := by
  induction parts generalizing s with
  | nil =>
    obtain ⟨-, rfl⟩ := Prod.mk.inj h
    simp
  | cons b rest ih =>
    rw [writeEach] at h
    split at h
    · rename_i s₁ h₁
      rw [ih h, accepted_write_of_ok h₁]
      simp
    · exact absurd (Prod.mk.inj h).1 (by simp)

/-- Whatever becomes of a write, a beginning of the bytes offered is
appended. -/
theorem accepted_write (s : Sink) (b : Bytes) :
    ∃ n, (s.write b).2.accepted = s.accepted ++ b.take n := by
  unfold write
  split
  · exact ⟨0, by simp⟩
  · exact ⟨_, by simp [accepted]; rfl⟩

end Sink

end Lockbox
