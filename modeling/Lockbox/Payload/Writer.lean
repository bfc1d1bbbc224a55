import Lockbox.Payload.Channel
/-!
# Lockbox — writing a payload

Bytes of an entry wait until they fill a frame or complete the entry, so
that the payload depends on the entries and not on how their bytes were
handed over. An entry is declared with its size and must receive exactly
that many bytes before the next one may be declared. A sink that fails
leaves the writer as it was at that moment: what was waiting is gone, and
the frame that was not written does not count.
-/

namespace Lockbox

namespace Payload

/-- Bytes that wait for their frame: fewer than fill one. -/
abbrev Waiting := { bytes : Gathering // bytes.size < chunkSize }

/-- No bytes wait. -/
def Waiting.none : Waiting := ⟨.empty, by decide⟩

/-- The entry that is being written, and how many bytes of it were handed
over. This is never more than the size it declares, which has 64 bits. -/
structure OpenFile where
  name : String
  declared : UInt64
  written : Nat
  deriving DecidableEq

/-- The writing end of a payload: where the next frame goes and under what
number, the bytes that wait, the entry they belong to and the names
declared so far. -/
structure Writer where
  sink : Sink
  channel : Channel
  counter : Nat
  waiting : Waiting
  current : Option OpenFile
  names : List String

namespace Writer

/-- A payload with no frames yet. -/
def create (sink : Sink) (channel : Channel) : Writer :=
  ⟨sink, channel, 0, .none, none, []⟩

/-- How many entries were declared. -/
def entries (w : Writer) : Nat := w.names.length

/-- Encrypts a frame under the next number and writes its length and
itself. -/
def emit (S : Suite) (frame : Frame) (w : Writer) : Except Error Unit × Writer :=
  let sealed := w.channel.sealFrame S w.counter frame
  match w.sink.writeEach [Bytes.ofNat 4 sealed.length, sealed] with
  | (.error e, sink) => (.error (.io e), { w with sink })
  | (.ok (), sink) =>
    if w.counter + 1 < UInt64.size then (.ok (), { w with sink, counter := w.counter + 1 })
    else (.error (.crypto .framesExhausted), { w with sink })

/-- Writes what waits as a frame, if anything does. -/
def flush (S : Suite) (w : Writer) : Except Error Unit × Writer :=
  if h : 0 < w.waiting.val.size then
    have hlen := w.waiting.val.length_toBytes
    have hlt := w.waiting.property
    { w with waiting := .none }.emit S
      (.data ⟨w.waiting.val.toBytes, by omega, by omega⟩)
  else (.ok (), w)

/-- Adds bytes to those that wait and writes a frame whenever one is full. -/
def fill (S : Suite) (input : Bytes) (w : Writer) : Except Error Unit × Writer :=
  have hlt := w.waiting.property
  if h : w.waiting.val.size + input.length < chunkSize then
    (.ok (), { w with waiting := ⟨w.waiting.val.add input, h⟩ })
  else
    let room := chunkSize - w.waiting.val.size
    let full := (w.waiting.val.add (input.take room)).toBytes
    have hfull : full.length = chunkSize := by
      simp only [full, room, Gathering.length_toBytes, Gathering.size_add, List.length_take]
      omega
    have hpos : 0 < chunkSize := by decide
    match { w with waiting := .none }.emit S (.data ⟨full, by omega, by omega⟩) with
    | (.ok (), w) => fill S (input.drop room) w
    | (.error e, w) => (.error e, w)
termination_by input.length
decreasing_by
  simp only [List.length_drop]
  omega

/-- The current entry has received exactly its declared size. -/
def checkComplete (w : Writer) : Except Error Unit :=
  match w.current with
  | some f =>
    if f.written = f.declared.toNat then .ok ()
    else .error (.sizeMismatch ⟨f.name, f.declared.toNat, f.written⟩)
  | none => .ok ()

/-- Declares the next entry. -/
def declare (S : Suite) (name : String) (size : UInt64) (w : Writer) :
    Except Error Unit × Writer :=
  match EntryName.ofText name with
  | .error f => (.error (.invalidName f), w)
  | .ok stored =>
    match w.checkComplete with
    | .error e => (.error e, w)
    | .ok () =>
      if name ∈ w.names then (.error (.duplicateName name), w)
      else match w.emit S (.file stored size) with
        | (.error e, w) => (.error e, w)
        | (.ok (), w) =>
          (.ok (), { w with current := some ⟨name, size, 0⟩, names := name :: w.names })

/-- Hands over bytes of the current entry. The frame of its last bytes is
written at once. What the entry would have afterwards is a number without a
bound; as long as fewer than `2^64` bytes are handed over for an entry, a sum
of 64 bits is the same. -/
def write (S : Suite) (data : Bytes) (w : Writer) : Except Error Unit × Writer :=
  match w.current with
  | none => (.error (.sequence .undeclared), w)
  | some f =>
    let after := f.written + data.length
    if f.declared.toNat < after then
      (.error (.sizeMismatch ⟨f.name, f.declared.toNat, after⟩), w)
    else match w.fill S data with
      | (.error e, w) => (.error e, w)
      | (.ok (), w) =>
        match if after = f.declared.toNat then w.flush S else (.ok (), w) with
        | (.error e, w) => (.error e, w)
        | (.ok (), w) => (.ok (), { w with current := some { f with written := after } })

/-- Ends the payload and hands back what it was written to. -/
def close (S : Suite) (w : Writer) : Except Error Sink :=
  match w.checkComplete with
  | .error e => .error e
  | .ok () =>
    match w.emit S .finish with
    | (.error e, _) => .error e
    | (.ok (), w) =>
      match w.sink.flush with
      | .error e => .error (.io e)
      | .ok () => .ok w.sink

end Writer

end Payload

end Lockbox
