import Lockbox.Header
import Lockbox.Payload.Writer
import Lockbox.Wrapping
/-!
# Lockbox — writing a container

A session that writes goes from *created* to *accepting* to *sealed*.
While it accepts, recipients and entries may come in any order; the
payload waits in a spool, because the table of locks precedes it. Only
sealing writes to the destination. An entry of the wrong size and a sink
that fails end the session for good; other refusals change nothing.
-/

namespace Lockbox

namespace Sealing

/-- What a session that accepts has so far. -/
structure Draft where
  fmk : Fmk
  payloadNonce : Octets 24
  payload : Payload.Writer
  locks : List Lock

/-- How far a session is. One that failed for a wrong size remembers it. -/
inductive Stage where
  | created
  | accepting (draft : Draft)
  | sealed
  | failed (cause : Option Mismatch)

/-- The phase that a stage shows. -/
def Stage.phase : Stage → Phase
  | .created => .created
  | .accepting _ => .accepting
  | .sealed => .sealed
  | .failed _ => .failed

/-- The stage after an operation on the payload of a draft. -/
def Stage.after (draft : Draft) : Except Error Unit → Stage
  | .error (.sizeMismatch m) => .failed (some m)
  | .error (.io _) => .failed none
  | _ => .accepting draft

end Sealing

/-- A session that writes a container. -/
structure Sealing (σ : Type) where
  smith : Locksmith σ
  version : UInt8
  flags : Flags
  spool : Sink
  dest : Sink
  stage : Sealing.Stage

namespace Sealing

variable {σ α : Type}

/-- A session that writes a container of this version to `dest` and keeps
its payload in `spool` meanwhile. -/
def create (smith : Locksmith σ) (version : UInt8) (spool dest : Sink) :
    Except Error (Sealing σ) :=
  if version = containerVersion then
    .ok ⟨smith, version, ⟨smith.config.compress⟩, spool, dest, .created⟩
  else .error (.unsupportedVersion version)

/-- How many locks there are in the draft. -/
def lockCount (s : Sealing σ) : Nat :=
  match s.stage with
  | .accepting draft => draft.locks.length
  | _ => 0

/-- The container is complete. -/
def isSealed (s : Sealing σ) : Bool :=
  match s.stage with
  | .sealed => true
  | _ => false

/-- An operation that came in the wrong phase. -/
def refuse (s : Sealing σ) (op : Operation) : Error := .state op s.stage.phase

/-- Draws the master key and the base nonce and starts to accept. -/
def begin (s : Sealing σ) (w : World σ) : Except Error Unit × Sealing σ × World σ :=
  match s.stage with
  | .created =>
    let (key, entropy) := w.entropy.draw 32
    let (payloadNonce, entropy) := entropy.draw 24
    let fmk : Fmk := ⟨key⟩
    let channel := ⟨fmk.contentKey s.smith.suite, payloadNonce, s.version, s.flags⟩
    let draft := ⟨fmk, payloadNonce, .create s.spool channel, []⟩
    (.ok (), { s with stage := .accepting draft }, { w with entropy })
  | _ => (.error (s.refuse .beginEncryption), s, w)

/-- Makes a lock for a recipient and gives its place in the table. -/
def addRecipient (r : Recipient) (s : Sealing σ) (w : World σ) :
    Except Error Nat × Sealing σ × World σ :=
  match s.stage with
  | .accepting draft =>
    let index := draft.locks.length
    match s.smith.wrap index r draft.fmk w with
    | (.ok lock, w) =>
      (.ok index, { s with stage := .accepting { draft with locks := draft.locks ++ [lock] } }, w)
    | (.error e, w) => (.error e, s, w)
  | _ => (.error (s.refuse .addRecipient), s, w)

/-- An operation on the payload of the draft. -/
def onPayload (op : Operation) (f : Payload.Writer → Except Error Unit × Payload.Writer)
    (s : Sealing σ) : Except Error Unit × Sealing σ :=
  match s.stage with
  | .accepting draft =>
    let (result, payload) := f draft.payload
    (result, { s with stage := .after { draft with payload } result })
  | _ => (.error (s.refuse op), s)

/-- Declares the next entry; the one before must be complete. -/
def addFile (name : String) (size : UInt64) (s : Sealing σ) : Except Error Unit × Sealing σ :=
  s.onPayload .addFile (Payload.Writer.declare s.smith.suite name size)

/-- Hands over bytes of the current entry. -/
def writeData (data : Bytes) (s : Sealing σ) : Except Error Unit × Sealing σ :=
  s.onPayload .writeData (Payload.Writer.write s.smith.suite data)

/-- Writes the head of a container and the payload in `spool`, as far as the
spool gives it back. -/
def deliver (draft : Draft) (spool : Sink) (s : Sealing σ) : Except Error Unit × Sink :=
  let header : Header := ⟨Suite.name, draft.payloadNonce, draft.locks⟩
  match spool.rewind with
  | .error e => (.error (.io e), s.dest)
  | .ok () =>
    match header.write s.smith.suite s.version s.flags draft.fmk s.dest with
    | (.error e, dest) => (.error e, dest)
    | (.ok _, dest) =>
      match dest.write spool.readBack.1 with
      | (.error e, dest) => (.error (.io e), dest)
      | (.ok (), dest) =>
        match spool.readBack.2 with
        | some e => (.error (.io e), dest)
        | none =>
          match dest.flush with
          | .error e => (.error (.io e), dest)
          | .ok () => (.ok (), dest)

/-- Seals the container. The destination is not touched unless there is a
lock and the last entry is complete. -/
def finish (s : Sealing σ) : Except Error Unit × Sealing σ :=
  match s.stage with
  | .failed (some m) => (.error (.sizeMismatch m), s)
  | .accepting draft =>
    if draft.locks = [] then (.error .noRecipients, { s with stage := .failed none })
    else match draft.payload.checkComplete with
      | .error e => (.error e, { s with stage := .after draft (.error e) })
      | .ok () =>
        match draft.payload.close s.smith.suite with
        | .error e => (.error e, { s with stage := .failed none })
        | .ok spool =>
          match s.deliver draft spool with
          | (.error e, dest) => (.error e, { s with dest, stage := .failed none })
          | (.ok (), dest) => (.ok (), { s with dest, stage := .sealed })
  | _ => (.error (s.refuse .finishEncryption), s)

/-! ## All at once -/

/-- Makes the locks of all recipients. -/
def addRecipients : List Recipient → Sealing σ → World σ → Except Error Unit × Sealing σ × World σ
  | [], s, w => (.ok (), s, w)
  | r :: rest, s, w =>
    match s.addRecipient r w with
    | (.ok _, s, w) => addRecipients rest s w
    | (.error e, s, w) => (.error e, s, w)

/-- Hands over what a source delivers, up to `remaining` bytes of it. -/
def pump (remaining : Nat) (source : Source) (s : Sealing σ) : Except Error Unit × Sealing σ :=
  if hr : remaining = 0 then (.ok (), s)
  else
    have hpos : 0 < min chunkSize remaining := by
      have : 0 < chunkSize := by decide
      omega
    match hread : source.read (min chunkSize remaining) with
    | (.ended, _) => (.ok (), s)
    | (.failed e, _) => (.error (.io e), s)
    | (.got b, source') =>
      have := Source.weight_read hpos hread (by simp)
      match s.writeData b with
      | (.ok (), s) => pump (remaining - b.length) source' s
      | (.error e, s) => (.error e, s)
termination_by source.weight

/-- Adds entries, each with its declared size from its source. -/
def addFiles : List (FileInfo × Source) → Sealing σ → Except Error Unit × Sealing σ
  | [], s => (.ok (), s)
  | (info, source) :: rest, s =>
    match s.addFile info.name info.size with
    | (.error e, s) => (.error e, s)
    | (.ok (), s) =>
      match s.pump info.size.toNat source with
      | (.error e, s) => (.error e, s)
      | (.ok (), s) => addFiles rest s

/-- Begins if nothing has begun yet. -/
def ensureBegun (s : Sealing σ) (w : World σ) : Except Error Unit × Sealing σ × World σ :=
  match s.stage with
  | .created => s.begin w
  | _ => (.ok (), s, w)

/-- Adds all recipients and entries and seals the container. -/
def encryptAll (recipients : List Recipient) (files : List (FileInfo × Source)) (s : Sealing σ)
    (w : World σ) : Except Error Unit × Sealing σ × World σ :=
  match s.ensureBegun w with
  | (.error e, s, w) => (.error e, s, w)
  | (.ok (), s, w) =>
    match s.addRecipients recipients w with
    | (.error e, s, w) => (.error e, s, w)
    | (.ok (), s, w) =>
      match s.addFiles files with
      | (.error e, s) => (.error e, s, w)
      | (.ok (), s) =>
        let (result, s) := s.finish
        (result, s, w)

end Sealing

end Lockbox
