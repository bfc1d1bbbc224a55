import Lockbox.Lock
import Lockbox.Payload.Channel
/-!
# Lockbox — the head of a container

A container starts with a preamble, a header in JSON with the table of
its locks, and an authentication code over both, whose key comes from the
master key: it can only be checked once a lock has been opened. Reading
takes each entry of the table for itself (`Table.readEntry`); an entry
that is no lock is an error or, where data errors are to be ignored, left
out. A lock keeps the place that its entry has in the table.
-/

namespace Lockbox

/-- What every container starts with. -/
def magic : Bytes := [0x43, 0x44, 0x4F, 0x43]

/-- The version of containers. -/
def containerVersion : UInt8 := 2

/-- The header of a container. -/
structure Header where
  suite : String
  payloadNonce : Octets 24
  locks : List Lock
  deriving DecidableEq

namespace Header

/-- The written form of a header. -/
def toJson (h : Header) : Json :=
  .record [("suite", .ofText h.suite), ("payload_nonce", .ofBytes h.payloadNonce.val),
    ("locks", .array (h.locks.map Lock.toJson))]

/-- How deeply the entries of a table of locks may be nested, being nested
twice themselves. -/
def entryRoom : Nat := Json.maxNesting - 2

/-- The parts of a header, with the entries of its table as they are. -/
def parts? (j : Json) : Option (String × Octets 24 × List Json) := do
  match ← j.allFields? ["suite", "payload_nonce", "locks"] with
  | [suite, nonce, .array entries] => return (← suite.text?, ← nonce.octets? 24, entries)
  | _ => none

/-- The header with this written form, all of whose entries are locks. -/
def ofJson? (j : Json) : Option Header := do
  let (suite, nonce, entries) ← parts? j
  return ⟨suite, nonce, ← entries.mapM (Lock.ofJson? entryRoom)⟩

/-! ## Writing -/

/-- The preamble of a header of this length. -/
def preamble (version : UInt8) (flags : Flags) (length : Nat) : Bytes :=
  magic ++ version :: flags.toByte :: Bytes.ofNat 4 length

/-- The authentication code of a preamble and a header. -/
def mac (S : Suite) (fmk : Fmk) (preamble json : Bytes) : Octets 32 :=
  S.mac (fmk.headerKey S).val (preamble ++ json)

/-- Writes preamble, header and authentication code and gives the number of
bytes. -/
def write (S : Suite) (version : UInt8) (flags : Flags) (h : Header) (fmk : Fmk) (sink : Sink) :
    Except Error Nat × Sink :=
  let json := h.toJson.render
  if maxHeaderLength < json.length then (.error (.parse (.tooLong json.length)), sink)
  else
    let pre := preamble version flags json.length
    match sink.writeEach [pre, json, (mac S fmk pre json).val] with
    | (.error e, sink) => (.error (.io e), sink)
    | (.ok (), sink) => (.ok (pre.length + json.length + 32), sink)

end Header

/-! ## Reading -/

/-- The head of a container as it was read; its authentication code has not
been checked. -/
structure ParsedHeader where
  version : UInt8
  flags : Flags
  payloadNonce : Octets 24
  locks : List Lock
  skipped : Nat
  preamble : Bytes
  json : Bytes
  mac : Bytes

namespace ParsedHeader

/-- Checks the authentication code with a master key. -/
def verify (S : Suite) (h : ParsedHeader) (fmk : Fmk) : Except Error Unit :=
  if (Header.mac S fmk h.preamble h.json).val = h.mac then .ok () else .error (.integrity .headerMac)

/-- The lock at a place of the table. -/
def lock? (h : ParsedHeader) (index : Nat) : Option Lock := h.locks.find? (·.index = index)

end ParsedHeader

namespace Table

/-- The lock that an entry of the table is. -/
def readEntry (entry : Json) (index : Nat) : Except ParseFault Lock :=
  match Lock.ofJson? Header.entryRoom entry with
  | none => .error (.unreadableLock index)
  | some lock =>
    match lock.capsule.check with
    | .error f => .error (.lockIterations index f)
    | .ok () => .ok { lock with index }

/-- What the entries of the table are, each for itself. -/
def readEntries (entries : List Json) : List (Except ParseFault Lock) :=
  entries.zipIdx.map fun e => readEntry e.1 e.2

/-- The lock, if there is one. -/
def lockOf? : Except ParseFault Lock → Option Lock
  | .ok lock => some lock
  | .error _ => none

/-- The locks of a table and the number of entries left out. -/
def read (lenient : Bool) (entries : List Json) : Except ParseFault (List Lock × Nat) :=
  let results := readEntries entries
  if lenient then
    let locks := results.filterMap lockOf?
    .ok (locks, results.length - locks.length)
  else do
    let locks ← results.mapM id
    return (locks, 0)

end Table

namespace ParsedHeader

/-- What a header in JSON says: the nonce, the locks and the number of
entries left out. -/
def interpret (lenient : Bool) (json : Bytes) :
    Except ParseFault (Octets 24 × List Lock × Nat) :=
  let parts := do
    let (suite, nonce, entries) ← Header.parts? (← Json.parse? json)
    return (suite, nonce, ← entries.mapM (Json.settle Header.entryRoom))
  match parts with
  | none => .error .malformed
  | some (suite, nonce, entries) =>
    if suite ≠ Suite.name then .error (.unsupportedSuite suite)
    else if entries = [] then .error .noLocks
    else do
      let (locks, skipped) ← Table.read lenient entries
      return (nonce, locks, skipped)

/-- The next bytes of a source, which belong to a part of the head. -/
def take (part : HeadPart) (n : Nat) (source : Source) : Except Error Bytes × Source :=
  match source.takeExactly n with
  | (.got b, source) => (.ok b, source)
  | (.ended, source) => (.error (.parse (.truncated part)), source)
  | (.failed e, source) => (.error (.io e), source)

/-- The version, the flags and the length of the header that a preamble
gives. -/
def readPreamble (preamble : Bytes) : Except Error (UInt8 × Flags × Nat) :=
  match preamble.drop magic.length with
  | version :: flags :: written =>
    let length := Bytes.toNat written
    if preamble.take magic.length ≠ magic then .error (.parse .notContainer)
    else if version ≠ containerVersion then .error (.unsupportedVersion version)
    else if ¬ Flags.isKnown flags then .error (.parse (.unknownFlags flags))
    else if maxHeaderLength < length then .error (.parse (.lengthLimit length))
    else .ok (version, .ofByte flags, length)
  | _ => .error (.parse (.truncated .preamble))

/-- The length of a preamble. -/
def preambleLength : Nat := 10

/-- Reads everything before the first frame. -/
def read (lenient : Bool) (source : Source) : Except Error ParsedHeader × Source :=
  match take .preamble preambleLength source with
  | (.error e, source) => (.error e, source)
  | (.ok preamble, source) =>
    match readPreamble preamble with
    | .error e => (.error e, source)
    | .ok (version, flags, length) =>
      match take .header length source with
      | (.error e, source) => (.error e, source)
      | (.ok json, source) =>
        match take .mac 32 source with
        | (.error e, source) => (.error e, source)
        | (.ok mac, source) =>
          match interpret lenient json with
          | .error f => (.error (.parse f), source)
          | .ok (payloadNonce, locks, skipped) =>
            (.ok ⟨version, flags, payloadNonce, locks, skipped, preamble, json, mac⟩, source)

end ParsedHeader

end Lockbox
