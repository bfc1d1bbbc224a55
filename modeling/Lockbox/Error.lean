import Lockbox.Deflate.Inflate
import Lockbox.Frame
import Lockbox.Label
import Lockbox.Stream
/-!
# Lockbox — what can go wrong

Every failure is a cause. The families follow what a caller can do about
them: a failure of one lock, of the network, or of a lock that is not
there leaves room for another try (`Error.isRecoverable`), a failure of
integrity means that the payload or the header is not what was written,
and a failure of state or sequence that an operation came at the wrong
time. `Error.message` is the wording of all of them.
-/

namespace Lockbox

/-- Why one lock could not be opened. -/
inductive LockError where
  | noSecret
  | wrongSecret
  | certificateNotFound
  | unsupported (what : String)
  deriving DecidableEq, Repr

/-- The wording of a lock's failure. -/
def LockError.message : LockError → String
  | .noSecret => "no secret available"
  | .wrongSecret => "wrong secret"
  | .certificateNotFound => "no matching certificate"
  | .unsupported what => s!"unsupported lock: {what}"

/-- Why something beyond the network was not done. -/
inductive NetworkFault where
  | reported (text : String)
  | storingUnsupported (server : String)
  | noRemote
  | keyLength (server : String) (length : Nat)
  deriving DecidableEq, Repr

/-- The wording of a network fault. -/
def NetworkFault.message : NetworkFault → String
  | .reported text => text
  | .storingUnsupported server => s!"storing capsules on server '{server}' is not supported"
  | .noRemote => "server-assisted recipient needs a remote provider"
  | .keyLength server n => s!"key server '{server}' returned {n} bytes, expected 32"

/-- The most iterations a password lock may ask for. -/
def maxIterations : Nat := 10000000

/-- A number of iterations that no lock may ask for. -/
structure IterationFault where
  count : UInt32
  deriving DecidableEq, Repr

/-- The wording of a wrong number of iterations. -/
def IterationFault.message (f : IterationFault) : String :=
  s!"kdf_iterations {f.count.toNat} outside 1..={maxIterations}"

/-- A password lock asks for at least one iteration and not for too many. -/
def checkIterations (n : UInt32) : Except IterationFault Unit :=
  if 1 ≤ n.toNat ∧ n.toNat ≤ maxIterations then .ok () else .error ⟨n⟩

/-- The parts of a container before its payload. -/
inductive HeadPart where
  | preamble
  | header
  | mac
  deriving DecidableEq, Repr

/-- The name of a part. -/
def HeadPart.name : HeadPart → String
  | .preamble => "preamble"
  | .header => "header"
  | .mac => "header MAC"

/-- The longest header in bytes. -/
def maxHeaderLength : Nat := 16777216

/-- Why a header could not be read or written. -/
inductive ParseFault where
  | truncated (part : HeadPart)
  | notContainer
  | unknownFlags (flags : UInt8)
  | lengthLimit (length : Nat)
  | malformed
  | unsupportedSuite (name : String)
  | noLocks
  | unreadableLock (index : Nat)
  | lockIterations (index : Nat) (fault : IterationFault)
  | iterations (fault : IterationFault)
  | tooLong (length : Nat)
  deriving DecidableEq, Repr

/-- The wording of a fault. -/
def ParseFault.message : ParseFault → String
  | .truncated part => s!"container truncated in {part.name}"
  | .notContainer => "not a CDOC container"
  | .unknownFlags flags => s!"unknown format flags 0x{Hex.encode [flags]}"
  | .lengthLimit n => s!"header length {n} exceeds limit"
  | .malformed => "malformed header"
  | .unsupportedSuite name => s!"unsupported algorithm suite '{name}'"
  | .noLocks => "container has no locks"
  | .unreadableLock i => s!"lock {i}"
  | .lockIterations i f => s!"lock {i}: {f.message}"
  | .iterations f => f.message
  | .tooLong n => s!"header is {n} bytes, limit is {maxHeaderLength}"

/-- Why a header or a payload is not what was written. -/
inductive IntegrityFault where
  | headerMac
  | alreadyFailed
  | truncated
  | frameLength (length : Nat)
  | unauthentic (counter : Nat)
  | inflate (fault : InflateFault)
  | frame (fault : FrameFault)
  | strayData
  | excessData
  | shortEntry
  | trailing
  deriving DecidableEq, Repr

/-- The wording of a fault. -/
def IntegrityFault.message : IntegrityFault → String
  | .headerMac => "header authentication failed"
  | .alreadyFailed => "payload stream already failed"
  | .truncated => "payload truncated"
  | .frameLength n => s!"frame length {n} out of range"
  | .unauthentic counter => s!"frame {counter} failed authentication"
  | .inflate .corrupt => "frame does not inflate"
  | .inflate .tooLong => "inflated frame exceeds size limit"
  | .frame f => f.message
  | .strayData => "data frame outside of an entry"
  | .excessData => "entry data exceeds declared size"
  | .shortEntry => "entry ended before its declared size"
  | .trailing => "trailing data after payload"

/-- A payload operation that came out of turn. -/
inductive SequenceFault where
  | unread (name : String) (bytes : Nat)
  | alreadyRead
  | noEntry
  | ended
  | undeclared
  deriving DecidableEq, Repr

/-- The wording of a fault. -/
def SequenceFault.message : SequenceFault → String
  | .unread name n => s!"entry '{name}' still has {n} unread bytes"
  | .alreadyRead => "current entry has already been read"
  | .noEntry => "no current entry"
  | .ended => "payload already ended"
  | .undeclared => "write before any file was declared"

/-- The operations that a session allows only in some of its phases. -/
inductive Operation where
  | beginEncryption
  | addRecipient
  | addFile
  | writeData
  | finishEncryption
  | getFmk
  | beginDecryption
  | nextFile
  | readFile
  | finishDecryption
  deriving DecidableEq, Repr

/-- The name of an operation. -/
def Operation.name : Operation → String
  | .beginEncryption => "begin_encryption"
  | .addRecipient => "add_recipient"
  | .addFile => "add_file"
  | .writeData => "write_data"
  | .finishEncryption => "finish_encryption"
  | .getFmk => "get_fmk"
  | .beginDecryption => "begin_decryption"
  | .nextFile => "next_file"
  | .readFile => "read_file"
  | .finishDecryption => "finish_decryption"

/-- The phases of a session that writes and of one that reads. -/
inductive Phase where
  | created
  | accepting
  | sealed
  | failed
  | locksParsed
  | fmkObtained
  | decrypting
  | finished
  | poisoned
  deriving DecidableEq, Repr

/-- The name of a phase. -/
def Phase.name : Phase → String
  | .created => "created"
  | .accepting => "accepting"
  | .sealed => "sealed"
  | .failed => "failed"
  | .locksParsed => "locks parsed"
  | .fmkObtained => "FMK obtained"
  | .decrypting => "decrypting"
  | .finished => "finished"
  | .poisoned => "poisoned"

/-- An entry that did not receive exactly the bytes it was declared with. -/
structure Mismatch where
  name : String
  declared : Nat
  written : Nat
  deriving DecidableEq, Repr

/-- Why key material was refused. -/
inductive CryptoFault where
  | noIterations
  | lowOrderPoint
  | masterKeyLength (length : Nat)
  | emptyKey
  | framesExhausted
  deriving DecidableEq, Repr

/-- The wording of a fault. -/
def CryptoFault.message : CryptoFault → String
  | .noIterations => "PBKDF2 iterations must be at least 1"
  | .lowOrderPoint => "recipient public key is a low-order point"
  | .masterKeyLength n => s!"expected 32-byte FMK but found {n} bytes"
  | .emptyKey => "symmetric key cannot be empty"
  | .framesExhausted => "frame counter exhausted"

/-- What a configuration does not allow. -/
inductive PolicyFault where
  | iterations (fault : IterationFault)
  | noKeyServer
  deriving DecidableEq, Repr

/-- The wording of a fault. -/
def PolicyFault.message : PolicyFault → String
  | .iterations f => f.message
  | .noKeyServer => "no key server configured"

/-- The failures of operations on containers. -/
inductive Error where
  | parse (fault : ParseFault)
  | unsupportedVersion (version : UInt8)
  | lock (index : Nat) (fault : LockError)
  | noSuchLock (index : Nat)
  | network (fault : NetworkFault)
  | integrity (fault : IntegrityFault)
  | sequence (fault : SequenceFault)
  | state (operation : Operation) (phase : Phase)
  | sizeMismatch (mismatch : Mismatch)
  | noRecipients
  | duplicateName (name : String)
  | invalidName (fault : NameFault)
  | format (fault : Label.Fault)
  | crypto (fault : CryptoFault)
  | config (fault : PolicyFault)
  | io (fault : IoError)
  deriving DecidableEq, Repr

namespace Error

/-- The wording of a failure. -/
def message : Error → String
  | .parse f => s!"Parse error: {f.message}"
  | .unsupportedVersion v => s!"Unsupported container version: {v.toNat}"
  | .lock i f => s!"Lock {i}: {f.message}"
  | .noSuchLock i => s!"No such lock: {i}"
  | .network f => s!"network error: {f.message}"
  | .integrity f => s!"Integrity error: {f.message}"
  | .sequence f => s!"Sequence error: {f.message}"
  | .state op phase => s!"State error: {op.name} not allowed while {phase.name}"
  | .sizeMismatch m =>
    s!"Size mismatch for '{m.name}': declared {m.declared} bytes, got {m.written}"
  | .noRecipients => "No recipients: at least one lock is required"
  | .duplicateName name => s!"Duplicate file name: {name}"
  | .invalidName f => s!"Invalid file name: {f.message}"
  | .format f => s!"Format error: {f.message}"
  | .crypto f => s!"Crypto error: {f.message}"
  | .config f => s!"Config error: {f.message}"
  | .io e => e.message

/-- Another lock or another provider may still lead to success. -/
def isRecoverable : Error → Bool
  | .lock _ _ | .network _ | .noSuchLock _ => true
  | _ => false

end Error

end Lockbox
