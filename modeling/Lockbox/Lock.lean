import Lockbox.Json.Binary
import Lockbox.Keys
/-!
# Lockbox — locks

A lock is one recipient's wrapped copy of the master key. Its capsule
holds what is needed, besides the secret, to find the wrapping key again,
and its label says whose lock it is. Where a lock stands in the table of
its container is not written with it.
-/

namespace Lockbox

/-- The kinds of locks. -/
inductive LockType where
  | password
  | symmetricKey
  | publicKey
  | certificate
  | server
  deriving DecidableEq, Repr

namespace LockType

/-- The name of a kind. -/
def name : LockType → String
  | .password => "password"
  | .symmetricKey => "symmetric_key"
  | .publicKey => "public_key"
  | .certificate => "certificate"
  | .server => "server"

/-- The name of a kind in summaries. -/
def title : LockType → String
  | .password => "Password"
  | .symmetricKey => "SymmetricKey"
  | .publicKey => "PublicKey"
  | .certificate => "Certificate"
  | .server => "ServerAssisted"

/-- The secret is shared with the writer, and no private key. -/
def isSymmetric : LockType → Bool
  | .password | .symmetricKey => true
  | _ => false

end LockType

/-- What a provider of secrets is told about a lock. -/
structure LockInfo where
  index : Nat
  type : LockType
  label : String
  deriving DecidableEq, Repr

/-- What finding the wrapping key takes besides the secret. -/
inductive Capsule where
  | password (salt pwSalt : Octets 32) (iterations : UInt32)
  | symmetricKey (salt : Octets 32)
  | publicKey (recipient sender : Octets 32)
  | certificate (fingerprint recipient sender : Octets 32)
  | server (recipient : Octets 32) (serverId transactionId : String)
  deriving DecidableEq

namespace Capsule

/-- The kind of lock a capsule belongs to. -/
def type : Capsule → LockType
  | .password .. => .password
  | .symmetricKey .. => .symmetricKey
  | .publicKey .. => .publicKey
  | .certificate .. => .certificate
  | .server .. => .server

/-- A password capsule may not ask for just any number of iterations. -/
def check : Capsule → Except IterationFault Unit
  | .password _ _ n => checkIterations n
  | _ => .ok ()

/-- The members of a capsule besides its type. -/
def members : Capsule → List (String × Json)
  | .password salt pwSalt n =>
    [("salt", .ofBytes salt.val), ("pw_salt", .ofBytes pwSalt.val),
      ("kdf_iterations", .ofNat n.toNat)]
  | .symmetricKey salt => [("salt", .ofBytes salt.val)]
  | .publicKey recipient sender =>
    [("recipient_key", .ofBytes recipient.val), ("sender_key", .ofBytes sender.val)]
  | .certificate fingerprint recipient sender =>
    [("fingerprint", .ofBytes fingerprint.val), ("recipient_key", .ofBytes recipient.val),
      ("sender_key", .ofBytes sender.val)]
  | .server recipient serverId transactionId =>
    [("recipient_key", .ofBytes recipient.val), ("server_id", .ofText serverId),
      ("transaction_id", .ofText transactionId)]

/-- The written form of a capsule. -/
def toJson (c : Capsule) : Json := .record (("type", .ofText c.type.name) :: c.members)

/-- The capsule of a kind with these members. -/
def ofMembers? (kind : String) (j : Json) : Option Capsule := do
  if kind = LockType.password.name then
    match ← j.allFields? ["salt", "pw_salt", "kdf_iterations"] with
    | [salt, pwSalt, n] =>
      return .password (← salt.octets? 32) (← pwSalt.octets? 32) (← n.nat? (UInt32.size - 1)).toUInt32
    | _ => none
  else if kind = LockType.symmetricKey.name then
    match ← j.allFields? ["salt"] with
    | [salt] => return .symmetricKey (← salt.octets? 32)
    | _ => none
  else if kind = LockType.publicKey.name then
    match ← j.allFields? ["recipient_key", "sender_key"] with
    | [recipient, sender] => return .publicKey (← recipient.octets? 32) (← sender.octets? 32)
    | _ => none
  else if kind = LockType.certificate.name then
    match ← j.allFields? ["fingerprint", "recipient_key", "sender_key"] with
    | [fingerprint, recipient, sender] =>
      return .certificate (← fingerprint.octets? 32) (← recipient.octets? 32) (← sender.octets? 32)
    | _ => none
  else if kind = LockType.server.name then
    match ← j.allFields? ["recipient_key", "server_id", "transaction_id"] with
    | [recipient, serverId, transactionId] =>
      return .server (← recipient.octets? 32) (← serverId.text?) (← transactionId.text?)
    | _ => none
  else none

/-- The capsule with this written form. -/
def ofJson? (j : Json) : Option Capsule := do
  let (kind, rest) ← j.tagged? "type"
  ofMembers? kind rest

end Capsule

/-- One recipient's wrapped copy of the master key. -/
structure Lock where
  index : Nat
  label : String
  nonce : Octets 24
  wrapped : Bytes
  capsule : Capsule
  deriving DecidableEq

namespace Lock

/-- The kind of a lock. -/
def type (l : Lock) : LockType := l.capsule.type

/-- What a provider of secrets is told. -/
def info (l : Lock) : LockInfo := ⟨l.index, l.type, l.label⟩

/-- The public key of the recipient, if the lock was made for one. -/
def recipientKey? (l : Lock) : Option (Octets 32) :=
  match l.capsule with
  | .publicKey recipient _ | .certificate _ recipient _ | .server recipient _ _ => some recipient
  | .password .. | .symmetricKey .. => none

/-- The lock was made for this public key. -/
def hasKey (l : Lock) (key : Bytes) : Bool :=
  match l.recipientKey? with
  | some k => k.val == key
  | none => false

/-- The lock was made for this certificate. -/
def matchesCertificate (S : Suite) (l : Lock) (certificate : Bytes) : Bool :=
  match l.capsule with
  | .certificate fingerprint _ _ => fingerprint == S.hash certificate
  | _ => false

/-- A line about a lock. -/
def description (l : Lock) : String :=
  match l.capsule with
  | .password _ _ n => s!"{LockType.password.name} (PBKDF2, {n.toNat} iterations)"
  | .server _ serverId _ => s!"{LockType.server.name} ({serverId})"
  | c => c.type.name

/-- What the wrapped key is bound to. -/
def context (type : LockType) (label : String) : Bytes :=
  Bytes.ofText type.name ++ 0 :: Bytes.ofText label

/-- The written form of a lock. -/
def toJson (l : Lock) : Json :=
  .record [("label", .ofText l.label), ("nonce", .ofBytes l.nonce.val),
    ("encrypted_fmk", .ofBytes l.wrapped), ("capsule", l.capsule.toJson)]

/-- The lock with this written form, at the front of its table. The
capsule is looked at before its type is known, so all of it must be sound
and nested no deeper than `room` allows. -/
def ofJson? (room : Nat) (j : Json) : Option Lock := do
  match ← j.allFields? ["label", "nonce", "encrypted_fmk", "capsule"] with
  | [label, nonce, wrapped, capsule] =>
    let label ← label.text?
    let nonce ← nonce.octets? 24
    let wrapped ← wrapped.bytes?
    let _ ← capsule.settle (room - 1)
    return ⟨0, label, nonce, wrapped, ← Capsule.ofJson? capsule⟩
  | _ => none

end Lock

end Lockbox
