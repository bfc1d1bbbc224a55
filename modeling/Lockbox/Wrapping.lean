import Lockbox.Config
import Lockbox.Provider
import Lockbox.Recipient
import Lockbox.Step
/-!
# Lockbox — wrapping and unwrapping the master key

A locksmith makes the lock of a recipient and opens locks again. Opening
a lock looks at that lock only. A provider is asked for a secret at most
once, and only after everything else that can fail beforehand; what the
network refuses is never mistaken for a wrong secret.
-/

namespace Lockbox

/-- Who makes and opens locks: the suite, the settings and those who are
asked. -/
structure Locksmith (σ : Type) where
  suite : Suite
  config : Config
  providers : Providers σ

namespace Locksmith

variable {σ : Type}

/-- Asks for the secret of a lock. -/
def secretFor (m : Locksmith σ) (info : LockInfo) : Step Error (World σ) Bytes :=
  World.ask (Step.blame (Error.lock info.index) (m.providers.secret info))

/-- The secret that a recipient brings along, or else the one that the
provider has. -/
def inlineOr (m : Locksmith σ) (info : LockInfo) : Option Bytes → Step Error (World σ) Bytes
  | some secret => pure secret
  | none => m.secretFor info

/-- Draws an ephemeral key and agrees with a recipient: the sender's public
key and the wrapping key. -/
def agreeWith (m : Locksmith σ) (recipient : Octets 32) : Step Error (World σ) (Octets 32 × Octets 32) := do
  let ephemeral ← World.draw 32
  Step.answer ((WrapKey.ofEphemeral m.suite ephemeral recipient).mapError Error.crypto)

/-! ## Making a lock -/

/-- What is sent to a server to deposit a capsule. -/
def depositRequest (recipient sender : Octets 32) : Bytes :=
  (Json.record [("recipient_key", .ofBytes recipient.val),
    ("sender_key", .ofBytes sender.val)]).render

/-- What is sent to a server to get a capsule back. -/
def releaseRequest (serverId transactionId : String) : Bytes :=
  (Json.record [("server_id", .ofText serverId), ("transaction_id", .ofText transactionId)]).render

/-- The wrapping key for a recipient, and the capsule to find it again. -/
def prepare (m : Locksmith σ) (info : LockInfo) : Recipient → Step Error (World σ) (Octets 32 × Capsule)
  | .password label password iterations => do
    let password ← m.inlineOr info password
    let iterations := iterations.getD m.config.iterations
    Step.answer ((checkIterations iterations).mapError fun f => .config (.iterations f))
    let salt ← World.draw 32
    let pwSalt ← World.draw 32
    let key ← Step.answer
      ((WrapKey.ofPassword m.suite password salt pwSalt iterations label).mapError Error.crypto)
    return (key, .password salt pwSalt iterations)
  | .symmetricKey label key => do
    let key ← m.inlineOr info key
    if key = [] then Step.fail (.crypto .emptyKey)
    else
      let salt ← World.draw 32
      return (WrapKey.ofKey m.suite key salt label, .symmetricKey salt)
  | .publicKey _ recipient => do
    let (sender, key) ← m.agreeWith recipient
    return (key, .publicKey recipient sender)
  | .certificate _ certificate recipient => do
    let (sender, key) ← m.agreeWith recipient
    return (key, .certificate (m.suite.hash certificate) recipient sender)
  | .server _ recipient serverId =>
    match m.providers.remote with
    | none => Step.fail (.network .noRemote)
    | some remote =>
      match serverId <|> m.config.keyServer with
      | none => Step.fail (.config .noKeyServer)
      | some serverId => do
        let (sender, key) ← m.agreeWith recipient
        let transactionId ←
          World.ask (Step.blame Error.network (remote.deposit serverId (depositRequest recipient sender)))
        return (key, .server recipient serverId transactionId)

/-- Makes the lock of a recipient at a place of the table. -/
def wrap (m : Locksmith σ) (index : Nat) (recipient : Recipient) (fmk : Fmk) : Step Error (World σ) Lock := do
  let label := recipient.label
  let type := recipient.type
  let (key, capsule) ← m.prepare ⟨index, type, label⟩ recipient
  let nonce ← World.draw 24
  let wrapped := m.suite.encrypt key nonce (Lock.context type label) fmk.key.val
  return ⟨index, label, nonce, wrapped, capsule⟩

/-! ## Opening a lock -/

/-- The wrapping key of a recipient with a private key. -/
def agreedKey (m : Locksmith σ) (index : Nat) (secret : Bytes) (recipient sender : Octets 32) :
    Step Error (World σ) (Octets 32) :=
  match WrapKey.ofPrivate? m.suite secret recipient sender with
  | some key => pure key
  | none => Step.fail (.lock index .wrongSecret)

/-- The wrapping key of a lock. -/
def recover (m : Locksmith σ) (lock : Lock) : Step Error (World σ) (Octets 32) :=
  match lock.capsule with
  | .password salt pwSalt iterations => do
    Step.answer ((checkIterations iterations).mapError fun f => .parse (.iterations f))
    let password ← m.secretFor lock.info
    Step.answer
      ((WrapKey.ofPassword m.suite password salt pwSalt iterations lock.label).mapError Error.crypto)
  | .symmetricKey salt => do
    let key ← m.secretFor lock.info
    return WrapKey.ofKey m.suite key salt lock.label
  | .publicKey recipient sender => do
    let secret ← m.secretFor lock.info
    m.agreedKey lock.index secret recipient sender
  | .certificate fingerprint recipient sender =>
    match m.providers.remote with
    | none =>
      Step.fail (.lock lock.index (.unsupported "certificate lock needs a remote provider"))
    | some remote => do
      let certificates ← World.ask (Step.blame Error.network remote.certificates)
      if certificates.any (fun c => m.suite.hash c = fingerprint) then
        let secret ← m.secretFor lock.info
        m.agreedKey lock.index secret recipient sender
      else Step.fail (.lock lock.index .certificateNotFound)
  | .server recipient serverId transactionId =>
    match m.providers.remote with
    | none =>
      Step.fail (.lock lock.index (.unsupported "server-assisted lock needs a remote provider"))
    | some remote => do
      let response ← World.ask (Step.blame Error.network
        (remote.release lock.index (releaseRequest serverId transactionId)))
      match Octets.ofBytes? 32 response with
      | none => Step.fail (.network (.keyLength serverId response.length))
      | some sender => do
        let secret ← m.secretFor lock.info
        m.agreedKey lock.index secret recipient sender

/-- Opens a lock. -/
def unwrap (m : Locksmith σ) (lock : Lock) : Step Error (World σ) Fmk := do
  let key ← m.recover lock
  match m.suite.decrypt? key lock.nonce (Lock.context lock.type lock.label) lock.wrapped with
  | none => Step.fail (.lock lock.index .wrongSecret)
  | some plain => Step.answer ((Fmk.ofBytes plain).mapError Error.crypto)

end Locksmith

end Lockbox
