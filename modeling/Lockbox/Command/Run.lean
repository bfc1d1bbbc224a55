import Lockbox.Command.Arguments
import Lockbox.Files
/-!
# Lockbox — running commands

A command works on a file tree with the environment and some randomness,
and ends with what it prints or with one line about what went wrong. A
recipient on the command line is a label, a type and a value between
colons; a lock is found again by that label, or by the whole label that
is stored.
-/

namespace Lockbox

namespace Command

/-- The name and version of the tool. -/
def versionLine : String := "cdoc 0.1.0\n"

/-- How the tool is called. -/
def usageText : String :=
  "Usage: cdoc [-c CONFIG] encrypt -o OUT -r LABEL:TYPE:VALUE... [--compress] FILES...\n" ++
  "       cdoc [-c CONFIG] decrypt FILE -l LABEL (-p PASSWORD | -s HEX) [--cert CERT] [-o DIR]\n" ++
  "       cdoc [-c CONFIG] locks FILE\n" ++
  "       cdoc test\n"

/-- How a command ended. -/
inductive Outcome where
  | done (stdout : String)
  | failed (message : String)
  | misused
  deriving DecidableEq, Repr

/-! ## Recipients -/

/-- The label stored for a recipient of this name. -/
def lockLabel (name type : String) : Except TaskError String :=
  (Label.build [("v", "1"), ("type", type), ("label", name)]).mapError fun f =>
    .container (.format f)

/-- A text without the blanks around it. -/
def trimmed (s : String) : String := String.ofList (Text.trim s.toList)

/-- A public key in hexadecimal digits. -/
def readKey (digits : String) : Except TaskError (Octets 32) :=
  match Hex.decode? (trimmed digits) with
  | none => .error (.obstacle .keyDigits)
  | some b =>
    match Octets.ofBytes? 32 b with
    | some key => .ok key
    | none => .error (.obstacle (.keyLength b.length))

/-- The label, type and value of a recipient. -/
def recipientParts? (arg : String) : Option (String × String × String) := do
  let (name, rest) ← Text.cut? ':' arg.toList
  let (type, value) ← Text.cut? ':' rest
  return (String.ofList name, String.ofList type, String.ofList value)

/-- A recipient with a certificate. -/
def readCertificateRecipient (t : FileTree) (name value : String) : Except TaskError Recipient :=
  match Text.cutLast? ':' value.toList with
  | none => .error (.obstacle (.certificateShape name))
  | some (path, digits) => do
    let path := String.ofList path
    let certificate ← Files.orObstacle (.recipientCertificate path) (t.read path)
    let label ← lockLabel name "cert"
    return .certificate label certificate (← readKey (String.ofList digits))

/-- The recipient that an argument describes. -/
def readRecipient (t : FileTree) (arg : String) : Except TaskError Recipient :=
  match recipientParts? arg with
  | none => .error (.obstacle (.recipientShape arg))
  | some (name, type, value) =>
    if name = "" then .error (.obstacle (.recipientLabel arg))
    else if type = "pw" then do
      return .password (← lockLabel name "password") (some (Bytes.ofText value)) none
    else if type = "skey" then do
      let label ← lockLabel name "secret"
      match Hex.decode? value with
      | some key => return .symmetricKey label (some key)
      | none => .error (.obstacle .symmetricKeyDigits)
    else if type = "pkey" then do
      return .publicKey (← lockLabel name "pub_key") (← readKey value)
    else if type = "cert" then readCertificateRecipient t name value
    else .error (.obstacle (.recipientType type))

/-! ## Locks -/

/-- The lock whose label is the one wanted or names it. -/
def findLock? (locks : List (LockInfo × String)) (wanted : String) : Option LockInfo :=
  (locks.map Prod.fst).find? fun info =>
    info.label = wanted ∨ Label.value? info.label "label" = some wanted

/-- The secret that was given. -/
def readSecret (password secret : Option String) : Except TaskError Bytes :=
  match password, secret with
  | some password, _ => .ok (Bytes.ofText password)
  | none, some digits =>
    match Hex.decode? (trimmed digits) with
    | some secret => .ok secret
    | none => .error (.obstacle .secretDigits)
  | none, none => .error (.obstacle .noSecret)

/-- Offers one certificate and has no server. -/
def localRemote (certificate : Bytes) : Remote Unit where
  certificates := pure [certificate]
  release _ _ := Step.fail (.reported "no key server available to the command-line tool")
  deposit := Remote.noDeposit

/-- A text followed by blanks up to a width. -/
def padded (width : Nat) (s : String) : String :=
  s ++ String.ofList (List.replicate (width - s.length) ' ')

/-- A row of the table of locks. -/
def lockRow (index label description : String) : String :=
  padded 6 index ++ " " ++ padded 40 label ++ " " ++ description ++ "\n"

/-- The table of the locks of a container. -/
def lockTable (path : String) (locks : List (LockInfo × String)) : String :=
  if locks = [] then "No readable locks found\n"
  else
    s!"Locks in {path} ({locks.length} total):\n\n" ++ lockRow "INDEX" "LABEL" "TYPE" ++
      String.ofList (List.replicate 72 '-') ++ "\n" ++
      String.join (locks.map fun l =>
        lockRow (toString l.1.index) ((Label.value? l.1.label "label").getD l.1.label) l.2)

/-- Each path on a line of its own. -/
def pathLines (paths : List String) : String := String.join (paths.map fun p => s!"  {p}\n")

/-! ## Commands -/

/-- Encrypts files. -/
def encryptFiles (S : Suite) (config : Config) (out : String) (recipients : List String)
    (compress : Bool) (files : List String) : Step TaskError (Site Unit) String := do
  let config := { config with compress := config.compress || compress }
  let recipients ← Step.answer (recipients.mapM (readRecipient (← Step.get).tree))
  let _ ← Files.encrypt ⟨S, config, .none⟩ out recipients files
  return pathLines files

/-- Decrypts a container with the lock of a label. -/
def decryptFile (S : Suite) (config : Config) (file label : String)
    (password secret cert : Option String) (out : String) :
    Step TaskError (Site Unit) String := do
  let t := (← Step.get).tree
  let locks ← Step.answer (Files.locks S config t file)
  match findLock? locks label with
  | none => Step.fail (.obstacle (.noSuchLabel label file))
  | some lock =>
    let secret ← Step.answer (readSecret password secret)
    let remote ← Step.answer (cert.mapM fun path => do
      return localRemote (← Files.orObstacle (.offeredCertificate path) (t.read path)))
    let secrets := LabelSecrets.empty.insert lock.label secret
    let written ← Files.decrypt ⟨S, config, secrets.toProviders remote⟩ file lock.index out
    return pathLines written

/-- A line about an entry and its data. -/
def entryLine (e : FileInfo × Bytes) : String :=
  s!"  {e.1.name} ({e.1.size.toNat} bytes): " ++ (Bytes.text? e.2).getD "" ++ "\n"

/-- Writes and reads a label and a small container. -/
def selfTestRun (S : Suite) : Step TaskError (Site Unit) String := do
  let format (f : Label.Fault) : TaskError := .container (.format f)
  let label ← Step.answer
    ((Label.build [("v", "1"), ("type", "password"), ("label", "a&b=c d")]).mapError format)
  let pairs ← Step.answer ((Label.parse label).mapError format)
  let data := Bytes.ofText "abc"
  let container ← Files.inWorld (Sealing.container ⟨S, .default, .none⟩
    [.password label (some (Bytes.ofText "pw")) none] [(⟨"a.txt", 3⟩, Source.ofBytes data)])
  let secrets := LabelSecrets.empty.insert label (Bytes.ofText "pw")
  let session ← Step.answer ((Opening.create ⟨S, .default, secrets.toProviders none⟩ false
    (Source.ofBytes container)).mapError .container)
  let entries ← Files.inWorld fun w =>
    match session.getFmk 0 w with
    | (.error e, _, w) => (.error e, w)
    | (.ok fmk, s, w) =>
      match s.decryptAll fmk Consumer.memory [] with
      | (.error e, _, _) => (.error e, w)
      | (.ok _, _, entries) => (.ok entries, w)
  return s!"Label codec:\n  encoded: {label}\n" ++
    String.join (pairs.map fun p => s!"  {p.1} = {p.2}\n") ++
    s!"\nRound trip:\n  container: {container.length} bytes, lock 0\n" ++
    String.join (session.locks.map fun l => s!"  lock {l.index}: {l.type.name} {l.label}\n") ++
    String.join (entries.map entryLine) ++
    "\nOK\n"

/-- Does what a command asks for. -/
def perform (S : Suite) (config : Config) : Command → Step TaskError (Site Unit) String
  | .encrypt out recipients compress files => encryptFiles S config out recipients compress files
  | .decrypt file label password secret cert out =>
    decryptFile S config file label password secret cert out
  | .locks file => do
    let locks ← Step.answer (Files.locks S config (← Step.get).tree file)
    return lockTable file locks
  | .selfTest => selfTestRun S

/-- Runs a command line on a file tree. -/
def run (S : Suite) (env : Environment) (words : List String) (t : FileTree) (entropy : Entropy) :
    Outcome × FileTree :=
  match read words with
  | .error .usage => (.misused, t)
  | .error .help => (.done usageText, t)
  | .error .version => (.done versionLine, t)
  | .ok invocation =>
    match Files.findConfig env t invocation.config with
    | .error e => (.failed e.message, t)
    | .ok config =>
      match perform S config invocation.command ⟨t, ⟨entropy, ()⟩⟩ with
      | (.ok stdout, site) => (.done stdout, site.tree)
      | (.error e, site) => (.failed e.message, site.tree)

/-- The exit code of an outcome. -/
def Outcome.code : Outcome → UInt32
  | .done _ => 0
  | .failed _ => 1
  | .misused => 2

end Command

end Lockbox
