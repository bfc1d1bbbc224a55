import Lockbox.Consumer.Directory
import Lockbox.Opening
import Lockbox.Sealing
import Lockbox.Task
/-!
# Lockbox — containers in a file tree

Encrypting files into a container, decrypting one into a directory,
listing its locks, and loading a configuration. A container appears at
its path only when it is complete: whatever fails before leaves the tree
as it was.
-/

namespace Lockbox

/-- A container of these recipients and entries. -/
def Sealing.container {σ : Type} (smith : Locksmith σ) (recipients : List Recipient)
    (files : List (FileInfo × Source)) : Step Error (World σ) Bytes := fun w =>
  match Sealing.create smith containerVersion .unlimited .unlimited with
  | .error e => (.error e, w)
  | .ok s =>
    match s.encryptAll recipients files w with
    | (.error e, _, w) => (.error e, w)
    | (.ok (), s, w) => (.ok s.dest.accepted, w)

/-- Where work on files happens: a file tree and the world. -/
structure Site (σ : Type) where
  tree : FileTree
  world : World σ

namespace Files

variable {σ α : Type}

/-- A step on the world of a site. -/
def inWorld (x : Step Error (World σ) α) : Step TaskError (Site σ) α :=
  (Step.blame TaskError.container x).zoom Site.world fun world s => { s with world }

/-- What a tree answers, or else an obstacle. -/
def orObstacle (o : Obstacle) : Except IoError α → Except TaskError α
  | .ok a => .ok a
  | .error _ => .error (.obstacle o)

/-- An obstacle where a tree cannot be changed. -/
def change (o : Obstacle) (x : Step IoError FileTree α) : Step TaskError (Site σ) α :=
  (Step.blame (fun _ => .obstacle o) x).zoom Site.tree fun tree s => { s with tree }

/-! ## Encrypting -/

/-- The announcement of a file: its last name and its size. -/
def announce (t : FileTree) (input : String) : Except TaskError (FileInfo × String) :=
  match Path.fileName? input with
  | none => .error (.obstacle (.noFileName input))
  | some name => do
    let size ← orObstacle (.metadata input) (t.size input)
    let info ← (FileInfo.create name size).mapError fun f => .container (.invalidName f)
    return (info, input)

/-- The source of an announced file. -/
def openInput (t : FileTree) (entry : FileInfo × String) : Except TaskError (FileInfo × Source) :=
  do return (entry.1, ← orObstacle (.opening entry.2) (t.source entry.2))

/-- There must be a directory to put a temporary file in. -/
def checkRoom (t : FileTree) (dir : String) : Except TaskError Unit :=
  if t.isDirectory dir then .ok () else .error (.obstacle (.temporaryFile dir))

/-- Encrypts files into a container and gives its size. -/
def encrypt (smith : Locksmith σ) (output : String) (recipients : List Recipient)
    (inputs : List String) : Step TaskError (Site σ) Nat := do
  let t := (← Step.get).tree
  let entries ← Step.answer (inputs.mapM (announce t))
  let sources ← Step.answer (entries.mapM (openInput t))
  Step.answer (checkRoom t (Path.parent output))
  let container ← inWorld (Sealing.container smith recipients sources)
  change (.placing output) fun t =>
    match t.replace output container with
    | .ok t => (.ok (), t)
    | .error e => (.error e, t)
  return container.length

/-! ## Decrypting -/

/-- The source of the container at a path. -/
def openContainer (t : FileTree) (path : String) : Except TaskError Source :=
  orObstacle (.opening path) (t.source path)

/-- Decrypts a container into a directory and gives the paths written. -/
def decrypt (smith : Locksmith σ) (path : String) (index : Nat) (dir : String) :
    Step TaskError (Site σ) (List String) := do
  change (.outputDirectory dir) (FileTree.createDirectories dir)
  let source ← Step.answer (openContainer (← Step.get).tree path)
  let session ← Step.answer ((Opening.create smith false source).mapError .container)
  let (fmk, session) ← inWorld fun w =>
    match session.getFmk index w with
    | (.ok fmk, s, w) => (.ok (fmk, s), w)
    | (.error e, _, w) => (.error e, w)
  fun s =>
    match session.decryptAll fmk (Consumer.directory .reliable dir) ⟨s.tree, []⟩ with
    | (.ok _, _, x) => (.ok x.written, { s with tree := x.tree })
    | (.error e, _, x) => (.error (.container e), { s with tree := x.tree })

/-- The locks of a container with a line about each. Entries that are no
locks are left out. -/
def locks (S : Suite) (config : Config) (t : FileTree) (path : String) :
    Except TaskError (List (LockInfo × String)) := do
  let source ← openContainer t path
  let smith : Locksmith Unit := ⟨S, config, .none⟩
  let session ← (Opening.create smith true source).mapError .container
  return session.header.locks.map fun lock => (lock.info, lock.description)

/-! ## Configuration -/

/-- The text of a configuration file. -/
def configText (t : FileTree) (path : String) : Except TaskError Bytes := do
  let text ← orObstacle (.readingConfig path) (t.read path)
  if (Bytes.text? text).isSome then return text else .error (.obstacle (.readingConfig path))

/-- Settings with those of the environment, if they are of use. -/
def settled (env : Environment) (c : Config) : Except TaskError Config :=
  match c.override? env with
  | none => .error (.obstacle .iterationsVariable)
  | some c =>
    match c.check with
    | .error f => .error (.obstacle (.settings f))
    | .ok () => .ok c

/-- The settings of a file, under those of the environment. -/
def loadConfig (env : Environment) (t : FileTree) (path : String) : Except TaskError Config := do
  match Config.ofText? (← configText t path) with
  | none => .error .json
  | some c => settled env c

/-- The settings of a file if there is one, the environment naming it if
nobody else does, under those of the environment. -/
def findConfig (env : Environment) (t : FileTree) (path : Option String) :
    Except TaskError Config :=
  match path <|> env.lookup Config.pathVariable with
  | none => settled env .default
  | some path =>
    if t.has path then do
      match Config.ofText? (← configText t path) with
      | none => .error (.obstacle (.parsingConfig path))
      | some c => settled env c
    else settled env .default

end Files

end Lockbox
