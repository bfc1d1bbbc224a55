import Lockbox.Files
/-!
# Lockbox — encrypting by way of a temporary file

What `Files.encrypt` does in one move takes several. A container is written
into a temporary file beside the output, which is moved over the output
when it is complete. On the way there an input may fail or deliver other
data than were announced, there may be no name left for the temporary
file, and the spool and the disk may take less than they are given.
Whatever goes wrong drops the temporary file, which is handed back for that
if it could not be moved, and a file that is dropped is removed.
-/

namespace Lockbox

namespace FileTree

/-- An empty file in a directory, under the first of these names that is not
taken. The answer is its place. -/
def stage (dir : String) : List String → Step IoError FileTree Place
  | [], t => (.error (.system .alreadyExists), t)
  | name :: rest, t =>
    match t.createNew (Path.join dir name) with
    | .ok t' => (t.locate (Path.join dir name), t')
    | .error e => if e.kind = .alreadyExists then stage dir rest t else (.error e, t)

/-- Moves the file at a place over whatever file was at a path. -/
def persist (place : Place) (path : String) : Step IoError FileTree Unit := fun t =>
  match t.node? place with
  | some (.file data) =>
    match (t.clear place).replace path data with
    | .ok t' => (.ok (), t')
    | .error e => (.error e, t)
  | _ => (.error (.system .notFound), t)

end FileTree

namespace Files

variable {σ α : Type}

/-- How things go while files are encrypted: what an input delivers once it
was announced, the names that are drawn for a temporary file, where the
payload is kept and where the container is written. -/
structure Surroundings where
  source : String → Except IoError Source
  names : List String
  spool : Sink
  disk : Sink

/-- Writes a container into the file at a place and gives its size. What was
written is in the file even if something fails. -/
def fill (smith : Locksmith σ) (x : Surroundings) (place : Place) (recipients : List Recipient)
    (sources : List (FileInfo × Source)) : Step TaskError (Site σ) Nat := fun s =>
  match Sealing.create smith containerVersion x.spool x.disk with
  | .error e => (.error (.container e), s)
  | .ok session =>
    let (result, session, world) := session.encryptAll recipients sources s.world
    let site : Site σ := ⟨s.tree.put place (.file session.dest.accepted), world⟩
    match result with
    | .error e => (.error (.container e), site)
    | .ok () =>
      -- what is still in a buffer is written before the file is let go
      match session.dest.flush with
      | .error e => (.error (.container (.io e)), site)
      | .ok () => (.ok session.dest.accepted.length, site)

/-- Writes a container into the temporary file at a place, moves it over the
output and gives its size. -/
def complete (smith : Locksmith σ) (x : Surroundings) (place : Place) (output : String)
    (recipients : List Recipient) (sources : List (FileInfo × Source)) :
    Step TaskError (Site σ) Nat := do
  let size ← fill smith x place recipients sources
  change (.placing output) (FileTree.persist place output)
  return size

end Files

end Lockbox
