import Lockbox.Consumer
import Lockbox.FileTree
/-!
# Lockbox — extracting entries into a directory

Every entry becomes a file of the directory, under the last part of its
name, so that no entry can leave the directory. A file that is there is
never replaced. The system may refuse to create a file, and a file may take
less than it is given, at any write or when it is flushed. An entry that
could not be read or written completely leaves no file.
-/

namespace Lockbox

/-- A file tree and the paths that were written so far. -/
structure Extraction where
  tree : FileTree
  written : List String

/-- How the system takes new files: whether it creates one at a path where the
tree has room for it, and the sink that then leads to the file, which is
empty. No path is created twice, so every file may have failures of its own. -/
structure Disk where
  create : String → Except IoError Sink
  empty : ∀ path sink, create path = .ok sink → sink.accepted = []

/-- Every file is created and takes all that it is given. -/
def Disk.reliable : Disk where
  create _ := .ok .unlimited
  empty _ _ h := by cases h; rfl

namespace Consumer

/-- The character separates the parts of an entry name. -/
def separatesName (c : Char) : Bool := c = '/' ∨ c = '\\'

/-- The path of an entry in a directory. -/
def target (dir name : String) : Except IoError String :=
  let last := String.ofList (Text.lastPart separatesName name.toList)
  if last = "" ∨ last = "." ∨ last = ".." then
    .error ⟨.invalidInput, .own s!"unusable entry name '{name}'"⟩
  else .ok (Path.join dir last)

/-- Extracts entries into a directory. A file has its data when its sink was
flushed; if that fails, it stays, but does not count as written. -/
def directory (disk : Disk) (dir : String) : Consumer Extraction where
  openEntry info x :=
    match target dir info.name with
    | .error e => (.error e, x)
    | .ok path =>
      match x.tree.createNew path with
      | .error e => (.error e, x)
      | .ok tree =>
        match disk.create path with
        | .error e => (.error e, x)
        | .ok sink => (.ok sink, { x with tree })
  closeEntry info sink x :=
    match target dir info.name with
    | .error e => (.error e, x)
    | .ok path =>
      match x.tree.replace path sink.accepted with
      | .error e => (.error e, x)
      | .ok tree =>
        match sink.flush with
        | .error e => (.error e, { x with tree })
        | .ok () => (.ok (), ⟨tree, x.written ++ [path]⟩)
  abortEntry info _ x :=
    match target dir info.name with
    | .error _ => x
    | .ok path =>
      -- whatever of the data has reached the file goes with it
      match x.tree.remove path with
      | .error _ => x
      | .ok tree => { x with tree }

end Consumer

end Lockbox
