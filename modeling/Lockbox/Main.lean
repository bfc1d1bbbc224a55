import Lockbox.Command.Reach
/-!
# Lockbox — the command-line tool

The outer layer: it looks at the file system, runs the command on the
tree it found, and does what the command did.
-/

namespace Lockbox

namespace Tool

/-- The variables that the tool looks at. -/
def environment : IO Environment := do
  let names := [Config.pathVariable, Config.iterationsVariable, Config.compressVariable,
    Config.keyServerVariable]
  names.filterMapM fun name => do return (← IO.getEnv name).map fun value => (name, value)

/-- The tree with what the file system has at a place. -/
def look (t : FileTree) (place : Place) : IO FileTree := do
  try
    let path ← IO.FS.realPath (Path.ofPlace place)
    if ← path.isDir then return t.put place .directory
    else return t.put place (.file (← IO.FS.readBinFile path).toList)
  catch _ => return t

/-- The tree with what the file system has below a place. -/
def lookInside (t : FileTree) (place : Place) : IO FileTree := do
  try
    let path ← IO.FS.realPath (Path.ofPlace place)
    (← path.readDir).foldlM (fun t entry => do
      let node : Node := if ← entry.path.isDir then .directory else .file []
      let below := place ++ [entry.fileName]
      return if (t.node? below).isSome then t else t.put below node) t
  catch _ => return t

/-- What an invocation needs of the file system. -/
def observe (env : Environment) (here : Place) (i : Invocation) : IO FileTree := do
  let places := (i.paths env).flatMap (Path.places here)
  let t ← places.foldlM look (FileTree.empty here)
  (i.command.directories.map fun d => (Path.places here d).headD here).foldlM lookInside t

/-- Does to the file system what was done to a tree. -/
def apply (change : Place × FileTree.Change) : IO Unit :=
  let path := Path.ofPlace change.1
  match change.2 with
  | .create => IO.FS.createDir path
  | .write data => IO.FS.writeBinFile path data.toByteArray
  | .remove => IO.FS.removeFile path

/-- Enough random bytes for a command line of so many words. -/
def randomness (words : Nat) : IO Entropy := do
  return Entropy.ofBytes (← IO.getRandomBytes (128 * (words + 1)).toUSize)

/-- Runs a command line and gives the exit code. -/
def run (words : List String) : IO UInt32 := do
  let env ← environment
  let here := (Path.parts (← IO.currentDir).toString).filter (· ≠ "")
  let before ← match Command.read words with
    | .ok i => observe env here i
    | .error _ => pure (FileTree.empty here)
  let entropy ← randomness words.length
  let (outcome, after) := Command.run Suite.standard env words before entropy
  for change in before.changes after do
    apply change
  match outcome with
  | .done text => IO.print text
  | .failed message => IO.eprintln s!"Error: {message}"
  | .misused => IO.eprint Command.usageText
  return outcome.code

end Tool

end Lockbox

/-- The command-line tool. -/
def main (words : List String) : IO UInt32 := Lockbox.Tool.run words
