import Lockbox.Path
import Lockbox.Step
import Lockbox.Stream
/-!
# Lockbox — file trees

A file tree says what there is at each place, a place being the names on
the way from the root. Paths are followed step by step from the working
directory, and what stands in the way decides the error. Operations that
write give a new tree: `node?_put` and its companions say that nothing
else changes.
-/

namespace Lockbox

/-- What there is at a place. -/
inductive Node where
  | file (data : Bytes)
  | directory
  deriving DecidableEq

/-- The names on the way from the root. -/
abbrev Place := List String

/-- What there is at which places, and the working directory. -/
structure FileTree where
  nodes : List (Place × Node)
  here : Place

namespace FileTree

/-- The longest name in bytes. -/
def maxName : Nat := 255

/-- The longest path in bytes. -/
def maxPath : Nat := 4095

/-- A tree with nothing but its working directory. -/
def empty (here : Place) : FileTree := ⟨[(here, .directory)], here⟩

/-- What there is at a place. The root is a directory. -/
def node? (t : FileTree) (place : Place) : Option Node :=
  if place = [] then some .directory else t.nodes.lookup place

/-- The tree with something at a place. -/
def put (t : FileTree) (place : Place) (node : Node) : FileTree :=
  { t with nodes := (place, node) :: t.nodes.filter (·.1 ≠ place) }

/-- The tree with nothing at a place. -/
def clear (t : FileTree) (place : Place) : FileTree :=
  { t with nodes := t.nodes.filter (·.1 ≠ place) }

/-- Follows the parts of a path. All but the last must be there and be
directories. -/
def walk (t : FileTree) (place : Place) : List String → Except IoError Place
  | [] => .ok place
  | part :: rest =>
    match t.node? place with
    | none => .error (.system .notFound)
    | some (.file _) => .error (.system .notADirectory)
    | some .directory =>
      if Path.isIdle part then walk t place rest
      else if part = ".." then walk t place.dropLast rest
      else if maxName < part.utf8ByteSize then .error (.system .invalidFilename)
      else walk t (place ++ [part]) rest

/-- Follows these parts of a path from where the path begins. -/
def follow (t : FileTree) (path : String) (parts : List String) : Except IoError Place :=
  if path = "" then .error (.system .notFound)
  else if '\x00' ∈ path.toList then
    .error ⟨.invalidInput, .library "file name contained an unexpected NUL byte"⟩
  else if maxPath < path.utf8ByteSize then .error (.system .invalidFilename)
  else t.walk (if Path.isAbsolute path then [] else t.here) parts

/-- The place of a path. -/
def locate (t : FileTree) (path : String) : Except IoError Place := t.follow path (Path.parts path)

/-- The parts of a path without slashes at its end. -/
def partsOfNew (path : String) : List String :=
  ((Path.parts path).reverse.dropWhile (· = "")).reverse

/-- The place where a path wants something created: slashes at its end do
not ask for what is not there yet. -/
def locateNew (t : FileTree) (path : String) : Except IoError Place :=
  t.follow path (partsOfNew path)

/-- What there is at a path. -/
def find (t : FileTree) (path : String) : Except IoError Node := do
  match t.node? (← t.locate path) with
  | some node => return node
  | none => .error (.system .notFound)

/-- There is something at a path. -/
def has (t : FileTree) (path : String) : Bool :=
  match t.find path with
  | .ok _ => true
  | .error _ => false

/-- There is a directory at a path. -/
def isDirectory (t : FileTree) (path : String) : Bool :=
  match t.find path with
  | .ok .directory => true
  | _ => false

/-! ## Reading -/

/-- The size that a directory is said to have. -/
def directorySize : UInt64 := 4096

/-- The size of what there is at a path. -/
def size (t : FileTree) (path : String) : Except IoError UInt64 := do
  match ← t.find path with
  | .file data => return data.length.toUInt64
  | .directory => return directorySize

/-- Opens what there is at a path. A directory opens, but cannot be read. -/
def source (t : FileTree) (path : String) : Except IoError Source := do
  match ← t.find path with
  | .file data => return .ofBytes data
  | .directory => return [.failure (.system .isADirectory)]

/-- The data of the file at a path. -/
def read (t : FileTree) (path : String) : Except IoError Bytes := do
  match ← t.find path with
  | .file data => return data
  | .directory => .error (.system .isADirectory)

/-- One place comes before another: names are compared in turn, and what
contains another comes first. -/
def precedes : Place → Place → Bool
  | [], _ => true
  | _, [] => false
  | a :: as, b :: bs => if a = b then precedes as bs else a < b

/-- Everything below the working directory, in order. -/
def listing (t : FileTree) : List (Place × Node) :=
  let below := t.nodes.filter fun n => t.here.isPrefixOf n.1 ∧ n.1 ≠ t.here
  (below.map fun n => (n.1.drop t.here.length, n.2)).mergeSort fun a b => precedes a.1 b.1

/-! ## Writing -/

/-- An empty file where there was nothing. -/
def createNew (t : FileTree) (path : String) : Except IoError FileTree := do
  let place ← t.locate path
  match t.node? place with
  | some _ => .error (.system .alreadyExists)
  | none => return t.put place (.file [])

/-- Puts a file in the place of whatever file was there. A path with a
slash at its end is no path of a file, whatever its last name. -/
def replace (t : FileTree) (path : String) (data : Bytes) : Except IoError FileTree := do
  if Path.endsInSlash path then
    let _ ← t.follow path ((partsOfNew path).dropLast ++ ["."])
    .error (.system .isADirectory)
  else
    let place ← t.locate path
    if t.node? place = some .directory then .error (.system .isADirectory)
    else return t.put place (.file data)

/-- Removes a file. -/
def remove (t : FileTree) (path : String) : Except IoError FileTree := do
  let place ← t.locate path
  match t.node? place with
  | some (.file _) => return t.clear place
  | some .directory => .error (.system .isADirectory)
  | none => .error (.system .notFound)

/-- A directory where there was nothing. -/
def createDirectory (t : FileTree) (path : String) : Except IoError FileTree := do
  let place ← t.locateNew path
  match t.node? place with
  | some _ => .error (.system .alreadyExists)
  | none => return t.put place .directory

/-- Creates a directory after those it is in, at most `depth` of them. A
directory that is there already is as good as a new one. -/
def createUpTo : (depth : Nat) → (path : String) → Step IoError FileTree Unit
  | 0, _ => Step.fail (.system .notFound)
  | depth + 1, path => fun t =>
    if t.isDirectory path then (.ok (), t)
    else match t.createDirectory path with
      | .ok t => (.ok (), t)
      | .error e =>
        if e.kind ≠ .notFound then (.error e, t)
        else match createUpTo depth (Path.parent path) t with
          | (.error e, t) => (.error e, t)
          | (.ok (), t) =>
            match t.createDirectory path with
            | .ok t => (.ok (), t)
            | .error e => if t.isDirectory path then (.ok (), t) else (.error e, t)

/-- Creates a directory and those it is in, as far as they are missing. -/
def createDirectories (path : String) : Step IoError FileTree Unit :=
  if path = "" then pure () else createUpTo ((Path.parts path).length + 1) path

/-! ## Nothing else changes -/

theorem lookup_filter_ne {place other : Place} (h : other ≠ place) (nodes : List (Place × Node)) :
    (nodes.filter (·.1 ≠ place)).lookup other = nodes.lookup other := by
  induction nodes with
  | nil => rfl
  | cons n nodes ih =>
    obtain ⟨p, node⟩ := n
    by_cases hp : p = place
    · have hne : (other == p) = false := by simpa [hp] using h
      rw [List.filter_cons_of_neg (by simpa using hp), ih, List.lookup_cons, hne]
    · rw [List.filter_cons_of_pos (by simpa using hp), List.lookup_cons, List.lookup_cons, ih]

/-- What was put is there. -/
theorem node?_put_self {t : FileTree} {place : Place} (h : place ≠ []) (node : Node) :
    (t.put place node).node? place = some node := by
  simp [node?, put, h]

/-- Elsewhere nothing has changed. -/
theorem node?_put_of_ne {t : FileTree} {place other : Place} (h : other ≠ place) (node : Node) :
    (t.put place node).node? other = t.node? other := by
  have hne : (other == place) = false := by simpa using h
  simp only [node?, put, List.lookup_cons, hne]
  rw [lookup_filter_ne h]

/-- To clear a place changes nothing elsewhere. -/
theorem node?_clear_of_ne {t : FileTree} {place other : Place} (h : other ≠ place) :
    (t.clear place).node? other = t.node? other := by
  simp only [node?, clear]
  rw [lookup_filter_ne h]

end FileTree

end Lockbox
