import Lockbox.Command.Run
/-!
# Lockbox — what a command touches

A command line tells beforehand which paths it is going to look at, so
that a tree with what there is at those places stands for the whole file
system. Afterwards the difference of two trees says what is to be done.
-/

namespace Lockbox

namespace Path

/-- The places that a path leads through, begun from `here` unless it
starts at the root, the last one first. -/
def places (here : Place) (path : String) : List Place :=
  let start : Place := if isAbsolute path then [] else here
  (parts path).foldl (fun passed part =>
    let place := passed.headD start
    (if isIdle part then place else if part = ".." then place.dropLast else place ++ [part]) :: passed)
    [start]

/-- The path of a place. -/
def ofPlace (place : Place) : String := "/" ++ "/".intercalate place

end Path

namespace FileTree

/-- What has to be done at a place. -/
inductive Change where
  | create
  | write (data : Bytes)
  | remove
  deriving DecidableEq

/-- What makes the tree `before` into `after`: first what went, then what
came, what contains something before what it contains. -/
def changes (before after : FileTree) : List (Place × Change) :=
  let gone := before.nodes.filter fun n => (after.node? n.1).isNone
  let came := after.nodes.reverse.filter fun n => before.node? n.1 ≠ some n.2
  gone.map (fun n => (n.1, .remove)) ++ came.map fun n =>
    (n.1, match n.2 with
      | .directory => .create
      | .file data => .write data)

end FileTree

namespace Command

/-- The certificate of a recipient on the command line. -/
def certificatePath? (arg : String) : Option String := do
  let (_, type, value) ← recipientParts? arg
  if type = "cert" then return String.ofList (← Text.cutLast? ':' value.toList).1 else none

/-- The paths that a command looks at. -/
def paths : Command → List String
  | .encrypt out recipients _ files => out :: recipients.filterMap certificatePath? ++ files
  | .decrypt file _ _ _ cert out => file :: cert.toList ++ [out]
  | .locks file => [file]
  | .selfTest => []

/-- The directories whose contents matter to a command. -/
def directories : Command → List String
  | .decrypt _ _ _ _ _ out => [out]
  | _ => []

end Command

/-- The paths that an invocation looks at. -/
def Invocation.paths (env : Environment) (i : Invocation) : List String :=
  (i.config <|> env.lookup Config.pathVariable).toList ++ i.command.paths

end Lockbox
