import Lockbox.Text.Split
/-!
# Lockbox — paths

A path is a text of parts between slashes. Empty parts and single dots
are steps that lead nowhere, and two dots lead up.
-/

namespace Lockbox

namespace Path

/-- The parts between slashes. -/
def parts (p : String) : List String := (Text.split (· = '/') p.toList).map String.ofList

/-- The path starts at the root. -/
def isAbsolute (p : String) : Bool := p.toList.head? = some '/'

/-- The part leads nowhere. -/
def isIdle (part : String) : Bool := part = "" ∨ part = "."

/-- The last part that leads somewhere, unless it leads up. -/
def fileName? (p : String) : Option String :=
  match (parts p).reverse.dropWhile isIdle with
  | [] => none
  | part :: _ => if part = ".." then none else some part

/-- The path without the last part that leads somewhere; a single dot if
nothing is left of a relative path. -/
def parent (p : String) : String :=
  let shorten (ps : List String) : String :=
    "/".intercalate ((((ps.reverse.dropWhile isIdle).drop 1).dropWhile isIdle).reverse)
  if isAbsolute p then "/" ++ shorten ((parts p).drop 1)
  else
    let rest := shorten (parts p)
    if rest = "" then "." else rest

/-- The path ends in a slash. -/
def endsInSlash (p : String) : Bool := p.toList.getLast? = some '/'

/-- A name in a directory. -/
def join (dir name : String) : String :=
  if dir = "" ∨ endsInSlash dir then dir ++ name else dir ++ "/" ++ name

end Path

end Lockbox
