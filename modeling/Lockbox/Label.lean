import Lockbox.Percent
import Lockbox.Text.Split
import Lockbox.Text.Utf8
/-!
# Lockbox — lock labels

A label is an ordered list of keys and values, written as `data:` and
then `key=value` components between ampersands, with keys and values in
percent escapes. Keys are not empty and no key occurs twice, in either
direction: two spellings of one key are the same key. A label carries no
cryptographic meaning beyond being bound into its lock.
-/

namespace Lockbox

namespace Label

/-- Why a label cannot be written or read. -/
inductive Fault where
  | wrongStart
  | noEquals (component : String)
  | secondEquals (component : String)
  | brokenEscape (raw : String)
  | notText (fault : Utf8.Fault)
  | emptyKey
  | duplicateKey (key : String)
  deriving DecidableEq, Repr

/-- The wording of a fault. -/
def Fault.message : Fault → String
  | .wrongStart => "label must start with 'data:'"
  | .noEquals c => s!"label component '{c}' has no '='"
  | .secondEquals c => s!"unescaped '=' in label component '{c}'"
  | .brokenEscape raw => s!"broken escape in '{raw}'"
  | .notText f => s!"label is not valid UTF-8: {f.message}"
  | .emptyKey => "label key cannot be empty"
  | .duplicateKey k => s!"duplicate label key '{k}'"

/-- What every label starts with. -/
def start : List Char := ['d', 'a', 't', 'a', ':']

/-! ## Writing -/

/-- The first key that is empty or occurs before. -/
def checkKeys (seen : List String) : List String → Except Fault Unit
  | [] => .ok ()
  | k :: rest =>
    if k = "" then .error .emptyKey
    else if k ∈ seen then .error (.duplicateKey k)
    else checkKeys (k :: seen) rest

/-- One component. -/
def component (p : String × String) : List Char := Percent.escape p.1 ++ '=' :: Percent.escape p.2

/-- The written form of pairs, whatever their keys. -/
def render (pairs : List (String × String)) : String :=
  String.ofList (start ++ ['&'].intercalate (pairs.map component))

/-- The label of a list of pairs. -/
def build (pairs : List (String × String)) : Except Fault String := do
  checkKeys [] (pairs.map Prod.fst)
  return render pairs

/-! ## Reading -/

/-- The parts between ampersands. -/
def components (cs : List Char) : List (List Char) := Text.split (· = '&') cs

/-- The text that a written key or value stands for. -/
def unescape (raw : List Char) : Except Fault String :=
  match Percent.unescape? raw with
  | none => .error (.brokenEscape (String.ofList raw))
  | some b =>
    match Bytes.text? b with
    | some s => .ok s
    | none => .error (.notText ((Utf8.fault? b).getD (.incomplete 0)))

/-- The pair that a component stands for, given the keys before it. -/
def readComponent (seen : List String) (part : List Char) : Except Fault (String × String) :=
  match Text.cut? '=' part with
  | none => .error (.noEquals (String.ofList part))
  | some (rawKey, rawValue) =>
    if '=' ∈ rawValue then .error (.secondEquals (String.ofList part))
    else do
      let key ← unescape rawKey
      if key = "" then .error .emptyKey
      else if key ∈ seen then .error (.duplicateKey key)
      else return (key, ← unescape rawValue)

/-- The pairs of the components that are left, those read so far newest
first. -/
def readComponents (done : List (String × String)) :
    List (List Char) → Except Fault (List (String × String))
  | [] => .ok done.reverse
  | part :: rest => do
    let p ← readComponent (done.map Prod.fst) part
    readComponents (p :: done) rest

/-- The pairs of a label. -/
def parse (label : String) : Except Fault (List (String × String)) :=
  let cs := label.toList
  if cs.take start.length = start then
    match cs.drop start.length with
    | [] => .ok []
    | body => readComponents [] (components body)
  else .error .wrongStart

/-- The value of a key; nothing if the label is no label or has no such
key. -/
def value? (label key : String) : Option String :=
  match parse label with
  | .ok pairs => pairs.lookup key
  | .error _ => none

end Label

end Lockbox
