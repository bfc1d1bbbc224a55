import Lockbox.Error
import Lockbox.Json.Record
import Lockbox.Text.Blank
/-!
# Lockbox — configuration

The few settings a container is written with. They come from defaults,
then from the members of a JSON record, then from the environment; a
member that is missing keeps its default. `Config.check` says which
settings are of no use.
-/

namespace Lockbox

/-- The settings of a session. The spool limit is how much of a payload is
kept in memory before the container is complete. -/
structure Config where
  iterations : UInt32 := 65535
  compress : Bool := false
  spoolLimit : UInt64 := 16777216
  keyServer : Option String := none
  deriving DecidableEq, Repr

/-- Settings that are of no use. -/
inductive ConfigFault where
  | noIterations
  | tooManyIterations
  | noSpool
  deriving DecidableEq, Repr

/-- The wording of a fault. -/
def ConfigFault.message : ConfigFault → String
  | .noIterations => "kdf_iterations must be at least 1"
  | .tooManyIterations => s!"kdf_iterations must not exceed {maxIterations}"
  | .noSpool => "spool_limit must be at least 1 byte"

/-- The variables of an environment. -/
abbrev Environment := List (String × String)

namespace Config

/-- All defaults. -/
def default : Config := {}

instance : Inhabited Config := ⟨default⟩

/-- Says which setting is of no use. -/
def check (c : Config) : Except ConfigFault Unit :=
  if c.iterations = 0 then .error .noIterations
  else if maxIterations < c.iterations.toNat then .error .tooManyIterations
  else if c.spoolLimit = 0 then .error .noSpool
  else .ok ()

/-- The names of the members. -/
def memberNames : List String := ["kdf_iterations", "compress", "spool_limit", "key_server"]

/-- A value, or what stands for it where it is missing. -/
def member {α : Type} (missing : α) (read : Json → Option α) : Option Json → Option α
  | none => some missing
  | some j => read j

/-- A text or none. -/
def textOrNull? : Json → Option (Option String)
  | .null => some none
  | j => j.text?.map some

/-- The settings in a record. -/
def ofJson? (j : Json) : Option Config := do
  match ← j.fields? memberNames with
  | [iterations, compress, spoolLimit, keyServer] =>
    return {
      iterations := ← member default.iterations (fun j => (j.nat? (UInt32.size - 1)).map Nat.toUInt32) iterations
      compress := ← member default.compress Json.bool? compress
      spoolLimit := ← member default.spoolLimit (fun j => (j.nat? (UInt64.size - 1)).map Nat.toUInt64) spoolLimit
      keyServer := ← member default.keyServer textOrNull? keyServer }
  | _ => none

/-- The settings in a text. -/
def ofText? (text : Bytes) : Option Config := do ofJson? (← Json.parse? text)

/-! ## The environment -/

/-- The variable with the path of a configuration file. -/
def pathVariable : String := "CDOC_CONFIG"

/-- The variable with the number of iterations. -/
def iterationsVariable : String := "CDOC_KDF_ITERATIONS"

/-- The variable that says whether to compress. -/
def compressVariable : String := "CDOC_COMPRESS"

/-- The variable with the name of a key server. -/
def keyServerVariable : String := "CDOC_KEY_SERVER"

/-- The number that decimal digits stand for. -/
def decimal? (cs : List Char) : Option Nat :=
  if cs = [] then none
  else cs.foldlM (fun n c => if c.isDigit then some (n * 10 + (c.toNat - 48)) else none) 0

/-- The number of iterations in a text: digits, perhaps after a plus sign
and between blanks. -/
def iterationsOf? (text : String) : Option UInt32 := do
  let digits := match Text.trim text.toList with
    | '+' :: digits => digits
    | digits => digits
  let n ← decimal? digits
  if n < UInt32.size then some n.toUInt32 else none

/-- The text says yes. -/
def saysYes (text : String) : Bool :=
  String.ofList ((Text.trim text.toList).map Char.toLower) ∈ ["1", "true", "yes"]

/-- The settings with those of the environment in their place; nothing if
the environment names a number of iterations that is none. -/
def override? (env : Environment) (c : Config) : Option Config := do
  let iterations ← match env.lookup iterationsVariable with
    | some text => iterationsOf? text
    | none => some c.iterations
  let compress := match env.lookup compressVariable with
    | some text => saysYes text
    | none => c.compress
  let keyServer := match env.lookup keyServerVariable with
    | some text => if Text.trim text.toList = [] then none else some text
    | none => c.keyServer
  return { c with iterations, compress, keyServer }

end Config

end Lockbox
