/-!
# Lockbox — command lines

How the words of a command line become a command. Options have a long
and perhaps a short name and may take a value, which follows as the next
word or stands in the same one. A word that starts with a dash is never
taken as a value of the word before, and after a double dash nothing is
an option. What cannot be understood is a usage error. Words are taken in
their order, so help is given where it is asked for unless a word before
is already wrong; what is missing or does not go together shows only at
the end.
-/

namespace Lockbox

namespace Command

/-- Why a command line gives no command. -/
inductive Stop where
  | usage
  | help
  | version
  deriving DecidableEq, Repr

/-- An option: its names, whether it takes a value, whether that is a
path, and whether the option may be given again. -/
structure Switch where
  long : String
  short : Option Char
  valued : Bool
  path : Bool
  repeats : Bool

/-- What a command takes: options, and paths up to some number if there
is a limit to them. -/
structure Form where
  switches : List Switch
  places : Option Nat

/-- What the words of a command line say: options with their values, and
the other words. -/
structure Words where
  options : List (String × String)
  others : List String

namespace Words

/-- No words. -/
def none : Words := ⟨[], []⟩

/-- All values of an option. -/
def values (w : Words) (name : String) : List String :=
  (w.options.filter (·.1 = name)).map Prod.snd

/-- One more option. A path may not be empty, and not every option may be
given again. -/
def give (w : Words) (s : Switch) (value : String) : Except Stop Words :=
  if (s.path ∧ value = "") ∨ (¬ s.repeats ∧ w.values s.long ≠ []) then .error .usage
  else .ok { w with options := w.options ++ [(s.long, value)] }

/-- One more path, if there is a place for it. It may not be empty. -/
def place (w : Words) (form : Form) (path : String) : Except Stop Words :=
  if path = "" ∨ form.places = some w.others.length then .error .usage
  else .ok { w with others := w.others ++ [path] }

/-- The value of an option that is given once at most. -/
def single (w : Words) (name : String) : Option String := (w.values name).head?

/-- The value of an option that must be given. -/
def required (w : Words) (name : String) : Except Stop String :=
  match w.single name with
  | some v => .ok v
  | .none => .error .usage

end Words

/-- A word as it looks: an option by its long name, with what follows an
equals sign, an option by its short name, with what follows it, the
double dash, or none of these. -/
inductive Look where
  | long (name : String) (attached : Option String)
  | short (name : Char) (rest : List Char)
  | escape
  | plain

/-- How a word looks. -/
def Look.of (word : String) : Look :=
  match word.toList with
  | ['-', '-'] => .escape
  | '-' :: '-' :: body =>
    let name := String.ofList (body.takeWhile (· ≠ '='))
    match body.dropWhile (· ≠ '=') with
    | [] => .long name none
    | _ :: value => .long name (some (String.ofList value))
  | '-' :: name :: rest => .short name rest
  | _ => .plain

/-- What a short option has attached: the rest of its word, less an equals
sign. -/
def attachedToShort : List Char → Option String
  | [] => none
  | '=' :: value => some (String.ofList value)
  | value => some (String.ofList value)

/-- The option with a long name. -/
def findLong (switches : List Switch) (name : String) (attached : Option String) :
    Except Stop Switch :=
  match switches.find? (·.long = name) with
  | some s => .ok s
  | none => .error (if name = "help" ∧ attached = none then .help else .usage)

/-- The option with a short name. -/
def findShort (switches : List Switch) (name : Char) : Except Stop Switch :=
  match switches.find? (·.short = some name) with
  | some s => .ok s
  | none => .error (if name = 'h' then .help else .usage)

/-- The option at the front of a word, with what is attached to it. -/
def optionOf (switches : List Switch) : Look → Except Stop (Option (Switch × Option String))
  | .long name attached => do return some (← findLong switches name attached, attached)
  | .short name rest => do return some (← findShort switches name, attachedToShort rest)
  | .escape | .plain => .ok none

/-- The words of a command line after those that say `seen`. `pending` is
an option that still needs its value, and `ended` says that a double dash
was met. -/
def readWords (form : Form) (seen : Words) :
    (pending : Option Switch) → (ended : Bool) → List String → Except Stop Words
  | some _, _, [] => .error .usage
  | none, _, [] => .ok seen
  | pending, ended, word :: rest => do
    if ended then readWords form (← seen.place form word) pending true rest
    else match Look.of word, pending with
      | .escape, pending => readWords form seen pending true rest
      | .plain, some s => readWords form (← seen.give s word) none false rest
      | .plain, none => readWords form (← seen.place form word) none false rest
      | _, some _ => .error .usage
      | look, none =>
        match ← optionOf form.switches look with
        | none => .error .usage
        | some (s, attached) =>
          match s.valued, attached with
          | true, some value => readWords form (← seen.give s value) none false rest
          | true, none => readWords form seen (some s) false rest
          | false, none => readWords form (← seen.give s "") none false rest
          | false, some _ => .error .usage

end Command

/-! ## Commands -/

/-- What the tool can be asked to do. -/
inductive Command where
  | encrypt (out : String) (recipients : List String) (compress : Bool) (files : List String)
  | decrypt (file label : String) (password secret cert : Option String) (out : String)
  | locks (file : String)
  | selfTest
  deriving DecidableEq, Repr

/-- A command and the configuration file to use. -/
structure Invocation where
  config : Option String
  command : Command
  deriving DecidableEq, Repr

namespace Command

/-- What encryption takes. -/
def encryptForm : Form where
  switches := [⟨"out", some 'o', true, true, false⟩, ⟨"rcpt", some 'r', true, false, true⟩,
    ⟨"compress", none, false, false, false⟩]
  places := none

/-- Encryption from its words. -/
def readEncrypt (words : List String) : Except Stop Command := do
  let w ← readWords encryptForm .none none false words
  let out ← w.required "out"
  let recipients := w.values "rcpt"
  if recipients = [] ∨ w.others = [] then .error .usage
  else return .encrypt out recipients (w.single "compress").isSome w.others

/-- What decryption takes. -/
def decryptForm : Form where
  switches := [⟨"label", some 'l', true, false, false⟩, ⟨"password", some 'p', true, false, false⟩,
    ⟨"secret", some 's', true, false, false⟩, ⟨"cert", none, true, true, false⟩,
    ⟨"out", some 'o', true, true, false⟩]
  places := some 1

/-- Decryption from its words. -/
def readDecrypt (words : List String) : Except Stop Command := do
  let w ← readWords decryptForm .none none false words
  let label ← w.required "label"
  let password := w.single "password"
  let secret := w.single "secret"
  match w.others with
  | [file] =>
    if password.isSome ∧ secret.isSome then .error .usage
    else return .decrypt file label password secret (w.single "cert") ((w.single "out").getD ".")
  | _ => .error .usage

/-- Listing of locks from its words. -/
def readLocks (words : List String) : Except Stop Command := do
  match (← readWords ⟨[], some 1⟩ .none none false words).others with
  | [file] => return .locks file
  | _ => .error .usage

/-- The self-test from its words. -/
def readSelfTest (words : List String) : Except Stop Command := do
  let _ ← readWords ⟨[], some 0⟩ .none none false words
  return .selfTest

/-- The command of a name. -/
def readNamed (name : String) (words : List String) : Except Stop Command :=
  if name = "encrypt" then readEncrypt words
  else if name = "decrypt" then readDecrypt words
  else if name = "locks" then readLocks words
  else if name = "test" then readSelfTest words
  else if name = "help" then
    match words with
    | [] => .error .help
    | [topic] =>
      .error (if topic ∈ ["encrypt", "decrypt", "locks", "test", "help"] then .help else .usage)
    | _ => .error .usage
  else .error .usage

/-- The options before the command. -/
def mainSwitches : List Switch := [⟨"config", some 'c', true, false, false⟩]

/-- The word asks for the version. -/
def asksVersion : Look → Bool
  | .long "version" none => true
  | .short 'V' _ => true
  | _ => false

/-- Help, if that is what a command says, and otherwise a usage error. -/
def helpOrUsage : Except Stop Command → Stop
  | .error .help => .help
  | _ => .usage

/-- The words before the name of the command, and the command. A second
configuration that stands right before the name of the command is wrong
only if the command does not ask for help. -/
def readMain (config : Option String) : List String → Except Stop Invocation
  | [] => .error .usage
  | word :: rest => do
    if asksVersion (Look.of word) then .error .version
    else match Look.of word, ← optionOf mainSwitches (Look.of word) with
      | .plain, _ => return ⟨config, ← readNamed word rest⟩
      | _, none => .error .usage
      | _, some (_, attached) =>
        match config, attached, rest with
        | none, some value, rest => readMain (some value) rest
        | none, none, value :: rest =>
          match Look.of value with
          | .plain => readMain (some value) rest
          | _ => .error .usage
        | some _, none, value :: name :: rest =>
          match Look.of value, Look.of name with
          | .plain, .plain => .error (helpOrUsage (readNamed name rest))
          | _, _ => .error .usage
        | _, _, _ => .error .usage

/-- The command of a command line. -/
def read (words : List String) : Except Stop Invocation := readMain none words

end Command

end Lockbox
