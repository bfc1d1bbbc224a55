import Lockbox.Json.Token
/-!
# Lockbox — reading JSON texts

The tokens of a text build a value from the inside out. What is open is
kept on a stack, so a text may be nested as deeply as it likes; whoever
uses a value decides how much nesting is too much.
-/

namespace Lockbox

namespace Json

/-- A container that is not closed yet, its contents newest first. An
object also remembers the key whose value is being read. -/
inductive Frame where
  | array (items : List Json)
  | object (members : List (Bytes × Json)) (key : Bytes)

/-- What may come next. -/
inductive Reading where
  /-- A value. -/
  | value (outer : List Frame)
  /-- The first item of an array, or its end. -/
  | firstItem (outer : List Frame)
  /-- The first key of an object, or its end. -/
  | firstKey (outer : List Frame)
  /-- Another key of an object. -/
  | key (members : List (Bytes × Json)) (outer : List Frame)
  /-- The colon after a key. -/
  | colon (key : Bytes) (members : List (Bytes × Json)) (outer : List Frame)
  /-- What follows a finished value. -/
  | after (value : Json) (outer : List Frame)

/-- The first token of a value. -/
def Reading.begin (outer : List Frame) : Token → Option Reading
  | .scalar j => some (.after j outer)
  | .text body => some (.after (.string body) outer)
  | .openArray => some (.firstItem outer)
  | .openObject => some (.firstKey outer)
  | _ => none

/-- One token. -/
def Reading.step : Reading → Token → Option Reading
  | .value outer, t => begin outer t
  | .firstItem outer, .closeArray => some (.after (.array []) outer)
  | .firstItem outer, t => begin (.array [] :: outer) t
  | .firstKey outer, .closeObject => some (.after (.object []) outer)
  | .firstKey outer, .text k => some (.colon k [] outer)
  | .key members outer, .text k => some (.colon k members outer)
  | .colon k members outer, .colon => some (.value (.object members k :: outer))
  | .after j (.array items :: outer), .comma => some (.value (.array (j :: items) :: outer))
  | .after j (.array items :: outer), .closeArray =>
    some (.after (.array (j :: items).reverse) outer)
  | .after j (.object members k :: outer), .comma => some (.key ((k, j) :: members) outer)
  | .after j (.object members k :: outer), .closeObject =>
    some (.after (.object ((k, j) :: members).reverse) outer)
  | _, _ => none

/-- All tokens, one after the other. -/
def Reading.run : Reading → List Token → Option Reading
  | r, [] => some r
  | r, t :: rest =>
    match r.step t with
    | some r => run r rest
    | none => none

/-- The value of a whole text. -/
def parse? (text : Bytes) : Option Json :=
  match tokens? text with
  | none => none
  | some ts =>
    match (Reading.value []).run ts with
    | some (.after value []) => some value
    | _ => none

/-! ## What strings stand for -/

/-- The value of a hexadecimal digit. -/
def hexValue (c : UInt8) : Nat :=
  if c ≤ 0x39 then c.toNat - 0x30 else if c ≤ 0x46 then c.toNat - 0x37 else c.toNat - 0x57

/-- The number with these four hexadecimal digits. -/
def hexNumber (a b c d : UInt8) : Nat :=
  ((hexValue a * 16 + hexValue b) * 16 + hexValue c) * 16 + hexValue d

/-- The byte that a short escape stands for. -/
def shortEscape (e : UInt8) : UInt8 :=
  if e = 0x62 then 0x08
  else if e = 0x66 then 0x0C
  else if e = 0x6E then 0x0A
  else if e = 0x72 then 0x0D
  else if e = 0x74 then 0x09
  else e

/-- The bytes that the body of a string stands for, those read so far
newest first. The two halves of a surrogate pair must come together. -/
def unescapeFrom (done : Bytes) : Bytes → Option Bytes
  | [] => some done.reverse
  | c :: rest =>
    if c = 0x5C then
      match rest with
      | [] => none
      | e :: rest =>
        if e = 0x75 then
          match rest with
          | h₁ :: h₂ :: h₃ :: h₄ :: rest =>
            let n := hexNumber h₁ h₂ h₃ h₄
            if 0xDC00 ≤ n ∧ n ≤ 0xDFFF then none
            else if 0xD800 ≤ n ∧ n ≤ 0xDBFF then
              match rest with
              | b :: u :: l₁ :: l₂ :: l₃ :: l₄ :: rest =>
                let m := hexNumber l₁ l₂ l₃ l₄
                if b = 0x5C ∧ u = 0x75 ∧ 0xDC00 ≤ m ∧ m ≤ 0xDFFF then
                  let c := Char.ofNat (0x10000 + (n - 0xD800) * 0x400 + (m - 0xDC00))
                  unescapeFrom ((String.utf8EncodeChar c).reverse ++ done) rest
                else none
              | _ => none
            else unescapeFrom ((String.utf8EncodeChar (Char.ofNat n)).reverse ++ done) rest
          | _ => none
        else unescapeFrom (shortEscape e :: done) rest
    else unescapeFrom (c :: done) rest

/-- The text that the body of a string stands for. -/
def textOf? (body : Bytes) : Option String := (unescapeFrom [] body).bind Bytes.text?

/-- The text of a string value. -/
def text? : Json → Option String
  | .string body => textOf? body
  | _ => none

/-- The natural number of a number value, if it is at most `limit`. -/
def nat? (limit : Nat) : Json → Option Nat
  | .number n => n.nat? limit
  | _ => none

/-- The truth value of a value. -/
def bool? : Json → Option Bool
  | .bool b => some b
  | _ => none

end Json

end Lockbox
