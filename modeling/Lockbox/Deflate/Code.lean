import Lockbox.Bytes
/-!
# Lockbox — the codes of compressed data

Canonical prefix codes given by the length of each symbol's code word,
and the tables that turn length and distance symbols into numbers. A
code is complete, unless it has no symbol or a single one of one bit.
-/

namespace Lockbox

namespace Deflate

/-- A canonical prefix code: how many code words there are of each length
up to the longest, and the symbols in the order of their code words. -/
structure Code where
  counts : Array Nat
  symbols : Array Nat

/-- The greatest length of a code word. -/
def maxCodeLength : Nat := 15

/-- How many of these lengths are `l`, where zero means no code word. -/
def countOf (lengths : List Nat) (l : Nat) : Nat := if l = 0 then 0 else lengths.count l

/-- How many of all words of the greatest length begin with a code word. -/
def weightOf (lengths : List Nat) : Nat :=
  (List.range (maxCodeLength + 1)).foldl
    (fun total l => total + countOf lengths l <<< (maxCodeLength - l)) 0

/-- Every long enough word begins with a code word. -/
def isComplete (lengths : List Nat) : Bool := weightOf lengths == 1 <<< maxCodeLength

/-- At most one symbol has a code word, and that is one bit long. -/
def isScant (lengths : List Nat) : Bool :=
  lengths.filter (· != 0) == [] || lengths.filter (· != 0) == [1]

/-- The code in which symbol `i` has a code word of the `i`-th length. -/
def Code.ofLengths (lengths : List Nat) : Code :=
  let longest := lengths.foldl max 1
  let symbols := (List.range longest).flatMap fun l =>
    lengths.zipIdx.filterMap fun p => if p.1 = l + 1 then some p.2 else none
  ⟨((List.range (longest + 1)).map (countOf lengths)).toArray, symbols.toArray⟩

/-- The code of lengths that make a complete one. -/
def Code.complete? (lengths : List Nat) : Option Code :=
  if isComplete lengths then some (.ofLengths lengths) else none

/-- The code of lengths that make a complete one or one of at most one
symbol. -/
def Code.ofLengths? (lengths : List Nat) : Option Code :=
  if isComplete lengths || isScant lengths then some (.ofLengths lengths) else none

/-- The lengths of the fixed code for literals and lengths. -/
def fixedLiteralLengths : List Nat :=
  List.replicate 144 8 ++ List.replicate 112 9 ++ List.replicate 24 7 ++ List.replicate 8 8

/-- The lengths of the fixed code for distances. -/
def fixedDistanceLengths : List Nat := List.replicate 32 5

/-- The smallest length and the number of extra bits of each length
symbol from 257 on. -/
def lengthTable : Array (Nat × Nat) := #[
  (3, 0), (4, 0), (5, 0), (6, 0), (7, 0), (8, 0), (9, 0), (10, 0), (11, 1), (13, 1), (15, 1),
  (17, 1), (19, 2), (23, 2), (27, 2), (31, 2), (35, 3), (43, 3), (51, 3), (59, 3), (67, 4),
  (83, 4), (99, 4), (115, 4), (131, 5), (163, 5), (195, 5), (227, 5), (258, 0)]

/-- The smallest distance and the number of extra bits of each distance
symbol. -/
def distanceTable : Array (Nat × Nat) := #[
  (1, 0), (2, 0), (3, 0), (4, 0), (5, 1), (7, 1), (9, 2), (13, 2), (17, 3), (25, 3), (33, 4),
  (49, 4), (65, 5), (97, 5), (129, 6), (193, 6), (257, 7), (385, 7), (513, 8), (769, 8),
  (1025, 9), (1537, 9), (2049, 10), (3073, 10), (4097, 11), (6145, 11), (8193, 12), (12289, 12),
  (16385, 13), (24577, 13)]

/-- The order in which the lengths of the code-length code are stored. -/
def lengthOrder : List Nat :=
  [16, 17, 18, 0, 8, 7, 9, 6, 10, 5, 11, 4, 12, 3, 13, 2, 14, 1, 15]

/-- How far back a copy may reach. -/
def windowSize : Nat := 32768

end Deflate

end Lockbox
