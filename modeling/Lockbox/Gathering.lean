import Lockbox.Bytes
/-!
# Lockbox — bytes gathered piece by piece

A gathering keeps the pieces it was given, newest first, so that adding
at the end costs only the piece. What matters of it is the byte string
it stands for: `toBytes_add` says that adding appends.
-/

namespace Lockbox

/-- Pieces of a byte string, newest first, and their total length. -/
structure Gathering where
  pieces : List Bytes
  size : Nat
  size_eq : size = pieces.reverse.flatten.length

namespace Gathering

/-- No bytes yet. -/
def empty : Gathering := ⟨[], 0, rfl⟩

instance : Inhabited Gathering := ⟨empty⟩

/-- The byte string gathered. -/
def toBytes (g : Gathering) : Bytes := g.pieces.reverse.flatten

/-- One more piece at the end. -/
def add (g : Gathering) (b : Bytes) : Gathering where
  pieces := b :: g.pieces
  size := g.size + b.length
  size_eq := by simp [g.size_eq]

@[simp] theorem toBytes_empty : empty.toBytes = [] := rfl

@[simp] theorem toBytes_add (g : Gathering) (b : Bytes) :
    (g.add b).toBytes = g.toBytes ++ b := by
  simp [toBytes, add]

@[simp] theorem size_empty : empty.size = 0 := rfl

@[simp] theorem size_add (g : Gathering) (b : Bytes) : (g.add b).size = g.size + b.length := rfl

/-- The size is kept, and is the number of bytes. -/
theorem length_toBytes (g : Gathering) : g.toBytes.length = g.size := g.size_eq.symm

end Gathering

end Lockbox
