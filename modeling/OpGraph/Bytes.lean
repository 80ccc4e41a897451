/-!
Byte strings and little-endian words.
-/

namespace OpGraph

abbrev Bytes := List UInt8

namespace Bytes

instance : LawfulBEq Bytes := inferInstance

/-- The lowest `width` bytes of a number, lowest first. -/
def littleEndian : Nat → Nat → Bytes
  | 0, _ => []
  | width + 1, n => UInt8.ofNat n :: littleEndian width (n / 256)

/-- The lowest `width` bytes of a number, highest first. -/
def bigEndian (width n : Nat) : Bytes :=
  (littleEndian width n).reverse

def ofLittleEndian : Bytes → Nat
  | [] => 0
  | b :: rest => b.toNat + 256 * ofLittleEndian rest

def ofBigEndian (bytes : Bytes) : Nat :=
  ofLittleEndian bytes.reverse

/-- The first `count` pieces of `width` bytes. -/
def pieces (width : Nat) : Nat → Bytes → List Bytes
  | 0, _ => []
  | count + 1, bytes => bytes.take width :: pieces width count (bytes.drop width)

end Bytes

end OpGraph
