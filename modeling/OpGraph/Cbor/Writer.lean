import OpGraph.Bytes
import OpGraph.Number.Single

/-!
Writing CBOR items. Lengths are definite, integers take the shortest form, and a float is written in
the shortest of three formats that keeps its value.
-/

namespace OpGraph.Cbor

/-- The first byte of an item holds its major type and up to 23, or the width of what follows. -/
def head (major n : Nat) : Bytes :=
  if n < 24 then [UInt8.ofNat (32 * major + n)]
  else if n < UInt8.size then UInt8.ofNat (32 * major + 24) :: Bytes.bigEndian 1 n
  else if n < UInt16.size then UInt8.ofNat (32 * major + 25) :: Bytes.bigEndian 2 n
  else if n < UInt32.size then UInt8.ofNat (32 * major + 26) :: Bytes.bigEndian 4 n
  else UInt8.ofNat (32 * major + 27) :: Bytes.bigEndian 8 n

def writeNat (n : Nat) : Bytes :=
  head 0 n

def writeInt (n : Int) : Bytes :=
  if 0 ≤ n then head 0 n.toNat else head 1 (-1 - n).toNat

def writeText (s : String) : Bytes :=
  let bytes := s.toUTF8.toList
  head 3 bytes.length ++ bytes

def writeBool (b : Bool) : Bytes :=
  if b then [0xf5] else [0xf4]

open Number in
def writeFloat (v : Value) : Bytes :=
  let bits := Format.double.write v
  let half := Format.half.write v
  let single := Format.single.write v
  if Format.double.write (Format.half.read half) = bits then
    0xf9 :: Bytes.bigEndian 2 half
  else if Format.double.write (Format.single.read single) = bits then
    0xfa :: Bytes.bigEndian 4 single
  else
    0xfb :: Bytes.bigEndian 8 bits

def writeList {α : Type} (item : α → Bytes) (items : List α) : Bytes :=
  head 4 items.length ++ items.flatMap item

def writeRecord (fields : List (String × Bytes)) : Bytes :=
  head 5 fields.length ++ fields.flatMap fun (name, value) => writeText name ++ value

end OpGraph.Cbor
