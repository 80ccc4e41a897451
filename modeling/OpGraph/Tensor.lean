import OpGraph.Bytes
import OpGraph.Number.Single
import OpGraph.Text.Quoted
import OpGraph.TensorType

/-!
Constant tensors: dimensions and a payload of one of five element types. A payload has a raw form in
little-endian bytes, which is also the layout of external data files.
-/

namespace OpGraph

inductive Payload where
  | float32 (values : List Single)
  | int8 (values : List Int8)
  | uint8 (values : List UInt8)
  | int32 (values : List Int32)
  | int64 (values : List Int64)
deriving DecidableEq, Repr

namespace Payload

def elem : Payload → Elem
  | float32 _ => .float32
  | int8 _ => .int8
  | uint8 _ => .uint8
  | int32 _ => .int32
  | int64 _ => .int64

def length : Payload → Nat
  | float32 v => v.length
  | int8 v => v.length
  | uint8 v => v.length
  | int32 v => v.length
  | int64 v => v.length

def toBytes : Payload → Bytes
  | float32 v => v.flatMap fun x => Bytes.littleEndian 4 x.bits.toNat
  | int8 v => v.map Int8.toUInt8
  | uint8 v => v
  | int32 v => v.flatMap fun x => Bytes.littleEndian 4 x.toUInt32.toNat
  | int64 v => v.flatMap fun x => Bytes.littleEndian 8 x.toUInt64.toNat

/--
Reads raw bytes as elements of the given type. There is no payload for element types other than the
five above, nor for a byte count that is no multiple of the element width.
-/
def ofBytes? (elem : Elem) (bytes : Bytes) : Option Payload :=
  if elem.width = 0 ∨ bytes.length % elem.width ≠ 0 then
    none
  else
    let words :=
      (Bytes.pieces elem.width (bytes.length / elem.width) bytes).map Bytes.ofLittleEndian
    match elem with
    | .float32 => some (float32 (words.map fun n => ⟨UInt32.ofNat n⟩))
    | .int8 => some (int8 (bytes.map UInt8.toInt8))
    | .uint8 => some (uint8 bytes)
    | .int32 => some (int32 (words.map fun n => (UInt32.ofNat n).toInt32))
    | .int64 => some (int64 (words.map fun n => (UInt64.ofNat n).toInt64))
    | _ => none

/-- Every element is zero; both float zeros count. -/
def isAllZero : Payload → Bool
  | float32 v => v.all Single.isZero
  | int8 v => v.all (· == 0)
  | uint8 v => v.all (· == 0)
  | int32 v => v.all (· == 0)
  | int64 v => v.all (· == 0)

/-- The elements in the form they have in texts. -/
def texts : Payload → List String
  | float32 v => v.map Single.text
  | int8 v => v.map fun x => toString x.toInt
  | uint8 v => v.map fun x => toString x.toNat
  | int32 v => v.map fun x => toString x.toInt
  | int64 v => v.map fun x => toString x.toInt

end Payload

structure Tensor where
  dims : Dims
  data : Payload
deriving DecidableEq, Repr

inductive TensorError where
  | dataType (name : String) (expected actual : Elem)
  | dataLength (name : String) (expected actual : Nat)
deriving DecidableEq, Repr

def TensorError.message : TensorError → String
  | .dataType name expected actual =>
    "constant '" ++ name ++ "' holds " ++ actual.name ++ " data, expected " ++ expected.name
  | .dataLength name expected actual =>
    "constant '" ++ name ++ "' has " ++ toString actual ++ " elements but its dims need " ++
      toString expected

namespace Tensor

def elem (t : Tensor) : Elem :=
  t.data.elem

def length (t : Tensor) : Nat :=
  t.data.length

def type (t : Tensor) : TensorType :=
  ⟨t.elem, some t.dims⟩

def byteSize (t : Tensor) : Nat :=
  t.length * t.elem.width

/-- The number of elements that the dimensions ask for; a negative extent counts as 0. -/
def neededLength (t : Tensor) : Except Overflow Nat :=
  Word.product (t.dims.map fun d => (max d 0).toInt.toNat)

/-- The error of a payload whose length disagrees with the dimensions. -/
def lengthError? (name : String) (t : Tensor) : Except Overflow (Option TensorError) := do
  let needed ← t.neededLength
  return if t.length = needed then none else some (.dataLength name needed t.length)

def float32s (name : String) (t : Tensor) : Except TensorError (List Single) :=
  match t.data with
  | .float32 v => .ok v
  | data => .error (.dataType name .float32 data.elem)

def int64s (name : String) (t : Tensor) : Except TensorError (List Int64) :=
  match t.data with
  | .int64 v => .ok v
  | data => .error (.dataType name .int64 data.elem)

/-- The element of a `float32` tensor with one element. -/
def singleFloat? (t : Tensor) : Option Single :=
  match t.data with
  | .float32 [x] => some x
  | _ => none

/-- The element of an integer tensor with one element. -/
def singleInt? (t : Tensor) : Option Int64 :=
  match t.data with
  | .int8 [x] => some x.toInt64
  | .uint8 [x] => some (Int64.ofNat x.toNat)
  | .int32 [x] => some x.toInt64
  | .int64 [x] => some x
  | _ => none

def isAllZero (t : Tensor) : Bool :=
  t.data.isAllZero

def dump (t : Tensor) : String :=
  "ConstTensor \x7b dims: " ++ Text.bracketed (t.dims.map fun d => toString d.toInt) ++
    ", data: " ++ t.elem.tag ++ "(" ++ Text.bracketed t.data.texts ++ ") \x7d"

end Tensor

end OpGraph
