import OpGraph.AxisOrder
import OpGraph.Element
import OpGraph.Word

/-!
Tensor types: an element type and a shape that may be unknown as a whole or in some extents.
-/

namespace OpGraph

/-- The dimensions of a tensor, or `none` if not even their number is known. -/
abbrev Shape := Option Dims

structure TensorType where
  elem : Elem
  shape : Shape
deriving DecidableEq, Repr

namespace TensorType

def unknown (elem : Elem) : TensorType := ⟨elem, none⟩

def scalar (elem : Elem) : TensorType := ⟨elem, some []⟩

def rank (ty : TensorType) : Option Nat :=
  ty.shape.map List.length

/-- The number of axes and every extent are known. -/
def isStatic (ty : TensorType) : Bool :=
  match ty.shape with
  | none => false
  | some dims => dims.all (0 ≤ ·)

/-- The number of elements of a tensor of a static type. -/
def numElements (ty : TensorType) : Except Overflow (Option Nat) :=
  match ty.shape with
  | none => .ok none
  | some dims =>
    if ty.isStatic then
      some <$> Word.product (dims.map fun d => d.toInt.toNat)
    else
      .ok none

/-- The number of bytes of a dense tensor of a static type. -/
def byteSize (ty : TensorType) : Except Overflow (Option Nat) := do
  match ← ty.numElements with
  | none => return none
  | some n => return some (← Word.mul n ty.elem.width)

/-- The written form of an extent; an unknown one is a question mark. -/
def extentText (d : Int64) : String :=
  if d < 0 then "?" else toString d.toInt

/-- The written form of a type, such as `float32[1,?,3]`, or `float32[?]` for an unknown shape. -/
def text (ty : TensorType) : String :=
  match ty.shape with
  | none => ty.elem.name ++ "[?]"
  | some dims => ty.elem.name ++ "[" ++ ",".intercalate (dims.map extentText) ++ "]"

end TensorType

end OpGraph
