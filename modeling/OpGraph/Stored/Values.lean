import OpGraph.Attr
import OpGraph.Datum
import OpGraph.Operator

/-!
The stored forms of element types, tensor types, tensors and attributes.
-/

namespace OpGraph

namespace Datum

def ofInt64 (n : Int64) : Datum := .int n.toInt

def ofSingle (x : Single) : Datum := .float x.value

def ofInts (values : List Int64) : Datum := .list (values.map ofInt64)

def int64s? : Datum → Option (List Int64) := listOf? int64?

/-- A tagged value in its usual form. -/
def tagged (tagName contentName tag : String) (content : Datum) : Datum :=
  .object [(tagName, .text tag), (contentName, content)]

end Datum

open Datum

namespace Elem

def toDatum (e : Elem) : Datum := .text e.tag

def ofDatum? (d : Datum) : Option Elem := do ofTag? (← d.unitVariant?)

end Elem

namespace TensorType

def toDatum (ty : TensorType) : Datum :=
  .object [("elem", ty.elem.toDatum), ("shape", match ty.shape with
    | some dims => .ofInts dims
    | none => .null)]

def ofDatum? (d : Datum) : Option TensorType := do
  match ← d.fields? ["elem", "shape"] 2 with
  | [elem, shape] =>
    return ⟨← required? Elem.ofDatum? elem, ← orElse? (optional? int64s?) none shape⟩
  | _ => none

end TensorType

namespace Payload

def values : Payload → List Datum
  | float32 v => v.map .ofSingle
  | int8 v => v.map fun x => .int x.toInt
  | uint8 v => v.map fun x => .int x.toNat
  | int32 v => v.map fun x => .int x.toInt
  | int64 v => v.map .ofInt64

def toDatum (p : Payload) : Datum :=
  .tagged "type" "values" p.elem.name (.list p.values)

def ofDatum? (d : Datum) : Option Payload := do
  let (tag, content) ← d.tagged? "type" "values"
  match Elem.ofName? tag with
  | some .float32 => return float32 (← listOf? single? content)
  | some .int8 => return int8 (← listOf? int8? content)
  | some .uint8 => return uint8 (← listOf? uint8? content)
  | some .int32 => return int32 (← listOf? int32? content)
  | some .int64 => return int64 (← listOf? int64? content)
  | _ => none

end Payload

namespace Tensor

def toDatum (t : Tensor) : Datum :=
  .object [("dims", .ofInts t.dims), ("data", t.data.toDatum)]

def ofDatum? (d : Datum) : Option Tensor := do
  match ← d.fields? ["dims", "data"] 2 with
  | [dims, data] => return ⟨← required? int64s? dims, ← required? Payload.ofDatum? data⟩
  | _ => none

end Tensor

namespace Attr

/-- The tag of a value's kind. -/
def kind : Attr → String
  | int _ => "int"
  | float _ => "float"
  | string _ => "string"
  | ints _ => "ints"
  | floats _ => "floats"
  | strings _ => "strings"
  | tensor _ => "tensor"

def content : Attr → Datum
  | int v => .ofInt64 v
  | float v => .ofSingle v
  | string v => .text v
  | ints v => .ofInts v
  | floats v => .list (v.map .ofSingle)
  | strings v => .list (v.map .text)
  | tensor v => v.toDatum

def toDatum (a : Attr) : Datum :=
  .tagged "type" "value" a.kind a.content

def ofDatum? (d : Datum) : Option Attr := do
  let (tag, content) ← d.tagged? "type" "value"
  match tag with
  | "int" => return int (← content.int64?)
  | "float" => return float (← content.single?)
  | "string" => return string (← content.text?)
  | "ints" => return ints (← content.int64s?)
  | "floats" => return floats (← content.listOf? single?)
  | "strings" => return strings (← content.listOf? text?)
  | "tensor" => return tensor (← Tensor.ofDatum? content)
  | _ => none

end Attr

namespace Attrs

def toDatum (attrs : Attrs) : Datum :=
  .object (attrs.toList.map fun (name, value) => (name, value.toDatum))

/-- Of several values of one name the last counts. -/
def ofDatum? (d : Datum) : Option Attrs := do
  return (← d.entries? Attr.ofDatum?).foldl (fun attrs (name, value) => attrs.insert name value) ∅

end Attrs

namespace OpKey

def toDatum (key : OpKey) : Datum :=
  .object [("domain", .text key.domain), ("op_type", .text key.opType)]

def ofDatum? (d : Datum) : Option OpKey := do
  match ← d.fields? ["domain", "op_type"] 2 with
  | [domain, opType] => return ⟨← required? text? domain, ← required? text? opType⟩
  | _ => none

end OpKey

end OpGraph
