import OpGraph.Model.Basic
import OpGraph.Stored.Values

/-!
The stored form of models. Parts that are mostly empty are left out: the external file, the domain
of a standard operator, and the attributes of a node that has none.
-/

namespace OpGraph

open Datum

/-- A field that is written only on a condition. -/
def fieldIf (cond : Bool) (name : String) (value : Datum) : List (String × Datum) :=
  if cond then [(name, value)] else []

namespace ModelArg

def toDatum (a : ModelArg) : Datum :=
  .object [("name", .text a.name), ("type", a.type.toDatum)]

def ofDatum? (d : Datum) : Option ModelArg := do
  match ← d.fields? ["name", "type"] 2 with
  | [name, type] => return ⟨← required? text? name, ← required? TensorType.ofDatum? type⟩
  | _ => none

end ModelArg

namespace DataLocation

def toDatum : DataLocation → Datum
  | inline data => .variant "inline" data.toDatum
  | external elem offset length =>
    .variant "external" (.object [
      ("elem", elem.toDatum), ("offset", .int offset), ("length", .int length)])

def ofDatum? (d : Datum) : Option DataLocation := do
  match ← d.variant? with
  | ("inline", content) => return inline (← Payload.ofDatum? (← content))
  | ("external", content) =>
    match ← (← content).fields? ["elem", "offset", "length"] 3 with
    | [elem, offset, length] =>
      return external (← required? Elem.ofDatum? elem) (← required? (natBelow? Word.limit) offset)
        (← required? (natBelow? Word.limit) length)
    | _ => none
  | _ => none

end DataLocation

namespace ModelInitializer

def toDatum (e : ModelInitializer) : Datum :=
  .object [("name", .text e.name), ("dims", .ofInts e.dims), ("location", e.location.toDatum)]

def ofDatum? (d : Datum) : Option ModelInitializer := do
  match ← d.fields? ["name", "dims", "location"] 3 with
  | [name, dims, location] =>
    return ⟨← required? text? name, ← required? int64s? dims,
      ← required? DataLocation.ofDatum? location⟩
  | _ => none

end ModelInitializer

namespace ModelNode

def slotDatum : Option String → Datum
  | some name => .text name
  | none => .null

def slots? : Datum → Option (List (Option String)) := listOf? (optional? text?)

def toDatum (n : ModelNode) : Datum :=
  .object (
    [("name", .text n.name), ("op_type", .text n.key.opType)] ++
    fieldIf (n.key.domain ≠ "") "domain" (.text n.key.domain) ++
    [("inputs", .list (n.inputs.map slotDatum)), ("outputs", .list (n.outputs.map slotDatum))] ++
    fieldIf (!n.attrs.isEmpty) "attrs" n.attrs.toDatum)

def ofDatum? (d : Datum) : Option ModelNode := do
  match ← d.fields? ["name", "op_type", "domain", "inputs", "outputs", "attrs"] 5 with
  | [name, opType, domain, inputs, outputs, attrs] =>
    let key := ⟨← orElse? text? "" domain, ← required? text? opType⟩
    return ⟨← required? text? name, key, ← required? slots? inputs, ← required? slots? outputs,
      ← orElse? Attrs.ofDatum? ∅ attrs⟩
  | _ => none

end ModelNode

namespace Model

def nameList (names : List String) : Datum := .list (names.map .text)

def toDatum (m : Model) : Datum :=
  .object (
    [("format", .text m.format), ("version", .int m.version), ("name", .text m.name)] ++
    fieldIf m.externalData.isSome "external_data" (.text (m.externalData.getD "")) ++
    [("inputs", nameList m.inputs),
      ("outputs", nameList m.outputs),
      ("args", .list (m.args.map ModelArg.toDatum)),
      ("initializers", .list (m.initializers.map ModelInitializer.toDatum)),
      ("nodes", .list (m.nodes.map ModelNode.toDatum))])

def ofDatum? (d : Datum) : Option Model := do
  match ← d.fields? ["format", "version", "name", "external_data", "inputs", "outputs", "args",
    "initializers", "nodes"] 9 with
  | [format, version, name, externalData, inputs, outputs, args, initializers, nodes] =>
    return {
      format := ← required? text? format
      version := ← required? (natBelow? UInt32.size) version
      name := ← required? text? name
      externalData := ← orElse? (optional? text?) none externalData
      inputs := ← required? (listOf? text?) inputs
      outputs := ← required? (listOf? text?) outputs
      args := ← required? (listOf? ModelArg.ofDatum?) args
      initializers := ← required? (listOf? ModelInitializer.ofDatum?) initializers
      nodes := ← required? (listOf? ModelNode.ofDatum?) nodes }
  | _ => none

end Model

end OpGraph
