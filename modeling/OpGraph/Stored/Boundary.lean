import OpGraph.Fusion.Region
import OpGraph.Stored.Values

/-!
The stored form of region boundaries.
-/

namespace OpGraph.Boundary

open Datum

def names (items : List String) : Datum := .list (items.map .text)

def types (items : List TensorType) : Datum := .list (items.map TensorType.toDatum)

def toDatum (b : Boundary) : Datum :=
  .object [
    ("name", .text b.name),
    ("domain", .text b.domain),
    ("tag", .text b.tag),
    ("inputs", names b.inputs),
    ("outputs", names b.outputs),
    ("constant_initializers", names b.constants),
    ("generic_params", .object (b.params.toList.map fun (key, value) => (key, .text value))),
    ("device_params", .object [
      ("input_types", types b.inputTypes), ("output_types", types b.outputTypes)])]

def names? : Datum → Option (List String) := listOf? text?

def types? : Datum → Option (List TensorType) := listOf? TensorType.ofDatum?

/-- Of several values of one key the last counts. -/
def params? (d : Datum) : Option (Std.ExtTreeMap String String) := do
  return (← d.entries? text?).foldl (fun params (key, value) => params.insert key value) ∅

def deviceTypes? (d : Datum) : Option (List TensorType × List TensorType) := do
  match ← d.fields? ["input_types", "output_types"] 2 with
  | [inputs, outputs] => return (← required? types? inputs, ← required? types? outputs)
  | _ => none

def ofDatum? (d : Datum) : Option Boundary := do
  match ← d.fields? ["name", "domain", "tag", "inputs", "outputs", "constant_initializers",
    "generic_params", "device_params"] 8 with
  | [name, domain, tag, inputs, outputs, constants, params, device] =>
    let (inputTypes, outputTypes) ← required? deviceTypes? device
    return {
      name := ← required? text? name
      domain := ← required? text? domain
      tag := ← required? text? tag
      inputs := ← required? names? inputs
      outputs := ← required? names? outputs
      constants := ← required? names? constants
      params := ← required? params? params
      inputTypes := inputTypes
      outputTypes := outputTypes }
  | _ => none

end OpGraph.Boundary
