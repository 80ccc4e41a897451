import OpGraph.Provenance.Log
import OpGraph.Stored.Values

/-!
The stored forms of anchors, events and lineages.
-/

namespace OpGraph

open Datum

namespace Handle

variable {arena : Arena}

def toDatum (h : Handle arena) : Datum := .int h.index

/-- A handle fits 32 bits. -/
def ofDatum? (d : Datum) : Option (Handle arena) :=
  (d.natBelow? UInt32.size).map Handle.mk

end Handle

def optionalArg (arg : Option ArgId) : Datum :=
  match arg with
  | some arg => arg.toDatum
  | none => .null

namespace Anchor

def toDatum : Anchor → Datum
  | identity => .text "Identity"
  | transpose order => .variant "Transpose" (.object [("order", .ofInts order)])
  | fixPoint n => .variant "FixPoint" (.object [("fix_point", .ofInt64 n)])
  | custom opType attrs =>
    .variant "Custom" (.object [("op_type", .text opType), ("attrs", attrs.toDatum)])
  | reshape dims => .variant "Reshape" (.object [("shape", .ofInts dims)])

def onlyField? {α : Type} (name : String) (value : Datum → Option α) (content : Option Datum) :
    Option α := do
  match ← (← content).fields? [name] 1 with
  | [field] => required? value field
  | _ => none

def ofDatum? (d : Datum) : Option Anchor := do
  match ← d.variant? with
  | ("Identity", content) => if content.all isNull then return identity else none
  | ("Transpose", content) => return transpose (← onlyField? "order" int64s? content)
  | ("FixPoint", content) => return fixPoint (← onlyField? "fix_point" int64? content)
  | ("Custom", content) =>
    match ← (← content).fields? ["op_type", "attrs"] 2 with
    | [opType, attrs] => return custom (← required? text? opType) (← required? Attrs.ofDatum? attrs)
    | _ => none
  | ("Reshape", content) => return reshape (← onlyField? "shape" int64s? content)
  | _ => none

end Anchor

namespace Event

def toDatum (e : Event) : Datum :=
  .object [("from", optionalArg e.source), ("kind", e.kind.toDatum), ("pass", .text e.pass)]

def ofDatum? (d : Datum) : Option Event := do
  match ← d.fields? ["from", "kind", "pass"] 3 with
  | [source, kind, pass] =>
    return ⟨← orElse? (optional? Handle.ofDatum?) none source, ← required? Anchor.ofDatum? kind,
      ← required? text? pass⟩
  | _ => none

end Event

namespace Lineage

def toDatum (l : Lineage) : Datum :=
  .object [("origin", optionalArg l.origin), ("steps", .list (l.steps.map Anchor.toDatum))]

def ofDatum? (d : Datum) : Option Lineage := do
  match ← d.fields? ["origin", "steps"] 2 with
  | [origin, steps] =>
    return ⟨← orElse? (optional? Handle.ofDatum?) none origin,
      ← required? (listOf? Anchor.ofDatum?) steps⟩
  | _ => none

end Lineage

end OpGraph
