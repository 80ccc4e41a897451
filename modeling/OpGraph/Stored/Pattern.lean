import OpGraph.Pattern.Basic
import OpGraph.Stored.Provenance

/-!
The stored form of pattern entries.
-/

namespace OpGraph.PatternKind

open Datum

def idList (ids : List PatternId) : Datum := .list (ids.map Handle.toDatum)

def ids? : Datum → Option (List PatternId) := listOf? Handle.ofDatum?

def toDatum : PatternKind → Datum
  | wildcard => .text "Wildcard"
  | constant => .text "Constant"
  | graphInput => .text "GraphInput"
  | node key operands optional attrs =>
    .variant "Node" (.object [
      ("op_type", .text key.opType),
      ("domain", .text key.domain),
      ("operands", idList operands),
      ("optional", .list (optional.map .bool)),
      ("attrs", .list (attrs.map fun (name, value) => .list [.text name, value.toDatum]))])
  | commutable key lhs rhs =>
    .variant "Commutable" (.object [
      ("op_type", .text key.opType),
      ("domain", .text key.domain),
      ("lhs", lhs.toDatum),
      ("rhs", rhs.toDatum)])
  | anyOf items => .variant "Or" (idList items)
  | allOf items => .variant "Sequence" (idList items)

def nodeOfDatum? (d : Datum) : Option PatternKind := do
  match ← d.fields? ["op_type", "domain", "operands", "optional", "attrs"] 5 with
  | [opType, domain, operands, optional, attrs] =>
    let key := ⟨← required? text? domain, ← required? text? opType⟩
    return node key (← required? ids? operands) (← required? (listOf? bool?) optional)
      (← required? (listOf? (pairOf? text? Attr.ofDatum?)) attrs)
  | _ => none

def commutableOfDatum? (d : Datum) : Option PatternKind := do
  match ← d.fields? ["op_type", "domain", "lhs", "rhs"] 4 with
  | [opType, domain, lhs, rhs] =>
    let key := ⟨← required? text? domain, ← required? text? opType⟩
    return commutable key (← required? Handle.ofDatum? lhs) (← required? Handle.ofDatum? rhs)
  | _ => none

def ofDatum? (d : Datum) : Option PatternKind := do
  match ← d.variant? with
  | ("Wildcard", content) => if content.all isNull then return wildcard else none
  | ("Constant", content) => if content.all isNull then return constant else none
  | ("GraphInput", content) => if content.all isNull then return graphInput else none
  | ("Node", content) => nodeOfDatum? (← content)
  | ("Commutable", content) => commutableOfDatum? (← content)
  | ("Or", content) => return anyOf (← ids? (← content))
  | ("Sequence", content) => return allOf (← ids? (← content))
  | _ => none

end OpGraph.PatternKind
