import OpGraph.Attr
import OpGraph.Handle

/-!
Anchors. When a tensor takes the place of another, the anchor between them says what was done to it.
A lineage lists the anchors since the first tensor, oldest first; its normal form has no step
without effect and no two neighbouring steps that can be joined.
-/

namespace OpGraph

/-- What was done to a tensor. -/
inductive Anchor where
  /-- Nothing: same shape and meaning. -/
  | identity
  /-- Its axes were put into a new order. -/
  | transpose (order : List Int64)
  /-- It was put on the grid of a fix-point. -/
  | fixPoint (position : Int64)
  /-- Something described by an operator and attributes. -/
  | custom (opType : String) (attrs : Attrs)
  /-- Its data got an explicit new shape. -/
  | reshape (dims : Dims)
deriving DecidableEq

namespace Anchor

def text : Anchor → String
  | identity => "identity"
  | transpose order => "transpose" ++ Attr.intsText order
  | fixPoint n => "fix_point(" ++ toString n.toInt ++ ")"
  | custom opType attrs => opType ++ attrs.dump
  | reshape dims => "reshape" ++ Attr.intsText dims

/-- The shape of the anchored tensor, from the shape of the tensor it derives from. -/
def replayShape : Anchor → Shape → Shape
  | transpose order, shape => shape.bind fun dims => AxisOrder.permute dims order
  | reshape dims, _ => some dims
  | _, shape => shape

def fixPoint? : Anchor → Option Int64
  | fixPoint n => some n
  | _ => none

end Anchor

/-- The arg at the root of a history and the steps since then, oldest first. -/
structure Lineage where
  origin : Option ArgId
  steps : List Anchor
deriving DecidableEq

namespace Lineage

def append (a b : Lineage) : Lineage :=
  ⟨a.origin <|> b.origin, a.steps ++ b.steps⟩

/--
Adds a step to a normal list of steps, which has the latest one at its head. Steps without effect
are left out, two transposes that compose become one, and of two neighbouring reshapes or fix-points
the later one stays.
-/
def addStep (done : List Anchor) (step : Anchor) : List Anchor :=
  match step, done with
  | .identity, _ => done
  | .transpose order, .transpose before :: rest =>
    if AxisOrder.isIdentity order then
      done
    else
      match AxisOrder.compose before order with
      | some both => if AxisOrder.isIdentity both then rest else .transpose both :: rest
      | none => step :: done
  | .transpose order, _ => if AxisOrder.isIdentity order then done else step :: done
  | .reshape _, .reshape _ :: rest => step :: rest
  | .fixPoint _, .fixPoint _ :: rest => step :: rest
  | _, _ => step :: done

def normalSteps (steps : List Anchor) : List Anchor :=
  (steps.foldl addStep []).reverse

def normalize (l : Lineage) : Lineage :=
  ⟨l.origin, normalSteps l.steps⟩

def replayShape (l : Lineage) (shape : Shape) : Shape :=
  l.steps.foldl (fun shape step => step.replayShape shape) shape

/-- The latest fix-point along the steps. -/
def fixPoint? (l : Lineage) : Option Int64 :=
  l.steps.reverse.findSome? Anchor.fixPoint?

/--
The written form of a lineage, such as `a1 -> identity`; an unknown origin is a question mark.
-/
def text (l : Lineage) : String :=
  " -> ".intercalate
    ((match l.origin with | some a => a.text | none => "?") :: l.steps.map Anchor.text)

end Lineage

end OpGraph
