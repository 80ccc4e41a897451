import OpGraph.Graph.Edit
import OpGraph.Graph.Topology

/-!
Validation of a graph. The indices are compared with the nodes, inputs without a source and cycles
are rejected, and unknown output types are filled in where they follow from the input.
-/

namespace OpGraph.Graph

variable (g : Graph)

/-- Notes the producer of an output; an arg with two producing slots is a fault. -/
def stateOutput (node : Node) (producers : Std.ExtTreeMap ArgId NodeId) (arg : ArgId) :
    Except Fault (Std.ExtTreeMap ArgId NodeId) :=
  match producers[arg]? with
  | some other => do
    throw (.producedTwice (← g.arg arg).name (← g.node other).name node.name)
  | none => .ok (producers.insert arg node.id)

def statedProducers : Except Fault (Std.ExtTreeMap ArgId NodeId) :=
  g.liveNodes.foldlM (fun producers node =>
    node.presentOutputs.foldlM (g.stateOutput node) producers) ∅

def statedConsumers : Std.ExtTreeMap ArgId Uses :=
  g.liveNodes.foldl (fun consumers node =>
    node.presentInputs.foldl (fun consumers arg => addUse consumers arg node.id) consumers) ∅

/-- The indices agree with the nodes. -/
def checkIndices : Except Fault Unit := do
  let producers ← g.statedProducers
  if producers ≠ g.producers then
    throw (.producersDiffer g.name)
  if g.statedConsumers ≠ g.consumers then
    throw (.consumersDiffer g.name)

/-- The first input, by node and slot, that gets its value from nowhere. -/
def dangling? : Option (Node × ArgId) :=
  g.liveNodes.findSome? fun node =>
    (node.presentInputs.find? fun arg => !g.hasSource arg).map fun arg => (node, arg)

def checkSources : Except (Failure GraphError) Unit :=
  match g.dangling? with
  | none => .ok ()
  | some (node, input) =>
    match g.arg input with
    | .ok arg => .error (.error (.dangling node.name arg.name))
    | .error fault => .error (.fault fault)

/-- The dimensions that a `Reshape` node asks for, if they are constant and all positive. -/
def reshapeDims? (node : Node) : Except Fault Shape :=
  match node.input? 1 with
  | none => .ok none
  | some arg => do
    match ← g.constantValue? arg with
    | none => return none
    | some tensor =>
      match tensor.int64s "shape" with
      | .ok dims => return if dims.all (0 < ·) then some dims else none
      | .error _ => return none

/-- The output type of a node as far as it follows from the type of its first input. -/
def derivedType? (node : Node) (input : TensorType) : Except Fault (Option TensorType) :=
  if ((Signature.find? node.key).any Signature.preservesType) then
    .ok (some input)
  else if node.key = .standard "Transpose" then
    let shape :=
      match input.shape, node.attrInts? "perm" with
      | some dims, some order => AxisOrder.permute dims order
      | some dims, none => some dims.reverse
      | none, _ => none
    .ok (some ⟨input.elem, shape⟩)
  else if node.key = .standard "Reshape" then do
    return some ⟨input.elem, ← g.reshapeDims? node⟩
  else
    .ok none

/-- A type with its unknown parts taken from another one. -/
def fillType (current derived : TensorType) : TensorType where
  elem := if current.elem = .undefined then derived.elem else current.elem
  shape := current.shape <|> derived.shape

/-- The first output of a node with a better known type. -/
def inferType? (id : NodeId) : Except Fault (Option (ArgId × TensorType)) := do
  let node ← g.node id
  let some out := node.output? 0 | return none
  let current := (← g.arg out).type
  if current.elem ≠ .undefined ∧ current.shape.isSome then
    return none
  let some first := node.input? 0 | return none
  let input := (← g.arg first).type
  let some derived ← g.derivedType? node input | return none
  let filled := fillType current derived
  return if filled = current then none else some (out, filled)

def inferAll (order : List NodeId) : Except Fault Graph :=
  order.foldlM (fun g id => do
    match ← g.inferType? id with
    | some (out, type) => g.setArgType out type
    | none => return g) g

/-- All checks of a graph; the answer is the order in which types are filled in. -/
def check : Except (Failure GraphError) (List NodeId) := do
  Failure.ofFault g.checkIndices
  g.checkSources
  g.topologicalOrder

/-- Validates the graph, then fills in unknown types. -/
def resolve : Edit GraphError Unit := fun g =>
  match g.check with
  | .error failure => .error failure g
  | .ok order =>
    match g.inferAll order with
    | .error fault => .error (.fault fault) g
    | .ok g => .ok () g

end OpGraph.Graph
