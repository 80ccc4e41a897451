import OpGraph.Graph.Edit
import OpGraph.Graph.Topology

/-!
Models, the stored form of graphs. A model refers to args and nodes by name and lists the nodes in
topological order. Large initializers can be kept apart, in one run of raw bytes, and are then given
by offset and length. Where values came from is not stored.
-/

namespace OpGraph

structure ModelArg where
  name : String
  type : TensorType
deriving DecidableEq

inductive DataLocation where
  | inline (data : Payload)
  | external (elem : Elem) (offset length : Nat)
deriving DecidableEq

structure ModelInitializer where
  name : String
  dims : Dims
  location : DataLocation
deriving DecidableEq

structure ModelNode where
  name : String
  key : OpKey
  inputs : List (Option String)
  outputs : List (Option String)
  attrs : Attrs
deriving DecidableEq

structure Model where
  format : String
  version : Nat
  name : String
  /-- The path of the file with the external bytes. -/
  externalData : Option String
  inputs : List String
  outputs : List String
  args : List ModelArg
  initializers : List ModelInitializer
  nodes : List ModelNode
deriving DecidableEq

inductive ModelError where
  | file
  /-- A text is not the stored form of a model. -/
  | undecodable
  | format (path found : String) (version : Nat)
  | noExternalData (name : String)
  | externalRange (name : String) (offset length available : Nat)
  | externalDecode (name : String) (elem : Elem)
  | graph (error : GraphError)
deriving DecidableEq

def ModelError.message? : ModelError → Option String
  | file | undecodable => none
  | format path found version =>
    some (path ++ " is not a graft model (" ++ found ++ " v" ++ toString version ++ ")")
  | noExternalData name =>
    some ("initializer '" ++ name ++
      "' refers to external data but the model has no external data file")
  | externalRange name offset length available =>
    some ("external data for '" ++ name ++ "' is out of range (" ++ toString offset ++ "+" ++
      toString length ++ " > " ++ toString available ++ ")")
  | externalDecode name elem =>
    some ("external data for '" ++ name ++ "' cannot be decoded as " ++ elem.name)
  | graph error => some error.message

namespace Model

def formatName : String := "graft-model"

def formatVersion : Nat := 1

/-- The format is one that can be read. -/
def isKnown (m : Model) : Bool :=
  m.format == formatName && m.version == formatVersion

end Model

namespace Graph

/-! ### From a graph to a model -/

variable (g : Graph)

def argName (id : ArgId) : Except Fault String :=
  Arg.name <$> g.arg id

def slotName : Option ArgId → Except Fault (Option String)
  | none => .ok none
  | some id => some <$> g.argName id

/--
The initializers, ascending by handle, and the external bytes. With a place for external bytes the
tensors of more than `threshold` bytes go there, one after the other.
-/
def modelInitializers (hasExternal : Bool) (threshold : Nat) :
    Except Fault (List ModelInitializer × Bytes) :=
  g.initializers.toList.foldlM (fun (entries, bytes) (arg, tensor) => do
    let name ← g.argName arg
    if hasExternal && threshold < tensor.byteSize then
      let data := tensor.data.toBytes
      let location := .external tensor.elem bytes.length data.length
      return (entries ++ [⟨name, tensor.dims, location⟩], bytes ++ data)
    else
      return (entries ++ [⟨name, tensor.dims, .inline tensor.data⟩], bytes)) ([], [])

def modelNode (id : NodeId) : Except Fault ModelNode := do
  let node ← g.node id
  return ⟨node.name, node.key, ← node.inputs.mapM g.slotName, ← node.outputs.mapM g.slotName,
    node.attrs⟩

def toModel (external : Option String) (threshold : Nat) : Except Fault (Model × Bytes) := do
  let (initializers, bytes) ← g.modelInitializers external.isSome threshold
  let inputs ← g.inputs.mapM g.argName
  let outputs ← g.outputs.mapM g.argName
  let nodes ← (← g.orderOrFault).mapM g.modelNode
  let model : Model := {
    format := Model.formatName
    version := Model.formatVersion
    name := g.name
    externalData := if bytes.isEmpty then none else external
    inputs := inputs
    outputs := outputs
    args := g.liveArgs.map fun arg => ⟨arg.name, arg.type⟩
    initializers := initializers
    nodes := nodes }
  return (model, bytes)

end Graph

namespace Model

/-! ### From a model to a graph -/

/-- The arg of a name that has to be known. -/
def lookup (g : Graph) (name : String) : Except (Failure ModelError) ArgId :=
  match g.findArg? name with
  | some arg => .ok arg
  | none => .error (.error (.graph (.unknownArg name)))

def lookupSlot (g : Graph) : Option String → Except (Failure ModelError) (Option ArgId)
  | none => .ok none
  | some name => some <$> lookup g name

def edit {α : Type} (g : Graph) (step : Edit GraphError α) : Except (Failure ModelError) Graph :=
  match step g with
  | .ok _ g => .ok g
  | .error failure _ => .error (failure.mapError .graph)

def payload (external : Option Bytes) (name : String) :
    DataLocation → Except (Failure ModelError) Payload
  | .inline data => .ok data
  | .external elem offset length =>
    match external with
    | none => .error (.error (.noExternalData name))
    | some bytes =>
      if offset + length ≤ bytes.length then
        match Payload.ofBytes? elem ((bytes.drop offset).take length) with
        | some data => .ok data
        | none => .error (.error (.externalDecode name elem))
      else
        .error (.error (.externalRange name offset length bytes.length))

def addArg (g : Graph) (arg : ModelArg) : Except (Failure ModelError) Graph :=
  edit g (Graph.newArg arg.name arg.type)

def addInput (g : Graph) (name : String) : Except (Failure ModelError) Graph := do
  let arg ← lookup g name
  return { g with inputs := g.inputs ++ [arg] }

def addInitializer (external : Option Bytes) (g : Graph) (entry : ModelInitializer) :
    Except (Failure ModelError) Graph := do
  let arg ← lookup g entry.name
  let tensor : Tensor := ⟨entry.dims, ← payload external entry.name entry.location⟩
  (Graph.checkTensor entry.name tensor).mapError fun failure => failure.mapError ModelError.graph
  Failure.ofFault (g.setInitializer arg tensor)

def addNode (g : Graph) (entry : ModelNode) : Except (Failure ModelError) Graph := do
  let inputs ← entry.inputs.mapM (lookupSlot g)
  let outputs ← entry.outputs.mapM (lookupSlot g)
  edit g (Graph.addNode ⟨entry.name, entry.key, inputs, outputs, entry.attrs⟩)

def addOutput (g : Graph) (name : String) : Except (Failure ModelError) Graph := do
  Failure.ofFault (g.addOutput (← lookup g name))

def toGraph (m : Model) (external : Option Bytes) : Except (Failure ModelError) Graph := do
  let g ← m.args.foldlM addArg (Graph.empty m.name)
  let g ← m.inputs.foldlM addInput g
  let g ← m.initializers.foldlM (addInitializer external) g
  let g ← m.nodes.foldlM addNode g
  m.outputs.foldlM addOutput g

end Model

end OpGraph
