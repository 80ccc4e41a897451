import OpGraph.Failure
import OpGraph.Provenance.Log

/-!
Operator graphs. Nodes and args live in append-only arenas; removing an entry leaves an empty place,
so a handle names either the entry it was given for or nothing. Names, producers and consumers are
kept in indices beside the arenas.
-/

namespace OpGraph

/-- The slots of a list that are not empty. -/
def present {α : Type} (slots : List (Option α)) : List α :=
  slots.filterMap fun slot => slot

structure Arg where
  id : ArgId
  name : String
  type : TensorType
deriving DecidableEq

/-- An operator node. An operand or output that is left out has an empty slot. -/
structure Node where
  id : NodeId
  name : String
  key : OpKey
  inputs : List (Option ArgId)
  outputs : List (Option ArgId)
  attrs : Attrs
deriving DecidableEq

namespace Node

/-- The arg in an input slot; slots past the end are empty. -/
def input? (node : Node) (slot : Nat) : Option ArgId :=
  node.inputs[slot]?.join

/-- The arg in an output slot; slots past the end are empty. -/
def output? (node : Node) (slot : Nat) : Option ArgId :=
  node.outputs[slot]?.join

def presentInputs (node : Node) : List ArgId :=
  present node.inputs

def presentOutputs (node : Node) : List ArgId :=
  present node.outputs

def attr? (node : Node) (name : String) : Option Attr :=
  node.attrs[name]?

def attrInt? (node : Node) (name : String) : Option Int64 :=
  (node.attr? name).bind Attr.int?

def attrInts? (node : Node) (name : String) : Option (List Int64) :=
  (node.attr? name).bind Attr.ints?

end Node

/-- What a new node is made from. -/
structure NodeSpec where
  name : String
  key : OpKey
  inputs : List (Option ArgId)
  outputs : List (Option ArgId)
  attrs : Attrs
deriving DecidableEq

/-- The nodes that read an arg, each with the number of its slots that do. -/
abbrev Uses := Std.ExtTreeMap NodeId Nat

instance : LawfulBEq Uses := inferInstance

structure Graph where
  name : String
  nodes : Array (Option Node)
  args : Array (Option Arg)
  nodeNames : Std.ExtTreeMap String NodeId
  argNames : Std.ExtTreeMap String ArgId
  producers : Std.ExtTreeMap ArgId NodeId
  consumers : Std.ExtTreeMap ArgId Uses
  inputs : List ArgId
  outputs : List ArgId
  initializers : Std.ExtTreeMap ArgId Tensor
  log : Log
deriving DecidableEq

namespace Graph

def empty (name : String) : Graph where
  name := name
  nodes := #[]
  args := #[]
  nodeNames := ∅
  argNames := ∅
  producers := ∅
  consumers := ∅
  inputs := []
  outputs := []
  initializers := ∅
  log := .empty

variable (g : Graph)

def node? (id : NodeId) : Option Node :=
  g.nodes[id.index]?.join

def arg? (id : ArgId) : Option Arg :=
  g.args[id.index]?.join

/-- The node of a handle that has to be live. -/
def node (id : NodeId) : Except Fault Node :=
  match g.node? id with
  | some node => .ok node
  | none => .error (.staleNode id)

/-- The arg of a handle that has to be live. -/
def arg (id : ArgId) : Except Fault Arg :=
  match g.arg? id with
  | some arg => .ok arg
  | none => .error (.staleArg id)

/-- The live nodes, ascending by handle. -/
def liveNodes : List Node :=
  present g.nodes.toList

/-- The live args, ascending by handle. -/
def liveArgs : List Arg :=
  present g.args.toList

def nodeIds : List NodeId :=
  g.liveNodes.map Node.id

def argIds : List ArgId :=
  g.liveArgs.map Arg.id

def numNodes : Nat :=
  g.nodeNames.size

def numArgs : Nat :=
  g.argNames.size

def findNode? (name : String) : Option NodeId :=
  g.nodeNames[name]?

def findArg? (name : String) : Option ArgId :=
  g.argNames[name]?

def producer? (arg : ArgId) : Option NodeId :=
  g.producers[arg]?

/-- The nodes that read an arg, ascending by handle. -/
def consumersOf (arg : ArgId) : List NodeId :=
  match g.consumers[arg]? with
  | some uses => uses.keys
  | none => []

def hasConsumers (arg : ArgId) : Bool :=
  g.consumers.contains arg

def isInput (arg : ArgId) : Bool :=
  g.inputs.contains arg

def isOutput (arg : ArgId) : Bool :=
  g.outputs.contains arg

def isInitializer (arg : ArgId) : Bool :=
  g.initializers.contains arg

/-- The arg gets its value from a node, from outside or from an initializer. -/
def hasSource (arg : ArgId) : Bool :=
  (g.producer? arg).isSome || g.isInput arg || g.isInitializer arg

/-- The value of an arg that is an initializer or produced by a `Constant` node. -/
def constantValue? (arg : ArgId) : Except Fault (Option Tensor) :=
  match g.initializers[arg]? with
  | some tensor => .ok (some tensor)
  | none =>
    match g.producer? arg with
    | none => .ok none
    | some producer => do
      let node ← g.node producer
      if node.key = .standard "Constant" then
        return (node.attr? "value").bind Attr.tensor?
      else
        return none

def isConstant (arg : ArgId) : Except Fault Bool :=
  Option.isSome <$> g.constantValue? arg

/-- The arg is a constant whose elements are all zero. -/
def isZero (arg : ArgId) : Except Fault Bool := do
  return match ← g.constantValue? arg with
    | some tensor => tensor.isAllZero
    | none => false

/-- The fix-point of an arg: that of its producer, else the latest one in its history. -/
def fixPoint? (arg : ArgId) : Except Fault (Option Int64) :=
  match g.producer? arg with
  | none => .ok (g.log.fixPoint? arg)
  | some producer => do
    let node ← g.node producer
    return node.attrInt? fixPointAttr <|> g.log.fixPoint? arg

end Graph

end OpGraph
