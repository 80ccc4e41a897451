import OpGraph.Graph.Edit
import OpGraph.Graph.Reach

/-!
Regions that can become one node. A region is asked for by its boundary: the inputs and constants it
may read and the outputs it has to give. It holds everything reached backwards from the outputs
without crossing the boundary, and it is refused if the one node in its place would feed itself.
-/

namespace OpGraph

inductive FuseError where
  /-- The node would need one of its own outputs as an input. -/
  | loop (name via : String)
  | unknownArg (name arg : String)
  | noOutputs (name : String)
  /-- A requested output is on the boundary or has no producer. -/
  | outputOutside (name output : String)
  /-- The region is not what the graph holds any more. -/
  | stale (name : String)
deriving DecidableEq

namespace FuseError

def loopReason : String := "loop detected"

def start (name : String) : String := "cannot fuse '" ++ name ++ "': "

def message : FuseError → String
  | loop name via => start name ++ loopReason ++ " through '" ++ via ++ "'"
  | unknownArg name arg => start name ++ "unknown node-arg '" ++ arg ++ "'"
  | noOutputs name => start name ++ "no outputs requested"
  | outputOutside name output =>
    start name ++ "output '" ++ output ++ "' is not produced inside the subgraph"
  | stale name => start name ++ "descriptor is stale"

def reason : FuseError → String
  | loop .. => loopReason
  | error => error.message

def isLoop : FuseError → Bool
  | loop .. => true
  | _ => false

end FuseError

/-- The boundary of a region. The names are those of args, ascending. -/
structure Boundary where
  name : String
  domain : String
  tag : String
  inputs : List String
  outputs : List String
  constants : List String
  /-- Values for later stages; they become text attributes of the fused node. -/
  params : Std.ExtTreeMap String String
  inputTypes : List TensorType
  outputTypes : List TensorType
deriving DecidableEq

/-- The nodes of a region, ascending, and its boundary. -/
structure Region where
  nodes : List NodeId
  boundary : Boundary
deriving DecidableEq

structure RegionRequest where
  name : String
  inputs : List String
  outputs : List String
  constants : List String
  tag : String
deriving DecidableEq

/-- The first item of `needle` that is not in `haystack`; both are ascending. -/
def firstMissing : List String → List String → Option String
  | _, [] => none
  | [], item :: _ => some item
  | h :: haystack, item :: needle =>
    if h < item then firstMissing haystack (item :: needle)
    else if h = item then firstMissing haystack needle
    else some item

namespace RegionRequest

abbrev ArgTable := Std.ExtTreeMap String ArgId

variable (r : RegionRequest) (g : Graph)

def lookup (names : List String) : Except FuseError ArgTable :=
  names.foldlM (fun table name =>
    match g.findArg? name with
    | some arg => .ok (table.insert name arg)
    | none => .error (.unknownArg r.name name)) ∅

def argsOf (entries : List (String × ArgId)) : Std.ExtTreeSet ArgId :=
  Std.ExtTreeSet.ofList (entries.map Prod.snd) compare

/-- Adds the producer of a requested output, which must not lie on the boundary. -/
def addStart (stop : Std.ExtTreeSet ArgId) (nodes : Graph.NodeSet) (entry : String × ArgId) :
    Except FuseError Graph.NodeSet :=
  match g.producer? entry.2 with
  | some producer =>
    if entry.2 ∈ stop then .error (.outputOutside r.name entry.1) else .ok (nodes.insert producer)
  | none => .error (.outputOutside r.name entry.1)

def starts (stop : Std.ExtTreeSet ArgId) (outputs : ArgTable) : Except FuseError Graph.NodeSet :=
  outputs.toList.foldlM (r.addStart g stop) ∅

/-- Enters an arg under its name if it is to be kept. -/
def enter (keep : ArgId → Bool) (table : ArgTable) (arg : ArgId) : Except Fault ArgTable :=
  if keep arg then do
    return table.insertIfNew (← g.arg arg).name arg
  else
    return table

def enterSlots (slots : Node → List ArgId) (keep : ArgId → Bool) (table : ArgTable) (id : NodeId) :
    Except Fault ArgTable := do
  (slots (← g.node id)).foldlM (enter g keep) table

/-- The args that nodes of a set read and that no node of the set produces. -/
def readFrom (covered : Graph.NodeSet) : Except Fault ArgTable :=
  covered.toList.foldlM
    (enterSlots g Node.presentInputs fun arg => !(g.producer? arg).any (· ∈ covered)) ∅

/-- Adds the initializers that are read without having been asked for. -/
def addConstants (read declared constants : ArgTable) : ArgTable :=
  read.toList.foldl (fun constants (name, arg) =>
    if g.isInitializer arg ∧ name ∉ declared ∧ name ∉ constants then
      constants.insert name arg
    else
      constants) constants

/-- The first arg of the boundary that is produced by a node of a set. -/
def producedIn? (nodes : Graph.NodeSet) (boundary : List (String × ArgId)) : Option String :=
  (boundary.find? fun (_, arg) => (g.producer? arg).any (· ∈ nodes)).map Prod.fst

/-- An output is needed outside a set of nodes. -/
def escapes (covered : Graph.NodeSet) (arg : ArgId) : Bool :=
  g.isOutput arg || (g.consumersOf arg).any (· ∉ covered)

/-- Adds the outputs of covered nodes that are needed outside. -/
def addOutputs (covered : Graph.NodeSet) (outputs : ArgTable) : Except Fault ArgTable :=
  covered.toList.foldlM (enterSlots g Node.presentOutputs (escapes g covered)) outputs

def typesOf (names : List String) : Except Fault (List TensorType) :=
  (names.filterMap g.findArg?).mapM fun arg => Arg.type <$> g.arg arg

def toBoundary (inputs outputs constants : List String) : Except Fault Boundary := do
  return ⟨r.name, OpKey.extensionDomain, r.tag, inputs, outputs, constants, ∅,
    ← typesOf g inputs, ← typesOf g outputs⟩

/-- Lifts an error of a request that cannot be met. -/
def refuse {α : Type} : Except FuseError α → Except (Failure FuseError) α
  | .ok a => .ok a
  | .error e => .error (.error e)

/-- What a request covers, whether or not it can become one node. -/
structure Outline where
  covered : Graph.NodeSet
  inputs : ArgTable
  outputs : ArgTable
  /-- The constants that were asked for, and the initializers that are read besides. -/
  constants : ArgTable
  /-- What is read from outside the covered nodes. -/
  read : ArgTable

def outline : Except (Failure FuseError) Outline := do
  let inputs ← refuse (r.lookup g r.inputs)
  let outputs ← refuse (r.lookup g r.outputs)
  let constants ← refuse (r.lookup g r.constants)
  if outputs.isEmpty then
    throw (.error (.noOutputs r.name))
  let stop := argsOf (inputs.toList ++ constants.toList)
  let starts ← refuse (r.starts g stop outputs)
  let covered ← Failure.ofFault (g.reachedBackwards stop starts)
  let read ← Failure.ofFault (readFrom g covered)
  return ⟨covered, inputs, outputs, addConstants g read inputs constants, read⟩

/--
An arg through which the one node in place of the covered ones would feed itself: one that is read
without having been declared, or one of the boundary that depends on a covered node.
-/
def Outline.loopVia? (o : Outline) : Except Fault (Option String) :=
  match firstMissing o.inputs.keys (o.read.keys.filter fun name => name ∉ o.constants) with
  | some via => .ok (some via)
  | none => do
    let reached ← g.reachedForwards o.covered
    return producedIn? g reached (o.inputs.toList ++ o.constants.toList)

def toRegion (o : Outline) : Except Fault Region := do
  let outputs ← addOutputs g o.covered o.outputs
  return ⟨o.covered.toList, ← r.toBoundary g o.inputs.keys outputs.keys o.constants.keys⟩

/-- The region of a request. The graph is only looked at. -/
def find : Except (Failure FuseError) Region := do
  let o ← r.outline g
  match ← Failure.ofFault (o.loopVia? g) with
  | some via => throw (.error (.loop r.name via))
  | none => Failure.ofFault (r.toRegion g o)

end RegionRequest

end OpGraph
