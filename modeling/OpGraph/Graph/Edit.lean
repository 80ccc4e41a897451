import OpGraph.Graph.Basic

/-!
The edits of a graph. Every edit keeps the indices in step with the arenas. An edit that can end in
an error runs in `Edit`, which keeps the graph as it was left when the error arose; the others give
the new graph, or a fault.
-/

namespace OpGraph

/-- An edit that may end in an error `ε`. The graph is kept also then. -/
abbrev Edit (ε α : Type) := EStateM (Failure ε) Graph α

/--
The first of `base`, `base_1`, `base_2`, … that is no key; an empty base is never taken as it is.
-/
def freshName {α : Type} (names : Std.ExtTreeMap String α) (base : String) : String :=
  if base ≠ "" ∧ base ∉ names then base else search names.size 1
where
  search : Nat → Nat → String
    | 0, i => base ++ "_" ++ toString i
    | fuel + 1, i =>
      let name := base ++ "_" ++ toString i
      if name ∈ names then search fuel (i + 1) else name

namespace Graph

def freshArgName (g : Graph) (base : String) : String :=
  freshName g.argNames base

def freshNodeName (g : Graph) (base : String) : String :=
  freshName g.nodeNames base

/-! ### Args -/

def nextArg (g : Graph) : ArgId := ⟨g.args.size⟩

def pushArg (g : Graph) (name : String) (type : TensorType) : Graph :=
  { g with
    args := g.args.push (some ⟨g.nextArg, name, type⟩)
    argNames := g.argNames.insert name g.nextArg }

/-- Creates an arg that nothing produces or reads. -/
def newArg (name : String) (type : TensorType) : Edit GraphError ArgId := fun g =>
  if name ∈ g.argNames then
    .error (.error (.duplicateArg name)) g
  else
    .ok g.nextArg (g.pushArg name type)

def addInput (name : String) (type : TensorType) : Edit GraphError ArgId := do
  let id ← newArg name type
  modify fun g => { g with inputs := g.inputs ++ [id] }
  return id

/-- The payload of the tensor has the length that its dimensions ask for. -/
def checkTensor (name : String) (tensor : Tensor) : Except (Failure GraphError) Unit :=
  match tensor.lengthError? name with
  | .error o => .error (.fault (.overflow o))
  | .ok (some e) => .error (.error (.tensor e))
  | .ok none => .ok ()

/-- Declares a constant; the arg has the type of the tensor. -/
def addInitializer (name : String) (tensor : Tensor) : Edit GraphError ArgId := do
  match checkTensor name tensor with
  | .error failure => throw failure
  | .ok () =>
    let id ← newArg name tensor.type
    modify fun g => { g with initializers := g.initializers.insert id tensor }
    return id

/-- Replaces a live arg; its handle stays. -/
def putArg (g : Graph) (arg : Arg) : Graph :=
  { g with args := g.args.setIfInBounds arg.id.index (some arg) }

def setArgType (g : Graph) (id : ArgId) (type : TensorType) : Except Fault Graph := do
  let arg ← g.arg id
  return g.putArg ⟨id, arg.name, type⟩

/-- Makes an arg that no node produces an initializer, or changes its payload. -/
def setInitializer (g : Graph) (id : ArgId) (tensor : Tensor) : Except Fault Graph := do
  let arg ← g.arg id
  if (g.producer? id).isSome then
    throw (.producedInitializer arg.name)
  let g ← g.setArgType id tensor.type
  return { g with initializers := g.initializers.insert id tensor }

def removeInitializer (g : Graph) (id : ArgId) : Option Tensor × Graph :=
  (g.initializers[id]?, { g with initializers := g.initializers.erase id })

/-- Appends an arg to the graph outputs unless it is one already. -/
def addOutput (g : Graph) (id : ArgId) : Except Fault Graph := do
  let _ ← g.arg id
  return if g.isOutput id then g else { g with outputs := g.outputs ++ [id] }

def renameArg (g : Graph) (id : ArgId) (name : String) : Except Fault Graph := do
  let arg ← g.arg id
  let g := g.putArg ⟨id, name, arg.type⟩
  return { g with argNames := (g.argNames.erase arg.name).insert name id }

/-- Takes an arg out of the arena and of all indices. -/
def removeArg (g : Graph) (id : ArgId) : Graph :=
  match g.arg? id with
  | none => g
  | some arg =>
    { g with
      args := g.args.setIfInBounds id.index none
      argNames := g.argNames.erase arg.name
      initializers := g.initializers.erase id
      producers := g.producers.erase id
      consumers := g.consumers.erase id }

/-! ### Nodes -/

/-- Counts one more slot of `node` that reads `arg`. -/
def addUse (consumers : Std.ExtTreeMap ArgId Uses) (arg : ArgId) (node : NodeId) :
    Std.ExtTreeMap ArgId Uses :=
  let uses := consumers.getD arg ∅
  consumers.insert arg (uses.insert node (uses.getD node 0 + 1))

/-- Counts one slot less; counts of zero and args without readers are not kept. -/
def dropUse (consumers : Std.ExtTreeMap ArgId Uses) (arg : ArgId) (node : NodeId) :
    Std.ExtTreeMap ArgId Uses :=
  match consumers[arg]? with
  | none => consumers
  | some uses =>
    let uses :=
      match uses[node]? with
      | none => uses
      | some count => if count = 1 then uses.erase node else uses.insert node (count - 1)
    if uses.isEmpty then consumers.erase arg else consumers.insert arg uses

def checkInputs (g : Graph) (inputs : List ArgId) : Except (Failure GraphError) Unit :=
  inputs.forM fun arg =>
    if (g.arg? arg).isSome then .ok () else .error (.error (.unknownArg arg.text))

/-- Every output is live and gets its value from nowhere yet. -/
def checkOutputs (g : Graph) (outputs : List ArgId) : Except (Failure GraphError) Unit :=
  outputs.forM fun id =>
    match g.arg? id with
    | none => .error (.error (.unknownArg id.text))
    | some arg =>
      match g.producer? id with
      | some producer =>
        match g.node producer with
        | .ok node => .error (.error (.alreadyProduced arg.name node.name))
        | .error fault => .error (.fault fault)
      | none =>
        if g.isInput id || g.isInitializer id then
          .error (.error (.alreadyProduced arg.name "<graph>"))
        else
          .ok ()

def nextNode (g : Graph) : NodeId := ⟨g.nodes.size⟩

def pushNode (g : Graph) (name : String) (spec : NodeSpec) : Graph :=
  let id := g.nextNode
  let node : Node := ⟨id, name, spec.key, spec.inputs, spec.outputs, spec.attrs⟩
  { g with
    nodes := g.nodes.push (some node)
    nodeNames := g.nodeNames.insert name id
    producers := node.presentOutputs.foldl (fun p arg => p.insert arg id) g.producers
    consumers := node.presentInputs.foldl (fun c arg => addUse c arg id) g.consumers }

/-- Adds a node. An empty name is replaced by a fresh one that starts with the operator type. -/
def addNode (spec : NodeSpec) : Edit GraphError NodeId := fun g =>
  let name := if spec.name = "" then g.freshNodeName spec.key.opType else spec.name
  if name ∈ g.nodeNames then
    .error (.error (.duplicateNode name)) g
  else
    match g.checkInputs (present spec.inputs), g.checkOutputs (present spec.outputs) with
    | .error failure, _ => .error failure g
    | .ok (), .error failure => .error failure g
    | .ok (), .ok () => .ok g.nextNode (g.pushNode name spec)

/-- Takes a live node out of the arena and of all indices. -/
def dropNode (g : Graph) (node : Node) : Graph :=
  { g with
    nodes := g.nodes.setIfInBounds node.id.index none
    nodeNames := g.nodeNames.erase node.name
    producers := node.presentOutputs.foldl (fun p arg => p.erase arg) g.producers
    consumers := node.presentInputs.foldl (fun c arg => dropUse c arg node.id) g.consumers }

/-- Removes a node. Its outputs stay, without a producer, until the garbage is collected. -/
def removeNode (g : Graph) (id : NodeId) : Except Fault (Node × Graph) := do
  let node ← g.node id
  return (node, g.dropNode { node with id := id })

/-- The slots with one of them replaced; missing slots in front of it are empty. -/
def setSlot (slots : List (Option ArgId)) (slot : Nat) (arg : Option ArgId) : List (Option ArgId) :=
  (slots ++ List.replicate (slot + 1 - slots.length) none).set slot arg

/-- An arg that a slot is to read has to be live. -/
def checkSlotArg (g : Graph) : Option ArgId → Except Fault Unit
  | none => .ok ()
  | some arg => discard (g.arg arg)

/-- The node at a place of the arena. -/
def placedNode (g : Graph) (id : NodeId) : Except Fault Node :=
  if g.nodes.size ≤ id.index then .error (.outOfRange g.nodes.size id.index) else g.node id

/-- The number of slots that a node needs fits a word. -/
def checkSlot (node : Node) (slot : Nat) : Except Fault Unit :=
  if node.inputs.length ≤ slot then discard (Fault.ofOverflow (Word.add slot 1)) else .ok ()

/-- Counts one more slot of `node` with this content; an empty one is not counted. -/
def addSlot (consumers : Std.ExtTreeMap ArgId Uses) (node : NodeId) :
    Option ArgId → Std.ExtTreeMap ArgId Uses
  | none => consumers
  | some arg => addUse consumers arg node

def dropSlot (consumers : Std.ExtTreeMap ArgId Uses) (node : NodeId) :
    Option ArgId → Std.ExtTreeMap ArgId Uses
  | none => consumers
  | some arg => dropUse consumers arg node

/-- The graph in which an input slot of a live node reads another arg, or nothing. -/
def withInput (g : Graph) (id : NodeId) (node : Node) (slot : Nat) (arg : Option ArgId) : Graph :=
  { g with
    nodes := g.nodes.setIfInBounds id.index
      (some { node with inputs := setSlot node.inputs slot arg })
    consumers := addSlot (dropSlot g.consumers id (node.input? slot)) id arg }

/-- Lets an input slot of a node read another arg, or nothing. -/
def setInput (g : Graph) (id : NodeId) (slot : Nat) (arg : Option ArgId) : Except Fault Graph := do
  g.checkSlotArg arg
  let node ← g.placedNode id
  checkSlot node slot
  return g.withInput id node slot arg

/-- The slots of a list that hold `arg`, ascending. -/
def slotsOf (slots : List (Option ArgId)) (arg : ArgId) : List Nat :=
  slots.zipIdx.filterMap fun (a, i) => if a = some arg then some i else none

/-- Lets all slots of one node that read `old` read `new`. -/
def redirectNode (g : Graph) (old new : ArgId) (user : NodeId) : Except Fault Graph := do
  let node ← g.node user
  (slotsOf node.inputs old).foldlM (fun g slot => g.setInput user slot (some new)) g

/-- Gives the name of `old` to `new`; `old` gets a name of its own that no arg has. -/
def takeOverName (g : Graph) (old new : ArgId) : Except Fault Graph := do
  let arg ← g.arg old
  let g ← g.renameArg old (g.freshArgName (arg.name ++ "_replaced"))
  g.renameArg new arg.name

def redirectAll (g : Graph) (old new : ArgId) : Except Fault Graph :=
  (g.consumersOf old).foldlM (fun g user => g.redirectNode old new user) g

/--
If `old` is a graph output, `new` takes its place there, and also its name unless it is known
outside the graph already.
-/
def handOver (g : Graph) (old new : ArgId) : Except Fault Graph :=
  if g.isOutput old then
    let swapped := { g with outputs := g.outputs.map fun a => if a = old then new else a }
    if g.isOutput new || g.isInput new || g.isInitializer new then
      .ok swapped
    else
      swapped.takeOverName old new
  else
    .ok g

/-- Lets everything that reads `old`, the outside of the graph included, read `new`. -/
def replaceAllUses (g : Graph) (old new : ArgId) : Except Fault Graph :=
  if (g.arg? old).isNone || (g.arg? new).isNone then
    .error (.staleUses old new)
  else if old = new then
    .ok g
  else do
    (← g.redirectAll old new).handOver old new

end Graph

end OpGraph
