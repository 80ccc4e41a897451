import OpGraph.Graph.Basic

/-!
Topological order. A node is ready when all nodes that produce its inputs have been listed; of the
ready nodes the one with the lowest handle comes next. Nodes that never become ready lie on a cycle
or behind one.
-/

namespace OpGraph.Graph

/-- The state of the search: the nodes still waiting, each with its open input slots. -/
structure Kahn where
  waiting : Std.ExtTreeMap NodeId Nat
  ready : Std.ExtTreeSet NodeId
  order : List NodeId

variable (g : Graph)

/-- The input slots of a node that read an output of some node. -/
def openSlots (node : Node) : Nat :=
  node.presentInputs.countP fun arg => (g.producer? arg).isSome

def kahnStart : Kahn :=
  g.liveNodes.foldl (fun s node =>
    let slots := g.openSlots node
    if slots = 0 then
      { s with ready := s.ready.insert node.id }
    else
      { s with waiting := s.waiting.insert node.id slots })
    ⟨∅, ∅, []⟩

/-- Closes the slots of one reader of a listed output. -/
def closeSlots (arg : ArgId) (s : Kahn) (user : NodeId) : Except Fault Kahn := do
  let node ← g.node user
  match s.waiting[user]? with
  | none => return s
  | some count =>
    let left ← Fault.ofOverflow (Word.sub count (node.presentInputs.count arg))
    if left = 0 then
      return { s with waiting := s.waiting.erase user, ready := s.ready.insert user }
    else
      return { s with waiting := s.waiting.insert user left }

def listNode (s : Kahn) (id : NodeId) : Except Fault Kahn := do
  let node ← g.node id
  let s := { s with ready := s.ready.erase id, order := s.order ++ [id] }
  node.presentOutputs.foldlM (fun s arg => (g.consumersOf arg).foldlM (g.closeSlots arg) s) s

/-- Lists ready nodes until there are none; no node is listed twice. -/
def kahnRun : Nat → Kahn → Except Fault Kahn
  | 0, s => .ok s
  | fuel + 1, s =>
    match s.ready.toList.head? with
    | none => .ok s
    | some id => do kahnRun fuel (← g.listNode s id)

/-- The live nodes, producers first. -/
def topologicalOrder : Except (Failure GraphError) (List NodeId) := do
  let s ← Failure.ofFault (g.kahnRun g.liveNodes.length g.kahnStart)
  if s.waiting.isEmpty then
    return s.order
  else
    let names ← Failure.ofFault (s.waiting.keys.mapM fun id => Node.name <$> g.node id)
    throw (.error (.cycle names))

/-- The topological order of a graph that must not have a cycle. -/
def orderOrFault : Except Fault (List NodeId) :=
  match g.topologicalOrder with
  | .ok order => .ok order
  | .error (.error e) => .error (.notAcyclic g.name e)
  | .error (.fault f) => .error f

/-- The distinct handles of a list, ascending. -/
def ascending (ids : List NodeId) : List NodeId :=
  (Std.ExtTreeSet.ofList ids compare).toList

/-- The nodes that read an output of a node, ascending. -/
def successors (id : NodeId) : Except Fault (List NodeId) := do
  let node ← g.node id
  return ascending (node.presentOutputs.flatMap g.consumersOf)

/-- The nodes that produce an input of a node, ascending. -/
def predecessors (id : NodeId) : Except Fault (List NodeId) := do
  let node ← g.node id
  return ascending (node.presentInputs.filterMap g.producer?)

end OpGraph.Graph
