import OpGraph.Graph.Topology

/-!
Sets of nodes closed under a step along the edges of a graph.
-/

namespace OpGraph.Graph

abbrev NodeSet := Std.ExtTreeSet NodeId

/-- A set with everything one step away from it. -/
def grow (next : NodeId → Except Fault (List NodeId)) (seen : NodeSet) : Except Fault NodeSet :=
  seen.toList.foldlM (fun seen id => do
    return (← next id).foldl (fun seen id => seen.insert id) seen) seen

/-- Grows a set until it is closed; every round adds a node. -/
def closure (next : NodeId → Except Fault (List NodeId)) : Nat → NodeSet → Except Fault NodeSet
  | 0, seen => .ok seen
  | rounds + 1, seen => do
    let more ← grow next seen
    if more.size = seen.size then return seen else closure next rounds more

variable (g : Graph)

/-- The producers of the inputs of a node, except for the args at which to stop. -/
def producersUpTo (stop : Std.ExtTreeSet ArgId) (id : NodeId) : Except Fault (List NodeId) := do
  let node ← g.node id
  return (node.presentInputs.filter fun arg => arg ∉ stop).filterMap g.producer?

/-- The nodes reached backwards from a set without crossing an arg of `stop`. -/
def reachedBackwards (stop : Std.ExtTreeSet ArgId) (start : NodeSet) : Except Fault NodeSet :=
  closure (g.producersUpTo stop) (g.liveNodes.length + 1) start

/-- The nodes reached forwards from a set. -/
def reachedForwards (start : NodeSet) : Except Fault NodeSet :=
  closure g.successors (g.liveNodes.length + 1) start

end OpGraph.Graph
