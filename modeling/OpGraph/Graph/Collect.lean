import OpGraph.Graph.Edit

/-!
Garbage collection. A node is dead when none of its outputs is read or a graph output; removing dead
nodes may leave others dead. Args that nothing refers to go next, then the events that no live arg
can reach.
-/

namespace OpGraph.Graph

variable (g : Graph)

def isDead (node : Node) : Bool :=
  node.presentOutputs.all fun arg => !g.hasConsumers arg && !g.isOutput arg

/-- Removes the nodes that are dead now, then those that this left dead, and so on. -/
def removeDead : Nat → Nat → Graph → Except Fault (Nat × Graph)
  | 0, removed, g => .ok (removed, g)
  | fuel + 1, removed, g =>
    match (g.liveNodes.filter g.isDead).map Node.id with
    | [] => .ok (removed, g)
    | dead => do
      let g ← dead.foldlM (fun g id => Prod.snd <$> g.removeNode id) g
      removeDead fuel (removed + dead.length) g

/-- Nothing produces, reads or declares the arg. -/
def isOrphan (arg : ArgId) : Bool :=
  (g.producer? arg).isNone && !g.hasConsumers arg && !g.isInput arg && !g.isOutput arg

def removeOrphans : Graph :=
  (g.argIds.filter g.isOrphan).foldl removeArg g

def pruneLog : Graph :=
  { g with log := g.log.retainReachable g.argIds }

/-- Collects the garbage; the number is that of the removed nodes. Every round removes a node. -/
def collect : Except Fault (Nat × Graph) := do
  let (removed, g) ← removeDead (g.liveNodes.length + 1) 0 g
  return (removed, g.removeOrphans.pruneLog)

end OpGraph.Graph
