import OpGraph.Fusion.Region

/-!
Replacing a region by one node. The node reads the inputs and then the constants of the region and
produces its outputs, so what reads them stays connected. Args inside the region are left to the
garbage collection.
-/

namespace OpGraph

inductive FusionError where
  | region (error : FuseError)
  | graph (name : String) (error : GraphError)
deriving DecidableEq

def FusionError.message : FusionError → String
  | region error => error.message
  | graph name error => "graph update failed while fusing '" ++ name ++ "': " ++ error.message

namespace Boundary

/-- The attribute of the fused node that holds the tag. -/
def tagAttr : String := "tag"

def request (b : Boundary) : RegionRequest :=
  ⟨b.name, b.inputs, b.outputs, b.constants, b.tag⟩

def withParam (b : Boundary) (key value : String) : Boundary :=
  { b with params := b.params.insert key value }

def attrs (b : Boundary) : Attrs :=
  let attrs : Attrs := b.params.toList.foldl (fun attrs (key, value) =>
    attrs.insert key (.string value)) ∅
  if b.tag = "" then attrs else attrs.insert tagAttr (.string b.tag)

/-- The fused node before it has a name that is free. -/
def nodeSpec (b : Boundary) (g : Graph) (name : String) : NodeSpec where
  name := name
  key := ⟨b.domain, OpKey.fusedSubgraph.opType⟩
  inputs := (b.inputs ++ b.constants).map g.findArg?
  outputs := b.outputs.map g.findArg?
  attrs := b.attrs

end Boundary

namespace Region

/-- A region found anew covers the same nodes and has the same outputs and constants. -/
def agrees (r fresh : Region) : Bool :=
  fresh.nodes = r.nodes && fresh.boundary.outputs = r.boundary.outputs &&
    fresh.boundary.constants = r.boundary.constants

def removeNodes (r : Region) (g : Graph) : Except Fault Graph :=
  r.nodes.foldlM (fun g id => Prod.snd <$> g.removeNode id) g

/-- Replaces the nodes of a region that is still as described. -/
def replace (r : Region) : Edit FusionError NodeId := fun g =>
  match r.removeNodes g with
  | .error fault => .error (.fault fault) g
  | .ok left =>
    match Graph.addNode (r.boundary.nodeSpec g (left.freshNodeName r.boundary.name)) left with
    | .ok id g => .ok id g
    | .error failure g => .error (failure.mapError (.graph r.boundary.name)) g

/-- Finds the region anew and, if it is still as described, puts one node in its place. -/
def fuse (r : Region) : Edit FusionError NodeId := fun g =>
  match r.boundary.request.find g with
  | .error failure => .error (failure.mapError .region) g
  | .ok fresh =>
    if r.agrees fresh then
      r.replace g
    else
      .error (.error (.region (.stale r.boundary.name))) g

end Region

end OpGraph
