import OpGraph.Fusion.Forest
import OpGraph.Fusion.Fuse
import OpGraph.Text.Blank

/-!
Partitioning a graph for a device. The nodes that the device supports are grouped into connected
components, and each component is fused unless the fused node would feed itself.
-/

namespace OpGraph

structure Capability where
  name : String
  supports : Graph → NodeId → Except Fault Bool

/-- A device that runs some operators over some element types. -/
structure OpSet where
  name : String
  ops : Std.ExtTreeSet OpKey
  elems : List Elem

namespace OpSet

/-- The last place where a text is divided by `::`. -/
def splitLast? : List Char → Option (List Char × List Char)
  | [] => none
  | c :: rest =>
    match splitLast? rest with
    | some (before, after) => some (c :: before, after)
    | none =>
      match c, rest with
      | ':', ':' :: after => some ([], after)
      | _, _ => none

/-- An operator as `domain::op_type`, or a standard one as its type alone. -/
def parseOp (entry : String) : OpKey :=
  let entry := Text.trim entry.toList
  match splitLast? entry with
  | some (domain, opType) => ⟨String.ofList domain, String.ofList opType⟩
  | none => .standard (String.ofList entry)

def ofEntries (name : String) (entries : List String) : OpSet :=
  ⟨name, Std.ExtTreeSet.ofList (entries.map parseOp) compare, Elem.all⟩

/-- The operator is supported, and so is every element type that is known. -/
def supports (s : OpSet) (g : Graph) (id : NodeId) : Except Fault Bool := do
  let node ← g.node id
  if node.key ∉ s.ops then
    return false
  (node.presentInputs ++ node.presentOutputs).allM fun arg => do
    let elem := (← g.arg arg).type.elem
    return elem = .undefined || s.elems.contains elem

def capability (s : OpSet) : Capability :=
  ⟨s.name, s.supports⟩

end OpSet

namespace Graph

variable (g : Graph)

/-- Some nodes, joined along the edges of the graph that run between them. -/
def componentForest (nodes : List NodeId) : Except Fault Forest :=
  nodes.foldlM (fun f id => do
    return (← g.successors id).foldl (fun f next => if next ∈ f then f.join id next else f) f)
    (.singletons nodes)

/-- The connected components of the supported nodes, by their least node. -/
def candidates (c : Capability) : Except Fault (List (List NodeId)) := do
  let supported ← g.nodeIds.filterM fun id => c.supports g id
  let f ← g.componentForest supported
  return (f.group ∅ supported).toList.map Prod.snd

/--
The names of the args that a component reads from outside, initializers apart, and of those it
gives.
-/
def componentBoundary (nodes : List NodeId) : Except Fault (List String × List String) := do
  let inside := Std.ExtTreeSet.ofList nodes compare
  let read ← RegionRequest.readFrom g inside
  let given ← RegionRequest.addOutputs g inside ∅
  let inputs := (read.toList.filter fun (_, arg) => !g.isInitializer arg).map Prod.fst
  return (inputs, given.keys)

end Graph

structure PartitionReport where
  /-- The name of each fused node and the number of nodes in its region. -/
  fused : List (String × Nat)
  /-- The name of each region that was skipped, and why. -/
  skipped : List (String × String)
deriving DecidableEq

namespace PartitionReport

def empty : PartitionReport := ⟨[], []⟩

def addFused (r : PartitionReport) (name : String) (covered : Nat) : PartitionReport :=
  { r with fused := r.fused ++ [(name, covered)] }

def addSkipped (r : PartitionReport) (name reason : String) : PartitionReport :=
  { r with skipped := r.skipped ++ [(name, reason)] }

end PartitionReport

namespace Capability

variable (c : Capability)

def orFault {ε α : Type} (x : Except Fault α) : Edit ε α :=
  match x with
  | .ok a => return a
  | .error fault => throw (.fault fault)

/-- Fuses one component, or skips it. -/
def fuseComponent (report : PartitionReport) (nodes : List NodeId) (i : Nat) :
    Edit FusionError PartitionReport := do
  let g ← get
  let name := c.name ++ "_" ++ toString i
  let (inputs, outputs) ← orFault (g.componentBoundary nodes)
  if outputs.isEmpty then
    return report.addSkipped name "no live outputs"
  match RegionRequest.find ⟨name, inputs, outputs, [], c.name⟩ g with
  | .ok region =>
    let id ← region.fuse
    let node ← orFault ((← get).node id)
    return report.addFused node.name region.nodes.length
  | .error (.error e) =>
    if e.isLoop then
      return report.addSkipped name e.reason
    else
      throw (.error (.region e))
  | .error (.fault fault) => throw (.fault fault)

def partition : Edit FusionError PartitionReport := do
  let components ← orFault ((← get).candidates c)
  components.zipIdx.foldlM (fun report (nodes, i) => c.fuseComponent report nodes i) .empty

end Capability

end OpGraph
