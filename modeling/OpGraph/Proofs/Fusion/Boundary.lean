import Mathlib.Order.Bounds.Defs
import Mathlib.Data.List.Forall2
import OpGraph.Proofs.Fusion.Fuse

/-!
What an accepted request is answered with: the least set of nodes that gives the outputs, and a
boundary that names exactly what crosses it.
-/

namespace OpGraph

open Relation

namespace RegionRequest

variable {g : Graph} {r : RegionRequest}

def HasType (g : Graph) (name : String) (type : TensorType) : Prop :=
  ∃ a arg, g.findArg? name = some a ∧ g.arg? a = some arg ∧ arg.type = type

-- Names that are not known would be dropped, and the types would no longer stand beside the names.
theorem typesOf_aligned {names : List String} (hknown : ∀ name ∈ names, (g.findArg? name).isSome)
    {types : List TensorType} (hrun : typesOf g names = .ok types) :
    List.Forall₂ (HasType g) names types := by
  unfold typesOf at hrun
  induction names generalizing types with
  | nil =>
    rw [List.filterMap_nil, List.mapM_nil, pure_eq_ok_iff] at hrun
    subst hrun
    apply List.Forall₂.nil
  | cons name names ih =>
    obtain ⟨a, ha⟩ := Option.isSome_iff_exists.mp (hknown name List.mem_cons_self)
    rw [List.filterMap_cons_some ha, List.mapM_cons] at hrun
    simp only [bind_eq_ok_iff, map_eq_ok_iff, pure_eq_ok_iff, Graph.arg_eq_ok_iff] at hrun
    obtain ⟨type, ⟨arg, harg, htype⟩, rest, hrest, rfl⟩ := hrun
    apply List.Forall₂.cons
    · exact ⟨a, arg, ha, harg, htype⟩
    · apply ih _ hrest
      intro name' hname'
      exact hknown name' (List.mem_cons_of_mem name hname')

theorem typesOf_of_find {sub : Region} (hfind : r.find g = .ok sub) :
    typesOf g sub.boundary.inputs = .ok sub.boundary.inputTypes ∧
      typesOf g sub.boundary.outputs = .ok sub.boundary.outputTypes := by
  unfold find at hfind
  simp only [bind_eq_ok_iff] at hfind
  obtain ⟨o, -, via?, -, hrun⟩ := hfind
  split at hrun
  · cases hrun
  · rw [ofFault_eq_ok_iff] at hrun
    unfold toRegion toBoundary at hrun
    simp only [bind_eq_ok_iff, pure_eq_ok_iff] at hrun
    obtain ⟨outputs, -, boundary, ⟨inputTypes, hinputs, outputTypes, houtputs, rfl⟩, rfl⟩ := hrun
    exact ⟨hinputs, houtputs⟩

structure Supplies (r : RegionRequest) (g : Graph) (nodes : Set NodeId) : Prop where
  outputs : ∀ name ∈ r.outputs, ∃ a, g.findArg? name = some a ∧
    ∃ id ∈ nodes, g.producer? a = some id
  inputs : ∀ id ∈ nodes, ∀ node, g.node? id = some node → ∀ a ∈ node.presentInputs,
    ¬ r.OnBoundary g a → ∀ source, g.producer? a = some source → source ∈ nodes

/-- The region holds what the request needs and names everything that crosses its boundary. -/
structure AnsweredBy (r : RegionRequest) (g : Graph) (sub : Region) : Prop where
  nodes_least : IsLeast {nodes | r.Supplies g nodes} {id | id ∈ sub.nodes}
  reads_named : ∀ id ∈ sub.nodes, ∀ node, g.node? id = some node → ∀ a ∈ node.presentInputs,
    (∃ source ∈ sub.nodes, g.producer? a = some source) ∨
      Named g sub.boundary.inputs a ∨ Named g sub.boundary.constants a
  escapes_named : ∀ id ∈ sub.nodes, ∀ node, g.node? id = some node → ∀ a ∈ node.presentOutputs,
    (a ∈ g.outputs ∨ ∃ id' node', id' ∉ sub.nodes ∧ g.node? id' = some node' ∧
      a ∈ node'.presentInputs) → Named g sub.boundary.outputs a
  outputs_inside : ∀ name ∈ sub.boundary.outputs, ∃ a, g.findArg? name = some a ∧
    ∃ id ∈ sub.nodes, g.producer? a = some id
  independent : ∀ name ∈ sub.boundary.inputs ++ sub.boundary.constants, ∀ a last,
    g.findArg? name = some a → g.producer? a = some last →
      ∀ first ∈ sub.nodes, ¬ ReflTransGen g.Feeds first last
  nodes_ascending : sub.nodes.Pairwise fun id id' => id.index < id'.index
  inputs_ascending : sub.boundary.inputs.Pairwise (· < ·)
  outputs_ascending : sub.boundary.outputs.Pairwise (· < ·)
  constants_ascending : sub.boundary.constants.Pairwise (· < ·)
  inputs_declared : ∀ name, name ∈ sub.boundary.inputs ↔ name ∈ r.inputs
  inputs_typed : List.Forall₂ (HasType g) sub.boundary.inputs sub.boundary.inputTypes
  outputs_typed : List.Forall₂ (HasType g) sub.boundary.outputs sub.boundary.outputTypes

namespace Accepted

variable {o : Outline} {sub : Region}

theorem supplies_nodes (h : g.Indexed) (hs : Accepted r g o sub) :
    r.Supplies g {id | id ∈ sub.nodes} where
  outputs name hname := by
    obtain ⟨a, ha⟩ := Option.isSome_iff_exists.mp (hs.posed.outputs_known name hname)
    have hnamed : Named g r.outputs a := ⟨name, hname, ha⟩
    obtain ⟨id, hid, hcovers⟩ :=
      hs.produced_of_named_outputs h ((hs.named_outputs_iff h).mpr (.inl hnamed))
    exact ⟨a, ha, id, hs.mem_nodes_iff.mpr hcovers, hid⟩
  inputs id hid node hnode a ha hopen source hsource := by
    have hpull : g.PullsFrom (r.OnBoundary g) id source := ⟨node, a, hnode, ha, hopen, hsource⟩
    exact hs.mem_nodes_iff.mpr ((hs.mem_nodes_iff.mp hid).trans (.single hpull))

theorem nodes_subset (hs : Accepted r g o sub) {nodes : Set NodeId} (hnodes : r.Supplies g nodes) :
    ∀ id ∈ sub.nodes, id ∈ nodes := by
  intro id hid
  obtain ⟨a, first, ⟨name, hname, ha⟩, hfirst, hpath⟩ := hs.mem_nodes_iff.mp hid
  -- Along the path by which the node was reached.
  induction hpath with
  | refl =>
    obtain ⟨a', ha', id, hmem, hid⟩ := hnodes.outputs name hname
    cases ha.symm.trans ha'
    cases hfirst.symm.trans hid
    exact hmem
  | tail hpath hlast ih =>
    have hcovers : r.Covers g _ := ⟨a, first, ⟨name, hname, ha⟩, hfirst, hpath⟩
    obtain ⟨node, a', hnode, hmem, hopen, hsource⟩ := hlast
    exact hnodes.inputs _ (ih (hs.mem_nodes_iff.mpr hcovers)) node hnode a' hmem hopen _ hsource

theorem mem_inputs_iff (h : g.Indexed) (hs : Accepted r g o sub) {name : String} :
    name ∈ sub.boundary.inputs ↔ name ∈ r.inputs := by
  rw [hs.region.inputs, Std.ExtTreeMap.mem_keys, hs.outline.inputs.mem_iff]
  constructor
  · rintro ⟨a, ⟨name', hname', ha'⟩, ha⟩
    rw [h.findArg?_injective ha ha']
    exact hname'
  · intro hname
    obtain ⟨a, ha⟩ := Option.isSome_iff_exists.mp (hs.posed.inputs_known name hname)
    exact ⟨a, ⟨name, hname, ha⟩, ha⟩

theorem nodes_ascending (hs : Accepted r g o sub) :
    sub.nodes.Pairwise fun id id' => id.index < id'.index := by
  rw [hs.region.nodes]
  apply o.covered.ordered_toList.imp
  intro id id' hlt
  rw [Handle.compare_def, Nat.compare_eq_lt] at hlt
  exact hlt

end Accepted

/-- A request that is accepted is answered with its least region and the exact boundary of it. -/
theorem answered_of_find (h : g.Indexed) {sub : Region} (hfind : r.find g = .ok sub) :
    r.AnsweredBy g sub := by
  obtain ⟨o, hs⟩ := accepted_of_find h hfind
  obtain ⟨hinputTypes, houtputTypes⟩ := typesOf_of_find hfind
  have hposed := hs.wellPosed_request h
  obtain ⟨outputs, houtputs, -⟩ := hs.region.outputs
  constructor
  case nodes_least => exact ⟨hs.supplies_nodes h, fun nodes hnodes => hs.nodes_subset hnodes⟩
  case reads_named =>
    intro id hid node hnode a ha
    exact hs.reads_named h hid hnode ha
  case escapes_named =>
    intro id hid node hnode a ha hneeded
    simp only [hs.mem_nodes_iff] at hid hneeded
    rw [hs.named_outputs_iff h]
    exact .inr ⟨⟨id, h.producer?_eq_some_iff.mpr ⟨node, hnode, ha⟩, hid⟩, hneeded⟩
  case outputs_inside =>
    intro name hname
    obtain ⟨a, ha⟩ := Option.isSome_iff_exists.mp (hposed.outputs_known name hname)
    obtain ⟨id, hid, hcovers⟩ := hs.produced_of_named_outputs h ⟨name, hname, ha⟩
    exact ⟨a, ha, id, hs.mem_nodes_iff.mpr hcovers, hid⟩
  case independent =>
    intro name hname a last ha hlast first hfirst hpath
    apply hs.independent
    refine ⟨a, first, last, ?_, hlast, hs.mem_nodes_iff.mp hfirst, hpath⟩
    rw [← hs.onBoundary_iff h hlast]
    rcases List.mem_append.mp hname with hname | hname
    · exact .inl ⟨name, hname, ha⟩
    · exact .inr ⟨name, hname, ha⟩
  case nodes_ascending => exact hs.nodes_ascending
  case inputs_ascending => exact hs.region.inputs ▸ keys_ascending o.inputs
  case outputs_ascending => exact houtputs ▸ keys_ascending outputs
  case constants_ascending => exact hs.region.constants ▸ keys_ascending o.constants
  case inputs_declared =>
    intro name
    exact hs.mem_inputs_iff h
  case inputs_typed => exact typesOf_aligned hposed.inputs_known hinputTypes
  case outputs_typed => exact typesOf_aligned hposed.outputs_known houtputTypes

def sharedEdits : List Graph.Mutation :=
  [.addInput "x" ⟨.float32, none⟩, .addInitializer "w" ⟨[1], .float32 [⟨0⟩]⟩,
    .newArg "p" ⟨.float32, none⟩, .newArg "q" ⟨.float32, none⟩, .newArg "y" ⟨.float32, none⟩,
    .addNode ⟨"top", .standard "Relu", [some ⟨0⟩], [some ⟨2⟩], ∅⟩,
    .addNode ⟨"side", .standard "Add", [some ⟨2⟩, some ⟨1⟩], [some ⟨3⟩], ∅⟩,
    .addNode ⟨"bottom", .standard "Add", [some ⟨2⟩, some ⟨3⟩], [some ⟨4⟩], ∅⟩, .addOutput ⟨4⟩,
    .addOutput ⟨3⟩]

def sharedRequest : RegionRequest :=
  ⟨"lower", ["p"], ["y"], [], ""⟩

/-- The initializer `w` joins the constants, and the graph output `q` the outputs. -/
theorem answered_of_find_shared :
    ∃ (g : Graph) (sub : Region),
      (Graph.empty "shared").runAll sharedEdits = .ok g ∧
      sharedRequest.find g = .ok sub ∧
      sub.nodes = [⟨1⟩, ⟨2⟩] ∧ sub.boundary.constants = ["w"] ∧ sub.boundary.outputs = ["q", "y"] ∧
      sharedRequest.AnsweredBy g sub := by
  have hrun : (do
      let g ← (Graph.empty "shared").runAll sharedEdits
      return (fun sub : Region => (sub.nodes, sub.boundary.constants, sub.boundary.outputs)) <$>
        sharedRequest.find g) =
      .ok (.ok ([⟨1⟩, ⟨2⟩], ["w"], ["q", "y"])) := rfl
  simp only [bind_eq_ok_iff, pure_eq_ok_iff, Prod.mk.injEq, map_eq_ok_iff] at hrun
  obtain ⟨g, hg, sub, hfind, hnodes, hconstants, houtputs⟩ := hrun
  have hindexed := (Graph.Reachable.runAll (.empty "shared") hg).indexed
  exact ⟨g, sub, hg, hfind, hnodes, hconstants, houtputs, answered_of_find hindexed hfind⟩

end RegionRequest

end OpGraph
