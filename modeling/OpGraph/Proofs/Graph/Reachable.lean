import OpGraph.Model.File
import OpGraph.Proofs.Graph.Mutations
import OpGraph.Proofs.Graph.Rebuilt

/-!
The states of a graph. A graph starts empty or is read from a model file and is then changed by any
sequence of edits that do not end in a fault. The representation invariant holds in every such
state.
-/

namespace OpGraph

namespace Graph

/-- The edits that a graph offers to its users. -/
inductive Mutation where
  | newArg (name : String) (type : TensorType)
  | addInput (name : String) (type : TensorType)
  | addInitializer (name : String) (tensor : Tensor)
  | setInitializer (arg : ArgId) (tensor : Tensor)
  | removeInitializer (arg : ArgId)
  | addOutput (arg : ArgId)
  | setArgType (arg : ArgId) (type : TensorType)
  | addNode (spec : NodeSpec)
  | removeNode (node : NodeId)
  | setInput (node : NodeId) (slot : Nat) (arg : Option ArgId)
  | replaceAllUses (old new : ArgId)
  | resolve
  | collect

/-- The graph that an edit leaves, also when it ends in an error. -/
def Mutation.run (g : Graph) : Mutation → Except Fault Graph
  | newArg name type => settle (Graph.newArg name type) g
  | addInput name type => settle (Graph.addInput name type) g
  | addInitializer name tensor => settle (Graph.addInitializer name tensor) g
  | setInitializer arg tensor => g.setInitializer arg tensor
  | removeInitializer arg => .ok (g.removeInitializer arg).2
  | addOutput arg => g.addOutput arg
  | setArgType arg type => g.setArgType arg type
  | addNode spec => settle (Graph.addNode spec) g
  | removeNode node => Prod.snd <$> g.removeNode node
  | setInput node slot arg => g.setInput node slot arg
  | replaceAllUses old new => g.replaceAllUses old new
  | resolve => settle Graph.resolve g
  | collect => Prod.snd <$> g.collect

def runAll (g : Graph) (mutations : List Mutation) : Except Fault Graph :=
  mutations.foldlM Mutation.run g

theorem Mutation.evolves {g g' : Graph} (h : g.Indexed) (m : Mutation) (hrun : m.run g = .ok g') :
    Evolves g g' := by
  cases m with
  | newArg name type => exact evolves_newArg h hrun
  | addInput name type => exact evolves_addInput h hrun
  | addInitializer name tensor => exact evolves_addInitializer h hrun
  | setInitializer arg tensor => exact evolves_setInitializer h hrun
  | removeInitializer arg =>
    cases hrun
    exact evolves_removeInitializer h arg
  | addOutput arg => exact evolves_addOutput h hrun
  | setArgType arg type =>
    obtain ⟨-, -, -, hev⟩ := evolves_setArgType h hrun
    exact hev
  | addNode spec => exact evolves_addNode h hrun
  | removeNode node =>
    obtain ⟨⟨removed, g'⟩, hremove, rfl⟩ := map_eq_ok_iff.mp hrun
    exact evolves_removeNode h hremove
  | setInput node slot arg => exact evolves_setInput h hrun
  | replaceAllUses old new => exact evolves_replaceAllUses h hrun
  | resolve => exact evolves_resolve h hrun
  | collect =>
    obtain ⟨⟨removed, g'⟩, hcollect, rfl⟩ := map_eq_ok_iff.mp hrun
    exact evolves_collect h hcollect

theorem evolves_runAll {g g' : Graph} (h : g.Indexed) {mutations : List Mutation}
    (hrun : g.runAll mutations = .ok g') : Evolves g g' := by
  refine foldlM_keeps (P := fun s => Evolves g s) mutations ?_ g g' (.refl h) hrun
  intro m _ s s' hs hstep
  exact hs.trans (m.evolves hs.indexed hstep)

end Graph

/-! ### Graphs from models -/

namespace Model

open OpGraph.Graph

theorem lookup_eq_ok {g : Graph} {name : String} {a : ArgId} (h : lookup g name = .ok a) :
    g.findArg? name = some a := by
  rw [lookup] at h
  split at h
  · next harg => rw [harg, Except.ok.inj h]
  · cases h

theorem live_of_lookup {g : Graph} (h : g.Indexed) {name : String} {a : ArgId}
    (hlookup : lookup g name = .ok a) : (g.arg? a).isSome := by
  obtain ⟨arg, harg, -⟩ := h.findArg?_eq_some_iff.mp (lookup_eq_ok hlookup)
  simp [harg]

theorem edit_eq_ok {α : Type} {g g' : Graph} {step : Edit GraphError α}
    (h : edit g step = .ok g') : settle step g = .ok g' := by
  rw [edit] at h
  rw [settle]
  split at h
  · next heq =>
    rw [heq]
    cases h
    rfl
  · cases h

def Nodeless (g : Graph) : Prop := g.Indexed ∧ g.producers = ∅

theorem nodeless_addArg {g g' : Graph} {arg : ModelArg} (h : Nodeless g)
    (hrun : addArg g arg = .ok g') : Nodeless g' := by
  have hsettle := edit_eq_ok hrun
  refine ⟨(evolves_newArg h.1 hsettle).indexed, ?_⟩
  rw [settle, newArg] at hsettle
  split at hsettle
  · next heq =>
    split at heq
    · cases heq
    · cases heq
      cases hsettle
      exact h.2
  · next heq =>
    split at heq
    · cases heq
      cases hsettle
      exact h.2
    · cases heq
  · cases hsettle

theorem nodeless_addInput {g g' : Graph} {name : String} (h : Nodeless g)
    (hrun : addInput g name = .ok g') : Nodeless g' := by
  simp only [addInput, bind_eq_ok_iff, pure_eq_ok_iff] at hrun
  obtain ⟨a, ha, rfl⟩ := hrun
  refine ⟨?_, h.2⟩
  apply h.1.addInput (live_of_lookup h.1 ha)
  rw [h.2]
  simp

theorem indexed_addInitializer {g g' : Graph} {external : Option Bytes} {entry : ModelInitializer}
    (h : g.Indexed) (hrun : addInitializer external g entry = .ok g') : g'.Indexed := by
  simp only [addInitializer, bind_eq_ok_iff, ofFault_eq_ok_iff] at hrun
  obtain ⟨a, -, data, -, -, -, hset⟩ := hrun
  exact (evolves_setInitializer h hset).indexed

theorem indexed_addNode {g g' : Graph} {entry : ModelNode} (h : g.Indexed)
    (hrun : addNode g entry = .ok g') : g'.Indexed := by
  simp only [addNode, bind_eq_ok_iff] at hrun
  obtain ⟨inputs, -, outputs, -, hedit⟩ := hrun
  exact (evolves_addNode h (edit_eq_ok hedit)).indexed

theorem indexed_addOutput {g g' : Graph} {name : String} (h : g.Indexed)
    (hrun : addOutput g name = .ok g') : g'.Indexed := by
  simp only [addOutput, bind_eq_ok_iff, ofFault_eq_ok_iff] at hrun
  obtain ⟨a, -, hout⟩ := hrun
  exact (evolves_addOutput h hout).indexed

theorem indexed_toGraph {m : Model} {external : Option Bytes} {g : Graph}
    (hrun : m.toGraph external = .ok g) : g.Indexed := by
  simp only [toGraph, bind_eq_ok_iff] at hrun
  obtain ⟨g₁, hargs, g₂, hinputs, g₃, hinits, g₄, hnodes, houtputs⟩ := hrun
  have h₁ : Nodeless g₁ := foldlM_keeps m.args
    (fun arg _ _ _ hs hstep => nodeless_addArg hs hstep) _ _ ⟨indexed_empty m.name, rfl⟩ hargs
  have h₂ : Nodeless g₂ := foldlM_keeps m.inputs
    (fun name _ _ _ hs hstep => nodeless_addInput hs hstep) _ _ h₁ hinputs
  have h₃ : g₃.Indexed := foldlM_keeps m.initializers
    (fun entry _ _ _ hs hstep => indexed_addInitializer hs hstep) _ _ h₂.1 hinits
  have h₄ : g₄.Indexed := foldlM_keeps m.nodes
    (fun entry _ _ _ hs hstep => indexed_addNode hs hstep) _ _ h₃ hnodes
  exact foldlM_keeps m.outputs
    (fun name _ _ _ hs hstep => indexed_addOutput hs hstep) _ _ h₄ houtputs

end Model

namespace Graph

theorem exists_model_of_load {files : FileTree} {path : String} {g : Graph}
    (hrun : load files path = .ok g) :
    ∃ (m : Model) (external : Option Bytes), m.toGraph external = .ok g := by
  simp only [load, bind_eq_ok_iff] at hrun
  obtain ⟨bytes, -, hrun⟩ := hrun
  split at hrun
  · cases hrun
  · next model _ =>
    split at hrun
    · cases hrun
    · simp only [bind_eq_ok_iff] at hrun
      obtain ⟨external, -, hgraph⟩ := hrun
      exact ⟨model, external, hgraph⟩

theorem indexed_load {files : FileTree} {path : String} {g : Graph}
    (hrun : load files path = .ok g) : g.Indexed := by
  obtain ⟨model, external, hgraph⟩ := exists_model_of_load hrun
  exact Model.indexed_toGraph hgraph

/-- The graphs that come about by the public operations. -/
inductive Reachable : Graph → Prop where
  | empty (name : String) : Reachable (Graph.empty name)
  | load {files : FileTree} {path : String} {g : Graph} (h : Graph.load files path = .ok g) :
    Reachable g
  | step {g g' : Graph} (m : Mutation) (h : Reachable g) (hrun : m.run g = .ok g') : Reachable g'

theorem Reachable.indexed {g : Graph} (h : Reachable g) : g.Indexed := by
  induction h with
  | empty name => exact indexed_empty name
  | load h => exact indexed_load h
  | step m _ hrun ih => exact (m.evolves ih hrun).indexed

theorem Reachable.runAll {g g' : Graph} (h : Reachable g) {mutations : List Mutation}
    (hrun : g.runAll mutations = .ok g') : Reachable g' :=
  foldlM_keeps mutations (fun m _ _ _ hs hstep => .step m hs hstep) g g' h hrun

/-- The representation invariant holds in every state, and a removed handle is never live again. -/
theorem indices_sound_of_reachable {g : Graph} (h : Reachable g) :
    g.Indexed ∧ g.producers = g.rebuiltProducers ∧ g.consumers = g.statedConsumers ∧
    ∀ mutations g', g.runAll mutations = .ok g' →
      (∀ id, id.index < g.nodes.size → g.node? id = none → g'.node? id = none) ∧
      (∀ id, id.index < g.args.size → g.arg? id = none → g'.arg? id = none) := by
  have hindexed := h.indexed
  refine ⟨hindexed, hindexed.producers_eq, hindexed.consumers_eq, ?_⟩
  intro mutations g' hrun
  have hev := evolves_runAll hindexed hrun
  exact ⟨hev.nodes_gone, hev.args_gone⟩

def removedSumEdits : List Mutation :=
  [.addInput "x" ⟨.float32, none⟩, .newArg "y" ⟨.float32, none⟩,
    .addNode ⟨"", .standard "Add", [some ⟨0⟩, some ⟨0⟩], [some ⟨1⟩], ∅⟩, .addOutput ⟨1⟩,
    .replaceAllUses ⟨1⟩ ⟨0⟩, .removeNode ⟨0⟩, .collect]

def laterEdits : List Mutation :=
  [.newArg "y" ⟨.float32, none⟩, .addNode ⟨"", .standard "Relu", [some ⟨0⟩], [some ⟨2⟩], ∅⟩]

/-- A sum is replaced by its operand and removed, with its output; later edits reuse neither. -/
theorem indices_sound_of_removed_sum :
    ∃ g g' : Graph,
      (Graph.empty "sum").runAll removedSumEdits = .ok g ∧
      g.runAll laterEdits = .ok g' ∧
      g.Indexed ∧ g'.nodeIds = [⟨1⟩] ∧ g'.node? ⟨0⟩ = none ∧ g'.arg? ⟨1⟩ = none := by
  have hruns : (do
      let g ← (Graph.empty "sum").runAll removedSumEdits
      let g' ← g.runAll laterEdits
      return (decide (0 < g.nodes.size ∧ 1 < g.args.size), (g.node? ⟨0⟩).isNone,
        (g.arg? ⟨1⟩).isNone, g'.nodeIds)) = .ok (true, true, true, [⟨1⟩]) := rfl
  simp only [bind_eq_ok_iff, pure_eq_ok_iff, Prod.mk.injEq, decide_eq_true_eq,
    Option.isNone_iff_eq_none] at hruns
  obtain ⟨g, hg, g', hg', ⟨hnodes, hargs⟩, hnode, harg, hids⟩ := hruns
  obtain ⟨hindexed, -, -, hgone⟩ := indices_sound_of_reachable (.runAll (.empty "sum") hg)
  obtain ⟨hnodesGone, hargsGone⟩ := hgone _ g' hg'
  exact ⟨g, g', hg, hg', hindexed, hids, hnodesGone ⟨0⟩ hnodes hnode, hargsGone ⟨1⟩ hargs harg⟩

end Graph

end OpGraph
