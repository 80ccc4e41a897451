import OpGraph.Proofs.FreshName
import OpGraph.Proofs.Graph.Edited

/-!
Every node has a name. A node that is added without one gets a fresh name, and no edit changes the
name of a node.
-/

namespace OpGraph

namespace Graph

variable {g g' : Graph}

def Named (g : Graph) : Prop :=
  ∀ id node, g.node? id = some node → node.name ≠ ""

theorem Named.of_nodes (h : g.Named) (hnodes : g'.nodes = g.nodes) : g'.Named := by
  intro id node hnode
  rw [node?, hnodes] at hnode
  exact h id node hnode

theorem Named.of_subset (h : g.Named)
    (hsub : ∀ id node, g'.node? id = some node → g.node? id = some node) : g'.Named :=
  fun id node hnode => h id node (hsub id node hnode)

theorem Named.addNode (h : g.Named) {spec : NodeSpec} (hrun : settle (addNode spec) g = .ok g') :
    g'.Named := by
  rw [settle] at hrun
  obtain ⟨failure, heq⟩ | ⟨name, -, heq, hname⟩ := addNode_cases spec g
  · rw [heq] at hrun
    cases failure with
    | error e =>
      cases hrun
      exact h
    | fault f => cases hrun
  · rw [heq] at hrun
    cases hrun
    have hnamed : name ≠ "" := by
      rw [hname]
      split
      · exact freshName_ne_empty g.nodeNames spec.key.opType
      · next hgiven => exact hgiven
    intro id node hnode
    rw [node?_pushNode] at hnode
    split at hnode
    · cases hnode
      exact hnamed
    · exact h id node hnode

theorem Named.setInput (h : g.Named) {id : NodeId} {slot : Nat} {arg : Option ArgId}
    (hrun : g.setInput id slot arg = .ok g') : g'.Named := by
  obtain ⟨read, hread, -, rfl⟩ := setInput_eq_ok hrun
  intro id' node hnode
  rw [node?_withInput hread] at hnode
  split at hnode
  · cases hnode
    exact h id read hread
  · exact h id' node hnode

theorem Named.replaceAllUses (h : g.Named) (hindexed : g.Indexed) {old new : ArgId}
    (hrun : g.replaceAllUses old new = .ok g') : g'.Named := by
  obtain ⟨-, -, ⟨-, rfl⟩ | ⟨-, -, hreplaced⟩⟩ := replaceAllUses_eq_ok hindexed hrun
  · exact h
  · intro id node hnode
    rw [hreplaced.nodes, Option.map_eq_some_iff] at hnode
    obtain ⟨node, hnode, rfl⟩ := hnode
    exact h id node hnode

theorem Mutation.named (hindexed : g.Indexed) (h : g.Named) (m : Mutation)
    (hrun : m.run g = .ok g') : g'.Named := by
  cases m with
  | newArg name type => exact h.of_nodes (nodes_newArg hrun)
  | addInput name type => exact h.of_nodes (nodes_addInput hrun)
  | addInitializer name tensor => exact h.of_nodes (nodes_addInitializer hrun)
  | setInitializer arg tensor => exact h.of_nodes (nodes_setInitializer hrun)
  | removeInitializer arg =>
    cases hrun
    exact h
  | addOutput arg => exact h.of_nodes (nodes_addOutput hrun)
  | setArgType arg type => exact h.of_nodes (nodes_setArgType hrun)
  | addNode spec => exact h.addNode hrun
  | removeNode node =>
    obtain ⟨⟨removed, g'⟩, hremove, rfl⟩ := map_eq_ok_iff.mp hrun
    obtain ⟨-, -, rfl⟩ := removeNode_eq_ok hindexed hremove
    apply h.of_subset
    intro id node hnode
    rw [node?_dropNode] at hnode
    split at hnode
    · cases hnode
    · exact hnode
  | setInput node slot arg => exact h.setInput hrun
  | replaceAllUses old new => exact h.replaceAllUses hindexed hrun
  | resolve => exact h.of_nodes (nodes_resolve hrun)
  | collect =>
    obtain ⟨⟨removed, g'⟩, hcollect, rfl⟩ := map_eq_ok_iff.mp hrun
    exact h.of_subset (trimmed_collect hindexed hcollect).nodes

end Graph

namespace Model

theorem named_toGraph {m : Model} {external : Option Bytes} {g : Graph}
    (hrun : m.toGraph external = .ok g) : g.Named := by
  simp only [toGraph, bind_eq_ok_iff] at hrun
  obtain ⟨g₁, hargs, g₂, hinputs, g₃, hinits, g₄, hnodes, houtputs⟩ := hrun
  have h₁ : g₁.Named := by
    refine foldlM_keeps m.args ?_ _ _ (by simp [Graph.Named, Graph.empty, Graph.node?]) hargs
    intro arg _ s s' hs hstep
    exact hs.of_nodes (Graph.nodes_newArg (edit_eq_ok hstep))
  have h₂ : g₂.Named := by
    refine foldlM_keeps m.inputs ?_ _ _ h₁ hinputs
    intro name _ s s' hs hstep
    simp only [addInput, bind_eq_ok_iff, pure_eq_ok_iff] at hstep
    obtain ⟨a, -, rfl⟩ := hstep
    exact hs
  have h₃ : g₃.Named := by
    refine foldlM_keeps m.initializers ?_ _ _ h₂ hinits
    intro entry _ s s' hs hstep
    simp only [addInitializer, bind_eq_ok_iff, ofFault_eq_ok_iff] at hstep
    obtain ⟨a, -, data, -, -, -, hset⟩ := hstep
    exact hs.of_nodes (Graph.nodes_setInitializer hset)
  have h₄ : g₄.Named := by
    refine foldlM_keeps m.nodes ?_ _ _ h₃ hnodes
    intro entry _ s s' hs hstep
    simp only [addNode, bind_eq_ok_iff] at hstep
    obtain ⟨inputs, -, outputs, -, hedit⟩ := hstep
    exact hs.addNode (edit_eq_ok hedit)
  refine foldlM_keeps m.outputs ?_ _ _ h₄ houtputs
  intro name _ s s' hs hstep
  simp only [addOutput, bind_eq_ok_iff, ofFault_eq_ok_iff] at hstep
  obtain ⟨a, -, hout⟩ := hstep
  exact hs.of_nodes (Graph.nodes_addOutput hout)

end Model

theorem Graph.Reachable.named {g : Graph} (h : Reachable g) : g.Named := by
  induction h with
  | empty name => simp [Named, Graph.empty, node?]
  | load hload =>
    obtain ⟨m, external, hgraph⟩ := exists_model_of_load hload
    exact Model.named_toGraph hgraph
  | step m hg hrun ih => exact m.named hg.indexed ih hrun

end OpGraph
