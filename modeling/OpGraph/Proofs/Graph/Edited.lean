import OpGraph.Proofs.Graph.Collect
import OpGraph.Proofs.Graph.Reachable

/-!
What edits can make of a graph. Whoever holds a graph can edit it and write to its log, in any order
and as often as wanted. The representation invariant holds afterwards, and a node that is still
there has the operator it had: edits change what a node reads, never what it is.
-/

namespace OpGraph.Graph

variable {g g' : Graph}

def KeepsKeys (g g' : Graph) : Prop :=
  ∀ id node node', g.node? id = some node → g'.node? id = some node' → node'.key = node.key

namespace KeepsKeys

theorem of_nodes (hnodes : g'.nodes = g.nodes) : KeepsKeys g g' := by
  intro id node node' hnode hnode'
  rw [node?, hnodes] at hnode'
  cases hnode.symm.trans hnode'
  rfl

theorem of_subset (hsub : ∀ id node, g'.node? id = some node → g.node? id = some node) :
    KeepsKeys g g' := by
  intro id node node' hnode hnode'
  cases hnode.symm.trans (hsub id node' hnode')
  rfl

theorem trans {g₁ g₂ g₃ : Graph} (h₁ : Evolves g₁ g₂) (h₂ : Evolves g₂ g₃)
    (hk₁ : KeepsKeys g₁ g₂) (hk₂ : KeepsKeys g₂ g₃) : KeepsKeys g₁ g₃ := by
  intro id node node' hnode hnode'
  cases hmid : g₂.node? id with
  | none =>
    have hlt : id.index < g₁.nodes.size :=
      lt_size_of_join_isSome (by rw [node?] at hnode; simp [hnode])
    have hgone := h₂.nodes_gone id (Nat.lt_of_lt_of_le hlt h₁.nodes_grow) hmid
    rw [hgone] at hnode'
    cases hnode'
  | some middle => rw [hk₂ id middle node' hmid hnode', hk₁ id node middle hnode hmid]

end KeepsKeys

/-! ### Edits of args -/

theorem nodes_settle {α : Type} {step : Edit GraphError α}
    (hok : ∀ a s, step g = .ok a s → s.nodes = g.nodes)
    (herror : ∀ e s, step g = .error e s → s.nodes = g.nodes) (hrun : settle step g = .ok g') :
    g'.nodes = g.nodes := by
  rw [settle] at hrun
  split at hrun
  · next heq =>
    cases hrun
    exact hok _ _ heq
  · next heq =>
    cases hrun
    exact herror _ _ heq
  · cases hrun

theorem nodes_setArgType {id : ArgId} {type : TensorType} (hrun : g.setArgType id type = .ok g') :
    g'.nodes = g.nodes := by
  simp only [setArgType, bind_eq_ok_iff, pure_eq_ok_iff] at hrun
  obtain ⟨arg, -, rfl⟩ := hrun
  rfl

theorem nodes_setInitializer {id : ArgId} {tensor : Tensor}
    (hrun : g.setInitializer id tensor = .ok g') : g'.nodes = g.nodes := by
  simp only [setInitializer, bind_eq_ok_iff] at hrun
  obtain ⟨arg, -, hrun⟩ := hrun
  split at hrun
  · cases hrun
  · simp only [bind_eq_ok_iff, pure_eq_ok_iff] at hrun
    obtain ⟨g₁, hg₁, rfl⟩ := hrun
    exact (nodes_setArgType hg₁ :)

theorem nodes_addOutput {id : ArgId} (hrun : g.addOutput id = .ok g') : g'.nodes = g.nodes := by
  simp only [addOutput, bind_eq_ok_iff, pure_eq_ok_iff] at hrun
  obtain ⟨arg, -, rfl⟩ := hrun
  split <;> rfl

theorem nodes_inferAll {order : List NodeId} (hrun : g.inferAll order = .ok g') :
    g'.nodes = g.nodes := by
  refine foldlM_keeps (P := fun s => s.nodes = g.nodes) order ?_ g g' rfl hrun
  intro id _ s s' hs hstep
  rw [bind_eq_ok_iff] at hstep
  obtain ⟨inferred, -, hstep⟩ := hstep
  split at hstep
  · exact (nodes_setArgType hstep).trans hs
  · cases hstep
    exact hs

theorem nodes_resolve (hrun : settle resolve g = .ok g') : g'.nodes = g.nodes := by
  refine nodes_settle ?_ ?_ hrun
  · intro a s heq
    rw [resolve] at heq
    split at heq
    · cases heq
    · split at heq
      · cases heq
      · next hinfer =>
        cases heq
        exact nodes_inferAll hinfer
  · intro e s heq
    rw [resolve] at heq
    split at heq
    · cases heq
      rfl
    · split at heq <;> cases heq
      rfl

theorem nodes_newArg {name : String} {type : TensorType}
    (hrun : settle (newArg name type) g = .ok g') : g'.nodes = g.nodes := by
  refine nodes_settle ?_ ?_ hrun <;> intro _ s heq <;> rw [newArg] at heq <;>
    split at heq <;> cases heq <;> rfl

theorem nodes_addInput {name : String} {type : TensorType}
    (hrun : settle (addInput name type) g = .ok g') : g'.nodes = g.nodes := by
  rw [settle] at hrun
  obtain ⟨e, heq⟩ | ⟨-, heq⟩ := addInput_cases name type g
  · rw [heq] at hrun
    cases hrun
    rfl
  · rw [heq] at hrun
    cases hrun
    rfl

theorem nodes_addInitializer {name : String} {tensor : Tensor}
    (hrun : settle (addInitializer name tensor) g = .ok g') : g'.nodes = g.nodes := by
  refine nodes_settle ?_ ?_ hrun <;> intro _ s heq <;>
    obtain ⟨failure, hfailed⟩ | ⟨-, hadded⟩ := addInitializer_cases name tensor g
  · rw [hfailed] at heq
    cases heq
  · rw [hadded] at heq
    cases heq
    rfl
  · rw [hfailed] at heq
    cases heq
    rfl
  · rw [hadded] at heq
    cases heq

/-! ### Edits of nodes -/

theorem keepsKeys_addNode {spec : NodeSpec} (hrun : settle (addNode spec) g = .ok g') :
    KeepsKeys g g' := by
  rw [settle] at hrun
  obtain ⟨failure, heq⟩ | ⟨name, -, heq, -⟩ := addNode_cases spec g
  · rw [heq] at hrun
    cases failure with
    | error e =>
      cases hrun
      exact .of_nodes rfl
    | fault f => cases hrun
  · rw [heq] at hrun
    cases hrun
    intro id node node' hnode hnode'
    rw [node?_pushNode, if_neg] at hnode'
    · cases hnode.symm.trans hnode'
      rfl
    · rintro rfl
      rw [node?_nextNode] at hnode
      cases hnode

theorem keepsKeys_setInput {id : NodeId} {slot : Nat} {arg : Option ArgId}
    (hrun : g.setInput id slot arg = .ok g') : KeepsKeys g g' := by
  obtain ⟨read, hread, -, rfl⟩ := setInput_eq_ok hrun
  intro id' node node' hnode hnode'
  rw [node?_withInput hread] at hnode'
  split at hnode'
  · next heq =>
    subst heq
    cases hread.symm.trans hnode
    cases hnode'
    rfl
  · cases hnode.symm.trans hnode'
    rfl

theorem keepsKeys_replaceAllUses (h : g.Indexed) {old new : ArgId}
    (hrun : g.replaceAllUses old new = .ok g') : KeepsKeys g g' := by
  obtain ⟨-, -, ⟨-, rfl⟩ | ⟨-, -, hreplaced⟩⟩ := replaceAllUses_eq_ok h hrun
  · exact .of_nodes rfl
  · intro id node node' hnode hnode'
    rw [hreplaced.nodes, hnode] at hnode'
    cases hnode'
    rfl

theorem Mutation.keepsKeys (h : g.Indexed) (m : Mutation) (hrun : m.run g = .ok g') :
    KeepsKeys g g' := by
  cases m with
  | newArg name type => exact .of_nodes (nodes_newArg hrun)
  | addInput name type => exact .of_nodes (nodes_addInput hrun)
  | addInitializer name tensor => exact .of_nodes (nodes_addInitializer hrun)
  | setInitializer arg tensor => exact .of_nodes (nodes_setInitializer hrun)
  | removeInitializer arg =>
    cases hrun
    exact .of_nodes rfl
  | addOutput arg => exact .of_nodes (nodes_addOutput hrun)
  | setArgType arg type => exact .of_nodes (nodes_setArgType hrun)
  | addNode spec => exact keepsKeys_addNode hrun
  | removeNode node =>
    obtain ⟨⟨removed, g'⟩, hremove, rfl⟩ := map_eq_ok_iff.mp hrun
    obtain ⟨-, -, rfl⟩ := removeNode_eq_ok h hremove
    apply KeepsKeys.of_subset
    intro id node hnode
    rw [node?_dropNode] at hnode
    split at hnode
    · cases hnode
    · exact hnode
  | setInput node slot arg => exact keepsKeys_setInput hrun
  | replaceAllUses old new => exact keepsKeys_replaceAllUses h hrun
  | resolve => exact .of_nodes (nodes_resolve hrun)
  | collect =>
    obtain ⟨⟨removed, g'⟩, hcollect, rfl⟩ := map_eq_ok_iff.mp hrun
    exact .of_subset (trimmed_collect h hcollect).nodes

/-! ### Sequences of edits -/

/-- The second graph comes from the first by edits and entries in the log. -/
inductive Edited (g : Graph) : Graph → Prop where
  | refl : Edited g g
  | edit {g₁ g₂ : Graph} (h : Edited g g₁) (m : Mutation) (hrun : m.run g₁ = .ok g₂) : Edited g g₂
  | log {g₁ : Graph} (h : Edited g g₁) (log : Log) : Edited g { g₁ with log := log }

namespace Edited

theorem evolves (h : g.Indexed) (hedited : g.Edited g') : Evolves g g' ∧ KeepsKeys g g' := by
  induction hedited with
  | refl => exact ⟨.refl h, .of_nodes rfl⟩
  | edit _ m hrun ih =>
    have hstep := m.evolves ih.1.indexed hrun
    exact ⟨ih.1.trans hstep, .trans ih.1 hstep ih.2 (m.keepsKeys ih.1.indexed hrun)⟩
  | @log g₁ _ log ih =>
    have hstep : Evolves g₁ { g₁ with log := log } :=
      .of_arenas (ih.1.indexed.setLog log) rfl rfl
    exact ⟨ih.1.trans hstep, .trans ih.1 hstep ih.2 (.of_nodes rfl)⟩

theorem indexed (h : g.Indexed) (hedited : g.Edited g') : g'.Indexed :=
  (hedited.evolves h).1.indexed

theorem keepsKeys (h : g.Indexed) (hedited : g.Edited g') : KeepsKeys g g' :=
  (hedited.evolves h).2

end Edited

end OpGraph.Graph
