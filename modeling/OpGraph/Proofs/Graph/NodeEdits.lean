import OpGraph.Proofs.Graph.Edits

/-!
Adding and removing a node keeps the representation invariant.
-/

namespace OpGraph

namespace Graph

variable {g : Graph}

structure Admits (g : Graph) (name : String) (spec : NodeSpec) : Prop where
  name_free : name ∉ g.nodeNames
  inputs_live : ∀ a ∈ present spec.inputs, (g.arg? a).isSome
  outputs_live : ∀ a ∈ present spec.outputs, (g.arg? a).isSome
  outputs_free : ∀ a ∈ present spec.outputs,
    g.producers[a]? = none ∧ a ∉ g.inputs ∧ a ∉ g.initializers

theorem readCount_pushNode (name : String) (spec : NodeSpec) (a : ArgId) (id : NodeId) :
    (g.pushNode name spec).readCount a id
      =
    g.readCount a id + if g.nextNode = id then (present spec.inputs).count a else 0 := by
  rw [readCount, readCount, node?_pushNode]
  by_cases hid : id = g.nextNode
  · subst hid
    simp [node?_nextNode, Node.presentInputs]
  · simp [hid, Ne.symm hid]

theorem readCount_dropNode (node : Node) (a : ArgId) (id : NodeId) :
    (g.dropNode node).readCount a id = if id = node.id then 0 else g.readCount a id := by
  rw [readCount, readCount, node?_dropNode]
  by_cases hid : id = node.id
  · simp [hid]
  · simp [hid]

namespace Indexed

variable (h : g.Indexed)

include h

theorem node?_name_ne {name : String} (hname : name ∉ g.nodeNames) {id : NodeId} {node : Node}
    (hn : g.node? id = some node) : node.name ≠ name := by
  intro heq
  apply hname
  rw [Std.ExtTreeMap.mem_iff_isSome_getElem?, (h.nodeNames_iff name id).mpr ⟨node, hn, heq⟩]
  rfl

theorem pushNode {name : String} {spec : NodeSpec} (hadmits : g.Admits name spec) :
    (g.pushNode name spec).Indexed := by
  have hnode? := node?_pushNode (g := g) name spec
  have hproducers : ∀ a : ArgId, (g.pushNode name spec).producers[a]?
      = if a ∈ present spec.outputs then some g.nextNode else g.producers[a]? := by
    intro a
    exact getElem?_foldl_insert (present spec.outputs) g.nextNode g.producers a
  have hconsumers := foldl_addUse (present spec.inputs) g.nextNode h.consumers_tidy
  constructor
  case node_id =>
    intro id node hn
    rw [hnode?] at hn
    split at hn
    · next heq => rw [heq, ← Option.some.inj hn]
    · exact h.node_id id node hn
  case arg_id => exact h.arg_id
  case nodeNames_iff =>
    intro name' id
    change (g.nodeNames.insert name g.nextNode)[name']? = some id ↔ _
    rw [hnode?, Std.ExtTreeMap.getElem?_insert]
    simp only [Std.compare_eq_iff_eq]
    by_cases hid : id = g.nextNode
    · subst hid
      by_cases hn : name = name'
      · simp [hn]
      · simp [hn, h.nodeNames_iff, node?_nextNode]
    · by_cases hn : name = name'
      · subst hn
        simp only [↓reduceIte, Option.some.injEq, hid]
        constructor
        · intro heq
          exact absurd heq.symm hid
        · rintro ⟨node, hnode, heq⟩
          exact absurd heq (h.node?_name_ne hadmits.name_free hnode)
      · simp [hn, hid, h.nodeNames_iff]
  case argNames_iff => exact h.argNames_iff
  case producers_iff =>
    intro a id
    rw [hproducers, hnode?]
    by_cases hid : id = g.nextNode
    · subst hid
      by_cases ha : a ∈ present spec.outputs
      · simp [ha, Node.presentOutputs]
      · simp [ha, Node.presentOutputs, h.producers_iff, node?_nextNode]
    · by_cases ha : a ∈ present spec.outputs
      · have hfree := (hadmits.outputs_free a ha).1
        rw [if_pos ha, if_neg hid, ← h.producers_iff, hfree]
        simp [Ne.symm hid]
      · rw [if_neg ha, if_neg hid]
        exact h.producers_iff a id
  case consumers_tidy => exact hconsumers.1
  case consumers_count =>
    intro a id
    rw [readCount_pushNode, ← h.consumers_count]
    exact hconsumers.2 a id
  case reads_live =>
    intro id node a hn ha
    rw [hnode?] at hn
    split at hn
    · rw [← Option.some.inj hn] at ha
      exact hadmits.inputs_live a ha
    · exact h.reads_live id node a hn ha
  case produces_live =>
    intro id node a hn ha
    rw [hnode?] at hn
    split at hn
    · rw [← Option.some.inj hn] at ha
      exact hadmits.outputs_live a ha
    · exact h.produces_live id node a hn ha
  case inputs_live => exact h.inputs_live
  case outputs_live => exact h.outputs_live
  case initializers_live => exact h.initializers_live
  case produced_internal =>
    intro a id hid
    rw [hproducers] at hid
    split at hid
    · next ha => exact (hadmits.outputs_free a ha).2
    · exact h.produced_internal a id hid

theorem dropNode {node : Node} (hn : g.node? node.id = some node) : (g.dropNode node).Indexed := by
  have hnode? := node?_dropNode (g := g) node
  have hproducers : ∀ a : ArgId, (g.dropNode node).producers[a]?
      = if a ∈ node.presentOutputs then none else g.producers[a]? := by
    intro a
    exact getElem?_foldl_erase node.presentOutputs g.producers a
  have hconsumers := foldl_dropUse node.presentInputs node.id h.consumers_tidy
  constructor
  case node_id =>
    intro id node' hn'
    rw [hnode?] at hn'
    split at hn'
    · cases hn'
    · exact h.node_id id node' hn'
  case arg_id => exact h.arg_id
  case nodeNames_iff =>
    intro name id
    change (g.nodeNames.erase node.name)[name]? = some id ↔ _
    rw [hnode?, Std.ExtTreeMap.getElem?_erase]
    simp only [Std.compare_eq_iff_eq]
    by_cases hid : id = node.id
    · subst hid
      simp only [↓reduceIte, reduceCtorEq, false_and, exists_false, iff_false]
      intro hget
      split at hget
      · cases hget
      · next hne =>
        obtain ⟨node', hnode', hname⟩ := (h.nodeNames_iff name node.id).mp hget
        rw [hn] at hnode'
        exact hne (by rw [Option.some.inj hnode', hname])
    · simp only [hid, ↓reduceIte]
      rw [← h.nodeNames_iff]
      split
      · next hname =>
        subst hname
        simp only [reduceCtorEq, false_iff]
        intro hget
        rw [(h.nodeNames_iff node.name node.id).mpr ⟨node, hn, rfl⟩] at hget
        exact hid (Option.some.inj hget).symm
      · rfl
  case argNames_iff => exact h.argNames_iff
  case producers_iff =>
    intro a id
    rw [hproducers, hnode?]
    by_cases ha : a ∈ node.presentOutputs
    · simp only [ha, ↓reduceIte, reduceCtorEq, false_iff]
      rintro ⟨node', hnode', ha'⟩
      split at hnode'
      · cases hnode'
      · next hne => exact hne (h.producer_unique hnode' ha' hn ha)
    · rw [if_neg ha, h.producers_iff]
      by_cases hid : id = node.id
      · subst hid
        simp [hn, ha]
      · simp [hid]
  case consumers_tidy => exact hconsumers.1
  case consumers_count =>
    intro a id
    rw [readCount_dropNode]
    refine (hconsumers.2 a id).trans ?_
    rw [h.consumers_count]
    by_cases hid : id = node.id
    · subst hid
      simp [readCount_of_node? hn]
    · simp [hid, Ne.symm hid]
  case reads_live =>
    intro id node' a hn' ha
    rw [hnode?] at hn'
    split at hn'
    · cases hn'
    · exact h.reads_live id node' a hn' ha
  case produces_live =>
    intro id node' a hn' ha
    rw [hnode?] at hn'
    split at hn'
    · cases hn'
    · exact h.produces_live id node' a hn' ha
  case inputs_live => exact h.inputs_live
  case outputs_live => exact h.outputs_live
  case initializers_live => exact h.initializers_live
  case produced_internal =>
    intro a id hid
    rw [hproducers] at hid
    split at hid
    · cases hid
    · exact h.produced_internal a id hid

end Indexed

end Graph

end OpGraph
