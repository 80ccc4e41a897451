import OpGraph.Proofs.Index

/-!
The representation invariant of a graph: what the arenas hold, what the indices say about them and
which args may be referred to. Everything a query answers from an index can be read off the nodes.
-/

namespace OpGraph

namespace Handle

variable {arena : Arena}

theorem ext_iff_index {x y : Handle arena} : x = y ↔ x.index = y.index := by
  cases x
  cases y
  simp

theorem nodup_of_ascending {l : List (Handle arena)} (h : l.Pairwise fun x y => x.index < y.index) :
    l.Nodup :=
  h.imp fun hlt heq => Nat.ne_of_lt hlt (congrArg index heq)

theorem nodup_toList (s : Std.ExtTreeSet (Handle arena)) : s.toList.Nodup := by
  apply s.distinct_toList.imp
  intro id id' hne heq
  exact hne (Std.LawfulEqCmp.compare_eq_iff_eq.mpr heq)

end Handle

theorem mem_present_iff {α : Type} {slots : List (Option α)} {x : α} :
    x ∈ present slots ↔ some x ∈ slots := by
  simp [present]

theorem mem_present_toList_iff {α : Type} {slots : Array (Option α)} {x : α} :
    x ∈ present slots.toList ↔ ∃ i : Nat, slots[i]?.join = some x := by
  simp only [mem_present_iff, Array.mem_toList_iff, Array.mem_iff_getElem?, Option.join_eq_some_iff]

theorem present_ascending {α : Type} {slots : Array (Option α)} {index : α → Nat}
    (hindex : ∀ (i : Nat) x, slots[i]?.join = some x → index x = i) :
    (present slots.toList).Pairwise fun x y => index x < index y := by
  rw [present, List.pairwise_filterMap, List.pairwise_iff_getElem]
  intro i j hi hj hij x hx y hy
  have hplace : ∀ (k : Nat) (hk : k < slots.toList.length) z, slots.toList[k] = some z →
      index z = k := by
    intro k hk z hz
    rw [Array.length_toList] at hk
    apply hindex
    rw [Array.getElem?_eq_getElem hk]
    simpa using hz
  rw [hplace i hi x hx, hplace j hj y hy]
  exact hij

namespace Node

theorem input?_eq_some_iff {node : Node} {slot : Nat} {a : ArgId} :
    node.input? slot = some a ↔ node.inputs[slot]? = some (some a) := by
  simp [input?, Option.join_eq_some_iff]

theorem output?_eq_some_iff {node : Node} {slot : Nat} {a : ArgId} :
    node.output? slot = some a ↔ node.outputs[slot]? = some (some a) := by
  simp [output?, Option.join_eq_some_iff]

theorem mem_presentInputs_iff {node : Node} {a : ArgId} :
    a ∈ node.presentInputs ↔ ∃ slot, node.input? slot = some a := by
  rw [presentInputs, mem_present_iff, List.mem_iff_getElem?]
  simp only [input?_eq_some_iff]

theorem mem_presentOutputs_iff {node : Node} {a : ArgId} :
    a ∈ node.presentOutputs ↔ ∃ slot, node.output? slot = some a := by
  rw [presentOutputs, mem_present_iff, List.mem_iff_getElem?]
  simp only [output?_eq_some_iff]

end Node

namespace Graph

variable {g : Graph}

theorem node?_eq_some_iff {id : NodeId} {node : Node} :
    g.node? id = some node ↔ g.nodes[id.index]? = some (some node) := by
  simp [node?, Option.join_eq_some_iff]

theorem mem_liveNodes_iff {node : Node} : node ∈ g.liveNodes ↔ ∃ id, g.node? id = some node := by
  rw [liveNodes, mem_present_toList_iff]
  constructor
  · rintro ⟨i, hi⟩
    exact ⟨⟨i⟩, hi⟩
  · rintro ⟨id, hid⟩
    exact ⟨id.index, hid⟩

theorem mem_liveArgs_iff {arg : Arg} : arg ∈ g.liveArgs ↔ ∃ id, g.arg? id = some arg := by
  rw [liveArgs, mem_present_toList_iff]
  constructor
  · rintro ⟨i, hi⟩
    exact ⟨⟨i⟩, hi⟩
  · rintro ⟨id, hid⟩
    exact ⟨id.index, hid⟩

theorem node_eq_ok_iff {id : NodeId} {node : Node} :
    g.node id = .ok node ↔ g.node? id = some node := by
  rw [Graph.node]
  cases h : g.node? id <;> simp

theorem arg_eq_ok_iff {id : ArgId} {arg : Arg} : g.arg id = .ok arg ↔ g.arg? id = some arg := by
  rw [Graph.arg]
  cases h : g.arg? id <;> simp

theorem nodup_consumersOf (g : Graph) (a : ArgId) : (g.consumersOf a).Nodup := by
  rw [consumersOf]
  split
  · exact Std.ExtTreeMap.nodup_keys
  · exact List.nodup_nil

def readCount (g : Graph) (a : ArgId) (id : NodeId) : Nat :=
  match g.node? id with
  | some node => node.presentInputs.count a
  | none => 0

theorem readCount_of_node? {id : NodeId} {node : Node} (h : g.node? id = some node) (a : ArgId) :
    g.readCount a id = node.presentInputs.count a := by
  simp [readCount, h]

theorem readCount_pos_iff {a : ArgId} {id : NodeId} :
    0 < g.readCount a id ↔ ∃ node, g.node? id = some node ∧ a ∈ node.presentInputs := by
  rw [readCount]
  cases h : g.node? id with
  | none => simp
  | some node => simp [List.count_pos_iff]

/-- The representation invariant. -/
structure Indexed (g : Graph) : Prop where
  node_id : ∀ id node, g.node? id = some node → node.id = id
  arg_id : ∀ id arg, g.arg? id = some arg → arg.id = id
  nodeNames_iff : ∀ (name : String) id,
    g.nodeNames[name]? = some id ↔ ∃ node, g.node? id = some node ∧ node.name = name
  argNames_iff : ∀ (name : String) id,
    g.argNames[name]? = some id ↔ ∃ arg, g.arg? id = some arg ∧ arg.name = name
  producers_iff : ∀ (a : ArgId) id,
    g.producers[a]? = some id ↔ ∃ node, g.node? id = some node ∧ a ∈ node.presentOutputs
  consumers_tidy : Tidy g.consumers
  consumers_count : ∀ a id, countIn g.consumers a id = g.readCount a id
  reads_live : ∀ id node a, g.node? id = some node → a ∈ node.presentInputs → (g.arg? a).isSome
  produces_live : ∀ id node a, g.node? id = some node → a ∈ node.presentOutputs → (g.arg? a).isSome
  inputs_live : ∀ a ∈ g.inputs, (g.arg? a).isSome
  outputs_live : ∀ a ∈ g.outputs, (g.arg? a).isSome
  initializers_live : ∀ a ∈ g.initializers, (g.arg? a).isSome
  produced_internal : ∀ (a : ArgId) id,
    g.producers[a]? = some id → a ∉ g.inputs ∧ a ∉ g.initializers

/-- No arg stands in two output slots. Slots of different nodes differ by the invariant itself. -/
structure Consistent (g : Graph) : Prop extends Indexed g where
  outputs_nodup : ∀ id node, g.node? id = some node → node.presentOutputs.Nodup

namespace Indexed

variable (h : g.Indexed)

include h

theorem mem_liveNodes {node : Node} : node ∈ g.liveNodes ↔ g.node? node.id = some node := by
  rw [mem_liveNodes_iff]
  constructor
  · rintro ⟨id, hid⟩
    rwa [h.node_id id node hid]
  · intro hid
    exact ⟨node.id, hid⟩

theorem mem_nodeIds {id : NodeId} : id ∈ g.nodeIds ↔ ∃ node, g.node? id = some node := by
  rw [nodeIds, List.mem_map]
  constructor
  · rintro ⟨node, hnode, rfl⟩
    exact ⟨node, h.mem_liveNodes.mp hnode⟩
  · rintro ⟨node, hnode⟩
    refine ⟨node, ?_, h.node_id id node hnode⟩
    rw [h.mem_liveNodes, h.node_id id node hnode]
    exact hnode

theorem liveNodes_ascending :
    g.liveNodes.Pairwise fun node node' => node.id.index < node'.id.index :=
  present_ascending fun i node hnode => congrArg Handle.index (h.node_id ⟨i⟩ node hnode)

theorem liveNodes_nodup : g.liveNodes.Nodup := by
  apply h.liveNodes_ascending.imp
  rintro node _ hlt rfl
  exact Nat.lt_irrefl _ hlt

theorem liveArgs_ascending :
    g.liveArgs.Pairwise fun arg arg' => arg.id.index < arg'.id.index :=
  present_ascending fun i arg harg => congrArg Handle.index (h.arg_id ⟨i⟩ arg harg)

theorem mem_liveArgs {arg : Arg} : arg ∈ g.liveArgs ↔ g.arg? arg.id = some arg := by
  rw [mem_liveArgs_iff]
  constructor
  · rintro ⟨id, hid⟩
    rwa [h.arg_id id arg hid]
  · intro hid
    exact ⟨arg.id, hid⟩

theorem producer?_eq_some_iff {a : ArgId} {id : NodeId} :
    g.producer? a = some id ↔ ∃ node, g.node? id = some node ∧ a ∈ node.presentOutputs :=
  h.producers_iff a id

theorem findArg?_eq_some_iff {name : String} {id : ArgId} :
    g.findArg? name = some id ↔ ∃ arg, g.arg? id = some arg ∧ arg.name = name :=
  h.argNames_iff name id

theorem findArg?_injective {name name' : String} {a : ArgId} (hname : g.findArg? name = some a)
    (hname' : g.findArg? name' = some a) : name = name' := by
  obtain ⟨arg, harg, rfl⟩ := h.findArg?_eq_some_iff.mp hname
  obtain ⟨arg', harg', rfl⟩ := h.findArg?_eq_some_iff.mp hname'
  rw [harg] at harg'
  cases harg'
  rfl

theorem mem_consumersOf_iff {a : ArgId} {id : NodeId} :
    id ∈ g.consumersOf a ↔ ∃ node, g.node? id = some node ∧ a ∈ node.presentInputs := by
  rw [← readCount_pos_iff, ← h.consumers_count, consumersOf]
  cases ha : g.consumers[a]? with
  | none => simp [countIn_of_getElem?_none ha]
  | some uses =>
    dsimp only
    rw [Std.ExtTreeMap.mem_keys]
    exact h.consumers_tidy.mem_uses_iff ha id

theorem hasConsumers_iff {a : ArgId} :
    g.hasConsumers a = true ↔ ∃ id node, g.node? id = some node ∧ a ∈ node.presentInputs := by
  rw [hasConsumers, Std.ExtTreeMap.contains_iff_mem, h.consumers_tidy.contains_iff]
  simp only [h.consumers_count, readCount_pos_iff]

theorem producer_unique {a : ArgId} {id id' : NodeId} {node node' : Node}
    (hn : g.node? id = some node) (ha : a ∈ node.presentOutputs)
    (hn' : g.node? id' = some node') (ha' : a ∈ node'.presentOutputs) : id = id' := by
  have h₁ := (h.producers_iff a id).mpr ⟨node, hn, ha⟩
  have h₂ := (h.producers_iff a id').mpr ⟨node', hn', ha'⟩
  rw [h₁] at h₂
  exact Option.some.inj h₂

theorem argName_unique {id id' : ArgId} {arg arg' : Arg} (ha : g.arg? id = some arg)
    (ha' : g.arg? id' = some arg') (hname : arg.name = arg'.name) : id = id' := by
  have h₁ := (h.argNames_iff arg.name id).mpr ⟨arg, ha, rfl⟩
  have h₂ := (h.argNames_iff arg.name id').mpr ⟨arg', ha', hname.symm⟩
  rw [h₁] at h₂
  exact Option.some.inj h₂

end Indexed

end Graph

end OpGraph
