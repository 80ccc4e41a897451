import OpGraph.Graph.Collect
import OpGraph.Graph.Resolve
import OpGraph.Proofs.Graph.Rewire

/-!
The edits that a graph offers to its users. Each of them, also when it ends in an error, leaves a
graph with sound indices in which no removed handle is live again.
-/

namespace OpGraph

theorem forM_eq_ok_iff {ε α : Type} {f : α → Except ε Unit} {l : List α} :
    l.forM f = .ok () ↔ ∀ a ∈ l, f a = .ok () := by
  induction l with
  | nil => simp [pure, Except.pure]
  | cons a l ih =>
    change (f a >>= fun _ => l.forM f) = .ok () ↔ _
    rw [bind_eq_ok_iff, List.forall_mem_cons]
    constructor
    · rintro ⟨⟨⟩, ha, hl⟩
      exact ⟨ha, ih.mp hl⟩
    · rintro ⟨ha, hl⟩
      exact ⟨(), ha, ih.mpr hl⟩

namespace Graph

/-- The second graph is sound and comes after the first: arenas grow, what is gone stays gone. -/
structure Evolves (g g' : Graph) : Prop where
  indexed : g'.Indexed
  nodes_grow : g.nodes.size ≤ g'.nodes.size
  args_grow : g.args.size ≤ g'.args.size
  nodes_gone : ∀ id, id.index < g.nodes.size → g.node? id = none → g'.node? id = none
  args_gone : ∀ id, id.index < g.args.size → g.arg? id = none → g'.arg? id = none

namespace Evolves

theorem refl {g : Graph} (h : g.Indexed) : Evolves g g where
  indexed := h
  nodes_grow := Nat.le_refl _
  args_grow := Nat.le_refl _
  nodes_gone _ _ hid := hid
  args_gone _ _ hid := hid

theorem trans {g₁ g₂ g₃ : Graph} (h : Evolves g₁ g₂) (h' : Evolves g₂ g₃) : Evolves g₁ g₃ where
  indexed := h'.indexed
  nodes_grow := Nat.le_trans h.nodes_grow h'.nodes_grow
  args_grow := Nat.le_trans h.args_grow h'.args_grow
  nodes_gone id hlt hid :=
    h'.nodes_gone id (Nat.lt_of_lt_of_le hlt h.nodes_grow) (h.nodes_gone id hlt hid)
  args_gone id hlt hid :=
    h'.args_gone id (Nat.lt_of_lt_of_le hlt h.args_grow) (h.args_gone id hlt hid)

theorem of_arenas {g g' : Graph} (h : g'.Indexed) (hnodes : g'.nodes = g.nodes)
    (hargs : g'.args = g.args) : Evolves g g' where
  indexed := h
  nodes_grow := Nat.le_of_eq (congrArg Array.size hnodes.symm)
  args_grow := Nat.le_of_eq (congrArg Array.size hargs.symm)
  nodes_gone id _ hid := by rw [node?, hnodes]; exact hid
  args_gone id _ hid := by rw [arg?, hargs]; exact hid

end Evolves

variable {g : Graph}

structure SameArgs (g g' : Graph) : Prop where
  args : g'.args = g.args
  argNames : g'.argNames = g.argNames
  inputs : g'.inputs = g.inputs
  outputs : g'.outputs = g.outputs
  initializers : g'.initializers = g.initializers
  log : g'.log = g.log

theorem SameArgs.refl (g : Graph) : SameArgs g g :=
  ⟨rfl, rfl, rfl, rfl, rfl, rfl⟩

theorem SameArgs.trans {g₁ g₂ g₃ : Graph} (h : SameArgs g₁ g₂) (h' : SameArgs g₂ g₃) :
    SameArgs g₁ g₃ where
  args := h'.args.trans h.args
  argNames := h'.argNames.trans h.argNames
  inputs := h'.inputs.trans h.inputs
  outputs := h'.outputs.trans h.outputs
  initializers := h'.initializers.trans h.initializers
  log := h'.log.trans h.log

theorem SameArgs.symm {g₁ g₂ : Graph} (h : SameArgs g₁ g₂) : SameArgs g₂ g₁ :=
  ⟨h.args.symm, h.argNames.symm, h.inputs.symm, h.outputs.symm, h.initializers.symm, h.log.symm⟩

theorem SameArgs.findArg? {g₁ g₂ : Graph} (h : SameArgs g₁ g₂) : g₂.findArg? = g₁.findArg? := by
  funext name
  rw [Graph.findArg?, Graph.findArg?, h.argNames]

theorem admits_of_checks {name : String} {spec : NodeSpec} (hname : name ∉ g.nodeNames)
    (hin : g.checkInputs (present spec.inputs) = .ok ())
    (hout : g.checkOutputs (present spec.outputs) = .ok ()) : g.Admits name spec := by
  rw [checkInputs, forM_eq_ok_iff] at hin
  rw [checkOutputs, forM_eq_ok_iff] at hout
  refine ⟨hname, ?_, ?_, ?_⟩
  · intro a ha
    have := hin a ha
    split at this
    · next hlive => exact hlive
    · cases this
  · intro a ha
    have := hout a ha
    split at this
    · cases this
    · next harg => simp [harg]
  · intro a ha
    have := hout a ha
    split at this
    · cases this
    · split at this
      · split at this <;> cases this
      · next hprod =>
        split at this
        · cases this
        · next hfree =>
          rw [Bool.or_eq_true, isInput_iff, isInitializer_iff, not_or] at hfree
          exact ⟨hprod, hfree⟩

variable (h : g.Indexed)

include h

/-! ### Args -/

theorem evolves_pushArg {name : String} (hname : name ∉ g.argNames) (type : TensorType) :
    Evolves g (g.pushArg name type) where
  indexed := h.pushArg hname type
  nodes_grow := Nat.le_refl _
  args_grow := by
    rw [pushArg, Array.size_push]
    omega
  nodes_gone _ _ hid := hid
  args_gone id hlt hid := by
    rw [arg?_pushArg, if_neg, hid]
    rw [Handle.ext_iff_index]
    exact Nat.ne_of_lt hlt

theorem producers_nextArg : g.producers[g.nextArg]? = none := by
  cases hp : g.producers[g.nextArg]? with
  | none => rfl
  | some id =>
    obtain ⟨node, hn, ha⟩ := (h.producers_iff g.nextArg id).mp hp
    have := h.produces_live id node g.nextArg hn ha
    rw [arg?_nextArg] at this
    cases this

theorem evolves_putArg {arg arg' : Arg} (hlive : g.arg? arg.id = some arg')
    (hname : arg.name = arg'.name) : Evolves g (g.putArg arg) where
  indexed := h.putArg hlive hname
  nodes_grow := Nat.le_refl _
  args_grow := Nat.le_of_eq Array.size_setIfInBounds.symm
  nodes_gone _ _ hid := hid
  args_gone id _ hid := by
    rw [arg?_putArg arg (by simp [hlive]), if_neg, hid]
    rintro rfl
    rw [hlive] at hid
    cases hid

theorem evolves_setArgType {g' : Graph} {id : ArgId} {type : TensorType}
    (hrun : g.setArgType id type = .ok g') :
    ∃ arg, g.arg? id = some arg ∧ g' = g.putArg ⟨id, arg.name, type⟩ ∧ Evolves g g' := by
  simp only [setArgType, bind_eq_ok_iff, pure_eq_ok_iff] at hrun
  obtain ⟨arg, harg, rfl⟩ := hrun
  rw [arg_eq_ok_iff] at harg
  exact ⟨arg, harg, rfl, evolves_putArg h harg rfl⟩

theorem evolves_insertInitializer {id : ArgId} (hlive : (g.arg? id).isSome)
    (hprod : g.producers[id]? = none) (tensor : Tensor) :
    Evolves g { g with initializers := g.initializers.insert id tensor } := by
  refine Evolves.of_arenas ?_ rfl rfl
  apply h.setInitializers
  · intro a ha
    obtain ha | ha := Std.ExtTreeMap.mem_insert.mp ha
    · rwa [← Std.compare_eq_iff_eq.mp ha]
    · exact h.initializers_live a ha
  · intro a ha
    obtain ha | ha := Std.ExtTreeMap.mem_insert.mp ha
    · rwa [← Std.compare_eq_iff_eq.mp ha]
    · cases hp : g.producers[a]? with
      | none => rfl
      | some id => exact absurd ha (h.produced_internal a id hp).2

theorem evolves_setInitializer {g' : Graph} {id : ArgId} {tensor : Tensor}
    (hrun : g.setInitializer id tensor = .ok g') : Evolves g g' := by
  simp only [setInitializer, bind_eq_ok_iff] at hrun
  obtain ⟨arg, -, hrun⟩ := hrun
  split at hrun
  · cases hrun
  · next hprod =>
    simp only [bind_eq_ok_iff, pure_eq_ok_iff] at hrun
    obtain ⟨g₁, hg₁, rfl⟩ := hrun
    obtain ⟨arg, harg, rfl, hev⟩ := evolves_setArgType h hg₁
    apply hev.trans
    apply evolves_insertInitializer hev.indexed
    · rw [arg?_putArg ⟨id, arg.name, tensor.type⟩ (by simp [harg]), if_pos rfl]
      rfl
    · exact Option.not_isSome_iff_eq_none.mp hprod

theorem evolves_removeInitializer (id : ArgId) : Evolves g (g.removeInitializer id).2 := by
  refine Evolves.of_arenas ?_ rfl rfl
  apply h.setInitializers
  · intro a ha
    exact h.initializers_live a (Std.ExtTreeMap.mem_of_mem_erase ha)
  · intro a ha
    cases hp : g.producers[a]? with
    | none => rfl
    | some id =>
      exact absurd (Std.ExtTreeMap.mem_of_mem_erase ha) (h.produced_internal a id hp).2

theorem evolves_addOutput {g' : Graph} {id : ArgId} (hrun : g.addOutput id = .ok g') :
    Evolves g g' := by
  simp only [addOutput, bind_eq_ok_iff, pure_eq_ok_iff] at hrun
  obtain ⟨arg, harg, rfl⟩ := hrun
  rw [arg_eq_ok_iff] at harg
  split
  · exact .refl h
  · refine Evolves.of_arenas ?_ rfl rfl
    apply h.setOutputs
    intro a ha
    rw [List.mem_append, List.mem_singleton] at ha
    obtain ha | rfl := ha
    · exact h.outputs_live a ha
    · simp [harg]

/-! ### Nodes -/

theorem evolves_pushNode {name : String} {spec : NodeSpec} (hadmits : g.Admits name spec) :
    Evolves g (g.pushNode name spec) where
  indexed := h.pushNode hadmits
  nodes_grow := by
    change _ ≤ (g.nodes.push _).size
    rw [Array.size_push]
    omega
  args_grow := Nat.le_refl _
  nodes_gone id hlt hid := by
    rw [node?_pushNode, if_neg, hid]
    rw [Handle.ext_iff_index]
    exact Nat.ne_of_lt hlt
  args_gone _ _ hid := hid

theorem evolves_dropNode {node : Node} (hn : g.node? node.id = some node) :
    Evolves g (g.dropNode node) where
  indexed := h.dropNode hn
  nodes_grow := Nat.le_of_eq Array.size_setIfInBounds.symm
  args_grow := Nat.le_refl _
  nodes_gone id _ hid := by
    rw [node?_dropNode]
    split
    · rfl
    · exact hid
  args_gone _ _ hid := hid

theorem removeNode_eq_ok {g' : Graph} {id : NodeId} {node : Node}
    (hrun : g.removeNode id = .ok (node, g')) :
    g.node? id = some node ∧ node.id = id ∧ g' = g.dropNode node := by
  simp only [removeNode, bind_eq_ok_iff, pure_eq_ok_iff, node_eq_ok_iff] at hrun
  obtain ⟨node', hn, heq⟩ := hrun
  have hid := h.node_id id node' hn
  simp only [Prod.mk.injEq] at heq
  obtain ⟨rfl, rfl⟩ := heq
  refine ⟨hn, hid, ?_⟩
  congr 1
  cases node'
  simp_all

theorem removeNode_succeeds {id : NodeId} {node : Node} (hn : g.node? id = some node) :
    g.removeNode id = .ok (node, g.dropNode node) := by
  have hid := h.node_id id node hn
  subst hid
  rw [removeNode, node_eq_ok_iff.mpr hn]
  rfl

theorem evolves_removeNode {g' : Graph} {id : NodeId} {node : Node}
    (hrun : g.removeNode id = .ok (node, g')) : Evolves g g' := by
  obtain ⟨hn, hid, rfl⟩ := removeNode_eq_ok h hrun
  exact evolves_dropNode h (hid ▸ hn)

theorem evolves_setInput {g' : Graph} {id : NodeId} {slot : Nat} {arg : Option ArgId}
    (hrun : g.setInput id slot arg = .ok g') : Evolves g g' := by
  obtain ⟨node, hn, harg, rfl⟩ := setInput_eq_ok hrun
  have hframe := sameFrame_withInput g id node slot arg
  refine ⟨h.withInput hn slot harg, ?_, ?_, ?_, ?_⟩
  · exact Nat.le_of_eq hframe.size.symm
  · exact Nat.le_of_eq (congrArg Array.size hframe.args.symm)
  · intro id' _ hid'
    rw [node?_withInput hn, if_neg, hid']
    rintro rfl
    rw [hn] at hid'
    cases hid'
  · intro a _ ha
    rw [hframe.arg?, ha]

theorem evolves_replaceAllUses {g' : Graph} {old new : ArgId}
    (hrun : g.replaceAllUses old new = .ok g') : Evolves g g' := by
  obtain ⟨-, -, ⟨-, rfl⟩ | ⟨-, hindexed, hreplaced⟩⟩ := replaceAllUses_eq_ok h hrun
  · exact .refl h
  · refine ⟨hindexed, ?_, ?_, ?_, ?_⟩
    · exact Nat.le_of_eq hreplaced.nodes_size.symm
    · exact Nat.le_of_eq hreplaced.args_size.symm
    · intro id _ hid
      rw [hreplaced.nodes, hid]
      rfl
    · intro a _ ha
      by_cases htakes : TakesName g old new
      · obtain ⟨spare, oldArg, newArg, hold, hnew, -, hargs⟩ := hreplaced.args_renamed htakes
        rw [hargs, if_neg, if_neg, ha]
        · rintro rfl
          rw [hold] at ha
          cases ha
        · rintro rfl
          rw [hnew] at ha
          cases ha
      · rw [hreplaced.args_kept htakes, ha]

/-! ### Edits that may end in an error -/

omit h in
/-- The graph that an edit leaves, whether it succeeds or ends in an error. -/
def settle {α : Type} (step : Edit GraphError α) (g : Graph) : Except Fault Graph :=
  match step g with
  | .ok _ g => .ok g
  | .error (.error _) g => .ok g
  | .error (.fault fault) _ => .error fault

theorem evolves_newArg {g' : Graph} {name : String} {type : TensorType}
    (hrun : settle (newArg name type) g = .ok g') : Evolves g g' := by
  rw [settle, newArg] at hrun
  split at hrun
  · next heq =>
    split at heq
    · cases heq
    · next hname =>
      cases heq
      cases hrun
      exact evolves_pushArg h hname type
  · next heq =>
    split at heq
    · cases heq
      cases hrun
      exact .refl h
    · cases heq
  · cases hrun

omit h in
theorem addInput_cases (name : String) (type : TensorType) (g : Graph) :
    (∃ e, addInput name type g = .error (.error e) g) ∨
    name ∉ g.argNames ∧ addInput name type g = .ok g.nextArg
      { g.pushArg name type with inputs := g.inputs ++ [g.nextArg] } := by
  by_cases hname : name ∈ g.argNames
  · left
    refine ⟨.duplicateArg name, ?_⟩
    simp [addInput, newArg, hname, bind, EStateM.bind]
  · right
    exact ⟨hname, stateful_bind_eq_ok_iff.mpr ⟨_, _, if_neg hname, rfl⟩⟩

theorem evolves_addInput {g' : Graph} {name : String} {type : TensorType}
    (hrun : settle (addInput name type) g = .ok g') : Evolves g g' := by
  rw [settle] at hrun
  obtain ⟨e, heq⟩ | ⟨hname, heq⟩ := addInput_cases name type g
  · rw [heq] at hrun
    cases hrun
    exact .refl h
  · rw [heq] at hrun
    cases hrun
    have hpush := evolves_pushArg h hname type
    apply hpush.trans
    refine Evolves.of_arenas ?_ rfl rfl
    apply hpush.indexed.addInput
    · rw [arg?_pushArg, if_pos rfl]
      rfl
    · exact producers_nextArg h

omit h in
theorem addInitializer_cases (name : String) (tensor : Tensor) (g : Graph) :
    (∃ failure, addInitializer name tensor g = .error failure g) ∨
    name ∉ g.argNames ∧ addInitializer name tensor g = .ok g.nextArg
      { g.pushArg name tensor.type with
        initializers := g.initializers.insert g.nextArg tensor } := by
  cases hcheck : checkTensor name tensor with
  | error failure =>
    left
    refine ⟨failure, ?_⟩
    simp only [addInitializer, hcheck]
    rfl
  | ok u =>
    by_cases hname : name ∈ g.argNames
    · left
      refine ⟨.error (.duplicateArg name), ?_⟩
      simp [addInitializer, hcheck, newArg, hname, bind, EStateM.bind]
    · right
      refine ⟨hname, ?_⟩
      simp only [addInitializer, hcheck]
      exact stateful_bind_eq_ok_iff.mpr ⟨_, _, if_neg hname, rfl⟩

theorem evolves_addInitializer {g' : Graph} {name : String} {tensor : Tensor}
    (hrun : settle (addInitializer name tensor) g = .ok g') : Evolves g g' := by
  rw [settle] at hrun
  obtain ⟨failure, heq⟩ | ⟨hname, heq⟩ := addInitializer_cases name tensor g
  · rw [heq] at hrun
    cases failure with
    | error e =>
      cases hrun
      exact .refl h
    | fault f => cases hrun
  · rw [heq] at hrun
    cases hrun
    have hpush := evolves_pushArg h hname tensor.type
    apply hpush.trans
    apply evolves_insertInitializer hpush.indexed
    · rw [arg?_pushArg, if_pos rfl]
      rfl
    · exact producers_nextArg h

omit h in
theorem addNode_cases (spec : NodeSpec) (g : Graph) :
    (∃ failure, addNode spec g = .error failure g) ∨
    ∃ name, g.Admits name spec ∧ addNode spec g = .ok g.nextNode (g.pushNode name spec) ∧
      name = if spec.name = "" then g.freshNodeName spec.key.opType else spec.name := by
  rw [addNode]
  generalize hname : (if spec.name = "" then g.freshNodeName spec.key.opType else spec.name) = name
  split
  · exact .inl ⟨_, rfl⟩
  · next hfree =>
    split
    · exact .inl ⟨_, rfl⟩
    · exact .inl ⟨_, rfl⟩
    · next hin hout => exact .inr ⟨name, admits_of_checks hfree hin hout, rfl, rfl⟩

omit h in
theorem checks_of_admits {name : String} {spec : NodeSpec} (hadmits : g.Admits name spec) :
    g.checkInputs (present spec.inputs) = .ok () ∧
      g.checkOutputs (present spec.outputs) = .ok () := by
  rw [checkInputs, checkOutputs, forM_eq_ok_iff, forM_eq_ok_iff]
  constructor
  · intro a ha
    rw [if_pos (hadmits.inputs_live a ha)]
  · intro a ha
    obtain ⟨arg, harg⟩ := Option.isSome_iff_exists.mp (hadmits.outputs_live a ha)
    obtain ⟨hproducer, hfree⟩ := hadmits.outputs_free a ha
    have hproducer : g.producer? a = none := hproducer
    rw [← isInput_iff, ← isInitializer_iff, ← not_or, ← Bool.or_eq_true] at hfree
    simp only [harg, hproducer, if_neg hfree]

omit h in
theorem addNode_succeeds {name : String} {spec : NodeSpec} (hadmits : g.Admits name spec)
    (hname : name = if spec.name = "" then g.freshNodeName spec.key.opType else spec.name) :
    addNode spec g = .ok g.nextNode (g.pushNode name spec) := by
  obtain ⟨hin, hout⟩ := checks_of_admits hadmits
  rw [addNode, ← hname, if_neg hadmits.name_free, hin, hout]

theorem evolves_addNode {g' : Graph} {spec : NodeSpec} (hrun : settle (addNode spec) g = .ok g') :
    Evolves g g' := by
  rw [settle] at hrun
  obtain ⟨failure, heq⟩ | ⟨name, hadmits, heq, -⟩ := addNode_cases spec g
  · rw [heq] at hrun
    cases failure with
    | error e =>
      cases hrun
      exact .refl h
    | fault f => cases hrun
  · rw [heq] at hrun
    cases hrun
    exact evolves_pushNode h hadmits

/-! ### Validation and garbage -/

theorem evolves_inferAll {g' : Graph} {order : List NodeId} (hrun : g.inferAll order = .ok g') :
    Evolves g g' := by
  rw [inferAll] at hrun
  refine foldlM_keeps (P := fun s => Evolves g s) order ?_ g g' (.refl h) hrun
  intro id _ s s' hs hstep
  rw [bind_eq_ok_iff] at hstep
  obtain ⟨inferred, -, hstep⟩ := hstep
  split at hstep
  · next out type =>
    obtain ⟨arg, -, -, hev⟩ := evolves_setArgType hs.indexed hstep
    exact hs.trans hev
  · cases hstep
    exact hs

theorem evolves_resolve {g' : Graph} (hrun : settle resolve g = .ok g') : Evolves g g' := by
  rw [settle, resolve] at hrun
  split at hrun
  · next heq =>
    split at heq
    · cases heq
    · split at heq
      · cases heq
      · next hinfer =>
        cases heq
        cases hrun
        exact evolves_inferAll h hinfer
  · next heq =>
    split at heq
    · cases heq
      cases hrun
      exact .refl h
    · split at heq
      · cases heq
      · cases heq
  · cases hrun

theorem evolves_removeNodes {g' : Graph} {ids : List NodeId}
    (hrun : ids.foldlM (fun g id => Prod.snd <$> g.removeNode id) g = .ok g') : Evolves g g' := by
  refine foldlM_keeps (P := fun s => Evolves g s) ids ?_ g g' (.refl h) hrun
  intro id _ s s' hs hstep
  rw [map_eq_ok_iff] at hstep
  obtain ⟨⟨node, s₁⟩, hstep, rfl⟩ := hstep
  exact hs.trans (evolves_removeNode hs.indexed hstep)

omit h in
theorem sameArgs_dropNode (g : Graph) (node : Node) : SameArgs g (g.dropNode node) :=
  ⟨rfl, rfl, rfl, rfl, rfl, rfl⟩

theorem removeNodes_succeeds {ids : List NodeId} (hnodup : ids.Nodup)
    (hlive : ∀ id ∈ ids, id ∈ g.nodeIds) :
    ∃ left, ids.foldlM (fun g id => Prod.snd <$> g.removeNode id) g = .ok left ∧ left.Indexed ∧
      SameArgs g left ∧ left.nodes.size = g.nodes.size ∧
      ∀ id, left.node? id = if id ∈ ids then none else g.node? id := by
  apply foldlM_succeeds (P := fun done (s : Graph) => s.Indexed ∧ SameArgs g s ∧
    s.nodes.size = g.nodes.size ∧ ∀ id, s.node? id = if id ∈ done then none else g.node? id) ids
  · rintro done id rest s heq ⟨hs, hsame, hsize, hnodes⟩
    have hnew : id ∉ done := by
      rw [heq, List.nodup_append] at hnodup
      intro hdone
      exact hnodup.2.2 id hdone id List.mem_cons_self rfl
    obtain ⟨node, hnode⟩ := h.mem_nodeIds.mp (hlive id (by rw [heq]; simp))
    have hs' : s.node? id = some node := by rw [hnodes, if_neg hnew, hnode]
    have hid := hs.node_id id node hs'
    refine ⟨s.dropNode node, ?_, hs.dropNode (hid ▸ hs'), hsame.trans (sameArgs_dropNode s node),
      ?_, ?_⟩
    · rw [removeNode_succeeds hs hs']
      rfl
    · rw [← hsize]
      exact Array.size_setIfInBounds
    · intro id'
      rw [node?_dropNode, hnodes, hid]
      simp only [List.mem_append, List.mem_singleton]
      grind
  · exact ⟨h, .refl g, rfl, by simp⟩

omit h in
theorem name_removeNodes {left : Graph} {ids : List NodeId}
    (hrun : ids.foldlM (fun g id => Prod.snd <$> g.removeNode id) g = .ok left) :
    left.name = g.name := by
  refine foldlM_keeps (P := fun s => s.name = g.name) ids ?_ g left rfl hrun
  intro id _ s s' hs hstep
  simp only [removeNode, map_eq_ok_iff, bind_eq_ok_iff, pure_eq_ok_iff] at hstep
  obtain ⟨_, ⟨node, -, rfl⟩, rfl⟩ := hstep
  exact hs

omit h in
theorem evolves_removeDead {fuel removed removed' : Nat} {g g' : Graph} (h : g.Indexed)
    (hrun : removeDead fuel removed g = .ok (removed', g')) : Evolves g g' := by
  induction fuel generalizing removed g with
  | zero =>
    cases hrun
    exact .refl h
  | succ fuel ih =>
    rw [removeDead] at hrun
    split at hrun
    · cases hrun
      exact .refl h
    · rw [bind_eq_ok_iff] at hrun
      obtain ⟨g₁, hg₁, hrun⟩ := hrun
      have hev := evolves_removeNodes h hg₁
      exact hev.trans (ih hev.indexed hrun)

omit h in
theorem isOrphan_iff (h : g.Indexed) {a : ArgId} : g.isOrphan a = true ↔
    (∀ id node, g.node? id = some node → a ∉ node.presentOutputs ∧ a ∉ node.presentInputs) ∧
    a ∉ g.inputs ∧ a ∉ g.outputs := by
  simp only [isOrphan, Bool.and_eq_true, Bool.not_eq_true', ← Bool.not_eq_true, isInput_iff,
    isOutput_iff, h.hasConsumers_iff, Option.isNone_iff_eq_none]
  have hprod : g.producer? a = none ↔ ∀ id node, g.node? id = some node →
      a ∉ node.presentOutputs := by
    rw [Option.eq_none_iff_forall_ne_some]
    simp only [ne_eq, h.producer?_eq_some_iff, not_exists, not_and]
  rw [hprod]
  constructor
  · rintro ⟨⟨⟨hp, hc⟩, hi⟩, ho⟩
    exact ⟨fun id node hn => ⟨hp id node hn, fun ha => hc ⟨id, node, hn, ha⟩⟩, hi, ho⟩
  · rintro ⟨hfree, hi, ho⟩
    refine ⟨⟨⟨fun id node hn => (hfree id node hn).1, ?_⟩, hi⟩, ho⟩
    rintro ⟨id, node, hn, ha⟩
    exact (hfree id node hn).2 ha

omit h in
theorem removeArg_frame (g : Graph) (a : ArgId) :
    (g.removeArg a).nodes = g.nodes ∧ (g.removeArg a).inputs = g.inputs ∧
    (g.removeArg a).outputs = g.outputs ∧ (g.removeArg a).args.size = g.args.size := by
  rw [removeArg]
  split
  · exact ⟨rfl, rfl, rfl, rfl⟩
  · exact ⟨rfl, rfl, rfl, Array.size_setIfInBounds⟩

theorem evolves_removeArg {a : ArgId}
    (hfree : ∀ id node, g.node? id = some node → a ∉ node.presentOutputs ∧ a ∉ node.presentInputs)
    (hin : a ∉ g.inputs) (hout : a ∉ g.outputs) : Evolves g (g.removeArg a) := by
  obtain ⟨hnodes, -, -, hsize⟩ := removeArg_frame g a
  refine ⟨?_, ?_, ?_, ?_, ?_⟩
  · apply h.removeArg _ _ hin hout
    · rw [Option.eq_none_iff_forall_ne_some]
      intro id hid
      obtain ⟨node, hn, ha⟩ := (h.producers_iff a id).mp hid
      exact (hfree id node hn).1 ha
    · intro id
      apply Nat.eq_zero_of_not_pos
      rw [readCount_pos_iff]
      rintro ⟨node, hn, ha⟩
      exact (hfree id node hn).2 ha
  · exact Nat.le_of_eq (congrArg Array.size hnodes.symm)
  · exact Nat.le_of_eq hsize.symm
  · intro id _ hid
    rw [node?, hnodes]
    exact hid
  · intro id _ hid
    rw [arg?_removeArg]
    split
    · rfl
    · exact hid

theorem evolves_removeOrphans : Evolves g g.removeOrphans := by
  have horphan : ∀ a ∈ g.argIds.filter g.isOrphan, g.isOrphan a = true :=
    fun a ha => (List.mem_filter.mp ha).2
  rw [removeOrphans]
  -- Removing args leaves the nodes alone, so an orphan stays one.
  suffices ∀ (orphans : List ArgId) (s : Graph), (∀ a ∈ orphans, g.isOrphan a = true) →
      Evolves g s → s.nodes = g.nodes → s.inputs = g.inputs → s.outputs = g.outputs →
      Evolves g (orphans.foldl removeArg s) from
    this _ g horphan (.refl h) rfl rfl rfl
  intro orphans
  induction orphans with
  | nil =>
    intro s _ hs _ _ _
    exact hs
  | cons a orphans ih =>
    intro s horphans hs hnodes hin hout
    obtain ⟨hnodes', hin', hout', -⟩ := removeArg_frame s a
    obtain ⟨hfree, hnin, hnout⟩ := (isOrphan_iff h).mp (horphans a List.mem_cons_self)
    apply ih
    · exact fun b hb => horphans b (List.mem_cons_of_mem a hb)
    · apply hs.trans
      apply evolves_removeArg hs.indexed
      · intro id node hn
        rw [node?, hnodes] at hn
        exact hfree id node hn
      · rwa [hin]
      · rwa [hout]
    · rw [hnodes', hnodes]
    · rw [hin', hin]
    · rw [hout', hout]

theorem evolves_collect {removed : Nat} {g' : Graph} (hrun : g.collect = .ok (removed, g')) :
    Evolves g g' := by
  simp only [collect, bind_eq_ok_iff, pure_eq_ok_iff] at hrun
  obtain ⟨⟨count, g₁⟩, hg₁, heq⟩ := hrun
  simp only [Prod.mk.injEq] at heq
  obtain ⟨-, rfl⟩ := heq
  have hdead := evolves_removeDead h hg₁
  have horphans := evolves_removeOrphans hdead.indexed
  apply (hdead.trans horphans).trans
  exact .of_arenas (horphans.indexed.setLog _) rfl rfl

end Graph

end OpGraph
