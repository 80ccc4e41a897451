import OpGraph.Proofs.Graph.Mutations
import OpGraph.Proofs.Graph.Rebuilt
import OpGraph.Proofs.Graph.Topology

/-!
What validation accepts: a graph in which no arg stands in two output slots, every arg that is read
gets its value from somewhere and no node feeds itself. Filling in types cannot fail then and
changes nothing but types.
-/

namespace OpGraph

namespace Graph

variable {g : Graph}

/-! ### Indices -/

theorem stateOutputs_eq_ok_iff {node : Node} (outputs : List ArgId)
    {producers producers' : Std.ExtTreeMap ArgId NodeId} :
    outputs.foldlM (g.stateOutput node) producers = .ok producers'
      ↔
    outputs.Nodup ∧ (∀ a ∈ outputs, producers[a]? = none) ∧
      producers' = outputs.foldl (fun producers arg => producers.insert arg node.id) producers := by
  induction outputs generalizing producers with
  | nil =>
    rw [List.foldlM_nil, pure_eq_ok_iff]
    simp [eq_comm]
  | cons a outputs ih =>
    rw [List.foldlM_cons, bind_eq_ok_iff, stateOutput]
    cases ha : producers[a]? with
    | some other =>
      have hfault : ∀ p : Std.ExtTreeMap ArgId NodeId, (do
          throw (.producedTwice (← g.arg a).name (← g.node other).name node.name)) ≠
            Except.ok p := by
        intro p
        rw [Graph.arg, Graph.node]
        cases g.arg? a <;> cases g.node? other <;> simp [bind, Except.bind, throw, throwThe,
          MonadExceptOf.throw]
      constructor
      · rintro ⟨p, hp, -⟩
        exact absurd hp (hfault p)
      · rintro ⟨-, hnone, -⟩
        rw [hnone a List.mem_cons_self] at ha
        cases ha
    | none =>
      simp only [Except.ok.injEq, exists_eq_left', ih, List.nodup_cons, List.foldl_cons,
        List.mem_cons, Std.ExtTreeMap.getElem?_insert, Std.LawfulEqCmp.compare_eq_iff_eq]
      grind

theorem Consistent.statedProducers_eq (h : g.Consistent) : g.statedProducers = .ok g.producers := by
  have hrun := foldlM_succeeds
    (f := fun producers (node : Node) => node.presentOutputs.foldlM (g.stateOutput node) producers)
    (P := fun done producers => producers = done.foldl (fun producers node =>
      node.presentOutputs.foldl (fun producers arg => producers.insert arg node.id) producers) ∅)
    g.liveNodes ?_ ∅ rfl
  · obtain ⟨producers, hrun, rfl⟩ := hrun
    rw [h.producers_eq]
    exact hrun
  · rintro done node rest producers heq rfl
    have hmem : node ∈ g.liveNodes := by rw [heq]; simp
    have hnode := h.mem_liveNodes.mp hmem
    refine ⟨_, (stateOutputs_eq_ok_iff node.presentOutputs).mpr
      ⟨h.outputs_nodup node.id node hnode, ?_, rfl⟩, by rw [List.foldl_append]; rfl⟩
    intro a ha
    -- An output that has been stated before would belong to a node with the same handle.
    have hunique : ∀ node' ∈ done, a ∈ node'.presentOutputs → node'.id = node.id := by
      intro node' hdone ha'
      have hmem' : node' ∈ g.liveNodes := by rw [heq]; simp [hdone]
      exact h.producer_unique (h.mem_liveNodes.mp hmem') ha' hnode ha
    rw [getElem?_foldl_producers done ∅ a node.id hunique, if_neg]
    · simp
    · rintro ⟨node', hdone, ha'⟩
      have hpair := h.liveNodes_ascending
      rw [heq, List.pairwise_append] at hpair
      have hlt := hpair.2.2 node' hdone node List.mem_cons_self
      rw [hunique node' hdone ha'] at hlt
      exact Nat.lt_irrefl _ hlt

theorem Indexed.checkIndices_eq_ok_iff (h : g.Indexed) :
    g.checkIndices = .ok () ↔ g.Consistent := by
  constructor
  · intro hrun
    rw [checkIndices, bind_eq_ok_iff] at hrun
    obtain ⟨producers, hstated, -⟩ := hrun
    refine ⟨h, ?_⟩
    intro id node hnode
    have hmem : node ∈ g.liveNodes := mem_liveNodes_iff.mpr ⟨id, hnode⟩
    obtain ⟨p, p', hp⟩ := foldlM_step_ok hstated hmem
    exact ((stateOutputs_eq_ok_iff node.presentOutputs).mp hp).1
  · intro hc
    rw [checkIndices, hc.statedProducers_eq]
    simp [bind, Except.bind, h.consumers_eq, pure, Except.pure]

/-! ### Sources -/

def Sourced (g : Graph) : Prop :=
  ∀ id node a, g.node? id = some node → a ∈ node.presentInputs → g.hasSource a = true

theorem hasSource_iff {a : ArgId} :
    g.hasSource a = true ↔ (∃ id, g.producer? a = some id) ∨ a ∈ g.inputs ∨ a ∈ g.initializers := by
  rw [hasSource, Bool.or_eq_true, Bool.or_eq_true, Option.isSome_iff_exists, isInput_iff,
    isInitializer_iff, or_assoc]

theorem dangling?_eq_none_iff : g.dangling? = none ↔ g.Sourced := by
  simp only [dangling?, List.findSome?_eq_none_iff, mem_liveNodes_iff, Option.map_eq_none_iff,
    List.find?_eq_none, Bool.not_eq_true', Bool.not_eq_false, Sourced]
  constructor
  · intro hnone id node a hnode ha
    exact hnone node ⟨id, hnode⟩ a ha
  · rintro hsourced node ⟨id, hnode⟩ a ha
    exact hsourced id node a hnode ha

theorem checkSources_eq_ok_iff : g.checkSources = .ok () ↔ g.Sourced := by
  rw [← dangling?_eq_none_iff, checkSources]
  cases g.dangling? with
  | none => simp
  | some found =>
    obtain ⟨node, input⟩ := found
    cases harg : g.arg input <;> simp [harg]

/-! ### Types -/

structure Retyped (g g' : Graph) : Prop where
  rest : g' = { g with args := g'.args }
  names : ∀ a, (g'.arg? a).map Arg.name = (g.arg? a).map Arg.name

theorem Retyped.refl (g : Graph) : Retyped g g := ⟨rfl, fun _ => rfl⟩

theorem Retyped.node? {g g' : Graph} (h : Retyped g g') (id : NodeId) :
    g'.node? id = g.node? id := by
  rw [h.rest]
  rfl

theorem Retyped.trans {g₁ g₂ g₃ : Graph} (h : Retyped g₁ g₂) (h' : Retyped g₂ g₃) :
    Retyped g₁ g₃ where
  rest := by rw [h'.rest, h.rest]
  names a := (h'.names a).trans (h.names a)

theorem retyped_putArg {arg arg' : Arg} (hlive : g.arg? arg.id = some arg')
    (hname : arg.name = arg'.name) : Retyped g (g.putArg arg) where
  rest := rfl
  names a := by
    rw [arg?_putArg arg (by simp [hlive])]
    split
    · next heq => rw [heq, hlive, Option.map_some, Option.map_some, hname]
    · rfl

theorem Indexed.constantValue?_succeeds (h : g.Indexed) (a : ArgId) :
    ∃ value, g.constantValue? a = .ok value := by
  rw [constantValue?]
  cases g.initializers[a]? with
  | some tensor => exact ⟨some tensor, rfl⟩
  | none =>
    cases hproducer : g.producer? a with
    | none => exact ⟨none, rfl⟩
    | some id =>
      obtain ⟨node, hnode, -⟩ := h.producer?_eq_some_iff.mp hproducer
      simp only [node_eq_ok_iff.mpr hnode, bind, Except.bind]
      split
      · exact ⟨_, rfl⟩
      · exact ⟨_, rfl⟩

theorem Indexed.reshapeDims?_succeeds (h : g.Indexed) (node : Node) :
    ∃ shape, g.reshapeDims? node = .ok shape := by
  rw [reshapeDims?]
  cases node.input? 1 with
  | none => exact ⟨none, rfl⟩
  | some a =>
    obtain ⟨value, hvalue⟩ := h.constantValue?_succeeds a
    simp only [hvalue, bind, Except.bind]
    cases value with
    | none => exact ⟨none, rfl⟩
    | some tensor =>
      dsimp only
      cases tensor.int64s "shape" with
      | error e => exact ⟨none, rfl⟩
      | ok dims => exact ⟨_, rfl⟩

theorem Indexed.derivedType?_succeeds (h : g.Indexed) (node : Node) (input : TensorType) :
    ∃ derived, g.derivedType? node input = .ok derived := by
  rw [derivedType?]
  obtain ⟨shape, hshape⟩ := h.reshapeDims?_succeeds node
  split
  · exact ⟨_, rfl⟩
  · split
    · exact ⟨_, rfl⟩
    · split
      · simp only [hshape, bind, Except.bind]
        exact ⟨_, rfl⟩
      · exact ⟨_, rfl⟩

theorem Indexed.inferType?_succeeds (h : g.Indexed) {id : NodeId} {node : Node}
    (hnode : g.node? id = some node) :
    ∃ inferred, g.inferType? id = .ok inferred ∧
      ∀ out type, inferred = some (out, type) → out ∈ node.presentOutputs := by
  have hlive : ∀ a, a ∈ node.presentInputs ∨ a ∈ node.presentOutputs →
      ∃ arg, g.arg a = .ok arg := by
    intro a ha
    have hsome : (g.arg? a).isSome :=
      ha.elim (h.reads_live id node a hnode) (h.produces_live id node a hnode)
    obtain ⟨arg, harg⟩ := Option.isSome_iff_exists.mp hsome
    exact ⟨arg, arg_eq_ok_iff.mpr harg⟩
  rw [inferType?, node_eq_ok_iff.mpr hnode]
  simp only [bind, Except.bind]
  cases hout : node.output? 0 with
  | none => exact ⟨none, rfl, by simp⟩
  | some out =>
    have hmem : out ∈ node.presentOutputs := Node.mem_presentOutputs_iff.mpr ⟨0, hout⟩
    obtain ⟨arg, harg⟩ := hlive out (.inr hmem)
    simp only [harg]
    split
    · exact ⟨none, rfl, by simp⟩
    · cases hfirst : node.input? 0 with
      | none => exact ⟨none, rfl, by simp⟩
      | some first =>
        obtain ⟨input, hinput⟩ := hlive first (.inl (Node.mem_presentInputs_iff.mpr ⟨0, hfirst⟩))
        obtain ⟨derived, hderived⟩ := h.derivedType?_succeeds node input.type
        simp only [hinput, hderived]
        cases derived with
        | none => exact ⟨none, rfl, by simp⟩
        | some type =>
          refine ⟨_, rfl, ?_⟩
          intro out' type' heq
          split at heq
          · cases heq
          · cases heq
            exact hmem

theorem Indexed.inferAll_succeeds (h : g.Indexed) {order : List NodeId}
    (hlive : ∀ id ∈ order, id ∈ g.nodeIds) : ∃ g', g.inferAll order = .ok g' ∧ Retyped g g' := by
  suffices hrun : ∃ g', g.inferAll order = .ok g' ∧ g'.Indexed ∧ Retyped g g' by
    obtain ⟨g', hg', -, hretyped⟩ := hrun
    exact ⟨g', hg', hretyped⟩
  rw [inferAll]
  apply foldlM_succeeds (P := fun _ s => s.Indexed ∧ Retyped g s) order _ g ⟨h, .refl g⟩
  rintro done id rest s heq ⟨hs, hretyped⟩
  obtain ⟨node, hnode⟩ := h.mem_nodeIds.mp (hlive id (by rw [heq]; simp))
  rw [← hretyped.node?] at hnode
  obtain ⟨inferred, hinferred, hout⟩ := hs.inferType?_succeeds hnode
  rw [hinferred, ok_bind]
  cases inferred with
  | none => exact ⟨s, rfl, hs, hretyped⟩
  | some inferred =>
    obtain ⟨out, type⟩ := inferred
    have hsome := hs.produces_live id node out hnode (hout out type rfl)
    obtain ⟨arg, harg⟩ := Option.isSome_iff_exists.mp hsome
    refine ⟨s.putArg ⟨out, arg.name, type⟩, ?_, ?_, ?_⟩
    · change s.setArgType out type = _
      rw [setArgType, arg_eq_ok_iff.mpr harg]
      rfl
    · exact hs.putArg harg rfl
    · exact hretyped.trans (retyped_putArg harg rfl)

/-! ### All checks -/

theorem Indexed.check_eq_ok_iff (h : g.Indexed) {order : List NodeId} :
    g.check = .ok order ↔ g.Consistent ∧ g.Sourced ∧ g.topologicalOrder = .ok order := by
  rw [← h.checkIndices_eq_ok_iff, ← checkSources_eq_ok_iff]
  simp only [check, bind_eq_ok_iff, ofFault_eq_ok_iff, Unique.exists_iff]

theorem Indexed.resolve_succeeds_iff (h : g.Indexed) :
    (∃ g', resolve g = .ok () g') ↔ g.Consistent ∧ g.Sourced ∧ g.Acyclic := by
  constructor
  · rintro ⟨g', hrun⟩
    rw [resolve] at hrun
    split at hrun
    · cases hrun
    · next order hcheck =>
      obtain ⟨hc, hsourced, horder⟩ := h.check_eq_ok_iff.mp hcheck
      exact ⟨hc, hsourced, hc.acyclic_of_topologicalOrder horder⟩
  · rintro ⟨hc, hsourced, hacyclic⟩
    obtain ⟨order, horder⟩ := hc.topologicalOrder_succeeds hacyclic
    have hmem := (hc.topologicalOrder_spec horder).2.1
    obtain ⟨g', hinfer, -⟩ := h.inferAll_succeeds fun id => (hmem id).mp
    refine ⟨g', ?_⟩
    rw [resolve, h.check_eq_ok_iff.mpr ⟨hc, hsourced, horder⟩]
    simp only [hinfer]

theorem Indexed.retyped_of_resolve (h : g.Indexed) {g' : Graph} (hrun : resolve g = .ok () g') :
    g'.Indexed ∧ Retyped g g' := by
  have hevolves : Evolves g g' := evolves_resolve h (by rw [settle, hrun])
  refine ⟨hevolves.indexed, ?_⟩
  unfold resolve at hrun
  split at hrun
  · cases hrun
  · next order hcheck =>
    obtain ⟨hc, -, horder⟩ := h.check_eq_ok_iff.mp hcheck
    have hmem := (hc.topologicalOrder_spec horder).2.1
    obtain ⟨g₁, hinfer, hretyped⟩ := h.inferAll_succeeds fun id => (hmem id).mp
    rw [hinfer] at hrun
    cases hrun
    exact hretyped

theorem Retyped.consistent {g' : Graph} (hr : Retyped g g') (h' : g'.Indexed)
    (hc : g.Consistent) : g'.Consistent := by
  refine ⟨h', ?_⟩
  intro id node hnode
  rw [hr.node?] at hnode
  exact hc.outputs_nodup id node hnode

theorem Retyped.sourced {g' : Graph} (hr : Retyped g g') (hsourced : g.Sourced) : g'.Sourced := by
  rw [hr.rest]
  exact hsourced

theorem Retyped.acyclic {g' : Graph} (hr : Retyped g g') (hacyclic : g.Acyclic) : g'.Acyclic := by
  rw [hr.rest]
  exact hacyclic

theorem resolve_eq_error {g' : Graph} {failure : Failure GraphError}
    (hrun : resolve g = .error failure g') : g' = g := by
  unfold resolve at hrun
  split at hrun
  · cases hrun
    rfl
  · split at hrun
    · cases hrun
      rfl
    · cases hrun

end Graph

end OpGraph
