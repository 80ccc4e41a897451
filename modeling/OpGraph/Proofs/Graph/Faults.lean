import OpGraph.Proofs.Graph.Order
import OpGraph.Proofs.Graph.Reachable
import OpGraph.Proofs.Graph.Validation

/-!
How validation can fail. Whatever edits a graph has seen, its indices agree with its nodes and every
handle in them is live, so validation answers. The one thing that no edit rules out is a node that
gives an arg in two of its output slots.
-/

namespace OpGraph

namespace Graph

variable {g : Graph}

theorem Indexed.consistent_iff (h : g.Indexed) :
    g.Consistent ↔ ∀ node ∈ g.liveNodes, node.presentOutputs.Nodup := by
  constructor
  · intro hc node hnode
    exact hc.outputs_nodup node.id node (h.mem_liveNodes.mp hnode)
  · intro hnodup
    refine ⟨h, fun id node hnode => ?_⟩
    exact hnodup node (mem_liveNodes_iff.mpr ⟨id, hnode⟩)

theorem Indexed.not_consistent_iff (h : g.Indexed) :
    ¬ g.Consistent ↔ ∃ node ∈ g.liveNodes, ¬ node.presentOutputs.Nodup := by
  rw [h.consistent_iff]
  push Not
  rfl

/-! ### Indices -/

def StatesOf (g : Graph) (producers : Std.ExtTreeMap ArgId NodeId) : Prop :=
  ∀ (a : ArgId) id, producers[a]? = some id → g.producers[a]? = some id

def TwiceBy (g : Graph) (f : Fault) : Prop :=
  ∃ node ∈ g.liveNodes, ∃ a arg, a ∈ node.presentOutputs ∧ g.arg? a = some arg ∧
    f = .producedTwice arg.name node.name node.name

section

variable (h : g.Indexed) {node : Node} (hnode : node ∈ g.liveNodes)
  {producers : Std.ExtTreeMap ArgId NodeId} (hstates : g.StatesOf producers)
  {a : ArgId} (ha : a ∈ node.presentOutputs)

include h hnode hstates ha

theorem statesOf_stateOutput {producers' : Std.ExtTreeMap ArgId NodeId}
    (hrun : g.stateOutput node producers a = .ok producers') : g.StatesOf producers' := by
  rw [stateOutput] at hrun
  split at hrun
  · simp only [bind_eq_ok_iff] at hrun
    obtain ⟨_, -, _, -, hrun⟩ := hrun
    cases hrun
  · cases hrun
    intro b id hb
    rw [Std.ExtTreeMap.getElem?_insert] at hb
    split at hb
    · next heq =>
      obtain rfl := Std.compare_eq_iff_eq.mp heq
      cases hb
      exact (h.producers_iff a node.id).mpr ⟨node, h.mem_liveNodes.mp hnode, ha⟩
    · exact hstates b id hb

theorem twiceBy_of_stateOutput : FailsAs g.TwiceBy (g.stateOutput node producers a) := by
  rw [stateOutput]
  split
  · next other hother =>
    have hlive := h.mem_liveNodes.mp hnode
    have hsame : other = node.id := by
      have hindex := (h.producers_iff a node.id).mpr ⟨node, hlive, ha⟩
      exact Option.some.inj ((hstates a other hother).symm.trans hindex)
    obtain ⟨arg, harg⟩ := Option.isSome_iff_exists.mp (h.produces_live node.id node a hlive ha)
    rw [arg_eq_ok_iff.mpr harg, ok_bind, hsame, node_eq_ok_iff.mpr hlive, ok_bind]
    intro f hf
    cases hf
    exact ⟨node, hnode, a, arg, ha, harg, rfl⟩
  · exact failsAs_ok

end

theorem Indexed.twiceBy_of_checkIndices (h : g.Indexed) : FailsAs g.TwiceBy g.checkIndices := by
  have hstated : FailsAs g.TwiceBy g.statedProducers := by
    refine failsAs_foldlM_of_keeps (Q := g.StatesOf) g.liveNodes ?_ ?_
      (fun a id ha => by simp at ha)
    · intro node hnode producers producers' hstates hrun
      refine foldlM_keeps (P := g.StatesOf) node.presentOutputs ?_ _ _ hstates hrun
      exact fun a ha _ _ hs hstep => statesOf_stateOutput h hnode hs ha hstep
    · intro node hnode producers hstates
      refine failsAs_foldlM_of_keeps (Q := g.StatesOf) node.presentOutputs ?_ ?_ hstates
      · exact fun a ha _ _ hs hstep => statesOf_stateOutput h hnode hs ha hstep
      · exact fun a ha _ hs => twiceBy_of_stateOutput h hnode hs ha
  refine failsAs_bind hstated fun producers hproducers => failsAs_of_succeeds ⟨(), ?_⟩
  -- Once the producers could be stated, no node gives an arg twice.
  have hc : g.Consistent := by
    refine ⟨h, fun id node hnode => ?_⟩
    obtain ⟨_, _, hstep⟩ := foldlM_step_ok hproducers (mem_liveNodes_iff.mpr ⟨id, hnode⟩)
    exact ((stateOutputs_eq_ok_iff node.presentOutputs).mp hstep).1
  cases hproducers.symm.trans hc.statedProducers_eq
  simp [h.consumers_eq, pure, Except.pure]

/-! ### Sources and order -/

def Answers {ε α : Type} (x : Except (Failure ε) α) : Prop :=
  FailsAs (fun failure => ∃ e, failure = .error e) x

theorem Indexed.checkSources_answers (h : g.Indexed) : Answers g.checkSources := by
  rw [checkSources]
  split
  · exact failsAs_ok
  · next node input hdangling =>
    obtain ⟨reader, hreader, hfound⟩ := List.exists_of_findSome?_eq_some hdangling
    obtain ⟨a, hread, heq⟩ := Option.map_eq_some_iff.mp hfound
    cases heq
    have hlive := h.reads_live node.id node input (h.mem_liveNodes.mp hreader)
      (List.mem_of_find?_eq_some hread)
    obtain ⟨arg, harg⟩ := Option.isSome_iff_exists.mp hlive
    rw [arg_eq_ok_iff.mpr harg]
    intro failure hfailure
    cases hfailure
    exact ⟨_, rfl⟩

theorem Consistent.topologicalOrder_answers (h : g.Consistent) : Answers g.topologicalOrder := by
  obtain ⟨s, hs, -, hwaiting⟩ := h.kahn_spec
  rw [topologicalOrder, hs, Failure.ofFault, ok_bind]
  split
  · exact failsAs_ok
  · obtain ⟨names, hnames⟩ : ∃ names, s.waiting.keys.mapM (fun id => Node.name <$> g.node id) =
        .ok names := by
      apply mapM_succeeds
      intro id hid
      obtain ⟨node, hnode⟩ :=
        h.mem_nodeIds.mp ((hwaiting id).mp (Std.ExtTreeMap.mem_keys.mp hid)).1
      rw [node_eq_ok_iff.mpr hnode]
      exact ⟨node.name, rfl⟩
    rw [hnames]
    intro failure hfailure
    cases hfailure
    exact ⟨_, rfl⟩

theorem Indexed.twiceBy_of_resolve (h : g.Indexed) {f : Fault} {g' : Graph}
    (hrun : resolve g = .error (.fault f) g') : g.TwiceBy f ∧ ¬ g.Consistent := by
  by_cases hc : g.Consistent
  · have hanswers : Answers g.check := by
      rw [check, h.checkIndices_eq_ok_iff.mpr hc, Failure.ofFault, ok_bind]
      exact failsAs_bind h.checkSources_answers fun _ _ => hc.topologicalOrder_answers
    rw [resolve] at hrun
    split at hrun
    · next failure hcheck =>
      cases hrun
      obtain ⟨e, he⟩ := hanswers _ hcheck
      cases he
    · next order hcheck =>
      obtain ⟨-, -, horder⟩ := h.check_eq_ok_iff.mp hcheck
      have hmem := (hc.topologicalOrder_spec horder).2.1
      obtain ⟨typed, htyped, -⟩ := h.inferAll_succeeds fun id => (hmem id).mp
      rw [htyped] at hrun
      cases hrun
  · refine ⟨?_, hc⟩
    cases hindices : g.checkIndices with
    | ok u => exact absurd (h.checkIndices_eq_ok_iff.mp hindices) hc
    | error f' =>
      have hcheck : g.check = .error (.fault f') := by
        rw [check, hindices]
        rfl
      rw [resolve, hcheck] at hrun
      cases hrun
      exact h.twiceBy_of_checkIndices f hindices

theorem Indexed.resolve_faults (h : g.Indexed) (hc : ¬ g.Consistent) :
    ∃ f, resolve g = .error (.fault f) g := by
  cases hindices : g.checkIndices with
  | ok u => exact absurd (h.checkIndices_eq_ok_iff.mp hindices) hc
  | error f =>
    refine ⟨f, ?_⟩
    rw [resolve, check, hindices]
    rfl

/--
Validation of a graph answers, and so does the search for an order, unless a node gives an arg in
two output slots. Then the indices are still in step: the fault of validation names that one node
twice.
-/
theorem faults_only_for_twin_outputs {g : Graph} (h : Reachable g) :
    ((∃ f g', resolve g = .error (.fault f) g') ↔
      ∃ node ∈ g.liveNodes, ¬ node.presentOutputs.Nodup) ∧
    (∀ f g', resolve g = .error (.fault f) g' → g.TwiceBy f) ∧
    ∀ f, g.topologicalOrder = .error (.fault f) →
      ∃ node ∈ g.liveNodes, ¬ node.presentOutputs.Nodup := by
  have hindexed := h.indexed
  rw [← hindexed.not_consistent_iff]
  refine ⟨⟨?_, ?_⟩, ?_, ?_⟩
  · rintro ⟨f, g', hrun⟩
    exact (hindexed.twiceBy_of_resolve hrun).2
  · intro hc
    obtain ⟨f, hrun⟩ := hindexed.resolve_faults hc
    exact ⟨f, g, hrun⟩
  · exact fun f g' hrun => (hindexed.twiceBy_of_resolve hrun).1
  · intro f hrun hc
    obtain ⟨e, he⟩ := hc.topologicalOrder_answers _ hrun
    cases he

def loopEdits : List Mutation :=
  [.addInput "x" ⟨.float32, none⟩, .newArg "a" ⟨.float32, none⟩, .newArg "b" ⟨.float32, none⟩,
    .addNode ⟨"first", .standard "Add", [some ⟨0⟩, some ⟨0⟩], [some ⟨1⟩], ∅⟩,
    .addNode ⟨"second", .standard "Relu", [some ⟨1⟩], [none, some ⟨2⟩], ∅⟩,
    .setInput ⟨0⟩ 1 (some ⟨2⟩)]

theorem faults_only_for_twin_outputs_loop :
    ∃ g : Graph, (Graph.empty "loop").runAll loopEdits = .ok g ∧ Reachable g ∧
      g.topologicalOrder = .error (.error (.cycle ["first", "second"])) ∧
      (∀ f g', resolve g ≠ .error (.fault f) g') ∧ ∀ f, g.topologicalOrder ≠ .error (.fault f) := by
  have hrun : (do
      let g ← (Graph.empty "loop").runAll loopEdits
      return (decide (∀ node ∈ g.liveNodes, node.presentOutputs.Nodup), g.topologicalOrder)) =
        .ok (true, .error (.error (.cycle ["first", "second"]))) := rfl
  simp only [bind_eq_ok_iff, pure_eq_ok_iff, Prod.mk.injEq, decide_eq_true_eq] at hrun
  obtain ⟨g, hg, hnodup, hcycle⟩ := hrun
  have hreachable : Reachable g := .runAll (.empty "loop") hg
  obtain ⟨hresolve, -, horder⟩ := faults_only_for_twin_outputs hreachable
  have hnone : ¬ ∃ node ∈ g.liveNodes, ¬ node.presentOutputs.Nodup := by
    rintro ⟨node, hnode, htwin⟩
    exact htwin (hnodup node hnode)
  refine ⟨g, hg, hreachable, hcycle, ?_, ?_⟩
  · exact fun f g' hfault => hnone (hresolve.mp ⟨f, g', hfault⟩)
  · exact fun f hfault => hnone (horder f hfault)

def twinEdits : List Mutation :=
  [.addInput "x" ⟨.float32, none⟩, .newArg "a" ⟨.float32, none⟩, .newArg "b" ⟨.float32, none⟩,
    .newArg "c" ⟨.float32, none⟩,
    .addNode ⟨"twin", .standard "Split", [some ⟨0⟩], [some ⟨1⟩, some ⟨1⟩], ∅⟩,
    .addNode ⟨"other", .standard "Relu", [some ⟨0⟩], [some ⟨2⟩], ∅⟩,
    .addNode ⟨"join", .standard "Concat", [some ⟨1⟩, some ⟨1⟩, some ⟨2⟩], [some ⟨3⟩], ∅⟩,
    .addOutput ⟨3⟩]

/-- All of these edits are accepted, but then neither validation nor the order answers. -/
theorem resolve_faults_for_twin_outputs :
    ∃ g : Graph, (Graph.empty "twin").runAll twinEdits = .ok g ∧ Reachable g ∧
      resolve g = .error (.fault (.producedTwice "a" "twin" "twin")) g ∧
      g.topologicalOrder = .error (.fault (.overflow .subtract)) := by
  have hrun : (do
      let g ← (Graph.empty "twin").runAll twinEdits
      return (g.check, g.topologicalOrder)) =
        .ok (.error (.fault (.producedTwice "a" "twin" "twin")),
          .error (.fault (.overflow .subtract))) := rfl
  simp only [bind_eq_ok_iff, pure_eq_ok_iff, Prod.mk.injEq] at hrun
  obtain ⟨g, hg, hcheck, horder⟩ := hrun
  refine ⟨g, hg, .runAll (.empty "twin") hg, ?_, horder⟩
  rw [resolve, hcheck]

end Graph

end OpGraph
