import OpGraph.Proofs.Pass.Meaning
import OpGraph.Proofs.Pass.Returns
import OpGraph.Proofs.Pass.Termination
import OpGraph.Proofs.Pass.Verdict
import OpGraph.Proofs.Pattern.Locality

/-!
A pass that has run finds nothing to do after the garbage is collected. The last scan declined every
match on the graph it left, dead nodes and unused constants included. What is left of that graph has
no other matches, and each of them is declined for the reason it was declined for.
-/

namespace OpGraph

/-! ### Firings keep the graph consistent -/

namespace Graph

variable {g g' : Graph} {root : NodeId} {old : ArgId} {args : List ArgId}

theorem Consistent.of_bypass_self (hc : g.Consistent)
    (hrun : g.bypass root old old = .ok (true, g')) : g'.Consistent := by
  rw [bypass] at hrun
  split at hrun
  · cases hrun
  · simp only [bind_eq_ok_iff, pure_eq_ok_iff, Prod.mk.injEq, true_and] at hrun
    obtain ⟨g₃, hreplace, ⟨node, g₄⟩, hremove, rfl⟩ := hrun
    obtain ⟨-, -, ⟨-, rfl⟩ | ⟨hne, -⟩⟩ := replaceAllUses_eq_ok hc.toIndexed hreplace
    · obtain ⟨hnode, hid, rfl⟩ := removeNode_eq_ok hc.toIndexed hremove
      refine ⟨hc.dropNode (hid ▸ hnode), ?_⟩
      intro id node' hnode'
      rw [node?_dropNode] at hnode'
      split at hnode'
      · cases hnode'
      · exact hc.outputs_nodup id node' hnode'
    · exact absurd rfl hne

theorem Rewrites.consistent (hc : g.Consistent) (hproduced : g.producer? old = some root)
    (hrewrites : g.Rewrites root old args g') : g'.Consistent := by
  by_cases hself : old ∈ args
  · cases hrewrites with
    | bypass survivor hargs hrun =>
      rw [hargs, List.mem_singleton] at hself
      subst hself
      exact hc.of_bypass_self hrun
    | supplant draft hinputs houtputs hrun =>
      obtain ⟨name, hrewired⟩ := supplant_eq_some hc.toIndexed hproduced houtputs hrun
      exact hrewired.consistent ⟨arg?_nextArg, node?_nextNode, rfl⟩ hc
    | initializer name tensor log new g₂ g₃ removed _ hdeclare hreplace hremove =>
      obtain ⟨rfl, hrewired⟩ :=
        rewired_of_initializer hc.toIndexed hproduced hdeclare hreplace hremove
      exact hrewired.consistent arg?_nextArg hc
  · obtain ⟨new, supply, hrewired, hfresh, -⟩ := hrewrites.rewired hc.toIndexed hproduced hself
    exact hrewired.consistent hfresh hc

end Graph

/-! ### Chains -/

namespace RuleChain

variable {σ : Type}

theorem add_budget {chain chain' : RuleChain σ} {rule : Rule σ} (hrun : chain.add rule = .ok chain')
    (budget : Nat) : { chain with budget }.add rule = .ok { chain' with budget } ∧
      chain'.mode = chain.mode ∧ chain'.order = chain.order := by
  rw [add, bind_eq_ok_iff] at hrun
  obtain ⟨keys, hkeys, hrun⟩ := hrun
  rw [add, hkeys]
  cases keys with
  | none =>
    cases hrun
    exact ⟨rfl, rfl, rfl⟩
  | some keys =>
    cases hrun
    exact ⟨rfl, rfl, rfl⟩

theorem ofRules_budget {name : String} {mode : ScanMode} {order : ScanOrder} {budget : Nat}
    {rules : List (Rule σ)} {chain : RuleChain σ}
    (hrun : ofRules name mode order budget rules = .ok chain) (budget' : Nat) :
    ofRules name mode order budget' rules = .ok { chain with budget := budget' } ∧
      chain.mode = mode ∧ chain.order = order := by
  have hfold : ∀ start : RuleChain σ, rules.foldlM add start = .ok chain →
      rules.foldlM add { start with budget := budget' } = .ok { chain with budget := budget' } ∧
        chain.mode = start.mode ∧ chain.order = start.order := by
    clear hrun
    induction rules with
    | nil =>
      intro start hrun
      cases hrun
      exact ⟨rfl, rfl, rfl⟩
    | cons rule rules ih =>
      intro start hrun
      rw [List.foldlM_cons, bind_eq_ok_iff] at hrun
      obtain ⟨next, hadd, hrun⟩ := hrun
      obtain ⟨hadd', hmode, horder⟩ := add_budget hadd budget'
      obtain ⟨hrest, hmode', horder'⟩ := ih next hrun
      rw [List.foldlM_cons, hadd', ok_bind]
      exact ⟨hrest, hmode'.trans hmode, horder'.trans horder⟩
  exact hfold _ hrun

theorem declines_of_apply {chain : RuleChain σ} (hmode : chain.mode = .fixedPoint)
    (hrules : ∀ node, ∀ rule ∈ chain.candidates node, rule.Quiet ∧ rule.Steady)
    (hkeeps : ∀ node, ∀ rule ∈ chain.candidates node, ∀ g g' : Graph, g.Consistent →
      rule.Fires g g' → g'.Consistent) {g g' : Graph} (hc : g.Consistent) {ctx ctx' : σ}
    {stats : RunStats} (hrun : chain.apply g ctx = .ok (stats, g', ctx')) :
    g'.Consistent ∧ g'.Acyclic ∧ ∀ id node, g'.node? id = some node →
      ∀ rule ∈ chain.candidates node, rule.Declines g' id := by
  obtain ⟨firings, last, outcome, hperforms, hends, happly⟩ :=
    Engine.apply_ends (e := chain.engine) hmode g ctx
  have houtcome := happly.symm.trans hrun
  have hlast : last.graph.Consistent := by
    refine hperforms.keeps (P := Graph.Consistent)
      (fun node rule hrule => (hrules node rule hrule).1) ?_ hc
    exact fun g g' _ hg _ node rule hrule => hkeeps node rule hrule g g' hg
  cases hends with
  | budget _ _ => cases houtcome
  | fault _ _ => cases houtcome
  | rest _ hscan =>
    cases houtcome
    obtain ⟨hgraph, hdeclines⟩ := Engine.declines_of_freshScan hmode hrules hlast.toIndexed hscan
    obtain ⟨order, -, horder, -⟩ := Engine.freshScan_eq_ok hscan
    rw [hgraph]
    exact ⟨hlast, hlast.acyclic_of_orderOrFault horder, hdeclines⟩

theorem apply_of_declines {chain : RuleChain σ} (hmode : chain.mode = .fixedPoint) {g : Graph}
    (hc : g.Consistent) (hacyclic : g.Acyclic) (hdeclines : ∀ id node, g.node? id = some node →
      ∀ rule ∈ chain.candidates node, rule.Declines g id) (ctx : σ) :
    ∃ ctx', chain.apply g ctx = .ok (⟨1, 0, ∅⟩, g, ctx') := by
  obtain ⟨order, horder⟩ := orderOrFault_succeeds hc hacyclic
  have hids : ∃ ids, chain.order.nodes g = .ok ids := by
    rw [ScanOrder.nodes, horder]
    exact ⟨_, rfl⟩
  obtain ⟨ids, hids⟩ := hids
  exact Engine.apply_of_declines (e := chain.engine) hmode hids hdeclines ctx

end RuleChain

/-! ### Verdicts -/

theorem Graph.Pruned.sameView {g g' : Graph} (h : g.Indexed) (hpruned : g.Pruned g') {m : Match}
    (hm : m.Within g') : m.SameView g g' := by
  have htouches : ∀ {name a}, m.Offers g name a → g'.Touches a := by
    rintro name a (ha | ⟨id, node, hid, hnode, ha⟩)
    · exact hm.arg ha
    · obtain ⟨node', hnode'⟩ := hm.node hid
      cases hnode.symm.trans (hpruned.nodes id node' hnode')
      exact ⟨id, node, hnode', .inr (Node.mem_presentOutputs_iff.mpr ⟨0, ha⟩)⟩
  constructor
  · exact hpruned.isOutput_eq
  · intro name id hid
    obtain ⟨node, hnode⟩ := hm.node hid
    exact hpruned.node_eq hnode
  · exact fun ha => hpruned.arg_eq (htouches ha)
  · exact fun ha => hpruned.producer?_eq h (htouches ha)
  · exact fun ha => (hpruned.alikeFrom h).constantValue?_eq (htouches ha)

namespace RuleSpec

variable {spec : RuleSpec} {pattern : Pattern}

theorem steady_toRule (hlocal : RulePass.Local spec.act) : (spec.toRule pattern).Steady := by
  intro m g ctx g' ctx' hrun other
  obtain ⟨-, hnone⟩ := hlocal ctx.pass other.pass m g g (.refl m g) g
    ((action_eq_false_iff hlocal).mp hrun).1
  exact ⟨g, other, (action_eq_false_iff hlocal).mpr ⟨hnone, rfl, rfl⟩⟩

theorem declines_of_pruned (hlocal : RulePass.Local spec.act) {g g' : Graph} (h : g.Indexed)
    (hpruned : g.Pruned g') {id : NodeId} {node : Node} (hnode : g'.node? id = some node)
    (hdeclines : (spec.toRule pattern).Declines g id) : (spec.toRule pattern).Declines g' id := by
  intro ctx
  obtain ⟨ctx', hrun⟩ := hdeclines ctx
  obtain ⟨hmatch, hwithin⟩ := Pattern.matchNode_of_pruned h hpruned pattern hnode
  rw [Rule.tryApply, bind_eq_ok_iff] at hrun
  obtain ⟨found, hfound, hrun⟩ := hrun
  refine ⟨ctx, ?_⟩
  rw [Rule.tryApply, show (spec.toRule pattern).pattern.matchNode g' id = .ok found from
    hmatch.trans hfound, ok_bind]
  cases found with
  | none => rfl
  | some m =>
    have hview := hpruned.sameView h (hwithin m hfound)
    obtain ⟨-, hnone⟩ := hlocal ctx.pass ctx.pass m g g' hview g
      ((action_eq_false_iff hlocal).mp hrun).1
    exact (action_eq_false_iff hlocal).mpr ⟨hnone, rfl, rfl⟩

end RuleSpec

namespace RulePass

variable {p : RulePass} {store : Store} {w w' : Workspace}

theorem exists_spec_of_compile {rules : List (Rule PassContext)}
    (hrun : p.compile store w = .ok rules w') :
    ∀ rule ∈ rules, ∃ spec ∈ p.rules, ∃ pattern, rule = spec.toRule pattern := by
  have hreturns : (p.compile store).Returns w
      (fun rules w' => (True ∧ w'.graph = w.graph) ∧ ∀ rule ∈ rules, ∃ spec ∈ p.rules, ∃ pattern,
        True ∧ rule = spec.toRule pattern)
      (fun e w' => (True ∧ w'.graph = w.graph) ∧ e = .artifact) :=
    returns_compile (C := fun _ _ => True) (fun _ _ _ _ _ _ => PassM.returns_fetch.mono
      (fun _ _ _ => ⟨trivial, trivial⟩) fun _ _ _ => trivial) trivial
  intro rule hrule
  obtain ⟨spec, hspec, pattern, -, heq⟩ := (hreturns.ok rules w' hrun).2 rule hrule
  exact ⟨spec, hspec, pattern, heq⟩

theorem consistent_of_fires {spec : RuleSpec} (hacts : spec.Acts) {pattern : Pattern} {g g' : Graph}
    (hc : g.Consistent) (hfires : (spec.toRule pattern).Fires g g') : g'.Consistent := by
  obtain ⟨_, m, pass, counter, -, hact⟩ := RuleSpec.exists_deed_of_fires hfires
  obtain ⟨root, names, hacts, -⟩ := hacts
  obtain ⟨id, node, old, args, -, hnode, hold, -, hrewrites⟩ := hacts pass m g counter g' hact
  have hproduced : g.producer? old = some id :=
    hc.producer?_eq_some_iff.mpr ⟨node, hnode, Node.mem_presentOutputs_iff.mpr ⟨0, hold⟩⟩
  exact hrewrites.consistent hc hproduced

/--
A pass has nothing left to do when it returns, and this stays so when the garbage is collected: run
again, it reports no change and leaves the workspace as it is. The same holds for any other
workspace with that graph that hands out the rules of the first run.
-/
theorem idle_after_collect (b : Builtin) (hb : b.pass = .rules p) (hc : w.graph.Consistent)
    {budget : Nat} {report : PassReport} (hrun : p.run store budget w = .ok report w') :
    ∃ removed g, w'.graph.collect = .ok (removed, g) ∧
      (∀ store' budget', ∃ report', p.run store' budget' { w' with graph := g } =
        .ok report' { w' with graph := g } ∧ report'.changes = 0) ∧
      ∀ store' budget' v v₁ w₁ rules, v.graph = g → p.compile store w = .ok rules w₁ →
        p.compile store' v = .ok rules v₁ →
        ∃ report', p.run store' budget' v = .ok report' v₁ ∧ report'.changes = 0 := by
  obtain ⟨rules, w₁, chain, stats, g₁, ctx, hcompile, hchain, happly, rfl, -⟩ :=
    run_eq_ok_iff.mp hrun
  have hspecs := exists_spec_of_compile hcompile
  have hwithin := RuleChain.within_ofRules hchain
  have hlocal := local_of_builtin b hb
  have hmode : chain.mode = .fixedPoint := by
    rw [(RuleChain.ofRules_budget hchain 0).2.1, fixedPoint_of_builtin b hb]
  obtain ⟨hc₁, hacyclic, hdeclines⟩ : g₁.Consistent ∧ g₁.Acyclic ∧ ∀ id node,
      g₁.node? id = some node → ∀ rule ∈ chain.candidates node, rule.Declines g₁ id := by
    rw [graph_of_compile hcompile] at happly
    refine RuleChain.declines_of_apply hmode ?_ ?_ hc happly
    · intro node rule hrule
      obtain ⟨spec, hspec, pattern, rfl⟩ := hspecs rule (hwithin node rule hrule)
      exact ⟨RuleSpec.quiet_toRule (hlocal spec hspec), RuleSpec.steady_toRule (hlocal spec hspec)⟩
    · intro node rule hrule g g' hg hfires
      obtain ⟨spec, hspec, pattern, rfl⟩ := hspecs rule (hwithin node rule hrule)
      exact consistent_of_fires (RuleSpec.acts_of_builtin b hb spec hspec) hg hfires
  obtain ⟨removed, g, hcollect, hpruned⟩ := Graph.pruned_collect hc₁.toIndexed
  -- Every node that is left was declined by the same candidates.
  have hidle : ∀ id node, g.node? id = some node →
      ∀ rule ∈ chain.candidates node, rule.Declines g id := by
    intro id node hnode rule hrule
    have hdeclined := hdeclines id node (hpruned.nodes id node hnode) rule hrule
    obtain ⟨spec, hspec, pattern, rfl⟩ := hspecs rule (hwithin node rule hrule)
    exact RuleSpec.declines_of_pruned (hlocal spec hspec) hc₁.toIndexed hpruned hnode hdeclined
  have hagain : ∀ store' budget' v v₁, v.graph = g → p.compile store' v = .ok rules v₁ →
      ∃ report', p.run store' budget' v = .ok report' v₁ ∧ report'.changes = 0 := by
    intro store' budget' v v₁ hv hcompile'
    have hmode' : { chain with budget := budget' }.mode = .fixedPoint := hmode
    obtain ⟨ctx', hrest⟩ := RuleChain.apply_of_declines hmode' (hpruned.consistent hc₁)
      (hpruned.acyclic hc₁.toIndexed hacyclic) hidle ⟨p.name, ∅⟩
    have hsame : v₁.graph = g := (graph_of_compile hcompile').trans hv
    rw [← hsame] at hrest
    exact ⟨_, run_eq_ok_iff.mpr ⟨rules, v₁, _, _, v₁.graph, ctx', hcompile',
      (RuleChain.ofRules_budget hchain budget').1, hrest, rfl, rfl⟩, rfl⟩
  refine ⟨removed, g, hcollect, ?_, ?_⟩
  · intro store' budget'
    exact hagain store' budget' _ _ rfl ((compile_again hcompile).2 store' _ fun _ _ => id)
  · intro store' budget' v v₁ w₂ rules' hv hcompile₂ hcompile'
    cases hcompile.symm.trans hcompile₂
    exact hagain store' budget' v v₁ hv hcompile'

/-- Of a converted pair one dead node and two constants are left until the garbage is collected. -/
theorem idle_after_collect_pair :
    ∃ g report w' left report', (Graph.empty "pair").runAll pairEdits = .ok g ∧ g.Consistent ∧
      qdqToFix.run .memory 5 ⟨g, .empty, .empty⟩ = .ok report w' ∧ report.changes = 1 ∧
      w'.graph.nodeIds.length = 3 ∧ w'.graph.initializers.size = 2 ∧
      w'.graph.collect = .ok (1, left) ∧ left.nodeIds.length = 2 ∧ left.initializers.size = 0 ∧
      qdqToFix.run .memory 0 { w' with graph := left } = .ok report' { w' with graph := left } ∧
      report'.changes = 0 := by
  have hrun : (fun g : Graph => (g.check,
      match qdqToFix.run .memory 5 ⟨g, .empty, .empty⟩ with
      | .ok report w => some (report.changes, w.graph.nodeIds.length, w.graph.initializers.size,
        (fun outcome => (outcome.1, outcome.2.nodeIds.length, outcome.2.initializers.size)) <$>
          w.graph.collect)
      | .error .. => none)) <$> (Graph.empty "pair").runAll pairEdits =
      .ok (.ok [⟨0⟩, ⟨1⟩, ⟨2⟩], some (1, 3, 2, .ok (1, 2, 0))) := rfl
  rw [map_eq_ok_iff] at hrun
  obtain ⟨g, hg, hfacts⟩ := hrun
  simp only [Prod.mk.injEq] at hfacts
  obtain ⟨hcheck, hpass⟩ := hfacts
  split at hpass
  · next report w' hpassRun =>
    simp only [Option.some.injEq, Prod.mk.injEq, map_eq_ok_iff] at hpass
    obtain ⟨hchanges, hnodes, hinits, ⟨_, left⟩, hleft, rfl, hleftNodes, hleftInits⟩ := hpass
    have hindexed := (Graph.Reachable.runAll (.empty "pair") hg).indexed
    have hc := (hindexed.check_eq_ok_iff.mp hcheck).1
    obtain ⟨removed, left', hleft', hagain, -⟩ :=
      idle_after_collect .qdqToFix rfl (w := ⟨g, .empty, .empty⟩) hc hpassRun
    cases hleft.symm.trans hleft'
    obtain ⟨report', hrest, hidle⟩ := hagain .memory 0
    exact ⟨g, report, w', left, report', hg, hc, hpassRun, hchanges, hnodes, hinits, hleft,
      hleftNodes, hleftInits, hrest, hidle⟩
  · cases hpass

end RulePass

end OpGraph
