import OpGraph.Proofs.Graph.Reachable
import OpGraph.Proofs.Pass.Cache
import OpGraph.Proofs.Pass.FixPoint
import OpGraph.Proofs.Pass.Neutral
import OpGraph.Proofs.Pass.Reshaping
import OpGraph.Proofs.Pass.Verdict

/-!
Passes keep the meaning of a graph: under every interpretation that satisfies the laws the graph
outputs have the same values before and after.
-/

namespace OpGraph

namespace RulePass

variable {p : RulePass} {store : Store} {w w' : Workspace}

theorem run_eq_ok_iff {budget : Nat} {report : PassReport} :
    p.run store budget w = .ok report w' ↔ ∃ rules w₁ chain stats g ctx,
      p.compile store w = .ok rules w₁ ∧
      RuleChain.ofRules p.name p.mode p.order budget rules = .ok chain ∧
      chain.apply w₁.graph ⟨p.name, ∅⟩ = .ok (stats, g, ctx) ∧ w' = { w₁ with graph := g } ∧
      report = ⟨p.name, stats.scans, stats.changes, stats.perRule.toList.foldl
        (fun counters entry => counters.insert entry.1 entry.2) ctx.counters, 0⟩ := by
  simp only [run, stateful_bind_eq_ok_iff, PassM.orFault_eq_ok_iff]
  constructor
  · rintro ⟨rules, w₁, hcompile, chain, w₂, ⟨hchain, rfl⟩, w₃, w₄, hget, ⟨stats, g, ctx⟩, w₅,
      ⟨happly, rfl⟩, _, w₆, hset, hrun⟩
    cases hget
    cases hset
    cases hrun
    exact ⟨rules, _, chain, stats, g, ctx, hcompile, hchain, happly, rfl, rfl⟩
  · rintro ⟨rules, w₁, chain, stats, g, ctx, hcompile, hchain, happly, rfl, rfl⟩
    exact ⟨rules, w₁, hcompile, chain, w₁, ⟨hchain, rfl⟩, w₁, w₁, rfl, _, w₁, ⟨happly, rfl⟩, (), _,
      rfl, rfl⟩

theorem run_eq_ok {budget : Nat} {report : PassReport}
    (hrun : p.run store budget w = .ok report w') :
    ∃ rules w₁ chain stats ctx, p.compile store w = .ok rules w₁ ∧
      RuleChain.ofRules p.name p.mode p.order budget rules = .ok chain ∧
      chain.apply w.graph ⟨p.name, ∅⟩ = .ok (stats, w'.graph, ctx) := by
  obtain ⟨rules, w₁, chain, stats, g, ctx, hcompile, hchain, happly, rfl, -⟩ :=
    run_eq_ok_iff.mp hrun
  rw [graph_of_compile hcompile] at happly
  exact ⟨rules, w₁, chain, stats, ctx, hcompile, hchain, happly⟩

variable {V : Type} {I : Interpretation V} {ρ : ArgId → V}

theorem means_of_run (hsound : ∀ spec ∈ p.rules, spec.Sound I)
    (hlocal : ∀ spec ∈ p.rules, Local spec.act) (hcache : p.CacheAgrees store w) {budget : Nat}
    {report : PassReport} (hrun : p.run store budget w = .ok report w')
    {inputs : List ArgId} {values : List (Option V)}
    (hmeans : w.graph.Means I ρ ruleKeys inputs values) :
    w'.graph.Means I ρ ruleKeys inputs values ∧ w'.graph.Acyclic := by
  obtain ⟨rules, w₁, chain, stats, ctx, hcompile, hchain, happly⟩ := run_eq_ok hrun
  have hrules := exists_spec_of_ownRules (hcache rules w₁ hcompile)
  have hquiet : ∀ rule ∈ rules, rule.Quiet := by
    intro rule hrule
    obtain ⟨spec, hspec, pattern, -, rfl⟩ := hrules rule hrule
    exact RuleSpec.quiet_toRule (hlocal spec hspec)
  have hstep : ∀ rule ∈ rules, ∀ (g g' : Graph) order, g.Means I ρ ruleKeys inputs values →
      g.orderOrFault = .ok order → rule.Fires g g' → g'.Means I ρ ruleKeys inputs values := by
    intro rule hrule g g' order hg horder hfires
    obtain ⟨spec, hspec, pattern, hpattern, rfl⟩ := hrules rule hrule
    obtain ⟨id, m, pass, counter, hmatch, hact⟩ := RuleSpec.exists_deed_of_fires hfires
    -- A scan starts with an order of the nodes, so the rule sees a graph without cycles.
    have hready : g.Ready ruleKeys :=
      ⟨hg.consistent, hg.sourced, hg.single, hg.consistent.acyclic_of_orderOrFault horder⟩
    have hpreserves :=
      hsound spec hspec pattern hpattern g id m pass counter g' hready hmatch hact
    exact hpreserves.means hg
  obtain ⟨hmeans', order, horder⟩ :=
    RuleChain.apply_keeps (RuleChain.within_ofRules hchain) hquiet hstep hmeans happly
  exact ⟨hmeans', hmeans'.consistent.acyclic_of_orderOrFault horder⟩

def lawfulPasses : List RulePass :=
  [removeIdentity, qdqToFix, fixCleanup, foldFixConstant, mergeTranspose, mergeReshape]

theorem local_of_mem_lawfulPasses (hp : p ∈ lawfulPasses) : ∀ spec ∈ p.rules, Local spec.act := by
  simp only [lawfulPasses, List.mem_cons, List.not_mem_nil, or_false] at hp
  rcases hp with rfl | rfl | rfl | rfl | rfl | rfl
  · exact local_of_builtin .removeIdentity rfl
  · exact local_of_builtin .qdqToFix rfl
  · exact local_of_builtin .fixCleanup rfl
  · exact local_of_builtin .foldFixConstant rfl
  · exact local_of_builtin .mergeTranspose rfl
  · exact local_of_builtin .mergeReshape rfl

theorem sound_of_mem_lawfulPasses (hI : I.Lawful) (hp : p ∈ lawfulPasses) :
    ∀ spec ∈ p.rules, spec.Sound I := by
  simp only [lawfulPasses, List.mem_cons, List.not_mem_nil, or_false] at hp
  rcases hp with rfl | rfl | rfl | rfl | rfl | rfl
  · simpa [removeIdentity] using bypassIdentity_sound hI
  · simpa [qdqToFix] using pairToFix_sound hI
  · simpa [fixCleanup] using
      ⟨foldRoundTrip_sound hI, bypassToInput_sound hI, bypassToInner_sound hI⟩
  · simpa [foldFixConstant] using foldConstant_sound hI
  · simpa [mergeTranspose] using mergeTransposes_sound hI
  · simpa [mergeReshape] using mergeReshapes_sound hI

theorem cacheAgrees_of_fresh (hp : p ∈ lawfulPasses) (g : Graph) :
    p.CacheAgrees .memory ⟨g, .empty, .empty⟩ := by
  have hapart : lawfulPasses.all (fun p =>
      match p.entries with
      | .ok entries => decide (entries.Pairwise PatternCache.Apart)
      | .error _ => false) = true := by decide +kernel
  have hentries := List.all_eq_true.mp hapart p hp
  split at hentries
  · next entries heq =>
    exact cacheAgrees_of_lacks heq (of_decide_eq_true hentries)
      fun entry _ => Workspace.lacks_empty g entry
  · cases hentries

/--
Let the operators satisfy the laws. On a valid graph in which the nodes that rules look at have one
output, a pass that returns leaves a valid graph with the same inputs, and its outputs have one by
one the values that they had, whatever the values of the inputs are.
-/
theorem run_preserves_meaning (hI : I.Lawful) (hp : p ∈ lawfulPasses) (hindexed : w.graph.Indexed)
    (hresolve : ∃ g, Graph.resolve w.graph = .ok () g) (hsingle : w.graph.SingleOutput ruleKeys)
    (hcache : p.CacheAgrees store w) {budget : Nat} {report : PassReport}
    (hrun : p.run store budget w = .ok report w') (ρ : ArgId → V) :
    (∃ g, Graph.resolve w'.graph = .ok () g) ∧ w'.graph.inputs = w.graph.inputs ∧
      (∀ a ∈ w.graph.outputs, w.graph.hasSource a = true → ∃ v, w.graph.Evaluates I ρ a v) ∧
      List.Forall₂ (fun a a' => ∀ v, w.graph.Evaluates I ρ a v ↔ w'.graph.Evaluates I ρ a' v)
        w.graph.outputs w'.graph.outputs := by
  obtain ⟨hc, hsourced, hacyclic⟩ := hindexed.resolve_succeeds_iff.mp hresolve
  have hν : w.graph.Solution I ρ (w.graph.valueOf I ρ) := hc.solution_valueOf hsourced hacyclic
  obtain ⟨hmeans, hacyclic'⟩ := means_of_run (sound_of_mem_lawfulPasses hI hp)
    (local_of_mem_lawfulPasses hp) hcache hrun ⟨hc, hsourced, hsingle, rfl, _, hν, rfl⟩
  obtain ⟨ν', hν', hvalues⟩ := hmeans.solution
  refine ⟨hmeans.consistent.toIndexed.resolve_succeeds_iff.mpr
    ⟨hmeans.consistent, hmeans.sourced, hacyclic'⟩, hmeans.inputs,
    fun a _ ha => hc.exists_evaluates hsourced hacyclic ha, ?_⟩
  have hsame : List.Forall₂ (fun a a' => w.graph.valueOf I ρ a = ν' a') w.graph.outputs
      w'.graph.outputs := by
    rw [← List.forall₂_eq_eq_eq, List.forall₂_map_left_iff, List.forall₂_map_right_iff] at hvalues
    exact hvalues.flip.imp fun _ _ => Eq.symm
  refine hsame.imp fun a a' hvalue v => ?_
  rw [hc.evaluates_iff_solution hsourced hacyclic hν,
    hmeans.consistent.evaluates_iff_solution hmeans.sourced hacyclic' hν', hvalue]

/-- The edits that build a pair at scale `1/2` whose result is an output and is read once more. -/
def pairEdits : List Graph.Mutation :=
  [.addInput "x" ⟨.float32, none⟩, .addInitializer "scale" ⟨[], .float32 [⟨0x3f000000⟩]⟩,
    .addInitializer "zero" ⟨[], .int8 [0]⟩, .newArg "q" ⟨.int8, none⟩,
    .newArg "y" ⟨.float32, none⟩, .newArg "z" ⟨.float32, none⟩,
    .addNode ⟨"quant", .standard "QuantizeLinear", [some ⟨0⟩, some ⟨1⟩, some ⟨2⟩], [some ⟨3⟩], ∅⟩,
    .addNode ⟨"dequant", .standard "DequantizeLinear", [some ⟨3⟩, some ⟨1⟩, some ⟨2⟩],
      [some ⟨4⟩], ∅⟩,
    .addNode ⟨"join", .standard "Concat", [some ⟨4⟩, some ⟨0⟩], [some ⟨5⟩], ∅⟩,
    .addOutput ⟨4⟩, .addOutput ⟨5⟩]

/-- The pair becomes one `fix` node, which takes its place among the graph outputs. -/
theorem run_preserves_meaning_pair :
    ∃ g report w', (Graph.empty "pair").runAll pairEdits = .ok g ∧
      qdqToFix.run .memory 1 ⟨g, .empty, .empty⟩ = .ok report w' ∧ report.changes = 1 ∧
      g.outputs = [⟨4⟩, ⟨5⟩] ∧ w'.graph.outputs = [⟨6⟩, ⟨5⟩] ∧
      List.Forall₂ (fun a a' => ∀ v, g.Evaluates .counting (fun _ => 3) a v ↔
        w'.graph.Evaluates .counting (fun _ => 3) a' v) g.outputs w'.graph.outputs := by
  have hrun : (fun g : Graph =>
      (g.check, g.outputs, g.liveNodes.all fun node => node.outputs.length ≤ 1,
      match qdqToFix.run .memory 1 ⟨g, .empty, .empty⟩ with
      | .ok report w => some (report.changes, w.graph.outputs)
      | .error .. => none)) <$>
      (Graph.empty "pair").runAll pairEdits =
      .ok (.ok [⟨0⟩, ⟨1⟩, ⟨2⟩], [⟨4⟩, ⟨5⟩], true, some (1, [⟨6⟩, ⟨5⟩])) := rfl
  rw [map_eq_ok_iff] at hrun
  obtain ⟨g, hg, hfacts⟩ := hrun
  simp only [Prod.mk.injEq] at hfacts
  obtain ⟨hcheck, houtputs, hslots, hpass⟩ := hfacts
  split at hpass
  · next report w' hpassRun =>
    obtain ⟨hchanges, houtputs'⟩ := Prod.mk.inj (Option.some.inj hpass)
    have hindexed := (Graph.Reachable.runAll (.empty "pair") hg).indexed
    obtain ⟨hc, hsourced, horder⟩ := hindexed.check_eq_ok_iff.mp hcheck
    have hresolve := hindexed.resolve_succeeds_iff.mpr
      ⟨hc, hsourced, hc.acyclic_of_topologicalOrder horder⟩
    have hsingle := Graph.singleOutput_of_all ruleKeys hslots
    have hmem : qdqToFix ∈ lawfulPasses := List.mem_cons_of_mem _ List.mem_cons_self
    obtain ⟨-, -, -, hvalues⟩ := run_preserves_meaning (w := ⟨g, .empty, .empty⟩)
      Interpretation.lawful_counting hmem hindexed hresolve hsingle (cacheAgrees_of_fresh hmem g)
      hpassRun (fun _ => 3)
    exact ⟨g, report, w', hg, hpassRun, hchanges, houtputs, houtputs', hvalues⟩
  · cases hpass

/-! ### A forged pattern -/

/-- A pattern with the fingerprint of `Identity(x)` that matches a node with two outputs. -/
def forgedPattern : Pattern :=
  ⟨#[.wildcard, .node (.standard "Split") [⟨0⟩] [false] [], .wildcard],
    #[some "x", some "identity", some "trfaxhkbblkfcpfizqT275D"], ⟨1⟩⟩

def forgedStorage : Storage :=
  { Storage.empty with
    blobs := Storage.empty.blobs.insert
      (PatternCache.blobPath "remove_identity.bypass_identity" forgedPattern.fingerprint)
      forgedPattern.toBytes }

/-- The edits that build a node with two outputs, of which only the second is read. -/
def splitEdits : List Graph.Mutation :=
  [.addInput "x" ⟨.float32, some [4]⟩, .newArg "a" ⟨.float32, some [2]⟩,
    .newArg "b" ⟨.float32, some [2]⟩, .newArg "y" ⟨.float32, some [2]⟩,
    .addNode ⟨"split", .standard "Split", [some ⟨0⟩], [some ⟨1⟩, some ⟨2⟩], ∅⟩,
    .addNode ⟨"relu", .standard "Relu", [some ⟨2⟩], [some ⟨3⟩], ∅⟩, .addOutput ⟨3⟩]

/-- With the forged pattern the wrong node is bypassed, and the output has no value any more. -/
theorem run_loses_value_forged :
    ∃ g report w', (Graph.empty "split").runAll splitEdits = .ok g ∧ removeIdentity ∈ lawfulPasses ∧
      Interpretation.counting.Lawful ∧ g.Indexed ∧ (∃ g₁, Graph.resolve g = .ok () g₁) ∧
      g.SingleOutput ruleKeys ∧
      removeIdentity.run .memory 5 ⟨g, forgedStorage, .empty⟩ = .ok report w' ∧
      g.outputs = [⟨3⟩] ∧ w'.graph.outputs = [⟨3⟩] ∧
      (∃ v, g.Evaluates .counting (fun _ => 4) ⟨3⟩ v) ∧
      ∀ v, ¬ w'.graph.Evaluates .counting (fun _ => 4) ⟨3⟩ v := by
  have hrun : ∃ g ∈ ((Graph.empty "split").runAll splitEdits).toOption,
      [⟨0⟩, ⟨1⟩] ∈ g.check.toOption ∧ g.outputs = [⟨3⟩] ∧ g.hasSource ⟨3⟩ = true ∧
      (g.liveNodes.all fun node => node.key ∉ ruleKeys) = true ∧
      (match removeIdentity.run .memory 5 ⟨g, forgedStorage, .empty⟩ with
      | .ok _ w => decide (w.graph.outputs = [⟨3⟩] ∧
        (∀ a ∈ [(⟨2⟩ : ArgId), ⟨3⟩], a ∉ w.graph.initializers ∧ a ∉ w.graph.inputs) ∧
        ∀ node ∈ w.graph.liveNodes, node.presentInputs = [⟨2⟩] ∧ node.presentOutputs = [⟨3⟩])
      | .error .. => false) = true := by
    decide +kernel
  obtain ⟨g, hg, hcheck, houtputs, hsource, hkeys, hpass⟩ := hrun
  have hg := eq_ok_of_mem_toOption hg
  split at hpass
  · next report w' hreport =>
    rw [decide_eq_true_eq, List.forall_mem_cons, List.forall_mem_singleton] at hpass
    obtain ⟨houtputs', ⟨⟨hinit, hinput⟩, hinit', hinput'⟩, hnodes⟩ := hpass
    have hindexed := (Graph.Reachable.runAll (.empty "split") hg).indexed
    obtain ⟨hc, hsourced, horder⟩ := hindexed.check_eq_ok_iff.mp (eq_ok_of_mem_toOption hcheck)
    have hacyclic := hc.acyclic_of_topologicalOrder horder
    refine ⟨g, report, w', hg, List.mem_cons_self, Interpretation.lawful_counting, hindexed,
      hindexed.resolve_succeeds_iff.mpr ⟨hc, hsourced, hacyclic⟩,
      Graph.singleOutput_of_absent hkeys, hreport, houtputs, houtputs',
      hc.exists_evaluates hsourced hacyclic hsource, ?_⟩
    -- The one node that is left computes the output from the arg that nothing gives.
    have hcut : ∀ v, ¬ w'.graph.Evaluates .counting (fun _ => 4) ⟨2⟩ v := by
      refine Graph.not_evaluates hinit hinput fun node hnode hmem => ?_
      rw [(hnodes node hnode).2] at hmem
      exact absurd hmem (by decide)
    refine Graph.not_evaluates hinit' hinput' fun node hnode _ => ⟨⟨2⟩, ?_, hcut⟩
    rw [(hnodes node hnode).1]
    exact List.mem_cons_self
  · cases hpass

end RulePass

end OpGraph
