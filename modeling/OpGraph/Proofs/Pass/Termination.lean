import OpGraph.Proofs.Pass.Cache
import OpGraph.Proofs.Pass.Faults
import OpGraph.Proofs.Pass.Verdict
import OpGraph.Proofs.Rule.NormalForm

/-!
The passes come to an end by themselves. A graph with `n` live nodes has at most `n * n` connected
pairs of nodes, and every firing of a rule leaves fewer of them. So there are at most `n * n`
firings, in whatever order the nodes are visited, and a budget for so many is never used up.
-/

namespace OpGraph

def Fault.NotBudget (f : Fault) : Prop :=
  ∀ most chain rule node, f ≠ .budget most chain rule node

theorem Pattern.valid_of_toBlob {p : Pattern} (hflaw : p.toBlob.flaw? = none)
    (hsame : p.toBlob.toPattern = p) : p.Valid :=
  hsame ▸ (PatternBlob.flaw?_eq_none_iff.mp hflaw).valid_toPattern

/-! ### The rules of the passes -/

structure RuleSpec.Terminates (spec : RuleSpec) : Prop where
  shortens : spec.Shortens
  quiet : RulePass.Local spec.act
  settles : RulePass.Settles spec.act
  pattern : ∃ pattern, spec.pattern = .ok pattern ∧ pattern.Valid

namespace RuleSpec

theorem exists_pattern_of_any {spec : RuleSpec} (hany : (spec.pattern.toOption.any fun pattern =>
      decide (pattern.toBlob.flaw? = none ∧ pattern.toBlob.toPattern = pattern)) = true) :
    ∃ pattern, spec.pattern = .ok pattern ∧ pattern.Valid := by
  cases hpattern : spec.pattern with
  | error f =>
    rw [hpattern] at hany
    cases hany
  | ok pattern =>
    rw [hpattern] at hany
    obtain ⟨hflaw, hsame⟩ := of_decide_eq_true hany
    exact ⟨pattern, rfl, Pattern.valid_of_toBlob hflaw hsame⟩

open RulePass in
theorem terminates_of_builtin (b : Builtin) {p : RulePass} (hb : b.pass = .rules p) :
    ∀ spec ∈ p.rules, spec.Terminates := by
  cases b with
  | removeIdentity =>
    cases hb
    simpa [removeIdentity] using Terminates.mk
      (shortens_of_dropsOn dropsOn_bypassIdentity (by decide +kernel))
      local_bypassIdentity settles_bypassIdentity (exists_pattern_of_any (by decide +kernel))
  | qdqToFix =>
    cases hb
    simpa [qdqToFix] using Terminates.mk
      (shortens_of_actsOn actsOn_pairToFix (by decide +kernel))
      local_pairToFix settles_pairToFix (exists_pattern_of_any (by decide +kernel))
  | fixCleanup =>
    cases hb
    simpa [fixCleanup] using And.intro
      (Terminates.mk (shortens_of_actsOn actsOn_foldRoundTrip (by decide +kernel))
        local_foldRoundTrip settles_foldRoundTrip (exists_pattern_of_any (by decide +kernel)))
      (And.intro
        (Terminates.mk (shortens_of_dropsOn dropsOn_bypassToInput (by decide +kernel))
          local_bypassToInput settles_bypassToInput (exists_pattern_of_any (by decide +kernel)))
        (Terminates.mk (shortens_of_dropsOn dropsOn_bypassToInner (by decide +kernel))
          local_bypassToInner settles_bypassToInner (exists_pattern_of_any (by decide +kernel))))
  | foldFixConstant =>
    cases hb
    simpa [foldFixConstant] using Terminates.mk
      (shortens_of_dropsOn dropsOn_foldConstant (by decide +kernel))
      local_foldConstant settles_foldConstant (exists_pattern_of_any (by decide +kernel))
  | mergeTranspose =>
    cases hb
    simpa [mergeTranspose] using Terminates.mk
      (shortens_of_actsOn actsOn_mergeTransposes (by decide +kernel))
      local_mergeTransposes settles_mergeTransposes (exists_pattern_of_any (by decide +kernel))
  | mergeReshape =>
    cases hb
    simpa [mergeReshape] using Terminates.mk
      (shortens_of_actsOn actsOn_mergeReshapes (by decide +kernel))
      local_mergeReshapes settles_mergeReshapes (exists_pattern_of_any (by decide +kernel))
  | foldAddZero =>
    cases hb
    simpa [foldAddZero] using Terminates.mk
      (shortens_of_dropsOn dropsOn_bypassAddZero (by decide +kernel))
      local_bypassAddZero settles_bypassAddZero (exists_pattern_of_any (by decide +kernel))
  | partition => cases hb

end RuleSpec

/-! ### Runs -/

def Rule.Ending (rule : Rule PassContext) : Prop :=
  ∃ spec : RuleSpec, spec.Terminates ∧ ∃ pattern, spec.pattern = .ok pattern ∧
    rule = spec.toRule pattern

namespace Rule.Ending

variable {rule : Rule PassContext} (hrule : rule.Ending) {g : Graph}

include hrule

theorem quiet : rule.Quiet := by
  obtain ⟨spec, hspec, pattern, -, rfl⟩ := hrule
  exact RuleSpec.quiet_toRule hspec.quiet

theorem valid : rule.pattern.Valid := by
  obtain ⟨spec, hspec, pattern, hpattern, rfl⟩ := hrule
  obtain ⟨own, hown, hvalid⟩ := hspec.pattern
  cases hpattern.symm.trans hown
  exact hvalid

theorem descends (h : g.Indexed) (hacyclic : g.Acyclic) {g' : Graph} (hfires : rule.Fires g g') :
    g.Descends g' := by
  obtain ⟨spec, hspec, pattern, hpattern, rfl⟩ := hrule
  exact hspec.shortens.descends hpattern h hacyclic hfires

theorem isOverflow (h : g.Indexed) {f : Fault} (hfaults : rule.FaultsOn g f) : f.IsOverflow := by
  obtain ⟨id, m, ctx, hmatch, haction⟩ := hfaults
  have hstands := Pattern.stands_of_matchNode h hrule.valid.wellFormed hmatch
  obtain ⟨spec, hspec, pattern, -, rfl⟩ := hrule
  have hfails : FailsAs Fault.IsOverflow ((spec.toRule pattern).action m g ctx) := by
    refine failsAs_bind (hspec.settles ctx.pass m g h hstands) fun outcome _ => ?_
    obtain ⟨deed, left⟩ := outcome
    cases deed with
    | none => exact failsAs_ok
    | some counter => exact failsAs_ok
  exact hfails f haction

end Rule.Ending

namespace Engine

variable {e : Engine PassContext} (hrules : ∀ node, ∀ rule ∈ e.candidates node, rule.Ending)

include hrules

theorem quiet_of_ending : ∀ node, ∀ rule ∈ e.candidates node, rule.Quiet :=
  fun node rule hrule => (hrules node rule hrule).quiet

theorem fewer_of_fires {P : Graph → Prop} (hkeeps : ∀ g g' : Graph, g.Descends g' → P g → P g')
    (g g' : Graph) (hg : g.Indexed ∧ g.Acyclic ∧ P g) (node : Node) (rule : Rule PassContext)
    (hrule : rule ∈ e.candidates node) (hfires : rule.Fires g g') :
    (g'.Indexed ∧ g'.Acyclic ∧ P g') ∧
      (g'.connected OpKey.Conducts).card < (g.connected OpKey.Conducts).card := by
  have hdescends := (hrules node rule hrule).descends hg.1 hg.2.1 hfires
  exact ⟨⟨hdescends.indexed, hdescends.acyclic, hkeeps g g' hdescends hg.2.2⟩, hdescends.fewer⟩

theorem length_le_of_performs {run last : Run PassContext} {firings : List Firing}
    (hperforms : e.Performs run firings last) (h : run.graph.Indexed)
    (hacyclic : run.graph.Acyclic) :
    firings.length ≤ run.graph.nodeIds.length * run.graph.nodeIds.length := by
  have hstep := fewer_of_fires hrules (P := fun _ => True) fun _ _ _ _ => trivial
  obtain ⟨-, hle⟩ := hperforms.length_le (quiet_of_ending hrules) hstep ⟨h, hacyclic, trivial⟩
  calc firings.length ≤ (run.graph.connected OpKey.Conducts).card := Nat.le_of_add_right_le hle
    _ ≤ run.graph.nodeIds.length * run.graph.nodeIds.length := Graph.card_connected_le _ _

theorem failsAs_freshScan (hmode : e.mode = .fixedPoint) {Q : Fault → Prop}
    (hoverflow : ∀ o, Q (.overflow o)) {run : Run PassContext} (h : run.graph.Indexed)
    (horder : FailsAs Q run.graph.orderOrFault) : FailsAs Q (e.freshScan run) := by
  intro f hf
  obtain hfault | ⟨ids, hscan⟩ := freshScan_eq_error hf
  · exact horder f hfault
  · have hvalid : ∀ node, ∀ rule ∈ e.candidates node, rule.Quiet ∧ rule.pattern.Valid :=
      fun node rule hrule => ⟨(hrules node rule hrule).quiet, (hrules node rule hrule).valid⟩
    obtain ⟨node, rule, hrule, hfaults⟩ := faultsOn_of_scan hmode hvalid run h hscan
    obtain ⟨o, rfl⟩ := (hrules node rule hrule).isOverflow h hfaults
    exact hoverflow o

/-- A run with a large enough budget fails only as a scan does. `P` is what the firings keep. -/
theorem apply_within_square (hmode : e.mode = .fixedPoint) {P : Graph → Prop} {Q : Fault → Prop}
    (hkeeps : ∀ g g' : Graph, g.Descends g' → P g → P g')
    (horder : ∀ g : Graph, g.Acyclic → P g → FailsAs Q g.orderOrFault)
    (hoverflow : ∀ o, Q (.overflow o)) {g : Graph} (h : g.Indexed) (hacyclic : g.Acyclic) (hP : P g)
    (hbudget : g.nodeIds.length * g.nodeIds.length ≤ e.budget) (ctx : PassContext) :
    (∃ stats g' ctx', e.apply g ctx = .ok (stats, g', ctx') ∧
      stats.changes ≤ g.nodeIds.length * g.nodeIds.length) ∨
      ∃ f, Q f ∧ e.apply g ctx = .error f := by
  have hscan : ∀ run : Run PassContext,
      run.graph.Indexed ∧ run.graph.Acyclic ∧ P run.graph → FailsAs Q (e.freshScan run) :=
    fun run hrun =>
      failsAs_freshScan hrules hmode hoverflow hrun.1 (horder run.graph hrun.2.1 hrun.2.2)
  have hsquare := Graph.card_connected_le OpKey.Conducts g
  obtain ⟨stats, g', ctx', hrun, hchanges⟩ | hfault :=
    apply_of_size_le (quiet_of_ending hrules) (fewer_of_fires hrules hkeeps) hmode hscan
      ⟨h, hacyclic, hP⟩ (hsquare.trans hbudget) ctx
  · exact .inl ⟨stats, g', ctx', hrun, hchanges.trans hsquare⟩
  · exact .inr hfault

end Engine

/-- A run of the chain on the graph has at most `most` firings, and a budget for them is enough. -/
structure RuleChain.EndsWithin (chain : RuleChain PassContext) (g : Graph) (ctx : PassContext)
    (most : Nat) : Prop where
  firings : ∀ firings last, chain.engine.Performs ⟨g, ctx, ∅⟩ firings last → firings.length ≤ most
  /-- The budget is not used up. -/
  notBudget : most ≤ chain.budget → FailsAs Fault.NotBudget (chain.apply g ctx)
  /-- If no node gives an arg twice, the run returns, but for an overflow of a size. -/
  returns : most ≤ chain.budget → g.Consistent →
    (∃ stats g' ctx', chain.apply g ctx = .ok (stats, g', ctx') ∧ stats.changes ≤ most) ∨
      ∃ o, chain.apply g ctx = .error (.overflow o)

theorem RuleChain.endsWithin_square {chain : RuleChain PassContext}
    (hmode : chain.mode = .fixedPoint)
    (hrules : ∀ node, ∀ rule ∈ chain.engine.candidates node, rule.Ending) {g : Graph}
    (h : g.Indexed) (hacyclic : g.Acyclic) (ctx : PassContext) :
    chain.EndsWithin g ctx (g.nodeIds.length * g.nodeIds.length) where
  firings firings last hperforms := Engine.length_le_of_performs hrules hperforms h hacyclic
  notBudget hbudget f hf := by
    have horder : ∀ g : Graph, g.Acyclic → True → FailsAs Fault.NotBudget g.orderOrFault :=
      fun g _ _ => Graph.failsAs_orderOrFault (fun _ _ _ _ _ => nofun) (fun _ _ _ _ _ => nofun)
        fun _ _ _ _ _ => nofun
    obtain ⟨stats, g', ctx', hrun, -⟩ | ⟨f', hf', hrun⟩ :=
      Engine.apply_within_square hrules hmode (fun _ _ _ _ => trivial) horder
        (fun _ _ _ _ _ => nofun) h hacyclic trivial hbudget ctx
    · cases hf.symm.trans hrun
    · cases hf.symm.trans hrun
      exact hf'
  returns hbudget hconsistent := by
    have horder : ∀ g : Graph, g.Acyclic → g.Consistent → FailsAs Fault.IsOverflow g.orderOrFault :=
      fun g hacyclic hconsistent =>
        failsAs_of_succeeds (RuleChain.orderOrFault_succeeds hconsistent hacyclic)
    obtain hrun | ⟨f, ⟨o, rfl⟩, hrun⟩ :=
      Engine.apply_within_square hrules hmode (fun _ _ hdescends => hdescends.consistent) horder
        (fun o => ⟨o, rfl⟩) h hacyclic hconsistent hbudget ctx
    · exact .inl hrun
    · exact .inr ⟨o, hrun⟩

namespace RulePass

theorem fixedPoint_of_builtin (b : Builtin) {p : RulePass} (hb : b.pass = .rules p) :
    p.mode = .fixedPoint := by
  cases b <;> cases hb <;> rfl

variable {p : RulePass}

section Specs

variable (hspecs : ∀ spec ∈ p.rules, spec.Terminates)

include hspecs

theorem ownRules_succeeds : ∃ rules, p.ownRules = .ok rules := by
  apply mapM_succeeds
  intro spec hspec
  obtain ⟨pattern, hpattern, -⟩ := (hspecs spec hspec).pattern
  rw [hpattern]
  exact ⟨_, rfl⟩

theorem ending_of_ownRules {rules : List (Rule PassContext)} (hrules : p.ownRules = .ok rules) :
    ∀ rule ∈ rules, rule.Ending := by
  intro rule hrule
  obtain ⟨spec, hspec, pattern, hpattern, rfl⟩ := exists_spec_of_ownRules hrules rule hrule
  exact ⟨spec, hspecs spec hspec, pattern, hpattern, rfl⟩

theorem exists_chain {rules : List (Rule PassContext)} (hrules : p.ownRules = .ok rules)
    (name : String) (order : ScanOrder) (budget : Nat) :
    ∃ chain, RuleChain.ofRules name .fixedPoint order budget rules = .ok chain ∧
      chain.budget = budget ∧ ∀ (g : Graph) ctx, g.Indexed → g.Acyclic →
        chain.EndsWithin g ctx (g.nodeIds.length * g.nodeIds.length) := by
  have hending := ending_of_ownRules hspecs hrules
  obtain ⟨chain, hchain, hkeeps, hsetup⟩ := RuleChain.ofRules_succeeds
    (fun rule hrule => (hending rule hrule).valid) name .fixedPoint order budget
  refine ⟨chain, hchain, by rw [hsetup], fun g ctx h hacyclic => ?_⟩
  exact RuleChain.endsWithin_square (by rw [hsetup])
    (fun node rule hrule => hending rule (hkeeps.mem_rules hrule)) h hacyclic ctx

theorem notBudget_of_run (hmode : p.mode = .fixedPoint) {store : Store} {w w' : Workspace}
    (hcache : p.CacheAgrees store w) (h : w.graph.Indexed) (hacyclic : w.graph.Acyclic)
    {budget : Nat} (hbudget : w.graph.nodeIds.length * w.graph.nodeIds.length ≤ budget) {f : Fault}
    (hrun : p.run store budget w = .error (.fault f) w') : f.NotBudget := by
  obtain ⟨own, hown⟩ := ownRules_succeeds hspecs
  simp only [run, stateful_bind_eq_error_iff, PassM.orFault_eq_error_iff,
    PassM.orFault_eq_ok_iff] at hrun
  obtain hcompile | ⟨rules, w₁, hcompile, hrun⟩ := hrun
  · exact absurd hcompile (not_fault_of_compile hown)
  · obtain ⟨chain, hchain, hkept, hends⟩ :=
      exists_chain hspecs (hcache rules w₁ hcompile) p.name p.order budget
    rw [hmode] at hrun
    obtain ⟨f', hf', -⟩ | ⟨chain', w₂, ⟨hchain', rfl⟩, hget | ⟨w₃, w₄, hget, hrun⟩⟩ := hrun
    · cases hchain.symm.trans hf'
    · cases hget
    · cases hget
      cases hchain.symm.trans hchain'
      obtain ⟨f', hf', heq, -⟩ | ⟨⟨stats, g, ctx⟩, w₅, ⟨-, rfl⟩, hset | ⟨_, w₆, hset, hrun⟩⟩ := hrun
      · cases heq
        rw [graph_of_compile hcompile] at hf'
        exact (hends w.graph _ h hacyclic).notBudget (hkept ▸ hbudget) f hf'
      · cases hset
      · cases hset
        cases hrun

end Specs

/--
The rules of a pass end by themselves on a graph without cycles. They fire at most as often as there
are pairs of live nodes, whatever the order in which the nodes are visited, so that a budget for so
many firings is never used up. Nor is it by the pass itself, with the rules from a cache.
-/
theorem ends_within_square (b : Builtin) (hb : b.pass = .rules p) {g : Graph} (hg : g.Indexed)
    (hacyclic : g.Acyclic) (name : String) (order : ScanOrder) (budget : Nat) (ctx : PassContext) :
    ∃ rules chain, p.ownRules = .ok rules ∧
      RuleChain.ofRules name .fixedPoint order budget rules = .ok chain ∧ chain.budget = budget ∧
      chain.EndsWithin g ctx (g.nodeIds.length * g.nodeIds.length) ∧
      ∀ store w w' f, w.graph = g → p.CacheAgrees store w →
        g.nodeIds.length * g.nodeIds.length ≤ budget →
        p.run store budget w = .error (.fault f) w' → f.NotBudget := by
  have hspecs := RuleSpec.terminates_of_builtin b hb
  obtain ⟨rules, hrules⟩ := ownRules_succeeds hspecs
  obtain ⟨chain, hchain, hkept, hends⟩ := exists_chain hspecs hrules name order budget
  refine ⟨rules, chain, hrules, hchain, hkept, hends g ctx hg hacyclic, ?_⟩
  rintro store w w' f rfl hcache hbudget hrun
  exact notBudget_of_run hspecs (fixedPoint_of_builtin b hb) hcache hg hacyclic hbudget hrun

def turn (name : String) (x y : ArgId) (perm : List Int64) : Graph.Mutation :=
  .addNode ⟨name, .standard "Transpose", [some x], [some y], {(permAttr, Attr.ints perm)}⟩

def turnEdits : List Graph.Mutation :=
  [.addInput "x" ⟨.float32, none⟩, .newArg "y" ⟨.float32, none⟩, .newArg "z" ⟨.float32, none⟩,
    .newArg "w" ⟨.float32, none⟩, turn "a" ⟨0⟩ ⟨1⟩ [1, 2, 0], turn "b" ⟨1⟩ ⟨2⟩ [1, 2, 0],
    turn "c" ⟨2⟩ ⟨3⟩ [0, 2, 1], .addOutput ⟨3⟩]

/--
They are merged in three firings: the middle one, which nothing reads any more, is merged as well.
-/
theorem ends_within_square_turns :
    ∃ (g : Graph) (rules : List (Rule PassContext)) (chain : RuleChain PassContext)
      (result : RunStats × Graph × PassContext),
      (Graph.empty "turns").runAll turnEdits = .ok g ∧ g.Indexed ∧ g.Acyclic ∧
      g.nodeIds.length = 3 ∧ mergeTranspose.ownRules = .ok rules ∧
      RuleChain.ofRules "turns" .fixedPoint .reverseTopological 9 rules = .ok chain ∧
      chain.apply g ⟨"turns", ∅⟩ = .ok result ∧ result.1.changes = 3 ∧
      chain.EndsWithin g ⟨"turns", ∅⟩ 9 ∧
      ∀ w f, mergeTranspose.run .memory 9 ⟨g, .empty, .empty⟩ = .error (.fault f) w →
        f.NotBudget := by
  have hrun : (do
      let g ← (Graph.empty "turns").runAll turnEdits
      let rules ← mergeTranspose.ownRules
      let chain ← RuleChain.ofRules "turns" .fixedPoint .reverseTopological 9 rules
      let result ← chain.apply g ⟨"turns", ∅⟩
      return (decide (∀ node ∈ g.liveNodes, ∀ a ∈ node.presentInputs, ∀ source ∈ g.producer? a,
        source.index < node.id.index), g.nodeIds.length, result.1.changes)) = .ok (true, 3, 3) := by
    rfl
  simp only [bind_eq_ok_iff, pure_eq_ok_iff, Prod.mk.injEq, decide_eq_true_eq] at hrun
  obtain ⟨g, hg, rules, hrules, chain, hchain, result, hresult, hascending, hnodes,
    hchanges⟩ := hrun
  have hindexed : g.Indexed := (Graph.evolves_runAll (Graph.indexed_empty _) hg).indexed
  have hacyclic : g.Acyclic := hindexed.acyclic_of_ascending hascending
  obtain ⟨rules', chain', hrules', hchain', -, hends, hpass⟩ :=
    ends_within_square .mergeTranspose rfl
    hindexed hacyclic "turns" .reverseTopological 9 ⟨"turns", ∅⟩
  cases hrules.symm.trans hrules'
  cases hchain.symm.trans hchain'
  rw [hnodes] at hends hpass
  refine ⟨g, rules, chain, result, hg, hindexed, hacyclic, hnodes, hrules, hchain, hresult,
    hchanges, hends, ?_⟩
  intro w f hrun
  have hcache := cacheAgrees_of_fresh (p := mergeTranspose) (by simp [lawfulPasses]) g
  exact hpass .memory _ w f rfl hcache (Nat.le_refl 9) hrun

end RulePass

end OpGraph
