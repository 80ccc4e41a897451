import Mathlib.Data.Finset.Card
import OpGraph.Proofs.Graph.Order
import OpGraph.Proofs.Graph.Reachable
import OpGraph.Proofs.Pass.Descent
import OpGraph.Proofs.Pass.Verdict

/-!
What a rule leaves behind. Nothing is undone when a rule declines, so it must not have touched
anything by then. When it fires, the matched node goes, and one node or one constant may come.
-/

namespace OpGraph

theorem PassContext.getD_bump (ctx : PassContext) (counter name : String) :
    (ctx.bump counter).counters.getD name 0 =
      ctx.counters.getD name 0 + if name = counter then 1 else 0 := by
  rw [bump, Std.ExtTreeMap.getD_insert]
  by_cases hname : name = counter
  · subst hname
    rw [if_pos Std.ReflCmp.compare_self, if_pos rfl]
  · rw [if_neg fun heq => hname (Std.LawfulEqCmp.compare_eq_iff_eq.mp heq).symm, if_neg hname,
      Nat.add_zero]

namespace Graph.Rewired

variable {g g' : Graph} {root : NodeId} {old new : ArgId} {supply : Supply}
  (hr : Rewired g root old new supply g')

include hr

theorem mem_nodeIds_iff (h : g.Indexed) {id : NodeId} :
    id ∈ g'.nodeIds ↔ id ≠ root ∧ (id ∈ g.nodeIds ∨ ∃ n, supply = .node n ∧ id = n.id) := by
  rw [hr.indexed.mem_nodeIds, h.mem_nodeIds]
  constructor
  · rintro ⟨node', hnode'⟩
    obtain ⟨hid, ⟨node, hnode, -⟩ | ⟨node, hsupply, heq, -⟩⟩ := hr.node?_cases hnode'
    · exact ⟨hid, .inl ⟨node, hnode⟩⟩
    · exact ⟨hid, .inr ⟨node, hsupply, heq⟩⟩
  · rintro ⟨hid, ⟨node, hnode⟩ | ⟨node, rfl, rfl⟩⟩
    · exact ⟨_, hr.node?_of_ne hid hnode⟩
    · rw [hr.nodes, if_neg hid, Supply.node?, if_pos rfl]
      cases g.node? node.id with
      | none => exact ⟨_, rfl⟩
      | some taken => exact ⟨_, rfl⟩

theorem removed_eq (h : g.Indexed) :
    g.nodeIds.toFinset \ g'.nodeIds.toFinset = {root} := by
  obtain ⟨node, hnode, -⟩ := h.producer?_eq_some_iff.mp hr.produced
  ext id
  simp only [Finset.mem_sdiff, List.mem_toFinset, hr.mem_nodeIds_iff h, Finset.mem_singleton]
  constructor
  · rintro ⟨hid, hgone⟩
    exact Decidable.byContradiction fun hne => hgone ⟨hne, .inl hid⟩
  · rintro rfl
    exact ⟨h.mem_nodeIds.mpr ⟨node, hnode⟩, fun hleft => hleft.1 rfl⟩

theorem card_added_le (h : g.Indexed) : (g'.nodeIds.toFinset \ g.nodeIds.toFinset).card ≤ 1 := by
  rw [Finset.card_le_one]
  -- Whatever is added is the node of the supply.
  have hadded : ∀ id ∈ g'.nodeIds.toFinset \ g.nodeIds.toFinset,
      ∃ n, supply = .node n ∧ id = n.id := by
    intro id hid
    rw [Finset.mem_sdiff, List.mem_toFinset, List.mem_toFinset, hr.mem_nodeIds_iff h] at hid
    exact hid.1.2.resolve_left hid.2
  intro id hid id' hid'
  obtain ⟨n, rfl, rfl⟩ := hadded id hid
  obtain ⟨n', hn', rfl⟩ := hadded id' hid'
  cases hn'
  rfl

theorem getElem?_initializers (h : g.Indexed) (hfresh : supply.Fresh g new) {a : ArgId}
    (ha : a ∈ g.initializers) : g'.initializers[a]? = g.initializers[a]? := by
  rw [hr.initializers]
  cases supply with
  | survivor => rfl
  | node n => rfl
  | initializer tensor =>
    have hne : new ≠ a := by
      rintro rfl
      have hlive := h.initializers_live new ha
      rw [show g.arg? new = none from hfresh] at hlive
      cases hlive
    rw [Supply.addTo, Std.ExtTreeMap.getElem?_insert,
      if_neg fun heq => hne (Std.LawfulEqCmp.compare_eq_iff_eq.mp heq)]

theorem card_declared_le :
    (g'.initializers.keys.toFinset \ g.initializers.keys.toFinset).card ≤ 1 := by
  have hsubset : g'.initializers.keys.toFinset \ g.initializers.keys.toFinset ⊆ {new} := by
    intro a ha
    simp only [Finset.mem_sdiff, List.mem_toFinset, Std.ExtTreeMap.mem_keys, hr.initializers] at ha
    obtain ⟨hdeclared, hnot⟩ := ha
    cases supply with
    | survivor => exact absurd hdeclared hnot
    | node n => exact absurd hdeclared hnot
    | initializer tensor =>
      rw [Supply.addTo, Std.ExtTreeMap.mem_insert] at hdeclared
      have heq := Std.LawfulEqCmp.compare_eq_iff_eq.mp (hdeclared.resolve_right hnot)
      exact Finset.mem_singleton.mpr heq.symm
  exact (Finset.card_le_card hsubset).trans_eq (Finset.card_singleton new)

end Graph.Rewired

namespace RulePass

theorem rewired_of_act {spec : RuleSpec} (hacts : spec.Acts) {pattern : Pattern}
    (hpattern : spec.pattern = .ok pattern) {g g' : Graph} (h : g.Indexed) (hacyclic : g.Acyclic)
    {id : NodeId} {m : Match} (hmatch : pattern.matchNode g id = .ok (some m))
    {pass counter : String} (hact : spec.act pass m g = .ok (some counter, g')) :
    ∃ old new supply, Graph.Rewired g id old new supply g' ∧ supply.Fresh g new := by
  obtain ⟨root, names, hon, hserves⟩ := hacts
  have hserved := hserves pattern hpattern
  obtain ⟨id', node, old, args, hid', hnode, hold, hoffers, hrewrites⟩ :=
    hon pass m g counter g' hact
  obtain ⟨rfl, hsite⟩ := hserved.site h hmatch hid' hnode hold
  obtain ⟨hp, hkinds, -, -, hnames⟩ := hserved
  have hnot := hsite.not_mem_args h hp hkinds hnames hoffers hacyclic
  obtain ⟨new, supply, hr, hfresh, -⟩ := hrewrites.rewired h hsite.gives.1 hnot
  exact ⟨old, new, supply, hr, hfresh⟩

/--
A rule that declines a match leaves the graph, its log included, and the counters as they were. A
rule that fires removes the matched node and no other, adds at most one node and at most one
constant, keeps the constants that were there, and moves one counter, by one.
-/
theorem action_declines_or_replaces (b : Builtin) {p : RulePass} (hb : b.pass = .rules p)
    {spec : RuleSpec} (hspec : spec ∈ p.rules) {pattern : Pattern}
    (hpattern : spec.pattern = .ok pattern) {g g' : Graph} (h : g.Indexed) (hacyclic : g.Acyclic)
    {id : NodeId} {m : Match} (hmatch : pattern.matchNode g id = .ok (some m))
    {ctx ctx' : PassContext} {fired : Bool}
    (hrun : (spec.toRule pattern).action m g ctx = .ok (fired, g', ctx')) :
    fired = false ∧ g' = g ∧ ctx' = ctx ∨
      fired = true ∧ g.nodeIds.toFinset \ g'.nodeIds.toFinset = {id} ∧
        (g'.nodeIds.toFinset \ g.nodeIds.toFinset).card ≤ 1 ∧
        (∀ a ∈ g.initializers, g'.initializers[a]? = g.initializers[a]?) ∧
        (g'.initializers.keys.toFinset \ g.initializers.keys.toFinset).card ≤ 1 ∧
        ctx'.pass = ctx.pass ∧ ∃ counter, ∀ name, ctx'.counters.getD name 0 =
          ctx.counters.getD name 0 + if name = counter then 1 else 0 := by
  cases fired with
  | false =>
    have hlocal := local_of_builtin b hb spec hspec
    exact .inl ⟨rfl, ((RuleSpec.action_eq_false_iff hlocal).mp hrun).2⟩
  | true =>
    obtain ⟨deed, hact, hfired, rfl⟩ := RuleSpec.action_eq_ok_iff.mp hrun
    obtain ⟨counter, rfl⟩ := Option.isSome_iff_exists.mp hfired.symm
    obtain ⟨old, new, supply, hr, hfresh⟩ :=
      rewired_of_act (RuleSpec.acts_of_builtin b hb spec hspec) hpattern h hacyclic hmatch hact
    refine .inr ⟨rfl, hr.removed_eq h, hr.card_added_le h, ?_, hr.card_declared_le, rfl,
      counter, ?_⟩
    · exact fun a => hr.getElem?_initializers h hfresh
    · exact ctx.getD_bump counter

def weightEdits : List Graph.Mutation :=
  [.addInitializer "w" ⟨[2], .float32 [⟨0x3f800000⟩, ⟨0xc0000000⟩]⟩, .newArg "q" ⟨.int8, none⟩,
    .newArg "y" ⟨.int8, none⟩,
    .addNode ⟨"quant", .float2fix, [some ⟨0⟩], [some ⟨1⟩], {(fixPointAttr, Attr.int 3)}⟩,
    .addNode ⟨"relu", .standard "Relu", [some ⟨1⟩], [some ⟨2⟩], ∅⟩, .addOutput ⟨2⟩]

/--
The conversion is folded into a new constant. If its result is a graph output, the rule declines.
-/
theorem action_declines_or_replaces_weight :
    (∃ g pattern m g' ctx', (Graph.empty "weight").runAll weightEdits = .ok g ∧
      pattern.matchNode g ⟨0⟩ = .ok (some m) ∧
      (RuleSpec.toRule ⟨"fold_constant", constantPattern, Action.foldConstant⟩ pattern).action m g
        ⟨"fold_fix_constant", ∅⟩ = .ok (true, g', ctx') ∧
      g.nodeIds.toFinset \ g'.nodeIds.toFinset = {⟨0⟩} ∧
      (g'.initializers.keys.toFinset \ g.initializers.keys.toFinset).card ≤ 1) ∧
    ∃ g pattern m g' ctx', (Graph.empty "weight").runAll (weightEdits ++ [.addOutput ⟨1⟩]) = .ok g ∧
      pattern.matchNode g ⟨0⟩ = .ok (some m) ∧
      (RuleSpec.toRule ⟨"fold_constant", constantPattern, Action.foldConstant⟩ pattern).action m g
        ⟨"fold_fix_constant", ∅⟩ = .ok (false, g', ctx') ∧ g' = g := by
  have hruns : ∀ entry ∈ [(weightEdits, true), (weightEdits ++ [.addOutput ⟨1⟩], false)],
      ∃ g ∈ ((Graph.empty "weight").runAll entry.1).toOption,
      (∀ node ∈ g.liveNodes, ∀ a ∈ node.presentInputs, ∀ source ∈ g.producer? a,
        source.index < node.id.index) ∧
      ∃ pattern ∈ constantPattern.toOption, ∃ m ∈ (pattern.matchNode g ⟨0⟩).toOption.join,
      ∃ outcome ∈ ((RuleSpec.toRule ⟨"fold_constant", constantPattern, Action.foldConstant⟩
        pattern).action m g ⟨"fold_fix_constant", ∅⟩).toOption, outcome.1 = entry.2 := by
    decide +kernel
  have hready : ∀ {edits : List Graph.Mutation} {g : Graph},
      g ∈ ((Graph.empty "weight").runAll edits).toOption → g.Indexed :=
    fun hg => (Graph.Reachable.runAll (.empty "weight") (eq_ok_of_mem_toOption hg)).indexed
  constructor
  · obtain ⟨g, hg, hascending, pattern, hpattern, m, hm, ⟨_, g', ctx'⟩, hrun, rfl⟩ :=
      hruns _ List.mem_cons_self
    have hmatch := eq_ok_of_mem_toOption (Option.join_eq_some_iff.mp hm)
    have hfired := eq_ok_of_mem_toOption hrun
    obtain ⟨hfalse, -⟩ | ⟨-, hremoved, -, -, hdeclared, -⟩ := action_declines_or_replaces
      .foldFixConstant rfl (List.mem_singleton_self _) (eq_ok_of_mem_toOption hpattern) (hready hg)
      ((hready hg).acyclic_of_ascending hascending) hmatch hfired
    · cases hfalse
    · exact ⟨g, pattern, m, g', ctx', eq_ok_of_mem_toOption hg, hmatch, hfired, hremoved, hdeclared⟩
  · obtain ⟨g, hg, hascending, pattern, hpattern, m, hm, ⟨_, g', ctx'⟩, hrun, rfl⟩ :=
      hruns _ (List.mem_cons_of_mem _ List.mem_cons_self)
    have hmatch := eq_ok_of_mem_toOption (Option.join_eq_some_iff.mp hm)
    have hdeclined := eq_ok_of_mem_toOption hrun
    obtain ⟨-, hsame, -⟩ | ⟨htrue, -⟩ := action_declines_or_replaces
      .foldFixConstant rfl (List.mem_singleton_self _) (eq_ok_of_mem_toOption hpattern) (hready hg)
      ((hready hg).acyclic_of_ascending hascending) hmatch hdeclined
    · exact ⟨g, pattern, m, g', ctx', eq_ok_of_mem_toOption hg, hmatch, hdeclined, hsame⟩
    · cases htrue

end RulePass

end OpGraph
