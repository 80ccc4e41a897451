import OpGraph.Proofs.Pass.Descent
import OpGraph.Proofs.Provenance.Anchored

/-!
Which fix-points the rules carry over to what takes the place of a tensor. A new node is anchored to
the tensor or holds the fix-point itself, and a folded constant gets an entry in the log. An arg
that was there before gets nothing: it has the fix-point of the tensor only if it had it already.
-/

namespace OpGraph

namespace Graph

variable {g g' : Graph} {root : NodeId} {old new a : ArgId}

/-! ### Rewrites -/

theorem log_redirect (h : g.Indexed) {g₁ : Graph} {node : Node}
    (hreplace : g.replaceAllUses old new = .ok g₁) (hremove : g₁.removeNode root = .ok (node, g')) :
    g'.log = g.log := by
  obtain ⟨-, -, ⟨-, rfl⟩ | ⟨-, h₁, hreplaced⟩⟩ := replaceAllUses_eq_ok h hreplace
  · obtain ⟨-, -, rfl⟩ := removeNode_eq_ok h hremove
    rfl
  · obtain ⟨-, -, rfl⟩ := removeNode_eq_ok h₁ hremove
    exact hreplaced.log

theorem Rewired.heldFixPoint?_eq {supply : Supply} (hr : Rewired g root old new supply g')
    (h : g.Indexed) (ha : g.producer? a ≠ some root)
    (hsupply : ∀ node, supply = .node node → a ∉ node.presentOutputs) :
    g'.heldFixPoint? a = g.heldFixPoint? a := by
  cases hproducer : g.producer? a with
  | none =>
    rw [heldFixPoint?_of_producer?_eq_none hproducer]
    apply hr.indexed.heldFixPoint?_eq_none
    intro id node' hnode' hmem
    obtain ⟨-, ⟨node, hnode, rfl⟩ | ⟨node, hnode, -, rfl⟩⟩ := hr.node?_cases hnode'
    · rw [h.producer?_eq_some_iff.mpr ⟨node, hnode, hmem⟩] at hproducer
      cases hproducer
    · exact absurd hmem (hsupply node hnode)
  | some id =>
    have hid : id ≠ root := by
      rintro rfl
      exact ha hproducer
    obtain ⟨node, hnode, hmem⟩ := h.producer?_eq_some_iff.mp hproducer
    rw [hr.indexed.heldFixPoint?_of_mem (hr.node?_of_ne hid hnode) hmem,
      h.heldFixPoint?_of_mem hnode hmem]
    rfl

section

variable (h : g.Indexed) (hproduced : g.producer? old = some root)

include h hproduced

theorem fixPoint?_bypass {survivor : ArgId} (hsurvivor : g.producer? survivor ≠ some root)
    (hrun : g.bypass root old survivor = .ok (true, g')) :
    Rewired g root old survivor .survivor g' ∧ g'.fixPoint? survivor = g.fixPoint? survivor := by
  have hne : old ≠ survivor := by
    rintro rfl
    exact hsurvivor hproduced
  have hr := bypass_eq_some h hproduced hne hrun
  refine ⟨hr, ?_⟩
  have hlog : g'.log = g.log := by
    rw [bypass] at hrun
    split at hrun
    · cases hrun
    · simp only [bind_eq_ok_iff, pure_eq_ok_iff, Prod.mk.injEq, true_and] at hrun
      obtain ⟨g₁, hreplace, ⟨node, g₂⟩, hremove, rfl⟩ := hrun
      exact log_redirect h hreplace hremove
  rw [hr.indexed.fixPoint?_eq, h.fixPoint?_eq, hlog,
    hr.heldFixPoint?_eq h hsurvivor (fun node heq => by cases heq)]

theorem fixPoint?_supplant {draft : Draft} {kind : Anchor} (houtputs : draft.outputs = [])
    (hanchor : draft.anchor = some (old, kind))
    (hunheld : draft.attrs[fixPointAttr]?.bind Attr.int? = none →
      kind.fixPoint? = none ∧ g.log.events g.nextArg = [])
    (hrun : g.supplant root old draft = .ok (true, g')) :
    (∃ node, Rewired g root old g.nextArg (.node node) g') ∧
      g'.fixPoint? g.nextArg = .ok (draft.attrs[fixPointAttr]?.bind Attr.int? <|>
        (g.log.fixPoint? old <|> g.heldFixPoint? old)) := by
  obtain ⟨name, hr⟩ := supplant_eq_some h hproduced houtputs hrun
  refine ⟨⟨_, hr⟩, ?_⟩
  have hheld : g'.heldFixPoint? g.nextArg = draft.attrs[fixPointAttr]?.bind Attr.int? := by
    obtain ⟨hnode, hmem⟩ := hr.node?_supply h rfl ⟨arg?_nextArg, node?_nextNode, rfl⟩
    exact hr.indexed.heldFixPoint?_of_mem hnode hmem
  rw [hr.indexed.fixPoint?_eq, hheld]
  cases hattr : draft.attrs[fixPointAttr]?.bind Attr.int? with
  | some n => rfl
  | none =>
    obtain ⟨hkind, hnew⟩ := hunheld hattr
    rw [supplant, bind_eq_ok_iff] at hrun
    obtain ⟨⟨⟨id, outputs⟩, g₂⟩, hbuild, hrun⟩ := hrun
    have hslots : draft.slots.head? = some (.fresh none) := by rw [Draft.slots, houtputs]; rfl
    have hfix := Draft.build_fixPoint? h hanchor hkind hslots hnew hbuild fun _ => hattr
    obtain ⟨rfl, argName, type, name, spec, log, hname, hadmits, -, rfl⟩ :=
      Draft.build_eq_ok houtputs hbuild
    simp only [List.head?_cons, Option.join_some, bind_eq_ok_iff, pure_eq_ok_iff, Prod.mk.injEq,
      true_and] at hrun
    obtain ⟨g₃, hreplace, ⟨node, g₄⟩, hremove, rfl⟩ := hrun
    have hlog :=
      log_redirect (((h.pushArg hname type).pushNode hadmits).setLog log) hreplace hremove
    rw [hlog, hfix]

theorem fixPoint?_initializer {name pass : String} {tensor : Tensor} {n : Int64} {g₂ g₃ : Graph}
    {removed : Node} (hdeclare : addInitializer name tensor g = .ok new g₂)
    (hreplace : { g₂ with log := g₂.log.record new ⟨some old, .fixPoint n, pass⟩ }.replaceAllUses
      old new = .ok g₃)
    (hremove : g₃.removeNode root = .ok (removed, g')) :
    new = g.nextArg ∧ Rewired g root old new (.initializer tensor) g' ∧
      g'.fixPoint? new = .ok (some n) := by
  obtain ⟨rfl, hr⟩ := rewired_of_initializer h hproduced hdeclare hreplace hremove
  refine ⟨rfl, hr, ?_⟩
  have hg₂ := (evolves_addInitializer h
    (show settle (addInitializer name tensor) g = .ok g₂ by rw [settle, hdeclare])).indexed
  have hheld : g'.heldFixPoint? g.nextArg = none := by
    have hfresh : g.producer? g.nextArg = none := producers_nextArg h
    rw [hr.heldFixPoint?_eq h (by simp [hfresh]) (fun node heq => by cases heq)]
    exact heldFixPoint?_of_producer?_eq_none hfresh
  obtain ⟨steps, hsteps⟩ := Log.exists_chain_record g₂.log g.nextArg ⟨some old, .fixPoint n, pass⟩
  rw [hr.indexed.fixPoint?_eq, hheld, log_redirect (hg₂.setLog _) hreplace hremove,
    Log.fixPoint?_eq, hsteps, List.reverse_concat]
  rfl

end

end Graph

namespace RulePass

def standIn? (m : Match) (g : Graph) : String → Option ArgId
  | "identities_removed" | "zero_additions_removed" | "roundtrips_bypassed"
  | "transposes_cancelled" => m.namedArg? "x"
  | "double_fix_collapsed" =>
    (m.namedNode? "inner").bind fun id => (g.node? id).bind fun node => node.output? 0
  | _ => some g.nextArg

/-- When the arg that takes over has the fix-point `n` of the one that it replaces. -/
def Carries (m : Match) (g : Graph) (old new : ArgId) (n : Int64) : String → Prop
  | "identities_removed" | "zero_additions_removed" | "roundtrips_bypassed"
  | "transposes_cancelled" => g.fixPoint? new = .ok (some n)
  | "qdq_pairs_converted" => pairFixPoint? m g = .ok (some n)
  | "transposes_merged" => ∀ k, g.log.fixPoint? old = some k → k = n
  | _ => True

/--
Another arg stands for the first output of the matched node. If the output had a fix-point, the arg
has it exactly under the condition that goes with the deed.
-/
def Redirected (m : Match) (g : Graph) (id : NodeId) (deed : String) (g' : Graph) : Prop :=
  ∃ node old new supply, g.node? id = some node ∧ node.output? 0 = some old ∧
    standIn? m g deed = some new ∧ Graph.Rewired g id old new supply g' ∧
    ∀ n, g.fixPoint? old = .ok (some n) →
      (g'.fixPoint? new = .ok (some n) ↔ Carries m g old new n deed)

section

variable {p : Pattern} {root : String} {names : List String} {g g' : Graph} {m : Match}
  {id root' : NodeId} {node : Node} {old : ArgId} {deed : String} (h : g.Indexed)
  (hserves : p.Serves root names replacedKeys) (hmatch : p.matchNode g id = .ok (some m))
  (hroot' : m.namedNode? root = some root') (hnode : g.node? root' = some node)
  (hold : node.output? 0 = some old)

include h hnode hold

theorem heldFixPoint?_output : g.heldFixPoint? old = node.attrInt? fixPointAttr :=
  h.heldFixPoint?_of_mem hnode (Node.mem_presentOutputs_iff.mpr ⟨0, hold⟩)

theorem fixPoint?_output :
    g.fixPoint? old = .ok (node.attrInt? fixPointAttr <|> g.log.fixPoint? old) := by
  rw [h.fixPoint?_eq, heldFixPoint?_output h hnode hold]

include hserves hmatch hroot'

theorem redirected_of_bypass (hacyclic : g.Acyclic) {name : String} (hname : name ∈ names)
    {survivor : ArgId} (hoffers : m.Offers g name survivor)
    (hstandIn : standIn? m g deed = some survivor)
    (hcarries : ∀ n, (node.attrInt? fixPointAttr <|> g.log.fixPoint? old) = some n →
      (g.fixPoint? survivor = .ok (some n) ↔ Carries m g old survivor n deed))
    (hrun : g.bypass root' old survivor = .ok (true, g')) : Redirected m g id deed g' := by
  obtain ⟨rfl, hsite⟩ := hserves.site h hmatch hroot' hnode hold
  obtain ⟨hp, hkinds, -, -, hnames⟩ := hserves
  obtain ⟨hr, hfix⟩ := Graph.fixPoint?_bypass h hsite.gives.1
    (hsite.producer?_ne h hp hkinds hnames hacyclic hname hoffers) hrun
  refine ⟨node, old, survivor, _, hnode, hold, hstandIn, hr, fun n hn => ?_⟩
  rw [fixPoint?_output h hnode hold] at hn
  rw [hfix]
  exact hcarries n (Except.ok.inj hn)

theorem redirected_of_supplant {draft : Draft} {kind : Anchor} (houtputs : draft.outputs = [])
    (hanchor : draft.anchor = some (old, kind))
    (hunheld : draft.attrs[fixPointAttr]?.bind Attr.int? = none →
      kind.fixPoint? = none ∧ g.log.events g.nextArg = [])
    (hstandIn : standIn? m g deed = some g.nextArg)
    (hcarries : ∀ n, (node.attrInt? fixPointAttr <|> g.log.fixPoint? old) = some n →
      ((draft.attrs[fixPointAttr]?.bind Attr.int? <|>
        (g.log.fixPoint? old <|> node.attrInt? fixPointAttr)) = some n ↔
        Carries m g old g.nextArg n deed))
    (hrun : g.supplant root' old draft = .ok (true, g')) : Redirected m g id deed g' := by
  obtain ⟨rfl, hsite⟩ := hserves.site h hmatch hroot' hnode hold
  obtain ⟨⟨supply, hr⟩, hfix⟩ :=
    Graph.fixPoint?_supplant h hsite.gives.1 houtputs hanchor hunheld hrun
  refine ⟨node, old, g.nextArg, _, hnode, hold, hstandIn, hr, fun n hn => ?_⟩
  rw [fixPoint?_output h hnode hold] at hn
  rw [hfix, heldFixPoint?_output h hnode hold, ← hcarries n (Except.ok.inj hn), Except.ok.injEq]

end

end RulePass

/-! ### The rules -/

def RulePass.RedirectsOn (act : Action) (root : String) (names : List String) : Prop :=
  ∀ pattern : Pattern, pattern.Serves root names replacedKeys → ∀ g id m pass deed g', g.Indexed →
    g.Acyclic → pattern.matchNode g id = .ok (some m) → act pass m g = .ok (some deed, g') →
    (deed ∈ ["transposes_merged", "reshapes_merged"] → g.log.events g.nextArg = []) →
    RulePass.Redirected m g id deed g'

def RuleSpec.Redirects (spec : RuleSpec) : Prop :=
  ∃ root names, RulePass.RedirectsOn spec.act root names ∧
    ∀ pattern, spec.pattern = .ok pattern → pattern.Serves root names replacedKeys

theorem RuleSpec.redirects_of_redirectsOn {spec : RuleSpec} {root : String} {names : List String}
    (hredirects : RulePass.RedirectsOn spec.act root names)
    (hserves : (spec.pattern.toOption.all fun pattern =>
      decide (pattern.Serves root names replacedKeys)) = true) : spec.Redirects :=
  ⟨root, names, hredirects, fun _ => serves_of_all hserves⟩

namespace RulePass

theorem redirectsOn_bypassIdentity : RedirectsOn Action.bypassIdentity "identity" ["x"] := by
  intro pattern hserves g id m pass deed g' h hacyclic hmatch hrun _
  obtain ⟨x, root, node, old, hx, hroot, hnode, hold, rfl, hbypass⟩ := bypassIdentity_eq_some hrun
  exact redirected_of_bypass h hserves hmatch hroot hnode hold hacyclic (List.mem_singleton_self _)
    (.inl hx) hx (fun _ _ => Iff.rfl) hbypass

theorem redirectsOn_bypassAddZero : RedirectsOn Action.bypassAddZero "add" ["x"] := by
  intro pattern hserves g id m pass deed g' h hacyclic hmatch hrun _
  obtain ⟨x, -, root, node, old, -, hx, -, hroot, -, hnode, hold, -, -, rfl, hbypass⟩ :=
    bypassAddZero_eq_some hrun
  exact redirected_of_bypass h hserves hmatch hroot hnode hold hacyclic (List.mem_singleton_self _)
    (.inl hx) hx (fun _ _ => Iff.rfl) hbypass

theorem redirectsOn_pairToFix : RedirectsOn Action.pairToFix "dequant" ["x"] := by
  intro pattern hserves g id m pass deed g' h _ hmatch hrun _
  obtain ⟨x, root, node, old, k, -, hroot, hnode, hold, hpair, rfl, hsupplant⟩ :=
    pairToFix_eq_some hrun
  refine redirected_of_supplant h hserves hmatch hroot hnode hold rfl rfl ?_ rfl ?_ hsupplant
  · intro hnone
    cases hnone
  · intro n _
    change some k = some n ↔ pairFixPoint? m g = .ok (some n)
    rw [hpair, Except.ok.injEq]

theorem redirectsOn_foldRoundTrip : RedirectsOn Action.foldRoundTrip "outer" ["x"] := by
  intro pattern hserves g id m pass deed g' h _ hmatch hrun _
  obtain ⟨c, node, old, hc, hnode, hold, rfl, hsupplant⟩ := foldRoundTrip_eq_some hrun
  obtain ⟨-, -, hroot, _, outer, -, houter, -, hattr⟩ := conversions?_eq hc
  cases hnode.symm.trans houter
  refine redirected_of_supplant h hserves hmatch hroot hnode hold rfl rfl ?_ rfl ?_ hsupplant
  · intro hnone
    cases hnone
  · intro n hn
    rw [hattr] at hn
    exact iff_of_true hn trivial

theorem redirectsOn_bypassToInput : RedirectsOn Action.bypassToInput "outer" ["x"] := by
  intro pattern hserves g id m pass deed g' h hacyclic hmatch hrun _
  obtain ⟨c, node, old, hc, hnode, hold, rfl, hbypass⟩ := bypassToInput_eq_some hrun
  obtain ⟨hx, -, hroot⟩ := conversions?_offers hc
  exact redirected_of_bypass h hserves hmatch hroot hnode hold hacyclic (List.mem_singleton_self _)
    (.inl hx) hx (fun _ _ => Iff.rfl) hbypass

theorem redirectsOn_bypassToInner : RedirectsOn Action.bypassToInner "outer" ["inner"] := by
  intro pattern hserves g id m pass deed g' h hacyclic hmatch hrun _
  obtain ⟨c, inner, survivor, node, old, hc, hinner, hsurvivor, hnode, hold, rfl, hbypass⟩ :=
    bypassToInner_eq_some hrun
  obtain ⟨-, hnamed, hroot, inner', outer, hinner', houter, hattr, hattr'⟩ := conversions?_eq hc
  cases hinner.symm.trans hinner'
  cases hnode.symm.trans houter
  have hstandIn : standIn? m g "double_fix_collapsed" = some survivor := by
    change ((m.namedNode? "inner").bind fun id => (g.node? id).bind fun node => node.output? 0) = _
    rw [hnamed, Option.bind_some, hinner, Option.bind_some, hsurvivor]
  refine redirected_of_bypass h hserves hmatch hroot hnode hold hacyclic (List.mem_singleton_self _)
    (.inr ⟨c.inner, inner, hnamed, hinner, hsurvivor⟩) hstandIn ?_ hbypass
  -- Both nodes hold the fix-point, so the log does not matter.
  intro n hn
  rw [hattr'] at hn
  rw [fixPoint?_output h hinner hsurvivor, hattr]
  exact iff_of_true (congrArg Except.ok hn) trivial

theorem redirectsOn_foldConstant : RedirectsOn Action.foldConstant "quant" [] := by
  intro pattern hserves g id m pass deed g' h _ hmatch hrun _
  obtain ⟨root, node, k, old, name, tensor, new, g₂, g₃, removed, hroot, hnode, hk, hold, -,
    hdeclare, hreplace, hremove, rfl⟩ := foldConstant_eq_some hrun
  obtain ⟨rfl, hsite⟩ := hserves.site h hmatch hroot hnode hold
  obtain ⟨rfl, hr, hfix⟩ :=
    Graph.fixPoint?_initializer h hsite.gives.1 hdeclare hreplace hremove
  refine ⟨node, old, g.nextArg, _, hnode, hold, rfl, hr, fun n hn => ?_⟩
  rw [fixPoint?_output h hnode hold, hk] at hn
  rw [hfix]
  exact iff_of_true hn trivial

theorem redirectsOn_mergeTransposes : RedirectsOn Action.mergeTransposes "outer" ["x"] := by
  intro pattern hserves g id m pass deed g' h hacyclic hmatch hrun hnew
  obtain ⟨x, root, node, old, hx, hroot, hnode, hold, ⟨rfl, hbypass⟩ | ⟨order, rfl, hsupplant⟩⟩ :=
    mergeTransposes_eq_some hrun
  · exact redirected_of_bypass h hserves hmatch hroot hnode hold hacyclic
      (List.mem_singleton_self _) (.inl hx) hx (fun _ _ => Iff.rfl) hbypass
  · refine redirected_of_supplant h hserves hmatch hroot hnode hold rfl rfl ?_ rfl ?_ hsupplant
    · exact fun _ => ⟨rfl, hnew (by simp)⟩
    · intro n hn
      change (none <|> (g.log.fixPoint? old <|> node.attrInt? fixPointAttr)) = some n ↔
        ∀ k, g.log.fixPoint? old = some k → k = n
      -- The anchor prefers the log, the question at the tensor preferred its producer.
      cases hlog : g.log.fixPoint? old with
      | none =>
        rw [hlog] at hn
        simpa using hn
      | some k => simp

theorem redirectsOn_mergeReshapes : RedirectsOn Action.mergeReshapes "outer" ["x", "shape"] := by
  intro pattern hserves g id m pass deed g' h _ hmatch hrun hnew
  obtain ⟨x, shape, root, node, old, dims, -, -, hroot, hnode, hold, rfl, hsupplant⟩ :=
    mergeReshapes_eq_some hrun
  refine redirected_of_supplant h hserves hmatch hroot hnode hold rfl rfl ?_ rfl ?_ hsupplant
  · exact fun _ => ⟨rfl, hnew (by simp)⟩
  · intro n hn
    refine iff_of_true ?_ trivial
    -- The new node has the attributes of the one that it replaces.
    change (node.attrInt? fixPointAttr <|>
      (g.log.fixPoint? old <|> node.attrInt? fixPointAttr)) = some n
    cases hattr : node.attrInt? fixPointAttr with
    | none =>
      rw [hattr] at hn
      simpa using hn
    | some k =>
      rw [hattr] at hn
      exact hn

theorem redirects_of_builtin (b : Builtin) {p : RulePass} (hb : b.pass = .rules p) :
    ∀ spec ∈ p.rules, spec.Redirects := by
  intro spec hspec
  cases b with
  | removeIdentity =>
    cases hb
    obtain rfl := List.mem_singleton.mp hspec
    exact RuleSpec.redirects_of_redirectsOn redirectsOn_bypassIdentity (by decide +kernel)
  | qdqToFix =>
    cases hb
    obtain rfl := List.mem_singleton.mp hspec
    exact RuleSpec.redirects_of_redirectsOn redirectsOn_pairToFix (by decide +kernel)
  | fixCleanup =>
    cases hb
    simp only [fixCleanup, List.mem_cons, List.not_mem_nil, or_false] at hspec
    rcases hspec with rfl | rfl | rfl
    · exact RuleSpec.redirects_of_redirectsOn redirectsOn_foldRoundTrip (by decide +kernel)
    · exact RuleSpec.redirects_of_redirectsOn redirectsOn_bypassToInput (by decide +kernel)
    · exact RuleSpec.redirects_of_redirectsOn redirectsOn_bypassToInner (by decide +kernel)
  | foldFixConstant =>
    cases hb
    obtain rfl := List.mem_singleton.mp hspec
    exact RuleSpec.redirects_of_redirectsOn redirectsOn_foldConstant (by decide +kernel)
  | mergeTranspose =>
    cases hb
    obtain rfl := List.mem_singleton.mp hspec
    exact RuleSpec.redirects_of_redirectsOn redirectsOn_mergeTransposes (by decide +kernel)
  | mergeReshape =>
    cases hb
    obtain rfl := List.mem_singleton.mp hspec
    exact RuleSpec.redirects_of_redirectsOn redirectsOn_mergeReshapes (by decide +kernel)
  | foldAddZero =>
    cases hb
    obtain rfl := List.mem_singleton.mp hspec
    exact RuleSpec.redirects_of_redirectsOn redirectsOn_bypassAddZero (by decide +kernel)
  | partition => cases hb

/--
Where a rule fires, the readers of the first output of the matched node read the arg that takes
over. If the output had a fix-point, the arg has it exactly under the condition that goes with what
was done. Folding a round trip or a constant, collapsing two fix nodes and merging reshapes always
carry the fix-point over. A pair of conversions gets the fix-point of its scale, and of two
transposes the history counts before the node. An arg that is only handed on has it if it had it
before.
-/
theorem fixPoint_carried_iff (b : Builtin) {p : RulePass} (hb : b.pass = .rules p) {spec : RuleSpec}
    (hspec : spec ∈ p.rules) {pattern : Pattern} (hpattern : spec.pattern = .ok pattern)
    {g g' : Graph} (h : g.Indexed) (hacyclic : g.Acyclic) {id : NodeId} {m : Match}
    (hmatch : pattern.matchNode g id = .ok (some m)) {pass deed : String}
    (hrun : spec.act pass m g = .ok (some deed, g'))
    (hnew : deed ∈ ["transposes_merged", "reshapes_merged"] → g.log.events g.nextArg = []) :
    Redirected m g id deed g' := by
  obtain ⟨root, names, hon, hserves⟩ := redirects_of_builtin b hb spec hspec
  exact hon pattern (hserves pattern hpattern) g id m pass deed g' h hacyclic hmatch hrun hnew

def turnedEdits : List Graph.Mutation :=
  [.addInput "x" ⟨.float32, none⟩, .newArg "y" ⟨.float32, none⟩, .newArg "z" ⟨.float32, none⟩,
    .addNode ⟨"first", .standard "Transpose", [some ⟨0⟩], [some ⟨1⟩],
      {(permAttr, Attr.ints [1, 0, 2])}⟩,
    .addNode ⟨"second", .standard "Transpose", [some ⟨1⟩], [some ⟨2⟩],
      {(permAttr, Attr.ints [0, 2, 1])}⟩, .addOutput ⟨2⟩]

/-- The history of the turned tensor: it derives from one that was put on the grid of 3. -/
def turnedLog : Log :=
  (Log.empty.annotate ⟨1⟩ (.fixPoint 3) "quantize").record ⟨2⟩ ⟨some ⟨1⟩, .identity, "split"⟩

theorem fixPoint_carried_iff_turned : ∃ (g : Graph) (pattern : Pattern) (m : Match) (g' : Graph),
    (Graph.empty "turned").runAll turnedEdits = .ok g ∧ transposePattern = .ok pattern ∧
    pattern.matchNode { g with log := turnedLog } ⟨1⟩ = .ok (some m) ∧
    Action.mergeTransposes "merge_transpose" m { g with log := turnedLog } =
      .ok (some "transposes_merged", g') ∧
    { g with log := turnedLog }.fixPoint? ⟨2⟩ = .ok (some 3) ∧ g'.fixPoint? ⟨3⟩ = .ok (some 3) := by
  have hgraph : (do
      let g ← (Graph.empty "turned").runAll turnedEdits
      return (decide (∀ node ∈ g.liveNodes, ∀ a ∈ node.presentInputs, ∀ source ∈ g.producer? a,
        source.index < node.id.index), g.nextArg, (g.node? ⟨1⟩).bind fun node => node.output? 0)) =
        .ok (true, ⟨3⟩, some ⟨2⟩) := rfl
  have hfires : ∃ g ∈ ((Graph.empty "turned").runAll turnedEdits).toOption,
      ∃ pattern ∈ transposePattern.toOption,
      ∃ m ∈ (pattern.matchNode { g with log := turnedLog } ⟨1⟩).toOption.join,
      ∃ fired ∈ (Action.mergeTransposes "merge_transpose" m { g with log := turnedLog }).toOption,
        fired.1 = some "transposes_merged" ∧
        some 3 ∈ ({ g with log := turnedLog }.fixPoint? ⟨2⟩).toOption := by decide +kernel
  have hlog : turnedLog.events ⟨3⟩ = [] ∧ turnedLog.fixPoint? ⟨2⟩ = some 3 := by decide +kernel
  simp only [bind_eq_ok_iff, pure_eq_ok_iff, Prod.mk.injEq, decide_eq_true_eq] at hgraph
  obtain ⟨g, hedits, hascending, hnext, hout⟩ := hgraph
  obtain ⟨_, hg, pattern, hpattern, m, hm, ⟨deed, g'⟩, hfired, rfl, hthree⟩ := hfires
  cases hedits.symm.trans (eq_ok_of_mem_toOption hg)
  have hbuilt := eq_ok_of_mem_toOption hpattern
  have hmatch := eq_ok_of_mem_toOption (Option.join_eq_some_iff.mp hm)
  have hrun := eq_ok_of_mem_toOption hfired
  have hfix := eq_ok_of_mem_toOption hthree
  have hindexed := (Graph.Reachable.runAll (.empty "turned") hedits).indexed
  obtain ⟨node, old, new, supply, hnode, hold, hstandIn, -, hcarried⟩ :=
    fixPoint_carried_iff .mergeTranspose rfl (List.mem_singleton_self _) hbuilt
      (hindexed.setLog turnedLog) (hindexed.acyclic_of_ascending hascending) hmatch hrun
      fun _ => (congrArg turnedLog.events hnext).trans hlog.1
  rw [show g.node? ⟨1⟩ = some node from hnode, Option.bind_some, hold] at hout
  cases hout
  cases hnext.symm.trans (Option.some.inj hstandIn)
  refine ⟨g, pattern, m, g', hedits, hbuilt, hmatch, hrun, hfix, (hcarried 3 hfix).mpr ?_⟩
  intro k hk
  exact Option.some.inj (hk.symm.trans hlog.2)

def reverseEdits : List Graph.Mutation :=
  [.addInput "x" ⟨.int8, none⟩, .newArg "y" ⟨.float32, none⟩, .newArg "z" ⟨.int8, none⟩,
    .newArg "w" ⟨.int8, none⟩,
    .addNode ⟨"deq", .fix2float, [some ⟨0⟩], [some ⟨1⟩], {(fixPointAttr, Attr.int 3)}⟩,
    .addNode ⟨"quant", .float2fix, [some ⟨1⟩], [some ⟨2⟩], {(fixPointAttr, Attr.int 3)}⟩,
    .addNode ⟨"relu", .standard "Relu", [some ⟨2⟩], [some ⟨3⟩], ∅⟩, .addOutput ⟨3⟩]

/-- The tensor after the round trip has the fix-point 3; the input that takes over has none. -/
theorem fixPoint_lost_by_reverse : ∃ (g : Graph) (pattern : Pattern) (m : Match) (g' : Graph),
    (Graph.empty "reverse").runAll reverseEdits = .ok g ∧ g.Indexed ∧ g.Acyclic ∧
    conversionPattern .fix2float .float2fix = .ok pattern ∧
    pattern.matchNode g ⟨1⟩ = .ok (some m) ∧
    Action.bypassToInput "fix_cleanup" m g = .ok (some "roundtrips_bypassed", g') ∧
    standIn? m g "roundtrips_bypassed" = some ⟨0⟩ ∧ g.fixPoint? ⟨2⟩ = .ok (some 3) ∧
    g'.fixPoint? ⟨0⟩ = .ok none := by
  have hgraph : (do
      let g ← (Graph.empty "reverse").runAll reverseEdits
      return decide (∀ node ∈ g.liveNodes, ∀ a ∈ node.presentInputs, ∀ source ∈ g.producer? a,
        source.index < node.id.index)) = .ok true := rfl
  have hfires : ∃ g ∈ ((Graph.empty "reverse").runAll reverseEdits).toOption,
      ∃ pattern ∈ (conversionPattern .fix2float .float2fix).toOption,
      ∃ m ∈ (pattern.matchNode g ⟨1⟩).toOption.join,
      ∃ fired ∈ (Action.bypassToInput "fix_cleanup" m g).toOption,
        fired.1 = some "roundtrips_bypassed" ∧ m.namedArg? "x" = some ⟨0⟩ ∧
        some 3 ∈ (g.fixPoint? ⟨2⟩).toOption ∧ none ∈ (fired.2.fixPoint? ⟨0⟩).toOption := by
    decide +kernel
  simp only [bind_eq_ok_iff, pure_eq_ok_iff, decide_eq_true_eq] at hgraph
  obtain ⟨g, hedits, hascending⟩ := hgraph
  obtain ⟨_, hg, pattern, hpattern, m, hm, ⟨deed, g'⟩, hfired, rfl, hx, hthree, hnone⟩ := hfires
  cases hedits.symm.trans (eq_ok_of_mem_toOption hg)
  have hindexed := (Graph.Reachable.runAll (.empty "reverse") hedits).indexed
  exact ⟨g, pattern, m, g', hedits, hindexed, hindexed.acyclic_of_ascending hascending,
    eq_ok_of_mem_toOption hpattern, eq_ok_of_mem_toOption (Option.join_eq_some_iff.mp hm),
    eq_ok_of_mem_toOption hfired, hx, eq_ok_of_mem_toOption hthree,
    eq_ok_of_mem_toOption hnone⟩

end RulePass

end OpGraph
