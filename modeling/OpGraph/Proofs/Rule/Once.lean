import OpGraph.Proofs.Rule.NormalForm

/-!
Runs that offer every node once. Each scan follows a fresh order of the graph at hand, in which
nodes turn up that were offered before and nodes that rules have added. The handles of the first
graph that are still pending decide which of them are offered.
-/

namespace OpGraph

variable {σ : Type}

namespace Engine

section

variable (e : Engine σ)

def scanListed : List NodeId → Run σ → Except Fault (List NodeId × Option Firing × Run σ)
  | [], run => .ok ([], none, run)
  | id :: rest, run =>
    match run.graph.node? id with
    | none => scanListed rest run
    | some node =>
      if e.mode = .once ∧ id ∉ run.pending then
        scanListed rest run
      else do
        let pending := run.pending.erase id
        let (fired, g, ctx) ← offer id (e.candidates node) run.graph run.context
        match fired with
        | some rule => return ([id], some ⟨rule, node.name⟩, ⟨g, ctx, pending⟩)
        | none =>
          let (offered, outcome) ← scanListed rest ⟨g, ctx, pending⟩
          return (id :: offered, outcome)

def scansListed : Nat → Run σ → RunStats → Except Fault (List (List NodeId) × RunStats × Run σ)
  | 0, run, stats => do
    match ← e.scanListed (← e.order.nodes run.graph) run with
    | (offered, none, run) => return ([offered], stats.addScan, run)
    | (_, some firing, _) => throw (.budget e.budget e.name firing.rule firing.node)
  | left + 1, run, stats => do
    match ← e.scanListed (← e.order.nodes run.graph) run with
    | (offered, none, run) => return ([offered], stats.addScan, run)
    | (offered, some firing, run) =>
      let (offers, outcome) ← scansListed left run (stats.addScan.addFiring firing.rule)
      return (offered :: offers, outcome)

/-- A run that also lists, scan by scan, the nodes it offers. -/
def applyListed (g : Graph) (ctx : σ) :
    Except Fault (List (List NodeId) × RunStats × Graph × σ) := do
  let pending := match e.mode with
    | .once => Std.ExtTreeSet.ofList g.nodeIds compare
    | .fixedPoint => ∅
  let (offers, stats, run) ← e.scansListed e.budget ⟨g, ctx, pending⟩ .empty
  return (offers, stats, run.graph, run.context)

end

variable {e : Engine σ}

/-! ### The lists change nothing -/

theorem scan_eq_scanListed (ids : List NodeId) (run : Run σ) :
    e.scan ids run = Prod.snd <$> e.scanListed ids run := by
  induction ids generalizing run with
  | nil => rfl
  | cons id rest ih =>
    rw [scan, scanListed]
    cases run.graph.node? id with
    | none => exact ih run
    | some node =>
      dsimp only
      by_cases hpast : e.mode = .once ∧ id ∉ run.pending
      · rw [if_pos hpast, if_pos hpast, ih]
      · rw [if_neg hpast, if_neg hpast]
        cases offer id (e.candidates node) run.graph run.context with
        | error f => rfl
        | ok outcome =>
          obtain ⟨fired, g, ctx⟩ := outcome
          cases fired with
          | some rule => rfl
          | none =>
            refine (ih ⟨g, ctx, run.pending.erase id⟩).trans ?_
            rw [ok_bind]
            cases e.scanListed rest ⟨g, ctx, run.pending.erase id⟩ <;> rfl

theorem scans_eq_scansListed (left : Nat) (run : Run σ) (stats : RunStats) :
    e.scans left run stats = Prod.snd <$> e.scansListed left run stats := by
  induction left generalizing run stats with
  | zero =>
    rw [scans, scansListed, freshScan]
    cases e.order.nodes run.graph with
    | error f => rfl
    | ok ids =>
      rw [ok_bind, ok_bind, scan_eq_scanListed]
      cases e.scanListed ids run with
      | error f => rfl
      | ok outcome =>
        obtain ⟨offered, fired, run₁⟩ := outcome
        cases fired <;> rfl
  | succ left ih =>
    rw [scans, scansListed, freshScan]
    cases e.order.nodes run.graph with
    | error f => rfl
    | ok ids =>
      rw [ok_bind, ok_bind, scan_eq_scanListed]
      cases e.scanListed ids run with
      | error f => rfl
      | ok outcome =>
        obtain ⟨offered, fired, run₁⟩ := outcome
        cases fired with
        | none => rfl
        | some firing =>
          refine (ih run₁ (stats.addScan.addFiring firing.rule)).trans ?_
          rw [ok_bind]
          dsimp only
          cases e.scansListed left run₁ (stats.addScan.addFiring firing.rule) <;> rfl

theorem apply_eq_applyListed (g : Graph) (ctx : σ) :
    e.apply g ctx = Prod.snd <$> e.applyListed g ctx := by
  rw [apply, applyListed]
  dsimp only
  rw [scans_eq_scansListed]
  cases e.scansListed e.budget _ .empty <;> rfl

theorem scansListed_eq_ok {left : Nat} {run run' : Run σ} {stats stats' : RunStats}
    {offers : List (List NodeId)}
    (hrun : e.scansListed left run stats = .ok (offers, stats', run')) :
    ∃ ids offered fired run₁, e.order.nodes run.graph = .ok ids ∧
      e.scanListed ids run = .ok (offered, fired, run₁) ∧
      (fired = none ∧ offers = [offered] ∧ stats' = stats.addScan ∧ run' = run₁ ∨
      ∃ firing left' rest, fired = some firing ∧ left = left' + 1 ∧ offers = offered :: rest ∧
        e.scansListed left' run₁ (stats.addScan.addFiring firing.rule) =
          .ok (rest, stats', run')) := by
  cases left with
  | zero =>
    simp only [scansListed, bind_eq_ok_iff] at hrun
    obtain ⟨ids, hids, ⟨offered, fired, run₁⟩, hscan, hrun⟩ := hrun
    refine ⟨ids, offered, fired, run₁, hids, hscan, ?_⟩
    cases fired with
    | none =>
      cases hrun
      exact .inl ⟨rfl, rfl, rfl, rfl⟩
    | some firing => cases hrun
  | succ left =>
    simp only [scansListed, bind_eq_ok_iff] at hrun
    obtain ⟨ids, hids, ⟨offered, fired, run₁⟩, hscan, hrun⟩ := hrun
    refine ⟨ids, offered, fired, run₁, hids, hscan, ?_⟩
    cases fired with
    | none =>
      cases hrun
      exact .inl ⟨rfl, rfl, rfl, rfl⟩
    | some firing =>
      rw [bind_eq_ok_iff] at hrun
      obtain ⟨⟨rest, outcome⟩, hrest, hrun⟩ := hrun
      cases hrun
      exact .inr ⟨firing, left, rest, rfl, rfl, rfl, hrest⟩

/-! ### Every node is offered once -/

/-- Nodes that were pending and are no longer, each once. -/
structure Takes (offered : List NodeId) (pending pending' : Std.ExtTreeSet NodeId) : Prop where
  nodup : offered.Nodup
  mem_iff : ∀ id, id ∈ pending ↔ id ∈ offered ∨ id ∈ pending'
  apart : ∀ id ∈ offered, id ∉ pending'

namespace Takes

variable {pending pending' pending'' : Std.ExtTreeSet NodeId}

theorem nil (pending : Std.ExtTreeSet NodeId) : Takes [] pending pending := by
  constructor <;> simp

theorem single {id : NodeId} (hid : id ∈ pending) : Takes [id] pending (pending.erase id) := by
  constructor
  · exact List.nodup_singleton id
  · intro id'
    simp only [List.mem_singleton, Std.ExtTreeSet.mem_erase, ne_eq,
      Std.LawfulEqCmp.compare_eq_iff_eq]
    grind
  · intro id' hid'
    rw [List.mem_singleton.mp hid']
    simp

theorem append {first second : List NodeId} (h : Takes first pending pending')
    (h' : Takes second pending' pending'') : Takes (first ++ second) pending pending'' := by
  constructor
  · rw [List.nodup_append]
    refine ⟨h.nodup, h'.nodup, ?_⟩
    rintro id hid _ hid' rfl
    exact h.apart id hid ((h'.mem_iff id).mpr (.inl hid'))
  · intro id
    rw [h.mem_iff, h'.mem_iff, List.mem_append, or_assoc]
  · intro id hid hleft
    obtain hid | hid := List.mem_append.mp hid
    · exact h.apart id hid ((h'.mem_iff id).mpr (.inr hleft))
    · exact h'.apart id hid hleft

end Takes

section

variable (hmode : e.mode = .once)

include hmode

theorem scanListed_cons {id : NodeId} {rest : List NodeId} {run run' : Run σ}
    {offered : List NodeId}
    {fired : Option Firing} (hrun : e.scanListed (id :: rest) run = .ok (offered, fired, run')) :
    (run.graph.node? id = none ∨ id ∉ run.pending) ∧
        e.scanListed rest run = .ok (offered, fired, run') ∨
      id ∈ run.pending ∧ (offered = [id] ∧ fired.isSome ∧ run'.pending = run.pending.erase id ∨
        ∃ g ctx offered', offered = id :: offered' ∧
          e.scanListed rest ⟨g, ctx, run.pending.erase id⟩ = .ok (offered', fired, run')) := by
  rw [scanListed] at hrun
  split at hrun
  · next hgone => exact .inl ⟨.inl hgone, hrun⟩
  · split at hrun
    · next hpast => exact .inl ⟨.inr hpast.2, hrun⟩
    · next hdue =>
      refine .inr ⟨Decidable.byContradiction fun hnot => hdue ⟨hmode, hnot⟩, ?_⟩
      rw [bind_eq_ok_iff] at hrun
      obtain ⟨⟨outcome, g, ctx⟩, -, hrun⟩ := hrun
      cases outcome with
      | some rule =>
        cases hrun
        exact .inl ⟨rfl, rfl, rfl⟩
      | none =>
        rw [bind_eq_ok_iff] at hrun
        obtain ⟨⟨offered', outcome⟩, hrest, hrun⟩ := hrun
        cases hrun
        exact .inr ⟨g, ctx, offered', rfl, hrest⟩

theorem takes_of_scanListed (ids : List NodeId) {run run' : Run σ} {offered : List NodeId}
    {fired : Option Firing} (hrun : e.scanListed ids run = .ok (offered, fired, run')) :
    Takes offered run.pending run'.pending ∧ (fired.isSome → offered ≠ []) := by
  induction ids generalizing run offered with
  | nil =>
    cases hrun
    exact ⟨.nil _, by simp⟩
  | cons id rest ih =>
    obtain ⟨-, hrest⟩ | ⟨hid, ⟨rfl, -, hpending⟩ | ⟨g, ctx, offered', rfl, hrest⟩⟩ :=
      scanListed_cons hmode hrun
    · exact ih hrest
    · rw [hpending]
      exact ⟨.single hid, by simp⟩
    · obtain ⟨htakes, -⟩ := ih hrest
      exact ⟨(Takes.single hid).append htakes, by simp⟩

theorem takes_of_scansListed {left : Nat} {run run' : Run σ} {stats stats' : RunStats}
    {offers : List (List NodeId)}
    (hrun : e.scansListed left run stats = .ok (offers, stats', run')) :
    Takes offers.flatten run.pending run'.pending ∧ stats'.scans = stats.scans + offers.length ∧
      stats'.changes + 1 = stats.changes + offers.length ∧
      offers.length ≤ offers.flatten.length + 1 := by
  induction left using Nat.strongRecOn generalizing run stats offers with
  | ind left ih =>
    obtain ⟨ids, offered, fired, run₁, -, hscan, hcases⟩ := scansListed_eq_ok hrun
    obtain ⟨htakes, hsome⟩ := takes_of_scanListed hmode ids hscan
    obtain ⟨rfl, rfl, rfl, rfl⟩ | ⟨firing, left', rest, rfl, rfl, rfl, hrest⟩ := hcases
    · exact ⟨by simpa using htakes, rfl, rfl, by simp⟩
    · obtain ⟨htakes', hscans, hchanges, hlength⟩ := ih left' (Nat.lt_succ_self _) hrest
      have hoffered := List.length_pos_of_ne_nil (hsome rfl)
      simp only [RunStats.addFiring, RunStats.addScan] at hscans hchanges
      rw [List.flatten_cons, List.length_append, List.length_cons]
      exact ⟨htakes.append htakes', by omega, by omega, by omega⟩

variable (hquiet : ∀ node, ∀ rule ∈ e.candidates node, rule.Quiet)

include hquiet

omit hmode in
theorem graph_of_scanListed {ids : List NodeId} {run run' : Run σ} {offered : List NodeId}
    (hrun : e.scanListed ids run = .ok (offered, none, run')) : run'.graph = run.graph := by
  have hscan : e.scan ids run = .ok (none, run') := by
    rw [scan_eq_scanListed, hrun]
    rfl
  obtain ⟨-, hsame⟩ | ⟨hfired, -⟩ := scan_cases hquiet _ _ _ _ hscan
  · exact hsame
  · cases hfired

theorem not_mem_pending_of_scanListed (ids : List NodeId) {run run' : Run σ} {offered : List NodeId}
    (hrun : e.scanListed ids run = .ok (offered, none, run')) {id : NodeId} (hid : id ∈ ids)
    {node : Node} (hnode : run'.graph.node? id = some node) : id ∉ run'.pending := by
  induction ids generalizing run offered with
  | nil => cases hid
  | cons first rest ih =>
    have hsame := graph_of_scanListed hquiet hrun
    obtain ⟨hpast, hscan⟩ | ⟨-, ⟨-, hfired, -⟩ | ⟨g, ctx, offered', -, hscan⟩⟩ :=
      scanListed_cons hmode hrun
    · obtain rfl | hrest := List.mem_cons.mp hid
      · obtain ⟨htakes, -⟩ := takes_of_scanListed hmode rest hscan
        obtain hgone | hnot := hpast
        · rw [← hsame, hnode] at hgone
          cases hgone
        · exact fun hleft => hnot ((htakes.mem_iff id).mpr (.inr hleft))
      · exact ih hscan hrest
    · cases hfired
    · obtain rfl | hrest := List.mem_cons.mp hid
      · obtain ⟨htakes, -⟩ := takes_of_scanListed hmode rest hscan
        intro hleft
        have herased := (htakes.mem_iff id).mpr (.inr hleft)
        simp at herased
      · exact ih hscan hrest

theorem not_mem_pending_of_scansListed {left : Nat} {run run' : Run σ} {stats stats' : RunStats}
    {offers : List (List NodeId)} (hrun : e.scansListed left run stats = .ok (offers, stats', run'))
    {node : Node} (hnode : run'.graph.node? node.id = some node) : node.id ∉ run'.pending := by
  induction left using Nat.strongRecOn generalizing run stats offers with
  | ind left ih =>
    obtain ⟨ids, offered, fired, run₁, hids, hscan, hcases⟩ := scansListed_eq_ok hrun
    obtain ⟨rfl, -, -, rfl⟩ | ⟨firing, left', rest, -, rfl, -, hrest⟩ := hcases
    · rw [← graph_of_scanListed hquiet hscan] at hids
      have hlive : node.id ∈ run'.graph.nodeIds :=
        List.mem_map_of_mem (Graph.mem_liveNodes_iff.mpr ⟨node.id, hnode⟩)
      obtain ⟨order, horder, hmem⟩ := ScanOrder.nodes_eq_ok hids
      have hid := (hmem node.id).mpr (Graph.mem_of_orderOrFault horder hlive)
      exact not_mem_pending_of_scanListed hmode hquiet ids hscan hid hnode
    · exact ih left' (Nat.lt_succ_self _) hrest

end

theorem applyListed_eq_ok (hmode : e.mode = .once) {g g' : Graph} {ctx ctx' : σ}
    {offers : List (List NodeId)} {stats : RunStats}
    (hrun : e.applyListed g ctx = .ok (offers, stats, g', ctx')) :
    ∃ pending pending', (∀ id, id ∈ pending ↔ id ∈ g.nodeIds) ∧
      e.scansListed e.budget ⟨g, ctx, pending⟩ .empty =
        .ok (offers, stats, ⟨g', ctx', pending'⟩) := by
  rw [applyListed, hmode, bind_eq_ok_iff] at hrun
  obtain ⟨⟨offers, stats, last⟩, hscans, hrun⟩ := hrun
  cases hrun
  exact ⟨_, last.pending, by simp, hscans⟩

end Engine

/--
A run that offers nodes once offers each node of the first graph at most once and no other node. So
it has no more firings than the graph had nodes. If rules that do not fire leave the graph alone,
each node that is left was offered.
-/
theorem RuleChain.once_offers_each_node (chain : RuleChain σ) (hmode : chain.mode = .once)
    {g g' : Graph} {ctx ctx' : σ} {stats : RunStats}
    (hrun : chain.apply g ctx = .ok (stats, g', ctx')) :
    ∃ offers, chain.engine.applyListed g ctx = .ok (offers, stats, g', ctx') ∧
      stats.changes ≤ g.liveNodes.length ∧ stats.scans = stats.changes + 1 ∧
      offers.length = stats.scans ∧ (∀ id ∈ offers.flatten, id ∈ g.nodeIds) ∧
      offers.flatten.Nodup ∧
      ((∀ node, ∀ rule ∈ chain.candidates node, rule.Quiet) → ∀ id ∈ g.nodeIds, ∀ node,
        g'.node? id = some node → node.id = id → offers.flatten.count id = 1) := by
  have happly : chain.engine.apply g ctx = .ok (stats, g', ctx') := hrun
  rw [Engine.apply_eq_applyListed, map_eq_ok_iff] at happly
  obtain ⟨⟨offers, outcome⟩, hlisted, rfl⟩ := happly
  obtain ⟨pending, pending', hpending, hscans⟩ := Engine.applyListed_eq_ok hmode hlisted
  obtain ⟨htakes, hscanned, hchanged, hlength⟩ := Engine.takes_of_scansListed hmode hscans
  have hscanned : stats.scans = offers.length := by simpa [RunStats.empty] using hscanned
  have hchanged : stats.changes + 1 = offers.length := by simpa [RunStats.empty] using hchanged
  have hfirst : ∀ id ∈ offers.flatten, id ∈ g.nodeIds := fun id hid =>
    (hpending id).mp ((htakes.mem_iff id).mpr (.inl hid))
  refine ⟨offers, hlisted, ?_, by omega, hscanned.symm, hfirst, htakes.nodup, ?_⟩
  · have hle : offers.flatten.length ≤ g.nodeIds.length :=
      (List.subperm_of_subset htakes.nodup hfirst).length_le
    rw [Graph.nodeIds, List.length_map] at hle
    omega
  · rintro hquiet _ hid node hnode rfl
    have hdone := Engine.not_mem_pending_of_scansListed hmode hquiet hscans hnode
    have hoffered := ((htakes.mem_iff node.id).mp ((hpending node.id).mpr hid)).resolve_right hdone
    exact List.count_eq_one_of_mem htakes.nodup hoffered

def rowEdits : List Graph.Mutation :=
  [.addInput "x" ⟨.float32, none⟩, .newArg "y" ⟨.float32, none⟩, .newArg "z" ⟨.float32, none⟩,
    .addNode ⟨"relu", .standard "Relu", [some ⟨0⟩], [some ⟨1⟩], ∅⟩,
    .addNode ⟨"neg", .standard "Neg", [some ⟨1⟩], [some ⟨2⟩], ∅⟩, .addOutput ⟨2⟩]

def copying (p : Pattern) : Rule Nat :=
  ⟨"copy", p, fun _ g n => do
    let g' ← g.runAll [.newArg ("c" ++ toString n) ⟨.float32, none⟩,
      .addNode ⟨"copy" ++ toString n, .standard "Relu", [], [some ⟨g.args.size⟩], ∅⟩]
    return (true, g', n + 1)⟩

theorem quiet_copying (p : Pattern) : (copying p).Quiet := by
  intro m g n g' n' haction
  simp only [copying, bind_eq_ok_iff] at haction
  obtain ⟨g₁, -, haction⟩ := haction
  cases haction

/-- A rule that fires on everything, also on what it adds, ends after both nodes were offered. -/
theorem RuleChain.once_offers_each_node_copy :
    ∃ (g g' : Graph) (b : PatternBuilder) (p : Pattern) (chain : RuleChain Nat) (stats : RunStats)
      (n : Nat) (offers : List (List NodeId)),
      (Graph.empty "row").runAll rowEdits = .ok g ∧
      BuilderCall.runAll [.wildcard] .empty = .ok b ∧ b.freeze ⟨0⟩ = .ok p ∧
      RuleChain.ofRules "copy" .once .topological 10 [copying p] = .ok chain ∧
      chain.apply g 0 = .ok (stats, g', n) ∧
      chain.engine.applyListed g 0 = .ok (offers, stats, g', n) ∧
      stats.changes = 2 ∧ stats.scans = 3 ∧ g'.nodeIds.length = 4 ∧ offers.flatten.Nodup ∧
      offers.flatten.count ⟨1⟩ = 1 := by
  have hruns : ∃ g ∈ ((Graph.empty "row").runAll rowEdits).toOption, ⟨1⟩ ∈ g.nodeIds ∧
      ∃ b ∈ (BuilderCall.runAll [.wildcard] .empty).toOption, ∃ p ∈ (b.freeze ⟨0⟩).toOption,
      ∃ chain ∈ (RuleChain.ofRules "copy" .once .topological 10 [copying p]).toOption,
      ∃ outcome ∈ (chain.apply g 0).toOption, outcome.1.changes = 2 ∧ outcome.1.scans = 3 ∧
      outcome.2.1.nodeIds.length = 4 ∧ ∃ node ∈ outcome.2.1.node? ⟨1⟩, node.id = ⟨1⟩ := by
    decide +kernel
  obtain ⟨g, hg, hid, b, hb, p, hp, chain, hchain, ⟨stats, g', n⟩, hrun, hchanges, hscans, hlength,
    node, hnode, hnodeId⟩ := hruns
  have hpattern := Pattern.Obtained.built (eq_ok_of_mem_toOption hb) (eq_ok_of_mem_toOption hp)
  have hvalid : ∀ rule ∈ [copying p], rule.pattern.Valid := by simpa [copying] using hpattern.valid
  obtain ⟨chain', hchain', hkeeps, hsetup⟩ := ofRules_succeeds hvalid "copy" .once .topological 10
  cases (eq_ok_of_mem_toOption hchain).symm.trans hchain'
  have hquiet : ∀ node, ∀ rule ∈ chain.candidates node, rule.Quiet := by
    intro node rule hrule
    rw [List.mem_singleton.mp (hkeeps.mem_rules hrule)]
    exact quiet_copying p
  obtain ⟨offers, hlisted, -, -, -, -, hnodup, hoffered⟩ :=
    once_offers_each_node chain (by rw [hsetup]) (eq_ok_of_mem_toOption hrun)
  exact ⟨g, g', b, p, chain, stats, n, offers, eq_ok_of_mem_toOption hg, eq_ok_of_mem_toOption hb,
    eq_ok_of_mem_toOption hp, hchain', eq_ok_of_mem_toOption hrun, hlisted, hchanges, hscans,
    hlength, hnodup, hoffered hquiet ⟨1⟩ hid node hnode hnodeId⟩

end OpGraph
