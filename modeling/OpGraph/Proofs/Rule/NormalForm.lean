import OpGraph.Proofs.Graph.Faults
import OpGraph.Proofs.Graph.Order
import OpGraph.Proofs.Rule.Dispatch
import OpGraph.Proofs.Rule.Firings

/-!
Runs to a fixed point. A run offers the nodes again after every firing, in an order of the new
graph, and returns after a scan in which nothing fires. In that scan every live node was offered to
every rule that could match it, on one and the same graph, so that no rule fires on the graph that
is returned.
-/

namespace OpGraph

open Pattern

variable {σ : Type}

namespace Rule

/-- An action that declines does so in every context. -/
def Steady (rule : Rule σ) : Prop :=
  ∀ m g ctx g' ctx', rule.action m g ctx = .ok (false, g', ctx') →
    ∀ other, ∃ g'' other', rule.action m g other = .ok (false, g'', other')

def Declines (rule : Rule σ) (g : Graph) (id : NodeId) : Prop :=
  ∀ ctx, ∃ ctx', rule.tryApply id g ctx = .ok (false, g, ctx')

def FaultsOn (rule : Rule σ) (g : Graph) (f : Fault) : Prop :=
  ∃ id m ctx, rule.pattern.matchNode g id = .ok (some m) ∧ rule.action m g ctx = .error f

variable {rule : Rule σ} {g : Graph} {id : NodeId}

theorem declines_of_tryApply (hquiet : rule.Quiet) (hsteady : rule.Steady) {g' : Graph}
    {ctx ctx' : σ}
    (hrun : rule.tryApply id g ctx = .ok (false, g', ctx')) : g' = g ∧ rule.Declines g id := by
  rw [tryApply, bind_eq_ok_iff] at hrun
  obtain ⟨found, hmatch, hrun⟩ := hrun
  cases found with
  | none =>
    cases hrun
    refine ⟨rfl, fun other => ⟨other, ?_⟩⟩
    rw [tryApply, hmatch]
    rfl
  | some m =>
    refine ⟨hquiet m g ctx g' ctx' hrun, fun other => ?_⟩
    obtain ⟨g'', other', haction⟩ := hsteady m g ctx g' ctx' hrun other
    obtain rfl := hquiet m g other g'' other' haction
    refine ⟨other', ?_⟩
    rw [tryApply, hmatch]
    exact haction

theorem graph_of_tryApply (hquiet : rule.Quiet) {g' : Graph} {ctx ctx' : σ}
    (hrun : rule.tryApply id g ctx = .ok (false, g', ctx')) : g' = g := by
  rw [tryApply, bind_eq_ok_iff] at hrun
  obtain ⟨found, -, hrun⟩ := hrun
  cases found with
  | none =>
    cases hrun
    rfl
  | some m => exact hquiet m g ctx g' ctx' hrun

theorem faultsOn_of_tryApply (h : g.Indexed) (hp : rule.pattern.Valid) {node : Node}
    (hnode : g.node? id = some node) {ctx : σ} {f : Fault}
    (hrun : rule.tryApply id g ctx = .error f) : rule.FaultsOn g f := by
  obtain ⟨found, hmatch⟩ := matchNode_succeeds h hp hnode
  rw [tryApply, hmatch, ok_bind] at hrun
  cases found with
  | none => cases hrun
  | some m => exact ⟨id, m, ctx, hmatch, hrun⟩

end Rule

/-- What a rule has to be like for its runs to have an end that means something. -/
structure Rule.Tame (rule : Rule σ) : Prop where
  pattern : rule.pattern.Obtained
  indexed : rule.KeepsIndexed
  quiet : rule.Quiet
  steady : rule.Steady

namespace Engine

variable {e : Engine σ} {rules : List (Rule σ)} {g : Graph} {id : NodeId}

/-! ### One node -/

theorem declines_of_offer (hrules : ∀ rule ∈ rules, rule.Quiet ∧ rule.Steady) {g' : Graph}
    {ctx ctx' : σ} (hrun : offer id rules g ctx = .ok (none, g', ctx')) :
    g' = g ∧ ∀ rule ∈ rules, rule.Declines g id := by
  induction rules generalizing ctx with
  | nil =>
    cases hrun
    exact ⟨rfl, by simp⟩
  | cons rule rest ih =>
    rw [List.forall_mem_cons] at hrules
    rw [offer, bind_eq_ok_iff] at hrun
    obtain ⟨⟨fired, g₁, ctx₁⟩, htry, hrun⟩ := hrun
    cases fired with
    | true => cases hrun
    | false =>
      obtain ⟨rfl, hdeclines⟩ := Rule.declines_of_tryApply hrules.1.1 hrules.1.2 htry
      obtain ⟨rfl, hrest⟩ := ih hrules.2 hrun
      exact ⟨rfl, List.forall_mem_cons.mpr ⟨hdeclines, hrest⟩⟩

theorem offer_of_declines (hdeclines : ∀ rule ∈ rules, rule.Declines g id) (ctx : σ) :
    ∃ ctx', offer id rules g ctx = .ok (none, g, ctx') := by
  induction rules generalizing ctx with
  | nil => exact ⟨ctx, rfl⟩
  | cons rule rest ih =>
    rw [List.forall_mem_cons] at hdeclines
    obtain ⟨ctx₁, htry⟩ := hdeclines.1 ctx
    obtain ⟨ctx₂, hrest⟩ := ih hdeclines.2 ctx₁
    refine ⟨ctx₂, ?_⟩
    rw [offer, htry]
    exact hrest

theorem faultsOn_of_offer (h : g.Indexed)
    (hrules : ∀ rule ∈ rules, rule.Quiet ∧ rule.pattern.Valid) {node : Node}
    (hnode : g.node? id = some node) {ctx : σ} {f : Fault}
    (hrun : offer id rules g ctx = .error f) : ∃ rule ∈ rules, rule.FaultsOn g f := by
  induction rules generalizing ctx with
  | nil => cases hrun
  | cons rule rest ih =>
    rw [List.forall_mem_cons] at hrules
    rw [offer] at hrun
    cases htry : rule.tryApply id g ctx with
    | error e =>
      rw [htry] at hrun
      cases hrun
      exact ⟨rule, List.mem_cons_self, Rule.faultsOn_of_tryApply h hrules.1.2 hnode htry⟩
    | ok result =>
      obtain ⟨fired, g₁, ctx₁⟩ := result
      rw [htry, ok_bind] at hrun
      cases fired with
      | true => cases hrun
      | false =>
        obtain rfl := Rule.graph_of_tryApply hrules.1.1 htry
        obtain ⟨r, hr, hfaults⟩ := ih hrules.2 hrun
        exact ⟨r, List.mem_cons_of_mem _ hr, hfaults⟩

/-! ### One scan -/

section Scan

variable (hmode : e.mode = .fixedPoint)

include hmode

theorem scan_cons {node : Node} {run : Run σ} (hnode : run.graph.node? id = some node)
    (rest : List NodeId) : e.scan (id :: rest) run =
      offer id (e.candidates node) run.graph run.context >>= fun outcome =>
        match outcome.1 with
        | some rule =>
          .ok (some ⟨rule, node.name⟩, ⟨outcome.2.1, outcome.2.2, run.pending.erase id⟩)
        | none => e.scan rest ⟨outcome.2.1, outcome.2.2, run.pending.erase id⟩ := by
  rw [scan, hnode]
  exact if_neg fun honce => by cases hmode.symm.trans honce.1

theorem declines_of_scan
    (hrules : ∀ node, ∀ rule ∈ e.candidates node, rule.Quiet ∧ rule.Steady) {ids : List NodeId}
    {run run' : Run σ} (hrun : e.scan ids run = .ok (none, run')) :
    run'.graph = run.graph ∧ ∀ id ∈ ids, ∀ node, run.graph.node? id = some node →
      ∀ rule ∈ e.candidates node, rule.Declines run.graph id := by
  induction ids generalizing run with
  | nil =>
    cases hrun
    exact ⟨rfl, by simp⟩
  | cons id rest ih =>
    cases hnode : run.graph.node? id with
    | none =>
      rw [scan, hnode] at hrun
      obtain ⟨hgraph, hrest⟩ := ih hrun
      exact ⟨hgraph, List.forall_mem_cons.mpr ⟨by simp [hnode], hrest⟩⟩
    | some node =>
      rw [scan_cons hmode hnode, bind_eq_ok_iff] at hrun
      obtain ⟨⟨fired, g₁, ctx₁⟩, hoffer, hrun⟩ := hrun
      cases fired with
      | some rule => cases hrun
      | none =>
        obtain ⟨rfl, hdeclines⟩ := declines_of_offer (hrules node) hoffer
        obtain ⟨hgraph, hrest⟩ := ih hrun
        refine ⟨hgraph, List.forall_mem_cons.mpr ⟨?_, hrest⟩⟩
        intro node' hnode'
        cases hnode.symm.trans hnode'
        exact hdeclines

theorem scan_of_declines {ids : List NodeId} (run : Run σ)
    (hdeclines : ∀ id ∈ ids, ∀ node, run.graph.node? id = some node →
      ∀ rule ∈ e.candidates node, rule.Declines run.graph id) :
    ∃ run', e.scan ids run = .ok (none, run') ∧ run'.graph = run.graph := by
  induction ids generalizing run with
  | nil => exact ⟨run, rfl, rfl⟩
  | cons id rest ih =>
    rw [List.forall_mem_cons] at hdeclines
    cases hnode : run.graph.node? id with
    | none =>
      rw [scan, hnode]
      exact ih run hdeclines.2
    | some node =>
      obtain ⟨ctx₁, hoffer⟩ := offer_of_declines (hdeclines.1 node hnode) run.context
      rw [scan_cons hmode hnode, hoffer, ok_bind]
      exact ih ⟨run.graph, ctx₁, run.pending.erase id⟩ hdeclines.2

theorem faultsOn_of_scan
    (hrules : ∀ node, ∀ rule ∈ e.candidates node, rule.Quiet ∧ rule.pattern.Valid)
    {ids : List NodeId}
    (run : Run σ) (h : run.graph.Indexed) {f : Fault} (hrun : e.scan ids run = .error f) :
    ∃ node, ∃ rule ∈ e.candidates node, rule.FaultsOn run.graph f := by
  induction ids generalizing run with
  | nil => cases hrun
  | cons id rest ih =>
    cases hnode : run.graph.node? id with
    | none =>
      rw [scan, hnode] at hrun
      exact ih run h hrun
    | some node =>
      rw [scan_cons hmode hnode] at hrun
      cases hoffer : offer id (e.candidates node) run.graph run.context with
      | error f' =>
        rw [hoffer] at hrun
        cases hrun
        exact ⟨node, faultsOn_of_offer h (hrules node) hnode hoffer⟩
      | ok result =>
        obtain ⟨fired, g₁, ctx₁⟩ := result
        rw [hoffer, ok_bind] at hrun
        cases fired with
        | some rule => cases hrun
        | none =>
          obtain ⟨-, rfl⟩ | ⟨hfired, -⟩ := offer_cases _ (fun r hr => (hrules node r hr).1) _ hoffer
          · exact ih ⟨run.graph, ctx₁, run.pending.erase id⟩ h hrun
          · cases hfired

end Scan

/-! ### All scans -/

theorem indexed_of_performs (htame : ∀ node, ∀ rule ∈ e.candidates node, rule.Tame)
    {run last : Run σ} {firings : List Firing} (hperforms : e.Performs run firings last)
    (h : run.graph.Indexed) : last.graph.Indexed := by
  refine hperforms.keeps (fun node rule hrule => (htame node rule hrule).quiet) ?_ h
  rintro g g' order hg - node rule hrule ⟨id, m, ctx, ctx', -, haction⟩
  exact (htame node rule hrule).indexed m g ctx true g' ctx' hg haction

theorem declines_of_freshScan (hmode : e.mode = .fixedPoint)
    (hrules : ∀ node, ∀ rule ∈ e.candidates node, rule.Quiet ∧ rule.Steady) {run run' : Run σ}
    (h : run.graph.Indexed) (hrun : e.freshScan run = .ok (none, run')) :
    run'.graph = run.graph ∧ ∀ id node, run.graph.node? id = some node →
      ∀ rule ∈ e.candidates node, rule.Declines run.graph id := by
  obtain ⟨order, ids, horder, hids, -, hscan⟩ := freshScan_eq_ok hrun
  obtain ⟨hgraph, hdeclines⟩ := declines_of_scan hmode hrules hscan
  refine ⟨hgraph, ?_⟩
  intro id node hnode
  apply hdeclines id _ node hnode
  rw [hids, (h.orderOrFault_lists horder).2, h.mem_nodeIds]
  exact ⟨node, hnode⟩

theorem apply_of_declines (hmode : e.mode = .fixedPoint) {ids : List NodeId}
    (hids : e.order.nodes g = .ok ids) (hdeclines : ∀ id node, g.node? id = some node →
      ∀ rule ∈ e.candidates node, rule.Declines g id) (ctx : σ) :
    ∃ ctx', e.apply g ctx = .ok (⟨1, 0, ∅⟩, g, ctx') := by
  obtain ⟨run, hscan, hgraph⟩ :=
    scan_of_declines hmode ⟨g, ctx, ∅⟩ fun id (_ : id ∈ ids) => hdeclines id
  have hfresh : e.freshScan ⟨g, ctx, ∅⟩ = .ok (none, run) := by
    rw [freshScan, hids]
    exact hscan
  have hscans : e.scans e.budget ⟨g, ctx, ∅⟩ .empty = .ok (RunStats.empty.addScan, run) := by
    cases e.budget <;> rw [scans, hfresh] <;> rfl
  refine ⟨run.context, ?_⟩
  rw [apply_fixedPoint hmode, hscans]
  exact congrArg (fun s => Except.ok (_, s, run.context)) hgraph

end Engine

/-! ### Chains -/

namespace RuleChain

def engine (chain : RuleChain σ) : Engine σ :=
  ⟨chain.name, chain.candidates, chain.mode, chain.order, chain.budget⟩

/-- How a run to a fixed point of a chain with the given rules ends after some firings. -/
inductive Ends (chain : RuleChain σ) (rules : List (Rule σ)) (g : Graph) (ctx : σ)
    (firings : List Firing) (last : Run σ) : Prop where
  /-- It returns the last graph, on which no rule fires; another run does nothing. -/
  | returned {stats : RunStats} {ctx' : σ}
    (hrun : chain.apply g ctx = .ok (stats, last.graph, ctx'))
    (hchanges : stats.changes = firings.length) (hbudget : stats.changes ≤ chain.budget)
    (hscans : stats.scans = stats.changes + 1)
    (hsum : (stats.perRule.toList.map Prod.snd).sum = stats.changes)
    (hnormal : ∀ rule ∈ rules, ∀ id node, last.graph.node? id = some node →
      rule.Declines last.graph id)
    (hagain : ∃ ctx'', chain.apply last.graph ctx' = .ok (⟨1, 0, ∅⟩, last.graph, ctx''))
  /-- The budget is used up. -/
  | exhausted {firing : Firing} (hlast : firings.getLast? = some firing)
    (hlength : firings.length = chain.budget + 1)
    (hrun : chain.apply g ctx = .error (.budget chain.budget chain.name firing.rule firing.node))
  /-- The last graph has no order: there is a cycle, or a node gives an arg twice. -/
  | unordered {f : Fault} (horder : last.graph.orderOrFault = .error f)
    (hcycle : last.graph.Consistent → ¬ last.graph.Acyclic) (hrun : chain.apply g ctx = .error f)
  /-- An action ends in a fault. -/
  | faulted {f : Fault} (haction : ∃ rule ∈ rules, rule.FaultsOn last.graph f)
    (hrun : chain.apply g ctx = .error f)

theorem orderOrFault_succeeds {g : Graph} (h : g.Consistent) (hacyclic : g.Acyclic) :
    ∃ order, g.orderOrFault = .ok order := by
  obtain ⟨order, horder⟩ := h.topologicalOrder_succeeds hacyclic
  exact ⟨order, by rw [Graph.orderOrFault, horder]⟩

section Run

variable {chain : RuleChain σ} {rules : List (Rule σ)} (hkeeps : chain.Keeps rules)
  (htame : ∀ rule ∈ rules, rule.Tame)

include hkeeps

theorem Keeps.mem_rules {node : Node} {rule : Rule σ}
    (hrule : rule ∈ chain.engine.candidates node) : rule ∈ rules := by
  have hcandidate : rule ∈ chain.candidates node := hrule
  rw [hkeeps.candidates] at hcandidate
  exact mem_arranged.mp (List.mem_of_mem_filter hcandidate)

include htame

theorem Keeps.declines {g : Graph} (h : g.Indexed)
    (hdeclines : ∀ id node, g.node? id = some node →
      ∀ rule ∈ chain.engine.candidates node, rule.Declines g id) :
    ∀ rule ∈ rules, ∀ id node, g.node? id = some node → rule.Declines g id := by
  intro rule hrule id node hnode
  cases hsuits : rule.suits node.key with
  | true =>
    have hcandidate : rule ∈ chain.candidates node := by
      rw [hkeeps.candidates, List.mem_filter, mem_arranged]
      exact ⟨hrule, hsuits⟩
    exact hdeclines id node hnode rule hcandidate
  | false =>
    intro ctx
    exact ⟨ctx, Rule.tryApply_of_not_suits h (htame rule hrule).pattern.valid hnode hsuits ctx⟩

theorem Keeps.ends (hmode : chain.mode = .fixedPoint) {g : Graph} (hg : g.Indexed) (ctx : σ) :
    ∃ firings last, chain.engine.Performs ⟨g, ctx, ∅⟩ firings last ∧
      firings.length ≤ chain.budget + 1 ∧ chain.Ends rules g ctx firings last := by
  have hcandidates : ∀ node, ∀ rule ∈ chain.engine.candidates node, rule.Tame :=
    fun node rule hrule => htame rule (hkeeps.mem_rules hrule)
  obtain ⟨firings, last, outcome, hperforms, hends, hrun⟩ :=
    Engine.apply_ends (e := chain.engine) hmode g ctx
  have hlast : last.graph.Indexed := Engine.indexed_of_performs hcandidates hperforms hg
  refine ⟨firings, last, hperforms, ?_⟩
  cases hends with
  | @rest run' hle hscan =>
    obtain ⟨hgraph, hdeclines⟩ := Engine.declines_of_freshScan hmode
      (fun node rule hrule =>
        ⟨(hcandidates node rule hrule).quiet, (hcandidates node rule hrule).steady⟩)
      hlast hscan
    obtain ⟨-, ids, -, -, hids, -⟩ := Engine.freshScan_eq_ok hscan
    obtain ⟨hchanges, hscans⟩ := RunStats.empty.counted_addFirings firings
    have hsum := (RunStats.counts_empty.addFirings firings).sum_eq
    rw [List.nil_append, List.length_map] at hsum
    simp only [RunStats.empty, Nat.zero_add] at hchanges hscans
    have hreturned : chain.apply g ctx = .ok (_, run'.graph, run'.context) := hrun
    rw [hgraph] at hreturned
    refine ⟨Nat.le_succ_of_le hle, .returned hreturned hchanges ?_ ?_ ?_ ?_ ?_⟩
    · exact hchanges.trans_le hle
    · exact congrArg Nat.succ (hscans.trans hchanges.symm)
    · exact hsum.trans hchanges.symm
    · exact hkeeps.declines htame hlast hdeclines
    · exact Engine.apply_of_declines hmode hids hdeclines run'.context
  | budget hlength hfiring => exact ⟨Nat.le_of_eq hlength, .exhausted hfiring hlength hrun⟩
  | @fault f hle hscan =>
    refine ⟨Nat.le_succ_of_le hle, ?_⟩
    rcases Engine.freshScan_eq_error hscan with horder | ⟨ids, hscan⟩
    · refine .unordered horder ?_ hrun
      intro hconsistent hacyclic
      obtain ⟨order, hfound⟩ := orderOrFault_succeeds hconsistent hacyclic
      rw [hfound] at horder
      cases horder
    · have hrules : ∀ node, ∀ rule ∈ chain.engine.candidates node,
          rule.Quiet ∧ rule.pattern.Valid := fun node rule hrule =>
        ⟨(hcandidates node rule hrule).quiet, (hcandidates node rule hrule).pattern.valid⟩
      obtain ⟨node, rule, hrule, hfaults⟩ := Engine.faultsOn_of_scan hmode hrules last hlast hscan
      exact .faulted ⟨rule, hkeeps.mem_rules hrule, hfaults⟩ hrun

end Run

/--
A run to a fixed point has at most one firing more than its budget allows. Then it has returned,
with no rule firing on any live node any more, or it has ended in a fault: at the budget, for want
of an order or in an action.
-/
theorem ends_at_fixed_point {rules : List (Rule σ)} (htame : ∀ rule ∈ rules, rule.Tame)
    (name : String) (order : ScanOrder) (budget : Nat) {g : Graph} (hg : g.Indexed) (ctx : σ) :
    ∃ chain, ofRules name .fixedPoint order budget rules = .ok chain ∧ chain.budget = budget ∧
      ∃ firings last, chain.engine.Performs ⟨g, ctx, ∅⟩ firings last ∧
        firings.length ≤ budget + 1 ∧ chain.Ends rules g ctx firings last := by
  obtain ⟨chain, hchain, hkeeps, hsetup⟩ := ofRules_succeeds
    (fun rule hrule => (htame rule hrule).pattern.valid) name .fixedPoint order budget
  have hmode : chain.mode = .fixedPoint := by rw [hsetup]
  have hbudget : chain.budget = budget := by rw [hsetup]
  refine ⟨chain, hchain, hbudget, ?_⟩
  rw [← hbudget]
  exact hkeeps.ends htame hmode hg ctx

theorem tame_counting {p : Pattern} (hp : p.Obtained) : (counting p).Tame where
  pattern := hp
  indexed := (edits_counting p).keepsIndexed
  quiet m g n g' n' haction := by
    cases haction
    rfl
  steady m g n g' n' haction other := ⟨g, other + 1, rfl⟩

theorem tame_dropping {p : Pattern} (hp : p.Obtained) : (dropping true p).Tame where
  pattern := hp
  indexed := (edits_dropping true p).keepsIndexed
  quiet m g n g' n' haction := by
    simp only [dropping] at haction
    split at haction
    · cases haction
      rfl
    · rw [bind_eq_ok_iff] at haction
      obtain ⟨g₁, -, haction⟩ := haction
      cases haction
  steady m g n g' n' haction other := by
    simp only [dropping] at haction ⊢
    split at haction
    · exact ⟨g, other, rfl⟩
    · rw [bind_eq_ok_iff] at haction
      obtain ⟨g₁, -, haction⟩ := haction
      cases haction

def strayEdits : List Graph.Mutation :=
  [.addInput "x" ⟨.float32, none⟩, .newArg "y" ⟨.float32, none⟩, .newArg "z" ⟨.float32, none⟩,
    .newArg "w" ⟨.float32, none⟩, .addNode ⟨"relu", .standard "Relu", [some ⟨0⟩], [some ⟨1⟩], ∅⟩,
    .addNode ⟨"neg", .standard "Neg", [some ⟨0⟩], [some ⟨2⟩], ∅⟩,
    .addNode ⟨"abs", .standard "Abs", [some ⟨2⟩], [some ⟨3⟩], ∅⟩, .addOutput ⟨1⟩]

def strayCalls : List BuilderCall :=
  [.wildcard, .node (.standard "Neg") [(⟨0⟩, false)] [], .node (.standard "Abs") [(⟨0⟩, false)] [],
    .anyOf [⟨1⟩, ⟨2⟩]]

theorem ends_at_fixed_point_drop :
    ∃ (g : Graph) (b : PatternBuilder) (p q : Pattern) (chain : RuleChain Nat)
      (result : RunStats × Graph × Nat) (firings : List Firing) (last : Run Nat),
      (Graph.empty "tidy").runAll strayEdits = .ok g ∧
      BuilderCall.runAll strayCalls .empty = .ok b ∧
      b.freeze ⟨0⟩ = .ok p ∧ b.freeze ⟨3⟩ = .ok q ∧ g.Indexed ∧
      ofRules "tidy" .fixedPoint .reverseTopological 2 [counting p, dropping true q] = .ok chain ∧
      chain.apply g 0 = .ok result ∧ result.1.changes = 2 ∧
      chain.engine.Performs ⟨g, 0, ∅⟩ firings last ∧ firings.length ≤ 3 ∧
      chain.Ends [counting p, dropping true q] g 0 firings last := by
  have hrun : (do
      let g ← (Graph.empty "tidy").runAll strayEdits
      let b ← BuilderCall.runAll strayCalls .empty
      let p ← b.freeze ⟨0⟩
      let q ← b.freeze ⟨3⟩
      let chain ← ofRules "tidy" .fixedPoint .reverseTopological 2 [counting p, dropping true q]
      let result ← chain.apply g 0
      return result.1.changes) = .ok 2 := rfl
  simp only [bind_eq_ok_iff, pure_eq_ok_iff] at hrun
  obtain ⟨g, hg, b, hb, p, hp, q, hq, chain, hchain, result, hresult, hchanges⟩ := hrun
  have htame : ∀ rule ∈ [counting p, dropping true q], rule.Tame := by
    simp only [List.forall_mem_cons]
    exact ⟨tame_counting (.built hb hp), tame_dropping (.built hb hq), by simp⟩
  have hindexed : g.Indexed := (Graph.evolves_runAll (Graph.indexed_empty _) hg).indexed
  obtain ⟨chain', hchain', -, firings, last, hperforms, hlength, hends⟩ :=
    ends_at_fixed_point htame "tidy" .reverseTopological 2 hindexed 0
  cases hchain.symm.trans hchain'
  exact ⟨g, b, p, q, chain, result, firings, last, hg, hb, hp, hq, hindexed, hchain, hresult,
    hchanges, hperforms, hlength, hends⟩

/-- A node that gives an arg twice has no cycle through it and still no order. -/
theorem no_order_for_twin_outputs :
    ∃ (g : Graph) (chain : RuleChain Unit), (Graph.empty "twin").runAll Graph.twinEdits = .ok g ∧
      g.Indexed ∧ g.Acyclic ∧ ofRules "none" .fixedPoint .topological 5 [] = .ok chain ∧
      chain.apply g () = .error (.overflow .subtract) := by
  have hrun : (do
      let g ← (Graph.empty "twin").runAll Graph.twinEdits
      let chain : RuleChain Unit ← ofRules "none" .fixedPoint .topological 5 []
      return (decide (∀ node ∈ g.liveNodes, ∀ a ∈ node.presentInputs, ∀ source ∈ g.producer? a,
        source.index < node.id.index),
        match chain.apply g () with
        | .error (.overflow .subtract) => true
        | _ => false)) = .ok (true, true) := rfl
  simp only [bind_eq_ok_iff, pure_eq_ok_iff, Prod.mk.injEq, decide_eq_true_eq] at hrun
  obtain ⟨g, hg, chain, hchain, hascending, houtcome⟩ := hrun
  have hindexed : g.Indexed := (Graph.evolves_runAll (Graph.indexed_empty _) hg).indexed
  refine ⟨g, chain, hg, hindexed, hindexed.acyclic_of_ascending hascending, hchain, ?_⟩
  split at houtcome
  · assumption
  · cases houtcome

end RuleChain

end OpGraph
