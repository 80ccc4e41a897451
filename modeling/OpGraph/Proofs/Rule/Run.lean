import OpGraph.Proofs.Sequence
import OpGraph.Rule.Chain

/-!
What a run of rules does to a graph. If a rule that does not fire leaves the graph alone, a scan
makes at most one change, and a run keeps what every firing keeps.
-/

namespace OpGraph

variable {σ : Type}

def Rule.Quiet (rule : Rule σ) : Prop :=
  ∀ m g ctx g' ctx', rule.action m g ctx = .ok (false, g', ctx') → g' = g

def Rule.Fires (rule : Rule σ) (g g' : Graph) : Prop :=
  ∃ id m ctx ctx', rule.pattern.matchNode g id = .ok (some m) ∧
    rule.action m g ctx = .ok (true, g', ctx')

namespace Engine

variable {e : Engine σ} {P : Graph → Prop}

theorem offer_cases {id : NodeId} {fired : Option String} {g g' : Graph} {ctx' : σ}
    (rules : List (Rule σ)) (hquiet : ∀ rule ∈ rules, rule.Quiet) :
    ∀ ctx, offer id rules g ctx = .ok (fired, g', ctx') →
      fired = none ∧ g' = g ∨ fired.isSome ∧ ∃ rule ∈ rules, rule.Fires g g' := by
  induction rules with
  | nil =>
    intro ctx hrun
    cases hrun
    exact .inl ⟨rfl, rfl⟩
  | cons rule rest ih =>
    intro ctx hrun
    have ih := ih fun r hr => hquiet r (List.mem_cons_of_mem _ hr)
    have hrest : ∀ ctx, offer id rest g ctx = .ok (fired, g', ctx') →
        fired = none ∧ g' = g ∨ fired.isSome ∧ ∃ r ∈ rule :: rest, r.Fires g g' := by
      intro ctx hrun
      refine (ih ctx hrun).imp_right fun ⟨hfired, r, hr, hfires⟩ => ?_
      exact ⟨hfired, r, List.mem_cons_of_mem _ hr, hfires⟩
    simp only [offer, Rule.tryApply, bind_eq_ok_iff] at hrun
    obtain ⟨⟨changed, g₁, ctx₁⟩, ⟨found, hmatch, haction⟩, hrun⟩ := hrun
    cases found with
    | none =>
      cases haction
      exact hrest ctx hrun
    | some m =>
      cases changed with
      | false =>
        obtain rfl := hquiet rule List.mem_cons_self m g ctx g₁ ctx₁ haction
        exact hrest ctx₁ hrun
      | true =>
        cases hrun
        exact .inr ⟨rfl, rule, List.mem_cons_self, id, m, ctx, _, hmatch, haction⟩

theorem scan_cases (hquiet : ∀ node, ∀ rule ∈ e.candidates node, rule.Quiet) (ids : List NodeId) :
    ∀ run fired run', e.scan ids run = .ok (fired, run') →
      fired = none ∧ run'.graph = run.graph ∨
      fired.isSome ∧ ∃ node, ∃ rule ∈ e.candidates node, rule.Fires run.graph run'.graph := by
  induction ids with
  | nil =>
    intro run fired run' hrun
    cases hrun
    exact .inl ⟨rfl, rfl⟩
  | cons id rest ih =>
    intro run fired run' hrun
    rw [scan] at hrun
    split at hrun
    · exact ih run fired run' hrun
    · next node hnode =>
      split at hrun
      · exact ih run fired run' hrun
      · rw [bind_eq_ok_iff] at hrun
        obtain ⟨⟨outcome, g₁, ctx₁⟩, hoffer, hrun⟩ := hrun
        obtain ⟨rfl, rfl⟩ | ⟨houtcome, hfires⟩ := offer_cases _ (hquiet node) _ hoffer
        · exact ih ⟨run.graph, ctx₁, run.pending.erase id⟩ fired run' hrun
        · obtain ⟨rule, rfl⟩ := Option.isSome_iff_exists.mp houtcome
          cases hrun
          exact .inr ⟨rfl, node, hfires⟩

theorem scans_eq_ok {left : Nat} {run run' : Run σ} {stats stats' : RunStats}
    (hrun : e.scans left run stats = .ok (stats', run')) :
    ∃ order ids fired run₁, run.graph.orderOrFault = .ok order ∧
      e.scan ids run = .ok (fired, run₁) ∧
      (fired = none ∧ run' = run₁ ∨ ∃ firing left', fired = some firing ∧ left = left' + 1 ∧
        e.scans left' run₁ (stats.addScan.addFiring firing.rule) = .ok (stats', run')) := by
  have hscan : ∀ {fired run₁}, e.freshScan run = .ok (fired, run₁) →
      ∃ order ids, run.graph.orderOrFault = .ok order ∧ e.scan ids run = .ok (fired, run₁) := by
    intro fired run₁ hfresh
    simp only [freshScan, ScanOrder.nodes, bind_eq_ok_iff] at hfresh
    obtain ⟨ids, ⟨order, horder, -⟩, hscan⟩ := hfresh
    exact ⟨order, ids, horder, hscan⟩
  cases left with
  | zero =>
    rw [scans, bind_eq_ok_iff] at hrun
    obtain ⟨⟨fired, run₁⟩, hfresh, hrun⟩ := hrun
    obtain ⟨order, ids, horder, hids⟩ := hscan hfresh
    cases fired with
    | none =>
      cases hrun
      exact ⟨order, ids, none, _, horder, hids, .inl ⟨rfl, rfl⟩⟩
    | some firing => cases hrun
  | succ left =>
    rw [scans, bind_eq_ok_iff] at hrun
    obtain ⟨⟨fired, run₁⟩, hfresh, hrun⟩ := hrun
    obtain ⟨order, ids, horder, hids⟩ := hscan hfresh
    cases fired with
    | none =>
      cases hrun
      exact ⟨order, ids, none, _, horder, hids, .inl ⟨rfl, rfl⟩⟩
    | some firing =>
      exact ⟨order, ids, some firing, run₁, horder, hids, .inr ⟨firing, left, rfl, rfl, hrun⟩⟩

theorem scans_keeps (hquiet : ∀ node, ∀ rule ∈ e.candidates node, rule.Quiet)
    (hstep : ∀ g g' order, P g → g.orderOrFault = .ok order →
      ∀ node, ∀ rule ∈ e.candidates node, rule.Fires g g' → P g') (left : Nat) :
    ∀ run stats stats' run', P run.graph → e.scans left run stats = .ok (stats', run') →
      P run'.graph ∧ ∃ order, run'.graph.orderOrFault = .ok order := by
  -- A scan that fires nothing ends the run, and the order it had is the order of the last graph.
  induction left using Nat.strongRecOn with
  | ind left ih =>
    intro run stats stats' run' hP hrun
    obtain ⟨order, ids, fired, run₁, horder, hscan, hcases⟩ := scans_eq_ok hrun
    obtain ⟨rfl, rfl⟩ | ⟨firing, left', rfl, rfl, hrest⟩ := hcases
    · obtain ⟨-, hsame⟩ | ⟨hfired, -⟩ := scan_cases hquiet ids run _ _ hscan
      · rw [hsame]
        exact ⟨hP, order, horder⟩
      · cases hfired
    · obtain ⟨hfired, -⟩ | ⟨-, node, rule, hrule, hfires⟩ := scan_cases hquiet ids run _ _ hscan
      · cases hfired
      · exact ih left' (Nat.lt_succ_self _) run₁ _ stats' run'
          (hstep _ _ order hP horder node rule hrule hfires) hrest

end Engine

namespace RuleChain

def Within (chain : RuleChain σ) (rules : List (Rule σ)) : Prop :=
  ∀ node, ∀ rule ∈ chain.candidates node, rule ∈ rules

theorem mem_getD_foldl_insert {keys : List OpKey} {rule r : Rule σ} {key : OpKey} :
    ∀ {keyed : Std.ExtTreeMap OpKey (List (Rule σ))},
      r ∈ (keys.foldl (fun keyed key => keyed.insert key (keyed.getD key [] ++ [rule]))
        keyed).getD key [] → r ∈ keyed.getD key [] ∨ r = rule := by
  induction keys with
  | nil => exact .inl
  | cons k keys ih =>
    intro keyed hr
    rw [List.foldl_cons] at hr
    rcases ih hr with hmem | heq
    · rw [Std.ExtTreeMap.getD_insert] at hmem
      split at hmem
      · next heq =>
        obtain rfl := Std.compare_eq_iff_eq.mp heq
        exact (List.mem_append.mp hmem).imp_right List.mem_singleton.mp
      · exact .inl hmem
    · exact .inr heq

theorem mem_candidates_add {chain chain' : RuleChain σ} {rule : Rule σ}
    (hrun : chain.add rule = .ok chain') {node : Node} {r : Rule σ}
    (hr : r ∈ chain'.candidates node) : r ∈ chain.candidates node ∨ r = rule := by
  rw [add, bind_eq_ok_iff] at hrun
  obtain ⟨keys, -, hrun⟩ := hrun
  cases keys with
  | none =>
    cases hrun
    rw [candidates, ← List.append_assoc, List.mem_append, List.mem_singleton] at hr
    exact hr
  | some keys =>
    cases hrun
    rw [candidates, List.mem_append] at hr
    rcases hr with hr | hr
    · exact (mem_getD_foldl_insert hr).imp_left fun hr => List.mem_append.mpr (.inl hr)
    · exact .inl (List.mem_append.mpr (.inr hr))

theorem within_ofRules {name : String} {mode : ScanMode} {order : ScanOrder} {budget : Nat}
    {rules : List (Rule σ)} {chain : RuleChain σ}
    (hrun : ofRules name mode order budget rules = .ok chain) : chain.Within rules := by
  apply foldlM_keeps (P := fun chain => chain.Within rules) rules _ _ _ _ hrun
  · intro rule hrule chain chain' hwithin hadd node r hr
    rcases mem_candidates_add hadd hr with hr | rfl
    · exact hwithin node r hr
    · exact hrule
  · intro node rule hr
    rw [candidates, empty, List.append_nil, Std.ExtTreeMap.getD_empty] at hr
    cases hr

theorem apply_keeps {P : Graph → Prop} {chain : RuleChain σ} {rules : List (Rule σ)}
    (hwithin : chain.Within rules) (hquiet : ∀ rule ∈ rules, rule.Quiet)
    (hstep : ∀ rule ∈ rules, ∀ g g' order,
      P g → g.orderOrFault = .ok order → rule.Fires g g' → P g')
    {g g' : Graph} {ctx ctx' : σ} {stats : RunStats} (hP : P g)
    (hrun : chain.apply g ctx = .ok (stats, g', ctx')) :
    P g' ∧ ∃ order, g'.orderOrFault = .ok order := by
  simp only [apply, Engine.apply, bind_eq_ok_iff] at hrun
  obtain ⟨⟨stats', run⟩, hscans, hrun⟩ := hrun
  cases hrun
  refine Engine.scans_keeps ?_ ?_ _ _ _ _ _ hP hscans
  · exact fun node rule hrule => hquiet rule (hwithin node rule hrule)
  · exact fun g g' order hP horder node rule hrule =>
      hstep rule (hwithin node rule hrule) g g' order hP horder

end RuleChain

end OpGraph
