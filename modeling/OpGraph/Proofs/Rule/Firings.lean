import Mathlib.Algebra.BigOperators.Group.List.Lemmas
import Mathlib.Algebra.Ring.Nat
import OpGraph.Proofs.Rule.Run

/-!
The firings of a run, one after the other. A run is a sequence of scans that end with a firing, and
one more scan in which nothing fires; it breaks off when the budget is used up or a scan ends in a
fault.
-/

namespace OpGraph

variable {σ : Type}

namespace RunStats

def addFirings (stats : RunStats) (firings : List Firing) : RunStats :=
  firings.foldl (fun stats firing => stats.addScan.addFiring firing.rule) stats

theorem counted_addFirings (stats : RunStats) (firings : List Firing) :
    (stats.addFirings firings).changes = stats.changes + firings.length ∧
      (stats.addFirings firings).scans = stats.scans + firings.length := by
  unfold addFirings
  induction firings generalizing stats with
  | nil => exact ⟨rfl, rfl⟩
  | cons firing firings ih =>
    obtain ⟨hchanges, hscans⟩ := ih (stats.addScan.addFiring firing.rule)
    rw [List.foldl_cons, hchanges, hscans]
    simp only [addFiring, addScan, List.length_cons]
    omega

def Counts (stats : RunStats) (names : List String) : Prop :=
  ∀ name, stats.perRule[name]? = if name ∈ names then some (names.count name) else none

theorem Counts.addFiring {stats : RunStats} {names : List String} (h : stats.Counts names)
    (rule : String) : (stats.addScan.addFiring rule).Counts (names ++ [rule]) := by
  have hfired : stats.fired rule = names.count rule := by
    rw [fired, Std.ExtTreeMap.getD_eq_getD_getElem?, h]
    split
    · rfl
    · next hnot => rw [List.count_eq_zero_of_not_mem hnot, Option.getD_none]
  intro name
  have hname := h name
  change (stats.perRule.insert rule (stats.fired rule + 1))[name]? = _
  simp only [Std.ExtTreeMap.getElem?_insert, hfired, hname, List.count_append,
    Std.LawfulEqCmp.compare_eq_iff_eq]
  by_cases heq : rule = name
  · subst heq
    simp
  · simp [heq, Ne.symm heq]

theorem Counts.addFirings {stats : RunStats} {names : List String} (h : stats.Counts names)
    (firings : List Firing) :
    (stats.addFirings firings).Counts (names ++ firings.map Firing.rule) := by
  induction firings generalizing stats names with
  | nil => simpa [RunStats.addFirings] using h
  | cons firing firings ih =>
    have hrest := ih (h.addFiring firing.rule)
    rw [List.append_assoc, List.singleton_append] at hrest
    exact hrest

theorem Counts.sum_eq {stats : RunStats} {names : List String} (h : stats.Counts names) :
    (stats.perRule.toList.map Prod.snd).sum = names.length := by
  have hvalues : stats.perRule.toList.map Prod.snd = stats.perRule.keys.map names.count := by
    rw [← Std.ExtTreeMap.map_fst_toList_eq_keys, List.map_map]
    apply List.map_congr_left
    rintro ⟨name, count⟩ hmem
    rw [Std.ExtTreeMap.mem_toList_iff_getElem?_eq_some, h] at hmem
    split at hmem
    · exact (Option.some.inj hmem).symm
    · cases hmem
  have hkeys : stats.perRule.keys.Perm names.dedup := by
    rw [List.perm_ext_iff_of_nodup Std.ExtTreeMap.nodup_keys (List.nodup_dedup names)]
    intro name
    rw [Std.ExtTreeMap.mem_keys, List.mem_dedup, Std.ExtTreeMap.mem_iff_isSome_getElem?, h]
    split <;> simp_all
  rw [hvalues, (hkeys.map names.count).sum_eq, List.sum_map_count_dedup_eq_length]

theorem counts_empty : RunStats.empty.Counts [] := by
  intro name
  exact Std.ExtTreeMap.getElem?_empty

end RunStats

theorem ScanOrder.nodes_eq_ok {order : ScanOrder} {g : Graph} {ids : List NodeId}
    (hids : order.nodes g = .ok ids) :
    ∃ listed, g.orderOrFault = .ok listed ∧ ∀ id, id ∈ ids ↔ id ∈ listed := by
  rw [nodes, bind_eq_ok_iff] at hids
  obtain ⟨listed, hlisted, hids⟩ := hids
  refine ⟨listed, hlisted, ?_⟩
  cases order with
  | topological =>
    cases hids
    exact fun _ => Iff.rfl
  | reverseTopological =>
    cases hids
    exact fun _ => List.mem_reverse

namespace Engine

variable {e : Engine σ}

/-- From one state to another by scans that end with the given firings. -/
inductive Performs (e : Engine σ) : Run σ → List Firing → Run σ → Prop where
  | nil (run : Run σ) : Performs e run [] run
  | cons {run run₁ run' : Run σ} {firing : Firing} {firings : List Firing}
    (hscan : e.freshScan run = .ok (some firing, run₁)) (hrest : Performs e run₁ firings run') :
    Performs e run (firing :: firings) run'

/-- What becomes of a run with some firings left after the given ones. -/
inductive Ends (e : Engine σ) (left : Nat) (stats : RunStats) (firings : List Firing)
    (last : Run σ) : Except Fault (RunStats × Run σ) → Prop where
  /-- Nothing fires any more. -/
  | rest {run' : Run σ} (hle : firings.length ≤ left)
    (hscan : e.freshScan last = .ok (none, run')) :
    Ends e left stats firings last (.ok ((stats.addFirings firings).addScan, run'))
  /-- There was one firing too many. -/
  | budget {firing : Firing} (hlength : firings.length = left + 1)
    (hlast : firings.getLast? = some firing) :
    Ends e left stats firings last (.error (.budget e.budget e.name firing.rule firing.node))
  | fault {f : Fault} (hle : firings.length ≤ left) (hscan : e.freshScan last = .error f) :
    Ends e left stats firings last (.error f)

theorem Ends.cons {left : Nat} {stats : RunStats} {firing : Firing} {firings : List Firing}
    {last : Run σ} {outcome : Except Fault (RunStats × Run σ)}
    (h : e.Ends left (stats.addScan.addFiring firing.rule) firings last outcome) :
    e.Ends (left + 1) stats (firing :: firings) last outcome := by
  cases h with
  | rest hle hscan => exact .rest (Nat.succ_le_succ hle) hscan
  | budget hlength hlast =>
    refine .budget (congrArg Nat.succ hlength) ?_
    rw [List.getLast?_cons, hlast]
    rfl
  | fault hle hscan => exact .fault (Nat.succ_le_succ hle) hscan

theorem scans_end (left : Nat) (run : Run σ) (stats : RunStats) :
    ∃ firings last, e.Performs run firings last ∧
      e.Ends left stats firings last (e.scans left run stats) := by
  induction left generalizing run stats with
  | zero =>
    rw [scans]
    cases hscan : e.freshScan run with
    | error f => exact ⟨[], run, .nil run, .fault (Nat.le_refl 0) hscan⟩
    | ok result =>
      obtain ⟨fired, run₁⟩ := result
      cases fired with
      | none => exact ⟨[], run, .nil run, .rest (Nat.le_refl 0) hscan⟩
      | some firing => exact ⟨[firing], run₁, .cons hscan (.nil run₁), .budget rfl rfl⟩
  | succ left ih =>
    rw [scans]
    cases hscan : e.freshScan run with
    | error f => exact ⟨[], run, .nil run, .fault (Nat.zero_le _) hscan⟩
    | ok result =>
      obtain ⟨fired, run₁⟩ := result
      cases fired with
      | none => exact ⟨[], run, .nil run, .rest (Nat.zero_le _) hscan⟩
      | some firing =>
        obtain ⟨firings, last, hperforms, hends⟩ := ih run₁ (stats.addScan.addFiring firing.rule)
        exact ⟨firing :: firings, last, .cons hscan hperforms, hends.cons⟩

theorem apply_fixedPoint (hmode : e.mode = .fixedPoint) (g : Graph) (ctx : σ) :
    e.apply g ctx = (fun outcome => (outcome.1, outcome.2.graph, outcome.2.context)) <$>
      e.scans e.budget ⟨g, ctx, ∅⟩ .empty := by
  rw [apply, hmode]
  cases e.scans e.budget ⟨g, ctx, ∅⟩ .empty <;> rfl

theorem apply_ends (hmode : e.mode = .fixedPoint) (g : Graph) (ctx : σ) :
    ∃ firings last outcome, e.Performs ⟨g, ctx, ∅⟩ firings last ∧
      e.Ends e.budget .empty firings last outcome ∧
      e.apply g ctx =
        (fun outcome => (outcome.1, outcome.2.graph, outcome.2.context)) <$> outcome := by
  obtain ⟨firings, last, hperforms, hends⟩ := e.scans_end e.budget ⟨g, ctx, ∅⟩ .empty
  exact ⟨firings, last, _, hperforms, hends, apply_fixedPoint hmode g ctx⟩

theorem freshScan_eq_ok {run run' : Run σ} {fired : Option Firing}
    (hrun : e.freshScan run = .ok (fired, run')) :
    ∃ order ids, run.graph.orderOrFault = .ok order ∧ (∀ id, id ∈ ids ↔ id ∈ order) ∧
      e.order.nodes run.graph = .ok ids ∧ e.scan ids run = .ok (fired, run') := by
  rw [freshScan, bind_eq_ok_iff] at hrun
  obtain ⟨ids, hids, hscan⟩ := hrun
  obtain ⟨order, horder, hmem⟩ := ScanOrder.nodes_eq_ok hids
  exact ⟨order, ids, horder, hmem, hids, hscan⟩

theorem freshScan_eq_error {run : Run σ} {f : Fault} (hrun : e.freshScan run = .error f) :
    run.graph.orderOrFault = .error f ∨ ∃ ids, e.scan ids run = .error f := by
  rw [freshScan, ScanOrder.nodes] at hrun
  cases horder : run.graph.orderOrFault with
  | error f' =>
    rw [horder] at hrun
    cases hrun
    exact .inl rfl
  | ok order =>
    rw [horder] at hrun
    exact .inr ⟨_, hrun⟩

theorem fires_of_freshScan (hquiet : ∀ node, ∀ rule ∈ e.candidates node, rule.Quiet)
    {run run' : Run σ} {firing : Firing} (hrun : e.freshScan run = .ok (some firing, run')) :
    ∃ order node, ∃ rule ∈ e.candidates node, run.graph.orderOrFault = .ok order ∧
      rule.Fires run.graph run'.graph := by
  obtain ⟨order, ids, horder, -, -, hscan⟩ := freshScan_eq_ok hrun
  obtain ⟨hfired, -⟩ | ⟨-, node, rule, hrule, hfires⟩ := scan_cases hquiet ids _ _ _ hscan
  · cases hfired
  · exact ⟨order, node, rule, hrule, horder, hfires⟩

theorem Performs.keeps {P : Graph → Prop}
    (hquiet : ∀ node, ∀ rule ∈ e.candidates node, rule.Quiet)
    (hstep : ∀ g g' order, P g → g.orderOrFault = .ok order →
      ∀ node, ∀ rule ∈ e.candidates node, rule.Fires g g' → P g')
    {run last : Run σ} {firings : List Firing} (hperforms : e.Performs run firings last)
    (hP : P run.graph) : P last.graph := by
  induction hperforms with
  | nil => exact hP
  | cons hscan _ ih =>
    obtain ⟨order, node, rule, hrule, horder, hfires⟩ := fires_of_freshScan hquiet hscan
    exact ih (hstep _ _ order hP horder node rule hrule hfires)

/-! ### Firings that make something smaller -/

section

variable {P : Graph → Prop} {size : Graph → Nat}
  (hquiet : ∀ node, ∀ rule ∈ e.candidates node, rule.Quiet)
  (hstep : ∀ g g', P g → ∀ node, ∀ rule ∈ e.candidates node, rule.Fires g g' →
    P g' ∧ size g' < size g)

include hquiet hstep

theorem Performs.length_le {run last : Run σ} {firings : List Firing}
    (hperforms : e.Performs run firings last) (hP : P run.graph) :
    P last.graph ∧ firings.length + size last.graph ≤ size run.graph := by
  induction hperforms with
  | nil => exact ⟨hP, by simp⟩
  | cons hscan _ ih =>
    obtain ⟨-, node, rule, hrule, -, hfires⟩ := fires_of_freshScan hquiet hscan
    obtain ⟨hP₁, hlt⟩ := hstep _ _ hP node rule hrule hfires
    obtain ⟨hlast, hle⟩ := ih hP₁
    refine ⟨hlast, ?_⟩
    rw [List.length_cons]
    omega

theorem apply_of_size_le (hmode : e.mode = .fixedPoint) {Q : Fault → Prop}
    (hscan : ∀ run : Run σ, P run.graph → FailsAs Q (e.freshScan run)) {g : Graph} (hP : P g)
    (hbudget : size g ≤ e.budget) (ctx : σ) :
    (∃ stats g' ctx', e.apply g ctx = .ok (stats, g', ctx') ∧ stats.changes ≤ size g) ∨
      ∃ f, Q f ∧ e.apply g ctx = .error f := by
  obtain ⟨firings, last, outcome, hperforms, hends, hrun⟩ := apply_ends hmode g ctx
  obtain ⟨hlast, hle⟩ := hperforms.length_le hquiet hstep hP
  have hlength : firings.length ≤ size g := Nat.le_of_add_right_le hle
  cases hends with
  | rest _ _ =>
    refine .inl ⟨_, _, _, hrun, ?_⟩
    obtain ⟨hchanges, -⟩ := RunStats.empty.counted_addFirings firings
    simp only [RunStats.empty, Nat.zero_add] at hchanges
    exact hchanges.trans_le hlength
  | budget hspent _ => omega
  | fault _ hfault => exact .inr ⟨_, hscan last hlast _ hfault, hrun⟩

end

end Engine

end OpGraph
