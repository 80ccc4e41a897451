import Mathlib.Data.List.Lex
import Mathlib.Data.List.Sort
import OpGraph.Proofs.Graph.Faults
import OpGraph.Proofs.Graph.Order

/-!
Which topological order is found. Of the ready nodes the one with the lowest handle comes next, so
where another order parts from the one that is found, it goes on with a higher handle. A graph with
a cycle has no order; what the search then leaves waiting are the nodes on cycles and behind them.
-/

namespace OpGraph.Graph

open Relation

variable {g : Graph}

structure IsOrder (g : Graph) (order : List NodeId) : Prop where
  nodup : order.Nodup
  mem_iff : ∀ id, id ∈ order ↔ id ∈ g.nodeIds
  producersFirst : g.ProducersFirst order

/-- The lexicographically least order by handle. -/
def IsLeastOrder (g : Graph) (order : List NodeId) : Prop :=
  g.IsOrder order ∧ ∀ other, g.IsOrder other →
    order = other ∨ List.Lex (fun x y => x.index < y.index) order other

/-- The node lies on a cycle or behind one. -/
def BehindCycle (g : Graph) (id : NodeId) : Prop :=
  ∃ start, TransGen g.Feeds start start ∧ ReflTransGen g.Feeds start id

/-! ### The least order -/

/-- What is listed so far begins the other order, or has the lower handle where the two part. -/
inductive Leads (listed other : List NodeId) : Prop where
  | begins (rest : List NodeId) (hother : other = listed ++ rest)
  | parts (common : List NodeId) (x y : NodeId) (after after' : List NodeId)
    (hlisted : listed = common ++ x :: after) (hother : other = common ++ y :: after')
    (hlt : x.index < y.index)

theorem Leads.least {listed other : List NodeId} (hleads : Leads listed other)
    (hlength : other.length ≤ listed.length) :
    listed = other ∨ List.Lex (fun x y => x.index < y.index) listed other := by
  cases hleads with
  | begins rest hother =>
    rw [hother, List.length_append] at hlength
    have hrest : rest = [] := List.length_eq_zero_iff.mp (by omega)
    rw [hother, hrest, List.append_nil]
    exact .inl rfl
  | parts common x y after after' hlisted hother hlt =>
    rw [hlisted, hother]
    exact .inr (List.Lex.append_left (fun x y : NodeId => x.index < y.index) (.rel hlt) common)

section

variable (h : g.Consistent) {other : List NodeId} (hother : g.IsOrder other)

include h hother

theorem ready_of_begins {s : Kahn} (hs : s.Sound g) {id : NodeId} {rest : List NodeId}
    (hbegins : other = s.order ++ id :: rest) : id ∈ s.ready := by
  have hlive : id ∈ g.nodeIds := (hother.mem_iff id).mp (by rw [hbegins]; simp)
  have hnew : id ∉ s.order := by
    have hnodup := hother.nodup
    rw [hbegins, List.nodup_append] at hnodup
    intro hmem
    exact hnodup.2.2 id hmem id List.mem_cons_self rfl
  refine (hs.tracks.ready id).mpr ⟨hlive, ?_, hnew⟩
  rw [openOutside_eq_zero_iff]
  intro node hnode a ha hsome
  obtain ⟨source, hsource⟩ := Option.isSome_iff_exists.mp hsome
  have hlisted := hother.producersFirst s.order id rest hbegins source ⟨node, a, hnode, ha, hsource⟩
  exact List.mem_flatMap.mpr ⟨source, hlisted, h.mem_outputsOf_iff.mpr hsource⟩

theorem Leads.snoc {s : Kahn} (hs : s.Sound g) (hleads : Leads s.order other) {id : NodeId}
    (hnext : s.ready.toList.head? = some id) : Leads (s.order ++ [id]) other := by
  cases hleads with
  | parts common x y after after' hlisted hparts hlt =>
    refine .parts common x y (after ++ [id]) after' ?_ hparts hlt
    rw [hlisted, List.append_assoc]
    rfl
  | begins rest hbegins =>
    cases rest with
    | nil =>
      -- Then everything is listed, and nothing could be ready.
      obtain ⟨hlive, -, hnew⟩ :=
        (hs.tracks.ready id).mp (Std.ExtTreeSet.mem_toList.mp (List.mem_of_head? hnext))
      rw [List.append_nil] at hbegins
      exact absurd (hbegins ▸ (hother.mem_iff id).mpr hlive) hnew
    | cons y rest =>
      have hle := head?_toList_le hnext (ready_of_begins h hother hs hbegins)
      rcases Nat.lt_or_eq_of_le hle with hlt | heq
      · exact .parts s.order id y [] rest rfl hbegins hlt
      · obtain rfl := Handle.ext_iff_index.mpr heq
        exact .begins rest (by rw [hbegins, List.append_assoc]; rfl)

theorem leads_kahnRun {fuel : Nat} {s s' : Kahn} (hs : s.Sound g) (hleads : Leads s.order other)
    (hrun : g.kahnRun fuel s = .ok s') : Leads s'.order other := by
  induction fuel generalizing s with
  | zero =>
    cases hrun
    exact hleads
  | succ fuel ih =>
    rw [kahnRun] at hrun
    split at hrun
    · cases hrun
      exact hleads
    · next id hnext =>
      have hid : id ∈ s.ready := Std.ExtTreeSet.mem_toList.mp (List.mem_of_head? hnext)
      obtain ⟨s₁, hs₁, horder, hsound⟩ := h.listNode_spec hs hid
      rw [hs₁, ok_bind] at hrun
      exact ih hsound (horder ▸ hleads.snoc h hother hs hnext) hrun

end

/-! ### Nodes that are left waiting -/

theorem BehindCycle.feeds {source target : NodeId} (hsource : g.BehindCycle source)
    (hfeeds : g.Feeds source target) : g.BehindCycle target := by
  obtain ⟨start, hcycle, hpath⟩ := hsource
  exact ⟨start, hcycle, hpath.tail hfeeds⟩

namespace Consistent

variable (h : g.Consistent)

include h

theorem wellFounded_upstream :
    WellFounded fun source target => g.Feeds source target ∧ ¬ g.BehindCycle target := by
  refine wellFounded_of_live (fun _ _ hedge => h.mem_nodeIds_of_feeds hedge.1) fun id hcycle => ?_
  have hfeeds : TransGen g.Feeds id id := TransGen.mono (fun _ _ hedge => hedge.1) id id hcycle
  obtain ⟨_, -, hlast⟩ := TransGen.tail'_iff.mp hcycle
  exact hlast.2 ⟨id, hfeeds, .refl⟩

theorem kahn_waiting : ∃ s, g.kahnRun g.liveNodes.length g.kahnStart = .ok s ∧ s.Sound g ∧
    (∀ id, id ∈ s.waiting ↔ id ∈ g.nodeIds ∧ id ∉ s.order) ∧
    ∀ id, id ∈ s.waiting ↔ id ∈ g.nodeIds ∧ g.BehindCycle id := by
  obtain ⟨s, hs, hsound, hwaiting⟩ := h.kahn_spec
  refine ⟨s, hs, hsound, hwaiting, fun id => ⟨fun hid => ?_, fun hid => ?_⟩⟩
  · refine ⟨((hwaiting id).mp hid).1, ?_⟩
    -- A waiting node has an open slot, and what it reads there comes from a waiting node.
    induction id using h.wellFounded_upstream.induction with
    | h id ih =>
      by_contra hfree
      rw [Std.ExtTreeMap.mem_iff_isSome_getElem?, hsound.tracks.waiting] at hid
      split at hid
      · cases hid
      · next hopen =>
        rw [openOutside_eq_zero_iff] at hopen
        push Not at hopen
        obtain ⟨node, hnode, a, ha, hsome, hnot⟩ := hopen
        obtain ⟨source, hsource⟩ := Option.isSome_iff_exists.mp hsome
        have hfeeds : g.Feeds source id := ⟨node, a, hnode, ha, hsource⟩
        have hunlisted : source ∉ s.order := fun hmem =>
          hnot (List.mem_flatMap.mpr ⟨source, hmem, h.mem_outputsOf_iff.mpr hsource⟩)
        have hlive := h.mem_nodeIds_of_producer? hsource
        exact hfree
          ((ih source ⟨hfeeds, hfree⟩ ((hwaiting source).mpr ⟨hlive, hunlisted⟩)).feeds hfeeds)
  · obtain ⟨hlive, start, hcycle, hpath⟩ := hid
    refine (hwaiting id).mpr ⟨hlive, fun hmem => ?_⟩
    have hfirst := hsound.producersFirst
    exact hfirst.not_cycle (hfirst.mem_of_path hpath hmem) hcycle

theorem isLeastOrder_of_topologicalOrder {order : List NodeId}
    (hrun : g.topologicalOrder = .ok order) : g.IsLeastOrder order := by
  obtain ⟨hnodup, hmem, hfirst⟩ := h.topologicalOrder_spec hrun
  have hfault : g.orderOrFault = .ok order := by rw [orderOrFault, hrun]
  obtain ⟨s, hs, -, rfl⟩ := orderOrFault_eq_ok hfault
  refine ⟨⟨hnodup, hmem, hfirst⟩, fun other hother => ?_⟩
  have hstart : Leads g.kahnStart.order other := .begins other (by rw [h.order_kahnStart]; rfl)
  have hsame : s.order.Perm other :=
    (List.perm_ext_iff_of_nodup hnodup hother.nodup).mpr fun id => by rw [hmem, hother.mem_iff]
  exact (leads_kahnRun h hother h.kahnStart_sound hstart hs).least
    (Nat.le_of_eq hsame.length_eq.symm)

open scoped Classical in
theorem keys_eq_map_id {counts : Std.ExtTreeMap NodeId Nat} {P : NodeId → Prop}
    (hcounts : ∀ id, id ∈ counts ↔ id ∈ g.nodeIds ∧ P id) :
    counts.keys = (g.liveNodes.filter fun node => P node.id).map Node.id := by
  have hkeys : counts.keys.Pairwise fun x y => x.index < y.index := by
    refine Std.ExtTreeMap.ordered_keys.imp fun hlt => ?_
    rwa [Handle.compare_def, Nat.compare_eq_lt] at hlt
  have hnodes : ((g.liveNodes.filter fun node => P node.id).map Node.id).Pairwise
      fun x y => x.index < y.index :=
    List.pairwise_map.mpr (h.liveNodes_ascending.sublist List.filter_sublist)
  have hirrefl : Std.Irrefl fun x y : NodeId => x.index < y.index :=
    ⟨fun x => Nat.lt_irrefl x.index⟩
  refine hkeys.eq_of_mem_iff hnodes fun id => ?_
  simp only [Std.ExtTreeMap.mem_keys, hcounts, nodeIds, List.mem_map, List.mem_filter,
    decide_eq_true_eq]
  grind

open scoped Classical in
theorem topologicalOrder_of_cycle (hcycle : ¬ g.Acyclic) : g.topologicalOrder =
    .error (.error (.cycle
      ((g.liveNodes.filter fun node => g.BehindCycle node.id).map Node.name))) := by
  obtain ⟨s, hs, -, -, hwaiting⟩ := h.kahn_waiting
  have hnonempty : s.waiting.isEmpty = false := by
    rw [Acyclic, not_forall_not] at hcycle
    obtain ⟨id, hid⟩ := hcycle
    obtain ⟨source, -, hfeeds⟩ := TransGen.tail'_iff.mp hid
    have hmem := (hwaiting id).mpr ⟨(h.mem_nodeIds_of_feeds hfeeds).2, id, hid, .refl⟩
    rw [Bool.eq_false_iff]
    intro hempty
    rw [Std.ExtTreeMap.isEmpty_iff.mp hempty] at hmem
    exact Std.ExtTreeMap.not_mem_empty hmem
  have hnames : (s.waiting.keys.mapM fun id => Node.name <$> g.node id) =
      .ok ((g.liveNodes.filter fun node => g.BehindCycle node.id).map Node.name) := by
    rw [h.keys_eq_map_id hwaiting, List.mapM_map]
    refine mapM_eq_map fun node hnode => ?_
    rw [Function.comp_apply, node_eq_ok_iff.mpr (h.mem_liveNodes.mp (List.mem_filter.mp hnode).1)]
    rfl
  rw [topologicalOrder, hs, Failure.ofFault, ok_bind, if_neg (by simp [hnonempty]), hnames,
    Failure.ofFault, ok_bind]
  rfl

end Consistent

open scoped Classical in
/--
An order is found exactly for a graph without a cycle. It is then the lexicographically least of the
lists that hold every live node once and every producer before its consumers. For a graph with a
cycle the error names, by ascending handle, the nodes on cycles and behind them. No count of open
slots is ever exceeded on the way.
-/
theorem topologicalOrder_least (h : g.Consistent) :
    (g.Acyclic ∧ (∃ order, g.topologicalOrder = .ok order ∧ g.IsLeastOrder order) ∨
      ¬ g.Acyclic ∧ g.topologicalOrder = .error (.error (.cycle
        ((g.liveNodes.filter fun node => g.BehindCycle node.id).map Node.name)))) ∧
    g.liveNodes.Pairwise (fun node node' => node.id.index < node'.id.index) ∧
    ∀ f, g.kahnRun g.liveNodes.length g.kahnStart ≠ .error f := by
  obtain ⟨s, hs, -⟩ := h.kahn_waiting
  refine ⟨?_, h.liveNodes_ascending, fun f hf => by rw [hs] at hf; cases hf⟩
  by_cases hacyclic : g.Acyclic
  · obtain ⟨order, horder⟩ := h.topologicalOrder_succeeds hacyclic
    exact .inl ⟨hacyclic, order, horder, h.isLeastOrder_of_topologicalOrder horder⟩
  · exact .inr ⟨hacyclic, h.topologicalOrder_of_cycle hacyclic⟩

def lateEdits : List Mutation :=
  [.addInput "x" ⟨.float32, none⟩, .newArg "a" ⟨.float32, none⟩, .newArg "b" ⟨.float32, none⟩,
    .newArg "c" ⟨.float32, none⟩, .newArg "d" ⟨.float32, none⟩,
    .addNode ⟨"tail", .standard "Add", [some ⟨1⟩, none, some ⟨1⟩], [some ⟨3⟩], ∅⟩,
    .addNode ⟨"side", .standard "Relu", [some ⟨0⟩], [some ⟨2⟩], ∅⟩,
    .addNode ⟨"head", .standard "Split", [some ⟨0⟩], [some ⟨4⟩, none, some ⟨1⟩], ∅⟩]

/-- A node that reads its own output, one behind it, one beside it and one behind both. -/
def spinEdits : List Mutation :=
  [.addInput "x" ⟨.float32, none⟩, .newArg "a" ⟨.float32, none⟩, .newArg "b" ⟨.float32, none⟩,
    .newArg "c" ⟨.float32, none⟩, .newArg "d" ⟨.float32, none⟩,
    .addNode ⟨"join", .standard "Add", [some ⟨2⟩, some ⟨3⟩], [some ⟨4⟩], ∅⟩,
    .addNode ⟨"spin", .standard "Relu", [some ⟨1⟩], [some ⟨1⟩], ∅⟩,
    .addNode ⟨"behind", .standard "Relu", [some ⟨1⟩], [some ⟨2⟩], ∅⟩,
    .addNode ⟨"free", .standard "Relu", [some ⟨0⟩], [some ⟨3⟩], ∅⟩]

open scoped Classical in
theorem topologicalOrder_least_late_and_spin :
    (∃ g : Graph, (Graph.empty "late").runAll lateEdits = .ok g ∧ g.Acyclic ∧
      g.topologicalOrder = .ok [⟨1⟩, ⟨2⟩, ⟨0⟩] ∧ g.IsLeastOrder [⟨1⟩, ⟨2⟩, ⟨0⟩]) ∧
    ∃ g : Graph, (Graph.empty "spin").runAll spinEdits = .ok g ∧ ¬ g.Acyclic ∧
      (g.liveNodes.filter fun node => g.BehindCycle node.id).map Node.name =
        ["join", "spin", "behind"] ∧
      g.topologicalOrder = .error (.error (.cycle ["join", "spin", "behind"])) := by
  have hlate : (do
      let g ← (Graph.empty "late").runAll lateEdits
      return (decide (∀ node ∈ g.liveNodes, node.presentOutputs.Nodup), g.topologicalOrder)) =
        .ok (true, .ok [⟨1⟩, ⟨2⟩, ⟨0⟩]) := rfl
  have hspin : (do
      let g ← (Graph.empty "spin").runAll spinEdits
      return (decide (∀ node ∈ g.liveNodes, node.presentOutputs.Nodup), g.topologicalOrder)) =
        .ok (true, .error (.error (.cycle ["join", "spin", "behind"]))) := rfl
  simp only [bind_eq_ok_iff, pure_eq_ok_iff, Prod.mk.injEq, decide_eq_true_eq] at hlate hspin
  obtain ⟨late, hrun, hnodup, horder⟩ := hlate
  obtain ⟨spin, hrun', hnodup', hcycle⟩ := hspin
  have hlate := (Reachable.runAll (.empty "late") hrun).indexed.consistent_iff.mpr hnodup
  have hspin := (Reachable.runAll (.empty "spin") hrun').indexed.consistent_iff.mpr hnodup'
  obtain ⟨⟨hacyclic, order, hfound, hleast⟩ | ⟨-, hfail⟩, -, -⟩ := topologicalOrder_least hlate
  · cases hfound.symm.trans horder
    refine ⟨⟨late, hrun, hacyclic, horder, hleast⟩, spin, hrun', ?_⟩
    obtain ⟨⟨-, order, hfound, -⟩ | ⟨hloop, hfail⟩, -, -⟩ := topologicalOrder_least hspin
    · cases hfound.symm.trans hcycle
    · have hnames := hfail.symm.trans hcycle
      injection hnames with hnames
      injection hnames with hnames
      injection hnames with hnames
      exact ⟨hloop, hnames, hcycle⟩
  · cases hfail.symm.trans horder

end OpGraph.Graph
