import OpGraph.Proofs.Fusion.Partition

/-!
A second partition finds nothing to fuse. A device does not run the nodes that the first one made,
so each component of the second graph lies in one of the first: it is a skipped component, which is
still blocked, or it is left over from a merged one, and nothing needs it.
-/

namespace OpGraph

open Relation

open RegionRequest (GivenBy)

theorem OpSet.supports_congr (s : OpSet) {g g' : Graph} (hargs : Graph.SameArgs g g') {id : NodeId}
    (hnode : g'.node? id = g.node? id) : s.supports g' id = s.supports g id := by
  have harg : g'.arg = g.arg := by
    funext a
    unfold Graph.arg Graph.arg?
    rw [hargs.args]
  unfold OpSet.supports Graph.node
  rw [hnode, harg]

theorem OpSet.key_mem_of_supports {s : OpSet} {g : Graph} {id : NodeId} {node : Node}
    (hnode : g.node? id = some node) (hsupports : s.supports g id = .ok true) :
    node.key ∈ s.ops := by
  unfold OpSet.supports at hsupports
  rw [Graph.node_eq_ok_iff.mpr hnode, ok_bind] at hsupports
  by_contra hkey
  rw [if_pos hkey] at hsupports
  cases hsupports

namespace Graph

variable {g g' : Graph} {merges : List (NodeId × List NodeId)} {s : OpSet}

namespace MergedAll

variable (h : g.Indexed) (hm : g.MergedAll merges g')

include h hm

theorem feeds_iff {source target : NodeId} (hsource : source ∈ g.nodeIds)
    (htarget : target ∈ g.nodeIds) (hsource' : ∀ m ∈ merges, ¬ g.Needed m.2 source)
    (htarget' : ∀ m ∈ merges, ¬ g.Needed m.2 target) :
    g'.Feeds source target ↔ g.Feeds source target := by
  obtain ⟨node, hnode⟩ := h.mem_nodeIds.mp htarget
  unfold Feeds
  simp only [hm.producer?_iff h hsource hsource', hnode, hm.node?_of_not_needed hnode htarget']

theorem supported_iff (hops : OpKey.fusedSubgraph ∉ s.ops) {id : NodeId} :
    s.capability.Supported g' id ↔
      s.capability.Supported g id ∧ ∀ m ∈ merges, ¬ g.Needed m.2 id := by
  unfold Capability.Supported
  rw [h.mem_nodeIds, hm.evolves.indexed.mem_nodeIds]
  constructor
  · rintro ⟨⟨node, hnode⟩, hsupports⟩
    rcases hm.node?_cases hnode with ⟨nodes, hin⟩ | ⟨hneeded, hnode'⟩
    · obtain ⟨-, node', hnode', hkey, -⟩ := hm.fused id nodes hin
      exact absurd (hkey ▸ OpSet.key_mem_of_supports hnode' hsupports) hops
    · refine ⟨⟨⟨node, hnode'⟩, ?_⟩, hneeded⟩
      rw [← hsupports]
      exact (s.supports_congr hm.sameArgs (hnode.trans hnode'.symm)).symm
  · rintro ⟨⟨⟨node, hnode⟩, hsupports⟩, hneeded⟩
    have hnode' := hm.node?_of_not_needed hnode hneeded
    refine ⟨⟨node, hnode'⟩, ?_⟩
    rw [← hsupports]
    exact s.supports_congr hm.sameArgs (hnode'.trans hnode.symm)

theorem links_iff (hops : OpKey.fusedSubgraph ∉ s.ops) {id id' : NodeId} :
    s.capability.Links g' id id' ↔ s.capability.Links g id id' ∧
      (∀ m ∈ merges, ¬ g.Needed m.2 id) ∧ ∀ m ∈ merges, ¬ g.Needed m.2 id' := by
  unfold Capability.Links
  rw [hm.supported_iff h hops, hm.supported_iff h hops]
  constructor
  · rintro ⟨⟨hid, hleft⟩, ⟨hid', hleft'⟩, hfeeds⟩
    rw [hm.feeds_iff h hid.1 hid'.1 hleft hleft', hm.feeds_iff h hid'.1 hid.1 hleft' hleft]
      at hfeeds
    exact ⟨⟨hid, hid', hfeeds⟩, hleft, hleft'⟩
  · rintro ⟨⟨hid, hid', hfeeds⟩, hleft, hleft'⟩
    rw [← hm.feeds_iff h hid.1 hid'.1 hleft hleft', ← hm.feeds_iff h hid'.1 hid.1 hleft' hleft]
      at hfeeds
    exact ⟨⟨hid, hleft⟩, ⟨hid', hleft'⟩, hfeeds⟩

end MergedAll

end Graph

namespace Capability

variable {g g' : Graph} {components components' : List (List NodeId)} {c : Capability}

/-- Components are listed by handle, so their members tell them apart. -/
theorem Divides.eq_of_mem_iff (hd : c.Divides g components) (hd' : c.Divides g' components')
    {nodes nodes' : List NodeId} (hnodes : nodes ∈ components) (hnodes' : nodes' ∈ components')
    (hmem : ∀ id, id ∈ nodes ↔ id ∈ nodes') : nodes = nodes' := by
  have hirrefl : Std.Irrefl fun x y : NodeId => x.index < y.index :=
    ⟨fun x => Nat.lt_irrefl x.index⟩
  exact (hd.ascending nodes hnodes).eq_of_mem_iff (hd'.ascending nodes' hnodes') hmem

theorem Divides.eq_of_mem (hd : c.Divides g components) {nodes nodes' : List NodeId}
    (hnodes : nodes ∈ components) (hnodes' : nodes' ∈ components) {id : NodeId} (hid : id ∈ nodes)
    (hid' : id ∈ nodes') : nodes = nodes' := by
  apply hd.eq_of_mem_iff hd hnodes hnodes'
  intro other
  rw [hd.linked nodes hnodes id hid, hd.linked nodes' hnodes' id hid']

end Capability

namespace Graph.MergedAll

variable {g g' : Graph} {merges : List (NodeId × List NodeId)} {s : OpSet} (h : g.Indexed)
  (hm : g.MergedAll merges g') (hops : OpKey.fusedSubgraph ∉ s.ops)
  {components components' : List (List NodeId)} (hd : s.capability.Divides g components)
  (hd' : s.capability.Divides g' components') {nodes nodes' : List NodeId}
  (hnodes : nodes ∈ components) (hnodes' : nodes' ∈ components') {id : NodeId} (hid : id ∈ nodes)
  (hid' : id ∈ nodes')

include h hm hops hd hd' hnodes hnodes' hid hid'

theorem component_subset : nodes' ⊆ nodes := by
  intro other hother
  rw [hd'.linked nodes' hnodes' id hid'] at hother
  rw [hd.linked nodes hnodes id hid]
  refine ReflTransGen.mono ?_ _ _ hother
  intro source target hlinks
  exact ((hm.links_iff h hops).mp hlinks).1

theorem component_eq_of_disjoint (hdisjoint : ∀ m ∈ merges, m.2.Disjoint nodes) :
    nodes' = nodes := by
  have hleft : ∀ other ∈ nodes, ∀ m ∈ merges, ¬ g.Needed m.2 other :=
    fun other hother m hmem hneeded => hdisjoint m hmem hneeded.mem hother
  apply hd'.eq_of_mem_iff hd hnodes' hnodes
  intro other
  constructor
  · intro hother
    exact hm.component_subset h hops hd hd' hnodes hnodes' hid hid' hother
  · intro hother
    rw [hd.linked nodes hnodes id hid] at hother
    rw [hd'.linked nodes' hnodes' id hid']
    induction hother with
    | refl => exact .refl
    | tail hpath hlinks ih =>
      have hsource := (hd.linked nodes hnodes id hid _).mpr hpath
      have htarget := (hd.linked nodes hnodes id hid _).mpr (hpath.tail hlinks)
      exact ih.tail ((hm.links_iff h hops).mpr ⟨hlinks, hleft _ hsource, hleft _ htarget⟩)

theorem not_givenBy_of_merged (hsub : ∀ m ∈ merges, m.2 ∈ components)
    (hmerged : nodes ∈ merges.map Prod.snd) (a : ArgId) : ¬ GivenBy g' (· ∈ nodes') a := by
  rintro ⟨⟨source, hsource, hin'⟩, huse⟩
  have hin := hm.component_subset h hops hd hd' hnodes hnodes' hid hid' hin'
  obtain ⟨hsupported, hleft⟩ :=
    (hm.supported_iff h hops).mp ((hd'.mem_iff source).mp ⟨nodes', hnodes', hin'⟩)
  rw [hm.producer?_iff h hsupported.1 hleft] at hsource
  obtain ⟨m, hmem, rfl⟩ := List.mem_map.mp hmerged
  apply hleft m hmem
  refine needed_of_givenBy ⟨⟨source, hsource, hin⟩, ?_⟩ hsource
  rcases huse with hout | ⟨reader, node, hreader, hnode, ha⟩
  · exact .inl (hm.sameArgs.outputs ▸ hout)
  · right
    rcases hm.node?_cases hnode with ⟨other, hother⟩ | ⟨hleft', hnode'⟩
    · -- A fused node reads the arg because a node of another component did.
      obtain ⟨-, node', hnode', -, hreads, -⟩ := hm.fused reader other hother
      cases hnode.symm.trans hnode'
      rcases (hreads a).mp ha with ⟨⟨⟨reader', node', hin'', hnode', ha'⟩, hout⟩, -⟩ | ⟨-, hinit⟩
      · refine ⟨reader', node', ?_, hnode', ha'⟩
        intro hreader'
        have heq : m.2 = other := hd.eq_of_mem hnodes (hsub _ hother) hreader' hin''
        exact hout source hsource (heq ▸ hin)
      · exact absurd hinit (h.produced_internal a source hsource).2
    · -- A reader in the merged component would be linked to the producer.
      refine ⟨reader, node, ?_, hnode', ha⟩
      intro hreader'
      apply hreader
      rw [hd'.linked nodes' hnodes' source hin']
      apply ReflTransGen.single
      rw [hm.links_iff h hops]
      refine ⟨⟨hsupported, (hd.mem_iff reader).mp ⟨m.2, hnodes, hreader'⟩, ?_⟩, hleft, hleft'⟩
      exact .inl ⟨node, a, hnode', ha, hsource⟩

end Graph.MergedAll

namespace Capability

variable {g g' : Graph} {components components' : List (List NodeId)}

theorem Progress.blocked {s : OpSet} (h : g.Indexed) (hops : OpKey.fusedSubgraph ∉ s.ops)
    {report : PartitionReport} {merges : List (NodeId × List NodeId)}
    (hp : Progress g components.zipIdx report merges g') (hd : s.capability.Divides g components)
    (hd' : s.capability.Divides g' components') : ∀ nodes ∈ components', g'.Blocked nodes := by
  intro nodes' hnodes'
  have hm := hp.merged
  have hsublist := hp.sublist
  rw [List.zipIdx_map_fst] at hsublist
  have hsub : ∀ m ∈ merges, m.2 ∈ components :=
    fun m hmem => hsublist.subset (List.mem_map_of_mem hmem)
  obtain ⟨id, hid'⟩ := List.exists_mem_of_ne_nil nodes' (hd'.nonempty nodes' hnodes')
  have hsupported := (hm.supported_iff h hops).mp ((hd'.mem_iff id).mp ⟨nodes', hnodes', hid'⟩)
  obtain ⟨nodes, hnodes, hid⟩ := (hd.mem_iff id).mpr hsupported.1
  by_cases hmerged : nodes ∈ merges.map Prod.snd
  · exact .inl (hm.not_givenBy_of_merged h hops hd hd' hnodes hnodes' hid hid' hsub hmerged)
  · have hdisjoint : ∀ m ∈ merges, m.2.Disjoint nodes := by
      intro m hmem other hother hother'
      apply hmerged
      rw [← hd.eq_of_mem (hsub m hmem) hnodes hother hother']
      exact List.mem_map_of_mem hmem
    rw [hm.component_eq_of_disjoint h hops hd hd' hnodes hnodes' hid hid' hdisjoint]
    rw [← List.zipIdx_map_fst 0 components] at hnodes
    obtain ⟨entry, hentry, rfl⟩ := List.mem_map.mp hnodes
    exact ((hp.skipped entry hentry).resolve_left hmerged).2

theorem partition_of_blocked (c : Capability) (h : g.Indexed)
    (hcandidates : g.candidates c = .ok components) (hd : c.Divides g components)
    (hblocked : ∀ nodes ∈ components, g.Blocked nodes) :
    ∃ report, c.partition g = .ok report g ∧ report.fused = [] ∧
      report.skipped.length = components.length := by
  have hrun := stateful_foldlM_succeeds
    (f := fun report (entry : List NodeId × Nat) => c.fuseComponent report entry.1 entry.2)
    (P := fun done report g' => g' = g ∧ report.fused = [] ∧ report.skipped.length = done.length)
    components.zipIdx ?step .empty g ⟨rfl, rfl, rfl⟩
  case step =>
    rintro done ⟨nodes, i⟩ rest report g₁ heq ⟨rfl, hfused, hskipped⟩
    have hnodes : nodes ∈ components := by
      rw [← List.zipIdx_map_fst 0 components, heq]
      simp
    have hlive : ∀ id ∈ nodes, id ∈ g₁.nodeIds :=
      fun id hid => ((hd.mem_iff id).mp ⟨nodes, hnodes, hid⟩).1
    rcases c.fuseComponent_cases h hlive report i with
      ⟨-, name, reason, hrun⟩ | ⟨hfree, -⟩
    · refine ⟨_, g₁, hrun, rfl, hfused, ?_⟩
      simp [PartitionReport.addSkipped, hskipped]
    · exact absurd (hblocked nodes hnodes) hfree
  obtain ⟨report, g', hfold, rfl, hfused, hskipped⟩ := hrun
  rw [List.length_zipIdx] at hskipped
  refine ⟨report, ?_, hfused, hskipped⟩
  unfold partition
  rw [stateful_get_bind, hcandidates]
  exact hfold

end Capability

/--
Every component that a partition leaves is blocked, so that a second partition skips them all and
leaves the graph as it is.
-/
theorem OpSet.partition_idempotent (s : OpSet) {g : Graph} (h : g.Indexed)
    (hops : OpKey.fusedSubgraph ∉ s.ops) :
    ∃ report g' components report', s.capability.partition g = .ok report g' ∧
      g'.candidates s.capability = .ok components ∧ (∀ nodes ∈ components, g'.Blocked nodes) ∧
      s.capability.partition g' = .ok report' g' ∧ report'.fused = [] ∧
      report'.skipped.length = components.length := by
  obtain ⟨components, report, merges, g', -, hd, hrun, hp⟩ :=
    s.capability.partition_succeeds h (s.answers_capability h)
  have h' := hp.merged.evolves.indexed
  obtain ⟨components', hcandidates, hd'⟩ := h'.candidates_succeeds (s.answers_capability h')
  have hblocked := hp.blocked h hops hd hd'
  obtain ⟨report', hrun', hfused, hskipped⟩ :=
    s.capability.partition_of_blocked h' hcandidates hd' hblocked
  exact ⟨report, g', components', report', hrun, hcandidates, hblocked, hrun', hfused, hskipped⟩

def OpSet.leftoverEdits : List Graph.Mutation :=
  [.addInput "x" ⟨.float32, none⟩, .newArg "s" ⟨.float32, none⟩, .newArg "t" ⟨.float32, none⟩,
    .newArg "y" ⟨.float32, none⟩, .newArg "p" ⟨.float32, none⟩, .newArg "z" ⟨.float32, none⟩,
    .newArg "q" ⟨.float32, none⟩, .addNode ⟨"split", .standard "Relu", [some ⟨0⟩], [some ⟨1⟩], ∅⟩,
    .addNode ⟨"mid", .standard "Exp", [some ⟨1⟩], [some ⟨2⟩], ∅⟩,
    .addNode ⟨"join", .standard "Add", [some ⟨1⟩, some ⟨2⟩], [some ⟨3⟩], ∅⟩,
    .addNode ⟨"live", .standard "Relu", [some ⟨0⟩], [some ⟨4⟩], ∅⟩,
    .addNode ⟨"dead", .standard "Relu", [some ⟨4⟩], [some ⟨5⟩], ∅⟩,
    .addNode ⟨"end", .standard "Exp", [some ⟨4⟩], [some ⟨6⟩], ∅⟩, .addOutput ⟨3⟩, .addOutput ⟨6⟩]

/--
The second partition meets `split` and `join`, skipped before, and `dead`, which was left over.
-/
theorem OpSet.partition_idempotent_leftover :
    ∃ g g' : Graph, (Graph.empty "leftover").runAll leftoverEdits = .ok g ∧
      npu.capability.partition g =
        .ok ⟨[("npu_1", 1)], [("npu_0", "loop detected")]⟩ g' ∧
      g'.Blocked [⟨0⟩, ⟨2⟩] ∧ g'.Blocked [⟨4⟩] ∧
      npu.capability.partition g' =
        .ok ⟨[], [("npu_0", "loop detected"), ("npu_1", "no live outputs")]⟩ g' := by
  have hrun : (do
      let g ← (Graph.empty "leftover").runAll leftoverEdits
      return match npu.capability.partition g with
        | .ok report g' =>
          (some report, g'.candidates npu.capability,
            match npu.capability.partition g' with
            | .ok report' _ => some report'
            | .error _ _ => none)
        | .error _ _ => (none, .ok [], none)) =
      .ok (some ⟨[("npu_1", 1)], [("npu_0", "loop detected")]⟩, .ok [[⟨0⟩, ⟨2⟩], [⟨4⟩]],
        some ⟨[], [("npu_0", "loop detected"), ("npu_1", "no live outputs")]⟩) := by decide +kernel
  simp only [bind_eq_ok_iff, pure_eq_ok_iff] at hrun
  obtain ⟨g, hg, hreports⟩ := hrun
  have hindexed := (Graph.Reachable.runAll (.empty "leftover") hg).indexed
  obtain ⟨report, g', components, report', hfirst, hcandidates, hblocked, hsecond, -, -⟩ :=
    OpSet.partition_idempotent .npu hindexed (by decide +kernel)
  simp only [hfirst, hcandidates, hsecond, Option.some.injEq, Prod.mk.injEq, Except.ok.injEq]
    at hreports
  obtain ⟨rfl, rfl, rfl⟩ := hreports
  exact ⟨g, g', hg, hfirst, hblocked _ (by simp), hblocked _ (by simp), hsecond⟩

end OpGraph
