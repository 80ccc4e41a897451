import OpGraph.Proofs.Fusion.Blocked

/-!
Partitioning never fails. Each component of the supported nodes is merged into a new node, or it is
blocked and skipped.
-/

namespace OpGraph

open Relation

namespace Capability

variable {g : Graph} {nodes : List NodeId}

theorem fuseComponent_cases (c : Capability) (h : g.Indexed)
    (hlive : ∀ id ∈ nodes, id ∈ g.nodeIds) (report : PartitionReport) (i : Nat) :
    (g.Blocked nodes ∧
      ∃ name reason, c.fuseComponent report nodes i g = .ok (report.addSkipped name reason) g) ∨
    (¬ g.Blocked nodes ∧ ∃ name covered id g',
      c.fuseComponent report nodes i g = .ok (report.addFused name covered) g' ∧
        g.Merged nodes id g' ∧ g.KeepsValid g') := by
  obtain ⟨inputs, outputs, hboundary, hasks⟩ := RegionRequest.componentBoundary_succeeds h hlive
  have hr := hasks (c.name ++ "_" ++ toString i) c.name
  unfold fuseComponent
  rw [stateful_get_bind]
  simp only [hboundary, orFault]
  rw [stateful_pure_bind]
  by_cases hempty : outputs.isEmpty
  · rw [if_pos hempty]
    exact .inl ⟨.inl (hr.outputs_eq_nil_iff.mp (List.isEmpty_iff.mp hempty)), _, _, rfl⟩
  · rw [if_neg hempty]
    have hne : outputs ≠ [] := by simpa using hempty
    obtain ⟨o, ho, hdescribes⟩ := RegionRequest.outline_succeeds h (hr.wellPosed hne)
    have hfound := RegionRequest.find_of_outline h ho hdescribes
    rw [or_iff_right (hr.not_readsUndeclared h), hr.feedsBoundary_iff h] at hfound
    rcases hfound with ⟨hitself, via, hvia⟩ | ⟨hitself, sub, hfind, -⟩
    · rw [hvia]
      exact .inl ⟨.inr hitself, _, _, rfl⟩
    · obtain ⟨o, hs⟩ := RegionRequest.accepted_of_find h hfind
      obtain ⟨id, g', hfuse, h', hfused⟩ := hs.fuse_succeeds h
      have hmerged := RegionRequest.merged_of_fused h hr hs hfused (Region.evolves_fuse h hfuse)
      obtain ⟨node, hnode, -⟩ := hmerged.fused
      right
      refine ⟨not_or.mpr ⟨mt hr.outputs_eq_nil_iff.mpr hne, hitself⟩, node.name, sub.nodes.length,
        id, g', ?_, hmerged, RegionRequest.keepsValid_of_fused h hr hs h' hfused⟩
      simp only [hfind]
      rw [stateful_bind_of_ok hfuse, stateful_get_bind, Graph.node_eq_ok_iff.mpr hnode]
      rfl

/-- The state of a partition after some components, each with its number. -/
structure Progress (g : Graph) (done : List (List NodeId × Nat)) (report : PartitionReport)
    (merges : List (NodeId × List NodeId)) (g' : Graph) : Prop where
  merged : g.MergedAll merges g'
  sublist : (merges.map Prod.snd).Sublist (done.map Prod.fst)
  fused : report.fused.length = merges.length
  counted : report.fused.length + report.skipped.length = done.length
  keeps : g.KeepsValid g'
  skipped : ∀ entry ∈ done, entry.1 ∈ merges.map Prod.snd ∨
    ((∀ id ∈ entry.1, id ∈ g'.nodeIds) ∧ g'.Blocked entry.1)

theorem Progress.step (c : Capability) (h : g.Indexed) {done : List (List NodeId × Nat)}
    {report : PartitionReport} {merges : List (NodeId × List NodeId)} {g₁ : Graph}
    (hp : Progress g done report merges g₁)
    (hlive : ∀ id ∈ nodes, id ∈ g.nodeIds) (hdisjoint : ∀ entry ∈ done, entry.1.Disjoint nodes)
    (i : Nat) :
    ∃ report' merges' g₂, c.fuseComponent report nodes i g₁ = .ok report' g₂ ∧
      Progress g (done ++ [(nodes, i)]) report' merges' g₂ := by
  have hapart : ∀ m ∈ merges, m.2.Disjoint nodes := by
    intro m hmem
    obtain ⟨entry, hentry, heq⟩ := List.mem_map.mp (hp.sublist.subset (List.mem_map_of_mem hmem))
    exact heq ▸ hdisjoint entry hentry
  have h₁ := hp.merged.evolves.indexed
  have hu := hp.merged.untouched h hlive hapart
  have hlive₁ := hu.live h h₁ hlive
  have hcounted := hp.counted
  rcases c.fuseComponent_cases h₁ hlive₁ report i with
    ⟨hblocked, name, reason, hrun⟩ | ⟨-, name, covered, id, g₂, hrun, hstep, hkeeps⟩
  · refine ⟨_, merges, g₁, hrun, hp.merged, ?_, hp.fused, ?_, hp.keeps, ?_⟩
    · rw [List.map_append]
      exact hp.sublist.trans (List.sublist_append_left _ _)
    · simp only [PartitionReport.addSkipped, List.length_append, List.length_singleton]
      omega
    · intro entry hentry
      rcases List.mem_append.mp hentry with hentry | hentry
      · exact hp.skipped entry hentry
      · cases List.mem_singleton.mp hentry
        exact .inr ⟨hlive₁, hblocked⟩
  · refine ⟨_, merges ++ [(id, nodes)], g₂, hrun, hp.merged.snoc h hu hstep, ?_, ?_, ?_,
      hp.keeps.trans hkeeps, ?_⟩
    · rw [List.map_append, List.map_append]
      exact hp.sublist.append (.refl _)
    · simp only [PartitionReport.addFused, List.length_append, List.length_singleton, hp.fused]
    · simp only [PartitionReport.addFused, List.length_append, List.length_singleton]
      omega
    · intro entry hentry
      rw [List.map_append, List.mem_append]
      rcases List.mem_append.mp hentry with hentry | hentry
      · rcases hp.skipped entry hentry with hmerged | ⟨hlive', hblocked⟩
        · exact .inl (.inl hmerged)
        · right
          have hapart' := (hdisjoint entry hentry).symm
          have hu' := (hstep.mergedAll h₁).untouched h₁ hlive' (by simpa using hapart')
          exact ⟨hu'.live h₁ hstep.evolves.indexed hlive', hblocked.merged h₁ hstep hu' hapart'⟩
      · cases List.mem_singleton.mp hentry
        exact .inl (.inr List.mem_cons_self)

theorem partition_succeeds (c : Capability) (h : g.Indexed) (hc : c.Answers g) :
    ∃ components report merges g', g.candidates c = .ok components ∧ c.Divides g components ∧
      c.partition g = .ok report g' ∧ Progress g components.zipIdx report merges g' := by
  obtain ⟨components, hcandidates, hdivides⟩ := h.candidates_succeeds hc
  have hrun := stateful_foldlM_succeeds
    (f := fun report (entry : List NodeId × Nat) => c.fuseComponent report entry.1 entry.2)
    (P := fun done report g' => ∃ merges, Progress g done report merges g')
    components.zipIdx ?step .empty g ⟨[], .nil h, by simp, rfl, rfl, .refl g, by simp⟩
  case step =>
    rintro done ⟨nodes, i⟩ rest report g₁ heq ⟨merges, hp⟩
    have hsplit : components = done.map Prod.fst ++ nodes :: rest.map Prod.fst := by
      rw [← List.zipIdx_map_fst 0 components, heq]
      simp
    have hlive : ∀ id ∈ nodes, id ∈ g.nodeIds := by
      intro id hid
      exact ((hdivides.mem_iff id).mp ⟨nodes, by rw [hsplit]; simp, hid⟩).1
    have hdisjoint : ∀ entry ∈ done, entry.1.Disjoint nodes := by
      intro entry hentry
      have hpairwise := hdivides.disjoint
      rw [hsplit, List.pairwise_append] at hpairwise
      exact hpairwise.2.2 entry.1 (List.mem_map_of_mem hentry) nodes List.mem_cons_self
    obtain ⟨report', merges', g₂, hstep, hp'⟩ := hp.step c h hlive hdisjoint i
    exact ⟨report', g₂, hstep, merges', hp'⟩
  obtain ⟨report, g', hfold, merges, hp⟩ := hrun
  refine ⟨components, report, merges, g', hcandidates, hdivides, ?_, hp⟩
  unfold partition
  rw [stateful_get_bind, hcandidates]
  exact hfold

/--
Partitioning succeeds. Some of the components have what is needed of them merged into a new node
each, the others are skipped, and nothing else changes.
-/
theorem partition_of_acyclic (c : Capability) (h : g.Consistent) (hacyclic : g.Acyclic)
    (hc : c.Answers g) :
    ∃ components report merges g',
      g.candidates c = .ok components ∧ c.partition g = .ok report g' ∧
      report.fused.length + report.skipped.length = components.length ∧
      report.fused.length = merges.length ∧ (merges.map Prod.snd).Sublist components ∧
      g.MergedAll merges g' ∧
      (∀ id node, g.node? id = some node → c.supports g id = .ok false →
        g'.node? id = some node) ∧
      g'.inputs = g.inputs ∧ g'.outputs = g.outputs ∧ g'.Acyclic ∧
      ((∃ g₁, Graph.resolve g = .ok () g₁) → ∃ g₂, Graph.resolve g' = .ok () g₂) := by
  obtain ⟨components, report, merges, g', hcandidates, hdivides, hrun, hp⟩ :=
    c.partition_succeeds h.toIndexed hc
  have hcounted := hp.counted
  rw [List.length_zipIdx] at hcounted
  have hsublist := hp.sublist
  rw [List.zipIdx_map_fst] at hsublist
  refine ⟨components, report, merges, g', hcandidates, hrun, hcounted, hp.fused, hsublist,
    hp.merged, ?_, hp.merged.sameArgs.inputs, hp.merged.sameArgs.outputs,
    hp.keeps.acyclic hacyclic, ?_⟩
  · intro id node hnode hsupports
    apply hp.merged.node?_of_not_needed hnode
    intro m hmem hneeded
    have hin := hsublist.subset (List.mem_map_of_mem hmem)
    have hsupported := ((hdivides.mem_iff id).mp ⟨m.2, hin, hneeded.mem⟩).2
    rw [hsupports] at hsupported
    cases hsupported
  · intro hresolve
    obtain ⟨-, hsourced, -⟩ := h.resolve_succeeds_iff.mp hresolve
    apply hp.merged.evolves.indexed.resolve_succeeds_iff.mpr
    exact ⟨hp.keeps.consistent h, hp.keeps.sourced hsourced, hp.keeps.acyclic hacyclic⟩

def loopedEdits : List Graph.Mutation :=
  [.addInput "x" ⟨.float32, none⟩, .newArg "s" ⟨.float32, none⟩, .newArg "t" ⟨.float32, none⟩,
    .newArg "u" ⟨.float32, none⟩, .newArg "v" ⟨.float32, none⟩, .newArg "p" ⟨.float32, none⟩,
    .newArg "z" ⟨.float32, none⟩, .newArg "y" ⟨.float32, none⟩,
    .addNode ⟨"split", .standard "Relu", [some ⟨0⟩], [some ⟨1⟩], ∅⟩,
    .addNode ⟨"mid", .standard "Exp", [some ⟨1⟩], [some ⟨2⟩], ∅⟩,
    .addNode ⟨"join", .standard "Add", [some ⟨1⟩, some ⟨2⟩], [some ⟨3⟩], ∅⟩,
    .addNode ⟨"below", .standard "Exp", [some ⟨3⟩], [some ⟨4⟩], ∅⟩,
    .addNode ⟨"live", .standard "Relu", [some ⟨4⟩], [some ⟨5⟩], ∅⟩,
    .addNode ⟨"dead", .standard "Relu", [some ⟨5⟩], [some ⟨6⟩], ∅⟩,
    .addNode ⟨"end", .standard "Exp", [some ⟨5⟩], [some ⟨7⟩], ∅⟩, .addOutput ⟨7⟩]

/--
The component of `split` and `join` would feed itself through `mid`. The one of `live` and `dead` is
fused without `dead`, which stays and reads from the new node.
-/
theorem partition_of_acyclic_looped :
    ∃ (g g' : Graph), (Graph.empty "looped").runAll loopedEdits = .ok g ∧
      OpSet.npu.capability.partition g =
        .ok ⟨[("npu_1", 1)], [("npu_0", "loop detected")]⟩ g' ∧
      (∃ node, g.node? ⟨1⟩ = some node ∧ g'.node? ⟨1⟩ = some node) ∧ g'.Acyclic ∧
      ∃ g₂, Graph.resolve g' = .ok () g₂ := by
  have hrun : (do
      let g ← (Graph.empty "looped").runAll loopedEdits
      return (g.check, (g.node? ⟨1⟩).isSome,
        OpSet.npu.capability.supports g ⟨1⟩,
        match OpSet.npu.capability.partition g with
        | .ok report _ => some report
        | .error _ _ => none)) =
      .ok (.ok [⟨0⟩, ⟨1⟩, ⟨2⟩, ⟨3⟩, ⟨4⟩, ⟨5⟩, ⟨6⟩], true, .ok false,
        some ⟨[("npu_1", 1)], [("npu_0", "loop detected")]⟩) := by decide +kernel
  simp only [bind_eq_ok_iff, pure_eq_ok_iff, Prod.mk.injEq] at hrun
  obtain ⟨g, hg, hcheck, hlive, hsupports, hreport⟩ := hrun
  obtain ⟨node, hnode⟩ := Option.isSome_iff_exists.mp hlive
  have hindexed := (Graph.Reachable.runAll (.empty "looped") hg).indexed
  obtain ⟨hc, hsourced, horder⟩ := hindexed.check_eq_ok_iff.mp hcheck
  have hacyclic := hc.acyclic_of_topologicalOrder horder
  obtain ⟨components, report, merges, g', -, hpartition, -, -, -, -, hothers, -, -, hacyclic',
    hresolve⟩ := partition_of_acyclic _ hc hacyclic (OpSet.answers_capability hindexed _)
  rw [hpartition] at hreport
  cases hreport
  refine ⟨g, g', hg, hpartition, ⟨node, hnode, hothers ⟨1⟩ node hnode hsupports⟩, hacyclic', ?_⟩
  apply hresolve
  exact hindexed.resolve_succeeds_iff.mpr ⟨hc, hsourced, hacyclic⟩

end Capability

end OpGraph
