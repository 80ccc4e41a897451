import OpGraph.Proofs.Graph.Collect
import OpGraph.Proofs.Graph.Reachable
import OpGraph.Proofs.Pass.Genuine
import OpGraph.Proofs.Pass.Validity
import OpGraph.Proofs.Pipeline.Run

/-!
A pipeline keeps a graph valid from pass to pass, so validation after a pass never fails.
-/

namespace OpGraph

namespace Graph

def Resolves (g : Graph) : Prop :=
  ∃ g', resolve g = .ok () g'

theorem resolves_of_check {g : Graph} (h : g.Indexed) {order : List NodeId}
    (hcheck : g.check = .ok order) : g.Resolves := by
  obtain ⟨hc, hsourced, horder⟩ := h.check_eq_ok_iff.mp hcheck
  exact h.resolve_succeeds_iff.mpr ⟨hc, hsourced, hc.acyclic_of_topologicalOrder horder⟩

namespace Ready

variable {keys : List OpKey} {g g' : Graph} (h : g.Ready keys)

include h

theorem resolves : g.Resolves :=
  h.consistent.toIndexed.resolve_succeeds_iff.mpr ⟨h.consistent, h.sourced, h.acyclic⟩

theorem trimmed (ht : Trimmed g g') : g'.Ready keys :=
  ⟨ht.consistent h.consistent, ht.sourced h.sourced, ht.singleOutput h.single,
    ht.acyclic h.consistent.toIndexed h.acyclic⟩

theorem retyped (hr : Retyped g g') (h' : g'.Indexed) : g'.Ready keys := by
  refine ⟨hr.consistent h' h.consistent, hr.sourced h.sourced, ?_, hr.acyclic h.acyclic⟩
  intro id node hnode
  rw [hr.node?] at hnode
  exact h.single id node hnode

theorem fused {components : List (List NodeId × Nat)} {report : PartitionReport}
    {merges : List (NodeId × List NodeId)}
    (hp : Capability.Progress g components report merges g')
    (hkeys : OpKey.fusedSubgraph ∉ keys) : g'.Ready keys := by
  refine ⟨hp.keeps.consistent h.consistent, hp.keeps.sourced h.sourced, ?_,
    hp.keeps.acyclic h.acyclic⟩
  intro id node hnode hkey
  obtain ⟨nodes, hmem⟩ | ⟨-, hsame⟩ := hp.merged.node?_cases hnode
  · obtain ⟨-, node', hnode', hfused, -⟩ := hp.merged.fused id nodes hmem
    cases hnode.symm.trans hnode'
    rw [hfused] at hkey
    exact absurd hkey hkeys
  · exact h.single id node hsame hkey

end Ready

end Graph

/-- The graph is valid and every rule will get its own pattern. -/
def Workspace.Sound (store : Store) (w : Workspace) : Prop :=
  w.graph.Ready replacedKeys ∧
    PatternCache.Genuine Builtin.entries store w.cache w.storage

/-- The error says nothing against the graph, which is valid. -/
def PassError.Harmless (e : PassError) (w : Workspace) : Prop :=
  (∀ pass error, e ≠ .resolve pass error) ∧ (∀ error, e ≠ .partition error) ∧
    w.graph.Ready replacedKeys

namespace Pass

variable {config : Config} {store : Store} {w : Workspace}

theorem returns_run_sound (b : Builtin) (hw : w.Sound store) :
    (b.pass.run config store).Returns w (fun _ => Workspace.Sound store) PassError.Harmless := by
  cases hb : b.pass with
  | rules p =>
    have hrun := p.returns_run store config.maxChanges
      (PatternCache.Genuine Builtin.entries store) (fun spec pattern => spec.pattern = .ok pattern)
      (Graph.Wired replacedKeys) ?fetch (RulePass.local_of_builtin b hb) ?step hw.2 hw.1.wired
    · apply hrun.mono
      · rintro report w' ⟨hgenuine, hwired, order, horder⟩
        exact ⟨hwired.ready horder, hgenuine⟩
      · rintro e w' ⟨⟨-, hgraph⟩, rfl⟩
        refine ⟨by simp, by simp, ?_⟩
        rw [hgraph]
        exact hw.1
    case fetch =>
      intro spec hspec compiled hcompiled w hgenuine
      have hmem := Builtin.mem_entries b hb hspec hcompiled
      apply (PassM.returns_fetch_genuine Builtin.separate_entries hmem hgenuine).mono
      · rintro pattern w' ⟨hgenuine', rfl⟩
        exact ⟨hgenuine', hcompiled⟩
      · exact fun _ _ => id
    case step =>
      intro spec hspec pattern hpattern g g' order hwired horder hfires
      exact RuleSpec.wired_of_fires (RuleSpec.acts_of_builtin b hb spec hspec) hpattern
        (hwired.ready horder) hfires
  | partition =>
    apply returns_runPartition hw.1.consistent.toIndexed hw
    intro components report merges g' hprogress
    exact ⟨hw.1.fused hprogress (by decide), hw.2⟩

end Pass

namespace Pipeline

variable {p : Pipeline}

theorem keeps_sound
    (hp : ∀ name pass, p.registry.find name = .ok pass → ∃ b : Builtin, pass = b.pass)
    (hdump : p.config.dumpDir = none) (store : Store) :
    p.Keeps store (Workspace.Sound store) PassError.Harmless where
  unknown name w hw := ⟨by simp, by simp, hw.1⟩
  pass name pass hfind w hw := by
    obtain ⟨b, rfl⟩ := hp name pass hfind
    exact Pass.returns_run_sound b hw
  collect w removed g hw hcollect :=
    ⟨hw.1.trimmed (Graph.trimmed_collect hw.1.consistent.toIndexed hcollect), hw.2⟩
  resolve name w hw := by
    apply PassM.returns_edit
    · intro _ g hrun
      obtain ⟨hindexed, hretyped⟩ := hw.1.consistent.toIndexed.retyped_of_resolve hrun
      exact ⟨hw.1.retyped hretyped hindexed, hw.2⟩
    · intro e g hrun
      obtain ⟨g', hresolve⟩ := hw.1.resolves
      cases hresolve.symm.trans hrun
  prepareDump w hw := by
    unfold prepareDump
    rw [hdump]
    exact PassM.returns_pure hw
  dump i name w hw := by
    unfold dump
    rw [hdump]
    exact PassM.returns_pure hw

/--
Let nothing that is stored or known have the fingerprint of a rule's pattern without being that
pattern. On a valid graph in which the nodes that rules replace have one output, a pipeline of
built-in passes that does not save graphs never ends in an error about the graph or about fusion,
and the graph is valid after every pass, when the pipeline returns and when it fails.
-/
theorem run_preserves_validity {p : Pipeline}
    (hp : ∀ name pass, p.registry.find name = .ok pass → ∃ b : Builtin, pass = b.pass)
    (hdump : p.config.dumpDir = none) {store : Store} {w : Workspace} (h : w.graph.Indexed)
    (hresolves : w.graph.Resolves) (hsingle : w.graph.SingleOutput replacedKeys)
    (hgenuine : PatternCache.Genuine Builtin.entries store w.cache w.storage) :
    (∀ reports w', p.run store w = .ok reports w' → w'.graph.Resolves) ∧
    (∀ e w', p.run store w = .error (.error e) w' → (∀ pass error, e ≠ .resolve pass error) ∧
      (∀ error, e ≠ .partition error) ∧ w'.graph.Resolves) ∧
    ∀ n reports w₁,
      ((p.config.pipeline.take n).zipIdx.mapM fun (name, i) => p.runPass store i name) w =
        .ok reports w₁ →
      w₁.graph.Resolves ∧ ∀ name pass report w₂, p.registry.find name = .ok pass →
        pass.run p.config store w₁ = .ok report w₂ → w₂.graph.Resolves := by
  obtain ⟨hc, hsourced, hacyclic⟩ := h.resolve_succeeds_iff.mp hresolves
  have hw : w.Sound store := ⟨⟨hc, hsourced, hsingle, hacyclic⟩, hgenuine⟩
  have hkeeps := keeps_sound hp hdump store
  refine ⟨?_, ?_, ?_⟩
  · intro reports w' hrun
    exact ((hkeeps.returns_run hw).ok reports w' hrun).1.resolves
  · intro e w' hrun
    obtain ⟨hresolve, hpartition, hready⟩ := (hkeeps.returns_run hw).error e w' hrun
    exact ⟨hresolve, hpartition, hready.resolves⟩
  · intro n reports w₁ hrun
    have hw₁ := (hkeeps.returns_passes _ hw).ok reports w₁ hrun
    refine ⟨hw₁.1.resolves, ?_⟩
    intro name pass report w₂ hfind hpass
    exact ((hkeeps.pass name pass hfind w₁ hw₁).ok report w₂ hpass).1.resolves

theorem run_preserves_validity_pair :
    ∃ g reports w', (Graph.empty "pair").runAll RulePass.pairEdits = .ok g ∧
      (ofPasses ["qdq_to_fix", "partition"] true).run .memory ⟨g, .empty, .empty⟩ =
        .ok reports w' ∧
      reports.map PassReport.changes = [1, 0] ∧ w'.graph.Resolves := by
  have hrun : (fun g : Graph =>
      (g.check, g.liveNodes.all fun node => node.outputs.length ≤ 1,
      match (ofPasses ["qdq_to_fix", "partition"] true).run .memory ⟨g, .empty, .empty⟩ with
      | .ok reports _ => some (reports.map PassReport.changes)
      | .error .. => none)) <$> (Graph.empty "pair").runAll RulePass.pairEdits =
      .ok (.ok [⟨0⟩, ⟨1⟩, ⟨2⟩], true, some [1, 0]) := by decide +kernel
  rw [map_eq_ok_iff] at hrun
  obtain ⟨g, hg, hfacts⟩ := hrun
  simp only [Prod.mk.injEq] at hfacts
  obtain ⟨hcheck, hslots, hpipeline⟩ := hfacts
  split at hpipeline
  · next reports w' hreports =>
    have hindexed := (Graph.Reachable.runAll (.empty "pair") hg).indexed
    have hvalid := (run_preserves_validity (p := ofPasses _ _)
      (fun _ _ => Registry.exists_builtin_of_find) rfl (w := ⟨g, .empty, .empty⟩) hindexed
      (Graph.resolves_of_check hindexed hcheck) (Graph.singleOutput_of_all replacedKeys hslots)
      (PatternCache.genuine_empty Builtin.entries)).1 reports w' hreports
    exact ⟨g, reports, w', hg, hreports, Option.some.inj hpipeline, hvalid⟩
  · cases hpipeline

/-- With the forged pattern the wrong node is bypassed and its second output has no source. -/
theorem run_invalidates_forged :
    ∃ g reports w', (Graph.empty "split").runAll RulePass.splitEdits = .ok g ∧ g.Indexed ∧
      g.Resolves ∧ g.SingleOutput replacedKeys ∧
      (ofPasses ["remove_identity"] false).run .memory ⟨g, RulePass.forgedStorage, .empty⟩ =
        .ok reports w' ∧
      ¬ w'.graph.Resolves := by
  have hrun : (fun g : Graph =>
      (g.check, g.liveNodes.all fun node => node.key ∉ replacedKeys,
      match (ofPasses ["remove_identity"] false).run .memory
        ⟨g, RulePass.forgedStorage, .empty⟩ with
      | .ok _ w => some w.graph.check
      | .error .. => none)) <$> (Graph.empty "split").runAll RulePass.splitEdits =
      .ok (.ok [⟨0⟩, ⟨1⟩], true, some (.error (.error (.dangling "relu" "b")))) := by
    decide +kernel
  rw [map_eq_ok_iff] at hrun
  obtain ⟨g, hg, hfacts⟩ := hrun
  simp only [Prod.mk.injEq] at hfacts
  obtain ⟨hcheck, hkeys, hpipeline⟩ := hfacts
  split at hpipeline
  · next reports w' hreports =>
    have hindexed := (Graph.Reachable.runAll (.empty "split") hg).indexed
    refine ⟨g, reports, w', hg, hindexed, Graph.resolves_of_check hindexed hcheck,
      Graph.singleOutput_of_absent hkeys, hreports, ?_⟩
    rintro ⟨g', hresolve⟩
    rw [Graph.resolve, Option.some.inj hpipeline] at hresolve
    cases hresolve
  · cases hpipeline

end Pipeline

end OpGraph
