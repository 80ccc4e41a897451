import OpGraph.Proofs.Graph.Interface
import OpGraph.Proofs.Graph.Reachable
import OpGraph.Proofs.Pipeline.Run

/-!
A pipeline leaves the interface of a graph alone, also when it ends in an error. The rules need not
even be matched with their own patterns for that.
-/

namespace OpGraph

def Workspace.Shows (interface : List (ArgId × Option String) × List (Option String))
    (w : Workspace) : Prop :=
  w.graph.Indexed ∧ w.graph.interface = interface

theorem Workspace.Shows.of_graph {interface : List (ArgId × Option String) × List (Option String)}
    {w w' : Workspace} (hw : w.Shows interface) (hgraph : w'.graph = w.graph) :
    w'.Shows interface := by
  rw [Shows, hgraph]
  exact hw

namespace RuleSpec

theorem interface_of_fires {spec : RuleSpec} (hacts : spec.Acts) {pattern : Pattern} {g g' : Graph}
    (h : g.Indexed) (hfires : (spec.toRule pattern).Fires g g') :
    g'.Indexed ∧ g'.interface = g.interface := by
  obtain ⟨id, m, pass, counter, -, hact⟩ := exists_deed_of_fires hfires
  obtain ⟨root, names, hactsOn, -⟩ := hacts
  obtain ⟨producer, node, old, args, -, hnode, hold, -, hrewrites⟩ :=
    hactsOn pass m g counter g' hact
  have hmem : old ∈ node.presentOutputs := Node.mem_presentOutputs_iff.mpr ⟨0, hold⟩
  exact hrewrites.interface h (h.producer?_eq_some_iff.mpr ⟨node, hnode, hmem⟩)

end RuleSpec

namespace Pass

variable {interface : List (ArgId × Option String) × List (Option String)} {config : Config}
  {store : Store} {w : Workspace}

theorem returns_run_shows (b : Builtin) (hw : w.Shows interface) :
    (b.pass.run config store).Returns w (fun _ => Workspace.Shows interface)
      (fun _ => Workspace.Shows interface) := by
  cases hb : b.pass with
  | rules p =>
    have hrun := p.returns_run (w := w) store config.maxChanges (fun _ _ => True)
      (fun _ _ => True) (fun g => g.Indexed ∧ g.interface = interface) ?fetch
      (RulePass.local_of_builtin b hb) ?step trivial hw
    · refine hrun.mono (fun _ _ hw' => hw'.2.1) ?_
      rintro e w' ⟨⟨-, hgraph⟩, -⟩
      exact hw.of_graph hgraph
    case fetch =>
      intro spec _ compiled _ w _
      exact PassM.returns_fetch.mono (fun _ _ _ => ⟨trivial, trivial⟩) fun _ _ _ => trivial
    case step =>
      rintro spec hspec pattern - g g' order ⟨h, hinterface⟩ - hfires
      obtain ⟨h', hsame⟩ :=
        RuleSpec.interface_of_fires (RuleSpec.acts_of_builtin b hb spec hspec) h hfires
      exact ⟨h', hsame.trans hinterface⟩
  | partition =>
    apply returns_runPartition hw.1 hw
    intro components report merges g' hprogress
    exact ⟨hprogress.merged.evolves.indexed, hprogress.merged.sameArgs.interface.trans hw.2⟩

end Pass

namespace Pipeline

variable {p : Pipeline} {interface : List (ArgId × Option String) × List (Option String)}

theorem keeps_shows
    (hp : ∀ name pass, p.registry.find name = .ok pass → ∃ b : Builtin, pass = b.pass)
    (store : Store) :
    p.Keeps store (Workspace.Shows interface) (fun _ => Workspace.Shows interface) where
  unknown _ _ hw := hw
  pass name pass hfind w hw := by
    obtain ⟨b, rfl⟩ := hp name pass hfind
    exact Pass.returns_run_shows b hw
  collect w removed g hw hcollect := by
    have htrimmed := Graph.trimmed_collect hw.1 hcollect
    exact ⟨htrimmed.indexed, htrimmed.interface.trans hw.2⟩
  resolve name w hw := by
    apply PassM.returns_edit
    · intro _ g hrun
      obtain ⟨hindexed, hretyped⟩ := hw.1.retyped_of_resolve hrun
      exact ⟨hindexed, hretyped.interface.trans hw.2⟩
    · intro e g hrun
      rw [Graph.resolve_eq_error hrun]
      exact hw
  prepareDump _ hw := p.returns_prepareDump.mono (fun _ _ => hw.of_graph) fun _ _ => hw.of_graph
  dump i name _ hw := (p.returns_dump i name).mono (fun _ _ => hw.of_graph) fun _ _ => hw.of_graph

/--
A pipeline of built-in passes that returns, with reports or with an error, leaves the inputs with
their names and the names of the outputs in order, whatever its configuration and its store are.
-/
theorem run_preserves_interface {p : Pipeline}
    (hp : ∀ name pass, p.registry.find name = .ok pass → ∃ b : Builtin, pass = b.pass)
    (store : Store) {w : Workspace} (h : w.graph.Indexed) :
    (∀ reports w', p.run store w = .ok reports w' → w'.graph.interface = w.graph.interface) ∧
    (∀ e w', p.run store w = .error (.error e) w' → w'.graph.interface = w.graph.interface) := by
  have hreturns := (keeps_shows hp store).returns_run (w := w) ⟨h, rfl⟩
  constructor
  · intro reports w' hrun
    exact (hreturns.ok reports w' hrun).2
  · intro e w' hrun
    exact (hreturns.error e w' hrun).2

theorem run_preserves_interface_pair :
    ∃ g reports w', (Graph.empty "pair").runAll RulePass.pairEdits = .ok g ∧
      (ofPasses ["qdq_to_fix", "partition"] true).run .memory ⟨g, .empty, .empty⟩ =
        .ok reports w' ∧
      g.outputs = [⟨4⟩, ⟨5⟩] ∧ w'.graph.outputs = [⟨6⟩, ⟨5⟩] ∧
      w'.graph.interface = g.interface := by
  have hrun : (fun g : Graph => (g.outputs,
      match (ofPasses ["qdq_to_fix", "partition"] true).run .memory ⟨g, .empty, .empty⟩ with
      | .ok _ w => some w.graph.outputs
      | .error .. => none)) <$> (Graph.empty "pair").runAll RulePass.pairEdits =
      .ok ([⟨4⟩, ⟨5⟩], some [⟨6⟩, ⟨5⟩]) := by decide +kernel
  rw [map_eq_ok_iff] at hrun
  obtain ⟨g, hg, hfacts⟩ := hrun
  obtain ⟨houtputs, hpipeline⟩ := Prod.mk.inj hfacts
  split at hpipeline
  · next reports w' hreports =>
    have hindexed := (Graph.Reachable.runAll (.empty "pair") hg).indexed
    have hinterface := (run_preserves_interface (p := ofPasses _ _)
      (fun _ _ => Registry.exists_builtin_of_find) .memory (w := ⟨g, .empty, .empty⟩) hindexed).1
        reports w' hreports
    exact ⟨g, reports, w', hg, hreports, houtputs, Option.some.inj hpipeline, hinterface⟩
  · cases hpipeline

end Pipeline

end OpGraph
