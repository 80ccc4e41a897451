import OpGraph.Pipeline
import OpGraph.Proofs.Fusion.Partition
import OpGraph.Proofs.Pass.Returns

/-!
What a pipeline keeps: whatever is kept by its passes and by all that follows a pass holds whenever
the pipeline returns.
-/

namespace OpGraph

namespace PassM

variable {α : Type} {P : Workspace → Prop} {E : PassError → Workspace → Prop}

theorem returns_forM {f : α → PassM PUnit} (l : List α)
    (hstep : ∀ a ∈ l, ∀ w, P w → (f a).Returns w (fun _ => P) E) :
    ∀ w, P w → (l.forM f).Returns w (fun _ => P) E := by
  induction l with
  | nil =>
    intro w hw
    exact returns_pure hw
  | cons a l ih =>
    intro w hw
    apply returns_bind (hstep a List.mem_cons_self w hw)
    intro _ w₁ hw₁
    exact ih (fun a ha => hstep a (List.mem_cons_of_mem _ ha)) w₁ hw₁

end PassM

/-! ### Passes -/

namespace Registry

theorem mem_of_foldl_register (passes : List Pass) {r : Registry} {name : String} {pass : Pass}
    (hfind : (passes.foldl register r)[name]? = some pass) :
    pass ∈ passes ∨ r[name]? = some pass := by
  induction passes generalizing r with
  | nil => exact .inr hfind
  | cons first rest ih =>
    obtain hmem | hfind := ih hfind
    · exact .inl (List.mem_cons_of_mem _ hmem)
    · rw [register, Std.ExtTreeMap.getElem?_insert] at hfind
      split at hfind
      · cases hfind
        exact .inl List.mem_cons_self
      · exact .inr hfind

theorem exists_builtin_of_find {name : String} {pass : Pass}
    (hfind : builtin.find name = .ok pass) : ∃ b : Builtin, pass = b.pass := by
  rw [find] at hfind
  split at hfind
  · next found hfound =>
    cases hfind
    obtain hmem | hempty := mem_of_foldl_register _ hfound
    · obtain ⟨b, -, rfl⟩ := List.mem_map.mp hmem
      exact ⟨b, rfl⟩
    · rw [empty, Std.ExtTreeMap.getElem?_empty] at hempty
      cases hempty
  · cases hfind

end Registry

namespace Pass

theorem returns_runPartition {config : Config} {w : Workspace} {J : Workspace → Prop}
    {E : PassError → Workspace → Prop} (h : w.graph.Indexed) (hw : J w)
    (hstep : ∀ components report merges g',
      Capability.Progress w.graph components report merges g' → J { w with graph := g' }) :
    (runPartition config).Returns w (fun _ => J) E := by
  unfold runPartition
  split
  · exact PassM.returns_pure hw
  · obtain ⟨components, report, merges, g', -, -, hrun, hprogress⟩ :=
      ((OpSet.ofEntries device config.deviceOps).capability).partition_succeeds h
        (OpSet.answers_capability h _)
    apply PassM.returns_bind (Q := fun _ => J)
    · apply PassM.returns_edit
      · intro report' g'' hrun'
        cases hrun.symm.trans hrun'
        exact hstep _ _ _ _ hprogress
      · intro e g'' hrun'
        cases hrun.symm.trans hrun'
    · intro outcome w' hw'
      exact PassM.returns_pure hw'

end Pass

/-! ### Pipelines -/

namespace Pipeline

theorem returns_prepareDump (p : Pipeline) {w : Workspace} :
    p.prepareDump.Returns w (fun _ w' => w'.graph = w.graph) (fun _ w' => w'.graph = w.graph) := by
  constructor
  · intro _ w' hrun
    unfold prepareDump at hrun
    split at hrun
    · cases hrun
      rfl
    · split at hrun
      · cases hrun
        rfl
      · cases hrun
  · intro e w' hrun
    unfold prepareDump at hrun
    split at hrun
    · cases hrun
    · split at hrun
      · cases hrun
      · cases hrun
        rfl

theorem returns_dump (p : Pipeline) (i : Nat) (name : String) {w : Workspace} :
    (p.dump i name).Returns w (fun _ w' => w'.graph = w.graph)
      (fun _ w' => w'.graph = w.graph) := by
  constructor
  · intro _ w' hrun
    unfold dump at hrun
    split at hrun
    · cases hrun
      rfl
    · dsimp only at hrun
      split at hrun
      · cases hrun
        rfl
      · cases hrun
  · intro e w' hrun
    unfold dump at hrun
    split at hrun
    · cases hrun
    · dsimp only at hrun
      split at hrun
      · cases hrun
      · injection hrun with _ hw'
        rw [← hw']

/-- All that a pipeline is made of keeps `J`, or ends in an error as `E` says. -/
structure Keeps (p : Pipeline) (store : Store) (J : Workspace → Prop)
    (E : PassError → Workspace → Prop) : Prop where
  unknown : ∀ name w, J w → E (.unknownPass name) w
  pass : ∀ name pass, p.registry.find name = .ok pass →
    ∀ w, J w → (pass.run p.config store).Returns w (fun _ => J) E
  collect : ∀ w removed g, J w → w.graph.collect = .ok (removed, g) → J { w with graph := g }
  resolve : ∀ name w, J w → (PassM.edit (.resolve name) Graph.resolve).Returns w (fun _ => J) E
  prepareDump : ∀ w, J w → p.prepareDump.Returns w (fun _ => J) E
  dump : ∀ i name w, J w → (p.dump i name).Returns w (fun _ => J) E

namespace Keeps

variable {p : Pipeline} {store : Store} {J : Workspace → Prop} {E : PassError → Workspace → Prop}
  (hk : p.Keeps store J E)

include hk

theorem returns_find (name : String) {w : Workspace} (hw : J w) :
    (p.find name).Returns w (fun pass w' => J w' ∧ p.registry.find name = .ok pass) E := by
  unfold find
  split
  · next pass hfind => exact PassM.returns_pure ⟨hw, hfind⟩
  · next e hfind =>
    rw [Registry.find] at hfind
    split at hfind
    · cases hfind
    · cases hfind
      exact PassM.returns_throw (hk.unknown name w hw)

theorem returns_runPass (i : Nat) (name : String) {w : Workspace} (hw : J w) :
    (p.runPass store i name).Returns w (fun _ => J) E := by
  apply PassM.returns_bind (hk.returns_find name hw)
  rintro pass w₁ ⟨hw₁, hfind⟩
  apply PassM.returns_bind (hk.pass name pass hfind w₁ hw₁)
  intro report w₂ hw₂
  apply PassM.returns_bind (Q := fun _ => J)
  · apply PassM.returns_get_bind
    apply PassM.returns_orFault_bind
    rintro ⟨removed, g⟩ hcollect
    apply PassM.returns_set_bind
    exact PassM.returns_pure (hk.collect w₂ removed g hw₂ hcollect)
  · intro collected w₃ hw₃
    have hdump : ∀ w, J w → (do
        p.dump i name
        return { report with collected := collected } : PassM PassReport).Returns w
          (fun _ => J) E := by
      intro w hw
      apply PassM.returns_bind (hk.dump i name w hw)
      intro _ w' hw'
      exact PassM.returns_pure hw'
    split
    · apply PassM.returns_bind (hk.resolve name w₃ hw₃)
      intro _ w₄ hw₄
      exact hdump w₄ hw₄
    · exact hdump w₃ hw₃

theorem returns_passes (entries : List (String × Nat)) {w : Workspace} (hw : J w) :
    (entries.mapM fun (name, i) => p.runPass store i name).Returns w (fun _ => J) E := by
  have hstep : ∀ entry ∈ entries, ∀ w, J w →
      (p.runPass store entry.2 entry.1).Returns w (fun _ w' => J w' ∧ True) E := by
    intro entry _ w hw
    exact (hk.returns_runPass entry.2 entry.1 hw).mono (fun _ _ hJ => ⟨hJ, trivial⟩) fun _ _ => id
  exact (PassM.returns_mapM entries hstep w hw).mono (fun _ _ => And.left) fun _ _ => id

theorem returns_run {w : Workspace} (hw : J w) : (p.run store).Returns w (fun _ => J) E := by
  have hfind : ∀ name ∈ p.config.pipeline, ∀ w, J w →
      (discard (p.find name)).Returns w (fun _ => J) E := by
    intro name _ w hw
    apply PassM.returns_bind (hk.returns_find name hw)
    rintro _ w' ⟨hw', -⟩
    exact PassM.returns_pure hw'
  apply PassM.returns_bind (PassM.returns_forM _ hfind w hw)
  intro _ w₁ hw₁
  apply PassM.returns_bind (hk.prepareDump w₁ hw₁)
  intro _ w₂ hw₂
  exact hk.returns_passes _ hw₂

end Keeps

def ofPasses (passes : List String) (resolve : Bool) : Pipeline :=
  ⟨{ Config.default with passes := passes, resolve := resolve }, .builtin⟩

end Pipeline

end OpGraph
