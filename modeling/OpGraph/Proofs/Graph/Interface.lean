import OpGraph.Proofs.Graph.Collect
import OpGraph.Proofs.Pass.Action

/-!
The interface of a graph, by which it is known outside. A replaced output hands its name to the arg
that takes its place, so the interface is the same after every rewrite of a rule.
-/

namespace OpGraph

namespace Graph

def interface (g : Graph) : List (ArgId × Option String) × List (Option String) :=
  (g.inputs.map fun a => (a, (g.arg? a).map Arg.name),
    g.outputs.map fun a => (g.arg? a).map Arg.name)

variable {g g' : Graph}

theorem interface_eq (hinputs : g'.inputs = g.inputs) (houtputs : g'.outputs = g.outputs)
    (hnames : ∀ a, a ∈ g.inputs ∨ a ∈ g.outputs →
      (g'.arg? a).map Arg.name = (g.arg? a).map Arg.name) :
    g'.interface = g.interface := by
  rw [interface, interface, hinputs, houtputs]
  congr 1
  · apply List.map_congr_left
    intro a ha
    rw [hnames a (.inl ha)]
  · apply List.map_congr_left
    intro a ha
    rw [hnames a (.inr ha)]

theorem SameArgs.interface (hs : SameArgs g g') : g'.interface = g.interface := by
  apply interface_eq hs.inputs hs.outputs
  intro a _
  rw [arg?, arg?, hs.args]

theorem Retyped.interface (hr : Retyped g g') : g'.interface = g.interface := by
  apply interface_eq _ _ fun a _ => hr.names a
  · rw [hr.rest]
  · rw [hr.rest]

theorem Trimmed.interface (ht : Trimmed g g') : g'.interface = g.interface := by
  apply interface_eq ht.inputs ht.outputs
  intro a ha
  rw [ht.args a ha]

/-- An output that is replaced is known outside by its name, which the new arg takes over. -/
theorem Replaced.interface {old new : ArgId} (hr : Replaced g g' old new) (hin : old ∉ g.inputs)
    (htakes : old ∈ g.outputs → TakesName g old new) : g'.interface = g.interface := by
  by_cases hname : TakesName g old new
  · obtain ⟨spare, oldArg, newArg, -, -, -, hargs⟩ := hr.args_renamed hname
    rw [Graph.interface, Graph.interface, hr.outputNames hname, hr.inputs]
    congr 1
    apply List.map_congr_left
    intro a ha
    rw [hargs, if_neg (ne_of_mem_of_not_mem ha hname.not_input),
      if_neg (ne_of_mem_of_not_mem ha hin)]
  · have hout : old ∉ g.outputs := fun hout => hname (htakes hout)
    apply interface_eq hr.inputs
    · rw [hr.outputs, map_swap_of_not_mem hout]
    · intro a _
      rw [hr.args_kept hname]

theorem interface_of_redirected (h : g.Indexed) {root : NodeId} {old new : ArgId} {removed : Node}
    {g₁ : Graph} (hin : old ∉ g.inputs) (htakes : old ≠ new → old ∈ g.outputs → TakesName g old new)
    (hreplace : g.replaceAllUses old new = .ok g₁)
    (hremove : g₁.removeNode root = .ok (removed, g')) :
    g'.Indexed ∧ g'.interface = g.interface := by
  have hfirst : g₁.Indexed ∧ g₁.interface = g.interface := by
    obtain ⟨-, -, ⟨-, rfl⟩ | ⟨hne, hindexed, hr⟩⟩ := replaceAllUses_eq_ok h hreplace
    · exact ⟨h, rfl⟩
    · exact ⟨hindexed, hr.interface hin (htakes hne)⟩
  obtain ⟨hnode, hid, rfl⟩ := removeNode_eq_ok hfirst.1 hremove
  exact ⟨hfirst.1.dropNode (hid ▸ hnode), (sameArgs_dropNode g₁ removed).interface.trans hfirst.2⟩

theorem interface_pushArg (h : g.Indexed) (name : String) (type : TensorType) :
    (g.pushArg name type).interface = g.interface := by
  refine interface_eq rfl rfl ?_
  intro a ha
  have hlive := ha.elim (h.inputs_live a) (h.outputs_live a)
  rw [arg?_pushArg, if_neg]
  rintro rfl
  rw [arg?_nextArg] at hlive
  cases hlive

theorem nextArg_takesName (h : g.Indexed) {old : ArgId} (hold : old ∈ g.outputs) :
    TakesName g old g.nextArg := by
  have hgone : ¬(g.arg? g.nextArg).isSome := by
    rw [arg?_nextArg]
    exact Bool.false_ne_true
  exact ⟨hold, fun ha => hgone (h.outputs_live _ ha), fun ha => hgone (h.inputs_live _ ha),
    fun ha => hgone (h.initializers_live _ ha)⟩

theorem Rewrites.interface (h : g.Indexed) {root : NodeId} {old : ArgId} {args : List ArgId}
    (hproduced : g.producer? old = some root) (hr : g.Rewrites root old args g') :
    g'.Indexed ∧ g'.interface = g.interface := by
  have hin : old ∉ g.inputs := (h.produced_internal old root hproduced).1
  cases hr with
  | bypass survivor _ hrun =>
    unfold Graph.bypass at hrun
    split at hrun
    · cases hrun
    · next hguard =>
      simp only [bind_eq_ok_iff, pure_eq_ok_iff, Prod.mk.injEq, true_and] at hrun
      obtain ⟨g₁, hreplace, ⟨removed, g₂⟩, hremove, rfl⟩ := hrun
      apply interface_of_redirected h hin _ hreplace hremove
      intro _ hout
      -- The survivor of an output is produced inside the graph and not an output itself.
      simp only [Bool.and_eq_true, Bool.or_eq_true, isOutput_iff, Option.isNone_iff_eq_none, hout,
        true_and, not_or] at hguard
      obtain ⟨id, hid⟩ := Option.ne_none_iff_exists'.mp hguard.1
      obtain ⟨hnin, hninit⟩ := h.produced_internal survivor id hid
      exact ⟨hout, hguard.2, hnin, hninit⟩
  | supplant draft _ houtputs hrun =>
    rw [Graph.supplant, bind_eq_ok_iff] at hrun
    obtain ⟨⟨⟨id, outputs⟩, g₂⟩, hbuild, hrun⟩ := hrun
    obtain ⟨rfl, argName, type, name, spec, log, hname, hadmits, -, rfl⟩ :=
      Draft.build_eq_ok houtputs hbuild
    simp only [List.head?_cons, Option.join_some, bind_eq_ok_iff, pure_eq_ok_iff, Prod.mk.injEq,
      true_and] at hrun
    obtain ⟨g₃, hreplace, ⟨removed, g₄⟩, hremove, rfl⟩ := hrun
    have hindexed := ((h.pushArg hname type).pushNode hadmits).setLog log
    obtain ⟨hindexed', hinterface⟩ := interface_of_redirected hindexed hin
      (fun _ hout => by
        obtain ⟨hold, hnout, hnin, hninit⟩ := nextArg_takesName h hout
        exact ⟨hold, hnout, hnin, hninit⟩) hreplace hremove
    exact ⟨hindexed', hinterface.trans (interface_pushArg h argName type)⟩
  | initializer name tensor log new g₂ g₃ removed houtput hdeclare hreplace hremove =>
    obtain ⟨failure, heq⟩ | ⟨hname, heq⟩ := addInitializer_cases name tensor g
    · rw [heq] at hdeclare
      cases hdeclare
    · have hindexed := (evolves_addInitializer h (by rw [settle, heq])).indexed
      rw [heq] at hdeclare
      cases hdeclare
      obtain ⟨hindexed', hinterface⟩ := interface_of_redirected (hindexed.setLog log) hin
        (fun _ hout => absurd hout houtput) hreplace hremove
      exact ⟨hindexed', hinterface.trans (interface_pushArg h name tensor.type)⟩

end Graph

end OpGraph
