import OpGraph.Proofs.Graph.Reachable

/-!
What replacing all uses of an arg does to the whole graph, place by place: the slots that read it,
the positions in the output list that hold it, and the names of the args. Nothing else changes.
-/

namespace OpGraph

theorem getElem?_map_swap {α : Type} [DecidableEq α] (l : List α) (x y : α) (i : Nat) :
    (l.map fun a => if a = x then y else a)[i]?
      =
    if l[i]? = some x then some y else l[i]? := by
  rw [List.getElem?_map]
  cases l[i]? with
  | none => rfl
  | some a =>
    simp only [Option.map_some, Option.some.injEq]
    split <;> rfl

namespace Graph

variable {g g' : Graph} {old new : ArgId}

theorem not_mem_redirect (hne : old ≠ new) (node : Node) :
    some old ∉ (node.redirect old new).inputs := by
  intro hmem
  obtain ⟨slot, -, hslot⟩ := List.mem_map.mp hmem
  rw [redirectSlot] at hslot
  split at hslot
  · exact hne (Option.some.inj hslot).symm
  · next hother => exact hother hslot

theorem Indexed.not_borne (h : g.Indexed) {name : String} (hname : name ∉ g.argNames) {a : ArgId}
    {arg : Arg} (harg : g.arg? a = some arg) : arg.name ≠ name := by
  rintro rfl
  apply hname
  rw [Std.ExtTreeMap.mem_iff_isSome_getElem?, (h.argNames_iff arg.name a).mpr ⟨arg, harg, rfl⟩]
  rfl

/--
What reads an arg reads the other one afterwards; an output hands over its name with its place.
-/
theorem replaceAllUses_exact (h : g.Indexed) (hold : (g.arg? old).isSome)
    (hnew : (g.arg? new).isSome) (hne : old ≠ new) :
    ∃ g', g.replaceAllUses old new = .ok g' ∧ g'.Indexed ∧
      (∀ id node', g'.node? id = some node' → some old ∉ node'.inputs) ∧
      (∀ id, (g'.node? id).isSome = (g.node? id).isSome) ∧
      (∀ id node node', g.node? id = some node → g'.node? id = some node' →
        node' = { node with inputs := node'.inputs } ∧
        ∀ slot : Nat, node'.inputs[slot]? =
          if node.inputs[slot]? = some (some old) then some (some new) else node.inputs[slot]?) ∧
      g'.inputs = g.inputs ∧ g'.initializers = g.initializers ∧
      (∀ i : Nat, g'.outputs[i]? =
        if g.outputs[i]? = some old then some new else g.outputs[i]?) ∧
      (old ∈ g.outputs ∧ new ∉ g.inputs ∧ new ∉ g.initializers ∧ new ∉ g.outputs →
        ∃ oldArg newArg spare, g.arg? old = some oldArg ∧ g.arg? new = some newArg ∧
          g'.arg? new = some { newArg with name := oldArg.name } ∧
          g'.arg? old = some { oldArg with name := spare } ∧
          (∀ a arg, g.arg? a = some arg → arg.name ≠ spare) ∧
          (∀ a, a ≠ old → a ≠ new → g'.arg? a = g.arg? a) ∧
          (g'.outputs.map fun a => (g'.arg? a).map Arg.name) =
            g.outputs.map fun a => (g.arg? a).map Arg.name) ∧
      (¬ (old ∈ g.outputs ∧ new ∉ g.inputs ∧ new ∉ g.initializers ∧ new ∉ g.outputs) →
        ∀ a, g'.arg? a = g.arg? a) := by
  obtain ⟨g', hrun, h', hr⟩ := replaceAllUses_spec h hold hnew hne
  have htakes : TakesName g old new ↔
      old ∈ g.outputs ∧ new ∉ g.inputs ∧ new ∉ g.initializers ∧ new ∉ g.outputs :=
    ⟨fun ht => ⟨ht.old_output, ht.not_input, ht.not_initializer, ht.not_output⟩,
      fun ⟨hout, hin, hinit, hnot⟩ => ⟨hout, hnot, hin, hinit⟩⟩
  rw [← htakes]
  refine ⟨g', hrun, h', ?_, ?_, ?_, hr.inputs, hr.initializers, ?_, ?_, hr.args_kept⟩
  · intro id node' hnode'
    rw [hr.nodes, Option.map_eq_some_iff] at hnode'
    obtain ⟨node, -, rfl⟩ := hnode'
    exact not_mem_redirect hne node
  · intro id
    rw [hr.nodes, Option.isSome_map]
  · intro id node node' hnode hnode'
    rw [hr.nodes, hnode] at hnode'
    cases hnode'
    refine ⟨rfl, ?_⟩
    intro slot
    exact getElem?_map_swap node.inputs (some old) (some new) slot
  · intro i
    rw [hr.outputs, getElem?_map_swap]
  · intro ht
    obtain ⟨spare, oldArg, newArg, holdArg, hnewArg, hspare, hargs⟩ := hr.args_renamed ht
    refine ⟨oldArg, newArg, spare, holdArg, hnewArg, ?_, ?_, ?_, ?_, hr.outputNames ht⟩
    · rw [hargs, if_pos rfl, h.arg_id new newArg hnewArg]
    · rw [hargs, if_neg hne, if_pos rfl, h.arg_id old oldArg holdArg]
    · intro a arg harg
      exact h.not_borne hspare harg
    · intro a hnotOld hnotNew
      rw [hargs, if_neg hnotNew, if_neg hnotOld]

def swapEdits : List Mutation :=
  [.addInput "x" ⟨.float32, none⟩, .newArg "a" ⟨.float32, none⟩, .newArg "b" ⟨.float32, none⟩,
    .newArg "c" ⟨.float32, none⟩, .addNode ⟨"first", .standard "Relu", [some ⟨0⟩], [some ⟨1⟩], ∅⟩,
    .addNode ⟨"second", .standard "Neg", [some ⟨0⟩], [some ⟨2⟩], ∅⟩,
    .addNode ⟨"twice", .standard "Add", [some ⟨1⟩, some ⟨1⟩], [some ⟨3⟩], ∅⟩, .addOutput ⟨1⟩,
    .addOutput ⟨3⟩]

/-- `b` takes the place of the output `a` under its name; both slots of `twice` read it. -/
theorem replaceAllUses_exact_output :
    ∃ g g' : Graph, (empty "swap").runAll swapEdits = .ok g ∧
      g.replaceAllUses ⟨1⟩ ⟨2⟩ = .ok g' ∧
      (∀ id node', g'.node? id = some node' → some ⟨1⟩ ∉ node'.inputs) ∧
      (g'.arg? ⟨2⟩).map Arg.name = some "a" ∧
      (g'.outputs.map fun a => (g'.arg? a).map Arg.name) = [some "a", some "c"] := by
  have hrun : (do
      let g ← (empty "swap").runAll swapEdits
      return ((g.arg? ⟨1⟩).map Arg.name, (g.arg? ⟨2⟩).isSome, g.inputs, g.outputs,
        g.isInitializer ⟨2⟩, g.outputs.map fun a => (g.arg? a).map Arg.name)) =
      .ok (some "a", true, [⟨0⟩], [⟨1⟩, ⟨3⟩], false, [some "a", some "c"]) := rfl
  simp only [bind_eq_ok_iff, pure_eq_ok_iff, Prod.mk.injEq] at hrun
  obtain ⟨g, hg, hname, hlive, hinputs, houtputs, hinit, hnames⟩ := hrun
  have hold : (g.arg? ⟨1⟩).isSome := by
    rw [← Option.isSome_map (f := Arg.name), hname]
    rfl
  have hindexed := (Reachable.runAll (.empty "swap") hg).indexed
  obtain ⟨g', hreplace, -, hslots, -, -, -, -, -, htakes, -⟩ :=
    replaceAllUses_exact hindexed hold hlive (by decide)
  have hinternal : (⟨2⟩ : ArgId) ∉ g.initializers := by
    rw [← isInitializer_iff, hinit]
    exact Bool.false_ne_true
  obtain ⟨oldArg, newArg, spare, holdArg, -, hnewArg', -, -, -, hkept⟩ :=
    htakes ⟨by simp [houtputs], by simp [hinputs], hinternal, by simp [houtputs]⟩
  refine ⟨g, g', hg, hreplace, hslots, ?_, hkept.trans hnames⟩
  rw [hnewArg', Option.map_some, ← hname, holdArg]
  rfl

end Graph

end OpGraph
