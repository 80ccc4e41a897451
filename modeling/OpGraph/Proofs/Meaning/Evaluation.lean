import OpGraph.Proofs.Graph.Validation

/-!
The meaning of a graph. An interpretation gives a function for every operator with its attributes
and a value for every constant; under an assignment of values to the graph inputs an arg evaluates
to at most one value. A valuation that satisfies the equations of all nodes agrees with evaluation.
-/

namespace OpGraph

/-- Functions for the operators. An operand that is left out has no value. -/
structure Interpretation (V : Type) where
  op : OpKey → Attrs → (Nat → Option V) → Nat → V
  const : Tensor → V

def Interpretation.apply {V : Type} (I : Interpretation V) (key : OpKey) (attrs : Attrs)
    (operands : List V) : V :=
  I.op key attrs (fun slot => operands[slot]?) 0

namespace Graph

variable {V : Type} (I : Interpretation V) (ρ : ArgId → V) (g : Graph)

/-- The arg has the value when the graph inputs have the values that `ρ` gives. -/
inductive Evaluates : ArgId → V → Prop where
  | initializer {a : ArgId} {tensor : Tensor} (h : g.initializers[a]? = some tensor) :
    Evaluates a (I.const tensor)
  | input {a : ArgId} (h : a ∈ g.inputs) (hinit : a ∉ g.initializers) : Evaluates a (ρ a)
  | output {id : NodeId} {node : Node} {slot : Nat} {a : ArgId} (operands : Nat → Option V)
    (hnode : g.node? id = some node) (hslot : node.output? slot = some a)
    (hpresent : ∀ i, (operands i).isSome = (node.input? i).isSome)
    (hoperands : ∀ i b v, node.input? i = some b → operands i = some v → Evaluates b v) :
    Evaluates a (I.op node.key node.attrs operands slot)

structure Solution (ν : ArgId → Option V) : Prop where
  initializer : ∀ (a : ArgId) tensor, g.initializers[a]? = some tensor → ν a = some (I.const tensor)
  input : ∀ a ∈ g.inputs, a ∉ g.initializers → ν a = some (ρ a)
  output : ∀ id node slot a, g.node? id = some node → node.output? slot = some a →
    ν a = some (I.op node.key node.attrs (fun i => (node.input? i).bind ν) slot)
  unsourced : ∀ a, g.hasSource a = false → ν a = none

variable {I ρ g}

theorem getElem?_ne_of_nodup_present {α : Type} {slots : List (Option α)}
    (h : (present slots).Nodup) {i j : Nat} {a : α} (hi : slots[i]? = some (some a))
    (hij : i < j) : slots[j]? ≠ some (some a) := by
  rw [present, List.Nodup, List.pairwise_filterMap, List.pairwise_iff_getElem] at h
  intro hj
  obtain ⟨hi', hia⟩ := List.getElem?_eq_some_iff.mp hi
  obtain ⟨hj', hja⟩ := List.getElem?_eq_some_iff.mp hj
  exact h i j hi' hj' hij a hia a hja rfl

theorem output?_injective {node : Node} (h : node.presentOutputs.Nodup) {slot slot' : Nat}
    {a : ArgId} (hslot : node.output? slot = some a) (hslot' : node.output? slot' = some a) :
    slot = slot' := by
  rw [Node.output?_eq_some_iff] at hslot hslot'
  rcases Nat.lt_trichotomy slot slot' with hlt | heq | hlt
  · exact absurd hslot' (getElem?_ne_of_nodup_present h hslot hlt)
  · exact heq
  · exact absurd hslot (getElem?_ne_of_nodup_present h hslot' hlt)

theorem hasSource_of_evaluates (h : g.Indexed) {a : ArgId} {v : V} (hv : g.Evaluates I ρ a v) :
    g.hasSource a = true := by
  rw [hasSource_iff]
  cases hv with
  | initializer hinit =>
    right; right
    rw [Std.ExtTreeMap.mem_iff_isSome_getElem?, hinit]
    rfl
  | input hin _ => exact .inr (.inl hin)
  | @output id node slot a operands hnode hslot _ _ =>
    left
    exact ⟨id, h.producer?_eq_some_iff.mpr
      ⟨node, hnode, Node.mem_presentOutputs_iff.mpr ⟨slot, hslot⟩⟩⟩

theorem not_evaluates {a : ArgId} (hinit : a ∉ g.initializers) (hinput : a ∉ g.inputs)
    (hnodes : ∀ node ∈ g.liveNodes, a ∈ node.presentOutputs →
      ∃ b ∈ node.presentInputs, ∀ v, ¬ g.Evaluates I ρ b v) (v : V) : ¬ g.Evaluates I ρ a v := by
  intro hv
  cases hv with
  | initializer htensor =>
    rw [Std.ExtTreeMap.mem_iff_isSome_getElem?, htensor] at hinit
    exact hinit rfl
  | input hin _ => exact hinput hin
  | @output id node slot a operands hnode hslot hpresent hoperands =>
    obtain ⟨b, hb, hnone⟩ := hnodes node (mem_liveNodes_iff.mpr ⟨id, hnode⟩)
      (Node.mem_presentOutputs_iff.mpr ⟨slot, hslot⟩)
    obtain ⟨i, hi⟩ := Node.mem_presentInputs_iff.mp hb
    obtain ⟨u, hu⟩ : ∃ u, operands i = some u := by
      rw [← Option.isSome_iff_exists, hpresent, hi]
      rfl
    exact hnone u (hoperands i b u hi hu)

theorem Evaluates.unique (h : g.Consistent) {a : ArgId} {v v' : V} (hv : g.Evaluates I ρ a v)
    (hv' : g.Evaluates I ρ a v') : v = v' := by
  have hproduced : ∀ {id node slot} {a : ArgId}, g.node? id = some node →
      node.output? slot = some a → a ∉ g.inputs ∧ a ∉ g.initializers := by
    intro id node slot a hnode hslot
    have hmem : a ∈ node.presentOutputs := Node.mem_presentOutputs_iff.mpr ⟨slot, hslot⟩
    exact h.produced_internal a id ((h.producers_iff a id).mpr ⟨node, hnode, hmem⟩)
  have hmem : ∀ {a : ArgId} {tensor : Tensor}, g.initializers[a]? = some tensor →
      a ∈ g.initializers := by
    intro a tensor ha
    rw [Std.ExtTreeMap.mem_iff_isSome_getElem?, ha]
    rfl
  induction hv generalizing v' with
  | initializer hinit =>
    cases hv' with
    | initializer hinit' =>
      cases hinit.symm.trans hinit'
      rfl
    | input _ hno => exact absurd (hmem hinit) hno
    | output _ hnode hslot _ _ => exact absurd (hmem hinit) (hproduced hnode hslot).2
  | input hin hno =>
    cases hv' with
    | initializer hinit' => exact absurd (hmem hinit') hno
    | input _ _ => rfl
    | output _ hnode hslot _ _ => exact absurd hin (hproduced hnode hslot).1
  | @output id node slot a operands hnode hslot hpresent _ ih =>
    cases hv' with
    | initializer hinit' => exact absurd (hmem hinit') (hproduced hnode hslot).2
    | input hin' _ => exact absurd hin' (hproduced hnode hslot).1
    | @output id' node' slot' _ operands' hnode' hslot' hpresent' hoperands' =>
      -- Both derivations end at the one slot that produces the arg; only the operands can differ.
      cases h.producer_unique hnode (Node.mem_presentOutputs_iff.mpr ⟨slot, hslot⟩) hnode'
        (Node.mem_presentOutputs_iff.mpr ⟨slot', hslot'⟩)
      cases hnode.symm.trans hnode'
      cases output?_injective (h.outputs_nodup id node hnode) hslot hslot'
      have hsame : operands = operands' := by
        funext i
        have hi := hpresent i
        have hi' := hpresent' i
        cases hb : node.input? i with
        | none =>
          rw [hb, Option.isSome_none, Option.isSome_eq_false_iff,
            Option.isNone_iff_eq_none] at hi hi'
          rw [hi, hi']
        | some b =>
          rw [hb] at hi hi'
          obtain ⟨x, hx⟩ := Option.isSome_iff_exists.mp hi
          obtain ⟨x', hx'⟩ := Option.isSome_iff_exists.mp hi'
          rw [hx, hx', ih i b x hb hx (hoperands' i b x' hb hx')]
      rw [hsame]

open Classical in
noncomputable def valueOf (I : Interpretation V) (ρ : ArgId → V) (g : Graph) (a : ArgId) :
    Option V :=
  if h : ∃ v, g.Evaluates I ρ a v then some h.choose else none

theorem valueOf_eq_some_iff (h : g.Consistent) {a : ArgId} {v : V} :
    g.valueOf I ρ a = some v ↔ g.Evaluates I ρ a v := by
  rw [valueOf]
  split
  · next hv =>
    rw [Option.some.injEq]
    constructor
    · rintro rfl
      exact hv.choose_spec
    · intro hv'
      exact hv.choose_spec.unique h hv'
  · next hv => exact ⟨nofun, fun hv' => absurd ⟨v, hv'⟩ hv⟩

theorem evaluates_of_not_produced {a : ArgId} (ha : a ∈ g.inputs ∨ a ∈ g.initializers) :
    ∃ v, g.Evaluates I ρ a v := by
  by_cases hinit : a ∈ g.initializers
  · obtain ⟨tensor, htensor⟩ := Option.isSome_iff_exists.mp
      (Std.ExtTreeMap.mem_iff_isSome_getElem?.mp hinit)
    exact ⟨_, .initializer htensor⟩
  · exact ⟨_, .input (ha.resolve_right hinit) hinit⟩

namespace Consistent

variable (h : g.Consistent) (hsourced : g.Sourced) (hacyclic : g.Acyclic)

include h hsourced hacyclic

theorem evaluates_output (id : NodeId) : ∀ node slot a, g.node? id = some node →
    node.output? slot = some a →
    g.Evaluates I ρ a
      (I.op node.key node.attrs (fun i => (node.input? i).bind (g.valueOf I ρ)) slot) := by
  -- Along the edges: the nodes that feed this one have given their outputs values already.
  induction id using (h.wellFounded_feeds hacyclic).induction with
  | h id ih =>
    intro node slot a hnode hslot
    have hinput : ∀ i b, node.input? i = some b → ∃ v, g.Evaluates I ρ b v := by
      intro i b hb
      have hmem : b ∈ node.presentInputs := Node.mem_presentInputs_iff.mpr ⟨i, hb⟩
      rcases hasSource_iff.mp (hsourced id node b hnode hmem) with ⟨source, hsource⟩ | hrest
      · obtain ⟨node', hnode', hmem'⟩ := h.producer?_eq_some_iff.mp hsource
        obtain ⟨slot', hslot'⟩ := Node.mem_presentOutputs_iff.mp hmem'
        exact ⟨_, ih source ⟨node, b, hnode, hmem, hsource⟩ node' slot' b hnode' hslot'⟩
      · exact evaluates_of_not_produced hrest
    apply Evaluates.output _ hnode hslot
    · intro i
      cases hb : node.input? i with
      | none => rfl
      | some b =>
        obtain ⟨v, hv⟩ := hinput i b hb
        rw [Option.bind_some, (valueOf_eq_some_iff h).mpr hv]
        rfl
    · intro i b v hb hv
      rw [hb, Option.bind_some] at hv
      exact (valueOf_eq_some_iff h).mp hv

theorem exists_evaluates {a : ArgId} (ha : g.hasSource a = true) : ∃ v, g.Evaluates I ρ a v := by
  rcases hasSource_iff.mp ha with ⟨source, hproducer⟩ | hrest
  · obtain ⟨node, hnode, hmem⟩ := h.producer?_eq_some_iff.mp hproducer
    obtain ⟨slot, hslot⟩ := Node.mem_presentOutputs_iff.mp hmem
    exact ⟨_, h.evaluates_output hsourced hacyclic source node slot a hnode hslot⟩
  · exact evaluates_of_not_produced hrest

theorem solution_valueOf : g.Solution I ρ (g.valueOf I ρ) where
  initializer a tensor ha := (valueOf_eq_some_iff h).mpr (.initializer ha)
  input a ha hinit := (valueOf_eq_some_iff h).mpr (.input ha hinit)
  output id node slot a hnode hslot :=
    (valueOf_eq_some_iff h).mpr (h.evaluates_output hsourced hacyclic id node slot a hnode hslot)
  unsourced a ha := by
    rw [Option.eq_none_iff_forall_ne_some]
    intro v hv
    have := hasSource_of_evaluates h.toIndexed ((valueOf_eq_some_iff h).mp hv)
    rw [ha] at this
    cases this

theorem evaluates_iff_solution {ν : ArgId → Option V} (hν : g.Solution I ρ ν) {a : ArgId} {v : V} :
    g.Evaluates I ρ a v ↔ ν a = some v := by
  have hsound : ∀ {a v}, g.Evaluates I ρ a v → ν a = some v := by
    intro a v hv
    induction hv with
    | initializer ha => exact hν.initializer _ _ ha
    | input ha hinit => exact hν.input _ ha hinit
    | @output id node slot a operands hnode hslot hpresent _ ih =>
      have hsame : operands = fun i => (node.input? i).bind ν := by
        funext i
        have hi := hpresent i
        cases hb : node.input? i with
        | none =>
          rw [hb, Option.isSome_none, Option.isSome_eq_false_iff, Option.isNone_iff_eq_none] at hi
          exact hi
        | some b =>
          rw [hb] at hi
          obtain ⟨x, hx⟩ := Option.isSome_iff_exists.mp hi
          rw [Option.bind_some, ih i b x hb hx, hx]
      rw [hν.output id node slot a hnode hslot, hsame]
  refine ⟨hsound, ?_⟩
  intro hv
  have hsource : g.hasSource a = true := by
    by_contra hno
    rw [Bool.not_eq_true] at hno
    rw [hν.unsourced a hno] at hv
    cases hv
  obtain ⟨v', hv'⟩ : ∃ v, g.Evaluates I ρ a v := h.exists_evaluates hsourced hacyclic hsource
  cases hv.symm.trans (hsound hv')
  exact hv'

end Consistent

end Graph

end OpGraph
