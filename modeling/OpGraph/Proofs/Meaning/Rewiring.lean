import OpGraph.Proofs.Graph.Rewired
import OpGraph.Proofs.Meaning.Evaluation

/-!
A rewiring keeps the meaning of a graph if the arg that takes over has the value of the one it
replaces: a valuation of the old graph that moves with the readers is one of the new graph.
-/

namespace OpGraph

namespace Graph

variable {V : Type} {I : Interpretation V} {ρ : ArgId → V} {g g' : Graph}

def Supply.value (I : Interpretation V) (ν : ArgId → Option V) (new : ArgId) : Supply → Option V
  | survivor => ν new
  | node n => some (I.op n.key n.attrs (fun i => (n.input? i).bind ν) 0)
  | initializer tensor => some (I.const tensor)

def moveValue (ν : ArgId → Option V) (old new a : ArgId) : Option V :=
  if a = old then none else if a = new then ν old else ν a

namespace Rewired

variable {root : NodeId} {old new : ArgId} {supply : Supply} {ν : ArgId → Option V}
  (h : g.Indexed) (hr : Rewired g root old new supply g') (hfits : supply.Fits g old new)
  (hvalue : supply.value I ν new = ν old)

include hr hfits hvalue

theorem moveValue_redirected {a : ArgId} (ha : (g.arg? a).isSome) :
    moveValue ν old new (if a = old then new else a) = ν a := by
  by_cases hold : a = old
  · rw [if_pos hold, moveValue, if_neg (Ne.symm hr.distinct), if_pos rfl, hold]
  · rw [if_neg hold, moveValue, if_neg hold]
    split
    · next hnew =>
      -- A new arg has no value in the old graph; one that was there has the value already.
      subst hnew
      cases supply with
      | survivor => exact hvalue.symm
      | node n =>
        rw [hfits.1] at ha
        cases ha
      | initializer tensor =>
        rw [show g.arg? a = none from hfits] at ha
        cases ha
    · rfl

theorem moveValue_of_ne {a : ArgId} (hne : a ≠ old) (ha : (g.arg? a).isSome) :
    moveValue ν old new a = ν a := by
  have hmoved := moveValue_redirected hr hfits hvalue ha
  rwa [if_neg hne] at hmoved

theorem operands_redirect {node : Node} (hlive : ∀ a ∈ node.presentInputs, (g.arg? a).isSome) :
    (fun i => ((node.redirect old new).input? i).bind (moveValue ν old new)) =
      fun i => (node.input? i).bind ν := by
  funext i
  rw [Node.input?_redirect]
  cases hi : node.input? i with
  | none => rfl
  | some a =>
    exact moveValue_redirected hr hfits hvalue (hlive a (Node.mem_presentInputs_iff.mpr ⟨i, hi⟩))

include h

theorem outputs_moveValue : g'.outputs.map (moveValue ν old new) = g.outputs.map ν := by
  rw [hr.outputs, List.map_map]
  apply List.map_congr_left
  intro a ha
  exact moveValue_redirected hr hfits hvalue (h.outputs_live a ha)

theorem solution_initializer (hν : g.Solution I ρ ν) (a : ArgId) (tensor : Tensor)
    (ha : g'.initializers[a]? = some tensor) :
    moveValue ν old new a = some (I.const tensor) := by
  have hkept : g.initializers[a]? = some tensor →
      moveValue ν old new a = some (I.const tensor) := by
    intro ha
    have hmem : a ∈ g.initializers := by
      rw [Std.ExtTreeMap.mem_iff_isSome_getElem?, ha]
      rfl
    have hne : a ≠ old := by
      rintro rfl
      exact (h.produced_internal a root hr.produced).2 hmem
    rw [moveValue_of_ne hr hfits hvalue hne (h.initializers_live a hmem)]
    exact hν.initializer a tensor ha
  rw [hr.initializers] at ha
  cases supply with
  | survivor => exact hkept ha
  | node n => exact hkept ha
  | initializer t =>
    rw [Supply.addTo, Std.ExtTreeMap.getElem?_insert] at ha
    split at ha
    · next heq =>
      obtain rfl := Std.compare_eq_iff_eq.mp heq
      cases ha
      rw [moveValue, if_neg (Ne.symm hr.distinct), if_pos rfl]
      exact hvalue.symm
    · exact hkept ha

theorem solution_output (hν : g.Solution I ρ ν) (id : NodeId) (node' : Node) (slot : Nat)
    (a : ArgId) (hnode' : g'.node? id = some node') (hslot : node'.output? slot = some a) :
    moveValue ν old new a =
      some (I.op node'.key node'.attrs (fun i => (node'.input? i).bind (moveValue ν old new))
        slot) := by
  obtain ⟨hid, ⟨node, hnode, rfl⟩ | ⟨node, rfl, -, rfl⟩⟩ := hr.node?_cases hnode'
  · have hslot : node.output? slot = some a := hslot
    have hmem : a ∈ node.presentOutputs := Node.mem_presentOutputs_iff.mpr ⟨slot, hslot⟩
    have hne : a ≠ old := by
      rintro rfl
      have hproducer := h.producer?_eq_some_iff.mpr ⟨node, hnode, hmem⟩
      exact hid (Option.some.inj (hproducer.symm.trans hr.produced))
    rw [moveValue_of_ne hr hfits hvalue hne (h.produces_live id node a hnode hmem),
      operands_redirect hr hfits hvalue (fun b hb => h.reads_live id node b hnode hb)]
    exact hν.output id node slot a hnode hslot
  · have hslot : node.output? slot = some a := hslot
    rw [Node.output?_eq_some_iff, hfits.2.2.1] at hslot
    obtain ⟨rfl, rfl⟩ : slot = 0 ∧ a = new := by
      cases slot with
      | zero => exact ⟨rfl, (Option.some.inj (Option.some.inj hslot)).symm⟩
      | succ slot => cases hslot
    rw [operands_redirect hr hfits hvalue (fun b hb => hasSource_live h (hfits.2.2.2 b hb).2),
      moveValue, if_neg (Ne.symm hr.distinct), if_pos rfl]
    exact hvalue.symm

theorem solution_moveValue (hsingle : ∀ a, g.producer? a = some root → a = old)
    (hν : g.Solution I ρ ν) : g'.Solution I ρ (moveValue ν old new) where
  initializer := hr.solution_initializer h hfits hvalue hν
  input a ha hinit := by
    rw [hr.inputs] at ha
    have hne : a ≠ old := by
      rintro rfl
      exact (h.produced_internal a root hr.produced).1 ha
    rw [moveValue_of_ne hr hfits hvalue hne (h.inputs_live a ha)]
    exact hν.input a ha (fun hmem => hinit (hr.mem_initializers hmem))
  output := hr.solution_output h hfits hvalue hν
  unsourced a ha := by
    rw [moveValue]
    split
    · rfl
    · next hold =>
      split
      · next hnew =>
        rw [hnew, hr.hasSource_new h hsingle hfits] at ha
        cases ha
      · apply hν.unsourced
        cases hsource : g.hasSource a with
        | false => rfl
        | true =>
          rw [hr.hasSource_of_ne h hsingle hold hsource] at ha
          cases ha

end Rewired

def SingleOutput (keys : List OpKey) (g : Graph) : Prop :=
  ∀ id node, g.node? id = some node → node.key ∈ keys → ∀ slot, slot ≠ 0 → node.output? slot = none

theorem singleOutput_of_all (keys : List OpKey)
    (hall : (g.liveNodes.all fun node => node.outputs.length ≤ 1) = true) :
    g.SingleOutput keys := by
  intro id node hnode _ slot hslot
  have hlength := List.all_eq_true.mp hall node (mem_liveNodes_iff.mpr ⟨id, hnode⟩)
  rw [decide_eq_true_eq] at hlength
  rw [Node.output?, List.getElem?_eq_none (by omega)]
  rfl

theorem singleOutput_of_absent {keys : List OpKey}
    (hall : (g.liveNodes.all fun node => node.key ∉ keys) = true) : g.SingleOutput keys := by
  intro id node hnode hkey
  have habsent := List.all_eq_true.mp hall node (mem_liveNodes_iff.mpr ⟨id, hnode⟩)
  exact absurd hkey (of_decide_eq_true habsent)

theorem Rewired.singleOutput {root : NodeId} {old new : ArgId} {supply : Supply}
    (hr : Rewired g root old new supply g') (hfits : supply.Fits g old new) {keys : List OpKey}
    (hsingle : g.SingleOutput keys) : g'.SingleOutput keys := by
  intro id node' hnode' hkey slot hslot
  obtain ⟨-, ⟨node, hnode, rfl⟩ | ⟨node, rfl, -, rfl⟩⟩ := hr.node?_cases hnode'
  · exact hsingle id node hnode hkey slot hslot
  · obtain ⟨-, -, houtputs, -⟩ := hfits
    rw [Node.output?, Node.redirect, houtputs, List.getElem?_eq_none]
    · rfl
    · rw [List.length_singleton]
      omega

inductive Preserves (I : Interpretation V) (g g' : Graph) : Prop where
  | intro {root : NodeId} {old new : ArgId} {supply : Supply}
    (rewired : Rewired g root old new supply g') (fits : supply.Fits g old new)
    (single : ∀ a, g.producer? a = some root → a = old)
    (value : ∀ ρ ν, g.Solution I ρ ν → supply.value I ν new = ν old)

/-- The graph is valid but for cycles and has these inputs and these values at its outputs. -/
structure Means (I : Interpretation V) (ρ : ArgId → V) (keys : List OpKey) (inputs : List ArgId)
    (values : List (Option V)) (g : Graph) : Prop where
  consistent : g.Consistent
  sourced : g.Sourced
  single : g.SingleOutput keys
  inputs : g.inputs = inputs
  solution : ∃ ν, g.Solution I ρ ν ∧ g.outputs.map ν = values

theorem Preserves.means {keys : List OpKey} {inputs : List ArgId} {values : List (Option V)}
    (hp : Preserves I g g') (h : Means I ρ keys inputs values g) :
    Means I ρ keys inputs values g' := by
  obtain ⟨hr, hfits, hsingle, hvalue⟩ := hp
  obtain ⟨ν, hν, hvalues⟩ := h.solution
  have hindexed := h.consistent.toIndexed
  refine ⟨hr.consistent hfits.fresh h.consistent, hr.sourced hindexed hsingle hfits h.sourced,
    hr.singleOutput hfits h.single, hr.inputs.trans h.inputs, _,
    hr.solution_moveValue hindexed hfits (hvalue ρ ν hν) hsingle hν, ?_⟩
  rw [hr.outputs_moveValue hindexed hfits (hvalue ρ ν hν), hvalues]

end Graph

end OpGraph
