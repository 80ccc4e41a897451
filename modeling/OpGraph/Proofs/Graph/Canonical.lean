import OpGraph.Graph.Canonical
import OpGraph.Proofs.Graph.Mutations

/-!
The lines of a canonical text: they are sorted, and the line of a node shows neither its handle nor
anything of the graph but the args.
-/

namespace OpGraph

def Node.spec (node : Node) : NodeSpec :=
  ⟨node.name, node.key, node.inputs, node.outputs, node.attrs⟩

namespace Graph

variable {g g' : Graph}

theorem sortLines_perm {lines lines' : List String} (h : lines.Perm lines') :
    sortLines lines = sortLines lines' := by
  have hsorted : ∀ lines, (sortLines lines).Pairwise fun a b => (compare a b).isLE = true := by
    intro lines
    apply List.pairwise_mergeSort
    · exact fun a b c => Std.TransCmp.isLE_trans
    · intro a b
      have hswap : compare b a = (compare a b).swap := Std.OrientedCmp.eq_swap
      rw [hswap]
      cases compare a b <;> rfl
  apply List.Perm.eq_of_pairwise _ (hsorted lines) (hsorted lines')
  · exact (List.mergeSort_perm _ _).trans (h.trans (List.mergeSort_perm _ _).symm)
  · intro a b _ _ hab hba
    exact Std.LawfulEqCmp.compare_eq_iff_eq.mp (Std.OrientedCmp.isLE_antisymm hab hba)

theorem liveNodes_eq_filterMap (g : Graph) :
    g.liveNodes = (List.range g.nodes.size).filterMap fun i => g.node? ⟨i⟩ := by
  have hnodes : g.nodes.toList = (List.range g.nodes.size).map fun i => g.node? ⟨i⟩ := by
    apply List.ext_getElem
    · simp
    · intro i hi _
      simp only [Array.length_toList] at hi
      simp [node?, hi]
  rw [liveNodes, hnodes, present, List.filterMap_map]
  rfl

def specLine (g : Graph) (spec : NodeSpec) : Except Fault String :=
  g.nodeLine ⟨⟨0⟩, spec.name, spec.key, spec.inputs, spec.outputs, spec.attrs⟩

theorem nodeLines_eq (g : Graph) :
    g.nodeLines = sortLines <$> (g.liveNodes.map Node.spec).mapM g.specLine := by
  rw [List.mapM_map]
  rfl

section SameArgs

variable (hsame : SameArgs g g')

include hsame

theorem SameArgs.slotText : g'.slotText = g.slotText := by
  funext slot
  cases slot with
  | none => rfl
  | some a => simp only [Graph.slotText, Graph.arg, Graph.arg?, hsame.args]

theorem SameArgs.specLine : g'.specLine = g.specLine := by
  funext spec
  simp only [Graph.specLine, nodeLine, hsame.slotText]

end SameArgs

end Graph

end OpGraph
