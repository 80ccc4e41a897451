import OpGraph.Pass.Neutral
import OpGraph.Proofs.Pass.Site

/-!
Bypassing an `Identity` keeps the meaning of a graph.
-/

namespace OpGraph

namespace RulePass

variable {V : Type} {I : Interpretation V}

theorem identityPattern_eq : identityPattern =
    .ok ⟨#[.wildcard, .node (.standard "Identity") [⟨0⟩] [false] []],
      #[some "x", some "identity"], ⟨1⟩⟩ :=
  rfl

theorem bypassIdentity_sound (hI : I.Lawful) :
    RuleSpec.Sound I ⟨"bypass_identity", identityPattern, Action.bypassIdentity⟩ := by
  intro pattern hpattern g id m pass counter g' hready hmatch hrun
  obtain rfl := Except.ok.inj (identityPattern_eq.symm.trans hpattern)
  obtain ⟨-, out, -, -, hm⟩ := Pattern.matchNode_sound (by decide) hmatch
  obtain ⟨x, root, node, hx, hroot, hemits⟩ := hm.emits_unary hm.root (by decide) rfl
  simp only [Action.bypassIdentity, hm.namedArg?_eq "x" rfl, hm.namedNode?_eq "identity" rfl, hx,
    hroot, hemits.node_eq, ok_bind, hready.output?_zero hemits (by decide)] at hrun
  refine Graph.preserves_of_bypass hready hemits (by decide)
    (.single (hemits.needs List.mem_cons_self)) ?_ (rewrite_of_counted hrun)
  intro ρ ν hν
  obtain ⟨v, hv, hout⟩ := hready.value_unary hν hemits (by decide)
  rw [hv, hout, hI.identity]

end RulePass

end OpGraph
