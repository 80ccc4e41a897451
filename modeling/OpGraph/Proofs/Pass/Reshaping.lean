import OpGraph.Proofs.AxisOrder
import OpGraph.Proofs.Pass.Site

/-!
Merging transposes and reshapes keeps the meaning of a graph.
-/

namespace OpGraph

namespace RulePass

variable {V : Type} {I : Interpretation V} {g : Graph}

theorem mergeTransposes_sound (hI : I.Lawful) :
    RuleSpec.Sound I ⟨"merge_transpose", transposePattern, Action.mergeTransposes⟩ := by
  intro pattern hpattern g id m pass counter g' hready hmatch hrun
  obtain rfl : Pattern.stacked (.standard "Transpose") (.standard "Transpose") = pattern :=
    Except.ok.inj hpattern
  obtain ⟨s⟩ := exists_stacked hmatch
  simp only [Action.mergeTransposes, s.named_x, s.named_inner, s.named_outer, s.emits_mid.node_eq,
    s.emits_out.node_eq, ok_bind, hready.output?_zero s.emits_out (by decide)] at hrun
  split at hrun
  · next first hfirst =>
    split at hrun
    · next second hsecond =>
      split at hrun
      · next order horder =>
        -- Both ways the value is that of one transpose by the composed order.
        have hvalue : ∀ ρ ν, g.Solution I ρ ν → ∃ v, ν s.x = some v ∧
            ν s.out =
              some (I.apply (.standard "Transpose") (.only permAttr (.ints order)) [v]) := by
          intro ρ ν hν
          obtain ⟨v, hv, -, hout⟩ := s.value hready (by decide) (by decide) hν
          rw [hI.transpose_transpose _ _ _ _ _ _ (Node.attrInts?_eq_some_iff.mp hfirst)
            (Node.attrInts?_eq_some_iff.mp hsecond) horder] at hout
          exact ⟨v, hv, hout⟩
        split at hrun
        · next hidentity =>
          refine Graph.preserves_of_bypass hready s.emits_out (by decide) s.needs_x ?_
            (rewrite_of_counted hrun)
          intro ρ ν hν
          obtain ⟨v, hv, hout⟩ := hvalue ρ ν hν
          rw [AxisOrder.eq_range_of_isIdentity hidentity, hI.transpose_identity] at hout
          rw [hv, hout]
        · refine Graph.preserves_of_supplant hready s.emits_out (by decide) [s.x] rfl rfl ?_ ?_
            (rewrite_of_counted hrun)
          · intro a ha
            rw [List.mem_singleton.mp ha]
            exact s.needs_x
          · intro ρ ν hν
            obtain ⟨v, hv, hout⟩ := hvalue ρ ν hν
            exact ⟨[v], by simp [hv], hout⟩
      · cases hrun
    · cases hrun
  · cases hrun

/-! ### Reshapes -/

theorem reshapePattern_eq : reshapePattern =
    .ok ⟨#[.wildcard, .constant, .node (.standard "Reshape") [⟨0⟩, ⟨1⟩] [false, false] [],
        .constant, .node (.standard "Reshape") [⟨2⟩, ⟨3⟩] [false, false] []],
      #[some "x", none, some "inner", some "shape", some "outer"], ⟨4⟩⟩ :=
  rfl

theorem copiesInputDims_eq_false {shape : ArgId} {allowZero : Option Int64}
    (hrun : copiesInputDims g shape allowZero = .ok false) :
    ∃ dims values, g.constantValue? shape = .ok (some ⟨dims, .int64 values⟩) ∧
      (0 ∉ values ∨ allowZero = some 1) := by
  rw [copiesInputDims, bind_eq_ok_iff] at hrun
  obtain ⟨value, hvalue, hrun⟩ := hrun
  cases value with
  | none => cases hrun
  | some tensor =>
    obtain ⟨dims, data⟩ := tensor
    cases data with
    | int64 values =>
      refine ⟨dims, values, hvalue, ?_⟩
      have hzero : (decide (allowZero ≠ some 1) && values.contains 0) = false := Except.ok.inj hrun
      rw [Bool.and_eq_false_iff] at hzero
      rcases hzero with hallow | hcontains
      · exact .inr (Decidable.not_not.mp (of_decide_eq_false hallow))
      · exact .inl fun hmem => by simp [hmem] at hcontains
    | float32 values => cases hrun
    | int8 values => cases hrun
    | uint8 values => cases hrun
    | int32 values => cases hrun

theorem mergeReshapes_sound (hI : I.Lawful) :
    RuleSpec.Sound I ⟨"merge_reshape", reshapePattern, Action.mergeReshapes⟩ := by
  intro pattern hpattern g id m pass counter g' hready hmatch hrun
  obtain rfl := Except.ok.inj (reshapePattern_eq.symm.trans hpattern)
  obtain ⟨-, out, -, -, hm⟩ := Pattern.matchNode_sound (by decide) hmatch
  obtain ⟨mid, hmid⟩ := hm.exists_arg rfl hm.root 0 rfl (by decide)
  obtain ⟨shape, hshape⟩ := hm.exists_arg rfl hm.root 1 rfl (by decide)
  obtain ⟨x, hx⟩ := hm.exists_arg rfl hmid 0 rfl (by decide)
  obtain ⟨target, htarget⟩ := hm.exists_arg rfl hmid 1 rfl (by decide)
  obtain ⟨_, inner, -, hinner⟩ := hm.emits rfl hmid (by decide) [x, target] (by simp [hx, htarget])
  obtain ⟨root, outer, hroot, houter⟩ := hm.emits rfl hm.root (by decide) [mid, shape]
    (by simp [hmid, hshape])
  simp only [Action.mergeReshapes, hm.namedArg?_eq "x" rfl, hm.namedArg?_eq "shape" rfl,
    hm.namedNode?_eq "outer" rfl, hx, hshape, hroot, houter.node_eq, ok_bind,
    hready.output?_zero houter (by decide), Draft.cloneAttrs] at hrun
  rw [bind_eq_ok_iff] at hrun
  obtain ⟨copies, hcopies, hrun⟩ := hrun
  cases copies with
  | true => cases hrun
  | false =>
    obtain ⟨dims, values, hvalue, hvalues⟩ := copiesInputDims_eq_false hcopies
    simp only [Bool.false_eq_true, if_false, bind_eq_ok_iff] at hrun
    obtain ⟨arg, -, hrun⟩ := hrun
    split at hrun
    · have hmidNeeds : g.Needs out mid := houter.needs List.mem_cons_self
      have hshapeNeeds : g.Needs out shape :=
        houter.needs (List.mem_cons_of_mem _ List.mem_cons_self)
      have hxNeeds : g.Needs mid x := hinner.needs List.mem_cons_self
      have htargetNeeds : g.Needs mid target :=
        hinner.needs (List.mem_cons_of_mem _ List.mem_cons_self)
      refine Graph.preserves_of_supplant hready houter (by decide) [x, shape] rfl rfl ?_ ?_
        (rewrite_of_counted hrun)
      · intro a ha
        rcases List.mem_cons.mp ha with rfl | ha
        · exact .tail (.single hmidNeeds) hxNeeds
        · rw [List.mem_singleton.mp ha]
          exact .single hshapeNeeds
      · intro ρ ν hν
        have hindexed := hready.consistent.toIndexed
        obtain ⟨v, hv⟩ := hready.exists_value hν hxNeeds
        obtain ⟨t, ht⟩ := hready.exists_value hν htargetNeeds
        have hs := hν.constantValue hindexed hready.single hI (by decide) hvalue
        have hmidValue := hν.emitted hindexed hready.single hinner (by decide) [v, t]
          (by simp [hv, ht])
        have houtValue := hν.emitted hindexed hready.single houter (by decide)
          [I.apply (.standard "Reshape") inner.attrs [v, t], I.const ⟨dims, .int64 values⟩]
          (by simp [hmidValue, hs])
        rw [hI.reshape_reshape _ _ _ _ _ _
          (hvalues.imp_right Node.attrInt?_eq_some_iff.mp)] at houtValue
        exact ⟨[v, I.const ⟨dims, .int64 values⟩], by simp [hv, hs], houtValue⟩
    · cases hrun

end RulePass

end OpGraph
