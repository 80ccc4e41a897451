import OpGraph.Proofs.Pass.Site

/-!
The rules on fixed-point conversions keep the meaning of a graph.
-/

namespace OpGraph

namespace RulePass

variable {V : Type} {I : Interpretation V} {m : Match} {g : Graph}

/-! ### Quantize and dequantize -/

theorem quantizePattern_eq : quantizePattern =
    .ok ⟨#[.wildcard, .constant, .constant,
        .node (.standard "QuantizeLinear") [⟨0⟩, ⟨1⟩, ⟨2⟩] [false, false, true] [],
        .constant, .constant,
        .node (.standard "DequantizeLinear") [⟨3⟩, ⟨4⟩, ⟨5⟩] [false, false, true] []],
      #[some "x", some "scale", some "zero_point", some "quant", some "dq_scale",
        some "dq_zero_point", some "dequant"], ⟨6⟩⟩ :=
  rfl

theorem namedScale?_eq_some {name : String} {scale : Single}
    (hrun : namedScale? m g name = .ok (some scale)) : ∃ a dims, m.namedArg? name = some a ∧
      g.constantValue? a = .ok (some ⟨dims, .float32 [scale]⟩) := by
  rw [namedScale?] at hrun
  split at hrun
  · cases hrun
  · next a ha =>
    simp only [bind_eq_ok_iff, pure_eq_ok_iff, Option.bind_eq_some_iff] at hrun
    obtain ⟨-, hvalue, ⟨dims, data⟩, rfl, hscale⟩ := hrun
    rw [Tensor.singleFloat?] at hscale
    split at hscale
    · next x hdata =>
      cases hscale
      cases hdata
      exact ⟨a, dims, ha, hvalue⟩
    · cases hscale

theorem isSignedZero_eq_true {name : String} (hrun : isSignedZero m g name = .ok true) :
    ∃ a dims n, m.namedArg? name = some a ∧
      g.constantValue? a = .ok (some ⟨dims, .int8 (List.replicate n 0)⟩) := by
  rw [isSignedZero] at hrun
  split at hrun
  · cases hrun
  · next a ha =>
    rw [bind_eq_ok_iff] at hrun
    obtain ⟨value, hvalue, hrun⟩ := hrun
    cases value with
    | none => cases hrun
    | some tensor =>
      obtain ⟨dims, data⟩ := tensor
      simp only [Graph.isZero, hvalue, Tensor.elem, Tensor.isAllZero] at hrun
      cases data with
      | int8 values =>
        have hzero : values.all (· == 0) = true := Except.ok.inj hrun
        have hvalues : values = List.replicate values.length 0 := by
          rw [List.eq_replicate_iff]
          exact ⟨rfl, fun b hb => eq_of_beq (List.all_eq_true.mp hzero b hb)⟩
        exact ⟨a, dims, values.length, ha, by rw [hvalue, ← hvalues]⟩
      | float32 values => cases hrun
      | uint8 values => cases hrun
      | int32 values => cases hrun
      | int64 values => cases hrun

theorem scaleFixPoint?_eq_some {scale : Single} {n : Int64} (h : scaleFixPoint? scale = some n) :
    ∃ (k : Nat) (e : Int), scale.value = .finite false (2 ^ k) e ∧ n = Int64.ofInt (-(e + k)) := by
  rw [scaleFixPoint?, Option.map_eq_some_iff] at h
  obtain ⟨lead, hlead, rfl⟩ := h
  rw [Single.log2?] at hlead
  split at hlead
  · next mantissa e hvalue =>
    simp only at hlead
    split at hlead
    · next hpow =>
      cases hlead
      have hmantissa := congrArg (Number.Value.finite false · e) hpow.1
      exact ⟨Nat.log2 mantissa, e, hvalue.trans hmantissa, rfl⟩
    · cases hlead
  · cases hlead

theorem eq_of_equals {x y : Single} {k : Nat} {e : Int} (hx : x.value = .finite false (2 ^ k) e)
    (h : x.equals y = true) : x = y := by
  have hzero : x.isZero = false := by
    rw [Single.isZero, hx]
    simp
  simp only [Single.equals, hzero, Bool.false_and, Bool.or_false, Bool.and_eq_true] at h
  exact eq_of_beq h.2

theorem pairFixPoint?_eq_some {n : Int64} (hrun : pairFixPoint? m g = .ok (some n)) :
    ∃ (scale : Single) (k : Nat) (e : Int), scale.value = .finite false (2 ^ k) e ∧
      n = Int64.ofInt (-(e + k)) ∧
      (∀ name ∈ ["scale", "dq_scale"], ∃ a dims, m.namedArg? name = some a ∧
        g.constantValue? a = .ok (some ⟨dims, .float32 [scale]⟩)) ∧
      ∀ name ∈ ["zero_point", "dq_zero_point"], ∃ a dims n, m.namedArg? name = some a ∧
        g.constantValue? a = .ok (some ⟨dims, .int8 (List.replicate n 0)⟩) := by
  simp only [pairFixPoint?, bind_eq_ok_iff] at hrun
  obtain ⟨scale?, hscale, hrun⟩ := hrun
  cases scale? with
  | none => cases hrun
  | some scale =>
    simp only [bind_eq_ok_iff] at hrun
    obtain ⟨dqScale?, hdqScale, hrun⟩ := hrun
    cases dqScale? with
    | none => cases hrun
    | some dqScale =>
      simp only at hrun
      split at hrun
      · cases hrun
      · next hequals =>
        rw [bind_eq_ok_iff] at hrun
        obtain ⟨zero, hzero, hrun⟩ := hrun
        split at hrun
        · cases hrun
        · next hzero' =>
          rw [bind_eq_ok_iff] at hrun
          obtain ⟨dqZero, hdqZero, hrun⟩ := hrun
          split at hrun
          · cases hrun
          · next hdqZero' =>
            simp only [Bool.not_eq_true, Bool.not_eq_false'] at hequals hzero' hdqZero'
            subst hzero' hdqZero'
            obtain ⟨k, e, hvalue, hn⟩ := scaleFixPoint?_eq_some (Except.ok.inj hrun)
            obtain rfl := eq_of_equals hvalue hequals
            refine ⟨scale, k, e, hvalue, hn, ?_, ?_⟩
            · simp only [List.mem_cons, List.not_mem_nil, or_false]
              rintro name (rfl | rfl)
              · exact namedScale?_eq_some hscale
              · exact namedScale?_eq_some hdqScale
            · simp only [List.mem_cons, List.not_mem_nil, or_false]
              rintro name (rfl | rfl)
              · exact isSignedZero_eq_true hzero
              · exact isSignedZero_eq_true hdqZero

theorem pair_value (hI : I.Lawful) (hready : g.Ready ruleKeys) {pattern : Pattern} {id : NodeId}
    (hpattern : quantizePattern = .ok pattern) (hmatch : pattern.matchNode g id = .ok (some m))
    {n : Int64} (hn : pairFixPoint? m g = .ok (some n)) :
    ∃ x out root node reads, m.namedArg? "x" = some x ∧ m.namedNode? "dequant" = some root ∧
      g.Emits root node (.standard "DequantizeLinear") reads out ∧
      Relation.TransGen g.Needs out x ∧ ∀ ρ ν, g.Solution I ρ ν → ∃ v, ν x = some v ∧
        ν out = some (I.apply .fix (.only fixPointAttr (.int n)) [v]) := by
  obtain rfl := Except.ok.inj (quantizePattern_eq.symm.trans hpattern)
  obtain ⟨-, out, -, -, hm⟩ := Pattern.matchNode_sound (by decide) hmatch
  obtain ⟨mid, hmid⟩ := hm.exists_arg rfl hm.root 0 rfl (by decide)
  obtain ⟨x, hx⟩ := hm.exists_arg rfl hmid 0 rfl (by decide)
  obtain ⟨scale, k, e, hpow, rfl, hscales, hzeros⟩ := pairFixPoint?_eq_some hn
  obtain ⟨s, dims, hs, hsValue⟩ := hscales "scale" (by simp)
  obtain ⟨s', dims', hs', hsValue'⟩ := hscales "dq_scale" (by simp)
  obtain ⟨z, zeroDims, len, hz, hzValue⟩ := hzeros "zero_point" (by simp)
  obtain ⟨z', zeroDims', len', hz', hzValue'⟩ := hzeros "dq_zero_point" (by simp)
  rw [hm.namedArg?_eq _ rfl] at hs hs' hz hz'
  obtain ⟨_, quant, -, hquant⟩ := hm.emits rfl hmid (by decide) [x, s, z] (by simp [hx, hs, hz])
  obtain ⟨root, node, hroot, hdequant⟩ := hm.emits rfl hm.root (by decide) [mid, s', z']
    (by simp [hmid, hs', hz'])
  have hneeds : g.Needs mid x := hquant.needs List.mem_cons_self
  refine ⟨x, out, root, node, _, (hm.namedArg?_eq "x" rfl).trans hx,
    (hm.namedNode?_eq "dequant" rfl).trans hroot, hdequant,
    .tail (.single (hdequant.needs List.mem_cons_self)) hneeds, ?_⟩
  intro ρ ν hν
  have hindexed := hready.consistent.toIndexed
  obtain ⟨v, hv⟩ := hready.exists_value hν hneeds
  have hconst : ∀ {a tensor}, g.constantValue? a = .ok (some tensor) →
      ν a = some (I.const tensor) :=
    hν.constantValue hindexed hready.single hI (by decide)
  have hmidValue := hν.emitted hindexed hready.single hquant (by decide)
    [v, I.const ⟨dims, .float32 [scale]⟩, I.const ⟨zeroDims, .int8 (List.replicate len 0)⟩]
    (by simp [hv, hconst hsValue, hconst hzValue])
  have houtValue := hν.emitted hindexed hready.single hdequant (by decide)
    [_, I.const ⟨dims', .float32 [scale]⟩, I.const ⟨zeroDims', .int8 (List.replicate len' 0)⟩]
    (by simp [hconst hsValue', hconst hzValue']; exact hmidValue)
  -- The two scales are constants of their own; only the number in them has to be the same.
  rw [hI.dequantize_quantize _ _ _ _ _ _ _ _ _ _ _ _ hpow] at houtValue
  exact ⟨v, hv, houtValue⟩

theorem pairToFix_sound (hI : I.Lawful) :
    RuleSpec.Sound I ⟨"qdq_to_fix", quantizePattern, Action.pairToFix⟩ := by
  intro pattern hpattern g id m pass counter g' hready hmatch hrun
  simp only [Action.pairToFix] at hrun
  split at hrun
  · next x hx =>
    split at hrun
    · next root hroot =>
      rw [bind_eq_ok_iff] at hrun
      obtain ⟨n?, hn, hrun⟩ := hrun
      cases n? with
      | none => cases hrun
      | some n =>
        obtain ⟨x', out, root', node, reads, hx', hroot', hemits, hneeds, hvalue⟩ :=
          pair_value hI hready hpattern hmatch hn
        cases hx.symm.trans hx'
        cases hroot.symm.trans hroot'
        simp only [hemits.node_eq, ok_bind, hready.output?_zero hemits (by decide),
          Draft.anchorRemark] at hrun
        refine Graph.preserves_of_supplant hready hemits (by decide) [x] rfl rfl ?_ ?_
          (rewrite_of_counted hrun)
        · intro a ha
          rw [List.mem_singleton.mp ha]
          exact hneeds
        · intro ρ ν hν
          obtain ⟨v, hv, hout⟩ := hvalue ρ ν hν
          exact ⟨[v], by simp [hv], hout⟩
    · cases hrun
  · cases hrun

/-! ### Conversions that undo each other -/

theorem conversions?_eq_some {inner outer : OpKey} (s : Stacked g inner outer m) {c : Conversions}
    (hrun : conversions? m g = .ok (some c)) :
    c.x = s.x ∧ c.inner = s.innerId ∧ c.outer = s.outerId ∧
      s.innerNode.attrs[fixPointAttr]? = some (.int c.fixPoint) ∧
      s.outerNode.attrs[fixPointAttr]? = some (.int c.fixPoint) := by
  simp only [conversions?, s.named_x, s.named_inner, s.named_outer, s.emits_mid.node_eq,
    s.emits_out.node_eq, ok_bind] at hrun
  split at hrun
  · next a ha =>
    split at hrun
    · next ha' =>
      cases hrun
      exact ⟨rfl, rfl, rfl, Node.attrInt?_eq_some_iff.mp ha, Node.attrInt?_eq_some_iff.mp ha'⟩
    · cases hrun
  · cases hrun

theorem foldRoundTrip_sound (hI : I.Lawful) :
    RuleSpec.Sound I
      ⟨"fold_roundtrip", conversionPattern .float2fix .fix2float, Action.foldRoundTrip⟩ := by
  intro pattern hpattern g id m pass counter g' hready hmatch hrun
  obtain rfl : Pattern.stacked .float2fix .fix2float = pattern := Except.ok.inj hpattern
  obtain ⟨s⟩ := exists_stacked hmatch
  simp only [Action.foldRoundTrip, bind_eq_ok_iff] at hrun
  obtain ⟨c?, hc, hrun⟩ := hrun
  cases c? with
  | none => cases hrun
  | some c =>
    obtain ⟨hx, -, houter, hinnerAttr, houterAttr⟩ := conversions?_eq_some s hc
    simp only [houter, hx, s.emits_out.node_eq, ok_bind,
      hready.output?_zero s.emits_out (by decide)] at hrun
    refine Graph.preserves_of_supplant hready s.emits_out (by decide) [s.x] rfl rfl ?_ ?_
      (rewrite_of_counted hrun)
    · intro a ha
      rw [List.mem_singleton.mp ha]
      exact s.needs_x
    · intro ρ ν hν
      obtain ⟨v, hv, -, hout⟩ := s.value hready (by decide) (by decide) hν
      refine ⟨[v], by simp [hv], ?_⟩
      rw [hout, hI.fix2float_float2fix _ _ _ _ hinnerAttr houterAttr]
      rfl

theorem bypassToInput_sound (hI : I.Lawful) : RuleSpec.Sound I
    ⟨"bypass_reverse_roundtrip", conversionPattern .fix2float .float2fix,
      Action.bypassToInput⟩ := by
  intro pattern hpattern g id m pass counter g' hready hmatch hrun
  obtain rfl : Pattern.stacked .fix2float .float2fix = pattern := Except.ok.inj hpattern
  obtain ⟨s⟩ := exists_stacked hmatch
  simp only [Action.bypassToInput, bind_eq_ok_iff] at hrun
  obtain ⟨c?, hc, hrun⟩ := hrun
  cases c? with
  | none => cases hrun
  | some c =>
    obtain ⟨hx, -, houter, hinnerAttr, houterAttr⟩ := conversions?_eq_some s hc
    simp only [houter, hx, s.emits_out.node_eq, ok_bind,
      hready.output?_zero s.emits_out (by decide)] at hrun
    refine Graph.preserves_of_bypass hready s.emits_out (by decide) s.needs_x ?_
      (rewrite_of_counted hrun)
    intro ρ ν hν
    obtain ⟨v, hv, -, hout⟩ := s.value hready (by decide) (by decide) hν
    rw [hv, hout, hI.float2fix_fix2float _ _ _ _ hinnerAttr houterAttr]

theorem bypassToInner_sound (hI : I.Lawful) :
    RuleSpec.Sound I
      ⟨"collapse_double_fix", conversionPattern .fix .fix, Action.bypassToInner⟩ := by
  intro pattern hpattern g id m pass counter g' hready hmatch hrun
  obtain rfl : Pattern.stacked .fix .fix = pattern := Except.ok.inj hpattern
  obtain ⟨s⟩ := exists_stacked hmatch
  simp only [Action.bypassToInner, bind_eq_ok_iff] at hrun
  obtain ⟨c?, hc, hrun⟩ := hrun
  cases c? with
  | none => cases hrun
  | some c =>
    obtain ⟨-, hinner, houter, hinnerAttr, houterAttr⟩ := conversions?_eq_some s hc
    simp only [houter, hinner, s.emits_mid.node_eq, s.emits_out.node_eq, ok_bind,
      hready.output?_zero s.emits_mid (by decide),
      hready.output?_zero s.emits_out (by decide)] at hrun
    refine Graph.preserves_of_bypass hready s.emits_out (by decide) s.needs_mid ?_
      (rewrite_of_counted hrun)
    intro ρ ν hν
    obtain ⟨v, -, hmid, hout⟩ := s.value hready (by decide) (by decide) hν
    rw [hmid, hout, hI.fix_fix _ _ _ _ hinnerAttr houterAttr]

/-! ### Converted constants -/

theorem constantPattern_eq : constantPattern =
    .ok ⟨#[.constant, .node .float2fix [⟨0⟩] [false] []], #[some "c", some "quant"], ⟨1⟩⟩ :=
  rfl

theorem float32s_eq_ok {tensor : Tensor} {name : String} {values : List Single}
    (h : tensor.float32s name = .ok values) : tensor = ⟨tensor.dims, .float32 values⟩ := by
  obtain ⟨dims, data⟩ := tensor
  rw [Tensor.float32s] at h
  cases data <;> cases h
  rfl

theorem foldConstant_sound (hI : I.Lawful) :
    RuleSpec.Sound I ⟨"fold_constant", constantPattern, Action.foldConstant⟩ := by
  intro pattern hpattern g id m pass counter g' hready hmatch hrun
  obtain rfl := Except.ok.inj (constantPattern_eq.symm.trans hpattern)
  obtain ⟨-, out, -, -, hm⟩ := Pattern.matchNode_sound (by decide) hmatch
  obtain ⟨c, root, node, hc, hroot, hemits⟩ := hm.emits_unary hm.root (by decide) rfl
  simp only [Action.foldConstant, hm.namedArg?_eq "c" rfl, hm.namedNode?_eq "quant" rfl, hc, hroot,
    hemits.node_eq, ok_bind, hready.output?_zero hemits (by decide)] at hrun
  split at hrun
  · next n hn =>
    split at hrun
    · cases hrun
    · rw [bind_eq_ok_iff] at hrun
      obtain ⟨value, hvalue, hrun⟩ := hrun
      cases value with
      | none => cases hrun
      | some tensor =>
        simp only [bind_eq_ok_iff] at hrun
        obtain ⟨arg, -, hrun⟩ := hrun
        split at hrun
        · cases hrun
        · next values hvalues =>
          split at hrun
          · cases hrun
          · cases hrun
          · next new g₂ hdeclare =>
            simp only [bind_eq_ok_iff, pure_eq_ok_iff, Option.some.injEq, Prod.mk.injEq] at hrun
            obtain ⟨g₃, hreplace, ⟨removed, g₄⟩, hremove, -, rfl⟩ := hrun
            refine Graph.preserves_of_initializer hready hemits (by decide)
              hdeclare hreplace hremove ?_
            intro ρ ν hν
            have hindexed := hready.consistent.toIndexed
            obtain ⟨v, hv, hout⟩ := hready.value_unary hν hemits (by decide)
            have hconst := hν.constantValue hindexed hready.single hI (by decide) hvalue
            rw [float32s_eq_ok hvalues] at hconst
            cases hv.symm.trans hconst
            rw [hout, hI.float2fix_const _ _ _ _ (Node.attrInt?_eq_some_iff.mp hn)]
  · cases hrun

end RulePass

end OpGraph
