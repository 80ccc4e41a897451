import OpGraph.Proofs.Pass.Descent
import OpGraph.Proofs.Pattern.Keys

/-!
How the rules of the passes can fail. What a match hands to a rule is in the graph, so that every
edit of the rule goes through. Only the size of a constant may overflow when it is declared.
-/

namespace OpGraph

def Fault.IsOverflow (f : Fault) : Prop :=
  ∃ o, f = .overflow o

/-! ### What a match hands out -/

structure Match.Stands (m : Match) (g : Graph) : Prop where
  arg : ∀ name a, m.namedArg? name = some a → (g.arg? a).isSome
  node : ∀ name id, m.namedNode? name = some id → ∃ node, g.node? id = some node

theorem Match.IsFor.live_of_bound {m : Match} {p : Pattern} {g : Graph} {arg : ArgId}
    (hm : m.IsFor p g arg) (h : g.Indexed) (hp : p.WellFormed) (hroot : (g.arg? arg).isSome)
    {id : PatternId} {a : ArgId} (ha : m.arg? id = some a) : (g.arg? a).isSome := by
  refine hm.bound_induction hp (P := fun _ a => (g.arg? a).isSome) hroot ?_ ha
  intro parent kind b id a _ _ hb hpasses
  cases hkind : kind.descends with
  | true =>
    obtain ⟨-, reader, node, -, hnode, hread⟩ := hpasses.reader hkind
    exact h.reads_live reader node a hnode hread
  | false =>
    cases kind with
    | anyOf items => exact hpasses.2 ▸ hb
    | allOf items => exact hpasses.2 ▸ hb
    | _ => cases hkind

theorem Pattern.stands_of_matchNode {p : Pattern} {g : Graph} (h : g.Indexed) (hp : p.WellFormed)
    {id : NodeId} {m : Match} (hmatch : p.matchNode g id = .ok (some m)) : m.Stands g := by
  obtain ⟨node, arg, hnode, hout, hm⟩ := matchNode_sound hp hmatch
  have hroot := h.produces_live id node arg hnode (Node.mem_presentOutputs_iff.mpr ⟨0, hout⟩)
  constructor
  · intro name a ha
    obtain ⟨entry, hentry⟩ := Match.exists_entry ha
    rw [hm.pattern] at hentry
    exact hm.live_of_bound h hp hroot ((hm.namedArg?_eq name hentry).symm.trans ha)
  · intro name producer hproducer
    obtain ⟨entry, hentry⟩ := Match.exists_entry hproducer
    rw [hm.pattern] at hentry
    rw [hm.namedNode?_eq name hentry] at hproducer
    obtain ⟨a, ha⟩ := exists_arg_of_node? hp hmatch hproducer
    obtain ⟨node, hnode, -⟩ :=
      h.producer?_eq_some_iff.mp ((hm.node entry a ha).symm.trans hproducer)
    exact ⟨node, hnode⟩

/-! ### The rules -/

theorem Graph.Indexed.isZero_succeeds {g : Graph} (h : g.Indexed) (a : ArgId) :
    ∃ zero, g.isZero a = .ok zero := by
  obtain ⟨value, hvalue⟩ := h.constantValue?_succeeds a
  rw [isZero, hvalue]
  exact ⟨_, rfl⟩

theorem Graph.Indexed.output_live {g : Graph} (h : g.Indexed) {id : NodeId} {node : Node}
    (hnode : g.node? id = some node) {slot : Nat} {a : ArgId} (ha : node.output? slot = some a) :
    (g.arg? a).isSome :=
  h.produces_live id node a hnode (Node.mem_presentOutputs_iff.mpr ⟨slot, ha⟩)

namespace RulePass

def Settles (act : Action) : Prop :=
  ∀ pass m g, g.Indexed → m.Stands g → FailsAs Fault.IsOverflow (act pass m g)

theorem failsAs_counted {x : Except Fault (Bool × Graph)} (hx : ∃ result, x = .ok result)
    (counter : String) :
    FailsAs Fault.IsOverflow (x >>= fun result => pure (counted counter result)) :=
  failsAs_bind (failsAs_of_succeeds hx) fun _ _ => failsAs_ok

theorem settles_bypassIdentity : Settles Action.bypassIdentity := by
  intro pass m g h hm
  unfold Action.bypassIdentity
  split
  · next x hx =>
    split
    · next id hid =>
      obtain ⟨node, hnode⟩ := hm.node _ id hid
      rw [Graph.node_eq_ok_iff.mpr hnode, ok_bind]
      split
      · next out hout =>
        exact failsAs_counted
          (Graph.bypass_succeeds h hnode (h.output_live hnode hout) (hm.arg _ x hx)) _
      · exact failsAs_ok
    · exact failsAs_ok
  · exact failsAs_ok

theorem settles_bypassAddZero : Settles Action.bypassAddZero := by
  intro pass m g h hm
  unfold Action.bypassAddZero
  split
  · next x hx =>
    split
    · next zero _ =>
      split
      · next id hid =>
        obtain ⟨isZero, hzero⟩ := h.isZero_succeeds zero
        rw [hzero, ok_bind]
        split
        · exact failsAs_ok
        · obtain ⟨node, hnode⟩ := hm.node _ id hid
          rw [Graph.node_eq_ok_iff.mpr hnode, ok_bind]
          split
          · next out hout =>
            have hold := h.output_live hnode hout
            obtain ⟨arg, harg⟩ := Option.isSome_iff_exists.mp (hm.arg _ x hx)
            obtain ⟨sum, hsum⟩ := Option.isSome_iff_exists.mp hold
            rw [Graph.arg_eq_ok_iff.mpr harg, ok_bind, Graph.arg_eq_ok_iff.mpr hsum, ok_bind]
            dsimp only
            split
            · exact failsAs_ok
            · exact failsAs_counted (Graph.bypass_succeeds h hnode hold (hm.arg _ x hx)) _
          · exact failsAs_ok
      · exact failsAs_ok
    · exact failsAs_ok
  · exact failsAs_ok

/-! ### Fixed-point conversions -/

theorem namedScale?_succeeds {m : Match} {g : Graph} (h : g.Indexed) (name : String) :
    ∃ scale, namedScale? m g name = .ok scale := by
  unfold namedScale?
  split
  · exact ⟨_, rfl⟩
  · next a _ =>
    obtain ⟨value, hvalue⟩ := h.constantValue?_succeeds a
    rw [hvalue]
    exact ⟨_, rfl⟩

theorem isSignedZero_succeeds {m : Match} {g : Graph} (h : g.Indexed) (name : String) :
    ∃ zero, isSignedZero m g name = .ok zero := by
  unfold isSignedZero
  split
  · exact ⟨_, rfl⟩
  · next a _ =>
    obtain ⟨value, hvalue⟩ := h.constantValue?_succeeds a
    obtain ⟨zero, hzero⟩ := h.isZero_succeeds a
    rw [hvalue, ok_bind]
    split
    · exact ⟨_, rfl⟩
    · rw [hzero]
      exact ⟨_, rfl⟩

theorem pairFixPoint?_succeeds {m : Match} {g : Graph} (h : g.Indexed) :
    ∃ fixPoint, pairFixPoint? m g = .ok fixPoint := by
  unfold pairFixPoint?
  obtain ⟨scale, hscale⟩ := namedScale?_succeeds (m := m) h "scale"
  obtain ⟨dqScale, hdqScale⟩ := namedScale?_succeeds (m := m) h "dq_scale"
  obtain ⟨zero, hzero⟩ := isSignedZero_succeeds (m := m) h "zero_point"
  obtain ⟨dqZero, hdqZero⟩ := isSignedZero_succeeds (m := m) h "dq_zero_point"
  rw [hscale, hdqScale, hzero, hdqZero]
  simp only [ok_bind]
  repeat' split
  all_goals exact ⟨_, rfl⟩

theorem buildable_draft {pass : String} {key : OpKey} {args : List ArgId} {attrs : Attrs}
    {old : ArgId} {kind : Anchor} {g : Graph} (hkey : key.opType ≠ "")
    (harity :
      (Draft.mk pass none key (args.map some) attrs [] none none (some (old, kind))).checkArity =
        .ok ()) (hargs : ∀ a ∈ args, (g.arg? a).isSome) (hold : (g.arg? old).isSome)
    (hkind : ∀ order, kind ≠ .transpose order) :
    (Draft.mk pass none key (args.map some) attrs [] none none (some (old, kind))).Buildable g where
  opType := hkey
  arity := harity
  inputs a ha := by
    rw [mem_present_iff, List.mem_map] at ha
    obtain ⟨b, hb, heq⟩ := ha
    cases heq
    exact hargs a hb
  anchor old' kind' heq := by
    cases heq
    exact ⟨hold, hkind⟩
  name := rfl
  outputs := rfl
  shape := rfl

theorem settles_pairToFix : Settles Action.pairToFix := by
  intro pass m g h hm
  unfold Action.pairToFix
  split
  · next x hx =>
    split
    · next id hid =>
      obtain ⟨fixPoint?, hfixPoint⟩ := pairFixPoint?_succeeds (m := m) h
      rw [hfixPoint, ok_bind]
      split
      · next fixPoint =>
        obtain ⟨node, hnode⟩ := hm.node _ id hid
        rw [Graph.node_eq_ok_iff.mpr hnode, ok_bind]
        split
        · next old hold =>
          have hlive := h.output_live hnode hold
          simp only [Draft.anchorRemark, ok_bind]
          refine failsAs_counted (Graph.supplant_succeeds h hnode hlive ?_) _
          exact buildable_draft (show OpKey.fix.opType ≠ "" by decide) rfl
            (by simpa using hm.arg _ x hx) hlive (by simp)
        · exact failsAs_ok
      · exact failsAs_ok
    · exact failsAs_ok
  · exact failsAs_ok

theorem conversions?_succeeds {m : Match} {g : Graph} (hm : m.Stands g) :
    ∃ c, conversions? m g = .ok c := by
  unfold conversions?
  split
  · split
    · next inner hinner =>
      split
      · next outer houter =>
        obtain ⟨innerNode, hinnerNode⟩ := hm.node _ inner hinner
        obtain ⟨outerNode, houterNode⟩ := hm.node _ outer houter
        rw [Graph.node_eq_ok_iff.mpr hinnerNode, ok_bind]
        split
        · rw [Graph.node_eq_ok_iff.mpr houterNode, ok_bind]
          split
          · exact ⟨_, rfl⟩
          · exact ⟨_, rfl⟩
        · exact ⟨_, rfl⟩
      · exact ⟨_, rfl⟩
    · exact ⟨_, rfl⟩
  · exact ⟨_, rfl⟩

theorem settles_foldRoundTrip : Settles Action.foldRoundTrip := by
  intro pass m g h hm
  unfold Action.foldRoundTrip
  obtain ⟨c?, hc⟩ := conversions?_succeeds hm
  rw [hc, ok_bind]
  split
  · next c =>
    obtain ⟨hx, -, houter⟩ := conversions?_offers hc
    obtain ⟨node, hnode⟩ := hm.node _ c.outer houter
    rw [Graph.node_eq_ok_iff.mpr hnode, ok_bind]
    split
    · next old hold =>
      have hlive := h.output_live hnode hold
      refine failsAs_counted (Graph.supplant_succeeds h hnode hlive ?_) _
      exact buildable_draft (show OpKey.fix.opType ≠ "" by decide) rfl
        (by simpa using hm.arg _ c.x hx) hlive (by simp)
    · exact failsAs_ok
  · exact failsAs_ok

theorem settles_bypassToInput : Settles Action.bypassToInput := by
  intro pass m g h hm
  unfold Action.bypassToInput
  obtain ⟨c?, hc⟩ := conversions?_succeeds hm
  rw [hc, ok_bind]
  split
  · next c =>
    obtain ⟨hx, -, houter⟩ := conversions?_offers hc
    obtain ⟨node, hnode⟩ := hm.node _ c.outer houter
    rw [Graph.node_eq_ok_iff.mpr hnode, ok_bind]
    split
    · next out hout =>
      exact failsAs_counted
        (Graph.bypass_succeeds h hnode (h.output_live hnode hout) (hm.arg _ c.x hx)) _
    · exact failsAs_ok
  · exact failsAs_ok

theorem settles_bypassToInner : Settles Action.bypassToInner := by
  intro pass m g h hm
  unfold Action.bypassToInner
  obtain ⟨c?, hc⟩ := conversions?_succeeds hm
  rw [hc, ok_bind]
  split
  · next c =>
    obtain ⟨-, hinner, houter⟩ := conversions?_offers hc
    obtain ⟨innerNode, hinnerNode⟩ := hm.node _ c.inner hinner
    obtain ⟨node, hnode⟩ := hm.node _ c.outer houter
    rw [Graph.node_eq_ok_iff.mpr hinnerNode, ok_bind]
    split
    · next survivor hsurvivor =>
      rw [Graph.node_eq_ok_iff.mpr hnode, ok_bind]
      split
      · next out hout =>
        exact failsAs_counted (Graph.bypass_succeeds h hnode (h.output_live hnode hout)
          (h.output_live hinnerNode hsurvivor)) _
      · exact failsAs_ok
    · exact failsAs_ok
  · exact failsAs_ok

/-! ### Constants -/

theorem isOverflow_of_addInitializer {name : String} {tensor : Tensor} {g g' : Graph} {f : Fault}
    (hrun : Graph.addInitializer name tensor g = .error (.fault f) g') : f.IsOverflow := by
  cases hcheck : Graph.checkTensor name tensor with
  | error failure =>
    simp only [Graph.addInitializer, hcheck] at hrun
    cases hrun
    rw [Graph.checkTensor] at hcheck
    split at hcheck
    · next o _ =>
      cases hcheck
      exact ⟨o, rfl⟩
    · cases hcheck
    · cases hcheck
  | ok u =>
    by_cases hname : name ∈ g.argNames
    · simp [Graph.addInitializer, hcheck, Graph.newArg, hname, bind, EStateM.bind] at hrun
    · simp only [Graph.addInitializer, hcheck] at hrun
      have hnew : Graph.newArg name tensor.type g = .ok _ _ := if_neg hname
      rw [stateful_bind_of_ok hnew] at hrun
      cases hrun

theorem redirect_succeeds_of_declared {g g₂ : Graph} (h : g.Indexed) {name : String}
    {tensor : Tensor}
    {new : ArgId} (hdeclare : Graph.addInitializer name tensor g = .ok new g₂) {root : NodeId}
    {node : Node} (hnode : g.node? root = some node) {old : ArgId} (hold : (g.arg? old).isSome)
    (log : Log) : ∃ g₃ removed g', { g₂ with log }.replaceAllUses old new = .ok g₃ ∧
      g₃.removeNode root = .ok (removed, g') := by
  have hindexed : g₂.Indexed :=
    (Graph.evolves_addInitializer h (by rw [Graph.settle, hdeclare])).indexed
  obtain ⟨failure, heq⟩ | ⟨-, heq⟩ := Graph.addInitializer_cases name tensor g
  · cases heq.symm.trans hdeclare
  · cases heq.symm.trans hdeclare
    exact Graph.redirect_succeeds (hindexed.setLog log) hnode (Graph.live_pushArg (.inr hold) _ _)
      (Graph.live_pushArg (.inl rfl) _ _)

theorem settles_foldConstant : Settles Action.foldConstant := by
  intro pass m g h hm
  unfold Action.foldConstant
  split
  · next c hc =>
    split
    · next id hid =>
      obtain ⟨node, hnode⟩ := hm.node _ id hid
      rw [Graph.node_eq_ok_iff.mpr hnode, ok_bind]
      split
      · split
        · next out hout =>
          split
          · exact failsAs_ok
          · obtain ⟨value, hvalue⟩ := h.constantValue?_succeeds c
            rw [hvalue, ok_bind]
            split
            · next tensor =>
              obtain ⟨arg, harg⟩ := Option.isSome_iff_exists.mp (hm.arg _ c hc)
              simp only [Graph.arg_eq_ok_iff.mpr harg, ok_bind]
              split
              · exact failsAs_ok
              · next values _ =>
                split
                · next fault g' hdeclare =>
                  intro f hf
                  cases hf
                  exact isOverflow_of_addInitializer hdeclare
                · exact failsAs_ok
                · next new g₂ hdeclare =>
                  obtain ⟨g₃, removed, g', hreplace, hremove⟩ := redirect_succeeds_of_declared h
                    hdeclare hnode (h.output_live hnode hout) _
                  rw [hreplace, ok_bind, hremove, ok_bind]
                  exact failsAs_ok
            · exact failsAs_ok
        · exact failsAs_ok
      · exact failsAs_ok
    · exact failsAs_ok
  · exact failsAs_ok

/-! ### Transposes and reshapes -/

theorem settles_mergeTransposes : Settles Action.mergeTransposes := by
  intro pass m g h hm
  unfold Action.mergeTransposes
  split
  · next x hx =>
    split
    · next inner hinner =>
      split
      · next id hid =>
        obtain ⟨innerNode, hinnerNode⟩ := hm.node _ inner hinner
        obtain ⟨node, hnode⟩ := hm.node _ id hid
        rw [Graph.node_eq_ok_iff.mpr hinnerNode, ok_bind, Graph.node_eq_ok_iff.mpr hnode]
        split
        · rw [ok_bind]
          split
          · split
            · rw [ok_bind]
              split
              · next old hold =>
                have hlive := h.output_live hnode hold
                have hxLive := hm.arg _ x hx
                split
                · exact failsAs_counted (Graph.bypass_succeeds h hnode hlive hxLive) _
                · refine failsAs_counted (Graph.supplant_succeeds h hnode hlive ?_) _
                  exact buildable_draft (show (OpKey.standard "Transpose").opType ≠ "" by decide)
                    rfl (by simpa using hxLive) hlive (by simp)
              · exact failsAs_ok
            · exact failsAs_ok
          · exact failsAs_ok
        · exact failsAs_ok
      · exact failsAs_ok
    · exact failsAs_ok
  · exact failsAs_ok

theorem copiesInputDims_succeeds {g : Graph} (h : g.Indexed) (shape : ArgId)
    (allowZero : Option Int64) : ∃ copies, copiesInputDims g shape allowZero = .ok copies := by
  unfold copiesInputDims
  obtain ⟨value, hvalue⟩ := h.constantValue?_succeeds shape
  rw [hvalue, ok_bind]
  split
  · exact ⟨_, rfl⟩
  · split
    · exact ⟨_, rfl⟩
    · exact ⟨_, rfl⟩

theorem settles_mergeReshapes : Settles Action.mergeReshapes := by
  intro pass m g h hm
  unfold Action.mergeReshapes
  split
  · next x hx =>
    split
    · next shape hshape =>
      split
      · next id hid =>
        obtain ⟨node, hnode⟩ := hm.node _ id hid
        rw [Graph.node_eq_ok_iff.mpr hnode, ok_bind]
        split
        · next old hold =>
          have hlive := h.output_live hnode hold
          obtain ⟨copies, hcopies⟩ := copiesInputDims_succeeds h shape (node.attrInt? allowZeroAttr)
          obtain ⟨arg, harg⟩ := Option.isSome_iff_exists.mp hlive
          rw [hcopies, ok_bind]
          split
          · exact failsAs_ok
          · rw [Graph.arg_eq_ok_iff.mpr harg, ok_bind]
            split
            · rw [Draft.cloneAttrs, Graph.node_eq_ok_iff.mpr hnode, ok_bind]
              refine failsAs_counted (Graph.supplant_succeeds h hnode hlive ?_) _
              exact buildable_draft (show (OpKey.standard "Reshape").opType ≠ "" by decide) rfl
                (by simpa using ⟨hm.arg _ x hx, hm.arg _ shape hshape⟩) hlive (by simp)
            · exact failsAs_ok
        · exact failsAs_ok
      · exact failsAs_ok
    · exact failsAs_ok
  · exact failsAs_ok

end RulePass

end OpGraph
