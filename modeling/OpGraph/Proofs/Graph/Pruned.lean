import OpGraph.Proofs.Graph.Collect

/-!
What collecting the garbage leaves of a graph is wired as it was: around every node that is left,
all lookups give what they gave before.
-/

namespace OpGraph

namespace Graph

def Touches (g : Graph) (a : ArgId) : Prop :=
  ∃ id node, g.node? id = some node ∧ (a ∈ node.presentInputs ∨ a ∈ node.presentOutputs)

/-- Two graphs look alike from the args of a set that holds everything behind them. -/
structure AlikeFrom (S : ArgId → Prop) (g g' : Graph) : Prop where
  producer?_eq : ∀ a, S a → g'.producer? a = g.producer? a
  isInput_eq : ∀ a, S a → g'.isInput a = g.isInput a
  initializers_eq : ∀ a, S a → g'.initializers[a]? = g.initializers[a]?
  node_eq : ∀ a id, S a → g.producer? a = some id → g'.node id = g.node id
  reads : ∀ a id node, S a → g.producer? a = some id → g.node? id = some node →
    ∀ b ∈ node.presentInputs, S b

structure Pruned (g g' : Graph) : Prop extends Trimmed g g' where
  args_touched : ∀ a, g'.Touches a → g'.arg? a = g.arg? a
  initializers_touched : ∀ a, g'.Touches a → g'.initializers[a]? = g.initializers[a]?

variable {g g' : Graph}

theorem AlikeFrom.constantValue?_eq {S : ArgId → Prop} (h : AlikeFrom S g g') {a : ArgId}
    (ha : S a) : g'.constantValue? a = g.constantValue? a := by
  rw [constantValue?, constantValue?, h.initializers_eq a ha, h.producer?_eq a ha]
  split
  · rfl
  · split
    · rfl
    · next producer hproducer => rw [h.node_eq a producer ha hproducer]

theorem AlikeFrom.isConstant_eq {S : ArgId → Prop} (h : AlikeFrom S g g') {a : ArgId} (ha : S a) :
    g'.isConstant a = g.isConstant a := by
  rw [isConstant, isConstant, h.constantValue?_eq ha]

theorem Trimmed.touches (ht : Trimmed g g') {a : ArgId} (ha : g'.Touches a) : g.Touches a := by
  obtain ⟨id, node, hnode, hslot⟩ := ha
  exact ⟨id, node, ht.nodes id node hnode, hslot⟩

namespace Pruned

theorem refl (h : g.Indexed) : Pruned g g :=
  ⟨.refl h, fun _ _ => rfl, fun _ _ => rfl⟩

theorem trans {g₁ g₂ g₃ : Graph} (h : Pruned g₁ g₂) (h' : Pruned g₂ g₃) : Pruned g₁ g₃ where
  toTrimmed := h.toTrimmed.trans h'.toTrimmed
  args_touched a ha := (h'.args_touched a ha).trans (h.args_touched a (h'.touches ha))
  initializers_touched a ha :=
    (h'.initializers_touched a ha).trans (h.initializers_touched a (h'.touches ha))

variable (hp : Pruned g g')

include hp

theorem node_eq {id : NodeId} {node : Node} (hnode : g'.node? id = some node) :
    g'.node id = g.node id := by
  rw [node_eq_ok_iff.mpr hnode, node_eq_ok_iff.mpr (hp.nodes id node hnode)]

theorem arg_eq {a : ArgId} (ha : g'.Touches a) : g'.arg a = g.arg a := by
  rw [arg, arg, hp.args_touched a ha]

theorem isInput_eq (a : ArgId) : g'.isInput a = g.isInput a := by
  rw [isInput, isInput, hp.inputs]

theorem isOutput_eq (a : ArgId) : g'.isOutput a = g.isOutput a := by
  rw [isOutput, isOutput, hp.outputs]

variable (h : g.Indexed)

include h

theorem producer?_of_node? {a : ArgId} {id : NodeId} (hid : g'.producer? a = some id) :
    g.producer? a = some id := by
  obtain ⟨node, hnode, hmem⟩ := hp.indexed.producer?_eq_some_iff.mp hid
  exact h.producer?_eq_some_iff.mpr ⟨node, hp.nodes id node hnode, hmem⟩

theorem producer?_eq {a : ArgId} (ha : g'.Touches a) : g'.producer? a = g.producer? a := by
  cases hsource : g.producer? a with
  | none =>
    rw [Option.eq_none_iff_forall_ne_some]
    intro id hid
    rw [hp.producer?_of_node? h hid] at hsource
    cases hsource
  | some source =>
    have hinits := hp.initializers_touched a ha
    -- What was given by a node is no input and no initializer, so its source is still a node.
    have hgiven : ∃ id, g'.producer? a = some id := by
      obtain ⟨id, node, hnode, hread | hmade⟩ := ha
      · have hkept := hp.sources id node a hnode hread (hasSource_iff.mpr (.inl ⟨source, hsource⟩))
        obtain ⟨hin, hinit⟩ := h.produced_internal a source hsource
        rcases hasSource_iff.mp hkept with hgiven | hin' | hinit'
        · exact hgiven
        · rw [hp.inputs] at hin'
          exact absurd hin' hin
        · rw [Std.ExtTreeMap.mem_iff_isSome_getElem?, hinits,
            ← Std.ExtTreeMap.mem_iff_isSome_getElem?] at hinit'
          exact absurd hinit' hinit
      · exact ⟨id, hp.indexed.producer?_eq_some_iff.mpr ⟨node, hnode, hmade⟩⟩
    obtain ⟨id, hid⟩ := hgiven
    rw [hid, ← hsource, hp.producer?_of_node? h hid]

theorem alikeFrom : AlikeFrom g'.Touches g g' where
  producer?_eq _ := hp.producer?_eq h
  isInput_eq a _ := hp.isInput_eq a
  initializers_eq := hp.initializers_touched
  node_eq a id ha hid := by
    rw [← hp.producer?_eq h ha] at hid
    obtain ⟨node, hnode, -⟩ := hp.indexed.producer?_eq_some_iff.mp hid
    exact hp.node_eq hnode
  reads a id node ha hid hnode b hb := by
    rw [← hp.producer?_eq h ha] at hid
    obtain ⟨node', hnode', -⟩ := hp.indexed.producer?_eq_some_iff.mp hid
    cases hnode.symm.trans (hp.nodes id node' hnode')
    exact ⟨id, node, hnode', .inl hb⟩

end Pruned

/-! ### Collection -/

section

variable (h : g.Indexed)

include h

theorem pruned_removeNodes {dead : List Node} (hsub : dead.Sublist g.liveNodes)
    (hdead : ∀ node ∈ dead, g.isDead node = true) :
    ∃ left, (dead.map Node.id).foldlM (fun g id => Prod.snd <$> g.removeNode id) g = .ok left ∧
      Pruned g left := by
  obtain ⟨left, hleft, -, hsame, -⟩ := removeSublist_succeeds h hsub
  refine ⟨left, hleft, trimmed_removeNodes h hsub hdead hleft, ?_, ?_⟩
  · intro a _
    rw [arg?, hsame.args]
    rfl
  · intro a _
    rw [hsame.initializers]

theorem pruned_removeDead (fuel removed : Nat) :
    ∃ removed' left, removeDead fuel removed g = .ok (removed', left) ∧ Pruned g left := by
  induction fuel generalizing removed g with
  | zero => exact ⟨removed, g, rfl, .refl h⟩
  | succ fuel ih =>
    rw [removeDead]
    split
    · exact ⟨removed, g, rfl, .refl h⟩
    · have hsub : (g.liveNodes.filter g.isDead).Sublist g.liveNodes := List.filter_sublist
      obtain ⟨g₁, hg₁, hp₁⟩ :=
        pruned_removeNodes h hsub fun node hnode => (List.mem_filter.mp hnode).2
      obtain ⟨removed', left, hleft, hp⟩ := ih hp₁.indexed _
      rw [hg₁, ok_bind, hleft]
      exact ⟨removed', left, rfl, hp₁.trans hp⟩

theorem pruned_removeArg {a : ArgId} (ha : g.isOrphan a = true) : Pruned g (g.removeArg a) := by
  have ht := trimmed_removeArg h ha
  have hfree := ((isOrphan_iff h).mp ha).1
  have hne : ∀ b, (g.removeArg a).Touches b → a ≠ b := by
    rintro _ hb rfl
    obtain ⟨id, node, hnode, hslot⟩ := ht.touches hb
    exact hslot.elim (hfree id node hnode).2 (hfree id node hnode).1
  refine ⟨ht, ?_, ?_⟩
  · intro b hb
    rw [arg?_removeArg, if_neg (Ne.symm (hne b hb))]
  · intro b hb
    rw [removeArg]
    split
    · rfl
    · rw [Std.ExtTreeMap.getElem?_erase, if_neg (by simpa using hne b hb)]

theorem pruned_removeOrphans : Pruned g g.removeOrphans := by
  rw [removeOrphans]
  refine List.foldlRecOn (motive := Pruned g) _ _ (.refl h) ?_
  intro s hs a ha
  obtain ⟨hfree, hin, hout⟩ := (isOrphan_iff h).mp (List.mem_filter.mp ha).2
  have horphan : s.isOrphan a = true := by
    rw [isOrphan_iff hs.indexed, hs.inputs, hs.outputs]
    exact ⟨fun id node hnode => hfree id node (hs.nodes id node hnode), hin, hout⟩
  exact hs.trans (pruned_removeArg hs.indexed horphan)

theorem pruned_collect : ∃ removed left, g.collect = .ok (removed, left) ∧ Pruned g left := by
  obtain ⟨removed, g₁, hg₁, hdead⟩ := pruned_removeDead h (g.liveNodes.length + 1) 0
  have hrun : g.collect = .ok (removed, g₁.removeOrphans.pruneLog) := by
    rw [collect, hg₁]
    rfl
  have hp := hdead.trans (pruned_removeOrphans hdead.indexed)
  exact ⟨removed, _, hrun, trimmed_collect h hrun, hp.args_touched, hp.initializers_touched⟩

end

end Graph

end OpGraph
