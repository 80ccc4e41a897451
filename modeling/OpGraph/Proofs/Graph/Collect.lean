import OpGraph.Proofs.Graph.Rewired
import OpGraph.Proofs.Meaning.Rewiring

/-!
Garbage collection takes away what nothing reads: what is left of a valid graph is valid.
-/

namespace OpGraph

namespace Graph

structure Trimmed (g g' : Graph) : Prop where
  indexed : g'.Indexed
  nodes : ∀ id node, g'.node? id = some node → g.node? id = some node
  sources : ∀ id node a, g'.node? id = some node → a ∈ node.presentInputs →
    g.hasSource a = true → g'.hasSource a = true
  inputs : g'.inputs = g.inputs
  outputs : g'.outputs = g.outputs
  args : ∀ a, a ∈ g.inputs ∨ a ∈ g.outputs → g'.arg? a = g.arg? a

namespace Trimmed

variable {g g' : Graph}

theorem refl (h : g.Indexed) : Trimmed g g :=
  ⟨h, fun _ _ => id, fun _ _ _ _ _ => id, rfl, rfl, fun _ _ => rfl⟩

theorem trans {g₁ g₂ g₃ : Graph} (h : Trimmed g₁ g₂) (h' : Trimmed g₂ g₃) : Trimmed g₁ g₃ where
  indexed := h'.indexed
  nodes id node hnode := h.nodes id node (h'.nodes id node hnode)
  sources id node a hnode ha hsource :=
    h'.sources id node a hnode ha (h.sources id node a (h'.nodes id node hnode) ha hsource)
  inputs := h'.inputs.trans h.inputs
  outputs := h'.outputs.trans h.outputs
  args a ha := (h'.args a (by rwa [h.inputs, h.outputs])).trans (h.args a ha)

variable (ht : Trimmed g g')

include ht

theorem consistent (hc : g.Consistent) : g'.Consistent :=
  ⟨ht.indexed, fun id node hnode => hc.outputs_nodup id node (ht.nodes id node hnode)⟩

theorem sourced (hsourced : g.Sourced) : g'.Sourced := by
  intro id node a hnode ha
  exact ht.sources id node a hnode ha (hsourced id node a (ht.nodes id node hnode) ha)

theorem feeds (h : g.Indexed) {source target : NodeId} (hfeeds : g'.Feeds source target) :
    g.Feeds source target := by
  obtain ⟨node, a, hnode, ha, hproducer⟩ := hfeeds
  obtain ⟨giver, hgiver, hmem⟩ := ht.indexed.producer?_eq_some_iff.mp hproducer
  exact ⟨node, a, ht.nodes target node hnode, ha,
    h.producer?_eq_some_iff.mpr ⟨giver, ht.nodes source giver hgiver, hmem⟩⟩

theorem acyclic (h : g.Indexed) (hacyclic : g.Acyclic) : g'.Acyclic := by
  intro id hloop
  exact hacyclic id (Relation.TransGen.mono (fun _ _ => ht.feeds h) id id hloop)

theorem singleOutput {keys : List OpKey} (hsingle : g.SingleOutput keys) :
    g'.SingleOutput keys := by
  intro id node hnode
  exact hsingle id node (ht.nodes id node hnode)

end Trimmed

/-! ### Dead nodes -/

variable {g g' : Graph}

theorem isDead_iff (h : g.Indexed) {node : Node} : g.isDead node = true ↔
    ∀ a ∈ node.presentOutputs, a ∉ g.outputs ∧
      ∀ id reader, g.node? id = some reader → a ∉ reader.presentInputs := by
  simp only [isDead, List.all_eq_true, Bool.and_eq_true, Bool.not_eq_true', ← Bool.not_eq_true,
    isOutput_iff, h.hasConsumers_iff, not_exists, not_and]
  constructor
  · intro hdead a ha
    exact ⟨(hdead a ha).2, (hdead a ha).1⟩
  · intro hdead a ha
    exact ⟨(hdead a ha).2, (hdead a ha).1⟩

theorem removeSublist_succeeds (h : g.Indexed) {gone : List Node}
    (hsub : gone.Sublist g.liveNodes) :
    ∃ left, (gone.map Node.id).foldlM (fun g id => Prod.snd <$> g.removeNode id) g = .ok left ∧
      left.Indexed ∧ SameArgs g left ∧
      ∀ id, left.node? id = if id ∈ gone.map Node.id then none else g.node? id := by
  have hnodup : (gone.map Node.id).Nodup := Handle.nodup_of_ascending
    (List.pairwise_map.mpr (h.liveNodes_ascending.sublist hsub))
  obtain ⟨left, hleft, hindexed, hsame, -, hnodes⟩ := removeNodes_succeeds h hnodup (by
    intro id hid
    obtain ⟨node, hnode, rfl⟩ := List.mem_map.mp hid
    exact h.mem_nodeIds.mpr ⟨node, h.mem_liveNodes.mp (hsub.subset hnode)⟩)
  exact ⟨left, hleft, hindexed, hsame, hnodes⟩

theorem trimmed_removeNodes (h : g.Indexed) {dead : List Node} (hsub : dead.Sublist g.liveNodes)
    (hdead : ∀ node ∈ dead, g.isDead node = true)
    (hrun : (dead.map Node.id).foldlM (fun g id => Prod.snd <$> g.removeNode id) g = .ok g') :
    Trimmed g g' := by
  have hlive : ∀ node ∈ dead, g.node? node.id = some node :=
    fun node hnode => h.mem_liveNodes.mp (hsub.subset hnode)
  obtain ⟨left, hleft, hindexed, hsame, hnodes⟩ := removeSublist_succeeds h hsub
  cases hleft.symm.trans hrun
  have hkept : ∀ id node, g'.node? id = some node → g.node? id = some node := by
    intro id node hnode
    rw [hnodes] at hnode
    split at hnode
    · cases hnode
    · exact hnode
  refine ⟨hindexed, hkept, ?_, hsame.inputs, hsame.outputs, ?_⟩
  · intro id node a hnode ha hsource
    rw [hasSource_iff] at hsource ⊢
    rw [hsame.inputs, hsame.initializers]
    refine hsource.imp_left ?_
    rintro ⟨source, hproducer⟩
    obtain ⟨giver, hgiver, hmem⟩ := h.producer?_eq_some_iff.mp hproducer
    -- The giver is read by a node that is left, so it is not dead.
    have hnot : source ∉ dead.map Node.id := by
      intro hsource
      obtain ⟨giver', hgiver', rfl⟩ := List.mem_map.mp hsource
      obtain rfl := Option.some.inj (hgiver.symm.trans (hlive giver' hgiver'))
      exact ((isDead_iff h).mp (hdead giver hgiver') a hmem).2 id node (hkept id node hnode) ha
    refine ⟨source, hindexed.producer?_eq_some_iff.mpr ⟨giver, ?_, hmem⟩⟩
    rw [hnodes, if_neg hnot]
    exact hgiver
  · intro a _
    rw [arg?, hsame.args]
    rfl

theorem trimmed_removeDead {fuel removed removed' : Nat} (h : g.Indexed)
    (hrun : removeDead fuel removed g = .ok (removed', g')) : Trimmed g g' := by
  induction fuel generalizing removed g with
  | zero =>
    cases hrun
    exact .refl h
  | succ fuel ih =>
    rw [removeDead] at hrun
    split at hrun
    · cases hrun
      exact .refl h
    · rw [bind_eq_ok_iff] at hrun
      obtain ⟨g₁, hg₁, hrun⟩ := hrun
      have htrimmed : Trimmed g g₁ := by
        apply trimmed_removeNodes h List.filter_sublist _ hg₁
        exact fun node hnode => (List.mem_filter.mp hnode).2
      exact htrimmed.trans (ih htrimmed.indexed hrun)

/-! ### Orphans -/

theorem initializers_removeArg {a b : ArgId} (hne : a ≠ b) (ha : a ∈ g.initializers) :
    a ∈ (g.removeArg b).initializers := by
  rw [removeArg]
  split
  · exact ha
  · exact Std.ExtTreeMap.mem_erase.mpr ⟨by simpa using Ne.symm hne, ha⟩

theorem trimmed_removeArg (h : g.Indexed) {a : ArgId} (ha : g.isOrphan a = true) :
    Trimmed g (g.removeArg a) := by
  obtain ⟨hfree, hin, hout⟩ := (isOrphan_iff h).mp ha
  obtain ⟨hnodes, hinputs, houtputs, -⟩ := removeArg_frame g a
  have hindexed := (evolves_removeArg h hfree hin hout).indexed
  have hkept : ∀ id node, (g.removeArg a).node? id = some node → g.node? id = some node := by
    intro id node hnode
    rwa [node?, hnodes] at hnode
  refine ⟨hindexed, hkept, ?_, hinputs, houtputs, ?_⟩
  · intro id node b hnode hb hsource
    have hne : b ≠ a := by
      rintro rfl
      exact (hfree id node (hkept id node hnode)).2 hb
    rw [hasSource_iff] at hsource ⊢
    rw [hinputs]
    refine hsource.imp ?_ (Or.imp_right (initializers_removeArg hne))
    rintro ⟨source, hproducer⟩
    obtain ⟨giver, hgiver, hmem⟩ := h.producer?_eq_some_iff.mp hproducer
    refine ⟨source, hindexed.producer?_eq_some_iff.mpr ⟨giver, ?_, hmem⟩⟩
    rw [node?, hnodes]
    exact hgiver
  · intro b hb
    rw [arg?_removeArg, if_neg]
    rintro rfl
    exact hb.elim hin hout

theorem trimmed_removeOrphans (h : g.Indexed) : Trimmed g g.removeOrphans := by
  rw [removeOrphans]
  refine List.foldlRecOn (motive := Trimmed g) _ _ (.refl h) ?_
  intro s hs a ha
  obtain ⟨hfree, hin, hout⟩ := (isOrphan_iff h).mp (List.mem_filter.mp ha).2
  -- Nothing is read or produced that was not before, so an orphan stays one.
  have horphan : s.isOrphan a = true := by
    rw [isOrphan_iff hs.indexed, hs.inputs, hs.outputs]
    exact ⟨fun id node hnode => hfree id node (hs.nodes id node hnode), hin, hout⟩
  exact hs.trans (trimmed_removeArg hs.indexed horphan)

theorem trimmed_collect (h : g.Indexed) {removed : Nat} (hrun : g.collect = .ok (removed, g')) :
    Trimmed g g' := by
  simp only [collect, bind_eq_ok_iff, pure_eq_ok_iff] at hrun
  obtain ⟨⟨count, g₁⟩, hg₁, heq⟩ := hrun
  cases heq
  have hdead := trimmed_removeDead h hg₁
  have horphans := hdead.trans (trimmed_removeOrphans hdead.indexed)
  exact ⟨horphans.indexed.setLog _, horphans.nodes, horphans.sources, horphans.inputs,
    horphans.outputs, horphans.args⟩

end Graph

end OpGraph
