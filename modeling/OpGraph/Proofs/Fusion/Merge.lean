import OpGraph.Proofs.Fusion.Components
import OpGraph.Proofs.Fusion.Fuse

/-!
Merging sets of nodes. The boundary of a set always poses a request, which covers exactly the nodes
that something outside the set needs. What an earlier set was merged into still reads what that set
read, so a later set is needed outside as in the first graph.
-/

namespace OpGraph

open Relation

open RegionRequest (Named ReadBy GivenBy)

namespace Graph

def Needed (g : Graph) (nodes : List NodeId) (id : NodeId) : Prop :=
  ∃ a last, GivenBy g (· ∈ nodes) a ∧ g.producer? a = some last ∧
    ReflTransGen (g.FeedsInside nodes) id last

theorem Needed.mem {g : Graph} {nodes : List NodeId} {id : NodeId} (h : g.Needed nodes id) :
    id ∈ nodes := by
  obtain ⟨a, last, ⟨⟨last', hlast', hmem⟩, -⟩, hlast, hpath⟩ := h
  cases hlast.symm.trans hlast'
  cases hpath.cases_head with
  | inl heq => exact heq ▸ hmem
  | inr hstep =>
    obtain ⟨next, hfirst, -⟩ := hstep
    exact hfirst.1

theorem Needed.live {g : Graph} (hg : g.Indexed) {nodes : List NodeId} {id : NodeId}
    (h : g.Needed nodes id) : ∃ node, g.node? id = some node := by
  obtain ⟨a, last, -, hlast, hpath⟩ := h
  rw [← hg.mem_nodeIds]
  cases hpath.cases_head with
  | inl heq => exact heq ▸ hg.mem_nodeIds_of_producer? hlast
  | inr hstep =>
    obtain ⟨next, hfirst, -⟩ := hstep
    exact (hg.mem_nodeIds_of_feeds hfirst.2.2).1

theorem Needed.head {g : Graph} {nodes : List NodeId} {id id' : NodeId}
    (h : g.Needed nodes id') (hstep : g.FeedsInside nodes id id') : g.Needed nodes id := by
  obtain ⟨a, last, hgiven, hlast, hpath⟩ := h
  exact ⟨a, last, hgiven, hlast, .head hstep hpath⟩

theorem needed_of_givenBy {g : Graph} {nodes : List NodeId} {a : ArgId} {id : NodeId}
    (hgiven : GivenBy g (· ∈ nodes) a) (hid : g.producer? a = some id) : g.Needed nodes id :=
  ⟨a, id, hgiven, hid, .refl⟩

/--
What the node in place of a set reads: also what is read only by the nodes that are not needed.
-/
def FusedReads (g : Graph) (nodes : List NodeId) (a : ArgId) : Prop :=
  (ReadBy g (· ∈ nodes) a ∧ a ∉ g.initializers) ∨ (ReadBy g (g.Needed nodes) a ∧ a ∈ g.initializers)

end Graph

namespace RegionRequest

variable {g : Graph} {r : RegionRequest} {nodes : List NodeId}

structure AsksFor (r : RegionRequest) (g : Graph) (nodes : List NodeId) : Prop where
  inputs_known : ∀ name ∈ r.inputs, (g.findArg? name).isSome
  outputs_known : ∀ name ∈ r.outputs, (g.findArg? name).isSome
  inputs : ∀ a, Named g r.inputs a ↔ ReadBy g (· ∈ nodes) a ∧ a ∉ g.initializers
  outputs : ∀ a, Named g r.outputs a ↔ GivenBy g (· ∈ nodes) a
  constants : r.constants = []

theorem componentBoundary_succeeds (h : g.Indexed) (hlive : ∀ id ∈ nodes, id ∈ g.nodeIds) :
    ∃ inputs outputs, g.componentBoundary nodes = .ok (inputs, outputs) ∧
      ∀ name tag, AsksFor ⟨name, inputs, outputs, [], tag⟩ g nodes := by
  have hmem : ∀ id, id ∈ Std.ExtTreeSet.ofList nodes compare ↔ id ∈ nodes := by
    intro id
    rw [Std.ExtTreeSet.mem_ofList, List.contains_iff_mem]
  have hinside : ∀ id ∈ Std.ExtTreeSet.ofList nodes compare, id ∈ g.nodeIds :=
    fun id hid => hlive id ((hmem id).mp hid)
  obtain ⟨read, hread, tread⟩ := readFrom_succeeds h hinside
  obtain ⟨given, hgiven, tgiven⟩ := addOutputs_succeeds h hinside Tabulates.empty
  simp only [hmem, false_or] at tread tgiven
  refine ⟨(read.toList.filter fun entry => !g.isInitializer entry.2).map Prod.fst, given.keys,
    ?_, ?_⟩
  · unfold Graph.componentBoundary
    dsimp only
    rw [hread, hgiven, ok_bind, ok_bind]
    rfl
  · intro name tag
    have hinputs : ∀ name', name' ∈ (read.toList.filter fun entry => !g.isInitializer entry.2).map
        Prod.fst ↔ ∃ a, (ReadBy g (· ∈ nodes) a ∧ g.findArg? name' = some a) ∧
          a ∉ g.initializers := by
      intro name'
      simp only [List.mem_map, List.mem_filter, Prod.exists, exists_and_right, exists_eq_right,
        tread.mem_toList_iff, Bool.not_eq_true', ← Bool.not_eq_true, Graph.isInitializer_iff]
    constructor
    case inputs_known =>
      intro name' hname'
      obtain ⟨a, ⟨-, ha⟩, -⟩ := (hinputs name').mp hname'
      simp [ha]
    case outputs_known =>
      intro name' hname'
      rw [Std.ExtTreeMap.mem_keys, tgiven.mem_iff] at hname'
      obtain ⟨a, -, ha⟩ := hname'
      simp [ha]
    case inputs =>
      intro a
      unfold Named
      simp only [hinputs]
      constructor
      · rintro ⟨name', ⟨a', ⟨hread', ha'⟩, hinit⟩, ha⟩
        cases ha.symm.trans ha'
        exact ⟨hread', hinit⟩
      · rintro ⟨hread', hinit⟩
        obtain ⟨name', hname'⟩ := hread'.findArg? h
        exact ⟨name', ⟨a, ⟨hread', hname'⟩, hinit⟩, hname'⟩
    case outputs =>
      intro a
      exact tgiven.named_keys_iff fun a ha => ha.findArg? h
    case constants => rfl

namespace AsksFor

variable (hr : r.AsksFor g nodes)

include hr

theorem onBoundary_iff {a : ArgId} :
    r.OnBoundary g a ↔ ReadBy g (· ∈ nodes) a ∧ a ∉ g.initializers := by
  unfold OnBoundary
  rw [hr.inputs, hr.constants]
  simp [Named]

theorem wellPosed (hne : r.outputs ≠ []) : r.WellPosed g where
  inputs_known := hr.inputs_known
  outputs_known := hr.outputs_known
  constants_known := by simp [hr.constants]
  outputs_nonempty := hne
  outputs_produced := by
    intro a ha
    obtain ⟨⟨id, hid, hmem⟩, -⟩ := (hr.outputs a).mp ha
    constructor
    · rw [hid]
      rfl
    · rw [hr.onBoundary_iff]
      rintro ⟨hread, -⟩
      exact hread.2 id hid hmem

theorem pullsFrom_iff (h : g.Indexed) {source target : NodeId} (htarget : target ∈ nodes) :
    g.PullsFrom (r.OnBoundary g) target source ↔ g.FeedsInside nodes source target := by
  constructor
  · rintro ⟨node, a, hnode, ha, hopen, hsource⟩
    refine ⟨?_, htarget, node, a, hnode, ha, hsource⟩
    by_contra hout
    apply hopen
    rw [hr.onBoundary_iff]
    refine ⟨⟨⟨target, node, htarget, hnode, ha⟩, ?_⟩, (h.produced_internal a source hsource).2⟩
    intro id hid
    cases hsource.symm.trans hid
    exact hout
  · rintro ⟨hmem, -, node, a, hnode, ha, hsource⟩
    refine ⟨node, a, hnode, ha, ?_, hsource⟩
    rw [hr.onBoundary_iff]
    rintro ⟨hread, -⟩
    exact hread.2 source hsource hmem

theorem covers_iff (h : g.Indexed) {id : NodeId} : r.Covers g id ↔ g.Needed nodes id := by
  unfold Covers Graph.Needed
  simp only [hr.outputs]
  constructor
  · rintro ⟨a, first, ha, hfirst, hpath⟩
    refine ⟨a, first, ha, hfirst, ?_⟩
    induction hpath with
    | refl => exact .refl
    | tail _ hlast ih =>
      have hneeded : g.Needed nodes _ := ⟨a, first, ha, hfirst, ih⟩
      exact .head ((hr.pullsFrom_iff h hneeded.mem).mp hlast) ih
  · rintro ⟨a, first, ha, hfirst, hpath⟩
    refine ⟨a, first, ha, hfirst, ?_⟩
    induction hpath using ReflTransGen.head_induction_on with
    | refl => exact .refl
    | head hstep _ ih => exact ih.tail ((hr.pullsFrom_iff h hstep.2.1).mpr hstep)

end AsksFor

end RegionRequest

/-! ### One set -/

namespace Graph

variable {g g' : Graph} {nodes : List NodeId}

/-- One node has taken the place of the nodes of a set that are needed. -/
structure Merged (g : Graph) (nodes : List NodeId) (id : NodeId) (g' : Graph) : Prop where
  fresh : g.node? id = none
  fused : ∃ node, g'.node? id = some node ∧ node.key = OpKey.fusedSubgraph ∧
    (∀ a, a ∈ node.presentInputs ↔ g.FusedReads nodes a) ∧
    (∀ a, a ∈ node.presentOutputs ↔ GivenBy g (g.Needed nodes) a)
  removed : ∀ id', id' ≠ id → g.Needed nodes id' → g'.node? id' = none
  kept : ∀ id', id' ≠ id → ¬ g.Needed nodes id' → g'.node? id' = g.node? id'
  sameArgs : SameArgs g g'
  evolves : Evolves g g'

structure KeepsValid (g g' : Graph) : Prop where
  consistent : g.Consistent → g'.Consistent
  sourced : g.Sourced → g'.Sourced
  acyclic : g.Acyclic → g'.Acyclic

theorem KeepsValid.refl (g : Graph) : KeepsValid g g :=
  ⟨id, id, id⟩

theorem KeepsValid.trans {g₁ g₂ g₃ : Graph} (h : KeepsValid g₁ g₂) (h' : KeepsValid g₂ g₃) :
    KeepsValid g₁ g₃ :=
  ⟨h'.consistent ∘ h.consistent, h'.sourced ∘ h.sourced, h'.acyclic ∘ h.acyclic⟩

end Graph

theorem Region.evolves_fuse {g g' : Graph} (h : g.Indexed) {sub : Region} {id : NodeId}
    (hrun : sub.fuse g = .ok id g') : Graph.Evolves g g' := by
  unfold Region.fuse at hrun
  split at hrun
  · cases hrun
  · split at hrun
    · unfold Region.replace at hrun
      split at hrun
      · cases hrun
      · next left hleft =>
        have hev := Graph.evolves_removeNodes h hleft
        split at hrun
        · next id' g₁ hadd =>
          cases hrun
          exact hev.trans (Graph.evolves_addNode hev.indexed (by rw [Graph.settle, hadd]))
        · cases hrun
    · cases hrun

namespace RegionRequest

variable {g g' : Graph} {r : RegionRequest} {nodes : List NodeId} {o : Outline} {sub : Region}

theorem named_append_iff {names names' : List String} {a : ArgId} :
    Named g (names ++ names') a ↔ Named g names a ∨ Named g names' a := by
  simp only [Named, List.mem_append, or_and_right, exists_or]

theorem merged_of_fused (h : g.Indexed) (hr : r.AsksFor g nodes) (hs : Accepted r g o sub)
    {id : NodeId} (hfused : sub.Fused g id g') (hev : Graph.Evolves g g') :
    g.Merged nodes id g' := by
  have hcovers : r.Covers g = g.Needed nodes := funext fun id => propext (hr.covers_iff h)
  have hmem : ∀ id', id' ∈ sub.nodes ↔ g.Needed nodes id' := by
    intro id'
    rw [hs.mem_nodes_iff, hcovers]
  constructor
  case fresh => exact hfused.fresh
  case fused =>
    obtain ⟨node, hnode, hkey, hinputs, houtputs⟩ := hfused.fused
    refine ⟨node, hnode, hkey, ?_, ?_⟩
    · intro a
      rw [Node.presentInputs, hinputs, Region.mem_present_map_findArg?, named_append_iff,
        hs.named_inputs_iff, hs.named_constants_iff h, hr.inputs, hr.constants, hcovers]
      unfold Graph.FusedReads
      grind [Named]
    · intro a
      rw [Node.presentOutputs, houtputs, Region.mem_present_map_findArg?, hs.named_outputs_iff h,
        hr.outputs, hcovers, or_iff_right_iff_imp]
      -- What the set gives is produced by a needed node and read outside the needed ones.
      rintro ⟨⟨source, hsource, hin⟩, huse⟩
      refine ⟨⟨source, hsource, Graph.needed_of_givenBy ⟨⟨source, hsource, hin⟩, huse⟩ hsource⟩, ?_⟩
      rcases huse with hout | ⟨reader, node', hreader, hnode', ha⟩
      · exact .inl hout
      · exact .inr ⟨reader, node', fun hneeded => hreader hneeded.mem, hnode', ha⟩
  case removed =>
    intro id' hne hneeded
    rw [hfused.others id' hne, if_pos ((hmem id').mpr hneeded)]
  case kept =>
    intro id' hne hneeded
    rw [hfused.others id' hne, if_neg (mt (hmem id').mp hneeded)]
  case sameArgs => exact hfused.sameArgs
  case evolves => exact hev

theorem keepsValid_of_fused (h : g.Indexed) (hr : r.AsksFor g nodes) (hs : Accepted r g o sub)
    {id : NodeId} (h' : g'.Indexed) (hfused : sub.Fused g id g') : g.KeepsValid g' where
  consistent := hs.consistent_fused h h' hfused
  sourced := by
    intro hsourced
    apply hs.sourced_fused h h' hfused hsourced
    intro a ha
    obtain ⟨⟨⟨target, node, -, hnode, hmem⟩, -⟩, -⟩ := hr.onBoundary_iff.mp ha
    exact hsourced target node a hnode hmem
  acyclic := hs.acyclic_fused h h' hfused

end RegionRequest

/-! ### Set after set -/

namespace Graph

/-- The graph after some sets of nodes, one after another, were each merged into a new node. -/
structure MergedAll (g : Graph) (merges : List (NodeId × List NodeId)) (g' : Graph) : Prop where
  fused : ∀ id nodes, (id, nodes) ∈ merges → g.node? id = none ∧ ∃ node, g'.node? id = some node ∧
    node.key = OpKey.fusedSubgraph ∧ (∀ a, a ∈ node.presentInputs ↔ g.FusedReads nodes a) ∧
    (∀ a, a ∈ node.presentOutputs ↔ GivenBy g (g.Needed nodes) a)
  distinct : (merges.map Prod.fst).Nodup
  removed : ∀ id, (∃ m ∈ merges, g.Needed m.2 id) → g'.node? id = none
  kept : ∀ id, (∀ m ∈ merges, id ≠ m.1 ∧ ¬ g.Needed m.2 id) → g'.node? id = g.node? id
  sameArgs : SameArgs g g'
  evolves : Evolves g g'

theorem MergedAll.nil {g : Graph} (h : g.Indexed) : g.MergedAll [] g where
  fused := by simp
  distinct := by simp
  removed := by simp
  kept := by simp
  sameArgs := .refl g
  evolves := .refl h

structure Untouched (g g₁ : Graph) (nodes : List NodeId) : Prop where
  node?_eq : ∀ id ∈ nodes, g₁.node? id = g.node? id
  producer?_iff : ∀ id ∈ nodes, ∀ a, g₁.producer? a = some id ↔ g.producer? a = some id
  used_iff : ∀ id ∈ nodes, ∀ a, g.producer? a = some id →
    ((∃ reader node, reader ∉ nodes ∧ g₁.node? reader = some node ∧ a ∈ node.presentInputs) ↔
      ∃ reader node, reader ∉ nodes ∧ g.node? reader = some node ∧ a ∈ node.presentInputs)
  outputs : g₁.outputs = g.outputs
  initializers : g₁.initializers = g.initializers

theorem Untouched.refl (g : Graph) (nodes : List NodeId) : g.Untouched g nodes where
  node?_eq _ _ := rfl
  producer?_iff _ _ _ := .rfl
  used_iff _ _ _ _ := .rfl
  outputs := rfl
  initializers := rfl

namespace Untouched

variable {g g₁ : Graph} {nodes : List NodeId} (hu : g.Untouched g₁ nodes) {s : NodeId → Prop}
  (hs : ∀ id, s id → id ∈ nodes)

include hu

theorem feedsInside_eq : g₁.FeedsInside nodes = g.FeedsInside nodes := by
  funext source target
  unfold FeedsInside Feeds
  apply propext
  apply and_congr_right
  intro hsource
  apply and_congr_right
  intro htarget
  simp only [hu.node?_eq target htarget, hu.producer?_iff source hsource]

include hs

theorem readBy_eq : ReadBy g₁ s = ReadBy g s := by
  funext a
  unfold ReadBy
  apply propext
  constructor
  · rintro ⟨⟨id, node, hid, hnode, ha⟩, hout⟩
    rw [hu.node?_eq id (hs id hid)] at hnode
    refine ⟨⟨id, node, hid, hnode, ha⟩, ?_⟩
    intro source hsource hin
    exact hout source ((hu.producer?_iff source (hs source hin) a).mpr hsource) hin
  · rintro ⟨⟨id, node, hid, hnode, ha⟩, hout⟩
    rw [← hu.node?_eq id (hs id hid)] at hnode
    refine ⟨⟨id, node, hid, hnode, ha⟩, ?_⟩
    intro source hsource hin
    exact hout source ((hu.producer?_iff source (hs source hin) a).mp hsource) hin

theorem usedOutside_iff {a : ArgId} {source : NodeId} (hsource : source ∈ nodes)
    (ha : g.producer? a = some source) :
    (∃ id node, ¬ s id ∧ g₁.node? id = some node ∧ a ∈ node.presentInputs) ↔
      ∃ id node, ¬ s id ∧ g.node? id = some node ∧ a ∈ node.presentInputs := by
  -- A reader outside `s` is another node of the set or a node outside the set.
  have hsplit : ∀ g' : Graph,
      (∃ id node, ¬ s id ∧ g'.node? id = some node ∧ a ∈ node.presentInputs) ↔
        (∃ id ∈ nodes, ∃ node, ¬ s id ∧ g'.node? id = some node ∧ a ∈ node.presentInputs) ∨
          ∃ id node, id ∉ nodes ∧ g'.node? id = some node ∧ a ∈ node.presentInputs := by
    grind
  rw [hsplit, hsplit, hu.used_iff source hsource a ha]
  apply or_congr_left
  constructor
  · rintro ⟨id, hid, node, hout, hnode, hmem⟩
    exact ⟨id, hid, node, hout, hu.node?_eq id hid ▸ hnode, hmem⟩
  · rintro ⟨id, hid, node, hout, hnode, hmem⟩
    exact ⟨id, hid, node, hout, (hu.node?_eq id hid).symm ▸ hnode, hmem⟩

theorem givenBy_eq : GivenBy g₁ s = GivenBy g s := by
  funext a
  unfold GivenBy
  rw [hu.outputs]
  apply propext
  constructor
  · rintro ⟨⟨source, hsource, hin⟩, huse⟩
    rw [hu.producer?_iff source (hs source hin)] at hsource
    rw [hu.usedOutside_iff hs (hs source hin) hsource] at huse
    exact ⟨⟨source, hsource, hin⟩, huse⟩
  · rintro ⟨⟨source, hsource, hin⟩, huse⟩
    rw [← hu.usedOutside_iff hs (hs source hin) hsource] at huse
    rw [← hu.producer?_iff source (hs source hin)] at hsource
    exact ⟨⟨source, hsource, hin⟩, huse⟩

omit hs

theorem needed_eq : g₁.Needed nodes = g.Needed nodes := by
  funext id
  unfold Needed
  rw [hu.feedsInside_eq, hu.givenBy_eq fun _ hid => hid]
  apply propext
  constructor
  · rintro ⟨a, last, hgiven, hlast, hpath⟩
    obtain ⟨last', hlast', hin⟩ := hgiven.1
    rw [← hu.producer?_iff last' hin, hlast] at hlast'
    cases hlast'
    rw [hu.producer?_iff last hin] at hlast
    exact ⟨a, last, hgiven, hlast, hpath⟩
  · rintro ⟨a, last, hgiven, hlast, hpath⟩
    obtain ⟨last', hlast', hin⟩ := hgiven.1
    cases hlast.symm.trans hlast'
    rw [← hu.producer?_iff last hin] at hlast
    exact ⟨a, last, hgiven, hlast, hpath⟩

theorem fusedReads_eq : g₁.FusedReads nodes = g.FusedReads nodes := by
  unfold FusedReads
  rw [hu.needed_eq, hu.readBy_eq fun _ hid => hid, hu.readBy_eq fun _ hid => Needed.mem hid,
    hu.initializers]

theorem live (h : g.Indexed) (h₁ : g₁.Indexed) (hlive : ∀ id ∈ nodes, id ∈ g.nodeIds) :
    ∀ id ∈ nodes, id ∈ g₁.nodeIds := by
  intro id hid
  rw [h₁.mem_nodeIds, hu.node?_eq id hid, ← h.mem_nodeIds]
  exact hlive id hid

end Untouched

namespace MergedAll

variable {g g₁ : Graph} {merges : List (NodeId × List NodeId)} (h : g.Indexed)
  (hm : g.MergedAll merges g₁)

include hm

theorem node?_cases {id : NodeId} {node : Node} (hnode : g₁.node? id = some node) :
    (∃ nodes, (id, nodes) ∈ merges) ∨
      ((∀ m ∈ merges, ¬ g.Needed m.2 id) ∧ g.node? id = some node) := by
  by_cases hfused : ∃ nodes, (id, nodes) ∈ merges
  · exact .inl hfused
  · right
    have hneeded : ∀ m ∈ merges, ¬ g.Needed m.2 id := by
      intro m hmem hneeded
      rw [hm.removed id ⟨m, hmem, hneeded⟩] at hnode
      cases hnode
    refine ⟨hneeded, ?_⟩
    rw [← hm.kept id, hnode]
    intro m hmem
    refine ⟨?_, hneeded m hmem⟩
    rintro rfl
    exact hfused ⟨m.2, hmem⟩

theorem node?_of_not_needed {id : NodeId} {node : Node} (hnode : g.node? id = some node)
    (hneeded : ∀ m ∈ merges, ¬ g.Needed m.2 id) : g₁.node? id = some node := by
  rw [hm.kept id, hnode]
  intro m hmem
  refine ⟨?_, hneeded m hmem⟩
  rintro rfl
  rw [(hm.fused m.1 m.2 hmem).1] at hnode
  cases hnode

include h

theorem producer?_iff {a : ArgId} {source : NodeId} (hsource : source ∈ g.nodeIds)
    (hneeded : ∀ m ∈ merges, ¬ g.Needed m.2 source) :
    g₁.producer? a = some source ↔ g.producer? a = some source := by
  obtain ⟨node, hnode⟩ := h.mem_nodeIds.mp hsource
  rw [h.producer?_eq_some_iff, hm.evolves.indexed.producer?_eq_some_iff, hnode,
    hm.node?_of_not_needed hnode hneeded]

theorem untouched {nodes : List NodeId} (hlive : ∀ id ∈ nodes, id ∈ g.nodeIds)
    (hdisjoint : ∀ m ∈ merges, m.2.Disjoint nodes) : g.Untouched g₁ nodes := by
  have hnode? : ∀ id ∈ nodes, g₁.node? id = g.node? id := by
    intro id hid
    obtain ⟨node, hnode⟩ := h.mem_nodeIds.mp (hlive id hid)
    rw [hnode]
    apply hm.node?_of_not_needed hnode
    intro m hmem hneeded
    exact hdisjoint m hmem hneeded.mem hid
  constructor
  case node?_eq => exact hnode?
  case producer?_iff =>
    intro id hid a
    rw [h.producer?_eq_some_iff, hm.evolves.indexed.producer?_eq_some_iff, hnode? id hid]
  case used_iff =>
    intro source hsource a ha
    have hinit := (h.produced_internal a source ha).2
    constructor
    · rintro ⟨id, node, hid, hnode, hmem⟩
      rcases hm.node?_cases hnode with ⟨nodes', hin⟩ | ⟨-, hnode'⟩
      · -- A fused node reads the arg because a node of its set did.
        obtain ⟨-, node', hnode', -, hreads, -⟩ := hm.fused id nodes' hin
        cases hnode.symm.trans hnode'
        rcases (hreads a).mp hmem with ⟨hread, -⟩ | ⟨-, hinit'⟩
        · obtain ⟨reader, node', hreader, hnode', hmem'⟩ := hread.1
          exact ⟨reader, node', hdisjoint _ hin hreader, hnode', hmem'⟩
        · exact absurd hinit' hinit
      · exact ⟨id, node, hid, hnode', hmem⟩
    · rintro ⟨id, node, hid, hnode, hmem⟩
      by_cases hgone : ∃ m ∈ merges, g.Needed m.2 id
      · obtain ⟨⟨fused, nodes'⟩, hin, hneeded⟩ := hgone
        obtain ⟨hfresh, node', hnode', -, hreads, -⟩ := hm.fused fused nodes' hin
        have hread : ReadBy g (· ∈ nodes') a := by
          refine ⟨⟨id, node, hneeded.mem, hnode, hmem⟩, ?_⟩
          intro source' hsource' hin'
          cases ha.symm.trans hsource'
          exact hdisjoint _ hin hin' hsource
        refine ⟨fused, node', ?_, hnode', (hreads a).mpr (.inl ⟨hread, hinit⟩)⟩
        intro hfused
        obtain ⟨node'', hnode''⟩ := h.mem_nodeIds.mp (hlive fused hfused)
        rw [hfresh] at hnode''
        cases hnode''
      · refine ⟨id, node, hid, hm.node?_of_not_needed hnode ?_, hmem⟩
        intro m hmem' hneeded
        exact hgone ⟨m, hmem', hneeded⟩
  case outputs => exact hm.sameArgs.outputs
  case initializers => exact hm.sameArgs.initializers

theorem snoc {nodes : List NodeId} (hu : g.Untouched g₁ nodes) {id : NodeId} {g₂ : Graph}
    (hstep : g₁.Merged nodes id g₂) : g.MergedAll (merges ++ [(id, nodes)]) g₂ := by
  have hneeded := hu.needed_eq
  have hgiven : GivenBy g₁ (g.Needed nodes) = GivenBy g (g.Needed nodes) :=
    hu.givenBy_eq fun _ hid => Needed.mem hid
  obtain ⟨node, hnode, hkey, hreads, hgives⟩ := hstep.fused
  rw [hneeded, hgiven] at hgives
  rw [hu.fusedReads_eq] at hreads
  -- The handle of the new node was never in use: a handle that is gone does not come back.
  have hfresh : g.node? id = none := by
    rw [Option.eq_none_iff_forall_ne_some]
    intro old hold
    have hlt : id.index < g.nodes.size := by
      rw [node?_eq_some_iff] at hold
      exact (Array.getElem?_eq_some_iff.mp hold).1
    have hlt₁ := Nat.lt_of_lt_of_le hlt hm.evolves.nodes_grow
    rw [hstep.evolves.nodes_gone id hlt₁ hstep.fresh] at hnode
    cases hnode
  have hother : ∀ m ∈ merges, m.1 ≠ id := by
    rintro m hmem rfl
    obtain ⟨-, node', hnode', -⟩ := hm.fused m.1 m.2 hmem
    rw [hstep.fresh] at hnode'
    cases hnode'
  have hapart : ∀ m ∈ merges, ¬ g₁.Needed nodes m.1 := by
    intro m hmem hin
    obtain ⟨hfresh', node', hnode', -⟩ := hm.fused m.1 m.2 hmem
    rw [hu.node?_eq m.1 hin.mem, hfresh'] at hnode'
    cases hnode'
  have hne : ∀ nodes' id', g.Needed nodes' id' → id' ≠ id := by
    rintro nodes' id' hin rfl
    obtain ⟨node', hnode'⟩ := hin.live h
    rw [hfresh] at hnode'
    cases hnode'
  constructor
  case fused =>
    intro id' nodes' hmem
    rcases List.mem_append.mp hmem with hmem | hmem
    · obtain ⟨hfresh', hnode'⟩ := hm.fused id' nodes' hmem
      refine ⟨hfresh', ?_⟩
      rw [hstep.kept id' (hother _ hmem) (hapart _ hmem)]
      exact hnode'
    · cases List.mem_singleton.mp hmem
      exact ⟨hfresh, node, hnode, hkey, hreads, hgives⟩
  case distinct =>
    rw [List.map_append, List.nodup_append]
    refine ⟨hm.distinct, by simp, ?_⟩
    intro id' hid' id'' hid''
    obtain ⟨m, hmem, rfl⟩ := List.mem_map.mp hid'
    cases List.mem_singleton.mp hid''
    exact hother m hmem
  case removed =>
    rintro id' ⟨m, hmem, hin⟩
    rcases List.mem_append.mp hmem with hmem | hmem
    · by_cases hlast : g₁.Needed nodes id'
      · exact hstep.removed id' (hne _ _ hin) hlast
      · rw [hstep.kept id' (hne _ _ hin) hlast]
        exact hm.removed id' ⟨m, hmem, hin⟩
    · cases List.mem_singleton.mp hmem
      apply hstep.removed id' (hne _ _ hin)
      rw [hneeded]
      exact hin
  case kept =>
    intro id' hall
    have hlast := hall (id, nodes) (by simp)
    rw [← hneeded] at hlast
    rw [hstep.kept id' hlast.1 hlast.2]
    apply hm.kept
    intro m hmem
    exact hall m (List.mem_append_left _ hmem)
  case sameArgs => exact hm.sameArgs.trans hstep.sameArgs
  case evolves => exact hm.evolves.trans hstep.evolves

end MergedAll

theorem Merged.mergedAll {g g' : Graph} {nodes : List NodeId} {id : NodeId} (h : g.Indexed)
    (hm : g.Merged nodes id g') : g.MergedAll [(id, nodes)] g' :=
  (MergedAll.nil h).snoc h (.refl g nodes) hm

end Graph

end OpGraph
