import OpGraph.Fusion.Fuse
import OpGraph.Proofs.FreshName
import OpGraph.Proofs.Fusion.Loop

/-!
Accepted regions fuse. The request of a region is accepted again and gives the same region; its
nodes can be removed and the one node in their place is admitted; the edges of the new graph are
those of the merged graph, so it has no cycle.
-/

namespace OpGraph

open Relation

/-! ### Asking again -/

/-- The region of a graph is still there in another one, whatever has become of the rest. -/
structure Region.KeptIn (sub : Region) (g g' : Graph) : Prop where
  indexed : g'.Indexed
  sameArgs : Graph.SameArgs g g'
  nodes : ∀ id ∈ sub.nodes, g'.node? id = g.node? id

namespace Region.KeptIn

variable {sub : Region} {g g' : Graph}

theorem refl (h : g.Indexed) : sub.KeptIn g g :=
  ⟨h, .refl g, fun _ _ => rfl⟩

theorem findArg? (hkept : sub.KeptIn g g') : g'.findArg? = g.findArg? :=
  hkept.sameArgs.findArg?

end Region.KeptIn

namespace RegionRequest

variable {g : Graph} {r : RegionRequest}

theorem Covers.trans {id id' : NodeId} (h : r.Covers g id)
    (hpath : ReflTransGen (g.PullsFrom (r.OnBoundary g)) id id') : r.Covers g id' := by
  obtain ⟨a, first, ha, hfirst, hpath'⟩ := h
  exact ⟨a, first, ha, hfirst, hpath'.trans hpath⟩

theorem GivenBy.findArg? (h : g.Indexed) {covered : NodeId → Prop} {a : ArgId}
    (ha : GivenBy g covered a) : ∃ name, g.findArg? name = some a := by
  obtain ⟨⟨id, hid, -⟩, -⟩ := ha
  obtain ⟨node, hnode, hmem⟩ := h.producer?_eq_some_iff.mp hid
  exact findArg?_of_live h (h.produces_live id node a hnode hmem)

structure Accepted (r : RegionRequest) (g : Graph) (o : Outline) (sub : Region) : Prop where
  posed : r.WellPosed g
  outline : o.Describes r g
  declared : ¬ r.ReadsUndeclared g
  independent : ¬ r.FeedsBoundary g
  region : IsRegion r g o sub

theorem accepted_of_find (h : g.Indexed) {sub : Region} (hfind : r.find g = .ok sub) :
    ∃ o, Accepted r g o sub := by
  have hrun := hfind
  rw [find, bind_eq_ok_iff] at hrun
  obtain ⟨o, ho, -⟩ := hrun
  have hr := wellPosed_of_outline h ho
  obtain ⟨o', ho', hdescribes⟩ := outline_succeeds h hr
  cases ho.symm.trans ho'
  rcases find_of_outline h ho hdescribes with ⟨-, via, hvia⟩ | ⟨hnone, region, hregion, his⟩
  · rw [hfind] at hvia
    cases hvia
  · cases hfind.symm.trans hregion
    exact ⟨o, hr, hdescribes, fun hloop => hnone (.inl hloop), fun hloop => hnone (.inr hloop), his⟩

namespace Accepted

variable {o : Outline} {sub : Region} (h : g.Indexed) (hs : Accepted r g o sub)

include hs

theorem named_inputs_iff {a : ArgId} : Named g sub.boundary.inputs a ↔ Named g r.inputs a := by
  rw [hs.region.inputs]
  exact hs.outline.inputs.named_keys_iff fun a ha => ha.findArg?

theorem mem_nodes_iff {id : NodeId} : id ∈ sub.nodes ↔ r.Covers g id := by
  rw [hs.region.nodes, Std.ExtTreeSet.mem_toList, hs.outline.covered]

theorem not_onBoundary_of_covers {a : ArgId} {id : NodeId} (ha : g.producer? a = some id)
    (hid : r.Covers g id) : ¬ r.OnBoundary g a :=
  fun hboundary => hs.independent ⟨a, id, id, hboundary, ha, hid, .refl⟩

include h

theorem named_constants_iff {a : ArgId} : Named g sub.boundary.constants a ↔
    Named g r.constants a ∨
      (ReadBy g (r.Covers g) a ∧ a ∈ g.initializers ∧ ¬ Named g r.inputs a) := by
  rw [hs.region.constants]
  exact hs.outline.constants.named_keys_iff fun a ha =>
    ha.elim Named.findArg? fun hr => hr.1.findArg? h

theorem named_outputs_iff {a : ArgId} : Named g sub.boundary.outputs a ↔
    Named g r.outputs a ∨ GivenBy g (r.Covers g) a := by
  obtain ⟨outputs, houtputs, toutputs⟩ := hs.region.outputs
  rw [houtputs]
  exact toutputs.named_keys_iff fun a ha => ha.elim Named.findArg? fun hg => hg.findArg? h

/-- The boundary of the region adds only initializers, which are not produced. -/
theorem onBoundary_iff {a : ArgId} {id : NodeId} (ha : g.producer? a = some id) :
    sub.boundary.request.OnBoundary g a ↔ r.OnBoundary g a := by
  have hinit := (h.produced_internal a id ha).2
  simp only [OnBoundary, Boundary.request, hs.named_inputs_iff, hs.named_constants_iff h]
  grind

theorem produced_of_named_outputs {a : ArgId} (ha : Named g sub.boundary.outputs a) :
    ∃ id, g.producer? a = some id ∧ r.Covers g id := by
  rcases (hs.named_outputs_iff h).mp ha with ha | ⟨hid, -⟩
  · obtain ⟨id, hid⟩ := Option.isSome_iff_exists.mp (hs.posed.outputs_produced a ha).1
    exact ⟨id, hid, a, id, ha, hid, .refl⟩
  · exact hid

theorem reads_named {id : NodeId} (hid : id ∈ sub.nodes) {node : Node}
    (hnode : g.node? id = some node) {a : ArgId} (ha : a ∈ node.presentInputs) :
    (∃ source ∈ sub.nodes, g.producer? a = some source) ∨
      Named g sub.boundary.inputs a ∨ Named g sub.boundary.constants a := by
  by_cases hinside : ∃ source ∈ sub.nodes, g.producer? a = some source
  · exact .inl hinside
  · right
    have hread : ReadBy g (r.Covers g) a := by
      constructor
      · exact ⟨id, node, hs.mem_nodes_iff.mp hid, hnode, ha⟩
      · intro source hsource hcovers
        exact hinside ⟨source, hs.mem_nodes_iff.mpr hcovers, hsource⟩
    rw [hs.named_inputs_iff, hs.named_constants_iff h]
    -- What is read from outside was declared or is an initializer.
    by_contra hnot
    simp only [not_or, not_and, not_not] at hnot
    apply hs.declared
    refine ⟨a, hread, not_or_intro hnot.1 hnot.2.1, ?_⟩
    intro hinit
    exact hnot.1 (hnot.2.2 hread hinit)

section Kept

variable {g' : Graph} (hkept : sub.KeptIn g g')

include hkept

omit h hs in
theorem named_kept_iff {names : List String} {a : ArgId} :
    Named g' names a ↔ Named g names a := by
  simp only [Named, hkept.findArg?]

omit hs in
theorem producer?_kept {a : ArgId} {id : NodeId} (hid : id ∈ sub.nodes) :
    g'.producer? a = some id ↔ g.producer? a = some id := by
  rw [hkept.indexed.producer?_eq_some_iff, h.producer?_eq_some_iff, hkept.nodes id hid]

theorem covers_kept_iff {id : NodeId} : sub.boundary.request.Covers g' id ↔ id ∈ sub.nodes := by
  constructor
  · rintro ⟨a, first, ha, hfirst, hpath⟩
    induction hpath with
    | refl =>
      obtain ⟨id, hid, hcovers⟩ := hs.produced_of_named_outputs h ((named_kept_iff hkept).mp ha)
      have hmem := hs.mem_nodes_iff.mpr hcovers
      cases hfirst.symm.trans ((producer?_kept h hkept hmem).mpr hid)
      exact hmem
    | tail _ hstep hmem =>
      obtain ⟨node, b, hnode, hb, hopen, hsource⟩ := hstep
      rw [hkept.nodes _ hmem] at hnode
      rcases hs.reads_named h hmem hnode hb with ⟨source, hinside, hproducer⟩ | hnamed
      · cases hsource.symm.trans ((producer?_kept h hkept hinside).mpr hproducer)
        exact hinside
      · simp only [OnBoundary, Boundary.request, named_kept_iff hkept] at hopen
        exact absurd hnamed hopen
  · intro hmem
    obtain ⟨a, first, ha, hfirst, hpath⟩ := hs.mem_nodes_iff.mp hmem
    have hcovers : r.Covers g first := ⟨a, first, ha, hfirst, .refl⟩
    have hnamed : Named g' sub.boundary.outputs a :=
      (named_kept_iff hkept).mpr ((hs.named_outputs_iff h).mpr (.inl ha))
    have hstart := (producer?_kept h hkept (hs.mem_nodes_iff.mpr hcovers)).mpr hfirst
    refine ⟨a, first, hnamed, hstart, ?_⟩
    clear hmem
    induction hpath with
    | refl => exact .refl
    | tail hpath hstep ih =>
      have hmem := hs.mem_nodes_iff.mpr (hcovers.trans hpath)
      have hmem' := hs.mem_nodes_iff.mpr ((hcovers.trans hpath).trans (.single hstep))
      obtain ⟨node, b, hnode, hb, hopen, hsource⟩ := hstep
      refine ih.tail ⟨node, b, ?_, hb, ?_, (producer?_kept h hkept hmem').mpr hsource⟩
      · rw [hkept.nodes _ hmem, hnode]
      · rw [← hs.onBoundary_iff h hsource] at hopen
        simp only [OnBoundary, Boundary.request, named_kept_iff hkept] at hopen ⊢
        exact hopen

theorem wellPosed_kept : sub.boundary.request.WellPosed g' where
  inputs_known name hname := by
    have hmem : name ∈ o.inputs := by
      rw [← Std.ExtTreeMap.mem_keys, ← hs.region.inputs]
      exact hname
    obtain ⟨a, -, ha⟩ := hs.outline.inputs.mem_iff.mp hmem
    simp [hkept.findArg?, ha]
  outputs_known name hname := by
    obtain ⟨outputs, houtputs, toutputs⟩ := hs.region.outputs
    have hmem : name ∈ outputs := by
      rw [← Std.ExtTreeMap.mem_keys, ← houtputs]
      exact hname
    obtain ⟨a, -, ha⟩ := toutputs.mem_iff.mp hmem
    simp [hkept.findArg?, ha]
  constants_known name hname := by
    have hmem : name ∈ o.constants := by
      rw [← Std.ExtTreeMap.mem_keys, ← hs.region.constants]
      exact hname
    obtain ⟨a, -, ha⟩ := hs.outline.constants.mem_iff.mp hmem
    simp [hkept.findArg?, ha]
  outputs_nonempty := by
    obtain ⟨name, rest, heq⟩ := List.exists_cons_of_ne_nil hs.posed.outputs_nonempty
    have hname : name ∈ r.outputs := by rw [heq]; exact List.mem_cons_self
    obtain ⟨a, ha⟩ := Option.isSome_iff_exists.mp (hs.posed.outputs_known name hname)
    obtain ⟨name', hname', -⟩ := (hs.named_outputs_iff h).mpr (.inl ⟨name, hname, ha⟩)
    exact List.ne_nil_of_mem hname'
  outputs_produced a ha := by
    obtain ⟨id, hid, hcovers⟩ := hs.produced_of_named_outputs h ((named_kept_iff hkept).mp ha)
    have hmem := hs.mem_nodes_iff.mpr hcovers
    refine ⟨by simp [(producer?_kept h hkept hmem).mpr hid], ?_⟩
    have hopen := mt (hs.onBoundary_iff h hid).mp (hs.not_onBoundary_of_covers hid hcovers)
    simp only [OnBoundary, Boundary.request, named_kept_iff hkept] at hopen ⊢
    exact hopen

theorem named_of_readBy_kept {a : ArgId} (ha : ReadBy g' (· ∈ sub.nodes) a) :
    Named g sub.boundary.inputs a ∨ Named g sub.boundary.constants a := by
  obtain ⟨⟨id, node, hid, hnode, hmem⟩, houtside⟩ := ha
  rw [hkept.nodes id hid] at hnode
  rcases hs.reads_named h hid hnode hmem with ⟨source, hinside, hproducer⟩ | hnamed
  · exact absurd hinside (houtside source ((producer?_kept h hkept hinside).mpr hproducer))
  · exact hnamed

/--
The request that the region answers gives the region again, also in another graph, if nothing more
is needed from the region there and its boundary is still independent of it.
-/
theorem find_kept (hgiven : ∀ a, GivenBy g' (· ∈ sub.nodes) a → Named g sub.boundary.outputs a)
    (hindependent : ¬ sub.boundary.request.FeedsBoundary g') :
    ∃ fresh, sub.boundary.request.find g' = .ok fresh ∧ sub.agrees fresh := by
  have hcovers : sub.boundary.request.Covers g' = (· ∈ sub.nodes) :=
    funext fun id => propext (hs.covers_kept_iff h hkept)
  obtain ⟨o', hrun, ho'⟩ := outline_succeeds hkept.indexed (hs.wellPosed_kept h hkept)
  have hdeclared : ¬ sub.boundary.request.ReadsUndeclared g' := by
    rintro ⟨a, hread, hboundary, -⟩
    rw [hcovers] at hread
    simp only [OnBoundary, Boundary.request, named_kept_iff hkept] at hboundary
    exact hboundary (hs.named_of_readBy_kept h hkept hread)
  rcases find_of_outline hkept.indexed hrun ho' with ⟨hloop, -⟩ | ⟨-, fresh, hfresh, his⟩
  · exact absurd hloop (not_or_intro hdeclared hindependent)
  refine ⟨fresh, hfresh, ?_⟩
  have htable : ∀ {table args}, Tabulates g' table args ↔ Tabulates g table args := by
    simp only [Tabulates, hkept.findArg?, implies_true]
  have hcovered : o'.covered = o.covered := by
    apply Std.ExtTreeSet.ext_mem
    intro id
    rw [ho'.covered, hs.outline.covered, hs.covers_kept_iff h hkept, hs.mem_nodes_iff]
  have hconstants : o'.constants = o.constants := by
    apply ((htable.mp ho'.constants).congr _).unique hs.outline.constants
    intro a
    rw [hcovers, ← hs.named_constants_iff h]
    simp only [Boundary.request, named_kept_iff hkept]
    constructor
    · rintro (hnamed | ⟨hread, -, hnot⟩)
      · exact hnamed
      · exact (hs.named_of_readBy_kept h hkept hread).resolve_left hnot
    · exact .inl
  obtain ⟨outputs, houtputs, toutputs⟩ := hs.region.outputs
  obtain ⟨outputs', houtputs', toutputs'⟩ := his.outputs
  have hsame : outputs' = outputs := by
    apply ((htable.mp toutputs').congr _).unique toutputs
    intro a
    rw [hcovers, ← hs.named_outputs_iff h]
    simp only [Boundary.request, named_kept_iff hkept]
    exact or_iff_left_of_imp (hgiven a)
  simp only [Region.agrees, Bool.and_eq_true, decide_eq_true_eq]
  refine ⟨⟨?_, ?_⟩, ?_⟩
  · rw [his.nodes, hs.region.nodes, hcovered]
  · rw [houtputs', houtputs, hsame]
  · rw [his.constants, hs.region.constants, hconstants]

end Kept

theorem wellPosed_request : sub.boundary.request.WellPosed g :=
  hs.wellPosed_kept h (.refl h)

theorem find_request : ∃ fresh, sub.boundary.request.find g = .ok fresh ∧ sub.agrees fresh := by
  have hcovers : (· ∈ sub.nodes) = r.Covers g := funext fun id => propext hs.mem_nodes_iff
  apply hs.find_kept h (.refl h)
  · intro a ha
    rw [hcovers] at ha
    exact (hs.named_outputs_iff h).mpr (.inr ha)
  · rintro ⟨a, first, last, hboundary, hlast, hfirst, hpath⟩
    rw [hs.covers_kept_iff h (.refl h), hs.mem_nodes_iff] at hfirst
    exact hs.independent
      ⟨a, first, last, (hs.onBoundary_iff h hlast).mp hboundary, hlast, hfirst, hpath⟩

end Accepted

end RegionRequest

namespace Region

variable {g : Graph} {sub : Region}

/-- One node has taken the place of the nodes of a region, and nothing else has changed. -/
structure Fused (g : Graph) (sub : Region) (id : NodeId) (g' : Graph) : Prop where
  fresh : g.node? id = none
  fused : ∃ node, g'.node? id = some node ∧ node.key = OpKey.fusedSubgraph ∧
    node.inputs = (sub.boundary.inputs ++ sub.boundary.constants).map g.findArg? ∧
    node.outputs = sub.boundary.outputs.map g.findArg?
  known : ∀ name ∈ sub.boundary.inputs ++ sub.boundary.constants ++ sub.boundary.outputs,
    (g.findArg? name).isSome
  others : ∀ id', id' ≠ id → g'.node? id' = if id' ∈ sub.nodes then none else g.node? id'
  sameArgs : Graph.SameArgs g g'

theorem present_map_findArg? (names : List String) :
    present (names.map g.findArg?) = names.filterMap g.findArg? := by
  rw [present, List.filterMap_map]
  rfl

theorem mem_present_map_findArg? {names : List String} {a : ArgId} :
    a ∈ present (names.map g.findArg?) ↔ RegionRequest.Named g names a := by
  rw [present_map_findArg?, List.mem_filterMap]
  rfl

def replacement (sub : Region) (g : Graph) (id : NodeId) (name : String) : Node :=
  let spec := sub.boundary.nodeSpec g name
  ⟨id, name, spec.key, spec.inputs, spec.outputs, spec.attrs⟩

structure Replaced (g : Graph) (sub : Region) (id : NodeId) (g' : Graph) : Prop where
  next : id = g.nextNode
  size : g'.nodes.size = g.nodes.size + 1
  fused : ∃ name, g'.node? id = some (sub.replacement g id name) ∧
    (sub.boundary.name ≠ "" → (∀ id node, g.node? id = some node → node.name ≠ sub.boundary.name) →
      name = sub.boundary.name)
  others : ∀ id', id' ≠ id → g'.node? id' = if id' ∈ sub.nodes then none else g.node? id'
  sameArgs : Graph.SameArgs g g'
  name : g'.name = g.name

section Replace

variable (h : g.Indexed) (hproduced : ∀ a, RegionRequest.Named g sub.boundary.outputs a →
  ∃ id ∈ sub.nodes, g.producer? a = some id)

include h hproduced

theorem admits_left {left : Graph} (hindexed : left.Indexed) (hsame : Graph.SameArgs g left)
    (hnodes : ∀ id, left.node? id = if id ∈ sub.nodes then none else g.node? id) :
    left.Admits (left.freshNodeName sub.boundary.name)
      (sub.boundary.nodeSpec g (left.freshNodeName sub.boundary.name)) := by
  have hlive : ∀ names a, RegionRequest.Named g names a → (left.arg? a).isSome := by
    rintro names a ⟨name, -, hname⟩
    obtain ⟨arg, harg, -⟩ := h.findArg?_eq_some_iff.mp hname
    rw [Graph.arg?, hsame.args, ← Graph.arg?, harg]
    rfl
  refine ⟨freshName_not_mem _ _, ?_, ?_, ?_⟩
  · intro a ha
    exact hlive _ a (mem_present_map_findArg?.mp ha)
  · intro a ha
    exact hlive _ a (mem_present_map_findArg?.mp ha)
  · intro a ha
    obtain ⟨id, hmem, hid⟩ := hproduced a (mem_present_map_findArg?.mp ha)
    rw [hsame.inputs, hsame.initializers]
    refine ⟨?_, h.produced_internal a id hid⟩
    rw [Option.eq_none_iff_forall_ne_some]
    intro id' hid'
    -- A producer that is left would be a second one in the old graph.
    obtain ⟨node', hnode', hmem'⟩ := (hindexed.producers_iff a id').mp hid'
    obtain ⟨node, hnode, ha⟩ := h.producer?_eq_some_iff.mp hid
    rw [hnodes] at hnode'
    split at hnode'
    · cases hnode'
    · next hleft =>
      cases h.producer_unique hnode' hmem' hnode ha
      exact hleft hmem

theorem replace_succeeds (hnodup : sub.nodes.Nodup) (hlive : ∀ id ∈ sub.nodes, id ∈ g.nodeIds) :
    ∃ id g', sub.replace g = .ok id g' ∧ g'.Indexed ∧ sub.Replaced g id g' := by
  obtain ⟨left, hleft, hindexed, hsame, hsize, hnodes⟩ := Graph.removeNodes_succeeds h hnodup hlive
  have hadmits := admits_left h hproduced hindexed hsame hnodes
  have hadd := Graph.addNode_succeeds hadmits (by
    rw [if_neg]
    · rfl
    · exact freshName_ne_empty _ _)
  have hnext : left.nextNode = g.nextNode := by rw [Graph.nextNode, hsize, Graph.nextNode]
  refine ⟨left.nextNode, _, ?_, hindexed.pushNode hadmits, ?_⟩
  · simp only [replace, removeNodes, hleft, hadd]
  constructor
  case next => exact hnext
  case size =>
    rw [← hsize]
    exact Array.size_push _
  case fused =>
    refine ⟨left.freshNodeName sub.boundary.name, by rw [Graph.node?_pushNode, if_pos rfl]; rfl, ?_⟩
    intro hname hfree
    apply freshName_of_not_mem hname
    intro hmem
    obtain ⟨id, hid⟩ := Option.isSome_iff_exists.mp
      (Std.ExtTreeMap.mem_iff_isSome_getElem?.mp hmem)
    obtain ⟨node, hnode, hbears⟩ := (hindexed.nodeNames_iff _ id).mp hid
    rw [hnodes] at hnode
    split at hnode
    · cases hnode
    · exact hfree id node hnode hbears
  case others =>
    intro id' hid'
    rw [Graph.node?_pushNode, if_neg hid', hnodes]
  case sameArgs => exact hsame.trans ⟨rfl, rfl, rfl, rfl, rfl, rfl⟩
  case name =>
    change left.name = g.name
    exact Graph.name_removeNodes hleft

end Replace

theorem Replaced.fused_of_wellPosed {id : NodeId} {g' : Graph} (hreplaced : sub.Replaced g id g')
    (hdomain : sub.boundary.domain = OpKey.extensionDomain)
    (hposed : sub.boundary.request.WellPosed g) : sub.Fused g id g' where
  fresh := by
    rw [hreplaced.next]
    exact Graph.node?_nextNode
  fused := by
    obtain ⟨name, hnode, -⟩ := hreplaced.fused
    refine ⟨_, hnode, ?_, rfl, rfl⟩
    rw [replacement, Boundary.nodeSpec, hdomain]
    rfl
  known := by
    intro name hname
    rw [List.mem_append, List.mem_append] at hname
    rcases hname with (hname | hname) | hname
    · exact hposed.inputs_known name hname
    · exact hposed.constants_known name hname
    · exact hposed.outputs_known name hname
  others := hreplaced.others
  sameArgs := hreplaced.sameArgs

theorem fuse_eq_replace {fresh : Region} (hfind : sub.boundary.request.find g = .ok fresh)
    (hagrees : sub.agrees fresh) : sub.fuse g = sub.replace g := by
  rw [fuse, hfind]
  simp only [hagrees, if_true]

end Region

namespace RegionRequest.Accepted

variable {g : Graph} {r : RegionRequest} {o : Outline} {sub : Region} (h : g.Indexed)
  (hs : Accepted r g o sub)

include hs h

theorem replace_succeeds {sub' : Region} (hnodes : sub.nodes = sub'.nodes)
    (houtputs : sub.boundary.outputs = sub'.boundary.outputs) :
    ∃ id g', sub'.replace g = .ok id g' ∧ g'.Indexed ∧ sub'.Replaced g id g' := by
  apply Region.replace_succeeds h
  · intro a ha
    rw [← houtputs] at ha
    obtain ⟨id, hid, hcovers⟩ := hs.produced_of_named_outputs h ha
    exact ⟨id, hnodes ▸ hs.mem_nodes_iff.mpr hcovers, hid⟩
  · rw [← hnodes, hs.region.nodes]
    exact Handle.nodup_toList o.covered
  · intro id hid
    rw [← hnodes, hs.mem_nodes_iff] at hid
    exact hid.mem_nodeIds h

theorem fuse_succeeds : ∃ id g', sub.fuse g = .ok id g' ∧ g'.Indexed ∧ sub.Fused g id g' := by
  obtain ⟨fresh, hfresh, hagrees⟩ := hs.find_request h
  obtain ⟨id, g', hreplace, h', hreplaced⟩ := hs.replace_succeeds h rfl rfl
  refine ⟨id, g', ?_, h', hreplaced.fused_of_wellPosed hs.region.domain (hs.wellPosed_request h)⟩
  rw [Region.fuse_eq_replace hfresh hagrees, hreplace]

end RegionRequest.Accepted

/-! ### The fused graph -/

namespace RegionRequest.Accepted

variable {g g' : Graph} {r : RegionRequest} {o : Outline} {sub : Region} (h : g.Indexed)
  (hs : Accepted r g o sub) {id : NodeId} (h' : g'.Indexed) (hfused : sub.Fused g id g')

include hs hfused

theorem reads_cases {a : ArgId} {target : NodeId} {node : Node}
    (hnode : g'.node? target = some node) (ha : a ∈ node.presentInputs) :
    (target = id ∧ sub.boundary.request.OnBoundary g a) ∨
      (target ≠ id ∧ ¬ r.Covers g target ∧ g.node? target = some node) := by
  by_cases hid : target = id
  · subst hid
    obtain ⟨fused, hfusedNode, -, hinputs, -⟩ := hfused.fused
    cases hnode.symm.trans hfusedNode
    rw [Node.presentInputs, hinputs, Region.mem_present_map_findArg?] at ha
    obtain ⟨name, hname, hfind⟩ := ha
    rcases List.mem_append.mp hname with hname | hname
    · exact .inl ⟨rfl, .inl ⟨name, hname, hfind⟩⟩
    · exact .inl ⟨rfl, .inr ⟨name, hname, hfind⟩⟩
  · rw [hfused.others target hid] at hnode
    split at hnode
    · cases hnode
    · next hout =>
      rw [hs.mem_nodes_iff] at hout
      exact .inr ⟨hid, hout, hnode⟩

include h h'

theorem producer?_cases {a : ArgId} {source : NodeId} (ha : g'.producer? a = some source) :
    (source = id ∧ Named g sub.boundary.outputs a) ∨
      (source ≠ id ∧ ¬ r.Covers g source ∧ g.producer? a = some source) := by
  obtain ⟨node, hnode, hmem⟩ := h'.producer?_eq_some_iff.mp ha
  by_cases hid : source = id
  · subst hid
    obtain ⟨fused, hfusedNode, -, -, houtputs⟩ := hfused.fused
    cases hnode.symm.trans hfusedNode
    rw [Node.presentOutputs, houtputs, Region.mem_present_map_findArg?] at hmem
    exact .inl ⟨rfl, hmem⟩
  · rw [hfused.others source hid] at hnode
    split at hnode
    · cases hnode
    · next hout =>
      rw [hs.mem_nodes_iff] at hout
      exact .inr ⟨hid, hout, h.producer?_eq_some_iff.mpr ⟨node, hnode, hmem⟩⟩

theorem mergedFeeds_of_feeds {source target : NodeId} (hfeeds : g'.Feeds source target) :
    MergedFeeds g (r.Covers g) (r.OnBoundary g) (if source = id then none else some source)
      (if target = id then none else some target) := by
  obtain ⟨node, a, hnode, hmem, hsource⟩ := hfeeds
  rcases hs.producer?_cases h h' hfused hsource with ⟨rfl, hgiven⟩ | ⟨hid, hout, hproducer⟩
  · obtain ⟨first, hfirst, hcovers⟩ := hs.produced_of_named_outputs h hgiven
    rcases hs.reads_cases hfused hnode hmem with ⟨rfl, hboundary⟩ | ⟨hid', hout', hnode'⟩
    · rw [hs.onBoundary_iff h hfirst] at hboundary
      exact absurd hboundary (hs.not_onBoundary_of_covers hfirst hcovers)
    · rw [if_pos rfl, if_neg hid']
      exact mergedFeeds_exit ⟨node, a, hnode', hmem, hfirst⟩ hcovers hout'
  · rw [if_neg hid]
    rcases hs.reads_cases hfused hnode hmem with ⟨rfl, hboundary⟩ | ⟨hid', hout', hnode'⟩
    · rw [if_pos rfl]
      exact ⟨a, ⟨hout, hproducer⟩, (hs.onBoundary_iff h hproducer).mp hboundary⟩
    · rw [if_neg hid']
      exact mergedFeeds_outside ⟨node, a, hnode', hmem, hproducer⟩ hout hout'

theorem acyclic_fused (hacyclic : g.Acyclic) : g'.Acyclic := by
  intro start hcycle
  have hmerged := hcycle.lift (fun x => if x = id then none else some x)
    fun source target => hs.mergedFeeds_of_feeds h h' hfused
  apply hs.independent
  rw [FeedsBoundary, depends_iff hacyclic]
  exact .inr ⟨_, hmerged⟩

theorem consistent_fused (hc : g.Consistent) : g'.Consistent := by
  refine ⟨h', ?_⟩
  intro id' node hnode
  by_cases hid : id' = id
  · subst hid
    obtain ⟨fused, hfusedNode, -, -, houtputs⟩ := hfused.fused
    cases hnode.symm.trans hfusedNode
    obtain ⟨outputs, hkeys, -⟩ := hs.region.outputs
    rw [Node.presentOutputs, houtputs, Region.present_map_findArg?, hkeys]
    apply outputs.nodup_keys.filterMap
    intro name name' a hname hname'
    exact h.findArg?_injective hname hname'
  · rw [hfused.others id' hid] at hnode
    split at hnode
    · cases hnode
    · exact hc.outputs_nodup id' node hnode

theorem hasSource_fused {a : ArgId} (ha : g.hasSource a = true)
    (hgiven : ∀ source, g.producer? a = some source → r.Covers g source →
      Named g sub.boundary.outputs a) : g'.hasSource a = true := by
  rw [Graph.hasSource_iff] at ha ⊢
  rw [hfused.sameArgs.inputs, hfused.sameArgs.initializers]
  rcases ha with ⟨source, hsource⟩ | ha
  · left
    by_cases hcovers : r.Covers g source
    · obtain ⟨fused, hfusedNode, -, -, houtputs⟩ := hfused.fused
      refine ⟨id, h'.producer?_eq_some_iff.mpr ⟨fused, hfusedNode, ?_⟩⟩
      rw [Node.presentOutputs, houtputs, Region.mem_present_map_findArg?]
      exact hgiven source hsource hcovers
    · obtain ⟨node, hnode, hmem⟩ := h.producer?_eq_some_iff.mp hsource
      refine ⟨source, h'.producer?_eq_some_iff.mpr ⟨node, ?_, hmem⟩⟩
      have hid : source ≠ id := by
        rintro rfl
        rw [hfused.fresh] at hnode
        cases hnode
      rw [hfused.others source hid, if_neg (mt hs.mem_nodes_iff.mp hcovers), hnode]
  · exact .inr ha

theorem sourced_fused (hsourced : g.Sourced)
    (hdeclared : ∀ a, r.OnBoundary g a → g.hasSource a = true) : g'.Sourced := by
  intro target node a hnode ha
  rcases hs.reads_cases hfused hnode ha with ⟨-, hboundary⟩ | ⟨-, hout, hnode'⟩
  · apply hs.hasSource_fused h h' hfused
    · rcases hboundary with hin | hin
      · exact hdeclared a (.inl (hs.named_inputs_iff.mp hin))
      · rcases (hs.named_constants_iff h).mp hin with hin | ⟨-, hinit, -⟩
        · exact hdeclared a (.inr hin)
        · rw [Graph.hasSource_iff]
          exact .inr (.inr hinit)
    · intro source hsource hcovers
      rw [hs.onBoundary_iff h hsource] at hboundary
      exact absurd hboundary (hs.not_onBoundary_of_covers hsource hcovers)
  · apply hs.hasSource_fused h h' hfused (hsourced target node a hnode' ha)
    intro source hsource hcovers
    rw [hs.named_outputs_iff h]
    exact .inr ⟨⟨source, hsource, hcovers⟩, .inr ⟨target, node, hout, hnode', ha⟩⟩

end RegionRequest.Accepted

/-- An accepted region fuses into one node, without a cycle and into a graph that is valid again. -/
theorem Region.fuse_of_find {g : Graph} (h : g.Consistent) (hacyclic : g.Acyclic)
    {r : RegionRequest} {sub : Region} (hfind : r.find g = .ok sub) :
    ∃ id g', sub.fuse g = .ok id g' ∧ g'.Consistent ∧ g'.Acyclic ∧ sub.Fused g id g' ∧
      ((∀ name ∈ r.inputs ++ r.constants, ∀ a, g.findArg? name = some a → g.hasSource a = true) →
        (∃ g₁, Graph.resolve g = .ok () g₁) → ∃ g₂, Graph.resolve g' = .ok () g₂) := by
  obtain ⟨o, hs⟩ := RegionRequest.accepted_of_find h.toIndexed hfind
  obtain ⟨id, g', hfuse, h', hfused⟩ := hs.fuse_succeeds h.toIndexed
  have hc' := hs.consistent_fused h.toIndexed h' hfused h
  have hacyclic' := hs.acyclic_fused h.toIndexed h' hfused hacyclic
  refine ⟨id, g', hfuse, hc', hacyclic', hfused, ?_⟩
  intro hdeclared hresolve
  obtain ⟨-, hsourced, -⟩ := h.resolve_succeeds_iff.mp hresolve
  apply h'.resolve_succeeds_iff.mpr
  refine ⟨hc', hs.sourced_fused h.toIndexed h' hfused hsourced ?_, hacyclic'⟩
  rintro a (⟨name, hname, ha⟩ | ⟨name, hname, ha⟩)
  · exact hdeclared name (List.mem_append_left _ hname) a ha
  · exact hdeclared name (List.mem_append_right _ hname) a ha

def Region.weightedEdits : List Graph.Mutation :=
  [.addInput "x" ⟨.float32, none⟩, .addInitializer "w" ⟨[1], .float32 [⟨0⟩]⟩,
    .newArg "p" ⟨.float32, none⟩, .newArg "q" ⟨.float32, none⟩, .newArg "y" ⟨.float32, none⟩,
    .addNode ⟨"top", .standard "Add", [some ⟨0⟩, some ⟨1⟩], [some ⟨2⟩], ∅⟩,
    .addNode ⟨"side", .standard "Relu", [some ⟨2⟩], [some ⟨3⟩], ∅⟩,
    .addNode ⟨"bottom", .standard "Add", [some ⟨2⟩, some ⟨3⟩], [some ⟨4⟩], ∅⟩, .addOutput ⟨4⟩]

def Region.upperRequest : RegionRequest :=
  ⟨"upper", ["x"], ["q"], [], ""⟩

theorem Region.fuse_of_find_diamond :
    ∃ (g : Graph) (sub : Region), (Graph.empty "diamond").runAll weightedEdits = .ok g ∧
      upperRequest.find g = .ok sub ∧
      sub.nodes = [⟨0⟩, ⟨1⟩] ∧ sub.boundary.constants = ["w"] ∧ sub.boundary.outputs = ["p", "q"] ∧
      ∃ id g', sub.fuse g = .ok id g' ∧ g'.Acyclic ∧ ∃ g₂, Graph.resolve g' = .ok () g₂ := by
  have hrun : (do
      let g ← (Graph.empty "diamond").runAll weightedEdits
      return (g.check, g.findArg? "x", g.hasSource ⟨0⟩,
        (fun sub : Region => (sub.nodes, sub.boundary.constants, sub.boundary.outputs)) <$>
          upperRequest.find g)) =
      .ok (.ok [⟨0⟩, ⟨1⟩, ⟨2⟩], some ⟨0⟩, true, .ok ([⟨0⟩, ⟨1⟩], ["w"], ["p", "q"])) := rfl
  simp only [bind_eq_ok_iff, pure_eq_ok_iff, Prod.mk.injEq, map_eq_ok_iff] at hrun
  obtain ⟨g, hg, hcheck, hx, hsource, sub, hfind, hnodes, hconstants, houtputs⟩ := hrun
  have hindexed := (Graph.Reachable.runAll (.empty "diamond") hg).indexed
  obtain ⟨hc, hsourced, horder⟩ := hindexed.check_eq_ok_iff.mp hcheck
  have hacyclic := hc.acyclic_of_topologicalOrder horder
  obtain ⟨id, g', hfuse, -, hacyclic', -, hresolve⟩ := Region.fuse_of_find hc hacyclic hfind
  refine ⟨g, sub, hg, hfind, hnodes, hconstants, houtputs, id, g', hfuse, hacyclic', ?_⟩
  apply hresolve
  · simp [upperRequest, hx, hsource]
  · exact hindexed.resolve_succeeds_iff.mpr ⟨hc, hsourced, hacyclic⟩

end OpGraph
