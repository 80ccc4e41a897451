import OpGraph.Proofs.Fusion.Merge

/-!
The sets of nodes that cannot be fused. Such a set gives nothing, or something that it reads depends
on a node of it that is needed. Merging another set does not change that: every path still runs,
through the new node where it ran through the merged ones.
-/

namespace OpGraph

open Relation

open RegionRequest (ReadBy GivenBy)

namespace Graph

def FeedsItself (g : Graph) (nodes : List NodeId) : Prop :=
  ∃ a first last, ReadBy g (· ∈ nodes) a ∧ g.producer? a = some last ∧ g.Needed nodes first ∧
    ReflTransGen g.Feeds first last

/-- The set gives nothing, or the node in place of it would feed itself. -/
def Blocked (g : Graph) (nodes : List NodeId) : Prop :=
  (∀ a, ¬ GivenBy g (· ∈ nodes) a) ∨ g.FeedsItself nodes

end Graph

namespace RegionRequest.AsksFor

variable {g : Graph} {r : RegionRequest} {nodes : List NodeId} (hr : r.AsksFor g nodes)

include hr

theorem outputs_eq_nil_iff : r.outputs = [] ↔ ∀ a, ¬ GivenBy g (· ∈ nodes) a := by
  simp only [← hr.outputs]
  constructor
  · rintro hnil a ⟨name, hname, -⟩
    rw [hnil] at hname
    cases hname
  · intro hnone
    rw [List.eq_nil_iff_forall_not_mem]
    intro name hname
    obtain ⟨a, ha⟩ := Option.isSome_iff_exists.mp (hr.outputs_known name hname)
    exact hnone a ⟨name, hname, ha⟩

theorem not_readsUndeclared (h : g.Indexed) : ¬ r.ReadsUndeclared g := by
  rintro ⟨a, ⟨⟨id, node, hid, hnode, ha⟩, hout⟩, hboundary, hinit⟩
  rw [hr.covers_iff h] at hid
  apply hboundary
  rw [hr.onBoundary_iff]
  refine ⟨⟨⟨id, node, hid.mem, hnode, ha⟩, ?_⟩, hinit⟩
  intro source hsource hin
  apply hout source hsource
  rw [hr.covers_iff h]
  exact hid.head ⟨hin, hid.mem, node, a, hnode, ha, hsource⟩

theorem feedsBoundary_iff (h : g.Indexed) : r.FeedsBoundary g ↔ g.FeedsItself nodes := by
  unfold FeedsBoundary Graph.FeedsItself
  simp only [hr.onBoundary_iff, hr.covers_iff h]
  constructor
  · rintro ⟨a, first, last, ⟨hread, -⟩, hlast, hneeded, hpath⟩
    exact ⟨a, first, last, hread, hlast, hneeded, hpath⟩
  · rintro ⟨a, first, last, hread, hlast, hneeded, hpath⟩
    exact ⟨a, first, last, ⟨hread, (h.produced_internal a last hlast).2⟩, hlast, hneeded, hpath⟩

end RegionRequest.AsksFor

namespace Graph

variable {g g' : Graph} {nodes : List NodeId} {id : NodeId}

open scoped Classical in
noncomputable def contract (g : Graph) (nodes : List NodeId) (id source : NodeId) : NodeId :=
  if g.Needed nodes source then id else source

theorem contract_of_needed {source : NodeId} (hneeded : g.Needed nodes source) :
    g.contract nodes id source = id :=
  if_pos hneeded

theorem contract_of_not_needed {source : NodeId} (hneeded : ¬ g.Needed nodes source) :
    g.contract nodes id source = source :=
  if_neg hneeded

namespace Merged

variable (h : g.Indexed) (hm : g.Merged nodes id g')

include h hm

theorem producer?_contract {a : ArgId} {source reader : NodeId} {node : Node}
    (ha : g.producer? a = some source) (hreader : ¬ g.Needed nodes reader)
    (hnode : g.node? reader = some node) (hmem : a ∈ node.presentInputs) :
    g'.producer? a = some (g.contract nodes id source) := by
  by_cases hneeded : g.Needed nodes source
  · rw [contract_of_needed hneeded]
    obtain ⟨fused, hfused, -, -, hgives⟩ := hm.fused
    rw [hm.evolves.indexed.producer?_eq_some_iff]
    refine ⟨fused, hfused, (hgives a).mpr ?_⟩
    exact ⟨⟨source, ha, hneeded⟩, .inr ⟨reader, node, hreader, hnode, hmem⟩⟩
  · rw [contract_of_not_needed hneeded]
    rw [(hm.mergedAll h).producer?_iff h (h.mem_nodeIds_of_producer? ha) (by simpa using hneeded)]
    exact ha

theorem feeds_contract {source target : NodeId} (hfeeds : g.Feeds source target) :
    ReflTransGen g'.Feeds (g.contract nodes id source) (g.contract nodes id target) := by
  obtain ⟨node, a, hnode, hmem, hsource⟩ := hfeeds
  by_cases htarget : g.Needed nodes target
  · rw [contract_of_needed htarget]
    by_cases hneeded : g.Needed nodes source
    · rw [contract_of_needed hneeded]
    · -- The source is not in the set at all: the target would make it needed.
      rw [contract_of_not_needed hneeded]
      have hread : ReadBy g (· ∈ nodes) a := by
        refine ⟨⟨target, node, htarget.mem, hnode, hmem⟩, ?_⟩
        intro source' hsource' hin
        cases hsource.symm.trans hsource'
        exact hneeded (htarget.head ⟨hin, htarget.mem, node, a, hnode, hmem, hsource⟩)
      have hinit := (h.produced_internal a source hsource).2
      obtain ⟨fused, hfused, -, hreads, -⟩ := hm.fused
      apply ReflTransGen.single
      have hlive := h.mem_nodeIds_of_producer? hsource
      refine ⟨fused, a, hfused, (hreads a).mpr (.inl ⟨hread, hinit⟩), ?_⟩
      rw [(hm.mergedAll h).producer?_iff h hlive (by simpa using hneeded)]
      exact hsource
  · rw [contract_of_not_needed htarget]
    have hkept := (hm.mergedAll h).node?_of_not_needed hnode (by simpa using htarget)
    exact .single ⟨node, a, hkept, hmem, hm.producer?_contract h hsource htarget hnode hmem⟩

end Merged

theorem Blocked.merged {nodes' : List NodeId} (hblocked : g.Blocked nodes') (h : g.Indexed)
    (hm : g.Merged nodes id g') (hu : g.Untouched g' nodes') (hdisjoint : nodes.Disjoint nodes') :
    g'.Blocked nodes' := by
  have hapart : ∀ id' ∈ nodes', ¬ g.Needed nodes id' :=
    fun id' hid' hneeded => hdisjoint hneeded.mem hid'
  unfold Blocked FeedsItself
  rw [hu.givenBy_eq fun _ hid => hid, hu.readBy_eq fun _ hid => hid, hu.needed_eq]
  rcases hblocked with hnone | ⟨a, first, last, hread, hlast, hneeded, hpath⟩
  · exact .inl hnone
  · obtain ⟨reader, node, hreader, hnode, hmem⟩ := hread.1
    have hlast' := hm.producer?_contract h hlast (hapart reader hreader) hnode hmem
    have hpath' := hpath.lift' (g.contract nodes id) fun _ _ hfeeds => hm.feeds_contract h hfeeds
    rw [Function.onFun, contract_of_not_needed (hapart first hneeded.mem)] at hpath'
    exact .inr ⟨a, first, _, hread, hlast', hneeded, hpath'⟩

end Graph

end OpGraph
