import OpGraph.Fusion.Partition
import OpGraph.Proofs.Fusion.Forest
import OpGraph.Proofs.Graph.Reach
import OpGraph.Proofs.Graph.Reachable

/-!
The candidates of a partition. The forest over the supported nodes spans the edges between them, so
the groups of its roots are the connected components, each in the order of its nodes and the first
node first.
-/

namespace OpGraph

open Relation

namespace Graph

variable {g : Graph}

def FeedsInside (g : Graph) (nodes : List NodeId) (source target : NodeId) : Prop :=
  source ∈ nodes ∧ target ∈ nodes ∧ g.Feeds source target

theorem Indexed.componentForest_succeeds (h : g.Indexed) {nodes : List NodeId}
    (hlive : ∀ id ∈ nodes, id ∈ g.nodeIds) :
    ∃ f, g.componentForest nodes = .ok f ∧ f.Spans nodes (g.FeedsInside nodes) := by
  have hrun := foldlM_succeeds
    (f := fun (f : Forest) id => do
      return (← g.successors id).foldl (fun f next => if next ∈ f then f.join id next else f) f)
    (P := fun done (f : Forest) => f.Spans nodes fun x y => x ∈ done ∧ g.FeedsInside nodes x y)
    nodes ?step (.singletons nodes) ?start
  case step =>
    intro done id rest f heq hf
    have hid : id ∈ nodes := by rw [heq]; simp
    obtain ⟨ids, hids, hmem⟩ := h.mem_successors_iff (hlive id hid)
    refine ⟨_, by rw [hids]; rfl, ?_⟩
    apply (hf.foldl_join hid ids).congr
    intro x y
    simp only [List.mem_append, List.mem_singleton, hmem, FeedsInside]
    grind
  case start =>
    apply (Forest.spans_singletons nodes).congr
    simp
  obtain ⟨f, hf, hspans⟩ := hrun
  refine ⟨f, hf, hspans.congr ?_⟩
  intro x y
  exact and_iff_right_of_imp fun hfeeds => hfeeds.1

end Graph

theorem allM_succeeds {ε α : Type} {p : α → Except ε Bool} {l : List α}
    (hp : ∀ a ∈ l, ∃ b, p a = .ok b) : ∃ b, l.allM p = .ok b := by
  induction l with
  | nil => exact ⟨true, rfl⟩
  | cons a l ih =>
    obtain ⟨b, hb⟩ := hp a List.mem_cons_self
    unfold List.allM
    rw [hb, ok_bind]
    cases b with
    | true => exact ih fun a ha => hp a (List.mem_cons_of_mem _ ha)
    | false => exact ⟨false, rfl⟩

def Capability.Answers (c : Capability) (g : Graph) : Prop :=
  ∀ id ∈ g.nodeIds, ∃ b, c.supports g id = .ok b

def Capability.Supported (c : Capability) (g : Graph) (id : NodeId) : Prop :=
  id ∈ g.nodeIds ∧ c.supports g id = .ok true

def Capability.Links (c : Capability) (g : Graph) (id id' : NodeId) : Prop :=
  c.Supported g id ∧ c.Supported g id' ∧ (g.Feeds id id' ∨ g.Feeds id' id)

structure Capability.Divides (c : Capability) (g : Graph) (components : List (List NodeId)) :
    Prop where
  disjoint : components.Pairwise List.Disjoint
  mem_iff : ∀ id, (∃ nodes ∈ components, id ∈ nodes) ↔
    id ∈ g.nodeIds ∧ c.supports g id = .ok true
  linked : ∀ nodes ∈ components, ∀ id ∈ nodes, ∀ id', id' ∈ nodes ↔
    ReflTransGen (c.Links g) id id'
  nonempty : ∀ nodes ∈ components, nodes ≠ []
  ascending : ∀ nodes ∈ components, nodes.Pairwise fun id id' => id.index < id'.index
  ordered : components.Pairwise fun nodes nodes' =>
    ∀ first ∈ nodes.head?, ∀ first' ∈ nodes'.head?, first.index < first'.index

namespace Graph

variable {g : Graph} {c : Capability} {supported : List NodeId}

theorem reflTransGen_links_eq (hmem : ∀ id, id ∈ supported ↔ c.Supported g id) :
    ReflTransGen (c.Links g) = EqvGen (g.FeedsInside supported) := by
  rw [← EqvGen.reflTransGen_symmGen]
  congr 1
  funext id id'
  unfold Capability.Links SymmGen FeedsInside
  rw [← hmem, ← hmem]
  apply propext
  grind

theorem Indexed.divides_trees (h : g.Indexed) (hsub : supported.Sublist g.nodeIds)
    (hmem : ∀ id, id ∈ supported ↔ c.Supported g id) {f : Forest}
    (hf : f.Spans supported (g.FeedsInside supported)) :
    c.Divides g ((f.group ∅ supported).toList.map Prod.snd) := by
  have hascending : supported.Pairwise fun id id' => id.index < id'.index := by
    apply List.Pairwise.sublist hsub
    exact List.pairwise_map.mpr h.liveNodes_ascending
  constructor
  case disjoint => exact Forest.trees_disjoint
  case mem_iff =>
    intro id
    change _ ↔ c.Supported g id
    rw [← hmem]
    simp only [Forest.mem_trees_iff]
    constructor
    · rintro ⟨tree, ⟨first, -, rfl⟩, hid⟩
      exact (Forest.mem_treeOf_iff.mp hid).1
    · intro hid
      exact ⟨_, ⟨id, hid, rfl⟩, Forest.mem_treeOf_iff.mpr ⟨hid, rfl⟩⟩
  case linked =>
    intro tree htree id hid id'
    obtain ⟨first, -, rfl⟩ := Forest.mem_trees_iff.mp htree
    rw [Forest.mem_treeOf_iff] at hid
    rw [Forest.mem_treeOf_iff, reflTransGen_links_eq hmem, ← hf.top_eq_iff, hid.2, eq_comm]
    apply and_iff_right_of_imp
    intro htop
    rw [← hf.mem_iff_of_eqvGen ((hf.top_eq_iff id id').mp (hid.2.trans htop))]
    exact hid.1
  case nonempty =>
    intro tree htree
    obtain ⟨first, hfirst, rfl⟩ := Forest.mem_trees_iff.mp htree
    exact List.ne_nil_of_mem (Forest.mem_treeOf_iff.mpr ⟨hfirst, rfl⟩)
  case ascending =>
    intro tree htree
    obtain ⟨first, -, rfl⟩ := Forest.mem_trees_iff.mp htree
    exact hascending.filter _
  case ordered => exact hf.trees_ordered hascending

theorem Indexed.candidates_succeeds (h : g.Indexed) (hc : c.Answers g) :
    ∃ components, g.candidates c = .ok components ∧ c.Divides g components := by
  obtain ⟨supported, hsupported, hsub, hmem⟩ := filterM_succeeds hc
  obtain ⟨f, hf, hspans⟩ := h.componentForest_succeeds fun id hid => ((hmem id).mp hid).1
  refine ⟨_, ?_, h.divides_trees hsub hmem hspans⟩
  unfold candidates
  rw [hsupported, ok_bind, hf, ok_bind]
  rfl

end Graph

theorem OpSet.answers_capability {g : Graph} (h : g.Indexed) (s : OpSet) :
    s.capability.Answers g := by
  intro id hid
  obtain ⟨node, hnode⟩ := h.mem_nodeIds.mp hid
  change ∃ b, s.supports g id = .ok b
  unfold OpSet.supports
  rw [Graph.node_eq_ok_iff.mpr hnode, ok_bind]
  split
  · exact ⟨false, rfl⟩
  · apply allM_succeeds
    intro a ha
    have hlive : (g.arg? a).isSome := by
      rcases List.mem_append.mp ha with ha | ha
      · exact h.reads_live id node a hnode ha
      · exact h.produces_live id node a hnode ha
    obtain ⟨arg, harg⟩ := Option.isSome_iff_exists.mp hlive
    rw [Graph.arg_eq_ok_iff.mpr harg, ok_bind]
    exact ⟨_, rfl⟩

/-- The candidates are the connected components of the supported nodes, first node first. -/
theorem Capability.candidates_are_components (c : Capability) {g : Graph} (h : g.Indexed)
    (hc : c.Answers g) :
    ∃ components, g.candidates c = .ok components ∧
      components.Pairwise List.Disjoint ∧ components.flatten.Nodup ∧
      (∀ id, id ∈ components.flatten ↔ c.Supported g id) ∧
      (∀ id id', c.Supported g id → c.Supported g id' →
        ((∃ nodes ∈ components, id ∈ nodes ∧ id' ∈ nodes) ↔ ReflTransGen (c.Links g) id id')) ∧
      (∀ nodes ∈ components, nodes ≠ [] ∧ nodes.Pairwise fun id id' => id.index < id'.index) ∧
      components.Pairwise fun nodes nodes' =>
        ∀ first ∈ nodes.head?, ∀ first' ∈ nodes'.head?, first.index < first'.index := by
  obtain ⟨components, hrun, hdivides⟩ := h.candidates_succeeds hc
  refine ⟨components, hrun, hdivides.disjoint, ?_, ?_, ?_, ?_, hdivides.ordered⟩
  · rw [List.nodup_flatten]
    refine ⟨?_, hdivides.disjoint⟩
    intro nodes hnodes
    exact Handle.nodup_of_ascending (hdivides.ascending nodes hnodes)
  · intro id
    rw [List.mem_flatten]
    exact hdivides.mem_iff id
  · intro id id' hid hid'
    constructor
    · rintro ⟨nodes, hnodes, hin, hin'⟩
      exact (hdivides.linked nodes hnodes id hin id').mp hin'
    · intro hpath
      obtain ⟨nodes, hnodes, hin⟩ := (hdivides.mem_iff id).mpr hid
      exact ⟨nodes, hnodes, hin, (hdivides.linked nodes hnodes id hin id').mpr hpath⟩
  · intro nodes hnodes
    exact ⟨hdivides.nonempty nodes hnodes, hdivides.ascending nodes hnodes⟩

def Capability.crossedEdits : List Graph.Mutation :=
  [.addInput "x" ⟨.float32, none⟩, .newArg "p" ⟨.float32, none⟩, .newArg "q" ⟨.float32, none⟩,
    .newArg "s" ⟨.float32, none⟩, .newArg "t" ⟨.float32, none⟩, .newArg "y" ⟨.float32, none⟩,
    .addNode ⟨"left", .standard "Relu", [some ⟨0⟩], [some ⟨1⟩], ∅⟩,
    .addNode ⟨"right", .standard "Relu", [some ⟨0⟩], [some ⟨2⟩], ∅⟩,
    .addNode ⟨"sum", .standard "Add", [some ⟨1⟩, some ⟨2⟩], [some ⟨3⟩], ∅⟩,
    .addNode ⟨"mid", .standard "Exp", [some ⟨3⟩], [some ⟨4⟩], ∅⟩,
    .addNode ⟨"below", .standard "Relu", [some ⟨4⟩], [some ⟨5⟩], ∅⟩, .addOutput ⟨5⟩]

def OpSet.npu : OpSet :=
  .ofEntries "npu" ["Relu", "Add"]

/--
`left` and `right` are joined through `sum`; `below` is cut off by `mid`, which is not supported.
-/
theorem Capability.candidates_are_components_crossed :
    ∃ g : Graph, (Graph.empty "crossed").runAll crossedEdits = .ok g ∧
      g.candidates OpSet.npu.capability =
        .ok [[⟨0⟩, ⟨1⟩, ⟨2⟩], [⟨4⟩]] ∧
      ReflTransGen (OpSet.npu.capability.Links g) ⟨0⟩ ⟨1⟩ ∧
      ¬ ReflTransGen (OpSet.npu.capability.Links g) ⟨2⟩ ⟨4⟩ := by
  have hrun : (do
      let g ← (Graph.empty "crossed").runAll crossedEdits
      return g.candidates OpSet.npu.capability) =
      .ok (.ok [[⟨0⟩, ⟨1⟩, ⟨2⟩], [⟨4⟩]]) := by decide +kernel
  simp only [bind_eq_ok_iff, pure_eq_ok_iff] at hrun
  obtain ⟨g, hg, hcandidates⟩ := hrun
  have hindexed := (Graph.Reachable.runAll (.empty "crossed") hg).indexed
  have hanswers := OpSet.answers_capability hindexed .npu
  obtain ⟨components, hcomponents, -, -, hmem, hlinked, -, -⟩ :=
    candidates_are_components _ hindexed hanswers
  cases hcandidates.symm.trans hcomponents
  refine ⟨g, hg, hcandidates, ?_, ?_⟩
  · rw [← hlinked ⟨0⟩ ⟨1⟩ ((hmem ⟨0⟩).mp (by simp)) ((hmem ⟨1⟩).mp (by simp))]
    simp
  · rw [← hlinked ⟨2⟩ ⟨4⟩ ((hmem ⟨2⟩).mp (by simp)) ((hmem ⟨4⟩).mp (by simp))]
    simp

end OpGraph
