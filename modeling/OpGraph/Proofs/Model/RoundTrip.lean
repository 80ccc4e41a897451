import Mathlib.Data.List.Sort
import OpGraph.Model.File
import OpGraph.Proofs.FileTree
import OpGraph.Proofs.Graph.Named
import OpGraph.Proofs.Graph.Order
import OpGraph.Proofs.Model.Rebuild

/-!
Model files lose nothing. A graph that is saved and loaded again is the same graph by name, with the
nodes in topological order, whether its tensors were stored in the model or beside it.
-/

namespace OpGraph

namespace Graph

variable {g : Graph}

/-- What a graph needs for a model file to hold all of it. -/
structure Storable (g : Graph) : Prop extends Consistent g where
  acyclic : g.Acyclic
  distinct : g.outputs.Nodup
  tensors_valid : ∀ (a : ArgId) tensor, g.initializers[a]? = some tensor → ∃ arg,
    g.arg? a = some arg ∧ arg.type = tensor.type ∧ checkTensor arg.name tensor = .ok ()
  named : g.Named

namespace Indexed

variable (h : g.Indexed)

include h

theorem known_describe (nodes : List Node) : (g.describe nodes).known = g.argIds.map g.nameOf := by
  rw [Description.known, describe, argIds, List.map_map, List.map_map]
  apply List.map_congr_left
  intro arg harg
  exact (nameOf_eq (h.mem_liveArgs.mp harg)).symm

theorem mem_argIds {a : ArgId} : a ∈ g.argIds ↔ (g.arg? a).isSome := by
  rw [argIds, List.mem_map, Option.isSome_iff_exists]
  constructor
  · rintro ⟨arg, harg, rfl⟩
    exact ⟨arg, h.mem_liveArgs.mp harg⟩
  · rintro ⟨arg, harg⟩
    exact ⟨arg, mem_liveArgs_iff.mpr ⟨a, harg⟩, h.arg_id a arg harg⟩

theorem argIds_ascending : g.argIds.Pairwise fun a b => a.index < b.index :=
  List.pairwise_map.mpr h.liveArgs_ascending

theorem nodup_map_nameOf {l : List ArgId} (hlive : ∀ a ∈ l, (g.arg? a).isSome) (hnodup : l.Nodup) :
    (l.map g.nameOf).Nodup :=
  hnodup.map_on fun a ha b hb => h.nameOf_injective (hlive a ha) (hlive b hb)

theorem nameOf_mem_known (nodes : List Node) {a : ArgId} (ha : (g.arg? a).isSome) :
    g.nameOf a ∈ (g.describe nodes).known := by
  rw [h.known_describe nodes]
  exact List.mem_map_of_mem (h.mem_argIds.mpr ha)

theorem tensors_sublist (nodes : List Node) :
    ((g.describe nodes).tensors.map Prod.fst).Sublist (g.describe nodes).known := by
  have hlt : (g.initializers.toList.map Prod.fst).Pairwise fun a b => a.index < b.index := by
    refine List.pairwise_map.mpr (Std.ExtTreeMap.ordered_keys_toList.imp fun hcompare => ?_)
    rwa [Handle.compare_def, Nat.compare_eq_lt] at hcompare
  have hsubset : g.initializers.toList.map Prod.fst ⊆ g.argIds := by
    intro a ha
    obtain ⟨entry, hentry, rfl⟩ := List.mem_map.mp ha
    exact h.mem_argIds.mpr (h.initializers_live entry.1 (mem_initializers_of_toList hentry))
  have hnodup := Handle.nodup_of_ascending hlt
  have hantisymm : Std.Antisymm fun a b : ArgId => a.index < b.index :=
    ⟨fun a b hab hba => absurd hba (Nat.lt_asymm hab)⟩
  have hsub := List.sublist_of_subperm_of_pairwise (hnodup.subperm hsubset) hlt h.argIds_ascending
  rw [h.known_describe nodes, describe, List.map_map]
  have hnames := hsub.map g.nameOf
  rwa [List.map_map] at hnames

theorem nodeNames_nodup : (g.liveNodes.map Node.name).Nodup := by
  refine List.pairwise_map.mpr (h.liveNodes_ascending.imp_of_mem ?_)
  intro node node' hnode hnode' hlt heq
  have hid := (h.nodeNames_iff node.name node.id).mpr ⟨node, h.mem_liveNodes.mp hnode, rfl⟩
  have hid' := (h.nodeNames_iff node.name node'.id).mpr ⟨node', h.mem_liveNodes.mp hnode', heq.symm⟩
  rw [hid] at hid'
  exact Nat.ne_of_lt hlt (congrArg Handle.index (Option.some.inj hid'))

end Indexed

theorem Consistent.nodup_outputs (h : g.Consistent) :
    (g.liveNodes.flatMap Node.presentOutputs).Nodup := by
  rw [List.nodup_flatMap]
  constructor
  · intro node hnode
    exact h.outputs_nodup node.id node (h.mem_liveNodes.mp hnode)
  · refine h.liveNodes_ascending.imp_of_mem ?_
    intro node node' hnode hnode' hlt a ha ha'
    have hid := h.producer_unique (h.mem_liveNodes.mp hnode) ha (h.mem_liveNodes.mp hnode') ha'
    exact Nat.ne_of_lt hlt (congrArg Handle.index hid)

theorem Storable.wellFormed (h : g.Storable) {nodes : List Node} (hperm : nodes.Perm g.liveNodes) :
    (g.describe nodes).WellFormed := by
  have hindexed := h.toIndexed
  have hlive : ∀ node ∈ nodes, g.node? node.id = some node := fun node hnode =>
    h.mem_liveNodes.mp (hperm.mem_iff.mp hnode)
  have hproduced : ∀ name ∈ (g.describe nodes).produced, ∃ a id,
      g.producers[a]? = some id ∧ (g.arg? a).isSome ∧ g.nameOf a = name := by
    intro name hname
    rw [produced_describe, List.mem_map] at hname
    obtain ⟨a, ha, rfl⟩ := hname
    obtain ⟨node, hnode, hout⟩ := List.mem_flatMap.mp ha
    exact ⟨a, node.id, (h.producers_iff a node.id).mpr ⟨node, hlive node hnode, hout⟩,
      h.produces_live node.id node a (hlive node hnode) hout, rfl⟩
  have htensors : ∀ item ∈ (g.describe nodes).tensors, ∃ a tensor, item = (g.nameOf a, tensor) ∧
      g.initializers[a]? = some tensor := by
    intro item hitem
    obtain ⟨⟨a, tensor⟩, hentry, rfl⟩ := List.mem_map.mp hitem
    exact ⟨a, tensor, rfl, Std.ExtTreeMap.mem_toList_iff_getElem?_eq_some.mp hentry⟩
  constructor
  case args_nodup =>
    rw [hindexed.known_describe]
    exact hindexed.nodup_map_nameOf (fun a ha => hindexed.mem_argIds.mp ha)
      (Handle.nodup_of_ascending hindexed.argIds_ascending)
  case inputs_known =>
    intro name hname
    obtain ⟨a, ha, rfl⟩ := List.mem_map.mp hname
    exact hindexed.nameOf_mem_known nodes (h.inputs_live a ha)
  case outputs_known =>
    intro name hname
    obtain ⟨a, ha, rfl⟩ := List.mem_map.mp hname
    exact hindexed.nameOf_mem_known nodes (h.outputs_live a ha)
  case outputs_nodup => exact hindexed.nodup_map_nameOf h.outputs_live h.distinct
  case tensors_ascending => exact hindexed.tensors_sublist nodes
  case tensors_typed =>
    intro item hitem
    obtain ⟨a, tensor, rfl, htensor⟩ := htensors item hitem
    obtain ⟨arg, harg, htype, -⟩ := h.tensors_valid a tensor htensor
    rw [nameOf_eq harg, ← htype]
    exact List.mem_map.mpr ⟨arg, mem_liveArgs_iff.mpr ⟨a, harg⟩, rfl⟩
  case tensors_valid =>
    intro item hitem
    obtain ⟨a, tensor, rfl, htensor⟩ := htensors item hitem
    obtain ⟨arg, harg, -, hvalid⟩ := h.tensors_valid a tensor htensor
    rw [nameOf_eq harg]
    exact hvalid
  case nodes_named =>
    intro entry hentry
    obtain ⟨node, hnode, rfl⟩ := List.mem_map.mp hentry
    exact h.named node.id node (hlive node hnode)
  case nodes_nodup =>
    rw [describe, List.map_map]
    exact (hperm.map Node.name).nodup_iff.mpr hindexed.nodeNames_nodup
  case reads_known =>
    intro entry hentry name hname
    obtain ⟨node, hnode, rfl⟩ := List.mem_map.mp hentry
    rw [describeNode, present_map, List.mem_map] at hname
    obtain ⟨a, ha, rfl⟩ := hname
    exact hindexed.nameOf_mem_known nodes (h.reads_live node.id node a (hlive node hnode) ha)
  case produced_known =>
    intro name hname
    obtain ⟨a, id, -, ha, rfl⟩ := hproduced name hname
    exact hindexed.nameOf_mem_known nodes ha
  case produced_nodup =>
    rw [produced_describe]
    refine hindexed.nodup_map_nameOf ?_ ((hperm.flatMap_right _).nodup_iff.mpr
      h.toConsistent.nodup_outputs)
    intro a ha
    obtain ⟨node, hnode, hout⟩ := List.mem_flatMap.mp ha
    exact h.produces_live node.id node a (hlive node hnode) hout
  case produced_internal =>
    intro name hname
    obtain ⟨a, id, hid, ha, rfl⟩ := hproduced name hname
    obtain ⟨hinput, hinit⟩ := h.produced_internal a id hid
    constructor
    · intro hmem
      obtain ⟨b, hb, hname⟩ := List.mem_map.mp hmem
      obtain rfl := hindexed.nameOf_injective (h.inputs_live b hb) ha hname
      exact hinput hb
    · intro hmem
      obtain ⟨item, hitem, hname⟩ := List.mem_map.mp hmem
      obtain ⟨b, tensor, rfl, htensor⟩ := htensors item hitem
      have hb : b ∈ g.initializers := by
        rw [Std.ExtTreeMap.mem_iff_isSome_getElem?, htensor]
        rfl
      obtain rfl := hindexed.nameOf_injective (h.initializers_live b hb) ha hname
      exact hinit hb

theorem Reachable.storable (h : Reachable g)
    (houtputs : ∀ node ∈ g.liveNodes, node.presentOutputs.Nodup)
    (horder : g.orderOrFault.isOk = true) (hdistinct : g.outputs.Nodup)
    (htensors : ∀ entry ∈ g.initializers.toList, ∃ arg ∈ g.arg? entry.1,
      arg.type = entry.2.type ∧ (checkTensor arg.name entry.2).isOk = true) : g.Storable := by
  have hconsistent : g.Consistent :=
    ⟨h.indexed, fun id node hnode => houtputs node (mem_liveNodes_iff.mpr ⟨id, hnode⟩)⟩
  refine ⟨hconsistent, ?_, hdistinct, ?_, h.named⟩
  · cases hrun : g.orderOrFault with
    | ok order => exact hconsistent.acyclic_of_orderOrFault hrun
    | error f =>
      rw [hrun] at horder
      cases horder
  · intro a tensor htensor
    obtain ⟨arg, harg, htype, hvalid⟩ :=
      htensors (a, tensor) (Std.ExtTreeMap.mem_toList_iff_getElem?_eq_some.mpr htensor)
    refine ⟨arg, harg, htype, ?_⟩
    cases hcheck : checkTensor arg.name tensor with
    | ok done => rfl
    | error failure =>
      rw [hcheck] at hvalid
      cases hvalid

theorem Consistent.exists_listed (h : g.Consistent) (hacyclic : g.Acyclic) :
    ∃ nodes : List Node, nodes.Perm g.liveNodes ∧ g.orderOrFault = .ok (nodes.map Node.id) ∧
      g.ProducersFirst (nodes.map Node.id) := by
  obtain ⟨order, horder⟩ := h.topologicalOrder_succeeds hacyclic
  obtain ⟨hnodup, hmem, hfirst⟩ := h.topologicalOrder_spec horder
  have hids : (order.filterMap g.node?).map Node.id = order := by
    rw [List.map_filterMap]
    refine (List.filterMap_congr fun id hid => ?_).trans List.filterMap_some
    obtain ⟨node, hnode⟩ := h.mem_nodeIds.mp ((hmem id).mp hid)
    rw [hnode, Option.map_some, h.node_id id node hnode]
  refine ⟨order.filterMap g.node?, ?_, ?_, ?_⟩
  · have hlisted : (order.filterMap g.node?).Nodup := .of_map Node.id (by rw [hids]; exact hnodup)
    rw [List.perm_ext_iff_of_nodup hlisted h.liveNodes_nodup]
    intro node
    rw [List.mem_filterMap, mem_liveNodes_iff]
    constructor
    · rintro ⟨id, -, hnode⟩
      exact ⟨id, hnode⟩
    · rintro ⟨id, hnode⟩
      exact ⟨id, (hmem id).mpr (h.mem_nodeIds.mpr ⟨node, hnode⟩), hnode⟩
  · rw [hids, orderOrFault, horder]
  · rw [hids]
    exact hfirst

end Graph

/-! ### Files -/

namespace Model

variable {files files' : FileTree} {path : String} {stored : Model × Bytes}

structure HeldBy (stored : Model × Bytes) (files : FileTree) (path : String) : Prop where
  model : files.read path = .ok stored.1.toBytes
  bytes : ∀ external, stored.1.externalData = some external →
    files.read (externalPath path external) = .ok stored.2

/-- The external bytes of a model do not go to the place of the model itself. -/
def Apart (path : String) (external : Option String) : Prop :=
  ∀ file, external = some file → FileTree.placeOf (externalPath path file) ≠ FileTree.placeOf path

theorem writeFile_eq_ok_iff {bytes : Bytes} {done : Unit} :
    Graph.writeFile path bytes files = .ok done files' ↔ files.write path bytes = .ok files' := by
  rw [Graph.writeFile]
  cases files.write path bytes <;> simp

theorem save_eq_ok_iff {g : Graph} {external : Option String} {threshold : Nat}
    (hmodel : g.toModel external threshold = .ok stored) :
    g.save path external threshold files = .ok () files' ↔ ∃ middle,
      (stored.1.externalData = none ∧ middle = files ∨ ∃ file, stored.1.externalData = some file ∧
        files.write (externalPath path file) stored.2 = .ok middle) ∧
      middle.write path stored.1.toBytes = .ok files' := by
  obtain ⟨m, bytes⟩ := stored
  simp only [Graph.save, hmodel]
  cases hexternal : m.externalData with
  | none =>
    simp only [writeFile_eq_ok_iff]
    simp
  | some file =>
    simp only [stateful_bind_eq_ok_iff, writeFile_eq_ok_iff]
    simp

theorem heldBy_of_save {g : Graph} {external : Option String} {threshold : Nat}
    (hmodel : g.toModel external threshold = .ok stored) (hapart : Apart path stored.1.externalData)
    (hsave : g.save path external threshold files = .ok () files') : HeldBy stored files' path := by
  obtain ⟨middle, hfirst, hmodel⟩ := (save_eq_ok_iff hmodel).mp hsave
  refine ⟨FileTree.read_of_write hmodel, ?_⟩
  intro file hfile
  rcases hfirst with ⟨hnone, -⟩ | ⟨file', hfile', hbytes⟩
  · rw [hnone] at hfile
    cases hfile
  · obtain rfl := Option.some.inj (hfile.symm.trans hfile')
    exact FileTree.read_of_write_of_ne hmodel (hapart file hfile) (FileTree.read_of_write hbytes)

theorem HeldBy.save {g : Graph} {external : Option String} {threshold : Nat}
    (h : HeldBy stored files path) (hmodel : g.toModel external threshold = .ok stored) :
    g.save path external threshold files = .ok () files := by
  rw [save_eq_ok_iff hmodel]
  refine ⟨files, ?_, FileTree.write_of_read h.model⟩
  cases hexternal : stored.1.externalData with
  | none => exact .inl ⟨rfl, rfl⟩
  | some file => exact .inr ⟨file, rfl, FileTree.write_of_read (h.bytes file hexternal)⟩

theorem HeldBy.load (h : HeldBy stored files path)
    (hread : ofBytes? stored.1.toBytes = some stored.1)
    (hknown : stored.1.isKnown = true) : Graph.load files path =
      stored.1.toGraph (stored.1.externalData.map fun _ => stored.2) := by
  have hbytes : externalBytes files path stored.1 =
      .ok (stored.1.externalData.map fun _ => stored.2) := by
    rw [externalBytes]
    cases hexternal : stored.1.externalData with
    | none => rfl
    | some file =>
      simp only [readFile, h.bytes file hexternal]
      rfl
  have hmodel : readFile files path = .ok stored.1.toBytes := by rw [readFile, h.model]
  simp only [Graph.load, hmodel, ok_bind, hread, hknown, Bool.not_true, Bool.false_eq_true,
    if_false, hbytes]

end Model

namespace Description

variable (d : Description) (external : Option String) (threshold : Nat)

theorem isKnown_store : (d.store external threshold).1.isKnown = true := rfl

theorem supplies_store : Model.Supplies
    ((d.store external threshold).1.externalData.map fun _ => (d.store external threshold).2)
    (d.store external threshold).2 := by
  cases external with
  | none => exact .inl (Model.storeTensors_inline threshold d.tensors)
  | some file =>
    by_cases hempty : (d.store (some file) threshold).2.isEmpty = true
    · exact .inl (List.isEmpty_iff.mp hempty)
    · have hexternal : (d.store (some file) threshold).1.externalData = some file := if_neg hempty
      rw [hexternal]
      exact .inr ⟨_, rfl, List.prefix_rfl⟩

theorem externalData_store {file : String}
    (h : (d.store external threshold).1.externalData = some file) : external = some file := by
  rw [store] at h
  simp only at h
  split at h
  · cases h
  · exact h

end Description

/-! ### Order in a description -/

namespace Description

def ProducersFirst (d : Description) : Prop :=
  ∀ before node after, d.nodes = before ++ node :: after →
    ∀ name ∈ present node.inputs, name ∈ d.produced →
      name ∈ before.flatMap fun node => present node.outputs

end Description

namespace Graph

variable {g : Graph}

theorem Indexed.producersFirst_describe (h : g.Indexed) {nodes : List Node}
    (hlive : ∀ node ∈ nodes, g.node? node.id = some node)
    (hfirst : g.ProducersFirst (nodes.map Node.id)) : (g.describe nodes).ProducersFirst := by
  intro before entry after hsplit name hname hproduced
  obtain ⟨front, back, rfl, rfl, hback⟩ := List.map_eq_append_iff.mp hsplit
  obtain ⟨node, back, rfl, rfl, rfl⟩ := List.map_eq_cons_iff.mp hback
  rw [describeNode, present_map, List.mem_map] at hname
  obtain ⟨a, ha, rfl⟩ := hname
  rw [produced_describe, List.mem_map] at hproduced
  obtain ⟨b, hb, hsame⟩ := hproduced
  obtain ⟨source, hsource, hout⟩ := List.mem_flatMap.mp hb
  have hnode := hlive node (by simp)
  obtain rfl := h.nameOf_injective (h.produces_live source.id source b (hlive source hsource) hout)
    (h.reads_live node.id node a hnode ha) hsame
  have hfeeds : g.Feeds source.id node.id := ⟨node, b, hnode, ha,
    h.producer?_eq_some_iff.mpr ⟨source, hlive source hsource, hout⟩⟩
  have hmem := hfirst (front.map Node.id) node.id (back.map Node.id) (by simp) source.id hfeeds
  obtain ⟨source', hsource', hid⟩ := List.mem_map.mp hmem
  have hnode' := hlive source' (List.mem_append_left _ hsource')
  rw [hid, hlive source hsource] at hnode'
  cases hnode'
  rw [List.flatMap_map]
  refine List.mem_flatMap.mpr ⟨source, hsource', ?_⟩
  rw [describeNode, present_map]
  exact List.mem_map_of_mem hout

namespace Says

variable {d : Description} (h : g.Says d)

include h

theorem consistent (hnodup : d.produced.Nodup) : g.Consistent := by
  refine ⟨h.indexed, ?_⟩
  intro id node hnode
  rw [← h.describe_eq, produced_describe] at hnodup
  exact (List.nodup_flatMap.mp (.of_map _ hnodup)).1 node (mem_liveNodes_iff.mpr ⟨id, hnode⟩)

theorem ascending (hfirst : d.ProducersFirst) {source target : NodeId}
    (hfeeds : g.Feeds source target) : source.index < target.index := by
  obtain ⟨node, a, hnode, ha, hsource⟩ := hfeeds
  obtain rfl := h.describe_eq
  obtain rfl := h.indexed.node_id target node hnode
  obtain ⟨front, back, hsplit⟩ := List.append_of_mem (h.indexed.mem_liveNodes.mpr hnode)
  obtain ⟨producer, hproducer, hout⟩ := h.indexed.producer?_eq_some_iff.mp hsource
  have hread : g.nameOf a ∈ present (g.describeNode node).inputs := by
    rw [describeNode, present_map]
    exact List.mem_map_of_mem ha
  have hproduced : g.nameOf a ∈ (g.describe g.liveNodes).produced := by
    rw [produced_describe]
    exact List.mem_map_of_mem (List.mem_flatMap.mpr
      ⟨producer, mem_liveNodes_iff.mpr ⟨source, hproducer⟩, hout⟩)
  have hnodes : (g.describe g.liveNodes).nodes =
      front.map g.describeNode ++ g.describeNode node :: back.map g.describeNode := by
    rw [describe, hsplit, List.map_append, List.map_cons]
  have hbefore := hfirst _ _ _ hnodes (g.nameOf a) hread hproduced
  rw [List.flatMap_map] at hbefore
  obtain ⟨earlier, hearlier, hname⟩ := List.mem_flatMap.mp hbefore
  rw [describeNode, present_map, List.mem_map] at hname
  obtain ⟨b, hb, hsame⟩ := hname
  have hlive := h.indexed.mem_liveNodes.mp
    (by rw [hsplit]; exact List.mem_append_left _ hearlier : earlier ∈ g.liveNodes)
  obtain rfl := h.indexed.nameOf_injective (h.indexed.produces_live earlier.id earlier b hlive hb)
    (h.indexed.produces_live source producer a hproducer hout) hsame
  obtain rfl := h.indexed.producer_unique hproducer hout hlive hb
  have hascending := h.indexed.liveNodes_ascending
  rw [hsplit, List.pairwise_append] at hascending
  exact hascending.2.2 earlier hearlier node List.mem_cons_self

theorem toModel_eq (hnodup : d.produced.Nodup) (hfirst : d.ProducersFirst)
    (external : Option String) (threshold : Nat) :
    g.toModel external threshold = .ok (d.store external threshold) := by
  have horder := orderOrFault_ascending (h.consistent hnodup)
    fun source target hfeeds => h.ascending hfirst hfeeds
  rw [h.indexed.toModel_eq (fun node hnode => hnode) horder, h.describe_eq]

end Says

/-! ### Saving and loading -/

/--
A sum that is scaled. The product was made before the sum it reads, has an empty slot and an
attribute, and with a threshold of 4 bytes one constant is stored in the model and one outside.
-/
def scaledSum : List Mutation :=
  [.addInput "x" ⟨.float32, some [2]⟩, .addInitializer "scale" ⟨[], .float32 [⟨0x3fc00000⟩]⟩,
    .addInitializer "bias" ⟨[2], .float32 [⟨0⟩, ⟨0x80000000⟩]⟩, .newArg "sum" ⟨.float32, none⟩,
    .newArg "y" ⟨.float32, none⟩,
    .addNode ⟨"last", .standard "Mul", [some ⟨3⟩, some ⟨1⟩, none], [some ⟨4⟩],
      (∅ : Attrs).insert "axis" (.int 1)⟩,
    .addNode ⟨"first", .standard "Add", [some ⟨0⟩, some ⟨2⟩], [some ⟨3⟩], ∅⟩, .addOutput ⟨4⟩]

theorem storable_scaledSum : ∃ g files, (Graph.empty "scaled").runAll scaledSum = .ok g ∧
    g.Storable ∧
    (∀ stored, g.toModel (some "weights") 4 = .ok stored →
      Model.ofBytes? stored.1.toBytes = some stored.1) ∧
    Model.Apart "model" (some "weights") ∧
    g.save "model" (some "weights") 4 .empty = .ok () files := by
  have hchecks : ∃ g ∈ ((Graph.empty "scaled").runAll scaledSum).toOption,
      (∀ node ∈ g.liveNodes, node.presentOutputs.Nodup) ∧
      g.orderOrFault.isOk = true ∧ g.outputs.Nodup ∧
      (∀ entry ∈ g.initializers.toList, ∃ arg ∈ g.arg? entry.1,
        arg.type = entry.2.type ∧ (checkTensor arg.name entry.2).isOk = true) ∧
      (∀ stored ∈ (g.toModel (some "weights") 4).toOption, Model.ofBytes?
        (Json.prettyText 0 stored.1.toDatum).toUTF8.data.toList = some stored.1) ∧
      (EStateM.run' (g.save "model" (some "weights") 4) .empty).isSome = true := by decide +kernel
  obtain ⟨g, hmem, houtputs, horder, hdistinct, htensors, htext, hsaved⟩ := hchecks
  have hg : (Graph.empty "scaled").runAll scaledSum = .ok g := by
    cases hrun : (Graph.empty "scaled").runAll scaledSum with
    | error e =>
      rw [hrun] at hmem
      cases hmem
    | ok g₀ =>
      rw [hrun] at hmem
      cases hmem
      rfl
  obtain ⟨files, hsave⟩ : ∃ files, g.save "model" (some "weights") 4 .empty = .ok () files := by
    unfold EStateM.run' EStateM.run at hsaved
    split at hsaved
    · next files heq => exact ⟨files, heq⟩
    · cases hsaved
  refine ⟨g, files, hg, ?_, ?_, ?_, hsave⟩
  · exact (Reachable.runAll (.empty "scaled") hg).storable houtputs horder hdistinct htensors
  · intro stored hstored
    rw [Model.toBytes, Bytes.toList_eq]
    exact htext stored (by rw [hstored]; rfl)
  · intro file hfile
    cases hfile
    decide +kernel

variable {path : String} {external : Option String} {threshold : Nat} {files files' : FileTree}

theorem Storable.reload (h : g.Storable)
    (htext : ∀ stored, g.toModel external threshold = .ok stored →
      Model.ofBytes? stored.1.toBytes = some stored.1)
    (hapart : Model.Apart path external)
    (hsave : g.save path external threshold files = .ok () files') :
    ∃ g' nodes, load files' path = .ok g' ∧ g'.Says (g.describe nodes) ∧
    nodes.Perm g.liveNodes ∧ g.ProducersFirst (nodes.map Node.id) ∧
    g.toModel external threshold = .ok ((g.describe nodes).store external threshold) ∧
    Model.HeldBy ((g.describe nodes).store external threshold) files' path := by
  obtain ⟨nodes, hperm, horder, hfirst⟩ := h.toConsistent.exists_listed h.acyclic
  have hmodel := h.toModel_eq (fun node hnode => hperm.mem_iff.mp hnode) horder external threshold
  have hheld := Model.heldBy_of_save hmodel
    (fun file hfile => hapart file (Description.externalData_store _ _ _ hfile)) hsave
  obtain ⟨g', hg', hsaid⟩ := (h.wellFormed hperm).toGraph
    ((g.describe nodes).supplies_store external threshold)
  refine ⟨g', nodes, ?_, hsaid, hperm, hfirst, hmodel, hheld⟩
  rw [hheld.load (htext _ hmodel) (Description.isKnown_store _ _ _), hg']

/--
A graph that was saved can be loaded, and the loaded graph is the same by name: name, inputs,
outputs, args with their types, initializers and nodes, which come in topological order. So it has
the same canonical text, whichever tensors were stored outside the model. The text of the model is
taken to be read as it was written.
-/
theorem Storable.load_save (h : g.Storable)
    (htext : ∀ stored, g.toModel external threshold = .ok stored →
      Model.ofBytes? stored.1.toBytes = some stored.1)
    (hapart : Model.Apart path external)
    (hsave : g.save path external threshold files = .ok () files') :
    ∃ g' nodes, load files' path = .ok g' ∧ nodes.Perm g.liveNodes ∧
      g.ProducersFirst (nodes.map Node.id) ∧ g'.describe g'.liveNodes = g.describe nodes ∧
      ∃ text, g.canonicalText = .ok text ∧ g'.canonicalText = .ok text := by
  obtain ⟨g', nodes, hload, hsaid, hperm, hfirst, -, -⟩ := h.reload htext hapart hsave
  refine ⟨g', nodes, hload, hperm, hfirst, hsaid.describe_eq, (g.describe nodes).canonicalText,
    ?_, ?_⟩
  · exact h.canonicalText_eq_describe hperm
  · rw [hsaid.indexed.canonicalText_eq_describe (.refl _), hsaid.describe_eq]

theorem Storable.load_save_scaledSum : ∃ g files g' nodes,
    (Graph.empty "scaled").runAll scaledSum = .ok g ∧ g.Storable ∧
    g.save "model" (some "weights") 4 .empty = .ok () files ∧ load files "model" = .ok g' ∧
    nodes.Perm g.liveNodes ∧ g'.describe g'.liveNodes = g.describe nodes ∧
    g'.canonicalText = g.canonicalText := by
  obtain ⟨g, files, hg, hstorable, htext, hapart, hsave⟩ := storable_scaledSum
  obtain ⟨g', nodes, hload, hperm, -, hsame, text, htext, htext'⟩ :=
    hstorable.load_save htext hapart hsave
  exact ⟨g, files, g', nodes, hg, hstorable, hsave, hload, hperm, hsame, htext'.trans htext.symm⟩

/--
The loaded graph is stored as the same model and the same external bytes. So it is saved as the
first graph is, wherever it goes, and saving it in the place it was loaded from changes nothing.
-/
theorem Storable.save_load (h : g.Storable)
    (htext : ∀ stored, g.toModel external threshold = .ok stored →
      Model.ofBytes? stored.1.toBytes = some stored.1)
    (hapart : Model.Apart path external)
    (hsave : g.save path external threshold files = .ok () files') :
    ∃ g' stored, load files' path = .ok g' ∧
      g.toModel external threshold = .ok stored ∧ g'.toModel external threshold = .ok stored ∧
      (∀ place, g'.save place external threshold = g.save place external threshold) ∧
      g'.save path external threshold files' = .ok () files' := by
  obtain ⟨g', nodes, hload, hsaid, hperm, hfirst, hmodel, hheld⟩ := h.reload htext hapart hsave
  have hlive : ∀ node ∈ nodes, g.node? node.id = some node := fun node hnode =>
    h.mem_liveNodes.mp (hperm.mem_iff.mp hnode)
  have hmodel' := hsaid.toModel_eq (h.wellFormed hperm).produced_nodup
    (h.toIndexed.producersFirst_describe hlive hfirst) external threshold
  refine ⟨g', _, hload, hmodel, hmodel', ?_, hheld.save hmodel'⟩
  intro place
  rw [save, save, hmodel, hmodel']

theorem Storable.save_load_scaledSum : ∃ g files g' stored,
    (Graph.empty "scaled").runAll scaledSum = .ok g ∧ g.Storable ∧
    g.save "model" (some "weights") 4 .empty = .ok () files ∧ load files "model" = .ok g' ∧
    g.toModel (some "weights") 4 = .ok stored ∧ g'.toModel (some "weights") 4 = .ok stored ∧
    g'.save "model" (some "weights") 4 files = .ok () files := by
  obtain ⟨g, files, hg, hstorable, htext, hapart, hsave⟩ := storable_scaledSum
  obtain ⟨g', stored, hload, hmodel, hmodel', -, hagain⟩ := hstorable.save_load htext hapart hsave
  exact ⟨g, files, g', stored, hg, hstorable, hsave, hload, hmodel, hmodel', hagain⟩

end Graph

end OpGraph
