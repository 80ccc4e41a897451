import Mathlib.Data.Set.Function
import OpGraph.Proofs.Model.Content

/-!
Handles do not show in a canonical text. Graphs whose nodes and args correspond have the same
content, so they have the same text, in whatever order they were put together, and whatever was
removed from them or is not used.
-/

namespace OpGraph

def Node.renamed (onNodes : NodeId → NodeId) (onArgs : ArgId → ArgId) (node : Node) : Node :=
  { node with
    id := onNodes node.id
    inputs := node.inputs.map (Option.map onArgs)
    outputs := node.outputs.map (Option.map onArgs) }

namespace Graph

variable {g h : Graph}

def usedArgs (g : Graph) : List ArgId :=
  g.inputs ++ g.outputs ++ g.initializers.keys ++
    g.liveNodes.flatMap fun node => node.presentInputs ++ node.presentOutputs

/--
A correspondence between the nodes of two graphs and between some of their args, which are all the
used ones at least.
-/
structure Renaming (g h : Graph) where
  onNodes : NodeId → NodeId
  onArgs : ArgId → ArgId
  args : Set ArgId
  args' : Set ArgId
  nodes_bijOn : Set.BijOn onNodes {id | id ∈ g.nodeIds} {id | id ∈ h.nodeIds}
  args_bijOn : Set.BijOn onArgs args args'
  used : ∀ a ∈ g.usedArgs, a ∈ args
  used' : ∀ a ∈ h.usedArgs, a ∈ args'
  name_eq : h.name = g.name
  node_eq : ∀ node ∈ g.liveNodes, h.node? (onNodes node.id) = some (node.renamed onNodes onArgs)
  arg_eq : ∀ a ∈ args, ∀ arg ∈ g.arg? a,
    ∃ arg' ∈ h.arg? (onArgs a), arg'.name = arg.name ∧ arg'.type = arg.type
  initializer_eq : ∀ a ∈ args, h.initializers[onArgs a]? = g.initializers[a]?
  inputs_eq : h.inputs = g.inputs.map onArgs
  outputs_eq : h.outputs = g.outputs.map onArgs

theorem mem_usedArgs_iff {a : ArgId} : a ∈ g.usedArgs ↔
    a ∈ g.inputs ∨ a ∈ g.outputs ∨ a ∈ g.initializers ∨
      ∃ node ∈ g.liveNodes, a ∈ node.presentInputs ∨ a ∈ node.presentOutputs := by
  simp only [usedArgs, List.mem_append, List.mem_flatMap, Std.ExtTreeMap.mem_keys, or_assoc]

theorem Indexed.usedArgs_live (hg : g.Indexed) {a : ArgId} (ha : a ∈ g.usedArgs) :
    (g.arg? a).isSome := by
  rcases mem_usedArgs_iff.mp ha with ha | ha | ha | ⟨node, hnode, ha | ha⟩
  · exact hg.inputs_live a ha
  · exact hg.outputs_live a ha
  · exact hg.initializers_live a ha
  · exact hg.reads_live node.id node a (hg.mem_liveNodes.mp hnode) ha
  · exact hg.produces_live node.id node a (hg.mem_liveNodes.mp hnode) ha

namespace Renaming

variable (r : Renaming g h)

theorem argOf_onArgs (hg : g.Indexed) {a : ArgId} (ha : a ∈ g.usedArgs) :
    h.argOf (r.onArgs a) = g.argOf a := by
  obtain ⟨arg, harg⟩ := Option.isSome_iff_exists.mp (hg.usedArgs_live ha)
  obtain ⟨arg', harg', hname, htype⟩ := r.arg_eq a (r.used a ha) arg harg
  rw [argOf, argOf, harg, harg', Option.map_some, Option.map_some, hname, htype]

theorem map_argOf (hg : g.Indexed) {args : List ArgId} (hargs : ∀ a ∈ args, a ∈ g.usedArgs) :
    (args.map r.onArgs).map h.argOf = args.map g.argOf := by
  rw [List.map_map]
  exact List.map_congr_left fun a ha => r.argOf_onArgs hg (hargs a ha)

theorem map_slots (hg : g.Indexed) {slots : List (Option ArgId)}
    (hslots : ∀ a ∈ present slots, a ∈ g.usedArgs) :
    (slots.map (Option.map r.onArgs)).map (Option.map h.argOf) =
      slots.map (Option.map g.argOf) := by
  rw [List.map_map]
  apply List.map_congr_left
  intro slot hslot
  cases slot with
  | none => rfl
  | some a => exact congrArg some (r.argOf_onArgs hg (hslots a (mem_present_iff.mpr hslot)))

theorem nodeContent_renamed (hg : g.Indexed) {node : Node} (hnode : node ∈ g.liveNodes) :
    h.nodeContent (node.renamed r.onNodes r.onArgs) = g.nodeContent node := by
  have hused : ∀ a, a ∈ node.presentInputs ∨ a ∈ node.presentOutputs → a ∈ g.usedArgs :=
    fun a ha => mem_usedArgs_iff.mpr (.inr (.inr (.inr ⟨node, hnode, ha⟩)))
  simp only [nodeContent, Node.renamed, r.map_slots hg fun a ha => hused a (.inl ha),
    r.map_slots hg fun a ha => hused a (.inr ha)]

theorem liveNodes_perm (hg : g.Indexed) (hh : h.Indexed) :
    (g.liveNodes.map (Node.renamed r.onNodes r.onArgs)).Perm h.liveNodes := by
  have hmem : ∀ node ∈ g.liveNodes, node.id ∈ g.nodeIds := fun _ => List.mem_map_of_mem
  have hnodup : (g.liveNodes.map (Node.renamed r.onNodes r.onArgs)).Nodup := by
    refine List.pairwise_map.mpr (hg.liveNodes_ascending.imp_of_mem ?_)
    intro node node' hnode hnode' hlt heq
    have hids := r.nodes_bijOn.injOn (hmem node hnode) (hmem node' hnode') (congrArg Node.id heq)
    exact Nat.ne_of_lt hlt (congrArg Handle.index hids)
  refine (List.perm_ext_iff_of_nodup hnodup hh.liveNodes_nodup).mpr fun node' => ?_
  rw [List.mem_map]
  constructor
  · rintro ⟨node, hnode, rfl⟩
    exact hh.mem_liveNodes.mpr (r.node_eq node hnode)
  · intro hnode'
    obtain ⟨id, hid, heq⟩ := r.nodes_bijOn.surjOn (List.mem_map_of_mem hnode')
    obtain ⟨node, hnode, rfl⟩ := List.mem_map.mp hid
    refine ⟨node, hnode, Option.some.inj ?_⟩
    rw [← r.node_eq node hnode, heq, hh.mem_liveNodes.mp hnode']

theorem initializers_perm :
    (g.initializers.toList.map fun entry => (r.onArgs entry.1, entry.2)).Perm
      h.initializers.toList := by
  have hused : ∀ (g : Graph), ∀ entry ∈ g.initializers.toList, entry.1 ∈ g.usedArgs := by
    intro g entry hentry
    exact mem_usedArgs_iff.mpr (.inr (.inr (.inl (mem_initializers_of_toList hentry))))
  have hnodup : (g.initializers.toList.map fun entry => (r.onArgs entry.1, entry.2)).Nodup := by
    refine List.pairwise_map.mpr (Std.ExtTreeMap.distinct_keys_toList.imp_of_mem ?_)
    intro entry entry' hentry hentry' hne heq
    have hargs := r.args_bijOn.injOn (r.used _ (hused g entry hentry))
      (r.used _ (hused g entry' hentry')) (congrArg Prod.fst heq)
    exact hne (Std.compare_eq_iff_eq.mpr hargs)
  have hnodup' : h.initializers.toList.Nodup := by
    refine Std.ExtTreeMap.distinct_keys_toList.imp ?_
    intro entry entry' hne heq
    exact hne (Std.compare_eq_iff_eq.mpr (congrArg Prod.fst heq))
  refine (List.perm_ext_iff_of_nodup hnodup hnodup').mpr fun entry' => ?_
  rw [List.mem_map]
  constructor
  · rintro ⟨entry, hentry, rfl⟩
    rw [Std.ExtTreeMap.mem_toList_iff_getElem?_eq_some,
      r.initializer_eq entry.1 (r.used _ (hused g entry hentry)),
      Std.ExtTreeMap.mem_toList_iff_getElem?_eq_some.mp hentry]
  · intro hentry'
    obtain ⟨a, ha, heq⟩ := r.args_bijOn.surjOn (r.used' _ (hused h entry' hentry'))
    refine ⟨(a, entry'.2), ?_, Prod.ext heq rfl⟩
    rw [Std.ExtTreeMap.mem_toList_iff_getElem?_eq_some] at hentry' ⊢
    rw [← r.initializer_eq a ha, heq, hentry']

include r in
theorem content_eq (hg : g.Indexed) (hh : h.Indexed) : g.content = h.content := by
  have hused := @mem_usedArgs_iff g
  refine Content.ext r.name_eq.symm ?_ ?_ ?_ ?_
  · rw [content, content, r.inputs_eq, r.map_argOf hg fun a ha => hused.mpr (.inl ha)]
  · rw [content, content, r.outputs_eq, r.map_argOf hg fun a ha => hused.mpr (.inr (.inl ha))]
  · refine Multiset.coe_eq_coe.mpr (.trans (.of_eq ?_) (r.initializers_perm.map _))
    rw [List.map_map]
    apply List.map_congr_left
    intro entry hentry
    have ha := hused.mpr (.inr (.inr (.inl (mem_initializers_of_toList hentry))))
    exact Prod.ext (r.argOf_onArgs hg ha).symm rfl
  · refine Multiset.coe_eq_coe.mpr (.trans (.of_eq ?_) ((r.liveNodes_perm hg hh).map _))
    rw [List.map_map]
    exact List.map_congr_left fun node hnode => (r.nodeContent_renamed hg hnode).symm

end Renaming

theorem canonicalText_eq_of_renaming (hg : g.Indexed) (hh : h.Indexed) (r : Renaming g h) :
    ∃ text, g.canonicalText = .ok text ∧ h.canonicalText = .ok text := by
  refine ⟨_, canonicalText_eq_lines hg, ?_⟩
  rw [text_eq_of_shown (congrArg Content.shown (r.content_eq hg hh))]
  exact canonicalText_eq_lines hh

def sumWithLeftovers : List Mutation :=
  [.newArg "y" ⟨.float32, some [-1, 2]⟩, .newArg "rest" ⟨.float32, none⟩,
    .newArg "sum" ⟨.float32, none⟩, .addInitializer "bias" ⟨[2], .float32 [⟨0⟩, ⟨0x80000000⟩]⟩,
    .addNode ⟨"gone", .standard "Relu", [some ⟨3⟩], [some ⟨1⟩], ∅⟩,
    .addInput "x" ⟨.float32, some [2]⟩,
    .addNode ⟨"scale", .extension "Scale", [some ⟨2⟩, none], [some ⟨0⟩],
      ((∅ : Attrs).insert "factor" (.float ⟨0x3fc00000⟩)).insert "mode" (.string "a\nb")⟩,
    .removeNode ⟨0⟩, .addNode ⟨"add", .standard "Add", [some ⟨4⟩, some ⟨3⟩], [some ⟨2⟩], ∅⟩,
    .addOutput ⟨0⟩]

def besideNode (id : NodeId) : NodeId :=
  ⟨2 - id.index⟩

def besideArg (a : ArgId) : ArgId :=
  if a = ⟨3⟩ then ⟨0⟩ else ⟨4 - a.index⟩

theorem bijOn_of_perm {α β : Type} {f : α → β} {l : List α} {l' : List β} (hnodup : l'.Nodup)
    (hperm : (l.map f).Perm l') : Set.BijOn f {a | a ∈ l} {b | b ∈ l'} := by
  refine ⟨fun a ha => ?_, fun a ha b hb heq => ?_, fun b hb => ?_⟩
  · exact hperm.mem_iff.mp (List.mem_map_of_mem ha)
  · exact List.inj_on_of_nodup_map (hperm.nodup_iff.mpr hnodup) ha hb heq
  · exact List.mem_map.mp (hperm.mem_iff.mpr hb)

theorem canonicalText_eq_of_leftovers : ∃ g h text,
    (Graph.empty "biased").runAll biasedSum = .ok g ∧
    (Graph.empty "biased").runAll sumWithLeftovers = .ok h ∧ g.nodeIds = [⟨0⟩, ⟨1⟩] ∧
    h.nodeIds = [⟨1⟩, ⟨2⟩] ∧ g.numArgs = 4 ∧ h.numArgs = 5 ∧
    g.canonicalText = .ok text ∧ h.canonicalText = .ok text := by
  have hchecks : ∃ g ∈ ((Graph.empty "biased").runAll biasedSum).toOption,
      ∃ h ∈ ((Graph.empty "biased").runAll sumWithLeftovers).toOption,
      g.nodeIds = [⟨0⟩, ⟨1⟩] ∧ h.nodeIds = [⟨1⟩, ⟨2⟩] ∧ g.numArgs = 4 ∧ h.numArgs = 5 ∧
      (∀ a ∈ g.usedArgs, a ∈ [⟨0⟩, ⟨1⟩, ⟨2⟩, ⟨3⟩]) ∧ (∀ a ∈ h.usedArgs, a ∈ [⟨4⟩, ⟨3⟩, ⟨2⟩, ⟨0⟩]) ∧
      h.name = g.name ∧
      (∀ node ∈ g.liveNodes,
        h.node? (besideNode node.id) = some (node.renamed besideNode besideArg)) ∧
      (∀ a ∈ ([⟨0⟩, ⟨1⟩, ⟨2⟩, ⟨3⟩] : List ArgId), ∀ arg ∈ g.arg? a,
        ∃ arg' ∈ h.arg? (besideArg a), arg'.name = arg.name ∧ arg'.type = arg.type) ∧
      (∀ a ∈ ([⟨0⟩, ⟨1⟩, ⟨2⟩, ⟨3⟩] : List ArgId),
        h.initializers[besideArg a]? = g.initializers[a]?) ∧
      h.inputs = g.inputs.map besideArg ∧ h.outputs = g.outputs.map besideArg := by
    decide +kernel
  obtain ⟨g, hg, h, hh, hids, hids', hnum, hnum', hused, hused', hname, hnode, harg, hinitializer,
    hinputs, houtputs⟩ := hchecks
  have hrun := eq_ok_of_mem_toOption hg
  have hrun' := eq_ok_of_mem_toOption hh
  have hnodes : Set.BijOn besideNode {id | id ∈ g.nodeIds} {id | id ∈ h.nodeIds} := by
    rw [hids, hids']
    exact bijOn_of_perm (by decide) (by decide)
  have hargs : Set.BijOn besideArg {a | a ∈ [⟨0⟩, ⟨1⟩, ⟨2⟩, ⟨3⟩]} {a | a ∈ [⟨4⟩, ⟨3⟩, ⟨2⟩, ⟨0⟩]} :=
    bijOn_of_perm (by decide) (by decide)
  obtain ⟨text, htext, htext'⟩ := canonicalText_eq_of_renaming
    (evolves_runAll (indexed_empty "biased") hrun).indexed
    (evolves_runAll (indexed_empty "biased") hrun').indexed
    ⟨besideNode, besideArg, _, _, hnodes, hargs, hused, hused', hname, hnode, harg, hinitializer,
      hinputs, houtputs⟩
  exact ⟨g, h, text, hrun, hrun', hids, hids', hnum, hnum', htext, htext'⟩

end Graph

end OpGraph
