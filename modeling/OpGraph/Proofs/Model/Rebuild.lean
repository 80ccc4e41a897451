import OpGraph.Proofs.Graph.Reachable
import OpGraph.Proofs.Model.Description

/-!
Graphs from models. The model of a well-formed description can be read, and the graph that it gives
says what the description says: every step of reading adds one item to what the graph says so far.
-/

namespace OpGraph

namespace Description

def known (d : Description) : List String :=
  d.args.map ModelArg.name

def produced (d : Description) : List String :=
  d.nodes.flatMap fun node => present node.outputs

structure WellFormed (d : Description) : Prop where
  args_nodup : d.known.Nodup
  inputs_known : ∀ name ∈ d.inputs, name ∈ d.known
  outputs_known : ∀ name ∈ d.outputs, name ∈ d.known
  outputs_nodup : d.outputs.Nodup
  tensors_ascending : (d.tensors.map Prod.fst).Sublist d.known
  tensors_typed : ∀ item ∈ d.tensors, ⟨item.1, item.2.type⟩ ∈ d.args
  tensors_valid : ∀ item ∈ d.tensors, Graph.checkTensor item.1 item.2 = .ok ()
  nodes_named : ∀ node ∈ d.nodes, node.name ≠ ""
  nodes_nodup : (d.nodes.map ModelNode.name).Nodup
  reads_known : ∀ node ∈ d.nodes, ∀ name ∈ present node.inputs, name ∈ d.known
  produced_known : ∀ name ∈ d.produced, name ∈ d.known
  produced_nodup : d.produced.Nodup
  produced_internal : ∀ name ∈ d.produced, name ∉ d.inputs ∧ name ∉ d.tensors.map Prod.fst

end Description

namespace Graph

variable {g : Graph}

structure Says (g : Graph) (d : Description) : Prop where
  indexed : g.Indexed
  describe_eq : g.describe g.liveNodes = d

theorem liveArgs_pushArg (name : String) (type : TensorType) :
    (g.pushArg name type).liveArgs = g.liveArgs ++ [⟨g.nextArg, name, type⟩] := by
  simp [liveArgs, pushArg, present]

theorem liveNodes_pushNode (name : String) (spec : NodeSpec) :
    (g.pushNode name spec).liveNodes =
      g.liveNodes ++ [⟨g.nextNode, name, spec.key, spec.inputs, spec.outputs, spec.attrs⟩] := by
  simp [liveNodes, pushNode, present]

theorem putArg_self {arg : Arg} (harg : g.arg? arg.id = some arg) : g.putArg arg = g := by
  have hargs : g.args.setIfInBounds arg.id.index (some arg) = g.args := by
    apply Array.ext_getElem?
    intro i
    rw [Array.getElem?_setIfInBounds]
    split
    · next heq =>
      subst heq
      rw [arg?, Option.join_eq_some_iff] at harg
      split
      · exact harg.symm
      · next hlt => rw [Array.getElem?_eq_none (Nat.not_lt.mp hlt)]
    · rfl
  rw [putArg, hargs]

theorem setInitializer_of_typed {a : ArgId} {arg : Arg} (harg : g.arg? a = some arg)
    (hid : arg.id = a)
    (hprod : g.producers[a]? = none) {tensor : Tensor} (htype : arg.type = tensor.type) :
    g.setInitializer a tensor = .ok { g with initializers := g.initializers.insert a tensor } := by
  have hnone : ¬(g.producer? a).isSome = true := by
    rw [producer?, hprod]
    exact Bool.false_ne_true
  have hsame : g.putArg ⟨a, arg.name, tensor.type⟩ = g := by
    subst hid
    rw [← htype]
    exact putArg_self harg
  rw [setInitializer, setArgType, arg_eq_ok_iff.mpr harg, ok_bind, if_neg hnone, ok_bind]
  simp only [pure, Except.pure, ok_bind, hsame]

theorem toList_insert_of_lt {α : Type} {m : Std.ExtTreeMap ArgId α} {a : ArgId}
    (hlt : ∀ entry ∈ m.toList, entry.1.index < a.index) (x : α) :
    (m.insert a x).toList = m.toList ++ [(a, x)] := by
  have hordered : (m.toList ++ [(a, x)]).Pairwise fun entry entry' =>
      compare entry.1 entry'.1 = .lt := by
    rw [List.pairwise_append]
    refine ⟨Std.ExtTreeMap.ordered_keys_toList, List.pairwise_singleton _ _, ?_⟩
    intro entry hentry last hlast
    rw [List.mem_singleton.mp hlast, Handle.compare_def, Nat.compare_eq_lt]
    exact hlt entry hentry
  have hirrefl : ∀ entry entry' : ArgId × α, compare entry.1 entry'.1 = .lt → entry ≠ entry' := by
    rintro entry _ hcompare rfl
    rw [Handle.compare_def, Nat.compare_eq_lt] at hcompare
    exact Nat.lt_irrefl _ hcompare
  have hordered' := (m.insert a x).ordered_keys_toList
  refine List.Perm.eq_of_pairwise ?_ hordered' hordered ?_
  · intro entry entry' _ _ hcompare hcompare'
    rw [Handle.compare_def, Nat.compare_eq_lt] at hcompare hcompare'
    omega
  · rw [List.perm_ext_iff_of_nodup (hordered'.imp (hirrefl _ _)) (hordered.imp (hirrefl _ _))]
    rintro ⟨k, v⟩
    have hnew : (k, v) ∈ m.toList → k ≠ a := by
      rintro hentry rfl
      exact Nat.lt_irrefl _ (hlt (k, v) hentry)
    simp only [List.mem_append, List.mem_singleton, Std.ExtTreeMap.mem_toList_iff_getElem?_eq_some,
      Std.ExtTreeMap.getElem?_insert, Std.LawfulEqCmp.compare_eq_iff_eq, Prod.mk.injEq] at hnew ⊢
    grind

theorem produced_describe (g : Graph) (nodes : List Node) :
    (g.describe nodes).produced = (nodes.flatMap Node.presentOutputs).map g.nameOf := by
  rw [Description.produced, describe, List.flatMap_map, List.map_flatMap]
  exact List.flatMap_congr fun node _ => present_map g.nameOf node.outputs

namespace Indexed

variable (h : g.Indexed)

include h

theorem mem_argNames_iff (nodes : List Node) {name : String} :
    name ∈ g.argNames ↔ name ∈ (g.describe nodes).known := by
  rw [Std.ExtTreeMap.mem_iff_isSome_getElem?, Option.isSome_iff_exists, Description.known, describe,
    List.map_map, List.mem_map]
  constructor
  · rintro ⟨a, ha⟩
    obtain ⟨arg, harg, hname⟩ := (h.argNames_iff name a).mp ha
    exact ⟨arg, mem_liveArgs_iff.mpr ⟨a, harg⟩, hname⟩
  · rintro ⟨arg, harg, hname⟩
    exact ⟨arg.id, (h.argNames_iff name arg.id).mpr ⟨arg, h.mem_liveArgs.mp harg, hname⟩⟩

theorem mem_nodeNames_iff {name : String} :
    name ∈ g.nodeNames ↔ name ∈ (g.describe g.liveNodes).nodes.map ModelNode.name := by
  rw [Std.ExtTreeMap.mem_iff_isSome_getElem?, Option.isSome_iff_exists, describe, List.map_map,
    List.mem_map]
  constructor
  · rintro ⟨id, hid⟩
    obtain ⟨node, hnode, hname⟩ := (h.nodeNames_iff name id).mp hid
    exact ⟨node, mem_liveNodes_iff.mpr ⟨id, hnode⟩, hname⟩
  · rintro ⟨node, hnode, hname⟩
    exact ⟨node.id, (h.nodeNames_iff name node.id).mpr ⟨node, h.mem_liveNodes.mp hnode, hname⟩⟩

theorem index_lt_of_sublist {a b : ArgId} (ha : (g.arg? a).isSome) (hb : (g.arg? b).isSome)
    {nodes : List Node} (hsub : [g.nameOf a, g.nameOf b].Sublist (g.describe nodes).known) :
    a.index < b.index := by
  rw [Description.known, describe, List.map_map] at hsub
  obtain ⟨l, hl, hnames⟩ := List.sublist_map_iff.mp hsub
  obtain ⟨first, rest, rfl, hfirst, hnames⟩ := List.map_eq_cons_iff.mp hnames.symm
  obtain ⟨second, rest, rfl, hsecond, hnames⟩ := List.map_eq_cons_iff.mp hnames
  obtain rfl := List.map_eq_nil_iff.mp hnames
  have hlive : ∀ arg ∈ [first, second], g.arg? arg.id = some arg := fun arg harg =>
    h.mem_liveArgs.mp (hl.subset harg)
  have hplace : ∀ {arg : Arg} {c : ArgId}, g.arg? arg.id = some arg → (g.arg? c).isSome →
      arg.name = g.nameOf c → arg.id = c := by
    intro arg c harg hc hname
    rw [← nameOf_eq harg] at hname
    exact h.nameOf_injective (by rw [harg]; rfl) hc hname
  obtain rfl := hplace (hlive first (by simp)) ha hfirst
  obtain rfl := hplace (hlive second (by simp)) hb hsecond
  exact List.rel_of_pairwise_cons (h.liveArgs_ascending.sublist hl) (by simp)

theorem producers_eq_none_of_produced {a : ArgId}
    (hfree : g.nameOf a ∉ (g.describe g.liveNodes).produced) : g.producers[a]? = none := by
  cases hp : g.producers[a]? with
  | none => rfl
  | some id =>
    obtain ⟨node, hnode, hout⟩ := (h.producers_iff a id).mp hp
    refine absurd ?_ hfree
    rw [produced_describe]
    exact List.mem_map_of_mem (List.mem_flatMap.mpr
      ⟨node, mem_liveNodes_iff.mpr ⟨id, hnode⟩, hout⟩)

end Indexed

namespace Says

theorem addArg {name : String} {args : List ModelArg} (h : g.Says ⟨name, args, [], [], [], []⟩)
    {arg : ModelArg} (hfree : arg.name ∉ args.map ModelArg.name) :
    ∃ g', Model.addArg g arg = .ok g' ∧ g'.Says ⟨name, args ++ [arg], [], [], [], []⟩ := by
  obtain ⟨hindexed, heq⟩ := h
  have hname : arg.name ∉ g.argNames := by
    rw [hindexed.mem_argNames_iff g.liveNodes, heq]
    exact hfree
  rw [describe, Description.mk.injEq] at heq
  obtain ⟨rfl, rfl, hinputs, houtputs, htensors, hnodes⟩ := heq
  refine ⟨g.pushArg arg.name arg.type, ?_, hindexed.pushArg hname arg.type, ?_⟩
  · rw [Model.addArg, Model.edit, newArg, if_neg hname]
  · -- Nothing refers to an arg yet.
    rw [List.map_eq_nil_iff] at hinputs houtputs htensors hnodes
    rw [describe, liveArgs_pushArg, List.map_append]
    change Description.mk _ _ (g.inputs.map _) (g.outputs.map _) (g.initializers.toList.map _)
      (g.liveNodes.map _) = _
    rw [hinputs, houtputs, htensors, hnodes]
    rfl

variable {d : Description} (h : g.Says d)

include h

theorem exists_arg {name : String} (hname : name ∈ d.known) :
    ∃ a, Model.lookup g name = .ok a ∧ (g.arg? a).isSome ∧ g.nameOf a = name := by
  rw [← h.describe_eq, ← h.indexed.mem_argNames_iff, Std.ExtTreeMap.mem_iff_isSome_getElem?,
    Option.isSome_iff_exists] at hname
  obtain ⟨a, ha⟩ := hname
  have hfind : g.findArg? name = some a := ha
  obtain ⟨arg, harg, rfl⟩ := h.indexed.findArg?_eq_some_iff.mp hfind
  exact ⟨a, by rw [Model.lookup, hfind], by rw [harg]; rfl, nameOf_eq harg⟩

theorem lookupSlots {names : List (Option String)}
    (hknown : ∀ name ∈ present names, name ∈ d.known) :
    ∃ slots, names.mapM (Model.lookupSlot g) = .ok slots ∧
      slots.map (Option.map g.nameOf) = names ∧ ∀ a ∈ present slots, (g.arg? a).isSome := by
  induction names with
  | nil => exact ⟨[], rfl, rfl, by simp [present]⟩
  | cons slot names ih =>
    cases slot with
    | none =>
      obtain ⟨slots, hrun, hnames, hlive⟩ := ih hknown
      refine ⟨none :: slots, ?_, by rw [List.map_cons, hnames]; rfl, hlive⟩
      rw [List.mapM_cons, hrun]
      rfl
    | some name =>
      have hhead : present (some name :: names) = name :: present names := rfl
      rw [hhead, List.forall_mem_cons] at hknown
      obtain ⟨a, hlookup, ha, rfl⟩ := h.exists_arg hknown.1
      obtain ⟨slots, hrun, hnames, hlive⟩ := ih hknown.2
      refine ⟨some a :: slots, ?_, by rw [List.map_cons, hnames]; rfl, ?_⟩
      · rw [List.mapM_cons, Model.lookupSlot, hlookup, hrun]
        rfl
      · exact List.forall_mem_cons.mpr ⟨ha, hlive⟩

/-! ### One step of reading -/

theorem addInput {name : String} (hknown : name ∈ d.known) (hfree : name ∉ d.produced) :
    ∃ g', Model.addInput g name = .ok g' ∧ g'.Says { d with inputs := d.inputs ++ [name] } := by
  obtain ⟨a, hlookup, hlive, rfl⟩ := h.exists_arg hknown
  rw [← h.describe_eq] at hfree
  refine ⟨{ g with inputs := g.inputs ++ [a] }, ?_, ?_, ?_⟩
  · rw [Model.addInput, hlookup]
    rfl
  · exact h.indexed.addInput hlive (h.indexed.producers_eq_none_of_produced hfree)
  · rw [← h.describe_eq, describe, List.map_append]
    rfl

theorem addInitializer {external : Option Bytes} {entry : ModelInitializer} {name : String}
    {tensor : Tensor} (hentry : Model.Recovers external entry (name, tensor))
    (htyped : ⟨name, tensor.type⟩ ∈ d.args) (hvalid : checkTensor name tensor = .ok ())
    (hfree : name ∉ d.produced) (hlast : (d.tensors.map Prod.fst ++ [name]).Sublist d.known) :
    ∃ g', Model.addInitializer external g entry = .ok g' ∧
      g'.Says { d with tensors := d.tensors ++ [(name, tensor)] } := by
  obtain rfl := h.describe_eq
  obtain ⟨arg, hmem, heq⟩ := List.mem_map.mp htyped
  obtain ⟨rfl, htype⟩ := ModelArg.mk.inj heq
  have harg := h.indexed.mem_liveArgs.mp hmem
  have hlive : (g.arg? arg.id).isSome := by rw [harg]; rfl
  rw [← nameOf_eq harg] at hfree hlast
  have hprod := h.indexed.producers_eq_none_of_produced hfree
  have hrun := setInitializer_of_typed harg rfl hprod htype
  have hlookup : Model.lookup g entry.name = .ok arg.id := by
    rw [hentry.name, Model.lookup, h.indexed.findArg?_eq_some_iff.mpr ⟨arg, harg, rfl⟩]
  refine ⟨{ g with initializers := g.initializers.insert arg.id tensor }, ?_, ?_, ?_⟩
  · rw [Model.addInitializer, hlookup, ok_bind, hentry.data, ok_bind, hentry.dims, hentry.name]
    simp only [hvalid, hrun]
    rfl
  · exact (evolves_insertInitializer h.indexed hlive hprod tensor).indexed
  · -- The names of the tensors so far stand before this one among the args.
    have hlt : ∀ entry ∈ g.initializers.toList, entry.1.index < arg.id.index := by
      intro entry hentry
      have hkept := h.indexed.initializers_live entry.1 (mem_initializers_of_toList hentry)
      have hname : g.nameOf entry.1 ∈ (g.describe g.liveNodes).tensors.map Prod.fst := by
        rw [describe, List.map_map]
        exact List.mem_map_of_mem hentry
      refine h.indexed.index_lt_of_sublist hkept hlive (.trans ?_ hlast)
      exact (List.singleton_sublist.mpr hname).append (.refl [g.nameOf arg.id])
    rw [describe, toList_insert_of_lt hlt, List.map_append, ← nameOf_eq harg]
    rfl

theorem addNode {node : ModelNode} (hnamed : node.name ≠ "")
    (hname : node.name ∉ d.nodes.map ModelNode.name)
    (hreads : ∀ name ∈ present node.inputs, name ∈ d.known)
    (hproduces : ∀ name ∈ present node.outputs, name ∈ d.known)
    (hfree : ∀ name ∈ present node.outputs,
      name ∉ d.produced ∧ name ∉ d.inputs ∧ name ∉ d.tensors.map Prod.fst) :
    ∃ g', Model.addNode g node = .ok g' ∧ g'.Says { d with nodes := d.nodes ++ [node] } := by
  obtain ⟨name, key, inputs, outputs, attrs⟩ := node
  obtain ⟨ins, hins, rfl, hreadsLive⟩ := h.lookupSlots hreads
  obtain ⟨outs, houts, rfl, hproducesLive⟩ := h.lookupSlots hproduces
  obtain rfl := h.describe_eq
  let spec : NodeSpec := ⟨name, key, ins, outs, attrs⟩
  have hadmits : g.Admits name spec := by
    refine ⟨fun hmem => hname (h.indexed.mem_nodeNames_iff.mp hmem), hreadsLive, hproducesLive, ?_⟩
    intro a ha
    have hout : g.nameOf a ∈ present (outs.map (Option.map g.nameOf)) := by
      rw [present_map]
      exact List.mem_map_of_mem ha
    obtain ⟨hproduced, hinput, htensor⟩ := hfree (g.nameOf a) hout
    refine ⟨h.indexed.producers_eq_none_of_produced hproduced, ?_, ?_⟩
    · exact fun hmem => hinput (List.mem_map_of_mem hmem)
    · intro hmem
      rw [Std.ExtTreeMap.mem_iff_isSome_getElem?, Option.isSome_iff_exists] at hmem
      obtain ⟨tensor, htensor'⟩ := hmem
      apply htensor
      rw [describe, List.map_map]
      exact List.mem_map.mpr
        ⟨(a, tensor), Std.ExtTreeMap.mem_toList_iff_getElem?_eq_some.mpr htensor', rfl⟩
  have hrun : Graph.addNode spec g = .ok g.nextNode (g.pushNode name spec) :=
    addNode_succeeds hadmits (if_neg hnamed).symm
  refine ⟨g.pushNode name spec, ?_, h.indexed.pushNode hadmits, ?_⟩
  · rw [Model.addNode, hins, ok_bind, houts, ok_bind, Model.edit, hrun]
  · rw [describe, liveNodes_pushNode, List.map_append]
    rfl

theorem addOutput {name : String} (hknown : name ∈ d.known) (hnew : name ∉ d.outputs) :
    ∃ g', Model.addOutput g name = .ok g' ∧ g'.Says { d with outputs := d.outputs ++ [name] } := by
  obtain ⟨a, hlookup, hlive, rfl⟩ := h.exists_arg hknown
  obtain ⟨arg, harg⟩ := Option.isSome_iff_exists.mp hlive
  have hother : ¬g.isOutput a = true := by
    intro hout
    rw [isOutput_iff] at hout
    rw [← h.describe_eq] at hnew
    exact hnew (List.mem_map_of_mem hout)
  have hrun : g.addOutput a = .ok { g with outputs := g.outputs ++ [a] } := by
    rw [Graph.addOutput, arg_eq_ok_iff.mpr harg, ok_bind, if_neg hother]
    rfl
  refine ⟨{ g with outputs := g.outputs ++ [a] }, ?_, ?_, ?_⟩
  · rw [Model.addOutput, hlookup, ok_bind, hrun]
    rfl
  · exact (evolves_addOutput h.indexed hrun).indexed
  · rw [← h.describe_eq, describe, List.map_append]
    rfl

end Says

end Graph

/-! ### Reading a model -/

theorem not_mem_front {α : Type} {l done rest : List α} {a : α} (hnodup : l.Nodup)
    (heq : l = done ++ a :: rest) : a ∉ done := by
  rw [heq, List.nodup_append] at hnodup
  intro hmem
  exact hnodup.2.2 a hmem a List.mem_cons_self rfl

namespace Description

open OpGraph.Graph

variable {d : Description}

theorem WellFormed.addInitializers (hd : d.WellFormed) {external : Option Bytes}
    {entries : List ModelInitializer} {items : List (String × Tensor)}
    (hall : List.Forall₂ (Model.Recovers external) entries items) :
    ∀ done g, d.tensors = done ++ items → Says g ⟨d.name, d.args, d.inputs, [], done, []⟩ →
      ∃ g', entries.foldlM (Model.addInitializer external) g = .ok g' ∧
        g'.Says ⟨d.name, d.args, d.inputs, [], d.tensors, []⟩ := by
  induction hall with
  | nil =>
    intro done g hdone hg
    rw [List.append_nil] at hdone
    exact ⟨g, rfl, hdone ▸ hg⟩
  | @cons entry item entries items hentry _ ih =>
    intro done g hdone hg
    have hitem : item ∈ d.tensors := by rw [hdone]; simp
    have hsub : (done.map Prod.fst ++ [item.1]).Sublist d.known := by
      refine .trans ?_ hd.tensors_ascending
      rw [hdone, List.map_append, List.map_cons]
      exact (List.Sublist.refl _).append (List.singleton_sublist.mpr List.mem_cons_self)
    obtain ⟨g₁, hstep, hg₁⟩ := hg.addInitializer hentry (hd.tensors_typed item hitem)
      (hd.tensors_valid item hitem) List.not_mem_nil hsub
    obtain ⟨g', hrest, hg'⟩ := ih (done ++ [item]) g₁ (by rw [hdone]; simp) hg₁
    refine ⟨g', ?_, hg'⟩
    rw [List.foldlM_cons, hstep, ok_bind, hrest]

/-- The model of a well-formed description can be read and gives a graph that says the same. -/
theorem WellFormed.toGraph (hd : d.WellFormed) {external : Option String} {threshold : Nat}
    {bytes : Option Bytes} (hbytes : Model.Supplies bytes (d.store external threshold).2) :
    ∃ g, (d.store external threshold).1.toGraph bytes = .ok g ∧ g.Says d := by
  obtain ⟨g₁, hargs, hg₁⟩ : ∃ g, d.args.foldlM Model.addArg (Graph.empty d.name) = .ok g ∧
      g.Says ⟨d.name, d.args, [], [], [], []⟩ := by
    refine foldlM_succeeds (P := fun done s => Says s ⟨d.name, done, [], [], [], []⟩) d.args ?_ _
      ⟨indexed_empty d.name, rfl⟩
    intro done arg rest s heq hs
    have hnames : d.known = done.map ModelArg.name ++ arg.name :: rest.map ModelArg.name := by
      rw [known, heq, List.map_append, List.map_cons]
    exact hs.addArg (not_mem_front hd.args_nodup hnames)
  obtain ⟨g₂, hinputs, hg₂⟩ : ∃ g, d.inputs.foldlM Model.addInput g₁ = .ok g ∧
      g.Says ⟨d.name, d.args, d.inputs, [], [], []⟩ := by
    refine foldlM_succeeds (P := fun done s => Says s ⟨d.name, d.args, done, [], [], []⟩) d.inputs
      ?_ _ hg₁
    intro done name rest s heq hs
    exact hs.addInput (hd.inputs_known name (by rw [heq]; simp)) List.not_mem_nil
  obtain ⟨g₃, htensors, hg₃⟩ := hd.addInitializers (Model.recovers_storeTensors d.tensors hbytes) []
    g₂ rfl hg₂
  obtain ⟨g₄, hnodes, hg₄⟩ : ∃ g, d.nodes.foldlM Model.addNode g₃ = .ok g ∧
      g.Says ⟨d.name, d.args, d.inputs, [], d.tensors, d.nodes⟩ := by
    refine foldlM_succeeds (P := fun done s =>
      Says s ⟨d.name, d.args, d.inputs, [], d.tensors, done⟩) d.nodes ?_ _ hg₃
    intro done node rest s heq hs
    have hnode : node ∈ d.nodes := by rw [heq]; simp
    have hproduced : ∀ name ∈ present node.outputs, name ∈ d.produced := fun name hname =>
      List.mem_flatMap.mpr ⟨node, hnode, hname⟩
    have hnames : d.nodes.map ModelNode.name =
        done.map ModelNode.name ++ node.name :: rest.map ModelNode.name := by
      rw [heq, List.map_append, List.map_cons]
    refine hs.addNode (hd.nodes_named node hnode) (not_mem_front hd.nodes_nodup hnames)
      (hd.reads_known node hnode) (fun name hname => hd.produced_known name (hproduced name hname))
      ?_
    intro name hname
    refine ⟨?_, hd.produced_internal name (hproduced name hname)⟩
    have hnodup := hd.produced_nodup
    rw [produced, heq, List.flatMap_append, List.flatMap_cons, List.nodup_append] at hnodup
    exact fun hmem => hnodup.2.2 name hmem name (List.mem_append_left _ hname) rfl
  obtain ⟨g₅, houtputs, hg₅⟩ : ∃ g, d.outputs.foldlM Model.addOutput g₄ = .ok g ∧ g.Says d := by
    refine foldlM_succeeds (P := fun done s =>
      Says s ⟨d.name, d.args, d.inputs, done, d.tensors, d.nodes⟩) d.outputs ?_ _ hg₄
    intro done name rest s heq hs
    exact hs.addOutput (hd.outputs_known name (by rw [heq]; simp))
      (not_mem_front hd.outputs_nodup heq)
  refine ⟨g₅, ?_, hg₅⟩
  simp only [store, Model.toGraph, hargs, hinputs, htensors, hnodes, ok_bind]
  exact houtputs

end Description

end OpGraph
