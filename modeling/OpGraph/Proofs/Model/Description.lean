import OpGraph.Proofs.Graph.Canonical
import OpGraph.Proofs.Model.Payload

/-!
Graphs without handles. A description says by name what a graph holds, with the nodes in some order.
A graph is stored by way of its description, and its canonical text can be read off there.
-/

namespace OpGraph

theorem present_map {α β : Type} (f : α → β) (slots : List (Option α)) :
    present (slots.map (Option.map f)) = (present slots).map f := by
  rw [present, present, List.filterMap_map, List.map_filterMap]
  rfl

structure Description where
  name : String
  args : List ModelArg
  inputs : List String
  outputs : List String
  tensors : List (String × Tensor)
  nodes : List ModelNode
deriving DecidableEq

namespace Description

def store (d : Description) (external : Option String) (threshold : Nat) : Model × Bytes :=
  let stored := Model.storeTensors external.isSome threshold d.tensors
  ({ format := Model.formatName
     version := Model.formatVersion
     name := d.name
     externalData := if stored.2.isEmpty then none else external
     inputs := d.inputs
     outputs := d.outputs
     args := d.args
     initializers := stored.1
     nodes := d.nodes }, stored.2)

def slotText (d : Description) : Option String → String
  | none => "_"
  | some name =>
    match d.args.find? fun arg => arg.name == name with
    | some arg => arg.name ++ ": " ++ arg.type.text
    | none => name

def initializerLine (d : Description) (item : String × Tensor) : String :=
  "initializer " ++ d.slotText (some item.1) ++ " #" ++
    Text.hexPadded 16 (hash64 0 item.2.data.toBytes).toNat

def nodeLine (d : Description) (node : ModelNode) : String :=
  let attrs := node.attrs.toList.map fun entry => entry.1 ++ "=" ++ entry.2.text
  "node " ++ node.name ++ " " ++ node.key.text ++ "(" ++
    ", ".intercalate (node.inputs.map d.slotText) ++ ") -> (" ++
    ", ".intercalate (node.outputs.map d.slotText) ++ ") [" ++ ", ".intercalate attrs ++ "]"

def canonicalText (d : Description) : String :=
  let inputs := d.inputs.map fun name => "input " ++ d.slotText (some name)
  let outputs := d.outputs.map fun name => "output " ++ d.slotText (some name)
  let initializers := Graph.sortLines (d.tensors.map d.initializerLine)
  let nodes := Graph.sortLines (d.nodes.map d.nodeLine)
  "\n".intercalate (("graph " ++ d.name) :: (inputs ++ outputs ++ initializers ++ nodes))

end Description

namespace Graph

def nameOf (g : Graph) (a : ArgId) : String :=
  ((g.arg? a).map Arg.name).getD ""

def describeNode (g : Graph) (node : Node) : ModelNode :=
  ⟨node.name, node.key, node.inputs.map (Option.map g.nameOf),
    node.outputs.map (Option.map g.nameOf), node.attrs⟩

def describe (g : Graph) (nodes : List Node) : Description where
  name := g.name
  args := g.liveArgs.map fun arg => ⟨arg.name, arg.type⟩
  inputs := g.inputs.map g.nameOf
  outputs := g.outputs.map g.nameOf
  tensors := g.initializers.toList.map fun entry => (g.nameOf entry.1, entry.2)
  nodes := nodes.map g.describeNode

variable {g : Graph}

theorem nameOf_eq {a : ArgId} {arg : Arg} (harg : g.arg? a = some arg) : g.nameOf a = arg.name := by
  rw [nameOf, harg]
  rfl

theorem argName_eq {a : ArgId} (ha : (g.arg? a).isSome) : g.argName a = .ok (g.nameOf a) := by
  obtain ⟨arg, harg⟩ := Option.isSome_iff_exists.mp ha
  rw [argName, arg_eq_ok_iff.mpr harg, nameOf_eq harg]
  rfl

theorem slotNames_eq {slots : List (Option ArgId)}
    (hlive : ∀ a ∈ present slots, (g.arg? a).isSome) :
    slots.mapM g.slotName = .ok (slots.map (Option.map g.nameOf)) := by
  apply mapM_eq_map
  intro slot hslot
  cases slot with
  | none => rfl
  | some a =>
    rw [slotName, argName_eq (hlive a (mem_present_iff.mpr hslot))]
    rfl

theorem mem_initializers_of_toList {entry : ArgId × Tensor}
    (hentry : entry ∈ g.initializers.toList) : entry.1 ∈ g.initializers := by
  rw [Std.ExtTreeMap.mem_iff_isSome_getElem?,
    Std.ExtTreeMap.mem_toList_iff_getElem?_eq_some.mp hentry]
  rfl

namespace Indexed

variable (h : g.Indexed)

include h

theorem nameOf_injective {a b : ArgId} (ha : (g.arg? a).isSome) (hb : (g.arg? b).isSome)
    (heq : g.nameOf a = g.nameOf b) : a = b := by
  obtain ⟨arg, harg⟩ := Option.isSome_iff_exists.mp ha
  obtain ⟨arg', harg'⟩ := Option.isSome_iff_exists.mp hb
  rw [nameOf_eq harg, nameOf_eq harg'] at heq
  exact h.argName_unique harg harg' heq

/-! ### Storing by way of the description -/

theorem modelNode_eq {node : Node} (hnode : node ∈ g.liveNodes) :
    g.modelNode node.id = .ok (g.describeNode node) := by
  have hid := h.mem_liveNodes.mp hnode
  rw [modelNode, node_eq_ok_iff.mpr hid, ok_bind,
    slotNames_eq fun a ha => h.reads_live node.id node a hid ha, ok_bind,
    slotNames_eq fun a ha => h.produces_live node.id node a hid ha, ok_bind]
  rfl

theorem modelInitializers_eq (hasExternal : Bool) (threshold : Nat) (nodes : List Node) :
    g.modelInitializers hasExternal threshold =
      .ok (Model.storeTensors hasExternal threshold (g.describe nodes).tensors) := by
  rw [modelInitializers, Model.storeTensors, describe, List.foldl_map]
  apply foldlM_eq_foldl
  rintro ⟨entries, bytes⟩ ⟨a, tensor⟩ hentry
  have hlive := h.initializers_live a (mem_initializers_of_toList hentry)
  simp only [argName_eq hlive, ok_bind, Model.storeTensor]
  split
  · rfl
  · rfl

theorem toModel_eq {nodes : List Node} (hnodes : ∀ node ∈ nodes, node ∈ g.liveNodes)
    (horder : g.orderOrFault = .ok (nodes.map Node.id)) (external : Option String)
    (threshold : Nat) :
    g.toModel external threshold = .ok ((g.describe nodes).store external threshold) := by
  have hinputs : g.inputs.mapM g.argName = .ok (g.inputs.map g.nameOf) :=
    mapM_eq_map fun a ha => argName_eq (h.inputs_live a ha)
  have houtputs : g.outputs.mapM g.argName = .ok (g.outputs.map g.nameOf) :=
    mapM_eq_map fun a ha => argName_eq (h.outputs_live a ha)
  have hmodels : (nodes.map Node.id).mapM g.modelNode = .ok (nodes.map g.describeNode) := by
    rw [List.mapM_map]
    exact mapM_eq_map fun node hnode => h.modelNode_eq (hnodes node hnode)
  simp only [toModel, h.modelInitializers_eq _ _ nodes, hinputs, houtputs, horder, hmodels, ok_bind]
  rfl

/-! ### The canonical text -/

theorem slotText_eq (nodes : List Node) {a : ArgId} (ha : (g.arg? a).isSome) :
    g.slotText (some a) = .ok ((g.describe nodes).slotText (some (g.nameOf a))) := by
  obtain ⟨arg, harg⟩ := Option.isSome_iff_exists.mp ha
  have hfind : (g.describe nodes).args.find? (fun entry => entry.name == arg.name) =
      some ⟨arg.name, arg.type⟩ := by
    cases hfound : (g.describe nodes).args.find? (fun entry => entry.name == arg.name) with
    | none =>
      have hmem : ⟨arg.name, arg.type⟩ ∈ (g.describe nodes).args :=
        List.mem_map.mpr ⟨arg, mem_liveArgs_iff.mpr ⟨a, harg⟩, rfl⟩
      simpa using List.find?_eq_none.mp hfound _ hmem
    | some entry =>
      obtain ⟨arg', harg', rfl⟩ := List.mem_map.mp (List.mem_of_find?_eq_some hfound)
      have hname : arg'.name = arg.name := by simpa using List.find?_some hfound
      have hlive := h.mem_liveArgs.mp harg'
      obtain rfl := h.argName_unique hlive harg hname
      rw [hlive] at harg
      cases harg
      rfl
  rw [slotText, arg_eq_ok_iff.mpr harg, nameOf_eq harg, Description.slotText, hfind]
  rfl

theorem slotTexts_eq (nodes : List Node) {slots : List (Option ArgId)}
    (hlive : ∀ a ∈ present slots, (g.arg? a).isSome) : slots.mapM g.slotText =
      .ok ((slots.map (Option.map g.nameOf)).map (g.describe nodes).slotText) := by
  rw [List.map_map]
  apply mapM_eq_map
  intro slot hslot
  cases slot with
  | none => rfl
  | some a => exact h.slotText_eq nodes (hlive a (mem_present_iff.mpr hslot))

theorem nodeLine_eq (nodes : List Node) {node : Node} (hnode : node ∈ g.liveNodes) :
    g.nodeLine node = .ok ((g.describe nodes).nodeLine (g.describeNode node)) := by
  have hid := h.mem_liveNodes.mp hnode
  rw [nodeLine, h.slotTexts_eq nodes fun a ha => h.reads_live node.id node a hid ha, ok_bind,
    h.slotTexts_eq nodes fun a ha => h.produces_live node.id node a hid ha, ok_bind]
  rfl

/-- The canonical text says what the description says, whatever the order of its nodes. -/
theorem canonicalText_eq_describe {nodes : List Node} (hperm : nodes.Perm g.liveNodes) :
    g.canonicalText = .ok (g.describe nodes).canonicalText := by
  have hinputs : g.inputLines = .ok ((g.describe nodes).inputs.map fun name =>
      "input " ++ (g.describe nodes).slotText (some name)) := by
    rw [describe, List.map_map]
    apply mapM_eq_map
    intro a ha
    rw [h.slotText_eq nodes (h.inputs_live a ha)]
    rfl
  have houtputs : g.outputLines = .ok ((g.describe nodes).outputs.map fun name =>
      "output " ++ (g.describe nodes).slotText (some name)) := by
    rw [describe, List.map_map]
    apply mapM_eq_map
    intro a ha
    rw [h.slotText_eq nodes (h.outputs_live a ha)]
    rfl
  have hinitializers : g.initializerLines = .ok (sortLines
      ((g.describe nodes).tensors.map (g.describe nodes).initializerLine)) := by
    have hlines : g.initializers.toList.mapM (fun entry => do
        let digest := (hash64 0 entry.2.data.toBytes).toNat
        return "initializer " ++ (← g.slotText (some entry.1)) ++ " #" ++
          Text.hexPadded 16 digest) =
        .ok ((g.describe nodes).tensors.map (g.describe nodes).initializerLine) := by
      rw [describe, List.map_map]
      apply mapM_eq_map
      intro entry hentry
      have hlive := h.initializers_live entry.1 (mem_initializers_of_toList hentry)
      simp only [h.slotText_eq nodes hlive, ok_bind]
      rfl
    rw [initializerLines]
    exact congrArg (fun x => x >>= fun lines => pure (sortLines lines)) hlines
  have hnodes : g.nodeLines = .ok (sortLines
      ((g.describe nodes).nodes.map (g.describe nodes).nodeLine)) := by
    have hlines : g.liveNodes.mapM g.nodeLine =
        .ok ((g.liveNodes.map g.describeNode).map (g.describe nodes).nodeLine) := by
      rw [List.map_map]
      exact mapM_eq_map fun node hnode => h.nodeLine_eq nodes hnode
    rw [nodeLines, hlines]
    exact congrArg Except.ok (sortLines_perm ((hperm.symm.map _).map _))
  rw [canonicalText, hinputs, ok_bind, houtputs, ok_bind, hinitializers, ok_bind, hnodes, ok_bind]
  rfl

end Indexed

theorem canonicalText_of_perm {g' : Graph} (h : g.Indexed) (hname : g'.name = g.name)
    (hsame : SameArgs g g')
    (hnodes : (g.liveNodes.map Node.spec).Perm (g'.liveNodes.map Node.spec)) :
    ∃ text, g.canonicalText = .ok text ∧ g'.canonicalText = .ok text := by
  have hinputs : g'.inputLines = g.inputLines := by
    rw [inputLines, inputLines, hsame.inputs, hsame.slotText]
  have houtputs : g'.outputLines = g.outputLines := by
    rw [outputLines, outputLines, hsame.outputs, hsame.slotText]
  have hinitializers : g'.initializerLines = g.initializerLines := by
    rw [initializerLines, initializerLines, hsame.initializers, hsame.slotText]
  have hnodeLines : g'.nodeLines = g.nodeLines := by
    have hrun : (g.liveNodes.map Node.spec).mapM g.specLine = .ok (g.liveNodes.map fun node =>
        (g.describe g.liveNodes).nodeLine (g.describeNode node)) := by
      rw [List.mapM_map]
      apply mapM_eq_map
      intro node hnode
      have hline := h.nodeLine_eq g.liveNodes hnode
      exact hline
    obtain ⟨lines, hlines, hperm⟩ := mapM_perm hnodes hrun
    rw [nodeLines_eq, nodeLines_eq, hsame.specLine, hlines, hrun]
    exact congrArg Except.ok (sortLines_perm hperm.symm)
  have htext := h.canonicalText_eq_describe (.refl g.liveNodes)
  refine ⟨_, htext, ?_⟩
  rw [← htext, canonicalText, canonicalText, hinputs, houtputs, hinitializers, hname, hnodeLines]

end Graph

end OpGraph
