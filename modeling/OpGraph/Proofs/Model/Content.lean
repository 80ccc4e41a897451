import Mathlib.Data.Multiset.ZeroCons
import Mathlib.Data.Multiset.MapFold
import OpGraph.Proofs.Model.Description
import OpGraph.Proofs.Graph.Reachable
import OpGraph.Proofs.Model.Line

/-!
What the canonical text of a graph tells. The content of a graph is all that it holds, by name: args
with their types, tensors, and nodes with their attributes. Graphs have the same canonical text iff
their contents show the same. So the text tells the content of a graph that shows everything, but an
unknown shape, a tensor in an attribute or an empty list hide behind their written forms.
-/

namespace OpGraph

open Text

/-- What a graph holds, with initializers and nodes in no order. -/
@[ext]
structure Content (α : Type) where
  name : String
  inputs : List ModelArg
  outputs : List ModelArg
  initializers : Multiset (ModelArg × α)
  nodes : Multiset NodeContent

namespace Content

def shown (c : Content Tensor) : Content Bytes where
  name := c.name
  inputs := c.inputs.map ModelArg.shown
  outputs := c.outputs.map ModelArg.shown
  initializers := c.initializers.map fun entry => (entry.1.shown, entry.2.data.toBytes)
  nodes := c.nodes.map NodeContent.shown

@[mk_iff]
structure Plain {α : Type} (c : Content α) : Prop where
  name : Text.Plain c.name
  inputs : ∀ arg ∈ c.inputs, Text.Plain arg.name
  outputs : ∀ arg ∈ c.outputs, Text.Plain arg.name
  initializers : ∀ entry ∈ c.initializers, Text.Plain entry.1.name
  nodes : ∀ node ∈ c.nodes, node.Plain

/-- Types and attributes are shown in full, and the type of a tensor is that of its arg. -/
@[mk_iff]
structure Legible (c : Content Tensor) : Prop where
  inputs : ∀ arg ∈ c.inputs, arg.shown = arg
  outputs : ∀ arg ∈ c.outputs, arg.shown = arg
  initializers : ∀ entry ∈ c.initializers, entry.1.shown = entry.1 ∧ entry.2.type = entry.1.type
  nodes : ∀ node ∈ c.nodes, node.shown = node

instance {α : Type} (c : Content α) : Decidable c.Plain :=
  decidable_of_iff' _ c.plain_iff

instance (c : Content Tensor) : Decidable c.Legible :=
  decidable_of_iff' _ c.legible_iff

end Content

theorem map_eq_map_of_keys {α β γ : Type} {s t : Multiset α} {key : α → β} {value : α → γ}
    (heq : s.map key = t.map key)
    (hkeys : ∀ a ∈ s, ∀ b ∈ t, key a = key b → value a = value b) : s.map value = t.map value := by
  rw [← Multiset.rel_eq, Multiset.rel_map] at heq ⊢
  exact heq.mono hkeys

namespace Tensor

def digest (t : Tensor) : UInt64 :=
  hash64 0 t.data.toBytes

theorem eq_of_bytes {t t' : Tensor} (htype : t.type = t'.type)
    (hbytes : t.data.toBytes = t'.data.toBytes) : t = t' := by
  rw [type, type, TensorType.mk.injEq, Option.some.injEq] at htype
  have hdata : some t.data = some t'.data := by
    rw [← Payload.ofBytes?_toBytes t.data, ← Payload.ofBytes?_toBytes t'.data, hbytes]
    exact congrArg (Payload.ofBytes? · _) htype.1
  cases t
  cases t'
  cases htype.2
  cases hdata
  rfl

end Tensor

theorem Content.Legible.eq_of_shown {c c' : Content Tensor} (h : c.Legible) (h' : c'.Legible)
    (heq : c.shown = c'.shown) : c = c' := by
  have hargs : ∀ {args : List ModelArg}, (∀ arg ∈ args, arg.shown = arg) →
      args.map ModelArg.shown = args := fun hargs =>
    (List.map_congr_left hargs).trans (List.map_id'' (fun _ => rfl) _)
  have hnodes : ∀ {nodes : Multiset NodeContent}, (∀ node ∈ nodes, node.shown = node) →
      nodes.map NodeContent.shown = nodes := fun hnodes =>
    (Multiset.map_congr rfl hnodes).trans (Multiset.map_id' _)
  rw [shown, shown, Content.mk.injEq] at heq
  obtain ⟨hname, hinputs, houtputs, hinitializers, hnode⟩ := heq
  rw [hargs h.inputs, hargs h'.inputs] at hinputs
  rw [hargs h.outputs, hargs h'.outputs] at houtputs
  rw [hnodes h.nodes, hnodes h'.nodes] at hnode
  have hentries : c.initializers.map id = c'.initializers.map id := by
    apply map_eq_map_of_keys hinitializers
    intro entry hentry entry' hentry' hkey
    obtain ⟨harg, htype⟩ := h.initializers entry hentry
    obtain ⟨harg', htype'⟩ := h'.initializers entry' hentry'
    rw [Prod.mk.injEq, harg, harg'] at hkey
    have htypes : entry.2.type = entry'.2.type := by
      rw [htype, htype', hkey.1]
    exact Prod.ext hkey.1 (Tensor.eq_of_bytes htypes hkey.2)
  rw [Multiset.map_id, Multiset.map_id] at hentries
  exact Content.ext hname hinputs houtputs hentries hnode

namespace Line

def input? : Line → Option ModelArg
  | input arg => some arg
  | _ => none

def output? : Line → Option ModelArg
  | output arg => some arg
  | _ => none

def initializer? : Line → Option (ModelArg × UInt64)
  | initializer arg digest => some (arg, digest)
  | _ => none

def node? : Line → Option NodeContent
  | node content => some content
  | _ => none

def sort (lines : List Line) : List Line :=
  lines.mergeSort fun a b => (compare a.text b.text).isLE

theorem map_text_sort (lines : List Line) :
    (sort lines).map text = Graph.sortLines (lines.map text) :=
  List.map_mergeSort fun _ _ _ _ => rfl

theorem sort_perm (lines : List Line) : (sort lines).Perm lines :=
  List.mergeSort_perm _ _

end Line

namespace Graph

variable {g h : Graph}

def argOf (g : Graph) (a : ArgId) : ModelArg :=
  ((g.arg? a).map fun arg => ⟨arg.name, arg.type⟩).getD ⟨"", .unknown .undefined⟩

def nodeContent (g : Graph) (node : Node) : NodeContent :=
  ⟨node.name, node.key, node.inputs.map (Option.map g.argOf), node.outputs.map (Option.map g.argOf),
    node.attrs⟩

def content (g : Graph) : Content Tensor where
  name := g.name
  inputs := g.inputs.map g.argOf
  outputs := g.outputs.map g.argOf
  initializers := g.initializers.toList.map fun entry => (g.argOf entry.1, entry.2)
  nodes := g.liveNodes.map g.nodeContent

def lines (g : Graph) : List Line :=
  g.inputs.map (fun a => .input (g.argOf a)) ++ g.outputs.map (fun a => .output (g.argOf a)) ++
    Line.sort (g.initializers.toList.map fun entry =>
      .initializer (g.argOf entry.1) entry.2.digest) ++
    Line.sort (g.liveNodes.map fun node => .node (g.nodeContent node))

theorem slotText_describe (hg : g.Indexed) (nodes : List Node) {a : ArgId}
    (ha : (g.arg? a).isSome) :
    (g.describe nodes).slotText (some (g.nameOf a)) = (g.argOf a).text := by
  obtain ⟨arg, harg⟩ := Option.isSome_iff_exists.mp ha
  have htext : g.slotText (some a) = .ok (g.argOf a).text := by
    rw [slotText, arg_eq_ok_iff.mpr harg, argOf, harg]
    rfl
  exact Except.ok.inj ((hg.slotText_eq nodes ha).symm.trans htext)

theorem slotTexts_describe (hg : g.Indexed) (nodes : List Node) {slots : List (Option ArgId)}
    (hlive : ∀ a ∈ present slots, (g.arg? a).isSome) :
    (slots.map (Option.map g.nameOf)).map (g.describe nodes).slotText =
      (slots.map (Option.map g.argOf)).map ModelArg.slotText := by
  rw [List.map_map, List.map_map]
  apply List.map_congr_left
  intro slot hslot
  cases slot with
  | none => rfl
  | some a => exact slotText_describe hg nodes (hlive a (mem_present_iff.mpr hslot))

theorem nodeLine_describe (hg : g.Indexed) (nodes : List Node) {node : Node}
    (hnode : node ∈ g.liveNodes) : (g.describe nodes).nodeLine (g.describeNode node) =
      (Line.node (g.nodeContent node)).text := by
  have hid := hg.mem_liveNodes.mp hnode
  have hentry : Attr.entryText = fun entry => entry.1 ++ "=" ++ entry.2.text := rfl
  delta Description.nodeLine
  simp only [describeNode, Line.text, NodeContent.text, nodeContent,
    slotTexts_describe hg nodes fun a ha => hg.reads_live node.id node a hid ha,
    slotTexts_describe hg nodes fun a ha => hg.produces_live node.id node a hid ha,
    hentry, String.append_assoc]

theorem canonicalText_eq_lines (hg : g.Indexed) : g.canonicalText =
    .ok ("\n".intercalate (("graph " ++ g.name) :: g.lines.map Line.text)) := by
  have hinputs : (g.describe g.liveNodes).inputs.map (fun name =>
      "input " ++ (g.describe g.liveNodes).slotText (some name)) =
      (g.inputs.map fun a => Line.input (g.argOf a)).map Line.text := by
    rw [describe, List.map_map, List.map_map]
    exact List.map_congr_left fun a ha =>
      congrArg ("input " ++ ·) (slotText_describe hg _ (hg.inputs_live a ha))
  have houtputs : (g.describe g.liveNodes).outputs.map (fun name =>
      "output " ++ (g.describe g.liveNodes).slotText (some name)) =
      (g.outputs.map fun a => Line.output (g.argOf a)).map Line.text := by
    rw [describe, List.map_map, List.map_map]
    exact List.map_congr_left fun a ha =>
      congrArg ("output " ++ ·) (slotText_describe hg _ (hg.outputs_live a ha))
  have hinitializers :
      (g.describe g.liveNodes).tensors.map (g.describe g.liveNodes).initializerLine =
      (g.initializers.toList.map fun entry =>
        Line.initializer (g.argOf entry.1) entry.2.digest).map Line.text := by
    rw [describe, List.map_map, List.map_map]
    apply List.map_congr_left
    intro entry hentry
    have hlive := hg.initializers_live entry.1 (mem_initializers_of_toList hentry)
    exact congrArg (fun text => "initializer " ++ text ++ " #" ++ hexPadded 16 entry.2.digest.toNat)
      (slotText_describe hg _ hlive)
  have hnodes : (g.describe g.liveNodes).nodes.map (g.describe g.liveNodes).nodeLine =
      (g.liveNodes.map fun node => Line.node (g.nodeContent node)).map Line.text := by
    rw [describe, List.map_map, List.map_map]
    exact List.map_congr_left fun node hnode => nodeLine_describe hg _ hnode
  rw [hg.canonicalText_eq_describe (.refl _), Description.canonicalText, hinputs, houtputs,
    hinitializers, hnodes, ← Line.map_text_sort, ← Line.map_text_sort, ← List.map_append,
    ← List.map_append, ← List.map_append]
  rfl

/-! ### Equal texts -/

theorem plain_of_mem_lines (h : g.content.Plain) : ∀ line ∈ g.lines, line.Plain := by
  intro line hline
  simp only [lines, List.mem_append, (Line.sort_perm _).mem_iff, List.mem_map] at hline
  rcases hline with ((⟨a, ha, rfl⟩ | ⟨a, ha, rfl⟩) | ⟨entry, hentry, rfl⟩) | ⟨node, hnode, rfl⟩
  · exact h.inputs _ (List.mem_map_of_mem ha)
  · exact h.outputs _ (List.mem_map_of_mem ha)
  · have hmem : (g.argOf entry.1, entry.2) ∈ g.content.initializers :=
      Multiset.mem_coe.mpr (List.mem_map.mpr ⟨entry, hentry, rfl⟩)
    exact h.initializers (g.argOf entry.1, entry.2) hmem
  · exact h.nodes _ (Multiset.mem_coe.mpr (List.mem_map_of_mem hnode))

section Sections

variable {β : Type} (f : Line → Option β)

theorem filterMap_lines (hinitializer : ∀ arg digest, f (.initializer arg digest) = none)
    (hnode : ∀ node, f (.node node) = none) :
    g.lines.filterMap f = (g.inputs.filterMap fun a => f (.input (g.argOf a))) ++
      g.outputs.filterMap fun a => f (.output (g.argOf a)) := by
  have hnone : ∀ {lines : List Line}, (∀ line ∈ lines, f line = none) →
      (Line.sort lines).filterMap f = [] := fun hlines =>
    List.filterMap_eq_nil_iff.mpr fun line hline =>
      hlines line ((Line.sort_perm _).mem_iff.mp hline)
  rw [lines, List.filterMap_append, List.filterMap_append, List.filterMap_append,
    List.filterMap_map, List.filterMap_map, hnone, hnone, List.append_nil, List.append_nil]
  · rfl
  · intro line hline
    obtain ⟨node, -, rfl⟩ := List.mem_map.mp hline
    exact hnode _
  · intro line hline
    obtain ⟨entry, -, rfl⟩ := List.mem_map.mp hline
    exact hinitializer _ _

theorem filterMap_lines_perm (g : Graph) (hinput : ∀ arg, f (.input arg) = none)
    (houtput : ∀ arg, f (.output arg) = none) : (g.lines.filterMap f).Perm
      ((g.initializers.toList.filterMap fun entry =>
        f (.initializer (g.argOf entry.1) entry.2.digest)) ++
      g.liveNodes.filterMap fun node => f (.node (g.nodeContent node))) := by
  have hinputs : (g.inputs.map fun a => Line.input (g.argOf a)).filterMap f = [] := by
    rw [List.filterMap_map]
    exact List.filterMap_eq_nil_iff.mpr fun a _ => hinput _
  have houtputs : (g.outputs.map fun a => Line.output (g.argOf a)).filterMap f = [] := by
    rw [List.filterMap_map]
    exact List.filterMap_eq_nil_iff.mpr fun a _ => houtput _
  have hsorted := ((Line.sort_perm (g.initializers.toList.map fun entry =>
    .initializer (g.argOf entry.1) entry.2.digest)).filterMap f).append
      ((Line.sort_perm (g.liveNodes.map fun node => .node (g.nodeContent node))).filterMap f)
  rw [List.filterMap_map, List.filterMap_map] at hsorted
  rw [lines, List.filterMap_append, List.filterMap_append, List.filterMap_append, hinputs, houtputs]
  exact hsorted

end Sections

theorem content_of_lines (hlines : g.lines.map Line.shown = h.lines.map Line.shown) :
    g.content.inputs.map ModelArg.shown = h.content.inputs.map ModelArg.shown ∧
    g.content.outputs.map ModelArg.shown = h.content.outputs.map ModelArg.shown ∧
    g.content.initializers.map (fun entry => (entry.1.shown, entry.2.digest)) =
      h.content.initializers.map (fun entry => (entry.1.shown, entry.2.digest)) ∧
    g.content.nodes.map NodeContent.shown = h.content.nodes.map NodeContent.shown := by
  have hinputs : ∀ g : Graph, (g.lines.map Line.shown).filterMap Line.input? =
      g.content.inputs.map ModelArg.shown := by
    intro g
    rw [List.filterMap_map, filterMap_lines _ (fun _ _ => rfl) fun _ => rfl]
    simp [content, Line.shown, Line.input?]
  have houtputs : ∀ g : Graph, (g.lines.map Line.shown).filterMap Line.output? =
      g.content.outputs.map ModelArg.shown := by
    intro g
    rw [List.filterMap_map, filterMap_lines _ (fun _ _ => rfl) fun _ => rfl]
    simp [content, Line.shown, Line.output?]
  have hinitializers : ∀ g : Graph,
      ((g.lines.map Line.shown).filterMap Line.initializer? : Multiset _) =
        g.content.initializers.map fun entry => (entry.1.shown, entry.2.digest) := by
    intro g
    have hperm :=
      g.filterMap_lines_perm (Line.initializer? ∘ Line.shown) (fun _ => rfl) fun _ => rfl
    rw [List.filterMap_map, Multiset.coe_eq_coe.mpr hperm]
    simp [content, Line.shown, Line.initializer?, Function.comp_def]
  have hnodes : ∀ g : Graph, ((g.lines.map Line.shown).filterMap Line.node? : Multiset _) =
      g.content.nodes.map NodeContent.shown := by
    intro g
    have hperm := g.filterMap_lines_perm (Line.node? ∘ Line.shown) (fun _ => rfl) fun _ => rfl
    rw [List.filterMap_map, Multiset.coe_eq_coe.mpr hperm]
    simp [content, Line.shown, Line.node?, Function.comp_def]
  refine ⟨?_, ?_, ?_, ?_⟩
  · rw [← hinputs, hlines, hinputs]
  · rw [← houtputs, hlines, houtputs]
  · rw [← hinitializers, hlines, hinitializers]
  · rw [← hnodes, hlines, hnodes]

theorem shown_lines_eq (hg : g.content.Plain) (hh : h.content.Plain)
    (heq : "\n".intercalate (("graph " ++ g.name) :: g.lines.map Line.text) =
      "\n".intercalate (("graph " ++ h.name) :: h.lines.map Line.text)) :
    g.name = h.name ∧ g.lines.map Line.shown = h.lines.map Line.shown := by
  have hchars : ∀ g : Graph,
      ("\n".intercalate (("graph " ++ g.name) :: g.lines.map Line.text)).toList =
        "graph ".toList ++
          (g.name.toList ++ behind ['\n'] (fun line => line.text.toList) g.lines) := by
    intro g
    have hjoined := joined_cons ['\n'] String.toList ("graph " ++ g.name) (g.lines.map Line.text)
    rw [behind, List.flatMap_map, String.toList_append, List.append_assoc] at hjoined
    rw [String.toList_intercalate]
    exact hjoined
  have hends :
      ∀ g : Graph, Follows ['\n'] (behind ['\n'] (fun line => line.text.toList) g.lines) := by
    intro g
    have hfollows : Follows ['\n'] (behind ['\n'] (fun line => line.text.toList) g.lines ++ []) :=
      follows_behind g.lines (follows_nil [])
    rwa [List.append_nil] at hfollows
  have hlists := congrArg String.toList heq
  rw [hchars, hchars] at hlists
  obtain ⟨hname, htail⟩ := hg.name.append_inj hh.name ['\n'] (by decide) (hends g) (hends h)
    (List.append_cancel_left hlists)
  have htells : Tells _ [] (behind ['\n'] fun line => line.text.toList) (List.map Line.shown) :=
    Line.tells.behind (by simp)
  rw [← List.append_nil (behind _ _ g.lines), ← List.append_nil (behind _ _ h.lines)] at htail
  have hlines := htells (plain_of_mem_lines hg) (plain_of_mem_lines hh) (follows_nil _)
    (follows_nil _) htail
  exact ⟨hname, hlines.1⟩

theorem text_eq_of_shown (heq : g.content.shown = h.content.shown) :
    "\n".intercalate (("graph " ++ g.name) :: g.lines.map Line.text) =
      "\n".intercalate (("graph " ++ h.name) :: h.lines.map Line.text) := by
  rw [Content.shown, Content.shown, Content.mk.injEq] at heq
  obtain ⟨hname, hinputs, houtputs, hinitializers, hnodes⟩ := heq
  have hinputLines : (g.inputs.map fun a => Line.input (g.argOf a)).map Line.text =
      (h.inputs.map fun a => Line.input (h.argOf a)).map Line.text := by
    have hlines := congrArg (List.map fun arg => (Line.input arg).text) hinputs
    simpa [content, Line.text, ModelArg.text_shown, Function.comp_def] using hlines
  have houtputLines : (g.outputs.map fun a => Line.output (g.argOf a)).map Line.text =
      (h.outputs.map fun a => Line.output (h.argOf a)).map Line.text := by
    have hlines := congrArg (List.map fun arg => (Line.output arg).text) houtputs
    simpa [content, Line.text, ModelArg.text_shown, Function.comp_def] using hlines
  have hinitializerLines : ((g.initializers.toList.map fun entry =>
      Line.initializer (g.argOf entry.1) entry.2.digest).map Line.text).Perm
      ((h.initializers.toList.map fun entry =>
        Line.initializer (h.argOf entry.1) entry.2.digest).map Line.text) := by
    have hlines := congrArg (Multiset.map fun entry : ModelArg × Bytes =>
      (Line.initializer entry.1 (hash64 0 entry.2)).text) hinitializers
    simpa [content, Line.text, ModelArg.text_shown, Tensor.digest, Function.comp_def] using hlines
  have hnodeLines :
      ((g.liveNodes.map fun node => Line.node (g.nodeContent node)).map Line.text).Perm
      ((h.liveNodes.map fun node => Line.node (h.nodeContent node)).map Line.text) := by
    have hlines := congrArg (Multiset.map fun node => (Line.node node).text) hnodes
    simpa [content, Line.text, NodeContent.text_shown, Function.comp_def] using hlines
  have hlines : g.lines.map Line.text = h.lines.map Line.text := by
    simp only [lines, List.map_append, Line.map_text_sort]
    rw [hinputLines, houtputLines, sortLines_perm hinitializerLines, sortLines_perm hnodeLines]
  rw [show g.name = h.name from hname, hlines]

/--
Graphs have the same canonical text iff their contents show the same, so that the text tells a
content that shows everything.
-/
theorem canonicalText_eq_iff_shown (hg : g.Indexed) (hh : h.Indexed) (hplain : g.content.Plain)
    (hplain' : h.content.Plain)
    (hdigest : ∀ entry ∈ g.content.initializers, ∀ entry' ∈ h.content.initializers,
      entry.2.digest = entry'.2.digest → entry.2.data.toBytes = entry'.2.data.toBytes) :
    ∃ text text', g.canonicalText = .ok text ∧ h.canonicalText = .ok text' ∧
      (text = text' ↔ g.content.shown = h.content.shown) ∧
      (g.content.Legible → h.content.Legible → (text = text' ↔ g.content = h.content)) := by
  have hiff : "\n".intercalate (("graph " ++ g.name) :: g.lines.map Line.text) =
      "\n".intercalate (("graph " ++ h.name) :: h.lines.map Line.text) ↔
        g.content.shown = h.content.shown := by
    refine ⟨fun heq => ?_, text_eq_of_shown⟩
    obtain ⟨hname, hlines⟩ := shown_lines_eq hplain hplain' heq
    obtain ⟨hinputs, houtputs, hinitializers, hnodes⟩ := content_of_lines hlines
    have hentries : g.content.shown.initializers = h.content.shown.initializers :=
      map_eq_map_of_keys hinitializers fun entry hentry entry' hentry' hkey =>
        have hparts := Prod.mk.inj hkey
        Prod.ext hparts.1 (hdigest entry hentry entry' hentry' hparts.2)
    exact Content.ext hname hinputs houtputs hentries hnodes
  refine ⟨_, _, canonicalText_eq_lines hg, canonicalText_eq_lines hh, hiff, ?_⟩
  intro hlegible hlegible'
  exact hiff.trans ⟨hlegible.eq_of_shown hlegible', fun heq => by rw [heq]⟩

def biasedSum : List Mutation :=
  [.addInput "x" ⟨.float32, some [2]⟩, .addInitializer "bias" ⟨[2], .float32 [⟨0⟩, ⟨0x80000000⟩]⟩,
    .newArg "sum" ⟨.float32, none⟩, .newArg "y" ⟨.float32, some [-1, 2]⟩,
    .addNode ⟨"add", .standard "Add", [some ⟨0⟩, some ⟨1⟩], [some ⟨2⟩], ∅⟩,
    .addNode ⟨"scale", .extension "Scale", [some ⟨2⟩, none], [some ⟨3⟩],
      ((∅ : Attrs).insert "factor" (.float ⟨0x3fc00000⟩)).insert "mode" (.string "a\nb")⟩,
    .addOutput ⟨3⟩]

def sumOfBias : List Mutation :=
  [.newArg "y" ⟨.float32, some [-1, 2]⟩, .newArg "sum" ⟨.float32, none⟩,
    .addInitializer "bias" ⟨[2], .float32 [⟨0⟩, ⟨0x80000000⟩]⟩, .addInput "x" ⟨.float32, some [2]⟩,
    .addNode ⟨"scale", .extension "Scale", [some ⟨1⟩, none], [some ⟨0⟩],
      ((∅ : Attrs).insert "factor" (.float ⟨0x3fc00000⟩)).insert "mode" (.string "a\nb")⟩,
    .addNode ⟨"add", .standard "Add", [some ⟨3⟩, some ⟨2⟩], [some ⟨1⟩], ∅⟩, .addOutput ⟨0⟩]

theorem canonicalText_eq_of_biasedSum : ∃ g h text,
    (Graph.empty "biased").runAll biasedSum = .ok g ∧
    (Graph.empty "biased").runAll sumOfBias = .ok h ∧ g.content.Plain ∧ h.content.Plain ∧
    g.content.Legible ∧ h.content.Legible ∧ g.content = h.content ∧
    g.canonicalText = .ok text ∧ h.canonicalText = .ok text := by
  have hchecks : ∃ g ∈ ((Graph.empty "biased").runAll biasedSum).toOption,
      ∃ h ∈ ((Graph.empty "biased").runAll sumOfBias).toOption, g.content.Plain ∧ h.content.Plain ∧
      g.content.Legible ∧ h.content.Legible ∧ g.content.name = h.content.name ∧
      g.content.inputs = h.content.inputs ∧ g.content.outputs = h.content.outputs ∧
      g.content.initializers = h.content.initializers ∧ g.content.nodes = h.content.nodes ∧
      ∀ entry ∈ g.content.initializers, ∀ entry' ∈ h.content.initializers,
        entry.2.data.toBytes = entry'.2.data.toBytes := by decide +kernel
  obtain ⟨g, hg, h, hh, hplain, hplain', hlegible, hlegible', hname, hinputs, houtputs,
    hinitializers, hnodes, hbytes⟩ := hchecks
  have hrun := eq_ok_of_mem_toOption hg
  have hrun' := eq_ok_of_mem_toOption hh
  have hsame : g.content = h.content := Content.ext hname hinputs houtputs hinitializers hnodes
  obtain ⟨text, text', htext, htext', -, hiff⟩ := canonicalText_eq_iff_shown
    (evolves_runAll (indexed_empty "biased") hrun).indexed
    (evolves_runAll (indexed_empty "biased") hrun').indexed hplain hplain'
    fun entry hentry entry' hentry' _ => hbytes entry hentry entry' hentry'
  obtain rfl := (hiff hlegible hlegible').mpr hsame
  exact ⟨g, h, text, hrun, hrun', hplain, hplain', hlegible, hlegible', hsame, htext, htext'⟩

def throughEdits (shape : Option (List Int64)) : List Mutation :=
  [.addInput "x" ⟨.float32, shape⟩, .addOutput ⟨0⟩]

/-- An unknown number of axes is written like one axis of unknown extent. -/
theorem canonicalText_of_unranked : ∃ g h text,
    (Graph.empty "g").runAll (throughEdits none) = .ok g ∧
    (Graph.empty "g").runAll (throughEdits (some [-1])) = .ok h ∧
    g.content.Plain ∧ h.content.Plain ∧ g.content.initializers = 0 ∧ h.content.initializers = 0 ∧
    g.canonicalText = .ok text ∧ h.canonicalText = .ok text ∧
    g.content.inputs ≠ h.content.inputs := by
  have hchecks : ∃ g ∈ ((Graph.empty "g").runAll (throughEdits none)).toOption,
      ∃ h ∈ ((Graph.empty "g").runAll (throughEdits (some [-1]))).toOption,
      g.content.Plain ∧ h.content.Plain ∧ g.content.initializers = 0 ∧ h.content.initializers = 0 ∧
      g.content.inputs ≠ h.content.inputs ∧ g.content.shown.name = h.content.shown.name ∧
      g.content.shown.inputs = h.content.shown.inputs ∧
      g.content.shown.outputs = h.content.shown.outputs ∧
      g.content.shown.initializers = h.content.shown.initializers ∧
      g.content.shown.nodes = h.content.shown.nodes := by decide +kernel
  obtain ⟨g, hg, h, hh, hplain, hplain', hnone, hnone', hinputs, hshown⟩ := hchecks
  have hrun := eq_ok_of_mem_toOption hg
  have hrun' := eq_ok_of_mem_toOption hh
  have htext := canonicalText_eq_lines (evolves_runAll (indexed_empty "g") hrun).indexed
  have htext' := canonicalText_eq_lines (evolves_runAll (indexed_empty "g") hrun').indexed
  rw [← text_eq_of_shown (Content.ext_iff.mpr hshown)] at htext'
  exact ⟨g, h, _, hrun, hrun', hplain, hplain', hnone, hnone', htext, htext', hinputs⟩

end Graph

end OpGraph
