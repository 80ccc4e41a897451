import Mathlib.Data.List.Sort
import OpGraph.Proofs.Provenance.Anchored
import OpGraph.Proofs.Provenance.Retained

/-!
What is left when the garbage is collected. A node is dead if nothing asks for what it gives, and
the search for dead nodes ends when there are none. In a graph without a cycle the nodes that are
left are then those from which a graph output is reached. Around every arg that is left the
provenance is what it was: its producer is still there if it had one, and so are the events of all
its ancestors.
-/

namespace OpGraph.Graph

open Relation

variable {g g' : Graph}

/--
A graph output is given by the node, or by a node that reads from it over any number of edges.
-/
def ReachesOutput (g : Graph) (id : NodeId) : Prop :=
  ∃ last node a, ReflTransGen g.Feeds id last ∧ g.node? last = some node ∧
    a ∈ node.presentOutputs ∧ a ∈ g.outputs

def Wanted (g : Graph) (a : ArgId) : Prop :=
  a ∈ g.outputs ∨ ∃ id reader, g.node? id = some reader ∧ a ∈ reader.presentInputs

theorem Wanted.mono (hnodes : ∀ id node, g'.node? id = some node → g.node? id = some node)
    (houtputs : g'.outputs = g.outputs) {a : ArgId} (ha : g'.Wanted a) : g.Wanted a := by
  rcases ha with ha | ⟨id, reader, hreader, ha⟩
  · exact .inl (houtputs ▸ ha)
  · exact .inr ⟨id, reader, hnodes id reader hreader, ha⟩

theorem isDead_iff_not_wanted (h : g.Indexed) {node : Node} :
    g.isDead node = true ↔ ∀ a ∈ node.presentOutputs, ¬ g.Wanted a := by
  simp only [isDead_iff h, Wanted, not_or, not_exists, not_and]

theorem exists_wanted_of_undead (h : g.Indexed) (hundead : g.liveNodes.filter g.isDead = [])
    {id : NodeId} {node : Node} (hnode : g.node? id = some node) :
    ∃ a ∈ node.presentOutputs, g.Wanted a := by
  have halive := List.filter_eq_nil_iff.mp hundead node (mem_liveNodes_iff.mpr ⟨id, hnode⟩)
  rw [isDead_iff_not_wanted h] at halive
  push Not at halive
  exact halive

/-! ### Dead nodes -/

/-- Nodes are gone, none of which gives anything that is still wanted. -/
structure Weeded (g g' : Graph) : Prop extends SameArgs g g' where
  indexed : g'.Indexed
  name : g'.name = g.name
  nodes : ∀ id node, g'.node? id = some node → g.node? id = some node
  unwanted : ∀ id node, g.node? id = some node → g'.node? id = none →
    ∀ a ∈ node.presentOutputs, ¬ g'.Wanted a

theorem Weeded.refl (h : g.Indexed) : Weeded g g where
  toSameArgs := .refl g
  indexed := h
  name := rfl
  nodes _ _ hnode := hnode
  unwanted id node hnode hgone := by
    rw [hnode] at hgone
    cases hgone

theorem Weeded.trans {g₁ g₂ g₃ : Graph} (h : Weeded g₁ g₂) (h' : Weeded g₂ g₃) : Weeded g₁ g₃ where
  toSameArgs := h.toSameArgs.trans h'.toSameArgs
  indexed := h'.indexed
  name := h'.name.trans h.name
  nodes id node hnode := h.nodes id node (h'.nodes id node hnode)
  unwanted id node hnode hgone a ha := by
    cases hmid : g₂.node? id with
    | none =>
      exact fun hwanted => h.unwanted id node hnode hmid a ha (hwanted.mono h'.nodes h'.outputs)
    | some node' =>
      obtain rfl := Option.some.inj (hnode.symm.trans (h.nodes id node' hmid))
      exact h'.unwanted id node hmid hgone a ha

theorem weeded_round (h : g.Indexed) :
    ∃ left, ((g.liveNodes.filter g.isDead).map Node.id).foldlM
        (fun g id => Prod.snd <$> g.removeNode id) g = .ok left ∧
      Weeded g left ∧ left.liveNodes = g.liveNodes.filter fun node => !g.isDead node := by
  have hsublist : (g.liveNodes.filter g.isDead).Sublist g.liveNodes := List.filter_sublist
  obtain ⟨left, hleft, hindexed, hsame, hnodes⟩ := removeSublist_succeeds h hsublist
  have hdead : ∀ id node, g.node? id = some node →
      (id ∈ (g.liveNodes.filter g.isDead).map Node.id ↔ g.isDead node = true) := by
    intro id node hnode
    have hid := h.node_id id node hnode
    constructor
    · intro hmem
      obtain ⟨node', hnode', rfl⟩ := List.mem_map.mp hmem
      obtain ⟨hlive, hdead⟩ := List.mem_filter.mp hnode'
      obtain rfl := Option.some.inj ((h.mem_liveNodes.mp hlive).symm.trans hnode)
      exact hdead
    · intro hdead
      exact List.mem_map.mpr
        ⟨node, List.mem_filter.mpr ⟨mem_liveNodes_iff.mpr ⟨id, hnode⟩, hdead⟩, hid⟩
  have hkept : ∀ id node, left.node? id = some node ↔
      g.node? id = some node ∧ g.isDead node = false := by
    intro id node
    rw [hnodes, ← Bool.not_eq_true]
    split
    · next hmem =>
      constructor
      · intro hnone
        cases hnone
      · exact fun hnode => absurd ((hdead id node hnode.1).mp hmem) hnode.2
    · next hmem =>
      exact ⟨fun hnode => ⟨hnode, mt (hdead id node hnode).mpr hmem⟩, fun hnode => hnode.1⟩
  have hsub : ∀ id node, left.node? id = some node → g.node? id = some node :=
    fun id node hnode => ((hkept id node).mp hnode).1
  refine ⟨left, hleft, ⟨hsame, hindexed, name_removeNodes hleft, hsub, ?_⟩, ?_⟩
  · intro id node hnode hgone a ha hwanted
    have hgoes : g.isDead node = true := by
      by_contra halive
      rw [(hkept id node).mpr ⟨hnode, Bool.not_eq_true _ ▸ halive⟩] at hgone
      cases hgone
    exact (isDead_iff_not_wanted h).mp hgoes a ha (hwanted.mono hsub hsame.outputs)
  · have hirrefl : Std.Irrefl fun node node' : Node => node.id.index < node'.id.index :=
      ⟨fun node => Nat.lt_irrefl node.id.index⟩
    refine hindexed.liveNodes_ascending.eq_of_mem_iff
      (h.liveNodes_ascending.sublist List.filter_sublist) fun node => ?_
    rw [hindexed.mem_liveNodes, hkept, List.mem_filter, h.mem_liveNodes, Bool.not_eq_true']

/-- Every round but the last takes out a node, so the rounds are enough to leave no dead node. -/
theorem weeded_removeDead (h : g.Indexed) {fuel : Nat} (hfuel : g.liveNodes.length < fuel)
    (removed : Nat) : ∃ count left, removeDead fuel removed g = .ok (removed + count, left) ∧
      Weeded g left ∧ count + left.liveNodes.length = g.liveNodes.length ∧
      left.liveNodes.filter left.isDead = [] := by
  induction fuel generalizing removed g with
  | zero => omega
  | succ fuel ih =>
    rw [removeDead]
    split
    · next hnone =>
      exact ⟨0, g, rfl, .refl h, by omega, List.map_eq_nil_iff.mp hnone⟩
    · next hsome =>
      obtain ⟨g₁, hg₁, hweeded, hlive⟩ := weeded_round h
      have hlength := List.length_eq_length_filter_add (l := g.liveNodes) g.isDead
      have hpos : (g.liveNodes.filter g.isDead).length ≠ 0 :=
        fun hzero => hsome (List.map_eq_nil_iff.mpr (List.length_eq_zero_iff.mp hzero))
      rw [← hlive] at hlength
      obtain ⟨count, left, hrun, hrest, hcount, hnone⟩ := ih hweeded.indexed (by omega)
        (removed + ((g.liveNodes.filter g.isDead).map Node.id).length)
      rw [List.length_map] at hrun
      refine ⟨(g.liveNodes.filter g.isDead).length + count, left, ?_, hweeded.trans hrest, by omega,
        hnone⟩
      rw [hg₁, ok_bind, List.length_map, hrun, Nat.add_assoc]

/-! ### Orphans -/

theorem removeOrphans_frame (g : Graph) :
    g.removeOrphans.nodes = g.nodes ∧ g.removeOrphans.outputs = g.outputs ∧
      g.removeOrphans.name = g.name := by
  rw [removeOrphans]
  refine List.foldlRecOn (motive := fun (s : Graph) =>
    s.nodes = g.nodes ∧ s.outputs = g.outputs ∧ s.name = g.name) _ _ ⟨rfl, rfl, rfl⟩ ?_
  rintro s ⟨hnodes, houtputs, hname⟩ a -
  obtain ⟨hnodes', -, houtputs', -⟩ := removeArg_frame s a
  refine ⟨hnodes'.trans hnodes, houtputs'.trans houtputs, ?_⟩
  rw [removeArg]
  split
  · exact hname
  · exact hname

theorem node?_removeOrphans (g : Graph) (id : NodeId) : g.removeOrphans.node? id = g.node? id := by
  rw [node?, (removeOrphans_frame g).1, node?]

theorem wanted_removeOrphans {a : ArgId} : g.removeOrphans.Wanted a ↔ g.Wanted a := by
  simp only [Wanted, node?_removeOrphans, (removeOrphans_frame g).2.1]

theorem touches_removeOrphans {a : ArgId} : g.removeOrphans.Touches a ↔ g.Touches a := by
  simp only [Touches, node?_removeOrphans]

theorem isOrphan_iff_not_touches (h : g.Indexed) {a : ArgId} :
    g.isOrphan a = true ↔ ¬ (a ∈ g.inputs ∨ a ∈ g.outputs ∨ g.Touches a) := by
  rw [isOrphan_iff h, Touches]
  grind

theorem arg?_foldl_removeArg (orphans : List ArgId) (g : Graph) (a : ArgId) :
    (orphans.foldl removeArg g).arg? a = if a ∈ orphans then none else g.arg? a := by
  induction orphans generalizing g with
  | nil => simp
  | cons orphan orphans ih =>
    rw [List.foldl_cons, ih, arg?_removeArg]
    simp only [List.mem_cons]
    grind

theorem arg?_removeOrphans (h : g.Indexed) (a : ArgId) :
    g.removeOrphans.arg? a = if g.isOrphan a then none else g.arg? a := by
  rw [removeOrphans, arg?_foldl_removeArg]
  simp only [List.mem_filter, h.mem_argIds]
  cases g.arg? a with
  | none => simp
  | some arg => simp

theorem live_removeOrphans_iff (h : g.Indexed) {a : ArgId} :
    (g.removeOrphans.arg? a).isSome ↔ a ∈ g.inputs ∨ a ∈ g.outputs ∨ g.Touches a := by
  rw [arg?_removeOrphans h]
  split
  · next horphan => simpa using (isOrphan_iff_not_touches h).mp horphan
  · next hkept =>
    have hused := not_not.mp (mt (isOrphan_iff_not_touches h).mpr hkept)
    refine ⟨fun _ => hused, fun _ => ?_⟩
    rcases hused with hin | hout | ⟨id, node, hnode, hread | hmade⟩
    · exact h.inputs_live a hin
    · exact h.outputs_live a hout
    · exact h.reads_live id node a hnode hread
    · exact h.produces_live id node a hnode hmade

theorem initializers_removeOrphans (h : g.Indexed) :
    g.removeOrphans.initializers =
      g.initializers.filter fun a _ => (g.removeOrphans.arg? a).isSome := by
  have hlive := (evolves_removeOrphans h).indexed.initializers_live
  have hkept : ∀ a tensor, (g.removeOrphans.initializers[a]? = some tensor →
        g.initializers[a]? = some tensor) ∧
      (g.initializers[a]? = some tensor → (g.removeOrphans.arg? a).isSome →
        g.removeOrphans.initializers[a]? = some tensor) := by
    intro a tensor
    rw [removeOrphans]
    refine List.foldlRecOn (motive := fun (s : Graph) =>
      (s.initializers[a]? = some tensor → g.initializers[a]? = some tensor) ∧
      (g.initializers[a]? = some tensor → (s.arg? a).isSome → s.initializers[a]? = some tensor))
      _ _ ⟨id, fun htensor _ => htensor⟩ ?_
    rintro s ⟨hsub, hsup⟩ orphan -
    rw [arg?_removeArg, removeArg]
    split
    · exact ⟨hsub, fun htensor harg => hsup htensor (by grind)⟩
    · simp only [Std.ExtTreeMap.getElem?_erase, Std.compare_eq_iff_eq]
      grind
  refine Std.ExtTreeMap.ext_getElem? fun a => Option.ext fun tensor => ?_
  rw [Std.ExtTreeMap.getElem?_filter', Option.filter_eq_some_iff]
  constructor
  · intro htensor
    refine ⟨(hkept a tensor).1 htensor, hlive a ?_⟩
    rw [Std.ExtTreeMap.mem_iff_isSome_getElem?, htensor]
    rfl
  · exact fun htensor => (hkept a tensor).2 htensor.1 htensor.2

/-! ### Collection -/

structure Collected (g : Graph) (removed : Nat) (g' : Graph) : Prop extends Pruned g g' where
  name : g'.name = g.name
  unwanted : ∀ id node, g.node? id = some node → g'.node? id = none →
    ∀ a ∈ node.presentOutputs, ¬ g'.Wanted a
  undead : ∀ id node, g'.node? id = some node → ∃ a ∈ node.presentOutputs, g'.Wanted a
  count : removed + g'.liveNodes.length = g.liveNodes.length
  live_iff : ∀ a, (g'.arg? a).isSome ↔ a ∈ g.inputs ∨ a ∈ g.outputs ∨ g'.Touches a
  args_kept : ∀ a arg, g'.arg? a = some arg → g.arg? a = some arg
  initializers : g'.initializers = g.initializers.filter fun a _ => (g'.arg? a).isSome
  log : g'.log = g.log.retainReachable g'.argIds

theorem collect_spec (h : g.Indexed) :
    ∃ removed g', g.collect = .ok (removed, g') ∧ Collected g removed g' := by
  obtain ⟨count, left, hrun, hweeded, hcount, hundead⟩ :=
    weeded_removeDead h (Nat.lt_succ_self g.liveNodes.length) 0
  rw [Nat.zero_add] at hrun
  have hcollect : g.collect = .ok (count, left.removeOrphans.pruneLog) := by
    rw [collect, hrun]
    rfl
  obtain ⟨_, _, hpruned, hp⟩ := pruned_collect h
  cases hcollect.symm.trans hpruned
  obtain ⟨hnodes, -, hname⟩ := removeOrphans_frame left
  -- Apart from the log, the two graphs are the same, so the lemmas on orphans apply as they are.
  refine ⟨count, _, hcollect, hp, hname.trans hweeded.name, ?_, ?_, ?_, ?_, ?_, ?_,
    log_collect hcollect⟩
  · intro id node hnode hgone a ha hwanted
    have hleft : left.node? id = none := (node?_removeOrphans left id).symm.trans hgone
    exact hweeded.unwanted id node hnode hleft a ha (wanted_removeOrphans.mp hwanted)
  · intro id node hnode
    have hleft : left.node? id = some node := (node?_removeOrphans left id).symm.trans hnode
    obtain ⟨a, ha, hwanted⟩ := exists_wanted_of_undead hweeded.indexed hundead hleft
    exact ⟨a, ha, wanted_removeOrphans.mpr hwanted⟩
  · rw [liveNodes, pruneLog, hnodes]
    exact hcount
  · intro a
    have hlive := live_removeOrphans_iff hweeded.indexed (a := a)
    rw [hweeded.inputs, hweeded.outputs, ← touches_removeOrphans] at hlive
    exact hlive
  · intro a arg harg
    change left.removeOrphans.arg? a = some arg at harg
    rw [arg?_removeOrphans hweeded.indexed, arg?, hweeded.args] at harg
    split at harg
    · cases harg
    · exact harg
  · rw [← hweeded.initializers]
    exact initializers_removeOrphans hweeded.indexed

namespace Collected

variable {removed : Nat} (hc : Collected g removed g')

include hc

theorem collect_again : g'.collect = .ok (0, g') := by
  have hdead : g'.liveNodes.filter g'.isDead = [] := by
    rw [List.filter_eq_nil_iff]
    intro node hnode hdead
    obtain ⟨a, ha, hwanted⟩ := hc.undead node.id node (hc.indexed.mem_liveNodes.mp hnode)
    exact (isDead_iff_not_wanted hc.indexed).mp hdead a ha hwanted
  have horphans : g'.removeOrphans = g' := by
    have hnone : g'.argIds.filter g'.isOrphan = [] := by
      rw [List.filter_eq_nil_iff]
      intro a ha horphan
      rw [isOrphan_iff_not_touches hc.indexed, hc.inputs, hc.outputs, ← hc.live_iff] at horphan
      exact horphan (hc.indexed.mem_argIds.mp ha)
    rw [removeOrphans, hnone, List.foldl_nil]
  have hlog : g'.pruneLog = g' := by
    rw [pruneLog]
    have hsame : g'.log.retainReachable g'.argIds = g'.log := by
      nth_rewrite 1 [hc.log]
      rw [Log.retainReachable_retainReachable, ← hc.log]
    rw [hsame]
  rw [collect, removeDead, hdead, List.map_nil, ok_bind]
  change Except.ok (0, g'.removeOrphans.pruneLog) = _
  rw [horphans, hlog]

theorem node?_of_feeds (h : g.Indexed) {source target : NodeId} (hfeeds : g.Feeds source target)
    {node : Node} (hnode : g'.node? target = some node) :
    ∃ giver, g'.node? source = some giver := by
  obtain ⟨reader, a, hreader, ha, hproducer⟩ := hfeeds
  obtain rfl := Option.some.inj ((hc.nodes target node hnode).symm.trans hreader)
  obtain ⟨giver, hgiver, hmem⟩ := h.producer?_eq_some_iff.mp hproducer
  cases hleft : g'.node? source with
  | some giver' => exact ⟨giver', rfl⟩
  | none =>
    exact absurd (.inr ⟨target, node, hnode, ha⟩) (hc.unwanted source giver hgiver hleft a hmem)

theorem node?_of_reachesOutput (h : g.Indexed) {id : NodeId} (hid : g.ReachesOutput id) :
    ∃ node, g'.node? id = some node := by
  obtain ⟨last, node, a, hpath, hnode, hmem, hout⟩ := hid
  induction hpath using ReflTransGen.head_induction_on with
  | refl =>
    cases hleft : g'.node? last with
    | some node' => exact ⟨node', rfl⟩
    | none => exact absurd (.inl (hc.outputs ▸ hout)) (hc.unwanted last node hnode hleft a hmem)
  | head hfeeds _ ih =>
    obtain ⟨target, htarget⟩ := ih
    exact hc.node?_of_feeds h hfeeds htarget

theorem reachesOutput_of_node? (h : g.Indexed) (hacyclic : g.Acyclic) {id : NodeId} {node : Node}
    (hnode : g'.node? id = some node) : g.ReachesOutput id := by
  have hwf : WellFounded (Function.swap g.Feeds) := by
    refine wellFounded_of_live (fun x y hxy => (h.mem_nodeIds_of_feeds hxy).symm) fun x hcycle => ?_
    exact hacyclic x (transGen_swap.mp hcycle)
  induction id using hwf.induction generalizing node with
  | h id ih =>
    have hbefore := hc.nodes id node hnode
    obtain ⟨a, ha, hout | ⟨target, reader, hreader, hread⟩⟩ := hc.undead id node hnode
    · exact ⟨id, node, a, .refl, hbefore, ha, hc.outputs ▸ hout⟩
    · have hfeeds : g.Feeds id target := ⟨reader, a, hc.nodes target reader hreader, hread,
        h.producer?_eq_some_iff.mpr ⟨node, hbefore, ha⟩⟩
      obtain ⟨last, node', b, hpath, hlast⟩ := ih target hfeeds hreader
      exact ⟨last, node', b, .head hfeeds hpath, hlast⟩

theorem node?_eq_some_iff (h : g.Indexed) (hacyclic : g.Acyclic) {id : NodeId} {node : Node} :
    g'.node? id = some node ↔ g.node? id = some node ∧ g.ReachesOutput id := by
  constructor
  · exact fun hnode => ⟨hc.nodes id node hnode, hc.reachesOutput_of_node? h hacyclic hnode⟩
  · rintro ⟨hnode, hreaches⟩
    obtain ⟨node', hnode'⟩ := hc.node?_of_reachesOutput h hreaches
    rw [hnode', ← hc.nodes id node' hnode', hnode]

theorem heldFixPoint?_eq (h : g.Indexed) {a : ArgId} (ha : (g'.arg? a).isSome) :
    g'.heldFixPoint? a = g.heldFixPoint? a := by
  cases hproducer : g.producer? a with
  | none =>
    have hnone := heldFixPoint?_of_producer?_eq_none hproducer
    rw [hnone, h.heldFixPoint?_of_nodesFrom hc.indexed (.of_subset hc.nodes) hnone]
  | some id =>
    obtain ⟨node, hnode, hmem⟩ := h.producer?_eq_some_iff.mp hproducer
    cases hleft : g'.node? id with
    | some node' =>
      obtain rfl := Option.some.inj (hnode.symm.trans (hc.nodes id node' hleft))
      rw [hc.indexed.heldFixPoint?_of_mem hleft hmem, h.heldFixPoint?_of_mem hnode hmem]
    | none =>
      -- Then nothing asks for the arg, and nothing else can give it, so it would be gone, too.
      have hunwanted := hc.unwanted id node hnode hleft a hmem
      rcases (hc.live_iff a).mp ha with hin | hout | ⟨id', node', hnode', hread | hmade⟩
      · exact absurd hin (h.produced_internal a id hproducer).1
      · exact absurd (.inl (hc.outputs ▸ hout)) hunwanted
      · exact absurd (.inr ⟨id', node', hnode', hread⟩) hunwanted
      · have hid := h.producer?_eq_some_iff.mpr ⟨node', hc.nodes id' node' hnode', hmade⟩
        cases hproducer.symm.trans hid
        rw [hnode'] at hleft
        cases hleft

end Collected

/--
In a graph without a cycle, collecting the garbage leaves exactly the nodes from which a graph
output is reached, as they were; of the args exactly the inputs, the outputs and those around these
nodes, with their constants. The number is that of the nodes that are gone, and there is nothing to
collect after that.
-/
theorem collect_exact (h : g.Indexed) (hacyclic : g.Acyclic) :
    ∃ removed g', g.collect = .ok (removed, g') ∧
      (∀ id node, g'.node? id = some node ↔ g.node? id = some node ∧ g.ReachesOutput id) ∧
      (∀ a, (g'.arg? a).isSome ↔ a ∈ g.inputs ∨ a ∈ g.outputs ∨ g'.Touches a) ∧
      (∀ a arg, g'.arg? a = some arg → g.arg? a = some arg) ∧
      g'.name = g.name ∧ g'.inputs = g.inputs ∧ g'.outputs = g.outputs ∧
      g'.initializers = g.initializers.filter (fun a _ => (g'.arg? a).isSome) ∧
      removed + g'.liveNodes.length = g.liveNodes.length ∧
      g'.collect = .ok (0, g') := by
  obtain ⟨removed, g', hcollect, hc⟩ := collect_spec h
  exact ⟨removed, g', hcollect, fun id node => hc.node?_eq_some_iff h hacyclic, hc.live_iff,
    hc.args_kept, hc.name, hc.inputs, hc.outputs, hc.initializers, hc.count, hc.collect_again⟩

/--
Two nodes lead to the output. Two others form a chain that ends nowhere, and share a constant with
what is left; the last one gives nothing.
-/
def weedyEdits : List Mutation :=
  [.addInput "x" ⟨.float32, none⟩, .addInitializer "w" ⟨[1], .float32 [⟨0⟩]⟩,
    .addInitializer "v" ⟨[1], .float32 [⟨0⟩]⟩, .newArg "a" ⟨.float32, none⟩,
    .newArg "b" ⟨.float32, none⟩, .newArg "c" ⟨.float32, none⟩, .newArg "d" ⟨.float32, none⟩,
    .newArg "e" ⟨.float32, none⟩,
    .addNode ⟨"add", .standard "Add", [some ⟨0⟩, some ⟨1⟩], [some ⟨3⟩], ∅⟩,
    .addNode ⟨"split", .standard "Split", [some ⟨3⟩], [some ⟨4⟩, some ⟨5⟩], ∅⟩,
    .addNode ⟨"relu", .standard "Relu", [some ⟨5⟩], [some ⟨6⟩], ∅⟩,
    .addNode ⟨"sum", .standard "Sum", [some ⟨6⟩, some ⟨1⟩, some ⟨2⟩], [none, some ⟨7⟩], ∅⟩,
    .addNode ⟨"sink", .standard "Relu", [some ⟨4⟩], [], ∅⟩, .addOutput ⟨4⟩]

theorem collect_exact_weedy : ∃ g g' : Graph,
    (Graph.empty "weedy").runAll weedyEdits = .ok g ∧ g.Acyclic ∧ g.collect = .ok (3, g') ∧
    g'.argIds = [⟨0⟩, ⟨1⟩, ⟨3⟩, ⟨4⟩, ⟨5⟩] ∧ g'.initializers.keys = [⟨1⟩] ∧
    (∀ id ∈ g.nodeIds, g.ReachesOutput id ↔ id = ⟨0⟩ ∨ id = ⟨1⟩) ∧ g'.collect = .ok (0, g') := by
  have hrun : (do
      let g ← (Graph.empty "weedy").runAll weedyEdits
      let collected ← g.collect
      return (decide (∀ node ∈ g.liveNodes, ∀ a ∈ node.presentInputs, ∀ source ∈ g.producer? a,
          source.index < node.id.index), collected.1, collected.2.nodeIds, collected.2.argIds,
        collected.2.initializers.keys)) =
      .ok (true, 3, [⟨0⟩, ⟨1⟩], [⟨0⟩, ⟨1⟩, ⟨3⟩, ⟨4⟩, ⟨5⟩], [⟨1⟩]) := rfl
  simp only [bind_eq_ok_iff, pure_eq_ok_iff, Prod.mk.injEq, decide_eq_true_eq] at hrun
  obtain ⟨g, hg, ⟨count, g'⟩, hcollect, hascending, rfl, hnodes, hargs, hinits⟩ := hrun
  have hindexed := (Reachable.runAll (.empty "weedy") hg).indexed
  have hacyclic := hindexed.acyclic_of_ascending hascending
  obtain ⟨_, _, hcollect', hleft, -, -, -, -, -, -, -, hagain⟩ := collect_exact hindexed hacyclic
  cases hcollect.symm.trans hcollect'
  refine ⟨g, g', hg, hacyclic, hcollect, hargs, hinits, fun id hid => ?_, hagain⟩
  obtain ⟨node, hnode⟩ := hindexed.mem_nodeIds.mp hid
  have hmem : g.ReachesOutput id ↔ id ∈ g'.nodeIds := by
    rw [(trimmed_collect hindexed hcollect).indexed.mem_nodeIds]
    simp only [hleft]
    exact ⟨fun hreaches => ⟨node, hnode, hreaches⟩, fun hkept => hkept.choose_spec.2⟩
  rw [hmem, hnodes]
  simp

/--
Collecting the garbage changes no answer about the provenance of an arg that is left, whatever the
log holds. What it leaves of the log are the events of the ancestors of such args.
-/
theorem provenance_of_collect (h : g.Indexed) :
    ∃ removed g', g.collect = .ok (removed, g') ∧
      (∀ a, (g'.arg? a).isSome → g'.log.chain a = g.log.chain a ∧
        g'.log.origin a = g.log.origin a ∧ g'.log.fixPoint? a = g.log.fixPoint? a ∧
        ∃ n, g.fixPoint? a = .ok n ∧ g'.fixPoint? a = .ok n) ∧
      (∀ a events, g'.log.entries[a]? = some events ↔
        g.log.entries[a]? = some events ∧ ∃ arg ∈ g'.argIds, g.log.DerivesFrom arg a) ∧
      ∀ arg ∈ g'.argIds, ∀ a, g'.log.DerivesFrom arg a ↔ g.log.DerivesFrom arg a := by
  obtain ⟨removed, g', hcollect, hc⟩ := collect_spec h
  refine ⟨removed, g', hcollect, fun a ha => ?_, fun a events => ?_, fun arg harg a => ?_⟩
  · have hlive := hc.indexed.mem_argIds.mpr ha
    rw [h.fixPoint?_eq, hc.indexed.fixPoint?_eq, hc.heldFixPoint?_eq h ha, hc.log,
      Log.fixPoint?_retainReachable hlive]
    exact ⟨Log.chain_retainReachable hlive, Log.origin_retainReachable hlive, rfl, _, rfl, rfl⟩
  · rw [hc.log, Log.entries_retainReachable]
  · rw [hc.log, Log.derivesFrom_retainReachable harg]

def derivedEdits : List Mutation :=
  [.addInput "x" ⟨.float32, none⟩, .newArg "q" ⟨.float32, none⟩, .newArg "y" ⟨.float32, none⟩,
    .newArg "p" ⟨.float32, none⟩, .newArg "z" ⟨.float32, none⟩,
    .addNode ⟨"fix", .fix, [some ⟨0⟩], [some ⟨1⟩], (∅ : Attrs).insert fixPointAttr (.int 3)⟩,
    .addNode ⟨"relu", .standard "Relu", [some ⟨0⟩], [some ⟨2⟩], ∅⟩, .addOutput ⟨2⟩]

/-- The output derives from a tensor that derives from another one, which derives from it again. -/
def tangledLog : Log :=
  ((((Log.empty.annotate ⟨1⟩ (.fixPoint 3) "quantize").record
    ⟨1⟩ ⟨some ⟨3⟩, .identity, "merge"⟩).record
    ⟨3⟩ ⟨some ⟨1⟩, .identity, "split"⟩).record ⟨2⟩ ⟨some ⟨1⟩, .identity, "rewrite"⟩).record
    ⟨4⟩ ⟨some ⟨2⟩, .identity, "rewrite"⟩

theorem provenance_of_collect_tangled : ∃ g g' : Graph,
    (Graph.empty "tangled").runAll derivedEdits = .ok g ∧
    { g with log := tangledLog }.collect = .ok (1, g') ∧ g'.argIds = [⟨0⟩, ⟨2⟩] ∧
    g'.log.chain ⟨2⟩ = tangledLog.chain ⟨2⟩ ∧ g'.fixPoint? ⟨2⟩ = .ok (some 3) ∧
    tangledLog.DerivesFrom ⟨2⟩ ⟨3⟩ ∧
      g'.log.entries[(⟨3⟩ : ArgId)]? = tangledLog.entries[(⟨3⟩ : ArgId)]? ∧
    g'.log.entries.keys = [⟨1⟩, ⟨2⟩, ⟨3⟩] := by
  have hchecks : ∃ g ∈ ((Graph.empty "tangled").runAll derivedEdits).toOption,
      some 3 ∈ ({ g with log := tangledLog }.fixPoint? ⟨2⟩).toOption ∧
      ∃ collected ∈ { g with log := tangledLog }.collect.toOption, collected.1 = 1 ∧
        collected.2.argIds = [⟨0⟩, ⟨2⟩] ∧ collected.2.log.entries.keys = [⟨1⟩, ⟨2⟩, ⟨3⟩] := by
    decide +kernel
  obtain ⟨g, hrun, hthree, ⟨count, g'⟩, hcollected, rfl, hargs, hkeys⟩ := hchecks
  have hg := eq_ok_of_mem_toOption hrun
  have hfix := eq_ok_of_mem_toOption hthree
  have hcollect := eq_ok_of_mem_toOption hcollected
  have hindexed := (Reachable.runAll (.empty "tangled") hg).indexed.setLog tangledLog
  obtain ⟨_, _, hcollect', hlive, hentries, -⟩ := provenance_of_collect hindexed
  cases hcollect.symm.trans hcollect'
  have hleft : (⟨2⟩ : ArgId) ∈ g'.argIds := by simp [hargs]
  have hg' := (trimmed_collect hindexed hcollect).indexed
  obtain ⟨hchain, -, -, n, hbefore, hafter⟩ := hlive ⟨2⟩ (hg'.mem_argIds.mp hleft)
  have hderives : tangledLog.DerivesFrom ⟨2⟩ ⟨3⟩ :=
    .head (b := ⟨1⟩) (by decide +kernel) (.single (by decide +kernel))
  refine ⟨g, g', hg, hcollect, hargs, hchain, hafter.trans (hbefore.symm.trans hfix), hderives, ?_,
    hkeys⟩
  refine Option.ext fun events => ?_
  rw [hentries]
  exact ⟨fun hkept => hkept.1, fun hentry => ⟨hentry, ⟨2⟩, hleft, hderives⟩⟩

end OpGraph.Graph
