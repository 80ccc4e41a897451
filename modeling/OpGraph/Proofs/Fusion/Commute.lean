import OpGraph.Proofs.Fusion.Boundary
import OpGraph.Proofs.Model.Description

/-!
Two regions with no node in common can be fused in either order. Whatever the second fusion finds in
the graph that the first one has left, it would have found before it, and the two nodes differ from
one order to the other in their handles alone.
-/

namespace OpGraph

open Relation

namespace Region

variable {g : Graph} {sub : Region}

def ReadsListed (sub : Region) (g : Graph) : Prop :=
  ∀ name ∈ sub.boundary.inputs ++ sub.boundary.constants, ∃ a id node, g.findArg? name = some a ∧
    id ∈ sub.nodes ∧ g.node? id = some node ∧ a ∈ node.presentInputs

structure NameFree (sub : Region) (g : Graph) : Prop where
  ne_empty : sub.boundary.name ≠ ""
  unborne : ∀ id node, g.node? id = some node → node.name ≠ sub.boundary.name

/-! ### What a fusion tells -/

theorem agrees_iff {fresh : Region} : sub.agrees fresh ↔ fresh.nodes = sub.nodes ∧
    fresh.boundary.outputs = sub.boundary.outputs ∧
      fresh.boundary.constants = sub.boundary.constants := by
  simp only [agrees, Bool.and_eq_true, decide_eq_true_eq, and_assoc]

theorem fuse_eq_ok {g' : Graph} (h : g.Indexed) {id : NodeId} (hrun : sub.fuse g = .ok id g') :
    ∃ o fresh, RegionRequest.Accepted sub.boundary.request g o fresh ∧ sub.agrees fresh ∧
      g'.Indexed ∧ sub.Replaced g id g' := by
  unfold fuse at hrun
  split at hrun
  · cases hrun
  · next fresh hfind =>
    split at hrun
    · next hagrees =>
      obtain ⟨o, hs⟩ := RegionRequest.accepted_of_find h hfind
      obtain ⟨hnodes, houtputs, -⟩ := agrees_iff.mp hagrees
      obtain ⟨id', g'', hreplace, h', hreplaced⟩ := hs.replace_succeeds h hnodes houtputs
      cases hrun.symm.trans hreplace
      exact ⟨o, fresh, hs, hagrees, h', hreplaced⟩
    · cases hrun

theorem Fused.of_agrees {g' : Graph} {id : NodeId} {fresh : Region} (hfused : sub.Fused g id g')
    (hagrees : sub.agrees fresh) (hinputs : fresh.boundary.inputs = sub.boundary.inputs) :
    fresh.Fused g id g' := by
  obtain ⟨hnodes, houtputs, hconstants⟩ := agrees_iff.mp hagrees
  constructor
  case fresh => exact hfused.fresh
  case fused =>
    rw [hinputs, hconstants, houtputs]
    exact hfused.fused
  case known =>
    rw [hinputs, hconstants, houtputs]
    exact hfused.known
  case others =>
    rw [hnodes]
    exact hfused.others
  case sameArgs => exact hfused.sameArgs

theorem acyclic_of_fuse {g' : Graph} (h : g.Indexed) (hacyclic : g.Acyclic) {id : NodeId}
    (hdomain : sub.boundary.domain = OpKey.extensionDomain)
    (hascending : sub.boundary.inputs.Pairwise (· < ·)) (hrun : sub.fuse g = .ok id g') :
    g'.Acyclic := by
  obtain ⟨o, fresh, hs, hagrees, h', hreplaced⟩ := fuse_eq_ok h hrun
  have hascending' : fresh.boundary.inputs.Pairwise (· < ·) := by
    rw [hs.region.inputs]
    exact keys_ascending o.inputs
  have hinputs : fresh.boundary.inputs = sub.boundary.inputs :=
    hascending'.eq_of_mem_iff hascending fun name => hs.mem_inputs_iff h
  have hfused := hreplaced.fused_of_wellPosed hdomain hs.posed
  exact hs.acyclic_fused h h' (hfused.of_agrees hagrees hinputs) hacyclic

/-! ### Two replacements in a row -/

structure BothReplaced (g : Graph) (first second : Region) (id id' : NodeId) (g' : Graph) :
    Prop where
  next : id = ⟨g.nodes.size⟩
  next' : id' = ⟨g.nodes.size + 1⟩
  size : g'.nodes.size = g.nodes.size + 2
  node : g'.node? id = some (first.replacement g id first.boundary.name)
  node' : g'.node? id' = some (second.replacement g id' second.boundary.name)
  others : ∀ i < g.nodes.size, g'.node? ⟨i⟩ =
    if ⟨i⟩ ∈ first.nodes ∨ ⟨i⟩ ∈ second.nodes then none else g.node? ⟨i⟩
  sameArgs : Graph.SameArgs g g'
  name : g'.name = g.name

theorem replacement_congr {g' : Graph} (hsame : Graph.SameArgs g g') (id : NodeId) (name : String) :
    sub.replacement g' id name = sub.replacement g id name := by
  simp only [replacement, Boundary.nodeSpec, hsame.findArg?]

theorem index_lt_of_node? {id : NodeId} {node : Node} (hnode : g.node? id = some node) :
    id.index < g.nodes.size := by
  rw [Graph.node?_eq_some_iff] at hnode
  exact (Array.getElem?_eq_some_iff.mp hnode).1

variable {first second : Region} {g₁ g₂ : Graph} {id₁ id₂ : NodeId}

theorem bothReplaced (h₁ : first.Replaced g id₁ g₁) (h₂ : second.Replaced g₁ id₂ g₂)
    (hlive : ∀ id ∈ second.nodes, id.index < g.nodes.size) (hname₁ : first.NameFree g)
    (hname₂ : second.NameFree g) (hnames : first.boundary.name ≠ second.boundary.name) :
    BothReplaced g first second id₁ id₂ g₂ := by
  have hnext₁ : id₁ = ⟨g.nodes.size⟩ := h₁.next
  have hnext₂ : id₂ = ⟨g.nodes.size + 1⟩ := by
    rw [h₂.next, Graph.nextNode, h₁.size]
  have hne : id₁ ≠ id₂ := by
    rw [hnext₁, hnext₂]
    intro heq
    have := congrArg Handle.index heq
    simp only at this
    omega
  obtain ⟨name₁, hnode₁, hfree₁⟩ := h₁.fused
  obtain rfl := hfree₁ hname₁.ne_empty hname₁.unborne
  obtain ⟨name₂, hnode₂, hfree₂⟩ := h₂.fused
  have hunborne : ∀ id node, g₁.node? id = some node → node.name ≠ second.boundary.name := by
    intro id node hnode
    by_cases hid : id = id₁
    · subst hid
      cases hnode.symm.trans hnode₁
      exact hnames
    · rw [h₁.others id hid] at hnode
      split at hnode
      · cases hnode
      · exact hname₂.unborne id node hnode
  obtain rfl := hfree₂ hname₂.ne_empty hunborne
  constructor
  case next => exact hnext₁
  case next' => exact hnext₂
  case size => rw [h₂.size, h₁.size]
  case node =>
    rw [h₂.others id₁ hne, if_neg, hnode₁]
    intro hmem
    have := hlive id₁ hmem
    rw [hnext₁] at this
    exact Nat.lt_irrefl _ this
  case node' => rw [hnode₂, replacement_congr h₁.sameArgs]
  case others =>
    intro i hi
    have hid₁ : (⟨i⟩ : NodeId) ≠ id₁ := by
      rw [hnext₁]
      intro heq
      exact Nat.ne_of_lt hi (congrArg Handle.index heq)
    have hid₂ : (⟨i⟩ : NodeId) ≠ id₂ := by
      rw [hnext₂]
      intro heq
      have := congrArg Handle.index heq
      simp only at this
      omega
    rw [h₂.others _ hid₂, h₁.others _ hid₁]
    grind
  case sameArgs => exact h₁.sameArgs.trans h₂.sameArgs
  case name => rw [h₂.name, h₁.name]

namespace BothReplaced

theorem specs (h : BothReplaced g first second id₁ id₂ g₂) :
    g₂.liveNodes.map Node.spec =
      ((List.range g.nodes.size).filterMap fun i =>
        if ⟨i⟩ ∈ first.nodes ∨ ⟨i⟩ ∈ second.nodes then none else g.node? ⟨i⟩).map Node.spec ++
      [first.boundary.nodeSpec g first.boundary.name,
        second.boundary.nodeSpec g second.boundary.name] := by
  have hfront : ∀ i ∈ List.range g.nodes.size, g₂.node? ⟨i⟩ =
      if ⟨i⟩ ∈ first.nodes ∨ ⟨i⟩ ∈ second.nodes then none else g.node? ⟨i⟩ :=
    fun i hi => h.others i (List.mem_range.mp hi)
  have hnode := h.node
  have hnode' := h.node'
  rw [h.next] at hnode
  rw [h.next'] at hnode'
  rw [Graph.liveNodes_eq_filterMap, h.size, List.range_succ, List.range_succ, List.append_assoc,
    List.filterMap_append, List.filterMap_congr hfront, List.map_append]
  simp only [List.singleton_append, List.filterMap_cons, hnode, hnode', List.filterMap_nil]
  rfl

theorem canonicalText_eq {g₂' : Graph} {id₁' id₂' : NodeId} (hindexed : g₂.Indexed)
    (h : BothReplaced g first second id₁ id₂ g₂)
    (h' : BothReplaced g second first id₁' id₂' g₂') :
    ∃ text, g₂.canonicalText = .ok text ∧ g₂'.canonicalText = .ok text := by
  apply Graph.canonicalText_of_perm hindexed
  · rw [h.name, h'.name]
  · exact h.sameArgs.symm.trans h'.sameArgs
  · rw [h.specs, h'.specs]
    simp only [or_comm (b := (⟨_⟩ : NodeId) ∈ second.nodes)]
    exact (List.Perm.swap _ _ _).append_left _

end BothReplaced

end Region

/--
Where a node stands once both regions are replaced, if it stood at `id` when only the second one
was, by the node at `id'`.
-/
def Region.place (first : Region) (id' id₁ id₂ id : NodeId) : NodeId :=
  if id ∈ first.nodes then id₁ else if id = id' then id₂ else id

theorem RegionRequest.named_of_onBoundary {g : Graph} {b : Boundary} {a : ArgId}
    (ha : b.request.OnBoundary g a) : Named g (b.inputs ++ b.constants) a := by
  rcases ha with ⟨name, hname, hfind⟩ | ⟨name, hname, hfind⟩
  · exact ⟨name, List.mem_append_left _ hname, hfind⟩
  · exact ⟨name, List.mem_append_right _ hname, hfind⟩

namespace RegionRequest.Accepted

open Region

variable {g : Graph} {r r' : RegionRequest} {o o' : Outline} {first second : Region}
  (h : g.Indexed) (hs : Accepted r g o first) (hs' : Accepted r' g o' second)

include h hs in
theorem index_lt {id : NodeId} (hid : id ∈ first.nodes) : id.index < g.nodes.size := by
  obtain ⟨node, hnode⟩ := h.mem_nodeIds.mp ((hs.mem_nodes_iff.mp hid).mem_nodeIds h)
  exact index_lt_of_node? hnode

section OtherFirst

/- The second region is replaced in `g'`, and both are in `g₂`. -/
variable {id' id₁ id₂ : NodeId} {g' g₂ : Graph}
  (hdisjoint : ∀ id ∈ first.nodes, id ∉ second.nodes)
  (h' : g'.Indexed) (hreplaced : second.Replaced g id' g')

include h hs h' hreplaced hdisjoint

theorem keptIn_replaced : first.KeptIn g g' where
  indexed := h'
  sameArgs := hreplaced.sameArgs
  nodes id hid := by
    have hne : id ≠ id' := by
      rintro rfl
      have hlt := hs.index_lt h hid
      rw [hreplaced.next] at hlt
      exact Nat.lt_irrefl _ hlt
    rw [hreplaced.others id hne, if_neg (hdisjoint id hid)]

include hs'

theorem named_of_givenBy_replaced (hreads : second.ReadsListed g) {a : ArgId}
    (ha : GivenBy g' (· ∈ first.nodes) a) : Named g first.boundary.outputs a := by
  have hfused := hreplaced.fused_of_wellPosed hs'.region.domain (hs'.wellPosed_request h)
  obtain ⟨⟨source, hsource, hmem⟩, hneeded⟩ := ha
  rw [producer?_kept h (hs.keptIn_replaced h hdisjoint h' hreplaced) hmem] at hsource
  have hgiven : ∀ target node, target ∉ first.nodes → g.node? target = some node →
      a ∈ node.presentInputs → Named g first.boundary.outputs a := by
    intro target node houtside hnode hread
    rw [hs.mem_nodes_iff] at hmem houtside
    exact (hs.named_outputs_iff h).mpr
      (.inr ⟨⟨source, hsource, hmem⟩, .inr ⟨target, node, houtside, hnode, hread⟩⟩)
  rcases hneeded with houtput | ⟨target, node, houtside, hnode, hread⟩
  · rw [hreplaced.sameArgs.outputs] at houtput
    rw [hs.mem_nodes_iff] at hmem
    exact (hs.named_outputs_iff h).mpr (.inr ⟨⟨source, hsource, hmem⟩, .inl houtput⟩)
  · rcases hs'.reads_cases hfused hnode hread with ⟨-, hboundary⟩ | ⟨-, -, hnode'⟩
    · obtain ⟨name, hname, hfind⟩ := named_of_onBoundary hboundary
      obtain ⟨a', reader, node', hfind', hreader, hnode', hread'⟩ := hreads name hname
      cases hfind.symm.trans hfind'
      exact hgiven reader node' (fun hin => hdisjoint reader hin hreader) hnode' hread'
    · exact hgiven target node houtside hnode' hread

variable (hreads : second.ReadsListed g) (h₂ : g₂.Indexed)
  (hboth : BothReplaced g first second id₁ id₂ g₂)

include h₂ hboth

omit hs hdisjoint in
theorem producer?_place {a : ArgId} {source : NodeId} (hsource : g'.producer? a = some source)
    (hgiven : source ∈ first.nodes → Named g first.boundary.outputs a) :
    g₂.producer? a = some (first.place id' id₁ id₂ source) := by
  have hfused := hreplaced.fused_of_wellPosed hs'.region.domain (hs'.wellPosed_request h)
  rw [h₂.producer?_eq_some_iff, place]
  split
  · next hmem => exact ⟨_, hboth.node, mem_present_map_findArg?.mpr (hgiven hmem)⟩
  · next hmem =>
    rcases hs'.producer?_cases h h' hfused hsource with ⟨hsame, hnamed⟩ | ⟨hne, hout, hproducer⟩
    · rw [if_pos hsame]
      exact ⟨_, hboth.node', mem_present_map_findArg?.mpr hnamed⟩
    · rw [if_neg hne]
      obtain ⟨node, hnode, ha⟩ := h.producer?_eq_some_iff.mp hproducer
      refine ⟨node, ?_, ha⟩
      rw [hboth.others source.index (index_lt_of_node? hnode),
        if_neg (not_or_intro hmem (mt hs'.mem_nodes_iff.mp hout)), hnode]

omit hs hdisjoint h' h₂ in
theorem reads_place {a : ArgId} {target : NodeId} {node : Node}
    (hnode : g'.node? target = some node) (ha : a ∈ node.presentInputs)
    (hlisted : target ∈ first.nodes → first.boundary.request.OnBoundary g a) :
    ∃ node₂, g₂.node? (first.place id' id₁ id₂ target) = some node₂ ∧ a ∈ node₂.presentInputs := by
  have hfused := hreplaced.fused_of_wellPosed hs'.region.domain (hs'.wellPosed_request h)
  rw [place]
  split
  · next hmem =>
    exact ⟨_, hboth.node, mem_present_map_findArg?.mpr (named_of_onBoundary (hlisted hmem))⟩
  · next hmem =>
    rcases hs'.reads_cases hfused hnode ha with ⟨hsame, hboundary⟩ | ⟨hne, hout, hnode'⟩
    · rw [if_pos hsame]
      exact ⟨_, hboth.node', mem_present_map_findArg?.mpr (named_of_onBoundary hboundary)⟩
    · rw [if_neg hne]
      refine ⟨node, ?_, ha⟩
      rw [hboth.others target.index (index_lt_of_node? hnode'),
        if_neg (not_or_intro hmem (mt hs'.mem_nodes_iff.mp hout)), hnode']

include hreads

theorem feeds_place {source target : NodeId} (hfeeds : g'.Feeds source target) :
    first.place id' id₁ id₂ source = first.place id' id₁ id₂ target ∨
      g₂.Feeds (first.place id' id₁ id₂ source) (first.place id' id₁ id₂ target) := by
  have hkept := hs.keptIn_replaced h hdisjoint h' hreplaced
  obtain ⟨node, a, hnode, ha, hsource⟩ := hfeeds
  by_cases hinside : source ∈ first.nodes ∧ target ∈ first.nodes
  · left
    rw [place, place, if_pos hinside.1, if_pos hinside.2]
  · right
    have hgiven : source ∈ first.nodes → Named g first.boundary.outputs a := by
      intro hmem
      apply hs.named_of_givenBy_replaced h hs' hdisjoint h' hreplaced hreads
      exact ⟨⟨source, hsource, hmem⟩, .inr ⟨target, node, fun ht => hinside ⟨hmem, ht⟩, hnode, ha⟩⟩
    have hlisted : target ∈ first.nodes → first.boundary.request.OnBoundary g a := by
      intro hmem
      apply hs.named_of_readBy_kept h hkept
      refine ⟨⟨target, node, hmem, hnode, ha⟩, ?_⟩
      intro id hid hin
      cases hsource.symm.trans hid
      exact hinside ⟨hin, hmem⟩
    obtain ⟨node₂, hnode₂, ha₂⟩ := hs'.reads_place h hreplaced hboth hnode ha hlisted
    exact ⟨node₂, a, hnode₂, ha₂, hs'.producer?_place h h' hreplaced h₂ hboth hsource hgiven⟩

/-- A way back to the boundary of the first region would be a cycle once both are replaced. -/
theorem independent_replaced (hacyclic : g₂.Acyclic) :
    ¬ first.boundary.request.FeedsBoundary g' := by
  have hkept := hs.keptIn_replaced h hdisjoint h' hreplaced
  rintro ⟨a, start, last, hboundary, hlast, hstart, hpath⟩
  rw [hs.covers_kept_iff h hkept] at hstart
  have hlisted : first.boundary.request.OnBoundary g a := by
    simpa only [OnBoundary, named_kept_iff hkept] using hboundary
  have houtside : last ∉ first.nodes := by
    intro hmem
    have hproducer := (producer?_kept h hkept hmem).mp hlast
    exact hs.not_onBoundary_of_covers hproducer (hs.mem_nodes_iff.mp hmem)
      ((hs.onBoundary_iff h hproducer).mp hlisted)
  have hmoved : ReflTransGen g₂.Feeds (first.place id' id₁ id₂ start)
      (first.place id' id₁ id₂ last) := by
    clear hlast houtside
    induction hpath with
    | refl => exact .refl
    | tail _ hstep ih =>
      rcases hs.feeds_place h hs' hdisjoint h' hreplaced hreads h₂ hboth hstep with heq | hfeeds
      · rwa [← heq]
      · exact ih.tail hfeeds
  have hback : g₂.Feeds (first.place id' id₁ id₂ last) id₁ :=
    ⟨_, a, hboth.node, mem_present_map_findArg?.mpr (named_of_onBoundary hlisted),
      hs'.producer?_place h h' hreplaced h₂ hboth hlast fun hmem => absurd hmem houtside⟩
  rw [place, if_pos hstart] at hmoved
  exact hacyclic id₁ (.tail' hmoved hback)

end OtherFirst

end RegionRequest.Accepted

/--
Two regions that were found in the same graph and have no node in common can be fused in the other
order as well, with the same outcome. Only the region that was fused last has to read all it lists.
-/
theorem Region.fuse_comm {g : Graph} (h : g.Consistent) (hacyclic : g.Acyclic)
    {r r' : RegionRequest} {first second : Region} (hfind : r.find g = .ok first)
    (hfind' : r'.find g = .ok second) (hdisjoint : ∀ id ∈ first.nodes, id ∉ second.nodes)
    (hreads : second.ReadsListed g) (hfree : first.NameFree g) (hfree' : second.NameFree g)
    (hnames : first.boundary.name ≠ second.boundary.name) {id₁ id₂ : NodeId} {g₁ g₂ : Graph}
    (hfuse₁ : first.fuse g = .ok id₁ g₁) (hfuse₂ : second.fuse g₁ = .ok id₂ g₂) :
    ∃ id₁' id₂' g₁' g₂', second.fuse g = .ok id₁' g₁' ∧ first.fuse g₁' = .ok id₂' g₂' ∧
      ∃ text, g₂.canonicalText = .ok text ∧ g₂'.canonicalText = .ok text := by
  have hindexed := h.toIndexed
  obtain ⟨o, hs⟩ := RegionRequest.accepted_of_find hindexed hfind
  obtain ⟨o', hs'⟩ := RegionRequest.accepted_of_find hindexed hfind'
  have hascending : ∀ {r : RegionRequest} {o sub}, r.Accepted g o sub →
      sub.boundary.inputs.Pairwise (· < ·) := by
    intro r o sub hs
    rw [hs.region.inputs]
    exact keys_ascending o.inputs
  obtain ⟨-, -, -, -, h₁, hreplaced₁⟩ := fuse_eq_ok hindexed hfuse₁
  obtain ⟨-, -, -, -, h₂, hreplaced₂⟩ := fuse_eq_ok h₁ hfuse₂
  have hboth := bothReplaced hreplaced₁ hreplaced₂ (fun id => hs'.index_lt hindexed) hfree hfree'
    hnames
  have hacyclic₁ := acyclic_of_fuse hindexed hacyclic hs.region.domain (hascending hs) hfuse₁
  have hacyclic₂ := acyclic_of_fuse h₁ hacyclic₁ hs'.region.domain (hascending hs') hfuse₂
  obtain ⟨id₁', g₁', hfuse₁', -⟩ := hs'.fuse_succeeds hindexed
  obtain ⟨-, -, -, -, h₁', hreplaced₁'⟩ := fuse_eq_ok hindexed hfuse₁'
  have hkept := hs.keptIn_replaced hindexed hdisjoint h₁' hreplaced₁'
  obtain ⟨fresh, hfresh, hagrees⟩ := hs.find_kept hindexed hkept
    (fun a => hs.named_of_givenBy_replaced hindexed hs' hdisjoint h₁' hreplaced₁' hreads)
    (hs.independent_replaced hindexed hs' hdisjoint h₁' hreplaced₁' hreads h₂ hboth hacyclic₂)
  obtain ⟨o'', hs''⟩ := RegionRequest.accepted_of_find h₁' hfresh
  obtain ⟨hnodes, houtputs, -⟩ := agrees_iff.mp hagrees
  obtain ⟨id₂', g₂', hreplace, -, hreplaced₂'⟩ := hs''.replace_succeeds h₁' hnodes houtputs
  have hboth' := bothReplaced hreplaced₁' hreplaced₂' (fun id => hs.index_lt hindexed) hfree' hfree
    hnames.symm
  refine ⟨id₁', id₂', g₁', g₂', hfuse₁', ?_, hboth.canonicalText_eq h₂ hboth'⟩
  rw [fuse_eq_replace hfresh hagrees, hreplace]

def Region.chainEdits : List Graph.Mutation :=
  [.addInput "x" ⟨.float32, none⟩, .addInitializer "w" ⟨[1], .float32 [⟨0⟩]⟩,
    .newArg "p" ⟨.float32, none⟩, .newArg "q" ⟨.float32, none⟩, .newArg "y" ⟨.float32, none⟩,
    .addNode ⟨"top", .standard "Add", [some ⟨0⟩, some ⟨1⟩], [some ⟨2⟩], ∅⟩,
    .addNode ⟨"middle", .standard "Relu", [some ⟨2⟩], [some ⟨3⟩], ∅⟩,
    .addNode ⟨"bottom", .standard "Add", [some ⟨3⟩, some ⟨1⟩], [some ⟨4⟩], ∅⟩, .addOutput ⟨4⟩]

def Region.lowerRequest : RegionRequest :=
  ⟨"lower", ["q"], ["y"], [], ""⟩

/--
The second region reads an output of the first one, next to a constant that both of them read.
-/
theorem Region.fuse_comm_chain :
    ∃ (g : Graph) (first second : Region) (id₁ id₂ id₁' id₂' : NodeId) (g₁ g₂ g₁' g₂' : Graph),
      (Graph.empty "chain").runAll chainEdits = .ok g ∧
      upperRequest.find g = .ok first ∧
      lowerRequest.find g = .ok second ∧
      first.nodes = [⟨0⟩, ⟨1⟩] ∧ second.nodes = [⟨2⟩] ∧
      first.fuse g = .ok id₁ g₁ ∧ second.fuse g₁ = .ok id₂ g₂ ∧
      second.fuse g = .ok id₁' g₁' ∧ first.fuse g₁' = .ok id₂' g₂' ∧
      ∃ text, g₂.canonicalText = .ok text ∧ g₂'.canonicalText = .ok text := by
  have hrun : (do
      let g ← (Graph.empty "chain").runAll chainEdits
      let node ← g.node ⟨2⟩
      return (g.check, g.liveNodes.map Node.name, g.findArg? "q", g.findArg? "w",
        node.presentInputs, do
          let first ← upperRequest.find g
          let second ← lowerRequest.find g
          return (first.nodes, second.nodes, second.boundary.inputs, second.boundary.constants,
            first.boundary.name, second.boundary.name,
            EStateM.run' (first.fuse >>= fun _ => second.fuse) g))) =
      .ok (.ok [⟨0⟩, ⟨1⟩, ⟨2⟩], ["top", "middle", "bottom"], some ⟨3⟩, some ⟨1⟩, [⟨3⟩, ⟨1⟩],
        .ok ([⟨0⟩, ⟨1⟩], [⟨2⟩], ["q"], ["w"], "upper", "lower", some ⟨4⟩)) := rfl
  simp only [bind_eq_ok_iff, pure_eq_ok_iff, Prod.mk.injEq, Graph.node_eq_ok_iff] at hrun
  obtain ⟨g, hg, node, hnode, hcheck, hlive, hq, hw, hinputs, first, hfind, second, hfind', hnodes,
    hnodes', hlisted, hconstants, hname, hname', hfuse⟩ := hrun
  have hindexed := (Graph.Reachable.runAll (.empty "chain") hg).indexed
  obtain ⟨hc, -, horder⟩ := hindexed.check_eq_ok_iff.mp hcheck
  obtain ⟨g₂, hfuse⟩ : ∃ g₂, (first.fuse >>= fun _ => second.fuse) g = .ok ⟨4⟩ g₂ := by
    unfold EStateM.run' EStateM.run at hfuse
    split at hfuse
    · next id g₂ heq =>
      cases hfuse
      exact ⟨g₂, heq⟩
    · cases hfuse
  obtain ⟨id₁, g₁, hfuse₁, hfuse₂⟩ := stateful_bind_eq_ok_iff.mp hfuse
  have hborne : ∀ id node, g.node? id = some node → node.name ∈ ["top", "middle", "bottom"] := by
    intro id node hnode
    rw [← hlive]
    exact List.mem_map_of_mem (Graph.mem_liveNodes_iff.mpr ⟨id, hnode⟩)
  have hreads : second.ReadsListed g := by
    intro name hmem
    have hsecond : (⟨2⟩ : NodeId) ∈ second.nodes := by simp [hnodes']
    simp only [hlisted, hconstants, List.cons_append, List.nil_append, List.mem_cons,
      List.not_mem_nil, or_false] at hmem
    rcases hmem with rfl | rfl
    · exact ⟨⟨3⟩, ⟨2⟩, node, hq, hsecond, hnode, by simp [hinputs]⟩
    · exact ⟨⟨1⟩, ⟨2⟩, node, hw, hsecond, hnode, by simp [hinputs]⟩
  obtain ⟨id₁', id₂', g₁', g₂', hfuse₁', hfuse₂', htext⟩ := Region.fuse_comm hc
    (hc.acyclic_of_topologicalOrder horder) hfind hfind' (by simp [hnodes, hnodes']) hreads
    ⟨by simp [hname], fun id node hnode heq => by simpa [heq, hname] using hborne id node hnode⟩
    ⟨by simp [hname'], fun id node hnode heq => by simpa [heq, hname'] using hborne id node hnode⟩
    (by simp [hname, hname']) hfuse₁ hfuse₂
  exact ⟨g, first, second, id₁, ⟨4⟩, id₁', id₂', g₁, g₂, g₁', g₂', hg, hfind, hfind', hnodes,
    hnodes', hfuse₁, hfuse₂, hfuse₁', hfuse₂', htext⟩

end OpGraph
