import Mathlib.Data.Finset.Prod
import OpGraph.Proofs.Graph.Rewired

/-!
What flows from node to node, and what a rewrite leaves of it. Only nodes of some operators count as
sources here, so that those can be left out which ignore what they read.

If all that the supply of a rewrite depends on flowed to the replaced node, the rewrite opens no new
ways: with the supply in the place of the replaced node, nodes that are connected were connected. So
no cycle comes up, and the connected pairs of nodes become fewer whenever one of them is cut.
-/

namespace OpGraph

namespace Graph

open Relation

variable {K : OpKey → Prop} {g g' : Graph}

def Gives (K : OpKey → Prop) (g : Graph) (id : NodeId) (a : ArgId) : Prop :=
  g.producer? a = some id ∧ ∃ node, g.node? id = some node ∧ K node.key

def Flows (K : OpKey → Prop) (g : Graph) (source target : NodeId) : Prop :=
  ∃ node a, g.node? target = some node ∧ a ∈ node.presentInputs ∧ g.Gives K source a

theorem Gives.live (h : g.Indexed) {id : NodeId} {a : ArgId} (ha : g.Gives K id a) :
    (g.arg? a).isSome := by
  obtain ⟨node, hnode, hmem⟩ := h.producer?_eq_some_iff.mp ha.1
  exact h.produces_live id node a hnode hmem

theorem Flows.feeds {source target : NodeId} (hflows : g.Flows K source target) :
    g.Feeds source target := by
  obtain ⟨node, a, hnode, ha, hgives, -⟩ := hflows
  exact ⟨node, a, hnode, ha, hgives⟩

theorem Indexed.flows_of_feeds (h : g.Indexed) {source target : NodeId}
    (hfeeds : g.Feeds source target) : g.Flows (fun _ => True) source target := by
  obtain ⟨node, a, hnode, ha, hsource⟩ := hfeeds
  obtain ⟨giver, hgiver, -⟩ := h.producer?_eq_some_iff.mp hsource
  exact ⟨node, a, hnode, ha, hsource, giver, hgiver, trivial⟩

theorem Acyclic.not_flows (hacyclic : g.Acyclic) (id : NodeId) : ¬ TransGen (g.Flows K) id id :=
  fun hcycle => hacyclic id (TransGen.mono (fun _ _ => Flows.feeds) id id hcycle)

/-! ### Connected nodes -/

open Classical in
/-- The pairs of nodes of which the second is the first, or something flows there from the first. -/
noncomputable def connected (K : OpKey → Prop) (g : Graph) : Finset (NodeId × NodeId) :=
  (g.nodeIds.toFinset ×ˢ g.nodeIds.toFinset).filter fun pair =>
    ReflTransGen (g.Flows K) pair.1 pair.2

theorem mem_connected {source target : NodeId} :
    (source, target) ∈ g.connected K ↔
      source ∈ g.nodeIds ∧ target ∈ g.nodeIds ∧ ReflTransGen (g.Flows K) source target := by
  simp only [connected, Finset.mem_filter, Finset.mem_product, List.mem_toFinset, and_assoc]

theorem card_connected_le (K : OpKey → Prop) (g : Graph) :
    (g.connected K).card ≤ g.nodeIds.length * g.nodeIds.length := by
  classical
  calc (g.connected K).card
    _ ≤ (g.nodeIds.toFinset ×ˢ g.nodeIds.toFinset).card := Finset.card_filter_le _ _
    _ = g.nodeIds.toFinset.card * g.nodeIds.toFinset.card := Finset.card_product _ _
    _ ≤ g.nodeIds.length * g.nodeIds.length :=
      Nat.mul_le_mul (List.toFinset_card_le _) (List.toFinset_card_le _)

theorem card_connected_lt (origin : NodeId → NodeId)
    (hlive : ∀ id ∈ g'.nodeIds, origin id ∈ g.nodeIds)
    (hinj : ∀ id ∈ g'.nodeIds, ∀ id' ∈ g'.nodeIds, origin id = origin id' → id = id')
    (hflows : ∀ source target, g'.Flows K source target →
      TransGen (g.Flows K) (origin source) (origin target))
    {source target : NodeId} (hcut : (source, target) ∈ g.connected K)
    (hnone : ∀ id ∈ g'.nodeIds, ∀ id' ∈ g'.nodeIds, origin id = source → origin id' = target →
      ¬ ReflTransGen (g'.Flows K) id id') :
    (g'.connected K).card < (g.connected K).card := by
  apply Nat.lt_of_le_of_lt ?_ (Finset.card_erase_lt_of_mem hcut)
  apply Finset.card_le_card_of_injOn (Prod.map origin origin)
  · rintro ⟨id, id'⟩ hpair
    obtain ⟨hid, hid', hpath⟩ := mem_connected.mp (Finset.mem_coe.mp hpair)
    refine Finset.mem_coe.mpr (Finset.mem_erase.mpr ⟨?_, mem_connected.mpr ⟨?_, ?_, ?_⟩⟩)
    · intro heq
      obtain ⟨hsource, htarget⟩ := Prod.mk.inj heq
      exact hnone id hid id' hid' hsource htarget hpath
    · exact hlive id hid
    · exact hlive id' hid'
    · exact hpath.lift' origin fun a b hab => (hflows a b hab).to_reflTransGen
  · rintro ⟨a, a'⟩ ha ⟨b, b'⟩ hb heq
    obtain ⟨ha, ha', -⟩ := mem_connected.mp (Finset.mem_coe.mp ha)
    obtain ⟨hb, hb', -⟩ := mem_connected.mp (Finset.mem_coe.mp hb)
    obtain ⟨hfirst, hsecond⟩ := Prod.mk.inj heq
    rw [hinj a ha b hb hfirst, hinj a' ha' b' hb' hsecond]

/-! ### Rewrites -/

namespace Supply

/-- The node in whose place a node stands: a new one in that of the replaced node. -/
def origin (root : NodeId) : Supply → NodeId → NodeId
  | node n, id => if id = n.id then root else id
  | _, id => id

/-- All that the supply depends on is in the graph and flows to the replaced node. -/
structure LiesBelow (K : OpKey → Prop) (g : Graph) (root : NodeId) (new : ArgId) (supply : Supply) :
    Prop where
  fresh : supply.Fresh g new
  live : ∀ a ∈ supply.args new, (g.arg? a).isSome
  flows : ∀ a ∈ supply.args new, ∀ id, g.Gives K id a → TransGen (g.Flows K) id root

variable {supply : Supply} {new : ArgId} (hfresh : supply.Fresh g new)

include hfresh

theorem Fresh.origin_of_live {id : NodeId} {node : Node} (hnode : g.node? id = some node)
    (root : NodeId) : supply.origin root id = id := by
  cases supply with
  | survivor => rfl
  | initializer _ => rfl
  | node n =>
    refine if_neg ?_
    rintro rfl
    rw [hfresh.2.1] at hnode
    cases hnode

theorem Fresh.survivor_of_live (hlive : (g.arg? new).isSome) : supply = .survivor := by
  cases supply with
  | survivor => rfl
  | node n =>
    rw [hfresh.1] at hlive
    cases hlive
  | initializer _ =>
    rw [show g.arg? new = none from hfresh] at hlive
    cases hlive

end Supply

namespace Rewired

variable {root : NodeId} {old new : ArgId} {supply : Supply} (h : g.Indexed)
  (hr : Rewired g root old new supply g')

include hr

theorem origin_cases (hfresh : supply.Fresh g new) {id : NodeId} {node' : Node}
    (hnode' : g'.node? id = some node') :
    id ≠ root ∧ ((∃ node, g.node? id = some node) ∧ supply.origin root id = id ∨
      ∃ n, supply = .node n ∧ id = n.id ∧ supply.origin root id = root) := by
  obtain ⟨hne, ⟨node, hnode, -⟩ | ⟨n, rfl, rfl, -⟩⟩ := hr.node?_cases hnode'
  · exact ⟨hne, .inl ⟨⟨node, hnode⟩, hfresh.origin_of_live hnode root⟩⟩
  · exact ⟨hne, .inr ⟨n, rfl, rfl, if_pos rfl⟩⟩

include h

theorem gives_cases (hfresh : supply.Fresh g new) {id : NodeId} {a : ArgId}
    (hgives : g'.Gives K id a) :
    g.Gives K id a ∨ ∃ n, supply = .node n ∧ id = n.id ∧ a = new := by
  obtain ⟨hproducer, node', hnode', hkey⟩ := hgives
  obtain ⟨node'', hnode'', hmem⟩ := hr.indexed.producer?_eq_some_iff.mp hproducer
  cases hnode'.symm.trans hnode''
  obtain ⟨-, ⟨node, hnode, rfl⟩ | ⟨n, rfl, hid, rfl⟩⟩ := hr.node?_cases hnode'
  · exact .inl ⟨h.producer?_eq_some_iff.mpr ⟨node, hnode, hmem⟩, node, hnode, hkey⟩
  · rw [Node.presentOutputs, Node.redirect, mem_present_iff, hfresh.2.2, List.mem_singleton] at hmem
    exact .inr ⟨n, rfl, hid, Option.some.inj hmem⟩

variable (hbelow : supply.LiesBelow K g root new)

include hbelow

theorem gives_redirected {b : ArgId} (hb : (g.arg? b).isSome) {id : NodeId}
    (hgives : g'.Gives K id (if b = old then new else b)) :
    g.Gives K id b ∨ b = old ∧ ReflTransGen (g.Flows K) (supply.origin root id) root := by
  split at hgives
  · next heq =>
    refine .inr ⟨heq, ?_⟩
    obtain hgives | ⟨n, rfl, rfl, -⟩ := hr.gives_cases h hbelow.fresh hgives
    · obtain rfl := hbelow.fresh.survivor_of_live (hgives.live h)
      exact (hbelow.flows new (List.mem_singleton_self _) id hgives).to_reflTransGen
    · rw [Supply.origin, if_pos rfl]
  · obtain hgives | ⟨n, rfl, -, rfl⟩ := hr.gives_cases h hbelow.fresh hgives
    · exact .inl hgives
    · cases hbelow.fresh.survivor_of_live hb

variable (hroot : g.Gives K root old) (hacyclic : g.Acyclic)

include hroot

theorem flows_of_live {source target : NodeId} {node : Node} (hnode : g.node? target = some node)
    (hflows : g'.Flows K source target) :
    TransGen (g.Flows K) (supply.origin root source) target := by
  obtain ⟨node', a, hnode', ha, hgives⟩ := hflows
  obtain ⟨-, ⟨_, hnode'', rfl⟩ | ⟨n, rfl, rfl, -⟩⟩ := hr.node?_cases hnode'
  · cases hnode.symm.trans hnode''
    obtain ⟨b, hb, rfl⟩ := Node.mem_presentInputs_redirect ha
    have hlive := h.reads_live target node b hnode hb
    obtain hgives | ⟨rfl, hpath⟩ := hr.gives_redirected h hbelow hlive hgives
    · obtain ⟨giver, hgiver, -⟩ := hgives.2
      rw [hbelow.fresh.origin_of_live hgiver]
      exact .single ⟨node, b, hnode, hb, hgives⟩
    · exact TransGen.tail' hpath ⟨node, b, hnode, hb, hroot⟩
  · rw [hbelow.fresh.2.1] at hnode
    cases hnode

include hacyclic

theorem gives_of_flows {n : Node} (hsupply : supply = .node n) {source : NodeId}
    (hflows : g'.Flows K source n.id) : ∃ a ∈ supply.args new, g.Gives K source a := by
  subst hsupply
  obtain ⟨node', a, hnode', ha, hgives⟩ := hflows
  obtain ⟨-, ⟨node, hnode, -⟩ | ⟨_, hn, -, rfl⟩⟩ := hr.node?_cases hnode'
  · rw [hbelow.fresh.2.1] at hnode
    cases hnode
  · cases hn
    obtain ⟨b, hb, rfl⟩ := Node.mem_presentInputs_redirect ha
    obtain hgives | ⟨rfl, -⟩ := hr.gives_redirected h hbelow (hbelow.live b hb) hgives
    · exact ⟨b, hb, hgives⟩
    · exact absurd (hbelow.flows b hb root hroot) (hacyclic.not_flows root)

theorem flows_origin {source target : NodeId} (hflows : g'.Flows K source target) :
    TransGen (g.Flows K) (supply.origin root source) (supply.origin root target) := by
  have ⟨node', _, hnode', _⟩ := hflows
  obtain ⟨-, ⟨⟨node, hnode⟩, hsame⟩ | ⟨n, hsupply, rfl, hnew⟩⟩ :=
    hr.origin_cases hbelow.fresh hnode'
  · rw [hsame]
    exact hr.flows_of_live h hbelow hroot hnode hflows
  · obtain ⟨a, ha, hgives⟩ := hr.gives_of_flows h hbelow hroot hacyclic hsupply hflows
    obtain ⟨giver, hgiver, -⟩ := hgives.2
    rw [hbelow.fresh.origin_of_live hgiver, hnew]
    exact hbelow.flows a ha source hgives

omit hbelow hroot hacyclic in
theorem mem_nodeIds_origin (hfresh : supply.Fresh g new) {id : NodeId} (hid : id ∈ g'.nodeIds) :
    supply.origin root id ∈ g.nodeIds := by
  obtain ⟨node', hnode'⟩ := hr.indexed.mem_nodeIds.mp hid
  obtain ⟨-, ⟨hlive, hsame⟩ | ⟨n, -, -, hnew⟩⟩ := hr.origin_cases hfresh hnode'
  · rw [hsame, h.mem_nodeIds]
    exact hlive
  · rw [hnew]
    exact h.mem_nodeIds_of_producer? hr.produced

omit h hbelow hroot hacyclic in
theorem origin_inj (hfresh : supply.Fresh g new) {id id' : NodeId} (hid : id ∈ g'.nodeIds)
    (hid' : id' ∈ g'.nodeIds) (heq : supply.origin root id = supply.origin root id') :
    id = id' := by
  obtain ⟨node, hnode⟩ := hr.indexed.mem_nodeIds.mp hid
  obtain ⟨node', hnode'⟩ := hr.indexed.mem_nodeIds.mp hid'
  have hcases := hr.origin_cases hfresh hnode
  have hcases' := hr.origin_cases hfresh hnode'
  grind

omit hbelow hroot in
theorem acyclic (hbelow : supply.LiesBelow (fun _ => True) g root new) : g'.Acyclic := by
  obtain ⟨node, hnode, -⟩ := h.producer?_eq_some_iff.mp hr.produced
  have hroot : g.Gives (fun _ => True) root old := ⟨hr.produced, node, hnode, trivial⟩
  intro id hcycle
  have hflows : TransGen (g'.Flows fun _ => True) id id :=
    TransGen.mono (fun _ _ => hr.indexed.flows_of_feeds) id id hcycle
  exact hacyclic.not_flows _ (hflows.lift' (supply.origin root) fun _ _ hedge =>
    hr.flows_origin h hbelow hroot hacyclic hedge)

/--
The pair of the replaced node with itself is gone. Where a new node takes its place, that pair
counts as the one of the new node; so a node in between has to be skipped.
-/
theorem card_connected_lt (hskips : ∀ n, supply = .node n → ∃ inner, g.Flows K inner root ∧
      ∀ a ∈ supply.args new, ∀ id, g.Gives K id a → g.Flows K id inner) :
    (g'.connected K).card < (g.connected K).card := by
  have hfresh := hbelow.fresh
  have hflows : ∀ source target, g'.Flows K source target →
      TransGen (g.Flows K) (supply.origin root source) (supply.origin root target) :=
    fun _ _ => hr.flows_origin h hbelow hroot hacyclic
  have hfewer : ∀ {source target}, (source, target) ∈ g.connected K →
      (∀ id ∈ g'.nodeIds, ∀ id' ∈ g'.nodeIds, supply.origin root id = source →
        supply.origin root id' = target → ¬ ReflTransGen (g'.Flows K) id id') →
      (g'.connected K).card < (g.connected K).card :=
    Graph.card_connected_lt (supply.origin root) (fun _ => hr.mem_nodeIds_origin h hfresh)
      (fun _ hid _ => hr.origin_inj hfresh hid) hflows
  have hlive : root ∈ g.nodeIds := h.mem_nodeIds_of_producer? hr.produced
  by_cases hsupply : ∃ n, supply = .node n
  · obtain ⟨n, hn⟩ := hsupply
    obtain ⟨inner, hinner, hskip⟩ := hskips n hn
    obtain ⟨hinnerLive, -⟩ := h.mem_nodeIds_of_feeds hinner.feeds
    refine hfewer (mem_connected.mpr ⟨hinnerLive, hlive, .single hinner⟩) ?_
    intro id _ id' hid' hsource htarget hpath
    obtain ⟨node', hnode'⟩ := hr.indexed.mem_nodeIds.mp hid'
    obtain ⟨hne, ⟨-, hsame⟩ | ⟨_, hn', rfl, -⟩⟩ := hr.origin_cases hfresh hnode'
    · exact hne (hsame.symm.trans htarget)
    · cases hn.symm.trans hn'
      -- The way into the new node starts with something that the skipped node read before.
      rcases hpath.cases_tail with heq | ⟨source, hpath, hlast⟩
      · rw [← hsource, ← heq, htarget] at hinner
        exact hacyclic.not_flows root (.single hinner)
      · obtain ⟨a, ha, hgives⟩ := hr.gives_of_flows h hbelow hroot hacyclic hn hlast
        obtain ⟨giver, hgiver, -⟩ := hgives.2
        have hback : ReflTransGen (g.Flows K) (supply.origin root id) (supply.origin root source) :=
          hpath.lift' _ fun a b hab => (hflows a b hab).to_reflTransGen
        rw [hsource, hfresh.origin_of_live hgiver] at hback
        exact hacyclic.not_flows inner (TransGen.tail' hback (hskip a ha source hgives))
  · refine hfewer (mem_connected.mpr ⟨hlive, hlive, .refl⟩) ?_
    intro id hid _ _ hsource
    obtain ⟨node, hnode⟩ := hr.indexed.mem_nodeIds.mp hid
    obtain ⟨hne, ⟨-, hsame⟩ | ⟨n, hn, -⟩⟩ := hr.origin_cases hfresh hnode
    · exact absurd (hsame.symm.trans hsource) hne
    · exact absurd ⟨n, hn⟩ hsupply

end Rewired

end Graph

end OpGraph
