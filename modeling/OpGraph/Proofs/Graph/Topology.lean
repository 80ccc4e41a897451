import Mathlib.Order.WellFoundedSet
import OpGraph.Graph.Topology
import OpGraph.Proofs.Graph.Indexed
import OpGraph.Proofs.Sequence

/-!
The edges between nodes, and the correctness of the topological order: it is found exactly for the
graphs without a cycle, and it lists every live node after the nodes that it reads from.
-/

namespace OpGraph

namespace Graph

variable {g : Graph}

def Feeds (g : Graph) (source target : NodeId) : Prop :=
  ∃ node a, g.node? target = some node ∧ a ∈ node.presentInputs ∧ g.producer? a = some source

def Acyclic (g : Graph) : Prop :=
  ∀ id, ¬ Relation.TransGen g.Feeds id id

def ProducersFirst (g : Graph) (order : List NodeId) : Prop :=
  ∀ before id after, order = before ++ id :: after → ∀ source, g.Feeds source id → source ∈ before

/-- Live nodes are finitely many, so a relation between them that has no cycle is well-founded. -/
theorem wellFounded_of_live {r : NodeId → NodeId → Prop}
    (hlive : ∀ x y, r x y → x ∈ g.nodeIds ∧ y ∈ g.nodeIds)
    (hacyclic : ∀ x, ¬ Relation.TransGen r x x) : WellFounded r := by
  have hstrict : IsStrictOrder NodeId (Relation.TransGen r) :=
    { irrefl := hacyclic
      trans := fun _ _ _ => Relation.TransGen.trans }
  have hwf := (List.finite_toSet g.nodeIds).wellFoundedOn (r := Relation.TransGen r)
  rw [Set.wellFoundedOn_iff] at hwf
  apply Subrelation.wf _ hwf
  intro x y hxy
  exact ⟨.single hxy, hlive x y hxy⟩

namespace Indexed

variable (h : g.Indexed)

include h

theorem mem_nodeIds_of_producer? {a : ArgId} {id : NodeId} (ha : g.producer? a = some id) :
    id ∈ g.nodeIds := by
  obtain ⟨node, hnode, -⟩ := h.producer?_eq_some_iff.mp ha
  exact h.mem_nodeIds.mpr ⟨node, hnode⟩

theorem mem_nodeIds_of_feeds {source target : NodeId} (hfeeds : g.Feeds source target) :
    source ∈ g.nodeIds ∧ target ∈ g.nodeIds := by
  obtain ⟨node, a, hnode, -, ha⟩ := hfeeds
  exact ⟨h.mem_nodeIds_of_producer? ha, h.mem_nodeIds.mpr ⟨node, hnode⟩⟩

theorem wellFounded_feeds (hacyclic : g.Acyclic) : WellFounded g.Feeds :=
  wellFounded_of_live (fun _ _ => h.mem_nodeIds_of_feeds) hacyclic

end Indexed

theorem ProducersFirst.snoc {order : List NodeId} (h : g.ProducersFirst order) {id : NodeId}
    (hid : ∀ source, g.Feeds source id → source ∈ order) : g.ProducersFirst (order ++ [id]) := by
  intro before id' after heq source hfeeds
  rcases List.eq_nil_or_concat after with rfl | ⟨after', last, rfl⟩
  · obtain ⟨rfl, heq'⟩ := List.append_inj' heq rfl
    cases heq'
    exact hid source hfeeds
  · rw [List.concat_eq_append, ← List.cons_append, ← List.append_assoc] at heq
    obtain ⟨heq', -⟩ := List.append_inj' heq rfl
    exact h before id' after' heq' source hfeeds

theorem ProducersFirst.idxOf_lt {order : List NodeId} (h : g.ProducersFirst order)
    {source target : NodeId} (hmem : target ∈ order) (hfeeds : g.Feeds source target) :
    order.idxOf source < order.idxOf target := by
  obtain ⟨before, after, heq, hnot⟩ := List.eq_append_cons_of_mem hmem
  have hsource := h before target after heq source hfeeds
  rw [heq, List.idxOf_append_of_mem hsource, List.idxOf_append_of_notMem hnot]
  have := List.idxOf_lt_length_of_mem hsource
  omega

theorem ProducersFirst.mem_of_path {order : List NodeId} (h : g.ProducersFirst order)
    {source target : NodeId} (hpath : Relation.ReflTransGen g.Feeds source target)
    (htarget : target ∈ order) : source ∈ order := by
  induction hpath using Relation.ReflTransGen.head_induction_on with
  | refl => exact htarget
  | head hfeeds _ ih =>
    obtain ⟨before, after, rfl, -⟩ := List.eq_append_cons_of_mem ih
    exact List.mem_append_left _ (h before _ after rfl _ hfeeds)

theorem ProducersFirst.not_cycle {order : List NodeId} (h : g.ProducersFirst order) {id : NodeId}
    (hid : id ∈ order) : ¬ Relation.TransGen g.Feeds id id := by
  have hlt : ∀ source, Relation.TransGen g.Feeds source id →
      order.idxOf source < order.idxOf id := by
    intro source hpath
    induction hpath using Relation.TransGen.head_induction_on with
    | single hfeeds => exact h.idxOf_lt hid hfeeds
    | head hfeeds hpath ih =>
      exact Nat.lt_trans (h.idxOf_lt (h.mem_of_path hpath.to_reflTransGen hid) hfeeds) ih
  exact fun hcycle => Nat.lt_irrefl _ (hlt id hcycle)

theorem ProducersFirst.acyclic {order : List NodeId} (h : g.ProducersFirst order)
    (hall : ∀ source target, g.Feeds source target → target ∈ order) : g.Acyclic := by
  intro id hcycle
  obtain ⟨source, -, hfeeds⟩ := Relation.TransGen.tail'_iff.mp hcycle
  exact h.not_cycle (hall source id hfeeds) hcycle

/-- The input slots of a node that read an output of some node, those of `closed` apart. -/
def openOutside (g : Graph) (closed : List ArgId) (id : NodeId) : Nat :=
  match g.node? id with
  | some node => node.presentInputs.countP fun a => (g.producer? a).isSome && decide (a ∉ closed)
  | none => 0

theorem openOutside_of_node? {id : NodeId} {node : Node} (h : g.node? id = some node)
    (closed : List ArgId) :
    g.openOutside closed id =
      node.presentInputs.countP fun a => (g.producer? a).isSome && decide (a ∉ closed) := by
  simp [openOutside, h]

theorem openOutside_snoc {a : ArgId} (ha : (g.producer? a).isSome) {closed : List ArgId}
    (hnot : a ∉ closed) (id : NodeId) :
    g.openOutside (closed ++ [a]) id + g.readCount a id = g.openOutside closed id := by
  cases hnode : g.node? id with
  | none => simp [openOutside, readCount, hnode]
  | some node =>
    rw [openOutside_of_node? hnode, openOutside_of_node? hnode, readCount_of_node? hnode]
    induction node.presentInputs with
    | nil => rfl
    | cons b inputs ih =>
      rw [List.countP_cons, List.countP_cons, List.count_cons, ← ih]
      by_cases hb : b = a
      · subst hb
        simp [ha, hnot]
        omega
      · simp [hb]
        omega

theorem openOutside_eq_zero_iff {closed : List ArgId} {id : NodeId} :
    g.openOutside closed id = 0 ↔ ∀ node, g.node? id = some node →
      ∀ a ∈ node.presentInputs, (g.producer? a).isSome → a ∈ closed := by
  cases hnode : g.node? id with
  | none => simp [openOutside, hnode]
  | some node => simp [openOutside_of_node? hnode, List.countP_eq_zero]

namespace Kahn

/-- The search holds every node with `left` open slots in its place. -/
structure Tracks (g : Graph) (left : NodeId → Nat) (s : Kahn) : Prop where
  waiting : ∀ id : NodeId, s.waiting[id]? = if left id = 0 then none else some (left id)
  ready : ∀ id, id ∈ s.ready ↔ id ∈ g.nodeIds ∧ left id = 0 ∧ id ∉ s.order
  listed : ∀ id ∈ s.order, left id = 0

theorem Tracks.list {left : NodeId → Nat} {s : Kahn} (h : s.Tracks g left) {id : NodeId}
    (hid : id ∈ s.ready) :
    Kahn.Tracks g left { s with ready := s.ready.erase id, order := s.order ++ [id] } where
  waiting := h.waiting
  ready id' := by
    rw [Std.ExtTreeSet.mem_erase, h.ready]
    simp only [ne_eq, Std.LawfulEqCmp.compare_eq_iff_eq, List.mem_append, List.mem_singleton,
      not_or, eq_comm (a := id)]
    tauto
  listed id' hid' := by
    rw [List.mem_append, List.mem_singleton] at hid'
    rcases hid' with hid' | rfl
    · exact h.listed id' hid'
    · exact ((h.ready id').mp hid).2.1

end Kahn

section Search

variable (h : g.Indexed)

include h

theorem closeSlots_spec {user : NodeId} (huser : user ∈ g.nodeIds) {arg : ArgId}
    {left : NodeId → Nat} {s : Kahn} (hs : s.Tracks g left)
    (hle : g.readCount arg user ≤ left user) :
    ∃ s', g.closeSlots arg s user = .ok s' ∧ s'.order = s.order ∧
      s'.Tracks g (fun id => if id = user then left user - g.readCount arg user else left id) := by
  obtain ⟨node, hnode⟩ := h.mem_nodeIds.mp huser
  have hwaiting := hs.waiting user
  rw [closeSlots, node_eq_ok_iff.mpr hnode, hwaiting]
  by_cases hzero : left user = 0
  · refine ⟨s, by rw [if_pos hzero]; rfl, rfl, ?_⟩
    have hsame : (fun id => if id = user then left user - g.readCount arg user else left id) =
        left := by
      funext id
      split
      · next heq => rw [heq]; omega
      · rfl
    rw [hsame]
    exact hs
  rw [readCount_of_node? hnode] at hle ⊢
  have hsub : Fault.ofOverflow (Word.sub (left user) (node.presentInputs.count arg)) =
      .ok (left user - node.presentInputs.count arg) := by
    rw [Word.sub, if_pos hle, Fault.ofOverflow]
  rw [if_neg hzero]
  by_cases hlast : left user - node.presentInputs.count arg = 0
  · refine ⟨{ s with waiting := s.waiting.erase user, ready := s.ready.insert user }, ?_, rfl, ?_⟩
    · simp only [bind, Except.bind, hsub, hlast]
      rfl
    · constructor
      · intro id
        simp only [Std.ExtTreeMap.getElem?_erase, hs.waiting, Std.LawfulEqCmp.compare_eq_iff_eq]
        grind
      · intro id
        have hready := hs.ready id
        have hlisted := hs.listed id
        simp only [Std.ExtTreeSet.mem_insert, Std.LawfulEqCmp.compare_eq_iff_eq]
        grind
      · intro id hid
        have hlisted := hs.listed id hid
        grind
  · refine ⟨{ s with waiting := s.waiting.insert user (left user - node.presentInputs.count arg) },
      ?_, rfl, ?_⟩
    · simp only [bind, Except.bind, hsub, hlast]
      rfl
    · constructor
      · intro id
        simp only [Std.ExtTreeMap.getElem?_insert, hs.waiting, Std.LawfulEqCmp.compare_eq_iff_eq]
        grind
      · intro id
        have hready := hs.ready id
        grind
      · intro id hid
        have hlisted := hs.listed id hid
        grind

theorem closeAll_spec {arg : ArgId} (harg : (g.producer? arg).isSome) {closed : List ArgId}
    (hnot : arg ∉ closed) {s : Kahn} (hs : s.Tracks g (g.openOutside closed)) :
    ∃ s', (g.consumersOf arg).foldlM (g.closeSlots arg) s = .ok s' ∧ s'.order = s.order ∧
      s'.Tracks g (g.openOutside (closed ++ [arg])) := by
  -- The users that are done have the slots that read `arg` closed, the others do not.
  let left (done : List NodeId) (id : NodeId) : Nat :=
    if id ∈ done then g.openOutside (closed ++ [arg]) id else g.openOutside closed id
  have hsnoc := openOutside_snoc harg hnot
  have hrun := foldlM_succeeds (f := g.closeSlots arg)
    (P := fun done s' => s'.order = s.order ∧ s'.Tracks g (left done)) (g.consumersOf arg) ?_ s
    ⟨rfl, by simpa [left] using hs⟩
  · obtain ⟨s', hs', horder, htracks⟩ := hrun
    refine ⟨s', hs', horder, ?_⟩
    have hleft : left (g.consumersOf arg) = g.openOutside (closed ++ [arg]) := by
      funext id
      by_cases hmem : id ∈ g.consumersOf arg
      · exact if_pos hmem
      · rw [h.mem_consumersOf_iff, ← readCount_pos_iff] at hmem
        have := hsnoc id
        simp only [left]
        split <;> omega
    exact hleft ▸ htracks
  · rintro done user rest s' heq ⟨horder, htracks⟩
    have hmem : user ∈ g.consumersOf arg := by rw [heq]; simp
    have hnodup : (g.consumersOf arg).Nodup := g.nodup_consumersOf arg
    have huser : user ∉ done := by
      rw [heq, List.nodup_append] at hnodup
      intro hdone
      exact hnodup.2.2 user hdone user List.mem_cons_self rfl
    obtain ⟨node, hnode, -⟩ := h.mem_consumersOf_iff.mp hmem
    have hsum := hsnoc user
    have hlive := h.mem_nodeIds.mpr ⟨node, hnode⟩
    have hle : g.readCount arg user ≤ left done user := by
      simp only [left, if_neg huser]
      omega
    obtain ⟨s'', hs'', horder', htracks'⟩ := closeSlots_spec h hlive htracks hle
    refine ⟨s'', hs'', horder'.trans horder, ?_⟩
    have hleft : (fun id => if id = user then left done user - g.readCount arg user
        else left done id) = left (done ++ [user]) := by
      funext id
      by_cases hid : id = user
      · subst hid
        simp only [left, if_neg huser]
        simp
        omega
      · simp [left, hid]
    exact hleft ▸ htracks'

end Search

def outputsOf (g : Graph) (id : NodeId) : List ArgId :=
  match g.node? id with
  | some node => node.presentOutputs
  | none => []

theorem Indexed.mem_outputsOf_iff (h : g.Indexed) {a : ArgId} {id : NodeId} :
    a ∈ g.outputsOf id ↔ g.producer? a = some id := by
  rw [h.producer?_eq_some_iff, outputsOf]
  cases g.node? id <;> simp

theorem length_lt_of_unlisted {order : List NodeId} (hnodup : order.Nodup)
    (hlive : ∀ id ∈ order, id ∈ g.nodeIds) {id : NodeId} (hid : id ∈ g.nodeIds)
    (hnew : id ∉ order) : order.length < g.nodeIds.length := by
  have hsubset : id :: order ⊆ g.nodeIds := List.cons_subset.mpr ⟨hid, hlive⟩
  exact (List.nodup_cons.mpr ⟨hnew, hnodup⟩).length_le_of_subset hsubset

structure Kahn.Sound (g : Graph) (s : Kahn) : Prop where
  tracks : s.Tracks g (g.openOutside (s.order.flatMap g.outputsOf))
  live : ∀ id ∈ s.order, id ∈ g.nodeIds
  nodup : s.order.Nodup
  producersFirst : g.ProducersFirst s.order

namespace Consistent

variable (h : g.Consistent)

include h

theorem mem_order_of_open_eq_zero {order : List NodeId} {id : NodeId}
    (hzero : g.openOutside (order.flatMap g.outputsOf) id = 0) {source : NodeId}
    (hfeeds : g.Feeds source id) : source ∈ order := by
  obtain ⟨node, a, hnode, ha, hsource⟩ := hfeeds
  have hmem := openOutside_eq_zero_iff.mp hzero node hnode a ha (by simp [hsource])
  rw [List.mem_flatMap] at hmem
  obtain ⟨id', hid', hout⟩ := hmem
  rw [h.mem_outputsOf_iff, hsource] at hout
  cases hout
  exact hid'

theorem listNode_spec {s : Kahn} (hs : s.Sound g) {id : NodeId} (hid : id ∈ s.ready) :
    ∃ s', g.listNode s id = .ok s' ∧ s'.order = s.order ++ [id] ∧ s'.Sound g := by
  obtain ⟨hlive, hzero, hnew⟩ := (hs.tracks.ready id).mp hid
  obtain ⟨node, hnode⟩ := h.mem_nodeIds.mp hlive
  have houtputs : g.outputsOf id = node.presentOutputs := by simp [outputsOf, hnode]
  have hnodup := h.outputs_nodup id node hnode
  have hrun := foldlM_succeeds
    (f := fun (s : Kahn) arg => (g.consumersOf arg).foldlM (g.closeSlots arg) s)
    (P := fun done s' => s'.order = s.order ++ [id] ∧
      s'.Tracks g (g.openOutside (s.order.flatMap g.outputsOf ++ done))) node.presentOutputs ?_
    { s with ready := s.ready.erase id, order := s.order ++ [id] }
    ⟨rfl, by rw [List.append_nil]; exact hs.tracks.list hid⟩
  · obtain ⟨s', hs', horder, htracks⟩ := hrun
    refine ⟨s', ?_, horder, ?_⟩
    · rw [listNode, node_eq_ok_iff.mpr hnode]
      exact hs'
    · constructor
      · rw [horder, List.flatMap_append, List.flatMap_singleton, houtputs]
        exact htracks
      · intro id' hid'
        rw [horder, List.mem_append, List.mem_singleton] at hid'
        rcases hid' with hid' | rfl
        · exact hs.live id' hid'
        · exact hlive
      · rw [horder]
        rw [List.nodup_append]
        refine ⟨hs.nodup, List.nodup_singleton id, ?_⟩
        intro id' hid' last hlast heq
        rw [List.mem_singleton] at hlast
        exact hnew (hlast ▸ heq ▸ hid')
      · rw [horder]
        exact hs.producersFirst.snoc fun source => h.mem_order_of_open_eq_zero hzero
  · rintro done arg rest s' heq ⟨horder, htracks⟩
    have harg : g.producer? arg = some id := by
      rw [h.producer?_eq_some_iff]
      exact ⟨node, hnode, by rw [heq]; simp⟩
    have hdone : arg ∉ done := by
      rw [heq, List.nodup_append] at hnodup
      intro hmem
      exact hnodup.2.2 arg hmem arg List.mem_cons_self rfl
    have hclosed : arg ∉ s.order.flatMap g.outputsOf := by
      intro hmem
      rw [List.mem_flatMap] at hmem
      obtain ⟨id', hid', hout⟩ := hmem
      rw [h.mem_outputsOf_iff, harg] at hout
      cases hout
      exact hnew hid'
    have hsome : (g.producer? arg).isSome := by simp [harg]
    have hopen : arg ∉ s.order.flatMap g.outputsOf ++ done := by
      rw [List.mem_append]
      exact not_or_intro hclosed hdone
    obtain ⟨s'', hs'', horder', htracks'⟩ := closeAll_spec h.toIndexed hsome hopen htracks
    rw [List.append_assoc] at htracks'
    exact ⟨s'', hs'', horder'.trans horder, htracks'⟩

theorem kahnRun_spec : ∀ fuel s, Kahn.Sound g s → g.nodeIds.length ≤ fuel + s.order.length →
    ∃ s', g.kahnRun fuel s = .ok s' ∧ s'.Sound g ∧ ∀ id, id ∉ s'.ready := by
  intro fuel
  induction fuel with
  | zero =>
    intro s hs hle
    refine ⟨s, rfl, hs, ?_⟩
    intro id hid
    obtain ⟨hlive, -, hnew⟩ := (hs.tracks.ready id).mp hid
    have hlt := length_lt_of_unlisted hs.nodup hs.live hlive hnew
    omega
  | succ fuel ih =>
    intro s hs hle
    rw [kahnRun]
    cases hnext : s.ready.toList.head? with
    | none =>
      refine ⟨s, rfl, hs, ?_⟩
      intro id
      rw [← Std.ExtTreeSet.mem_toList, List.head?_eq_none_iff.mp hnext]
      exact List.not_mem_nil
    | some id =>
      have hid : id ∈ s.ready := Std.ExtTreeSet.mem_toList.mp (List.mem_of_head? hnext)
      obtain ⟨s₁, hs₁, horder, hsound⟩ := h.listNode_spec hs hid
      have hle' : g.nodeIds.length ≤ fuel + s₁.order.length := by
        rw [horder, List.length_append, List.length_singleton]
        omega
      obtain ⟨s', hs', hsound', hempty⟩ := ih s₁ hsound hle'
      refine ⟨s', ?_, hsound', hempty⟩
      simp only [bind, Except.bind, hs₁]
      exact hs'

end Consistent

theorem kahnStart_fold (nodes : List Node) (hlive : ∀ node ∈ nodes, g.node? node.id = some node) :
    ∀ s : Kahn,
      let s' := nodes.foldl (fun s node =>
        let slots := g.openSlots node
        if slots = 0 then { s with ready := s.ready.insert node.id }
        else { s with waiting := s.waiting.insert node.id slots }) s
      s'.order = s.order ∧
      (∀ id : NodeId, s'.waiting[id]? =
        if id ∈ nodes.map Node.id ∧ g.openOutside [] id ≠ 0 then some (g.openOutside [] id)
        else s.waiting[id]?) ∧
      ∀ id, id ∈ s'.ready ↔ (id ∈ nodes.map Node.id ∧ g.openOutside [] id = 0) ∨ id ∈ s.ready := by
  induction nodes with
  | nil => simp
  | cons node nodes ih =>
    intro s
    have hslots : g.openSlots node = g.openOutside [] node.id := by
      rw [openOutside_of_node? (hlive node List.mem_cons_self), openSlots]
      simp
    obtain ⟨horder, hwaiting, hready⟩ :=
      ih (fun node' hnode' => hlive node' (List.mem_cons_of_mem node hnode'))
        (if g.openSlots node = 0 then { s with ready := s.ready.insert node.id }
        else { s with waiting := s.waiting.insert node.id (g.openSlots node) })
    refine ⟨?_, ?_, ?_⟩
    · rw [List.foldl_cons, horder]
      split <;> rfl
    · intro id
      rw [List.foldl_cons, hwaiting, hslots]
      simp only [List.map_cons, List.mem_cons]
      by_cases hid : id = node.id
      · rw [hid]
        split
        · next hcond => simp [hcond.2]
        · by_cases hzero : g.openOutside [] node.id = 0 <;> simp [hzero]
      · have hsame :
            (if g.openOutside [] node.id = 0 then { s with ready := s.ready.insert node.id }
            else { s with waiting := s.waiting.insert node.id (g.openOutside [] node.id) } : Kahn
            ).waiting[id]? = s.waiting[id]? := by
          split
          · rfl
          · simp [Std.ExtTreeMap.getElem?_insert, Ne.symm hid]
        simp only [hid, false_or, hsame]
    · intro id
      rw [List.foldl_cons, hready, hslots]
      split <;> grind

theorem Indexed.mem_nodeIds_of_open_ne_zero (h : g.Indexed) {closed : List ArgId} {id : NodeId}
    (hopen : g.openOutside closed id ≠ 0) : id ∈ g.nodeIds := by
  rw [openOutside] at hopen
  cases hnode : g.node? id with
  | none => simp [hnode] at hopen
  | some node => exact h.mem_nodeIds.mpr ⟨node, hnode⟩

theorem Indexed.order_kahnStart (h : g.Indexed) : g.kahnStart.order = [] :=
  (kahnStart_fold g.liveNodes (fun _ => h.mem_liveNodes.mp) ⟨∅, ∅, []⟩).1

theorem Indexed.kahnStart_sound (h : g.Indexed) : g.kahnStart.Sound g := by
  obtain ⟨-, hwaiting, hready⟩ :=
    kahnStart_fold g.liveNodes (fun node => h.mem_liveNodes.mp) ⟨∅, ∅, []⟩
  have horder := h.order_kahnStart
  constructor
  · rw [horder]
    constructor
    · intro id
      have hlive : g.openOutside [] id ≠ 0 → id ∈ g.nodeIds := h.mem_nodeIds_of_open_ne_zero
      rw [kahnStart, hwaiting, ← nodeIds]
      grind
    · intro id
      rw [kahnStart, hready, ← nodeIds, ← kahnStart, horder]
      simp
    · simp [horder]
  · simp [horder]
  · simp [horder]
  · intro before id after heq
    rw [horder] at heq
    simp at heq

namespace Consistent

variable (h : g.Consistent)

include h

/-- The search ends with every live node either listed or waiting. -/
theorem kahn_spec : ∃ s, g.kahnRun g.liveNodes.length g.kahnStart = .ok s ∧ s.Sound g ∧
    ∀ id, id ∈ s.waiting ↔ id ∈ g.nodeIds ∧ id ∉ s.order := by
  have hlength : g.nodeIds.length ≤ g.liveNodes.length + g.kahnStart.order.length := by
    rw [nodeIds, List.length_map]
    omega
  obtain ⟨s, hs, hsound, hready⟩ := h.kahnRun_spec _ _ h.kahnStart_sound hlength
  refine ⟨s, hs, hsound, ?_⟩
  intro id
  rw [Std.ExtTreeMap.mem_iff_isSome_getElem?, hsound.tracks.waiting]
  have hlive : g.openOutside (s.order.flatMap g.outputsOf) id ≠ 0 → id ∈ g.nodeIds :=
    h.mem_nodeIds_of_open_ne_zero
  have hlisted := hsound.tracks.listed id
  have hidle := hsound.tracks.ready id
  have hnone := hready id
  grind

theorem topologicalOrder_spec {order : List NodeId} (hrun : g.topologicalOrder = .ok order) :
    order.Nodup ∧ (∀ id, id ∈ order ↔ id ∈ g.nodeIds) ∧ g.ProducersFirst order := by
  obtain ⟨s, hs, hsound, hwaiting⟩ := h.kahn_spec
  rw [topologicalOrder, hs, Failure.ofFault] at hrun
  simp only [bind, Except.bind] at hrun
  split at hrun
  · next hempty =>
    cases hrun
    refine ⟨hsound.nodup, ?_, hsound.producersFirst⟩
    intro id
    refine ⟨hsound.live id, ?_⟩
    intro hlive
    by_contra hnot
    have hmem := (hwaiting id).mpr ⟨hlive, hnot⟩
    rw [Std.ExtTreeMap.isEmpty_iff.mp hempty] at hmem
    exact Std.ExtTreeMap.not_mem_empty hmem
  · split at hrun <;> cases hrun

theorem acyclic_of_topologicalOrder {order : List NodeId} (hrun : g.topologicalOrder = .ok order) :
    g.Acyclic := by
  obtain ⟨-, hmem, hfirst⟩ := h.topologicalOrder_spec hrun
  apply hfirst.acyclic
  intro source target hfeeds
  exact (hmem target).mpr (h.mem_nodeIds_of_feeds hfeeds).2

theorem acyclic_of_orderOrFault {order : List NodeId} (hrun : g.orderOrFault = .ok order) :
    g.Acyclic := by
  unfold orderOrFault at hrun
  split at hrun
  · next horder => exact h.acyclic_of_topologicalOrder horder
  · cases hrun
  · cases hrun

theorem topologicalOrder_succeeds (hacyclic : g.Acyclic) :
    ∃ order, g.topologicalOrder = .ok order := by
  obtain ⟨s, hs, hsound, hwaiting⟩ := h.kahn_spec
  have hall : ∀ id ∈ g.nodeIds, id ∈ s.order := by
    intro id
    induction id using (h.wellFounded_feeds hacyclic).induction with
    | h id ih =>
      intro hid
      by_contra hnot
      have hmem := (hwaiting id).mpr ⟨hid, hnot⟩
      have hzero : g.openOutside (s.order.flatMap g.outputsOf) id = 0 := by
        rw [openOutside_eq_zero_iff]
        intro node hnode a ha hsome
        obtain ⟨source, hsource⟩ := Option.isSome_iff_exists.mp hsome
        rw [List.mem_flatMap]
        refine ⟨source, ?_, h.mem_outputsOf_iff.mpr hsource⟩
        exact ih source ⟨node, a, hnode, ha, hsource⟩ (h.mem_nodeIds_of_producer? hsource)
      rw [Std.ExtTreeMap.mem_iff_isSome_getElem?, hsound.tracks.waiting, if_pos hzero] at hmem
      cases hmem
  have hempty : s.waiting = ∅ := by
    rw [Std.ExtTreeMap.eq_empty_iff_forall_not_mem]
    intro id hid
    obtain ⟨hlive, hnot⟩ := (hwaiting id).mp hid
    exact hnot (hall id hlive)
  refine ⟨s.order, ?_⟩
  rw [topologicalOrder, hs, Failure.ofFault]
  simp only [bind, Except.bind, hempty]
  rfl

end Consistent

end Graph

end OpGraph
