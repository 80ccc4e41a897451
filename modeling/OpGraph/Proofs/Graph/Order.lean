import OpGraph.Proofs.Graph.Topology

/-!
The nodes that a topological order lists. Whether an order is found depends on the edges, but the
search only ever moves nodes on: from the waiting ones to the ready ones and from there into the
order. So an order that is found lists every live node once, even where the slots of a node are
miscounted.
-/

namespace OpGraph.Graph

variable {g : Graph}

theorem closeSlots_eq_ok {arg : ArgId} {user : NodeId} {s s' : Kahn}
    (hrun : g.closeSlots arg s user = .ok s') :
    s' = s ∨ user ∈ s.waiting ∧
      (s' = { s with waiting := s.waiting.erase user, ready := s.ready.insert user } ∨
        ∃ left, s' = { s with waiting := s.waiting.insert user left }) := by
  rw [closeSlots, bind_eq_ok_iff] at hrun
  obtain ⟨node, -, hrun⟩ := hrun
  split at hrun
  · cases hrun
    exact .inl rfl
  · next count hcount =>
    have hwaiting : user ∈ s.waiting := by
      rw [Std.ExtTreeMap.mem_iff_isSome_getElem?, hcount]
      rfl
    rw [bind_eq_ok_iff] at hrun
    obtain ⟨left, -, hrun⟩ := hrun
    split at hrun
    · cases hrun
      exact .inr ⟨hwaiting, .inl rfl⟩
    · cases hrun
      exact .inr ⟨hwaiting, .inr ⟨left, rfl⟩⟩

namespace Kahn

structure Splits (g : Graph) (s : Kahn) : Prop where
  live : ∀ id, id ∈ g.nodeIds ↔ id ∈ s.waiting ∨ id ∈ s.ready ∨ id ∈ s.order
  waiting_apart : ∀ id ∈ s.waiting, id ∉ s.ready ∧ id ∉ s.order
  ready_apart : ∀ id ∈ s.ready, id ∉ s.order
  nodup : s.order.Nodup

namespace Splits

variable {s : Kahn} (hs : s.Splits g)

include hs

theorem recount {user : NodeId} (hwaiting : user ∈ s.waiting) (left : Nat) :
    Splits g { s with waiting := s.waiting.insert user left } := by
  have hsame : ∀ id, id ∈ s.waiting.insert user left ↔ id ∈ s.waiting := by
    intro id
    rw [Std.ExtTreeMap.mem_insert, Std.LawfulEqCmp.compare_eq_iff_eq]
    grind
  refine ⟨?_, ?_, hs.ready_apart, hs.nodup⟩
  · simpa only [hsame] using hs.live
  · simpa only [hsame] using hs.waiting_apart

theorem release {user : NodeId} (hwaiting : user ∈ s.waiting) :
    Splits g { s with waiting := s.waiting.erase user, ready := s.ready.insert user } := by
  have hgone : ∀ id, id ∈ s.waiting.erase user ↔ id ≠ user ∧ id ∈ s.waiting := by
    intro id
    rw [Std.ExtTreeMap.mem_erase, ne_eq, Std.LawfulEqCmp.compare_eq_iff_eq, eq_comm]
  have hnew : ∀ id, id ∈ s.ready.insert user ↔ id = user ∨ id ∈ s.ready := by
    intro id
    rw [Std.ExtTreeSet.mem_insert, Std.LawfulEqCmp.compare_eq_iff_eq, eq_comm]
  refine ⟨?_, ?_, ?_, hs.nodup⟩
  · intro id
    simp only [hgone, hnew, hs.live]
    grind
  · intro id
    simp only [hgone, hnew]
    have := hs.waiting_apart id
    grind
  · intro id
    simp only [hnew]
    have hwaits := hs.waiting_apart user hwaiting
    have hready := hs.ready_apart id
    grind

theorem list {id : NodeId} (hready : id ∈ s.ready) :
    Splits g { s with ready := s.ready.erase id, order := s.order ++ [id] } := by
  have hgone : ∀ id', id' ∈ s.ready.erase id ↔ id' ≠ id ∧ id' ∈ s.ready := by
    intro id'
    rw [Std.ExtTreeSet.mem_erase, ne_eq, Std.LawfulEqCmp.compare_eq_iff_eq, eq_comm]
  have hnew := hs.ready_apart id hready
  refine ⟨?_, ?_, ?_, ?_⟩
  · intro id'
    simp only [hgone, hs.live, List.mem_append, List.mem_singleton]
    grind
  · intro id'
    simp only [hgone, List.mem_append, List.mem_singleton]
    have := hs.waiting_apart id'
    grind
  · intro id'
    simp only [hgone, List.mem_append, List.mem_singleton]
    have := hs.ready_apart id'
    grind
  · rw [List.nodup_append]
    exact ⟨hs.nodup, List.nodup_singleton id, by grind⟩

theorem closeSlots {arg : ArgId} {user : NodeId} {s' : Kahn}
    (hrun : g.closeSlots arg s user = .ok s') : s'.Splits g ∧ s'.order = s.order := by
  obtain rfl | ⟨hwaiting, rfl | ⟨left, rfl⟩⟩ := closeSlots_eq_ok hrun
  · exact ⟨hs, rfl⟩
  · exact ⟨hs.release hwaiting, rfl⟩
  · exact ⟨hs.recount hwaiting left, rfl⟩

theorem listNode {id : NodeId} (hready : id ∈ s.ready) {s' : Kahn}
    (hrun : g.listNode s id = .ok s') : s'.Splits g ∧ s'.order = s.order ++ [id] := by
  rw [Graph.listNode, bind_eq_ok_iff] at hrun
  obtain ⟨node, -, hrun⟩ := hrun
  -- Once the node is listed, closing slots leaves the order alone.
  let Kept (s' : Kahn) : Prop := s'.Splits g ∧ s'.order = s.order ++ [id]
  refine foldlM_keeps (P := Kept) _ ?_ _ s' ⟨hs.list hready, rfl⟩ hrun
  intro arg _ s₁ s₂ hs₁ hrun
  refine foldlM_keeps (P := Kept) _ ?_ s₁ s₂ hs₁ hrun
  intro user _ t t' ht hstep
  obtain ⟨hsplits, horder⟩ := ht.1.closeSlots hstep
  exact ⟨hsplits, horder.trans ht.2⟩

end Splits

end Kahn

theorem splits_kahnRun {fuel : Nat} {s s' : Kahn} (hs : s.Splits g)
    (hfuel : g.nodeIds.length ≤ fuel + s.order.length) (hrun : g.kahnRun fuel s = .ok s') :
    s'.Splits g ∧ ∀ id, id ∉ s'.ready := by
  induction fuel generalizing s with
  | zero =>
    cases hrun
    refine ⟨hs, ?_⟩
    intro id hid
    have hlive : ∀ id ∈ s'.order, id ∈ g.nodeIds := fun id hid => (hs.live id).mpr (.inr (.inr hid))
    have hlt := length_lt_of_unlisted hs.nodup hlive ((hs.live id).mpr (.inr (.inl hid)))
      (hs.ready_apart id hid)
    omega
  | succ fuel ih =>
    rw [kahnRun] at hrun
    split at hrun
    · next hnext =>
      cases hrun
      refine ⟨hs, ?_⟩
      intro id
      rw [← Std.ExtTreeSet.mem_toList, List.head?_eq_none_iff.mp hnext]
      exact List.not_mem_nil
    · next id hnext =>
      rw [bind_eq_ok_iff] at hrun
      obtain ⟨s₁, hlist, hrun⟩ := hrun
      have hid : id ∈ s.ready := Std.ExtTreeSet.mem_toList.mp (List.mem_of_head? hnext)
      obtain ⟨hs₁, horder⟩ := hs.listNode hid hlist
      refine ih hs₁ ?_ hrun
      rw [horder, List.length_append, List.length_singleton]
      omega

theorem orderOrFault_eq_ok {order : List NodeId} (hrun : g.orderOrFault = .ok order) :
    ∃ s, g.kahnRun g.liveNodes.length g.kahnStart = .ok s ∧ s.waiting.isEmpty = true ∧
      order = s.order := by
  unfold orderOrFault at hrun
  split at hrun
  · next horder =>
    cases hrun
    rw [topologicalOrder, bind_eq_ok_iff] at horder
    obtain ⟨s, hs, horder⟩ := horder
    rw [ofFault_eq_ok_iff] at hs
    split at horder
    · next hempty =>
      cases horder
      exact ⟨s, hs, hempty, rfl⟩
    · rw [bind_eq_ok_iff] at horder
      obtain ⟨names, -, horder⟩ := horder
      cases horder
  · cases hrun
  · cases hrun

namespace Indexed

variable (h : g.Indexed)

include h

theorem splits_kahnStart : g.kahnStart.Splits g := by
  have hsound := h.kahnStart_sound
  have hwaiting : ∀ id, id ∈ g.kahnStart.waiting ↔
      g.openOutside (g.kahnStart.order.flatMap g.outputsOf) id ≠ 0 := by
    intro id
    rw [Std.ExtTreeMap.mem_iff_isSome_getElem?, hsound.tracks.waiting]
    split <;> simp_all
  refine ⟨?_, ?_, ?_, hsound.nodup⟩
  · intro id
    rw [hwaiting, hsound.tracks.ready]
    have hopen : g.openOutside (g.kahnStart.order.flatMap g.outputsOf) id ≠ 0 → id ∈ g.nodeIds :=
      h.mem_nodeIds_of_open_ne_zero
    have hlive := hsound.live id
    grind
  · intro id
    rw [hwaiting, hsound.tracks.ready]
    have hlisted := hsound.tracks.listed id
    grind
  · intro id hid
    exact ((hsound.tracks.ready id).mp hid).2.2

theorem orderOrFault_lists {order : List NodeId} (hrun : g.orderOrFault = .ok order) :
    order.Nodup ∧ ∀ id, id ∈ order ↔ id ∈ g.nodeIds := by
  obtain ⟨s, hs, hempty, rfl⟩ := orderOrFault_eq_ok hrun
  have hfuel : g.nodeIds.length ≤ g.liveNodes.length + g.kahnStart.order.length := by
    rw [nodeIds, List.length_map]
    omega
  obtain ⟨hsplits, hready⟩ := splits_kahnRun h.splits_kahnStart hfuel hs
  refine ⟨hsplits.nodup, ?_⟩
  intro id
  have hnone : id ∉ s.waiting := by
    rw [Std.ExtTreeMap.isEmpty_iff.mp hempty]
    exact Std.ExtTreeMap.not_mem_empty
  rw [hsplits.live]
  simp [hnone, hready id]

end Indexed

/-! ### Nodes that are not where their handles say -/

namespace Kahn

structure Covers (g : Graph) (fuel : Nat) (s : Kahn) : Prop where
  live : ∀ id ∈ g.nodeIds, id ∈ s.waiting ∨ id ∈ s.ready ∨ id ∈ s.order
  size_le : s.waiting.size + s.ready.size ≤ fuel

namespace Covers

variable {fuel : Nat} {s : Kahn}

theorem closeSlots (hs : s.Covers g fuel) {arg : ArgId} {user : NodeId} {s' : Kahn}
    (hrun : g.closeSlots arg s user = .ok s') : s'.Covers g fuel := by
  have hsize := hs.size_le
  obtain rfl | ⟨hwaiting, rfl | ⟨left, rfl⟩⟩ := closeSlots_eq_ok hrun
  · exact hs
  · have hpos : s.waiting.size ≠ 0 := fun hzero =>
      Std.ExtTreeMap.ne_empty_of_mem hwaiting (Std.ExtTreeMap.eq_empty_iff_size_eq_zero.mpr hzero)
    have hready : (s.ready.insert user).size ≤ s.ready.size + 1 := Std.ExtTreeSet.size_insert_le
    constructor
    · intro id hid
      have hlive := hs.live id hid
      simp only [Std.ExtTreeMap.mem_erase, Std.ExtTreeSet.mem_insert, ne_eq,
        Std.LawfulEqCmp.compare_eq_iff_eq]
      grind
    · simp only [Std.ExtTreeMap.size_erase, Std.ExtTreeMap.contains_iff_mem, if_pos hwaiting]
      omega
  · constructor
    · intro id hid
      have hlive := hs.live id hid
      simp only [Std.ExtTreeMap.mem_insert]
      grind
    · simp only [Std.ExtTreeMap.size_insert, Std.ExtTreeMap.contains_iff_mem, if_pos hwaiting]
      exact hsize

theorem list (hs : s.Covers g (fuel + 1)) {id : NodeId} (hready : id ∈ s.ready) :
    Covers g fuel { s with ready := s.ready.erase id, order := s.order ++ [id] } := by
  have hpos : s.ready.size ≠ 0 := by
    intro hzero
    rw [Std.ExtTreeSet.eq_empty_iff_size_eq_zero.mpr hzero] at hready
    exact Std.ExtTreeSet.not_mem_empty hready
  have hsize := hs.size_le
  constructor
  · intro id' hid'
    have hlive := hs.live id' hid'
    simp only [Std.ExtTreeSet.mem_erase, ne_eq, Std.LawfulEqCmp.compare_eq_iff_eq, List.mem_append,
      List.mem_singleton]
    grind
  · simp only [Std.ExtTreeSet.size_erase, Std.ExtTreeSet.contains_iff_mem, if_pos hready]
    omega

theorem listNode (hs : s.Covers g (fuel + 1)) {id : NodeId} (hready : id ∈ s.ready) {s' : Kahn}
    (hrun : g.listNode s id = .ok s') : s'.Covers g fuel := by
  rw [Graph.listNode, bind_eq_ok_iff] at hrun
  obtain ⟨node, -, hrun⟩ := hrun
  refine foldlM_keeps (P := Covers g fuel) _ ?_ _ s' (hs.list hready) hrun
  intro arg _ s₁ s₂ hs₁ hrun
  exact foldlM_keeps (P := Covers g fuel) _ (fun user _ t t' ht => ht.closeSlots) s₁ s₂ hs₁ hrun

end Covers

end Kahn

theorem kahnStart_enters (nodes : List Node) (s : Kahn) :
    let s' := nodes.foldl (fun s node =>
      let slots := g.openSlots node
      if slots = 0 then { s with ready := s.ready.insert node.id }
      else { s with waiting := s.waiting.insert node.id slots }) s
    (∀ id, id ∈ nodes.map Node.id ∨ id ∈ s.waiting ∨ id ∈ s.ready →
      id ∈ s'.waiting ∨ id ∈ s'.ready) ∧
    s'.waiting.size + s'.ready.size ≤ s.waiting.size + s.ready.size + nodes.length := by
  induction nodes generalizing s with
  | nil => simp
  | cons node nodes ih =>
    rw [List.foldl_cons]
    obtain ⟨henters, hsize⟩ := ih (if g.openSlots node = 0 then
      { s with ready := s.ready.insert node.id }
      else { s with waiting := s.waiting.insert node.id (g.openSlots node) })
    refine ⟨?_, Nat.le_trans hsize ?_⟩
    · intro id hid
      apply henters
      rw [List.map_cons, List.mem_cons] at hid
      split
      · simp only [Std.ExtTreeSet.mem_insert, Std.LawfulEqCmp.compare_eq_iff_eq]
        grind
      · simp only [Std.ExtTreeMap.mem_insert, Std.LawfulEqCmp.compare_eq_iff_eq]
        grind
    · have hready : (s.ready.insert node.id).size ≤ s.ready.size + 1 :=
        Std.ExtTreeSet.size_insert_le
      have hwaiting : (s.waiting.insert node.id (g.openSlots node)).size ≤ s.waiting.size + 1 :=
        Std.ExtTreeMap.size_insert_le
      rw [List.length_cons]
      split
      · dsimp only
        omega
      · dsimp only
        omega

theorem covers_kahnStart : g.kahnStart.Covers g g.liveNodes.length := by
  obtain ⟨henters, hsize⟩ := kahnStart_enters (g := g) g.liveNodes ⟨∅, ∅, []⟩
  refine ⟨fun id hid => ?_, ?_⟩
  · rw [← or_assoc]
    exact .inl (henters id (.inl hid))
  · simpa [kahnStart] using hsize

theorem covers_kahnRun {fuel : Nat} {s s' : Kahn} (hs : s.Covers g fuel)
    (hrun : g.kahnRun fuel s = .ok s') : ∀ id ∈ g.nodeIds, id ∈ s'.waiting ∨ id ∈ s'.order := by
  induction fuel generalizing s with
  | zero =>
    cases hrun
    intro id hid
    have hempty : s'.ready = ∅ := by
      have hsize := hs.size_le
      exact Std.ExtTreeSet.eq_empty_iff_size_eq_zero.mpr (by omega)
    have hlive := hs.live id hid
    rw [hempty] at hlive
    simpa using hlive
  | succ fuel ih =>
    rw [kahnRun] at hrun
    split at hrun
    · next hnext =>
      cases hrun
      intro id hid
      have hlive := hs.live id hid
      rw [← Std.ExtTreeSet.mem_toList, List.head?_eq_none_iff.mp hnext] at hlive
      simpa using hlive
    · next id hnext =>
      rw [bind_eq_ok_iff] at hrun
      obtain ⟨s₁, hlist, hrun⟩ := hrun
      have hid : id ∈ s.ready := Std.ExtTreeSet.mem_toList.mp (List.mem_of_head? hnext)
      exact ih (hs.listNode hid hlist) hrun

theorem mem_of_orderOrFault {order : List NodeId} (hrun : g.orderOrFault = .ok order) {id : NodeId}
    (hid : id ∈ g.nodeIds) : id ∈ order := by
  obtain ⟨s, hs, hempty, rfl⟩ := orderOrFault_eq_ok hrun
  obtain hwaiting | horder := covers_kahnRun covers_kahnStart hs id hid
  · rw [Std.ExtTreeMap.isEmpty_iff.mp hempty] at hwaiting
    exact absurd hwaiting Std.ExtTreeMap.not_mem_empty
  · exact horder

/-! ### Failures -/

section

variable {P : Fault → Prop} (hstale : ∀ id, P (.staleNode id)) (hoverflow : ∀ o, P (.overflow o))

include hstale

theorem failsAs_node (id : NodeId) : FailsAs P (g.node id) := by
  intro f hf
  rw [Graph.node] at hf
  split at hf
  · cases hf
  · cases hf
    exact hstale id

include hoverflow

theorem failsAs_closeSlots (arg : ArgId) (s : Kahn) (user : NodeId) :
    FailsAs P (g.closeSlots arg s user) := by
  refine failsAs_bind (failsAs_node hstale user) fun node _ => ?_
  split
  · exact failsAs_ok
  · refine failsAs_bind ?_ fun left _ => ?_
    · intro f hf
      unfold Fault.ofOverflow at hf
      split at hf
      · cases hf
      · next o _ =>
        cases hf
        exact hoverflow o
    · split
      · exact failsAs_ok
      · exact failsAs_ok

theorem failsAs_kahnRun (fuel : Nat) (s : Kahn) : FailsAs P (g.kahnRun fuel s) := by
  induction fuel generalizing s with
  | zero => exact failsAs_ok
  | succ fuel ih =>
    rw [kahnRun]
    split
    · exact failsAs_ok
    · refine failsAs_bind (failsAs_bind (failsAs_node hstale _) fun node _ => ?_) fun s₁ _ => ih s₁
      refine failsAs_foldlM _ (fun s₂ arg _ => ?_) _
      exact failsAs_foldlM _ (fun s₃ user _ => failsAs_closeSlots hstale hoverflow arg s₃ user) s₂

theorem failsAs_topologicalOrder :
    FailsAs (fun failure => ∀ f, failure = .fault f → P f) g.topologicalOrder := by
  have hfault : ∀ {α : Type} {x : Except Fault α}, FailsAs P x →
      FailsAs (fun failure : Failure GraphError => ∀ f, failure = .fault f → P f)
        (Failure.ofFault x) := by
    intro α x hx
    refine failsAs_ofFault fun f hf f' heq => ?_
    cases heq
    exact hx f hf
  refine failsAs_bind (hfault (failsAs_kahnRun hstale hoverflow _ _)) fun s _ => ?_
  split
  · exact failsAs_ok
  · refine failsAs_bind (hfault (failsAs_mapM fun id _ => ?_)) fun names _ => ?_
    · exact failsAs_map (failsAs_node hstale id) Node.name
    · intro failure hfailure f heq
      cases hfailure
      cases heq

theorem failsAs_orderOrFault (hcycle : ∀ e, P (.notAcyclic g.name e)) :
    FailsAs P g.orderOrFault := by
  intro f hf
  unfold orderOrFault at hf
  split at hf
  · cases hf
  · cases hf
    exact hcycle _
  · next f' hsearch =>
    cases hf
    exact failsAs_topologicalOrder hstale hoverflow _ hsearch f rfl

end

theorem head?_toList_le {ids : Std.ExtTreeSet NodeId} {first id : NodeId}
    (hfirst : ids.toList.head? = some first) (hid : id ∈ ids) : first.index ≤ id.index := by
  have hordered := ids.ordered_toList
  rw [← Std.ExtTreeSet.mem_toList] at hid
  rw [List.eq_cons_of_mem_head? hfirst] at hid hordered
  rcases List.mem_cons.mp hid with rfl | hmem
  · exact Nat.le_refl _
  · have hcompare := List.rel_of_pairwise_cons hordered hmem
    rw [Handle.compare_def, Nat.compare_eq_lt] at hcompare
    exact Nat.le_of_lt hcompare

/-! ### Graphs whose handles are in order -/

theorem Indexed.acyclic_of_ascending (h : g.Indexed)
    (hlt : ∀ node ∈ g.liveNodes, ∀ a ∈ node.presentInputs, ∀ source ∈ g.producer? a,
      source.index < node.id.index) : g.Acyclic := by
  have hfeeds : ∀ source target, g.Feeds source target → source.index < target.index := by
    rintro source target ⟨node, a, hnode, ha, hsource⟩
    obtain rfl := h.node_id target node hnode
    exact hlt node (h.mem_liveNodes.mpr hnode) a ha source hsource
  have hpath : ∀ source target, Relation.TransGen g.Feeds source target →
      source.index < target.index := by
    intro source target hpath
    induction hpath with
    | single hedge => exact hfeeds _ _ hedge
    | tail _ hedge ih => exact Nat.lt_trans ih (hfeeds _ _ hedge)
  intro id hcycle
  exact Nat.lt_irrefl _ (hpath id id hcycle)

section Ascending

variable (h : g.Consistent)
  (hlt : ∀ source target, g.Feeds source target → source.index < target.index)

include h hlt

theorem head_ready {s : Kahn} (hs : s.Sound g) {id : NodeId} {rest : List NodeId}
    (hsplit : g.nodeIds = s.order ++ id :: rest) : s.ready.toList.head? = some id := by
  have hascending : (s.order ++ id :: rest).Pairwise fun x y => x.index < y.index := by
    rw [← hsplit]
    exact List.pairwise_map.mpr h.liveNodes_ascending
  rw [List.pairwise_append] at hascending
  have hrest : ∀ x ∈ id :: rest, id.index ≤ x.index := by
    intro x hx
    rcases List.mem_cons.mp hx with rfl | hx
    · exact Nat.le_refl _
    · exact Nat.le_of_lt (List.rel_of_pairwise_cons hascending.2.1 hx)
  have hnew : id ∉ s.order := fun hmem =>
    Nat.lt_irrefl _ (hascending.2.2 id hmem id List.mem_cons_self)
  have hready : id ∈ s.ready := by
    refine (hs.tracks.ready id).mpr ⟨by rw [hsplit]; simp, ?_, hnew⟩
    rw [openOutside_eq_zero_iff]
    intro node hnode a ha hsome
    obtain ⟨source, hsource⟩ := Option.isSome_iff_exists.mp hsome
    have hbefore := hlt source id ⟨node, a, hnode, ha, hsource⟩
    have hlive := h.mem_nodeIds_of_producer? hsource
    rw [hsplit, List.mem_append] at hlive
    refine List.mem_flatMap.mpr ⟨source, ?_, h.mem_outputsOf_iff.mpr hsource⟩
    exact hlive.resolve_right fun hmem => Nat.not_le_of_lt hbefore (hrest source hmem)
  have hleast : ∀ x ∈ s.ready, id.index ≤ x.index := by
    intro x hx
    obtain ⟨hlive, -, hunlisted⟩ := (hs.tracks.ready x).mp hx
    rw [hsplit, List.mem_append] at hlive
    exact hrest x (hlive.resolve_left hunlisted)
  obtain ⟨first, hfirst⟩ := Option.isSome_iff_exists.mp
    (List.isSome_head?.mpr (List.ne_nil_of_mem (Std.ExtTreeSet.mem_toList.mpr hready)))
  have hmem : first ∈ s.ready := Std.ExtTreeSet.mem_toList.mp (List.mem_of_head? hfirst)
  have heq := Nat.le_antisymm (head?_toList_le hfirst hready) (hleast first hmem)
  rw [hfirst, Handle.ext_iff_index.mpr heq]

theorem kahnRun_ascending (rest : List NodeId) : ∀ fuel s, Kahn.Sound g s →
    g.nodeIds = s.order ++ rest → rest.length ≤ fuel →
    ∃ s', g.kahnRun fuel s = .ok s' ∧ s'.order = g.nodeIds := by
  induction rest with
  | nil =>
    intro fuel s hs hsplit _
    rw [List.append_nil] at hsplit
    have hnone : s.ready.toList.head? = none := by
      rw [List.head?_eq_none_iff, List.eq_nil_iff_forall_not_mem]
      intro id hid
      obtain ⟨hlive, -, hunlisted⟩ := (hs.tracks.ready id).mp (Std.ExtTreeSet.mem_toList.mp hid)
      exact hunlisted (hsplit ▸ hlive)
    refine ⟨s, ?_, hsplit.symm⟩
    cases fuel with
    | zero => rfl
    | succ fuel => rw [kahnRun, hnone]
  | cons id rest ih =>
    intro fuel s hs hsplit hfuel
    cases fuel with
    | zero => cases hfuel
    | succ fuel =>
      have hhead := head_ready h hlt hs hsplit
      have hready : id ∈ s.ready := Std.ExtTreeSet.mem_toList.mp (List.mem_of_head? hhead)
      obtain ⟨s₁, hs₁, horder, hsound⟩ := h.listNode_spec hs hready
      have hsplit₁ : g.nodeIds = s₁.order ++ rest := by
        rw [horder, hsplit, List.append_assoc]
        rfl
      obtain ⟨s', hs', horder'⟩ := ih fuel s₁ hsound hsplit₁ (Nat.le_of_succ_le_succ hfuel)
      refine ⟨s', ?_, horder'⟩
      rw [kahnRun, hhead]
      simp only [hs₁, ok_bind]
      exact hs'

theorem orderOrFault_ascending : g.orderOrFault = .ok g.nodeIds := by
  have hacyclic : g.Acyclic := h.acyclic_of_ascending fun node hnode a ha source hsource =>
    hlt source node.id ⟨node, a, h.mem_liveNodes.mp hnode, ha, hsource⟩
  obtain ⟨order, horder⟩ := h.topologicalOrder_succeeds hacyclic
  have hrun : g.orderOrFault = .ok order := by rw [orderOrFault, horder]
  obtain ⟨s, hs, -, rfl⟩ := orderOrFault_eq_ok hrun
  have hstart : g.nodeIds = g.kahnStart.order ++ g.nodeIds := by
    rw [h.order_kahnStart, List.nil_append]
  obtain ⟨s', hs', hids⟩ := kahnRun_ascending h hlt g.nodeIds g.liveNodes.length g.kahnStart
    h.kahnStart_sound hstart (Nat.le_of_eq (List.length_map _))
  rw [hs] at hs'
  cases hs'
  rw [hrun, hids]

end Ascending

end OpGraph.Graph
