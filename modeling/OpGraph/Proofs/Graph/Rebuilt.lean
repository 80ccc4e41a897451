import OpGraph.Graph.Resolve
import OpGraph.Proofs.Graph.Indexed

/-!
The producers and consumers of a graph with sound indices are the ones that can be rebuilt from its
live nodes.
-/

namespace OpGraph

namespace Graph

variable {g : Graph}

def rebuiltProducers (g : Graph) : Std.ExtTreeMap ArgId NodeId :=
  g.liveNodes.foldl (fun producers node =>
    node.presentOutputs.foldl (fun producers arg => producers.insert arg node.id) producers) ∅

theorem getElem?_foldl_producers (nodes : List Node) (producers : Std.ExtTreeMap ArgId NodeId)
    (a : ArgId) (id : NodeId)
    (hunique : ∀ node ∈ nodes, a ∈ node.presentOutputs → node.id = id) :
    (nodes.foldl (fun producers node =>
      node.presentOutputs.foldl (fun producers arg => producers.insert arg node.id) producers)
      producers)[a]?
      =
    if ∃ node ∈ nodes, a ∈ node.presentOutputs then some id else producers[a]? := by
  induction nodes generalizing producers with
  | nil => simp
  | cons node nodes ih =>
    rw [List.foldl_cons, ih _ (fun n hn => hunique n (List.mem_cons_of_mem node hn)),
      getElem?_foldl_insert]
    by_cases hrest : ∃ n ∈ nodes, a ∈ n.presentOutputs
    · obtain ⟨n, hn, ha⟩ := hrest
      rw [if_pos ⟨n, hn, ha⟩, if_pos ⟨n, List.mem_cons_of_mem node hn, ha⟩]
    · rw [if_neg hrest]
      by_cases hnode : a ∈ node.presentOutputs
      · rw [if_pos hnode, if_pos ⟨node, List.mem_cons_self, hnode⟩,
          hunique node List.mem_cons_self hnode]
      · rw [if_neg hnode, if_neg]
        rintro ⟨n, hn, ha⟩
        obtain rfl | hn := List.mem_cons.mp hn
        · exact hnode ha
        · exact hrest ⟨n, hn, ha⟩

theorem Indexed.producers_eq (h : g.Indexed) : g.producers = g.rebuiltProducers := by
  apply Std.ExtTreeMap.ext_getElem?
  intro a
  rw [rebuiltProducers]
  cases ha : g.producers[a]? with
  | none =>
    have hnone : ∀ node ∈ g.liveNodes, a ∉ node.presentOutputs := by
      intro node hnode hmem
      have := (h.producers_iff a node.id).mpr ⟨node, h.mem_liveNodes.mp hnode, hmem⟩
      rw [ha] at this
      cases this
    rw [getElem?_foldl_producers _ _ a default
      (fun node hnode hmem => absurd hmem (hnone node hnode)), if_neg]
    · simp
    · rintro ⟨node, hnode, hmem⟩
      exact hnone node hnode hmem
  | some id =>
    obtain ⟨node, hn, hmem⟩ := (h.producers_iff a id).mp ha
    rw [getElem?_foldl_producers _ _ a id, if_pos]
    · refine ⟨node, ?_, hmem⟩
      rw [h.mem_liveNodes, h.node_id id node hn]
      exact hn
    · intro node' hnode' hmem'
      exact h.producer_unique (h.mem_liveNodes.mp hnode') hmem' hn hmem

theorem foldl_consumers (nodes : List Node) {c : Std.ExtTreeMap ArgId Uses} (hc : Tidy c) :
    Tidy (nodes.foldl (fun c node =>
      node.presentInputs.foldl (fun c arg => addUse c arg node.id) c) c) ∧
    ∀ a id, countIn (nodes.foldl (fun c node =>
      node.presentInputs.foldl (fun c arg => addUse c arg node.id) c) c) a id
      =
    countIn c a id +
      ((nodes.filter fun node => node.id = id).flatMap Node.presentInputs).count a := by
  induction nodes generalizing c with
  | nil => simp [hc]
  | cons node nodes ih =>
    obtain ⟨htidy, hcount⟩ := foldl_addUse node.presentInputs node.id hc
    obtain ⟨htidy', hcount'⟩ := ih htidy
    refine ⟨htidy', ?_⟩
    intro a id
    rw [List.foldl_cons, hcount', hcount, List.filter_cons]
    by_cases hid : node.id = id
    · simp [hid]
      omega
    · simp [hid]

theorem Indexed.consumers_eq (h : g.Indexed) : g.consumers = g.statedConsumers := by
  obtain ⟨htidy, hcount⟩ := foldl_consumers g.liveNodes tidy_empty
  apply Tidy.ext h.consumers_tidy htidy
  intro a id
  refine Eq.trans ?_ (hcount a id).symm
  rw [h.consumers_count, countIn_empty, Nat.zero_add]
  -- At most one live node has the handle.
  have hpair : (g.liveNodes.filter fun node => node.id = id).Pairwise fun node node' =>
      node.id.index < node'.id.index := h.liveNodes_ascending.filter _
  have hmem : ∀ node,
      node ∈ g.liveNodes.filter (fun node => node.id = id) ↔ g.node? id = some node := by
    intro node
    rw [List.mem_filter, h.mem_liveNodes, decide_eq_true_eq]
    constructor
    · rintro ⟨hn, rfl⟩
      exact hn
    · intro hn
      rw [h.node_id id node hn]
      exact ⟨hn, rfl⟩
  generalize g.liveNodes.filter (fun node => node.id = id) = found at hpair hmem
  match found, hpair, hmem with
  | [], _, hmem =>
    have hnone : g.node? id = none := by
      rw [Option.eq_none_iff_forall_ne_some]
      intro node hn
      exact List.not_mem_nil ((hmem node).mpr hn)
    simp [readCount, hnone]
  | [node], _, hmem =>
    rw [readCount_of_node? ((hmem node).mp List.mem_cons_self)]
    simp
  | node :: node' :: rest, hpair, hmem =>
    have hn := (hmem node).mp List.mem_cons_self
    have hn' := (hmem node').mp (List.mem_cons_of_mem node List.mem_cons_self)
    rw [hn] at hn'
    have hlt : node.id.index < node'.id.index :=
      List.rel_of_pairwise_cons hpair List.mem_cons_self
    rw [← Option.some.inj hn'] at hlt
    omega

end Graph

end OpGraph
